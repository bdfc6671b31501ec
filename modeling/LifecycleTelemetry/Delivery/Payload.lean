import LifecycleTelemetry.Json.Printer
import LifecycleTelemetry.Json.Value

/-!
# Payloads

What is sent for one event: its name, the device and, where it is known, the user it happened to, the
time in milliseconds since the start of 1970, and its properties. A payload travels as the compact
text of an object with these members in this order.
-/

namespace LifecycleTelemetry

/-- What is said of one event. -/
structure Message where
  event : String
  deviceId : String
  userId : Option String
  properties : Json.Fields
deriving DecidableEq

/-- What is sent for one event: a message, and the time at which it was made. -/
structure Payload extends Message where
  timestamp : Int
deriving DecidableEq

namespace Payload

/-- The members of a payload, in the order in which they are sent. -/
def members (p : Payload) : List (String × Json) :=
  [("event", .string p.event), ("deviceId", .string p.deviceId)] ++
    (p.userId.map fun s => ("userId", Json.string s)).toList ++
    [("timestamp", Json.ofInt p.timestamp), ("properties", .object p.properties)]

/-- A payload as an object. -/
def json (p : Payload) : Json :=
  .object p.members

/-- The text in which a payload travels. -/
def text (p : Payload) : String :=
  p.json.compact

end Payload
end LifecycleTelemetry
