import LifecycleTelemetry.Config.Collector
import LifecycleTelemetry.Delivery.Payload
import LifecycleTelemetry.Text.Diagnostic

/-!
# The delivery client

Builds payloads and hands them to a transport. A client without a transport never sends anything;
one made for a collector has a transport exactly when the collector has a usable source key.
-/

namespace LifecycleTelemetry

/-- How payloads leave the process: into memory, or by requests to an address. -/
inductive Transport where
  | recording
  | http (endpoint sourceKey : String) (timeoutSeconds : Nat)
deriving DecidableEq

/-- The name of a transport. -/
def Transport.name : Transport → String
  | .recording => "recording"
  | .http _ _ _ => "http"

/-- Who sends, and by what. -/
structure DeliveryClient where
  transport : Option Transport
  deviceId : String
  userId : Option String
deriving DecidableEq

namespace DeliveryClient

/-- The client for a collector. -/
def ofCollector (collector : Collector) (deviceId : String) (userId : Option String) :
    DeliveryClient :=
  { transport := collector.credential?.map fun key =>
      .http collector.endpoint key collector.timeoutSeconds
    deviceId
    userId }

/-- Whether a client can send anything. -/
def isEnabled (c : DeliveryClient) : Bool :=
  c.transport.isSome

/-- What a client says of an event. -/
def message (c : DeliveryClient) (event : String) (properties : Json.Fields) : Message :=
  { event
    deviceId := c.deviceId
    userId := c.userId
    properties }

/-- The payload of an event sent by a client at a time. -/
def payload (c : DeliveryClient) (event : String) (timestamp : Int) (properties : Json.Fields) :
    Payload :=
  { c.message event properties with timestamp }

/-- A client in diagnostic output. -/
def diagnostic (c : DeliveryClient) : String :=
  "DeliveryClient \x7b transport: " ++ Text.diagnosticOption (c.transport.map Transport.name) ++
    ", device_id: " ++ Text.diagnostic c.deviceId ++
    ", user_id: " ++ Text.diagnosticOption c.userId ++ " \x7d"

/-- A client can send exactly when its collector has a usable source key. -/
@[simp]
theorem isEnabled_ofCollector
    (collector : Collector)
    (deviceId : String)
    (userId : Option String) :
    (ofCollector collector deviceId userId).isEnabled = collector.credential?.isSome := by
  simp [ofCollector, isEnabled]

end DeliveryClient
end LifecycleTelemetry
