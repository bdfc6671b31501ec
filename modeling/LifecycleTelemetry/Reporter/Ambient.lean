import LifecycleTelemetry.Json.Value

/-!
# The ambient of a reporter

What every event of one process has in common: the session it belongs to, the system it runs on, the
version of the program, and whether the program is used for the first time.
-/

namespace LifecycleTelemetry

/-- What every event of a process has in common. -/
structure Ambient where
  sessionId : String
  platform : String
  arch : String
  version : String
  isFirstUsage : Bool
deriving DecidableEq

/-- The version of the program. -/
def programVersion : String := "0.1.0"

/-- The fields that an ambient adds to every event. -/
def Ambient.fields (a : Ambient) : Json.Fields :=
  [("c3Version", .string a.version), ("isFirstUsage", .bool a.isFirstUsage),
    ("os", .object [("arch", .string a.arch), ("platform", .string a.platform)]),
    ("sessionId", .string a.sessionId)]

end LifecycleTelemetry
