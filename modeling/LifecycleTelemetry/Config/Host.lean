import LifecycleTelemetry.Calendar.Moment
import LifecycleTelemetry.Config.FileTree
import LifecycleTelemetry.Log

/-!
# The host

What a process sees of the machine it runs on: the files, the environment, the home that goes with the
account, the clock, the kind of system, and a source of fresh identifiers. The log gathers what the library
has said so far.
-/

namespace LifecycleTelemetry

/-- A machine as a process sees it. Identifiers are drawn from `identifier` one after the other. -/
structure Host where
  files : FileTree
  environment : Environment
  accountHome : Option String
  now : Calendar.Instant
  platform : String
  arch : String
  identifier : Nat → String
  drawn : Nat
  log : List LogLine

namespace Host

/-- The host after a line has been added to the log. -/
def say (host : Host) (level : LogLevel) (source : LogSource) (message : String)
    (fields : Json.Fields) : Host :=
  { host with log := host.log ++ [⟨level, source, message, fields⟩] }

/-- A fresh identifier. -/
def draw (host : Host) : String × Host :=
  (host.identifier host.drawn, { host with drawn := host.drawn + 1 })

@[simp]
theorem say_files
    (host : Host)
    (level : LogLevel)
    (source : LogSource)
    (message : String)
    (fields : Json.Fields) :
    (host.say level source message fields).files = host.files :=
  rfl

end Host
end LifecycleTelemetry
