import LifecycleTelemetry.Config.Environment

/-!
# The collector

Where events are delivered, and with which credential. The address and the source key can be set in
the environment; blanks around them do not count, and a blank value is as good as none. A program may have
been built with a source key of its own. Without a usable source key nothing is ever sent.
-/

namespace LifecycleTelemetry

/-- Where and how events are delivered. -/
structure Collector where
  endpoint : String
  sourceKey : Option String
  timeoutSeconds : Nat
deriving DecidableEq

namespace Collector

/-- The collector of a program to which nothing has been said: it has the source key that the program was
built with, if any. -/
def default (builtIn : Option String) : Collector :=
  { endpoint := "https://sparrow.cloudflare.com/api/v1/event"
    sourceKey := builtIn
    timeoutSeconds := 10 }

/-- The collector with the address and the key that the environment gives. -/
def withEnvironment (c : Collector) (env : Environment) : Collector :=
  { c with
    endpoint := (Environment.trimmed? env "C3_TELEMETRY_ENDPOINT").getD c.endpoint
    sourceKey := (Environment.trimmed? env "SPARROW_SOURCE_KEY").or c.sourceKey }

/-- The collector that a process uses. -/
def ofEnvironment (builtIn : Option String) (env : Environment) : Collector :=
  (default builtIn).withEnvironment env

/-- The source key, where there is one that can be used. -/
def credential? (c : Collector) : Option String :=
  c.sourceKey.bind fun key =>
    let trimmed := Text.trim key
    if trimmed.isEmpty then none else some trimmed

/-- What is said in the environment never touches the time limit. -/
@[simp]
theorem withEnvironment_timeoutSeconds
    (c : Collector)
    (env : Environment) :
    (c.withEnvironment env).timeoutSeconds = c.timeoutSeconds :=
  rfl

/-- Applying the same environment again changes nothing. -/
theorem withEnvironment_idem
    (c : Collector)
    (env : Environment) :
    (c.withEnvironment env).withEnvironment env = c.withEnvironment env := by
  simp only [withEnvironment]
  congr 1
  · cases Environment.trimmed? env "C3_TELEMETRY_ENDPOINT" <;> rfl
  · cases Environment.trimmed? env "SPARROW_SOURCE_KEY" <;> rfl

end Collector

/-- Whether the environment turns reporting off for a process. -/
def reportingSwitchedOff (env : Environment) : Bool :=
  match Environment.text? env "C3_TELEMETRY_DISABLED" with
  | some s => ["1", "true", "TRUE", "yes"].contains (Text.trim s)
  | none => false

end LifecycleTelemetry
