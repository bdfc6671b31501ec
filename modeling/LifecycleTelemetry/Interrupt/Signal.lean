/-!
# Signals

The two signals by which a user or the system ends a program early.
-/

namespace LifecycleTelemetry

/-- A signal that interrupts an operation. -/
inductive Signal where
  | interrupt
  | terminate
deriving DecidableEq

namespace Signal

/-- The name of a signal. -/
def name : Signal → String
  | .interrupt => "SIGINT"
  | .terminate => "SIGTERM"

/-- The number of a signal. -/
def number : Signal → Nat
  | .interrupt => 2
  | .terminate => 15

/-- The exit status by which a shell reports that a signal ended a program. -/
def exitCode (s : Signal) : Nat :=
  128 + s.number

/-- The signal of a name. -/
def ofName? (name : String) : Option Signal :=
  if name = "SIGINT" then some .interrupt
  else if name = "SIGTERM" then some .terminate
  else none

end Signal
end LifecycleTelemetry
