import LifecycleTelemetry.Event.Lifecycle
import LifecycleTelemetry.Interrupt.Signal

/-!
# Settlements

The race between an operation and the interrupts is decided in one of five ways. The decision says two
things that have to agree: with which ending the operation is reported, and what its caller gets. The
caller of an operation that ended by itself gets what the operation produced; the caller of one that
was interrupted or aborted gets a cancellation.
-/

namespace LifecycleTelemetry

/-- What the caller of an operation gets: a value, a failure, or a panic that goes on. -/
inductive Outcome where
  | ok (value : Json)
  | err (f : Failure)
  | panic (p : PanicPayload)
deriving DecidableEq

/-- Whether an outcome is a panic. -/
def Outcome.isPanic : Outcome → Bool
  | .panic _ => true
  | _ => false

/-- How the race of an operation was decided. -/
inductive Settlement where
  | value (v : Json)
  | failure (f : Failure)
  | panicked (p : PanicPayload)
  | aborted
  | interrupted (s : Signal)
deriving DecidableEq

namespace Settlement

/-- The settlement of an operation that ended by itself. -/
def ofOutcome : Outcome → Settlement
  | .ok v => .value v
  | .err f => .failure f
  | .panic p => .panicked p

/-- The ending with which an operation is reported. -/
def ending : Settlement → Ending
  | .value _ => .completed
  | .failure f =>
      match f.cancellation? with
      | some c => .cancelled c.signal
      | none => .errored (ErrorInfo.ofFailure f)
  | .panicked p => .errored (ErrorInfo.ofPanic p)
  | .aborted => .cancelled none
  | .interrupted s => .cancelled (some s.name)

/-- What the caller gets. -/
def outcome : Settlement → Outcome
  | .value v => .ok v
  | .failure f => .err f
  | .panicked p => .panic p
  | .aborted => .err (Failure.ofSignal none)
  | .interrupted s => .err (Failure.ofSignal (some s.name))

end Settlement
end LifecycleTelemetry
