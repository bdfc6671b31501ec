import LifecycleTelemetry.Failure.Chain
import LifecycleTelemetry.Json.Value

/-!
# Descriptions of what went wrong

An operation that does not end well failed or panicked. A failure is described by its outermost text
and, when it has further causes, by the whole chain. A panic carries an arbitrary payload, of which
only two kinds of text can be read.
-/

namespace LifecycleTelemetry

/-- What a panic carries: a fixed text, a text made at run time, a value that holds a text but is not
one, or a number. -/
inductive PanicPayload where
  | fixedText (s : String)
  | ownedText (s : String)
  | boxedText (s : String)
  | number (n : Nat)
deriving DecidableEq

/-- The text of a panic, where its payload is one. -/
def PanicPayload.text? : PanicPayload → Option String
  | .fixedText s => some s
  | .ownedText s => some s
  | .boxedText _ => none
  | .number _ => none

/-- A description of what went wrong, as far as it is known. -/
structure ErrorInfo where
  message : Option String
  stack : Option String
deriving DecidableEq

namespace ErrorInfo

/-- The description of a failure: its outermost text, and its whole chain when there is more. -/
def ofFailure (f : Failure) : ErrorInfo :=
  { message := some f.text
    stack := if 1 < f.chain.length then some f.report else none }

/-- The description of a panic. -/
def ofPanic (p : PanicPayload) : ErrorInfo :=
  { message := p.text?
    stack := none }

/-- The parts of a description that are known, as an object. -/
def json (info : ErrorInfo) : Json :=
  .object
    ((info.message.map fun s => ("message", Json.string s)).toList ++
      (info.stack.map fun s => ("stack", Json.string s)).toList)

end ErrorInfo
end LifecycleTelemetry
