import LifecycleTelemetry.Event.ErrorInfo
import LifecycleTelemetry.Event.Stage

/-!
# Lifecycle events

What is reported about a subject: that it started, and how it ended. An event carries the subject's
own fields. The event of an ending carries besides these whatever the operation contributed to that
ending, the time the operation took, the signal that cancelled it, if one did, and the description of
what went wrong. A field that is computed here takes the place of a contributed one of the same name,
and a contributed field that of one of the subject's own.
-/

namespace LifecycleTelemetry

open Json (Fields)

/-- What an instrumented operation is: a whole session, or a single question to the user. -/
inductive Subject where
  | session (args : Fields)
  | prompt (key : String) (config : Json)
deriving DecidableEq

namespace Subject

/-- The words that the names of a subject's events start with. -/
def title : Subject → String
  | .session _ => "c3 session"
  | .prompt _ _ => "c3 prompt"

/-- The fields of a subject. -/
def fields : Subject → Fields
  | .session args => [("args", .object args)]
  | .prompt key config => [("config", config), ("key", .string key)]

end Subject

/-- How an operation ended. -/
inductive Ending where
  | completed
  | cancelled (signal : Option String)
  | errored (error : ErrorInfo)
deriving DecidableEq

namespace Ending

/-- The stage of an ending. -/
def stage : Ending → TerminalStage
  | .completed => .completed
  | .cancelled _ => .cancelled
  | .errored _ => .errored

/-- The fields that an ending has of itself. -/
def fields : Ending → Fields
  | .completed => []
  | .cancelled signal => (signal.map fun s => ("signal", Json.string s)).toList
  | .errored error => [("error", error.json)]

end Ending

/-- What happened to a subject. An ending comes with what was contributed to it and with the whole
milliseconds that the operation took. -/
inductive Occasion where
  | started
  | ended (ending : Ending) (contributed : Fields) (duration : Nat)
deriving DecidableEq

/-- A stage of a subject's life, as it is reported. -/
structure Event where
  subject : Subject
  occasion : Occasion
deriving DecidableEq

namespace Event

/-- The stage that an event reports. -/
def stage (e : Event) : Stage :=
  match e.occasion with
  | .started => .started
  | .ended ending _ _ => ending.stage.toStage

/-- The name under which an event is reported. -/
def name (e : Event) : String :=
  e.subject.title ++ " " ++ e.stage.name

/-- The properties with which an event is reported. -/
def properties (e : Event) : Fields :=
  match e.occasion with
  | .started => e.subject.fields
  | .ended ending contributed duration =>
      Fields.insertAll
        (Fields.insert "durationMs" (Json.ofNat duration)
          (Fields.insertAll e.subject.fields contributed))
        ending.fields

end Event
end LifecycleTelemetry
