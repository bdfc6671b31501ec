import LifecycleTelemetry.Event.Stage
import LifecycleTelemetry.Json.Value

/-!
# Contributions

While an operation runs, code inside it can contribute properties to the event of its ending. Which
ending that will be is not known yet, so each possible ending has a bag of its own. Of several values
for one key in one bag the last one counts. Taking a bag empties it.
-/

namespace LifecycleTelemetry

open Json (Fields)

/-- What has been contributed to each ending of an operation. -/
structure Contributions where
  completed : Fields
  cancelled : Fields
  errored : Fields
deriving DecidableEq

namespace Contributions

/-- Nothing contributed. -/
def none : Contributions :=
  ⟨[], [], []⟩

/-- The bag of an ending. -/
def bag (c : Contributions) : TerminalStage → Fields
  | .completed => c.completed
  | .cancelled => c.cancelled
  | .errored => c.errored

/-- The contributions with another bag for an ending. -/
def withBag (c : Contributions) (stage : TerminalStage) (fields : Fields) : Contributions :=
  match stage with
  | .completed => { c with completed := fields }
  | .cancelled => { c with cancelled := fields }
  | .errored => { c with errored := fields }

/-- Contributes one property to an ending. -/
def add (c : Contributions) (stage : TerminalStage) (key : String) (value : Json) : Contributions :=
  c.withBag stage (Fields.insert key value (c.bag stage))

/-- Takes the bag of an ending. -/
def take (c : Contributions) (stage : TerminalStage) : Fields × Contributions :=
  (c.bag stage, c.withBag stage [])

@[simp]
theorem bag_withBag
    (c : Contributions)
    (stage other : TerminalStage)
    (fields : Fields) :
    (c.withBag stage fields).bag other = if other = stage then fields else c.bag other := by
  cases stage <;> cases other <;> rfl

/-- A contribution to one ending leaves the bags of the others alone. -/
theorem bag_add
    (c : Contributions)
    (stage other : TerminalStage)
    (key : String)
    (value : Json) :
    (c.add stage key value).bag other =
      if other = stage then Fields.insert key value (c.bag stage) else c.bag other := by
  simp [add]

end Contributions
end LifecycleTelemetry
