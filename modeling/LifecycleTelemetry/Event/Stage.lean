/-!
# Stages

Every subject goes through the same stages: it starts, and it ends in one of three ways. Only the
stages that end it can be contributed to.
-/

namespace LifecycleTelemetry

/-- A stage of a subject. -/
inductive Stage where
  | started
  | completed
  | cancelled
  | errored
deriving DecidableEq

/-- The name of a stage. -/
def Stage.name : Stage → String
  | .started => "started"
  | .completed => "completed"
  | .cancelled => "cancelled"
  | .errored => "errored"

/-- A stage that ends a subject. -/
inductive TerminalStage where
  | completed
  | cancelled
  | errored
deriving DecidableEq

namespace TerminalStage

/-- A stage that ends a subject, among all stages. -/
def toStage : TerminalStage → Stage
  | .completed => .completed
  | .cancelled => .cancelled
  | .errored => .errored

end TerminalStage
end LifecycleTelemetry
