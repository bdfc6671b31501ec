import LifecycleTelemetry.Event.Lifecycle
import LifecycleTelemetry.Interrupt.Signal
import LifecycleTelemetry.Log

/-!
# Scripts

What instrumented code does, as far as the reporter can tell: it contributes properties, sends events,
raises and counts interrupts, sleeps, runs parts of itself side by side, starts tasks, and instruments
further operations. A script is a list of such steps. It ends with the first step that produces a value,
fails or panics, and with a null value when there is none.

An instrumented operation has two parts. The first one builds it and never waits; the second one is what
is built, and runs as a task of its own.
-/

namespace LifecycleTelemetry

open Json (Fields)

/-- By which way a single property is contributed: the free accessor and the reporter's own panic where
no operation is active, the attempt says so. -/
inductive Accessor where
  | free
  | reporter
  | attempt
deriving DecidableEq

/-- A step that is over at once. -/
inductive Action where
  | contribute (accessor : Accessor) (stage : TerminalStage) (key : String) (value : Json)
  | contributeAll (stage : TerminalStage) (data : Fields)
  | currentTitle
  | trigger (s : Signal)
  | countListeners
  | countPending
  | send (name : String) (properties : Fields)
  | describeReporter
  | post (event : String) (properties : Fields)
  | isDelivered (posted : Nat)
  | log (line : LogLine)
deriving DecidableEq

/-- A step of the part that builds an operation. -/
inductive BuildStep where
  | act (a : Action)
  | panic (p : PanicPayload)
deriving DecidableEq

/-- A step of a script. Steps that open further lists of steps may give them a name. An operation that
is instrumented may pass its failure on at once; to pass it on with texts around it is a step of its own,
which ends the script like the call before it has ended. A panic in one of several parts that run side by side
may be passed on, too, once all of them are over. -/
inductive Step where
  | act (a : Action)
  | succeed (value : Json)
  | fail (f : Failure)
  | panic (p : PanicPayload)
  | hang
  | sleep (duration : Nat)
  | giveWay
  | drain (recorded : Bool)
  | settle (posted : Nat)
  | instrument (name : Option String) (subject : Subject) (build : List BuildStep)
      (body : List Step) (propagate : Bool) (abandonAfter : Option Nat)
  | passOn (texts : List String)
  | parallel (name : Option String) (branches : List (List Step)) (propagate : Bool)
  | spawn (name : Option String) (body : List Step) (wait : Bool)

/-- A list of steps. -/
abbrev Script := List Step

mutual

/-- The number of steps in a step, itself included. -/
def Step.weight : Step → Nat
  | .instrument _ _ build body _ _ => 1 + build.length + weights body
  | .parallel _ branches _ => 1 + allWeights branches
  | .spawn _ body _ => 1 + weights body
  | _ => 1

/-- The number of steps in a list of steps, and one for its end. -/
def weights : List Step → Nat
  | [] => 1
  | step :: rest => Step.weight step + weights rest

/-- The number of steps in several lists. -/
def allWeights : List (List Step) → Nat
  | [] => 0
  | branch :: rest => weights branch + allWeights rest

end

end LifecycleTelemetry
