import LifecycleTelemetry.Operation.Advance

/-!
# Schedules

The order in which the parts of a program take their turns when it runs on a single thread. Tasks that
have something to do wait in a queue, first in, first out. A task keeps its turn until every one of its
strands waits for something. The main task stands outside the queue: it has its turn, if it has been
woken, whenever the queue has become empty and whenever the clock has moved.

A task that gives way is set aside and joins the queue again when that is empty; of several the one set
aside last comes first. Only when nothing at all can go on the clock moves, to the nearest time that
anything waits for. All that waits for that time is woken in the order in which it began to wait.
-/

namespace LifecycleTelemetry

/-- A world, the tasks that wait for their turn, those that have given way with the latest first, and
whether the main task has been woken and may have the next turn. -/
structure Schedule where
  world : World
  queue : List TaskId
  aside : List TaskId
  mainWoken : Bool
  mainNext : Bool

namespace Schedule

/-- A schedule in which nothing has had a turn. -/
def start (w : World) : Schedule :=
  ⟨w, [], [], false, true⟩

/-! ## One turn -/

/-- Whether a strand can go on within the turn that its task has. One that has just given way cannot. -/
def goesOn (w : World) (id : Nat) : Bool :=
  match (w.strands[id]?).map Strand.status with
  | some .gaveWay => false
  | _ => w.canAdvance id

/-- The strands that a strand waits for within its own task. -/
def branchesOf (w : World) (id : Nat) : List Nat :=
  match (w.strands[id]?).map Strand.status with
  | some (.joining branches _) => branches
  | _ => []

/-- Lets a strand that has given way in an earlier turn go on. -/
def welcome (w : World) (id : Nat) : World :=
  match (w.strands[id]?).map Strand.status with
  | some .gaveWay => w.advance id
  | _ => w

/-- Gives a strand its turn, after the strands that it waits for within its task, for as long as it can
go on. -/
def turn : Nat → Nat → World → World
  | 0, _, w => w
  | fuel + 1, id, w =>
      let w := (branchesOf w id).foldl (fun w branch => turn fuel branch (welcome w branch)) w
      if goesOn w id then turn fuel id (w.advance id) else w

/-- Whether a task has a strand that has given way. -/
def hasGivenWay (w : World) (task : Nat) : Bool :=
  w.strands.any fun strand =>
    strand.task == task && (match strand.status with | .gaveWay => true | _ => false)

/-- Puts a task that has been woken where it waits for its turn. -/
def enqueue (s : Schedule) (t : TaskId) : Schedule :=
  if t = .main then { s with mainWoken := true }
  else if s.queue.contains t then s
  else { s with queue := s.queue ++ [t] }

/-- Puts all tasks that have been woken where they wait for their turn. -/
def gather (s : Schedule) : Schedule :=
  s.world.woken.foldl enqueue { s with world := { s.world with woken := [] } }

/-- Gathers the tasks that were woken during a turn. A task that was woken during its own turn comes
last. -/
def gatherAfter (s : Schedule) (current : TaskId) : Schedule :=
  let woken := s.world.woken
  let others := woken.filter fun t => t != current
  let again := woken.filter fun t => t == current
  (others ++ again.take 1).foldl enqueue { s with world := { s.world with woken := [] } }

/-- Sets a task aside if it has given way in its turn. -/
def setAside (s : Schedule) (current : TaskId) : Schedule :=
  match current with
  | .strand task =>
      if hasGivenWay s.world task then { s with aside := current :: s.aside } else s
  | .delivery _ => s

/-- Gives a task its turn. -/
def poll (fuel : Nat) (s : Schedule) (t : TaskId) : Schedule :=
  let world := match t with
    | .strand task => turn fuel task (welcome s.world task)
    | .delivery delivery => s.world.deliver delivery
  let s := { s with world }
  (s.setAside t).gatherAfter t

/-! ## Time -/

/-- Something that waits for a time: the time, the ticket, and the task to be woken. -/
structure Timer where
  deadline : Nat
  ticket : Nat
  task : TaskId

/-- The times that strands wait for. -/
def strandTimers (w : World) : List Timer :=
  w.strands.filterMap fun strand =>
    match strand.status with
    | .sleeping deadline ticket => some ⟨deadline, ticket, .strand strand.task⟩
    | _ => none

/-- The times that calls wait for in their races. -/
def callTimers (w : World) : List Timer :=
  w.calls.flatMap fun call =>
    match call.phase, (w.strands[call.owner]?).map Strand.task with
    | .racing _, some task =>
        (call.deadline.map fun d => ⟨d.1, d.2, .strand task⟩).toList ++
          (match call.listener with
          | .timed deadline _ => [⟨deadline, 0, .strand task⟩]
          | _ => [])
    | _, _ => []

/-- The times that deliveries wait for. -/
def deliveryTimers (w : World) : List Timer :=
  w.deliveries.zipIdx.filterMap fun (d, id) =>
    match d.status with
    | .delayed deadline ticket => some ⟨deadline, ticket, .delivery id⟩
    | _ => none

/-- Everything that waits for a time still to come. -/
def timers (w : World) : List Timer :=
  (strandTimers w ++ callTimers w ++ deliveryTimers w).filter fun t => w.clock < t.deadline

/-- The nearest time that anything waits for. -/
def nextTime? (w : World) : Option Nat :=
  ((timers w).map Timer.deadline).min?

/-- Moves the clock to a time and wakes all that waits for it, in the order of the tickets. -/
def moveTo (w : World) (time : Nat) : World :=
  let due := (timers w).filter fun t => t.deadline ≤ time
  let due := due.mergeSort fun a b => a.ticket ≤ b.ticket
  let w := w.moveClock time
  { w with woken := w.woken ++ due.map Timer.task }

/-! ## Running -/

/-- Whether the main task is over. -/
def isOver (s : Schedule) : Bool :=
  (s.world.outcome? 0).isSome

/-- What happens next in a schedule; nothing when the main task is over, when nothing can ever go on,
or when the clock would have to move beyond a given time. -/
def step? (fuel : Nat) (limit : Option Nat) (s : Schedule) : Option Schedule :=
  if s.isOver then none
  else if s.mainNext && s.mainWoken then
    some (poll fuel { s with mainWoken := false, mainNext := false } .main)
  else
    match s.queue with
    | t :: queue => some (poll fuel { s with queue, mainNext := false } t)
    | [] =>
        if s.mainWoken then some { s with mainNext := true }
        else if s.aside.isEmpty then
          match nextTime? s.world with
          | some time =>
              if limit.any (· < time) then none
              else some { gather { s with world := moveTo s.world time } with mainNext := true }
          | none => none
        else some { s.aside.foldl enqueue { s with aside := [] } with mainNext := true }

/-- Takes at most a number of turns. -/
def run (limit : Option Nat) : Nat → Schedule → Schedule
  | 0, s => s
  | fuel + 1, s =>
      match step? fuel limit s with
      | some s => run limit fuel s
      | none => s

/-- A number of turns that a script, and all that is still going on, cannot use up. -/
def enough (w : World) (script : Script) : Nat :=
  let left := w.strands.foldl (fun n strand => n + weights strand.rest) 0
  let size := weights script + left + w.deliveries.length + 8
  64 * size * size

/-- Lets the main task carry out a script, for as long as anything can go on without moving the clock
beyond a given time. -/
def runMain (s : Schedule) (limit : Option Nat) (script : Script) : Schedule :=
  let world := s.world.beginScript script
  run limit (enough s.world script) { s with world, mainWoken := true, mainNext := true }

/-- Goes on where `runMain` stopped at a time limit. -/
def resume (s : Schedule) : Schedule :=
  run none (enough s.world []) s.gather

/-- The outcome of the script that the main task has carried out, if it is over. -/
def outcome? (s : Schedule) : Option Outcome :=
  s.world.outcome? 0

end Schedule
end LifecycleTelemetry
