import LifecycleTelemetry.Operation.World

/-!
# One step of a world

`World.advance` lets one strand go one step further, if it can: it carries out the next step of its
list, or takes note that what it has been waiting for is there. `World.deliver` does the same for a
delivery, and `World.moveClock` lets time pass. Whatever order strands, deliveries and the clock are
taken in, a program only ever moves by these three.

The life of a call is told by `World.instrument` and `World.decide`. The first reports the start, then
installs the listener, then lets the operation be built and spawns it. The second looks at the race: an
operation that is over decides it, and otherwise a signal that has come, and otherwise the time after
which the call is given up. The listener is released before the ending is reported.
-/

namespace LifecycleTelemetry
namespace World

/-! ## The end of a strand -/

/-- The tasks that wait for a task to be over. -/
def waiters (w : World) (task : Nat) : List TaskId :=
  w.strands.filterMap fun strand =>
    match strand.status with
    | .awaiting t => if t = task then some (.strand strand.task) else none
    | .racing call =>
        match (w.calls[call]?).map Call.phase with
        | some (.racing body) => if body = task then some (.strand strand.task) else none
        | _ => none
    | _ => none

/-- Ends a strand. When it is the one that started its task, whoever waits for the task is woken. -/
def finish (w : World) (id : Nat) (o : Outcome) : World :=
  match w.strands[id]? with
  | some strand =>
      let w := w.withStatus id (.finished o)
      if strand.task = id then { w with woken := w.woken ++ w.waiters id } else w
  | none => w

/-- Takes an outcome to the strand of a call: it goes on, unless the outcome is to end it as well. -/
def hand (w : World) (id : Nat) (o : Outcome) (propagate : Bool) : World :=
  match o with
  | .ok _ => w.withStatus id .ready
  | .err _ | .panic _ => if propagate then w.finish id o else w.withStatus id .ready

/-! ## The life of a call -/

/-- A call as a strand makes it: nothing has happened to it yet. -/
def newCall (w : World) (id : Nat) (subject : Subject) (propagate : Bool)
    (abandonAfter : Option Nat) : Call :=
  { subject
    owner := id
    startedAt := w.clock
    listener := .unarmed
    contributions := .none
    propagate
    deadline := abandonAfter.map fun delay => (w.clock + delay, w.tickets)
    phase := .building }

/-- The world with one more call. -/
def addCall (w : World) (call : Call) : World :=
  { w.ticket.2 with calls := w.calls ++ [call] }

/-- Installs a listener for a call. -/
def listenFor (w : World) (call : Nat) : World :=
  let (listener, w) := w.listen
  w.withCall call fun c => { c with listener }

/-- Makes a call in a strand: reports the start and listens. The operation has not been built yet. -/
def openCall (w : World) (id : Nat) (subject : Subject) (propagate : Bool)
    (abandonAfter : Option Nat) : World :=
  let call := w.calls.length
  ((w.addCall (w.newCall id subject propagate abandonAfter)).report call
    ⟨subject, .started⟩).listenFor call

/-- Ends a call whose operation has panicked while it was built. It has no race, and no ending is
reported. -/
def collapse (w : World) (id : Nat) (list : String) (call : Nat) (p : PanicPayload)
    (propagate : Bool) : World :=
  let w := w.release call
  let w := w.withCall call fun c => { c with phase := .collapsed p }
  let w := w.record list .instrument (.outcome (.panic p))
  w.hand id (.panic p) propagate

/-- Spawns the operation of a call, once it has been built, and lets the strand wait for it. -/
def startRace (w : World) (id : Nat) (inner : String) (call : Nat) (body : Script) : World :=
  let (task, w) := w.spawnTask inner body (some call)
  let w := w.withCall call fun c => { c with phase := .racing task }
  w.withStatus id (.racing call)

/-- Starts a call in a strand: reports the start, listens, builds the operation and spawns it, for which it
takes a runtime. -/
def instrument (w : World) (id : Nat) (list inner : String) (subject : Subject)
    (steps : List BuildStep) (body : Script) (propagate : Bool) (abandonAfter : Option Nat) :
    World :=
  let call := w.calls.length
  match (w.openCall id subject propagate abandonAfter).build inner call (w.readied steps) with
  | (some p, w) => w.collapse id list call p propagate
  | (none, w) => w.startRace id inner call body

/-- How the race of a call is decided at present, if it is. -/
def settlement? (w : World) (call : Call) : Option Settlement :=
  match call.phase with
  | .racing body =>
      match (w.strands[body]?).map Strand.status with
      | some (.finished o) => some (.ofOutcome o)
      | some .aborted => some .aborted
      | _ => (call.listener.signal? w.clock w.channel).map .interrupted
  | _ => none

/-- Whether the time after which a call is given up has come. -/
def isOverdue (w : World) (call : Call) : Bool :=
  match call.deadline with
  | some (deadline, _) => deadline ≤ w.clock
  | none => false

/-- The whole milliseconds from one reading of the clock to another; none if the clock has gone back,
and at most as many as the largest number that can be reported. -/
def elapsed (start stop : Nat) : Nat :=
  min ((stop - start) / 1000000) 18446744073709551615

/-- The event that ends a call whose race has been decided at a time, with what has been contributed to
this ending. -/
def endingOf (call : Call) (s : Settlement) (now : Nat) : Event :=
  ⟨call.subject,
    .ended s.ending (call.contributions.take s.ending.stage).1 (elapsed call.startedAt now)⟩

/-- Tells the log about a race that has been decided by an interrupt. -/
def announce (w : World) : Settlement → World
  | .interrupted signal =>
      w.say .debug .reporter "instrumented operation interrupted"
        [("signal", .string signal.name)]
  | _ => w

/-- Marks a call as decided. What has been contributed to its ending is taken. -/
def settle (w : World) (number : Nat) (call : Call) (s : Settlement) : World :=
  w.withCall number fun c =>
    { c with
      contributions := (call.contributions.take s.ending.stage).2
      phase := .settled s }

/-- Reports the ending of a call whose race has been decided. The listener is released before. -/
def reportEnding (w : World) (number : Nat) (call : Call) (s : Settlement) : World :=
  let w := ((w.announce s).release number).settle number call s
  w.report number (endingOf call s w.clock)

/-- Ends a call whose race has been decided: reports the ending, and gives the caller its outcome. -/
def conclude (w : World) (id : Nat) (list : String) (number : Nat) (call : Call)
    (s : Settlement) : World :=
  let w := w.reportEnding number call s
  let w := w.record list .instrument (.outcome s.outcome)
  w.hand id s.outcome call.propagate

/-- Gives up a call in the middle of its race. What it has been racing goes on by itself. -/
def abandon (w : World) (id : Nat) (list : String) (number : Nat) : World :=
  let w := w.release number
  let w := w.withCall number fun c => { c with phase := .abandoned }
  (w.record list .instrument .abandoned).withStatus id .ready

/-- Looks at the race of a call. -/
def decide (w : World) (id : Nat) (list : String) (number : Nat) : World :=
  match w.calls[number]? with
  | some call =>
      match w.settlement? call with
      | some s => w.conclude id list number call s
      | none => if w.isOverdue call then w.abandon id list number else w
  | none => w

/-! ## Waiting for deliveries -/

/-- Takes every delivery that waits to be drained. -/
def startDrain (w : World) (id : Nat) (recorded : Bool) : World :=
  let batch := w.pending
  let w := { w with pending := [] }
  let w :=
    if batch.isEmpty then w
    else w.say .debug .reporter "waiting for telemetry deliveries"
      [("count", Json.ofNat batch.length)]
  w.withStatus id (.draining batch recorded)

/-- Says of the deliveries that have panicked that they did not complete. -/
def complain (w : World) (batch : List Nat) : World :=
  batch.foldl
    (fun w delivery =>
      if w.hasPanicked delivery then
        w.say .debug .delivery "telemetry delivery task did not complete" []
      else w)
    w

/-- Takes note of the deliveries of a batch that are over, and goes on when all are. -/
def drain (w : World) (id : Nat) (list : String) (batch : List Nat) (recorded : Bool) : World :=
  let w := w.complain (batch.filter w.isDelivered)
  let rest := batch.filter fun delivery => !w.isDelivered delivery
  if rest.isEmpty then
    let w := if recorded then w.record list .drain (.count w.pending.length) else w
    w.withStatus id .ready
  else w.withStatus id (.draining rest recorded)

/-! ## Steps -/

/-- The name of the list of steps that a step opens. -/
def innerName (list : String) (index : Nat) (name : Option String) : String :=
  name.getD (list ++ "." ++ toString index)

/-- Adds a strand for each list of steps, in the task and the extent of a given strand. -/
def addBranches (w : World) (of : Strand) (inner : String) (number : Nat) :
    List Script → List Nat × World
  | [] => ([], w)
  | branch :: rest =>
      let list := inner ++ "[" ++ toString number ++ "]"
      let (id, w) := w.addStrand ⟨of.task, list, 0, branch, of.scope, .ready⟩
      let (ids, w) := addBranches w of inner (number + 1) rest
      (id :: ids, w)

/-- Ends a strand as the call that it has made last has ended, with texts around its failure. The strand
goes on if the call has not failed. -/
def passOn (w : World) (id : Nat) (texts : List String) : World :=
  match (w.lastCall? id).bind fun call => call.phase.outcome? with
  | some (.err f) => w.finish id (.err (f.withContexts (texts.map .text)))
  | some (.panic p) => w.finish id (.panic p)
  | _ => w

/-- Carries out a step of a strand. -/
def perform (w : World) (id : Nat) (strand : Strand) : Step → World
  | .act a => w.act strand.list strand.scope a
  | .succeed value => w.finish id (.ok value)
  | .fail f => w.finish id (.err f)
  | .panic p => w.finish id (.panic p)
  | .hang => w.withStatus id .stuck
  | .sleep duration =>
      let (ticket, w) := w.ticket
      w.withStatus id (.sleeping (w.clock + duration) ticket)
  | .giveWay => w.withStatus id .gaveWay
  | .drain recorded => w.startDrain id recorded
  | .settle posted =>
      match w.posted[posted]? with
      | some (some delivery) => w.withStatus id (.settling delivery)
      | _ => w.record strand.list .settle .done
  | .instrument name subject build body propagate abandonAfter =>
      let inner := innerName strand.list strand.index name
      w.instrument id strand.list inner subject build body propagate abandonAfter
  | .passOn texts => w.passOn id texts
  | .parallel name branches propagate =>
      let inner := innerName strand.list strand.index name
      let (ids, w) := w.addBranches strand inner 0 branches
      w.withStatus id (.joining ids propagate)
  | .spawn name body wait =>
      if w.hasRuntime then
        let (task, w) := w.spawnTask (innerName strand.list strand.index name) body none
        if wait then w.withStatus id (.awaiting task) else w
      else w.finish id (.panic noRuntime)

/-- Puts one more step of a strand behind it, and leaves it with the rest. -/
def pass (w : World) (id : Nat) (rest : Script) : World :=
  w.withStrand id fun strand => { strand with index := strand.index + 1, rest }

/-- Lets a strand carry out its next step, or end when there is none. -/
def stepForward (w : World) (id : Nat) (strand : Strand) : World :=
  match strand.rest with
  | [] => w.finish id (.ok .null)
  | step :: rest => (w.pass id rest).perform id strand step

/-- The outcomes of strands, if all are over. -/
def outcomes? (w : World) (ids : List Nat) : Option (List Outcome) :=
  ids.mapM w.outcome?

/-- Takes the outcomes of the parts of a strand to it: it goes on, unless the first panic among them is to end
it as well. -/
def handAll (w : World) (id : Nat) (outcomes : List Outcome) (propagate : Bool) : World :=
  match outcomes.find? Outcome.isPanic with
  | some panic => w.hand id panic propagate
  | none => w.withStatus id .ready

/-- Whether a strand has been aborted. -/
def isAborted (w : World) (id : Nat) : Bool :=
  match (w.strands[id]?).map Strand.status with
  | some .aborted => true
  | _ => false

/-- Whether a strand could go on. -/
def canAdvance (w : World) (id : Nat) : Bool :=
  match w.strands[id]? with
  | none => false
  | some strand =>
      match strand.status with
      | .ready => true
      | .sleeping deadline _ => deadline ≤ w.clock
      | .gaveWay => true
      | .stuck => false
      | .racing call =>
          match w.calls[call]? with
          | some c => (w.settlement? c).isSome || w.isOverdue c
          | none => false
      | .joining branches _ => (w.outcomes? branches).isSome
      | .awaiting task => (w.outcome? task).isSome || w.isAborted task
      | .draining batch _ => batch.isEmpty || batch.any w.isDelivered
      | .settling delivery => w.isDelivered delivery
      | .finished _ => false
      | .aborted => false

/-- Lets a strand go one step further, if it can. -/
def advance (w : World) (id : Nat) : World :=
  match w.strands[id]? with
  | none => w
  | some strand =>
      if w.canAdvance id then
        match strand.status with
        | .ready => w.stepForward id strand
        | .sleeping _ _ => w.withStatus id .ready
        | .gaveWay => w.withStatus id .ready
        | .racing call => w.decide id strand.list call
        | .joining branches propagate =>
            match w.outcomes? branches with
            | some outcomes =>
                (w.record strand.list .parallel (.outcomes outcomes)).handAll id outcomes propagate
            | none => w
        | .awaiting task =>
            match w.outcome? task with
            | some o => (w.record strand.list .spawn (.outcome o)).withStatus id .ready
            | none => (w.record strand.list .spawn .abandoned).withStatus id .ready
        | .draining batch recorded => w.drain id strand.list batch recorded
        | .settling delivery =>
            ((w.complain [delivery]).record strand.list .settle .done).withStatus id .ready
        | .stuck => w
        | .finished _ => w
        | .aborted => w
      else w

/-! ## Deliveries and time -/

/-- The tasks that wait for a delivery to be over. -/
def drainers (w : World) (delivery : Nat) : List TaskId :=
  w.strands.filterMap fun strand =>
    match strand.status with
    | .draining batch _ =>
        if batch.contains delivery then some (.strand strand.task) else none
    | .settling d => if d = delivery then some (.strand strand.task) else none
    | _ => none

/-- The world with how far a delivery is changed. -/
def withDelivery (w : World) (id : Nat) (status : DeliveryStatus) : World :=
  { w with deliveries := w.deliveries.modify id fun d => { d with status } }

/-- Ends a delivery in the way it is planned to. A failure is only told to the log. -/
def endDelivery (w : World) (id : Nat) (d : Delivery) : World :=
  let ended (w : World) (panicked : Bool) : World :=
    let w := w.withDelivery id (.finished panicked)
    { w with woken := w.woken ++ w.drainers id }
  match d.plan.ending with
  | .succeed => ended w false
  | .fail =>
      ended (w.say .debug .delivery "telemetry delivery failed" [("event", .string d.event)]) false
  | .panic => ended w true
  | .hang => w.withDelivery id .stuck

/-- Lets a delivery go one step further, if it can. -/
def deliver (w : World) (id : Nat) : World :=
  match w.deliveries[id]? with
  | none => w
  | some d =>
      match d.status with
      | .waiting =>
          match d.plan.delay with
          | some delay =>
              let (ticket, w) := w.ticket
              if delay = 0 then w.endDelivery id d
              else w.withDelivery id (.delayed (w.clock + delay) ticket)
          | none => w.endDelivery id d
      | .delayed deadline _ => if deadline ≤ w.clock then w.endDelivery id d else w
      | .stuck => w
      | .finished _ => w

/-- Lets time pass. The clock never goes back. -/
def moveClock (w : World) (time : Nat) : World :=
  { w with clock := max w.clock time }

/-- A strand of an aborted task ends where it is; any other one is left alone. -/
def Strand.abortedIn (task : Nat) (strand : Strand) : Strand :=
  match strand.status with
  | .finished _ => strand
  | _ => if strand.task = task then { strand with status := .aborted } else strand

/-- The calls that are being raced by strands of a task. -/
def racesOf (w : World) (task : Nat) : List Nat :=
  w.strands.filterMap fun strand =>
    match strand.status with
    | .racing call => if strand.task = task then some call else none
    | _ => none

/-- Drops a call together with the strand that races it. -/
def dropCall (w : World) (call : Nat) : World :=
  (w.release call).withCall call fun c => { c with phase := .abandoned }

/-- Aborts a task: its strands end where they are, the calls they race are dropped, and whoever waits
for the task is woken. -/
def abort (w : World) (task : Nat) : World :=
  let w := (w.racesOf task).foldl dropCall w
  let w := { w with strands := w.strands.map (Strand.abortedIn task) }
  { w with woken := w.woken ++ w.waiters task }

end World
end LifecycleTelemetry
