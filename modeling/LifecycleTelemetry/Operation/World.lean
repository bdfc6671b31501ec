import LifecycleTelemetry.Interrupt.Listener
import LifecycleTelemetry.Operation.Contributions
import LifecycleTelemetry.Operation.Script
import LifecycleTelemetry.Operation.Settlement
import LifecycleTelemetry.Reporter.Basic

/-!
# Worlds

The state of a program in the middle of its work: the strands of code that are running, the calls that
instrument operations, the deliveries that are under way, the listeners for interrupts, and the clock.
Everything that can be seen from outside is written into a history.

A *strand* is a list of steps being carried out. A task has one strand of its own, and further ones for
the parts that it runs side by side. The first strand of a world is the main one. A strand knows the call
in whose extent its code runs, if there is one; a task that is spawned starts without.

A *call* is one use of the reporter around one operation. Its race starts when the operation has been
built and spawned as a task, and is decided when the call's own strand looks at it.
-/

namespace LifecycleTelemetry

open Json (Fields)

/-- How a delivery ends, once it does. -/
inductive DeliveryEnd where
  | succeed
  | fail
  | panic
  | hang
deriving DecidableEq

/-- What a delivery does: it waits for a time and then ends. -/
structure DeliveryPlan where
  delay : Option Nat
  ending : DeliveryEnd
deriving DecidableEq

/-- How far a delivery is. -/
inductive DeliveryStatus where
  | waiting
  | delayed (deadline ticket : Nat)
  | stuck
  | finished (panicked : Bool)
deriving DecidableEq

/-- A payload on its way. -/
structure Delivery where
  event : String
  plan : DeliveryPlan
  status : DeliveryStatus
deriving DecidableEq

/-- Whether a delivery is over, however it went. -/
def Delivery.isFinished (d : Delivery) : Bool :=
  match d.status with
  | .finished _ => true
  | _ => false

/-- What a strand waits for, if anything. Deadlines come with a ticket that tells their order of
making. -/
inductive StrandStatus where
  | ready
  | sleeping (deadline ticket : Nat)
  | gaveWay
  | stuck
  | racing (call : Nat)
  | joining (branches : List Nat) (propagate : Bool)
  | awaiting (task : Nat)
  | draining (batch : List Nat) (recorded : Bool)
  | settling (delivery : Nat)
  | finished (o : Outcome)
  | aborted

/-- A list of steps being carried out: the strand that started its task, the name of the list, the
number of steps behind it, the steps before it, the call in whose extent it runs, and what it waits
for. -/
structure Strand where
  task : Nat
  list : String
  index : Nat
  rest : Script
  scope : Option Nat
  status : StrandStatus

/-- How far a call is. -/
inductive CallPhase where
  | building
  | racing (body : Nat)
  | settled (s : Settlement)
  | collapsed (p : PanicPayload)
  | abandoned

/-- What a call has come to, once it has. -/
def CallPhase.outcome? : CallPhase → Option Outcome
  | .settled s => some s.outcome
  | .collapsed p => some (.panic p)
  | _ => none

/-- A use of the reporter around one operation. -/
structure Call where
  subject : Subject
  owner : Nat
  startedAt : Nat
  listener : Listener
  contributions : Contributions
  propagate : Bool
  deadline : Option (Nat × Nat)
  phase : CallPhase

/-- What a step of a script was. -/
inductive Deed where
  | contribute (accessor : Accessor)
  | contributeAll
  | currentTitle
  | trigger
  | countListeners
  | countPending
  | send
  | describeReporter
  | post
  | isDelivered
  | drain
  | settle
  | instrument
  | parallel
  | spawn
deriving DecidableEq

/-- What a step came to. -/
inductive Finding where
  | done
  | panicked (text : String)
  | refused (e : Failure.TelemetryError)
  | title (text : Option String)
  | count (n : Nat)
  | truth (b : Bool)
  | reporter (r : Reporter)
  | outcome (o : Outcome)
  | outcomes (os : List Outcome)
  | abandoned
deriving DecidableEq

/-- Who handed a payload over: a call, for one of its stages, or the program itself. -/
inductive Sender where
  | call (id : Nat) (stage : Stage)
  | program
deriving DecidableEq

/-- What can be seen of a world from outside. -/
inductive Happening where
  | handedOver (sender : Sender) (p : Payload)
  | recorded (list : String) (deed : Deed) (finding : Finding)
  | logged (line : LogLine)
  | scriptEnded (pending listeners : Nat)
deriving DecidableEq

/-- A happening, with the time on the clock. -/
structure Entry where
  time : Nat
  what : Happening
deriving DecidableEq

/-- What runs by turns: the strands of one task, named by the strand that started it, or a delivery. -/
inductive TaskId where
  | strand (id : Nat)
  | delivery (id : Nat)
deriving DecidableEq

/-- The main task. -/
def TaskId.main : TaskId := .strand 0

/-- A program in the middle of its work. The clock by which times are measured counts nanoseconds from the
start. Payloads are dated by another clock, which may be set at any time: `stamps` are the milliseconds since
the start of 1970 that it shows each time it is asked. The history has the latest entry first. `woken` lists
the tasks that have got something to do, in that order. -/
structure World where
  reporter : Reporter
  hasRuntime : Bool
  stamps : Nat → Int
  clock : Nat
  source : InterruptSource
  channel : Channel
  plans : List DeliveryPlan
  strands : List Strand
  calls : List Call
  deliveries : List Delivery
  posted : List (Option Nat)
  pending : List Nat
  tickets : Nat
  woken : List TaskId
  history : List Entry

namespace World

/-- A world in which nothing has happened yet. Its main strand has nothing to do. -/
def start (reporter : Reporter) (hasRuntime : Bool) (stamps : Nat → Int) (source : InterruptSource)
    (plans : List DeliveryPlan) : World :=
  { reporter, hasRuntime, stamps, source, plans
    clock := 0
    channel := .new
    strands := [⟨0, "top", 0, [], none, .finished (.ok .null)⟩]
    calls := []
    deliveries := []
    posted := []
    pending := []
    tickets := 0
    woken := []
    history := [] }

/-- The world after something has been seen. -/
def note (w : World) (what : Happening) : World :=
  { w with history := ⟨w.clock, what⟩ :: w.history }

/-- The world after a step has come to something. -/
def record (w : World) (list : String) (deed : Deed) (finding : Finding) : World :=
  w.note (.recorded list deed finding)

/-- The world after a line has been added to the log. -/
def say (w : World) (level : LogLevel) (source : LogSource) (message : String)
    (fields : Fields) : World :=
  w.note (.logged ⟨level, source, message, fields⟩)

/-- The world with a task that has got something to do. -/
def wake (w : World) (t : TaskId) : World :=
  { w with woken := w.woken ++ [t] }

/-- A new ticket. -/
def ticket (w : World) : Nat × World :=
  (w.tickets, { w with tickets := w.tickets + 1 })

/-- The world with a strand changed. -/
def withStrand (w : World) (id : Nat) (change : Strand → Strand) : World :=
  { w with strands := w.strands.modify id change }

/-- The world in which the main strand is about to carry out a script. -/
def beginScript (w : World) (script : Script) : World :=
  w.withStrand 0 fun strand => { strand with index := 0, rest := script, status := .ready }

/-- The world with what a strand waits for changed. -/
def withStatus (w : World) (id : Nat) (status : StrandStatus) : World :=
  w.withStrand id fun strand => { strand with status }

/-- The world with a call changed. -/
def withCall (w : World) (id : Nat) (change : Call → Call) : World :=
  { w with calls := w.calls.modify id change }

/-- The world with one more strand, and its number. -/
def addStrand (w : World) (strand : Strand) : Nat × World :=
  (w.strands.length, { w with strands := w.strands ++ [strand] })

/-- The world with one more task that carries out a list of steps, and its number. -/
def spawnTask (w : World) (list : String) (script : Script) (scope : Option Nat) : Nat × World :=
  let (id, w) := w.addStrand ⟨w.strands.length, list, 0, script, scope, .ready⟩
  (id, w.wake (.strand id))

/-- The outcome of a strand that is over. -/
def outcome? (w : World) (id : Nat) : Option Outcome :=
  match w.strands[id]? with
  | some strand =>
      match strand.status with
      | .finished o => some o
      | _ => none
  | none => none

/-- The call that a strand has made last. -/
def lastCall? (w : World) (id : Nat) : Option Call :=
  w.calls.reverse.find? fun call => call.owner == id

/-- Whether a delivery is over. -/
def isDelivered (w : World) (id : Nat) : Bool :=
  match w.deliveries[id]? with
  | some d => d.isFinished
  | none => true

/-- Whether a delivery is over because it panicked. -/
def hasPanicked (w : World) (id : Nat) : Bool :=
  match w.deliveries[id]? with
  | some d => d.status == .finished true
  | none => false

/-- What the next delivery will do. When there are more deliveries than plans the last plan serves
for the rest, and without a plan deliveries succeed at once. -/
def nextPlan (w : World) : DeliveryPlan :=
  match w.plans[w.deliveries.length]? with
  | some plan => plan
  | none => w.plans.getLastD ⟨none, .succeed⟩

/-! ## Sending -/

/-- Hands an event to the transport, if there is one and a runtime to deliver it. The number of the
delivery is given back. -/
def post (w : World) (sender : Sender) (event : String) (properties : Fields) :
    Option Nat × World :=
  match w.reporter.client.transport with
  | none => (none, w)
  | some transport =>
      if w.hasRuntime then
        let payload := w.reporter.client.payload event (w.stamps w.deliveries.length) properties
        let w := w.say .debug .delivery "sending telemetry event"
          [("event", .string event), ("transport", .string transport.name)]
        let w := w.note (.handedOver sender payload)
        let id := w.deliveries.length
        let delivery : Delivery := ⟨event, w.nextPlan, .waiting⟩
        (some id, { w with deliveries := w.deliveries ++ [delivery] }.wake (.delivery id))
      else
        (none,
          w.say .warn .delivery "no tokio runtime, dropping telemetry event"
            [("event", .string event)])

/-- Sends an event with the fields of the ambient, if reporting is enabled. -/
def send (w : World) (sender : Sender) (event : String) (properties : Fields) : World :=
  if w.reporter.enabled then
    match w.post sender event (w.reporter.merged properties) with
    | (some id, w) => { w with pending := w.pending ++ [id] }
    | (none, w) => w
  else w

/-- Reports a stage of a call. -/
def report (w : World) (call : Nat) (event : Event) : World :=
  w.send (.call call event.stage) event.name event.properties

/-! ## Listening -/

/-- Installs a listener for a new call. Where that fails the call goes on without one. -/
def listen (w : World) : Listener × World :=
  match w.source.listen? w.clock w.channel with
  | some (listener, channel) => (listener, { w with channel })
  | none =>
      (.unarmed,
        w.say .warn .reporter "failed to install interrupt listeners"
          [("source", .string w.source.name)])

/-- Releases the listener of a call. -/
def release (w : World) (call : Nat) : World :=
  match w.calls[call]? with
  | some c =>
      { w.withCall call (fun c => { c with listener := .unarmed }) with
        channel := c.listener.release w.channel }
  | none => w

/-- The strands that wait for the race of a call whose listener has been handed a signal. -/
def racers (w : World) (receiver : Nat) : List TaskId :=
  w.calls.filterMap fun call =>
    match call.phase with
    | .racing _ =>
        if call.listener = .receiver receiver then
          (w.strands[call.owner]?).map fun strand => .strand strand.task
        else none
    | _ => none

/-- Raises an interrupt. Says how many listeners it reached. -/
def trigger (w : World) (s : Signal) : Nat × World :=
  let reached := w.channel.receivers.flatMap fun r => w.racers r.id
  (w.channel.active,
    { w with
      channel := w.channel.trigger s
      woken := w.woken ++ reached })

/-! ## Contributing -/

/-- Contributes a property to the call in whose extent a piece of code runs. -/
def contribute? (w : World) (scope : Option Nat) (stage : TerminalStage) (key : String)
    (value : Json) : Option World :=
  scope.map fun call =>
    w.withCall call fun c => { c with contributions := c.contributions.add stage key value }

/-- Contributes properties one after the other, up to the first that cannot be. -/
def contributeAll? (w : World) (scope : Option Nat) (stage : TerminalStage) :
    Fields → Option World
  | [] => some w
  | (key, value) :: rest =>
      match w.contribute? scope stage key value with
      | some w => contributeAll? w scope stage rest
      | none => none

/-- The text of the panic of an accessor where no operation is active. -/
def accessorPanic : String :=
  "set_event_property: " ++ Failure.TelemetryError.noActiveOperation.message

/-- What an accessor comes to where no operation is active. -/
def refusal : Accessor → Finding
  | .attempt => .refused .noActiveOperation
  | _ => .panicked accessorPanic

/-! ## Starting tasks -/

/-- The panic of a program that starts a task without a runtime. -/
def noRuntime : PanicPayload :=
  .fixedText "there is no reactor running, must be called from the context of a Tokio 1.x runtime"

/-- The steps that build an operation which is to be started as a task. -/
def readied (w : World) (steps : List BuildStep) : List BuildStep :=
  if w.hasRuntime then steps else steps ++ [.panic noRuntime]

/-- What has been carried out of it does not matter to how it ends. -/
theorem readied_append
    (w : World)
    (before after : List BuildStep) :
    w.readied (before ++ after) = before ++ w.readied after := by
  unfold readied
  split
  · rfl
  · exact List.append_assoc before after _

/-- With a runtime there is nothing else to it. -/
theorem readied_of_hasRuntime
    {w : World}
    (h : w.hasRuntime = true)
    (steps : List BuildStep) :
    w.readied steps = steps := by
  simp [readied, h]

/-! ## Steps that are over at once -/

/-- Carries out a step that is over at once, in a list and the extent of a call. -/
def act (w : World) (list : String) (scope : Option Nat) : Action → World
  | .contribute accessor stage key value =>
      match w.contribute? scope stage key value with
      | some w => w.record list (.contribute accessor) .done
      | none => w.record list (.contribute accessor) (refusal accessor)
  | .contributeAll stage data =>
      match w.contributeAll? scope stage data with
      | some w => w.record list .contributeAll .done
      | none => w.record list .contributeAll (.panicked accessorPanic)
  | .currentTitle =>
      let title := scope.bind fun call => (w.calls[call]?).map fun c => c.subject.title
      w.record list .currentTitle (.title title)
  | .trigger s =>
      let (reached, w) := w.trigger s
      w.record list .trigger (.count reached)
  | .countListeners => w.record list .countListeners (.count w.channel.active)
  | .countPending => w.record list .countPending (.count w.pending.length)
  | .send name properties => (w.send .program name properties).record list .send .done
  | .describeReporter => w.record list .describeReporter (.reporter w.reporter)
  | .post event properties =>
      let (id, w) := w.post .program event properties
      { w with posted := w.posted ++ [id] }.record list .post (.truth id.isSome)
  | .isDelivered posted =>
      let finished := match w.posted[posted]? with
        | some (some id) => w.isDelivered id
        | _ => true
      w.record list .isDelivered (.truth finished)
  | .log line => w.note (.logged line)

/-- Carries out the part that builds the operation of a call, up to the end or to a panic. -/
def build (w : World) (list : String) (call : Nat) :
    List BuildStep → Option PanicPayload × World
  | [] => (none, w)
  | .panic p :: _ => (some p, w)
  | .act a :: rest => build (w.act list (some call) a) list call rest

end World
end LifecycleTelemetry
