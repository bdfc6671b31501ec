import LifecycleTelemetry.Proofs.Operation.Draining

/-!
# What a schedule sees of a world

Who goes on and when is decided by strands, calls, listeners, deliveries, the clock, and whether tasks can
be started. This much of a world is its *sight*; what has been reported, logged and recorded, and the
tickets, are not. The sight after a part of a turn is told by one equation for each part.
-/

namespace LifecycleTelemetry

/-- What a schedule sees of a world. -/
@[ext]
structure Sight where
  strands : List Strand
  calls : List Call
  source : InterruptSource
  channel : Channel
  deliveries : List Delivery
  pending : List Nat
  woken : List TaskId
  clock : Nat
  hasRuntime : Bool

/-- The sight with one more delivery, if there is one to be made. It waits to be drained and has been
woken. -/
def Sight.hand (s : Sight) : Option Delivery → Sight
  | some d =>
      { s with
        deliveries := s.deliveries ++ [d]
        pending := s.pending ++ [s.deliveries.length]
        woken := s.woken ++ [.delivery s.deliveries.length] }
  | none => s

/-- The listener that a new call gets, and the channel with it. -/
def Sight.ear (s : Sight) : Listener × Channel :=
  (s.source.listen? s.clock s.channel).getD (.unarmed, s.channel)

/-- The sight with a listener for a call. -/
def Sight.listenFor (s : Sight) (number : Nat) : Sight :=
  { s with
    calls := s.calls.modify number fun c => { c with listener := s.ear.1 }
    channel := s.ear.2 }

namespace World

/-- The sight of a world. -/
def sight (w : World) : Sight :=
  ⟨w.strands, w.calls, w.source, w.channel, w.deliveries, w.pending, w.woken, w.clock, w.hasRuntime⟩

/-- The delivery that is made of an event, if the reporter hands anything over. -/
def made? (w : World) (e : Event) : Option Delivery :=
  if w.isReporting then some ⟨e.name, w.nextPlan, .waiting⟩ else none

section Sight

variable (w : World)

theorem made?_waiting
    {e : Event}
    {d : Delivery}
    (h : w.made? e = some d) :
    d.status = .waiting := by
  unfold made? at h
  split at h
  · cases h
    rfl
  · cases h

theorem sight_report
    (call : Nat)
    (e : Event) :
    (w.report call e).sight = w.sight.hand (w.made? e) := by
  unfold report send post made? isReporting DeliveryClient.isEnabled
  cases w.reporter.enabled with
  | false =>
      rfl
  | true =>
      cases w.reporter.client.transport with
      | none =>
          rfl
      | some transport =>
          cases w.hasRuntime with
          | _ =>
              rfl

theorem sight_announce
    (s : Settlement) :
    (w.announce s).sight = w.sight := by
  cases s with
  | _ =>
      rfl

theorem sight_complain
    (batch : List Nat) :
    (w.complain batch).sight = w.sight := by
  unfold complain
  induction batch generalizing w with
  | nil =>
      rfl
  | cons d rest ih =>
      rw [List.foldl_cons, ih]
      split
      · rfl
      · rfl

theorem sight_release
    {number : Nat}
    {call : Call}
    (hcall : w.calls[number]? = some call) :
    (w.release number).sight =
      { w.sight with
        calls := w.sight.calls.modify number fun c => { c with listener := .unarmed }
        channel := call.listener.release w.sight.channel } := by
  simp only [release, hcall]
  rfl

theorem sight_listenFor
    (number : Nat) :
    (w.listenFor number).sight = w.sight.listenFor number := by
  unfold listenFor listen Sight.listenFor Sight.ear sight
  cases w.source.listen? w.clock w.channel with
  | none =>
      rfl
  | some installed =>
      rfl

/-! ## Turns -/

theorem sight_openCall
    (id : Nat)
    (subject : Subject)
    (propagate : Bool)
    (abandonAfter : Option Nat) :
    (w.openCall id subject propagate abandonAfter).sight =
      { w.sight.hand (w.made? ⟨subject, .started⟩) with
        calls := w.calls ++
          [{ w.newCall id subject propagate abandonAfter with listener := w.sight.ear.1 }]
        channel := w.sight.ear.2 } := by
  let call := w.newCall id subject propagate abandonAfter
  have hmade : (w.addCall call).made? ⟨subject, .started⟩ = w.made? ⟨subject, .started⟩ := rfl
  have hcalls : (w.calls ++ [call]).modify w.calls.length (fun c => { c with listener := w.sight.ear.1 }) =
      w.calls ++ [{ call with listener := w.sight.ear.1 }] :=
    modify_length_append w.calls call _
  rw [openCall, sight_listenFor, sight_report, hmade]
  cases w.made? ⟨subject, .started⟩ with
  | _ =>
      simp only [Sight.hand, Sight.listenFor]
      exact Sight.ext rfl hcalls rfl rfl rfl rfl rfl rfl rfl

theorem sight_startRace
    (id : Nat)
    (inner : String)
    (number : Nat)
    (body : Script) :
    (w.startRace id inner number body).sight =
      { w.sight with
        strands := (w.strands ++ [Strand.mk w.strands.length inner 0 body (some number) .ready]).modify id
          fun strand => { strand with status := .racing number }
        calls := w.calls.modify number fun c => { c with phase := .racing w.strands.length }
        woken := w.woken ++ [.strand w.strands.length] } :=
  rfl

/-- A call that is decided is left by its listener, and its strand goes on. -/
theorem sight_conclude
    (id : Nat)
    (list : String)
    {number : Nat}
    {call : Call}
    (hcall : w.calls[number]? = some call)
    (hpropagate : call.propagate = false)
    (s : Settlement) :
    (w.conclude id list number call s).sight =
      { w.sight.hand (w.made? (endingOf call s w.clock)) with
        strands := w.strands.modify id fun strand => { strand with status := .ready }
        calls := w.calls.modify number fun c =>
          { c with
            listener := .unarmed
            contributions := (call.contributions.take s.ending.stage).2
            phase := .settled s }
        channel := call.listener.release w.channel } := by
  have hready : ∀ (u : World) (o : Outcome), u.hand id o false = u.withStatus id .ready := by
    intro u o
    cases o <;> rfl
  let settled := ((w.announce s).release number).settle number call s
  have hannounced : (w.announce s).calls[number]? = some call := by
    rw [← hcall]
    exact congrArg (fun sight => sight.calls[number]?) (w.sight_announce s)
  have hreleased := (w.announce s).sight_release hannounced
  have hsettled : settled.sight =
      { w.sight with
        calls := w.calls.modify number fun c =>
          { c with
            listener := .unarmed
            contributions := (call.contributions.take s.ending.stage).2
            phase := .settled s }
        channel := call.listener.release w.channel } := by
    rw [sight_announce] at hreleased
    have hsight : settled.sight =
        { ((w.announce s).release number).sight with
          calls := ((w.announce s).release number).sight.calls.modify number fun c =>
            { c with
              contributions := (call.contributions.take s.ending.stage).2
              phase := .settled s } } := rfl
    rw [hsight, hreleased]
    exact Sight.ext rfl (List.modify_modify_eq _ _ _ _) rfl rfl rfl rfl rfl rfl rfl
  have hmade : settled.made? (endingOf call s settled.clock) = w.made? (endingOf call s w.clock) := by
    have hspares := (quiet_before_settle id w number s).toSpares.trans (spares_settle id _ number call s)
    have hdeliveries : settled.deliveries = w.deliveries := congrArg Sight.deliveries hsettled
    have hplans : settled.plans = w.plans := by
      simp only [settled, release, hannounced]
      cases s <;> rfl
    simp only [made?, nextPlan, hspares.endures.isReporting, hspares.clock, hdeliveries, hplans, settled]
  have hsame : (w.conclude id list number call s).sight =
      { (settled.report number (endingOf call s settled.clock)).sight with
        strands := (settled.report number (endingOf call s settled.clock)).strands.modify id
          fun strand => { strand with status := .ready } } := by
    rw [conclude, hpropagate, hready]
    rfl
  rw [hsame, strands_report, sight_report, hmade, hsettled]
  have hstrands : settled.strands = w.strands := congrArg Sight.strands hsettled
  rw [hstrands]
  cases w.made? (endingOf call s w.clock) with
  | _ =>
      rfl

/-- A strand that begins to drain takes all that waits for it. -/
theorem sight_startDrain
    (id : Nat)
    (recorded : Bool) :
    (w.startDrain id recorded).sight =
      { w.sight with
        strands := w.strands.modify id fun strand => { strand with status := .draining w.pending recorded }
        pending := [] } := by
  simp only [startDrain]
  split
  · rfl
  · rfl

theorem sight_drain
    (id : Nat)
    (list : String)
    (batch : List Nat) :
    (w.drain id list batch false).sight =
      { w.sight with
        strands :=
          w.strands.modify id fun strand => { strand with status := w.statusAfter batch false } } := by
  have hcomplain := w.sight_complain (batch.filter w.isDelivered)
  have hdelivered : (w.complain (batch.filter w.isDelivered)).isDelivered = w.isDelivered := by
    have hdeliveries : (w.complain (batch.filter w.isDelivered)).deliveries = w.deliveries :=
      congrArg Sight.deliveries hcomplain
    funext d
    simp only [isDelivered, hdeliveries]
  have hset : ∀ status, ((w.complain (batch.filter w.isDelivered)).withStatus id status).sight =
      { w.sight with strands := w.strands.modify id fun strand => { strand with status } } := by
    intro status
    have hsight : ((w.complain (batch.filter w.isDelivered)).withStatus id status).sight =
        { (w.complain (batch.filter w.isDelivered)).sight with
          strands := (w.complain (batch.filter w.isDelivered)).sight.strands.modify id
            fun strand => { strand with status } } := rfl
    rw [hsight, hcomplain]
    rfl
  by_cases hempty : (batch.filter fun d => !w.isDelivered d).isEmpty = true
  · have hstatus : w.statusAfter batch false = .ready := if_pos hempty
    rw [hstatus]
    simp only [drain, hdelivered, if_pos hempty, Bool.false_eq_true, if_false]
    exact hset .ready
  · have hstatus : w.statusAfter batch false = .draining (w.unsettled batch) false := if_neg hempty
    rw [hstatus]
    simp only [drain, hdelivered, if_neg hempty]
    exact hset _

/-! ## Steps -/

theorem sight_finish
    {id : Nat}
    {strand : Strand}
    (hstrand : w.strands[id]? = some strand)
    (htask : strand.task = id)
    (o : Outcome) :
    (w.finish id o).sight =
      { w.sight with
        strands := w.strands.modify id fun strand => { strand with status := .finished o }
        woken := w.woken ++ (w.withStatus id (.finished o)).waiters id } := by
  simp only [finish, hstrand, if_pos htask]
  rfl

end Sight
end World
end LifecycleTelemetry
