import LifecycleTelemetry.Proofs.Operation.Evolution
import LifecycleTelemetry.Proofs.Operation.Stride

/-!
# What has been handed over and what waits to be drained

The tally of a world is what the keeping of accounts is about: the payloads that have been handed to a
transport, the deliveries that have been made of them, those that wait to be drained, and the dates that are
given to payloads in their order. Most of what a turn is made of does not touch it. What is left are the
hand-over itself, which adds to it, and the beginning of a drain.
-/

namespace LifecycleTelemetry

open Json (Fields)

/-- The payload that has been handed over and who has done it, if that is what happened. -/
def Happening.handed? : Happening → Option (Sender × Payload)
  | .handedOver sender p => some (sender, p)
  | _ => none

/-- What has been handed over, the events of the deliveries, the deliveries that wait to be drained, and
the dates of payloads. -/
@[ext]
structure Tally where
  handed : List (Sender × Payload)
  events : List String
  pending : List Nat
  stamps : Nat → Int

namespace World

/-- What has been handed to a transport, in the order of time. -/
def handed (w : World) : List (Sender × Payload) :=
  w.history.reverse.filterMap fun e => e.what.handed?

/-- The tally of a world. -/
def tally (w : World) : Tally :=
  ⟨w.handed, w.deliveries.map Delivery.event, w.pending, w.stamps⟩

section Tally

variable (w : World)

theorem handed_note
    (what : Happening) :
    (w.note what).handed = w.handed ++ what.handed?.toList := by
  cases h : what.handed? <;>
    simp [handed, note, h]

theorem tally_note
    {what : Happening}
    (h : what.handed? = none) :
    (w.note what).tally = w.tally := by
  have hsame : (w.note what).handed = w.handed := by
    rw [handed_note, h]
    exact List.append_nil _
  rw [tally, tally, hsame]
  rfl

theorem tally_record
    (list : String)
    (deed : Deed)
    (finding : Finding) :
    (w.record list deed finding).tally = w.tally :=
  w.tally_note rfl

theorem tally_say
    (level : LogLevel)
    (source : LogSource)
    (message : String)
    (fields : Fields) :
    (w.say level source message fields).tally = w.tally :=
  w.tally_note rfl

/-! ## Strands and calls -/

theorem tally_finish
    (id : Nat)
    (o : Outcome) :
    (w.finish id o).tally = w.tally := by
  unfold finish
  split
  · simp only
    split
    · rfl
    · rfl
  · rfl

theorem tally_hand
    (id : Nat)
    (o : Outcome)
    (propagate : Bool) :
    (w.hand id o propagate).tally = w.tally := by
  cases o with
  | ok value =>
      rfl
  | _ =>
      simp only [hand]
      split
      · exact w.tally_finish id _
      · rfl

theorem tally_handAll
    (id : Nat)
    (outcomes : List Outcome)
    (propagate : Bool) :
    (w.handAll id outcomes propagate).tally = w.tally := by
  unfold handAll
  split
  · exact w.tally_hand id _ propagate
  · rfl

theorem tally_passOn
    (id : Nat)
    (texts : List String) :
    (w.passOn id texts).tally = w.tally := by
  unfold passOn
  split
  · exact w.tally_finish id _
  · exact w.tally_finish id _
  · rfl

theorem tally_addBranches
    (of : Strand)
    (inner : String)
    (number : Nat)
    (branches : List Script) :
    (w.addBranches of inner number branches).2.tally = w.tally := by
  induction branches generalizing w number with
  | nil =>
      rfl
  | cons branch rest ih =>
      exact (ih _ (number + 1)).trans rfl

theorem tally_release
    (call : Nat) :
    (w.release call).tally = w.tally := by
  unfold release
  split
  · rfl
  · rfl

theorem tally_announce
    (s : Settlement) :
    (w.announce s).tally = w.tally := by
  cases s with
  | interrupted signal =>
      exact w.tally_say _ _ _ _
  | _ =>
      rfl

theorem tally_listenFor
    (call : Nat) :
    (w.listenFor call).tally = w.tally := by
  have hlisten : w.listen.2.tally = w.tally := by
    unfold listen
    split
    · rfl
    · exact w.tally_say _ _ _ _
  exact hlisten

theorem tally_contributeAll?
    {scope : Option Nat}
    {stage : TerminalStage}
    {data : Fields}
    {after : World}
    (h : w.contributeAll? scope stage data = some after) :
    after.tally = w.tally := by
  induction data generalizing w with
  | nil =>
      cases h
      rfl
  | cons field rest ih =>
      cases scope with
      | none =>
          cases h
      | some n =>
          exact (ih (w.withCall n _) h).trans rfl

/-! ## Deliveries -/

theorem tally_complain
    (batch : List Nat) :
    (w.complain batch).tally = w.tally := by
  unfold complain
  induction batch generalizing w with
  | nil =>
      rfl
  | cons delivery rest ih =>
      rw [List.foldl_cons, ih]
      split
      · exact w.tally_say _ _ _ _
      · rfl

theorem tally_drain
    (id : Nat)
    (list : String)
    (batch : List Nat)
    (recorded : Bool) :
    (w.drain id list batch recorded).tally = w.tally := by
  have hcomplain := w.tally_complain (batch.filter w.isDelivered)
  simp only [drain]
  split
  · split
    · exact (tally_record _ _ _ _).trans hcomplain
    · exact hcomplain
  · exact hcomplain

/-- A delivery keeps its event whatever becomes of it. -/
theorem tally_withDelivery
    (id : Nat)
    (status : DeliveryStatus) :
    (w.withDelivery id status).tally = w.tally := by
  have hevents : (w.withDelivery id status).deliveries.map Delivery.event =
      w.deliveries.map Delivery.event :=
    (map_modify Delivery.event (fun d : Delivery => { d with status }) (fun event => event)
      (fun _ => rfl) w.deliveries id).trans (List.modify_id id _)
  rw [tally, tally, hevents]
  rfl

theorem tally_endDelivery
    (id : Nat)
    (d : Delivery) :
    (w.endDelivery id d).tally = w.tally := by
  unfold endDelivery
  cases d.plan.ending with
  | fail =>
      exact (tally_withDelivery _ id (.finished false)).trans (w.tally_say _ _ _ _)
  | succeed =>
      exact w.tally_withDelivery id (.finished false)
  | panic =>
      exact w.tally_withDelivery id (.finished true)
  | hang =>
      exact w.tally_withDelivery id .stuck

/-- However a delivery ends, it goes on waiting to be drained. -/
theorem tally_deliver
    (id : Nat) :
    (w.deliver id).tally = w.tally := by
  unfold deliver
  split
  · rfl
  · split
    · split
      · simp only
        split
        · exact tally_endDelivery w.ticket.2 id _
        · exact tally_withDelivery w.ticket.2 id _
      · exact w.tally_endDelivery id _
    · split
      · exact w.tally_endDelivery id _
      · rfl
    · rfl
    · rfl

theorem tally_abort
    (task : Nat) :
    (w.abort task).tally = w.tally := by
  have hdropped : ∀ calls : List Nat, (calls.foldl dropCall w).tally = w.tally := by
    intro calls
    induction calls generalizing w with
    | nil =>
        rfl
    | cons call rest ih =>
        exact (ih (w.dropCall call)).trans (w.tally_release call)
  exact hdropped (w.racesOf task)

end Tally
end World
end LifecycleTelemetry
