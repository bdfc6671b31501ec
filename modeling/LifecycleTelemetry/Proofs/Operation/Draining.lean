import LifecycleTelemetry.Proofs.Operation.Ledger
import LifecycleTelemetry.Proofs.Operation.Straight

/-!
# The batches of drains

A strand that drains has a batch of deliveries in its hands. It gets the batch in the turn in which it
begins to drain, which is the turn of which a drain is written down, and from then on puts away what is
over until nothing is left. Nothing else that happens in a world gives a strand a batch, or puts anything
into one.
-/

namespace LifecycleTelemetry

open Json (Fields)

/-- The batch of deliveries that a strand waits for in its drain. -/
def StrandStatus.batch? : StrandStatus → Option (List Nat)
  | .draining batch _ => some batch
  | _ => none

namespace World

/-- What the strand with a number waits for in its drain, if it drains. -/
def batch? (w : World) (id : Nat) : Option (List Nat) :=
  (w.strands[id]?).bind fun strand => strand.status.batch?

/-- No strand gets a batch, and none gets on with the one that it has. -/
def Idles (w after : World) : Prop :=
  ∀ j batch, after.batch? j = some batch → w.batch? j = some batch

section Parts

variable {w mid after : World}

theorem idles_of_strands
    (h : after.strands = w.strands) :
    Idles w after := by
  intro j batch hbatch
  rw [batch?, ← h]
  exact hbatch

theorem Idles.trans
    (h₁ : Idles w mid)
    (h₂ : Idles mid after) :
    Idles w after :=
  fun j batch hbatch => h₁ j batch (h₂ j batch hbatch)

theorem batch?_of_modify
    {id : Nat}
    {change : Strand → Strand}
    (h : after.strands = w.strands.modify id change)
    (j : Nat) :
    after.batch? j = (w.strands[j]?).bind fun strand =>
      if id = j then (change strand).status.batch? else strand.status.batch? := by
  rw [batch?, h, List.getElem?_modify]
  cases w.strands[j]? with
  | none =>
      rfl
  | some strand =>
      by_cases hj : id = j
      · simp [hj]
      · simp [hj]

/-- A strand may be changed as long as it does not begin to drain. -/
theorem idles_modify
    {id : Nat}
    {change : Strand → Strand}
    (h : after.strands = w.strands.modify id change)
    (hchange : ∀ strand, (change strand).status.batch? = none ∨
      (change strand).status.batch? = strand.status.batch?) :
    Idles w after := by
  intro j batch hbatch
  rw [batch?_of_modify h] at hbatch
  obtain ⟨strand, hstrand, hbatch⟩ := Option.bind_eq_some_iff.mp hbatch
  rw [batch?, hstrand, Option.bind_some]
  split at hbatch
  · rcases hchange strand with hnone | hsame
    · rw [hnone] at hbatch
      cases hbatch
    · rw [← hsame]
      exact hbatch
  · exact hbatch

variable (w)

theorem idles_withStatus
    (id : Nat)
    (status : StrandStatus)
    (hstatus : status.batch? = none) :
    Idles w (w.withStatus id status) :=
  idles_modify rfl fun _ => .inl hstatus

theorem idles_addStrand
    {strand : Strand}
    (hready : strand.status = .ready) :
    Idles w (w.addStrand strand).2 := by
  intro j batch hbatch
  obtain ⟨other, hother, hbatch⟩ := Option.bind_eq_some_iff.mp hbatch
  have happended : (w.strands ++ [strand])[j]? = some other := hother
  rw [List.getElem?_append] at happended
  split at happended
  · rw [batch?, happended]
    exact hbatch
  · have hother := List.mem_singleton.mp (List.mem_of_getElem? happended)
    rw [hother, hready] at hbatch
    cases hbatch

theorem idles_act
    (list : String)
    (scope : Option Nat)
    (a : Action) :
    Idles w (w.act list scope a) := by
  cases hsilent : a.isSilent with
  | true =>
      exact idles_of_strands (w.strands_act list scope hsilent)
  | false =>
      cases a with
      | send name properties =>
          exact idles_of_strands (w.send_cases 0 .program name properties).2.2.2
      | post event properties =>
          obtain ⟨sent, after, heq, -, -, hstrands, -⟩ := w.post_cases 0 .program event properties
          refine idles_of_strands ?_
          simp only [act, heq]
          exact hstrands
      | _ =>
          cases hsilent

theorem idles_build
    (list : String)
    (call : Nat)
    (steps : List BuildStep) :
    Idles w (w.build list call steps).2 := by
  induction steps generalizing w with
  | nil =>
      exact idles_of_strands rfl
  | cons step rest ih =>
      cases step with
      | panic p =>
          exact idles_of_strands rfl
      | act a =>
          exact (w.idles_act list (some call) a).trans (ih _)

theorem idles_finish
    (id : Nat)
    (o : Outcome) :
    Idles w (w.finish id o) :=
  idles_modify (w.strands_finish id o) fun _ => .inl rfl

theorem idles_hand
    (id : Nat)
    (o : Outcome)
    (propagate : Bool) :
    Idles w (w.hand id o propagate) := by
  cases o with
  | ok value =>
      exact w.idles_withStatus id _ rfl
  | _ =>
      simp only [hand]
      split
      · exact w.idles_finish id _
      · exact w.idles_withStatus id _ rfl

theorem idles_handAll
    (id : Nat)
    (outcomes : List Outcome)
    (propagate : Bool) :
    Idles w (w.handAll id outcomes propagate) := by
  unfold handAll
  split
  · exact w.idles_hand id _ propagate
  · exact w.idles_withStatus id _ rfl

theorem idles_passOn
    (id : Nat)
    (texts : List String) :
    Idles w (w.passOn id texts) := by
  unfold passOn
  split
  · exact w.idles_finish id _
  · exact w.idles_finish id _
  · exact idles_of_strands rfl

theorem idles_addBranches
    (of : Strand)
    (inner : String)
    (number : Nat)
    (branches : List Script) :
    Idles w (w.addBranches of inner number branches).2 := by
  induction branches generalizing w number with
  | nil =>
      exact idles_of_strands rfl
  | cons branch rest ih =>
      exact (w.idles_addStrand rfl).trans (ih _ (number + 1))

theorem idles_spawnTask
    (list : String)
    (script : Script)
    (scope : Option Nat) :
    Idles w (w.spawnTask list script scope).2 :=
  (w.idles_addStrand rfl).trans (idles_of_strands rfl)

/-! ## Calls -/

theorem idles_openCall
    (id : Nat)
    (subject : Subject)
    (propagate : Bool)
    (abandonAfter : Option Nat) :
    Idles w (w.openCall id subject propagate abandonAfter) := by
  refine idles_of_strands ?_
  have hreport := strands_report (w.addCall (w.newCall id subject propagate abandonAfter))
    w.calls.length ⟨subject, .started⟩
  have hlisten : ∀ v : World, v.listen.2.strands = v.strands := by
    intro v
    unfold listen
    split
    · rfl
    · rfl
  exact (hlisten _).trans hreport

theorem idles_instrument
    (id : Nat)
    (list inner : String)
    (subject : Subject)
    (steps : List BuildStep)
    (body : Script)
    (propagate : Bool)
    (abandonAfter : Option Nat) :
    Idles w (w.instrument id list inner subject steps body propagate abandonAfter) := by
  have hopened := w.idles_openCall id subject propagate abandonAfter
  have hbuilt := idles_build (w.openCall id subject propagate abandonAfter) inner w.calls.length
    (w.readied steps)
  rw [instrument_eq]
  generalize (w.openCall id subject propagate abandonAfter).build inner w.calls.length
    (w.readied steps) = built at hbuilt
  obtain ⟨panicked, built⟩ := built
  refine (hopened.trans hbuilt).trans ?_
  cases panicked with
  | some p =>
      have hreleased : Idles built (built.release w.calls.length) :=
        idles_of_strands (built.strands_release w.calls.length)
      have hhanded := (((built.release w.calls.length).withCall w.calls.length fun c =>
        { c with phase := .collapsed p }).record list .instrument (.outcome (.panic p))).idles_hand id
          (.panic p) propagate
      exact hreleased.trans hhanded
  | none =>
      have hspawned := built.idles_spawnTask inner body (some w.calls.length)
      have hracing := ((built.spawnTask inner body (some w.calls.length)).2.withCall w.calls.length
        fun c => { c with phase := .racing built.strands.length }).idles_withStatus id
          (.racing w.calls.length) rfl
      exact hspawned.trans hracing

theorem idles_decide
    (id : Nat)
    (list : String)
    (number : Nat) :
    Idles w (w.decide id list number) := by
  unfold decide
  split
  · rename_i call _
    split
    · rename_i s _
      have hreported : Idles w (w.reportEnding number call s) :=
        idles_of_strands (w.strands_reportEnding number call s)
      have hhanded := ((w.reportEnding number call s).record list .instrument
        (.outcome s.outcome)).idles_hand id s.outcome call.propagate
      exact hreported.trans hhanded
    · split
      · have hreleased : Idles w (w.release number) :=
          idles_of_strands (w.strands_release number)
        have hready := (((w.release number).withCall number fun c =>
          { c with phase := .abandoned }).record list .instrument .abandoned).idles_withStatus id
            .ready rfl
        exact hreleased.trans hready
      · exact idles_of_strands rfl
  · exact idles_of_strands rfl

/-! ## Turns -/

/-- Only a drain begins to drain. -/
theorem idles_perform
    (id : Nat)
    (strand : Strand)
    {step : Step}
    (hstep : ∀ recorded, step ≠ .drain recorded) :
    Idles w (w.perform id strand step) := by
  cases step with
  | act a =>
      exact w.idles_act strand.list strand.scope a
  | succeed value =>
      exact w.idles_finish id _
  | fail f =>
      exact w.idles_finish id _
  | panic p =>
      exact w.idles_finish id _
  | drain recorded =>
      exact absurd rfl (hstep recorded)
  | settle posted =>
      simp only [perform]
      split
      · exact w.idles_withStatus id _ rfl
      · exact idles_of_strands rfl
  | instrument name subject build body propagate abandonAfter =>
      exact w.idles_instrument id _ _ _ _ _ _ _
  | passOn texts =>
      exact w.idles_passOn id texts
  | parallel name branches propagate =>
      exact (w.idles_addBranches strand _ 0 branches).trans (idles_withStatus _ id _ rfl)
  | spawn name body wait =>
      simp only [perform]
      by_cases hruntime : w.hasRuntime = true
      · simp only [hruntime, if_true]
        split
        · exact (w.idles_spawnTask _ body none).trans (idles_withStatus _ id _ rfl)
        · exact w.idles_spawnTask _ body none
      · simp only [hruntime]
        exact w.idles_finish id _
  | sleep duration =>
      exact w.ticket.2.idles_withStatus id _ rfl
  | _ =>
      exact w.idles_withStatus id _ rfl

/-- A turn in which a strand neither begins to drain nor goes on with its drain gives no strand a
batch. -/
theorem idles_advance
    {id : Nat}
    (hbatch : w.batch? id = none)
    (habout : w.isAboutToDrain id = false) :
    Idles w (w.advance id) := by
  have hrefl : Idles w w := idles_of_strands rfl
  unfold advance
  cases hstrand : w.strands[id]? with
  | none =>
      exact hrefl
  | some strand =>
      simp only
      split
      · cases hstatus : strand.status with
        | ready =>
            simp only [stepForward]
            cases hrest : strand.rest with
            | nil =>
                exact w.idles_finish id _
            | cons step rest =>
                have hpass : Idles w (w.pass id rest) := idles_modify rfl fun _ => .inr rfl
                refine hpass.trans (idles_perform _ id strand fun recorded hdrain => ?_)
                have hyes : w.isAboutToDrain id = true :=
                  isAboutToDrain_iff.mpr ⟨strand, recorded, rest, hstrand, hstatus, hdrain ▸ hrest⟩
                rw [habout] at hyes
                cases hyes
        | racing number =>
            exact w.idles_decide id strand.list number
        | draining batch recorded =>
            rw [batch?, hstrand, Option.bind_some, hstatus] at hbatch
            cases hbatch
        | settling delivery =>
            have hcomplained : Idles w (w.complain [delivery]) :=
              idles_of_strands (w.same_complain [delivery]).1
            exact hcomplained.trans (idles_withStatus _ id _ rfl)
        | joining branches propagate =>
            simp only
            split
            · exact idles_handAll (w.record _ _ _) id _ propagate
            · exact hrefl
        | awaiting task =>
            simp only
            split
            · exact idles_withStatus (w.record _ _ _) id _ rfl
            · exact idles_withStatus (w.record _ _ _) id _ rfl
        | sleeping deadline ticket =>
            exact w.idles_withStatus id _ rfl
        | gaveWay =>
            exact w.idles_withStatus id _ rfl
        | _ =>
            exact hrefl
      · exact hrefl

end Parts

/-! ## Turns of drains -/

/-- What is left of a batch when the deliveries that are over are put away. -/
def unsettled (w : World) (batch : List Nat) : List Nat :=
  batch.filter fun delivery => !w.isDelivered delivery

/-- What a strand is about after a look at the batch of its drain. -/
def statusAfter (w : World) (batch : List Nat) (recorded : Bool) : StrandStatus :=
  if (w.unsettled batch).isEmpty then .ready else .draining (w.unsettled batch) recorded

section Drains

variable (w : World) {id : Nat}

theorem batch?_statusAfter
    (batch : List Nat)
    (recorded : Bool) :
    (w.statusAfter batch recorded).batch? =
      if (w.unsettled batch).isEmpty then none else some (w.unsettled batch) := by
  unfold statusAfter
  split
  · rfl
  · rfl

/-- Nothing is put away of a batch of which nothing is over. -/
theorem unsettled_of_waiting
    {batch : List Nat}
    (h : batch.any w.isDelivered = false) :
    w.unsettled batch = batch :=
  List.filter_eq_self.mpr fun delivery hmem => by
    simpa using List.any_eq_false.mp h delivery hmem

/-- A drain that has a turn puts away what is over, and is back when nothing is left. -/
theorem strands_advance_of_draining
    {strand : Strand}
    {batch : List Nat}
    {recorded : Bool}
    (hstrand : w.strands[id]? = some strand)
    (hdraining : strand.status = .draining batch recorded) :
    (w.advance id).strands = w.strands.modify id fun strand =>
      { strand with status := w.statusAfter batch recorded } := by
  by_cases hgoes : w.canAdvance id = true
  · obtain ⟨hstrands, hdeliveries⟩ := w.same_complain (batch.filter w.isDelivered)
    have hunsettled : (batch.filter fun delivery =>
        !(w.complain (batch.filter w.isDelivered)).isDelivered delivery) = w.unsettled batch := by
      simp only [isDelivered, hdeliveries, unsettled]
    have hadvance : w.advance id = w.drain id strand.list batch recorded := by
      simp only [advance, hstrand, hgoes, hdraining, if_true]
    rw [hadvance]
    simp only [drain, hunsettled, statusAfter]
    split
    · rw [← hstrands]
      split
      · rfl
      · rfl
    · rw [← hstrands]
      rfl
  · -- Nothing is over, so that the batch stays as it is.
    have hwaiting : batch.isEmpty = false ∧ batch.any w.isDelivered = false := by
      simpa [canAdvance, hstrand, hdraining] using hgoes
    have hstatus : w.statusAfter batch recorded = strand.status := by
      simp [statusAfter, w.unsettled_of_waiting hwaiting.2, hwaiting.1, hdraining]
    have hadvance : w.advance id = w := by
      simp [advance, hstrand, hgoes]
    rw [hadvance, hstatus]
    refine List.ext_getElem? fun j => ?_
    rw [List.getElem?_modify]
    by_cases hj : id = j
    · subst hj
      simp [hstrand]
    · simp [hj]

/-- A drain that begins takes everything that waits to be drained. -/
theorem batch?_advance_of_about
    (habout : w.isAboutToDrain id = true) :
    (w.advance id).batch? id = some w.pending ∧
      ∀ j, id ≠ j → (w.advance id).batch? j = w.batch? j := by
  obtain ⟨strand, recorded, rest, hstrand, hready, hrest⟩ := isAboutToDrain_iff.mp habout
  have hadvance := w.advance_of_draining id hstrand hready hrest
  have hstrands : (w.advance id).strands = (w.pass id rest).strands.modify id fun strand =>
      { strand with status := .draining w.pending recorded } := by
    rw [hadvance]
    simp only [startDrain]
    split
    · rfl
    · rfl
  have hpass : ∀ j, (w.pass id rest).batch? j = w.batch? j := by
    intro j
    have hsame : (w.pass id rest).strands = w.strands.modify id fun strand =>
        { strand with index := strand.index + 1, rest } := rfl
    rw [batch?_of_modify hsame]
    simp only [ite_self]
    rfl
  constructor
  · rw [batch?_of_modify hstrands]
    simp [pass, withStrand, hstrand, StrandStatus.batch?]
  · intro j hj
    rw [← hpass j, batch?_of_modify hstrands]
    simp only [if_neg hj]
    rfl

end Drains

/-! ## Moves -/

section Moves

variable {w : World} {id : Nat}

/-- A strand that is about to drain has no batch yet. -/
theorem batch?_of_about
    (habout : w.isAboutToDrain id = true) :
    w.batch? id = none := by
  obtain ⟨strand, recorded, rest, hstrand, hready, -⟩ := isAboutToDrain_iff.mp habout
  rw [batch?, hstrand, Option.bind_some, hready]
  rfl

theorem exists_of_batch?
    {batch : List Nat}
    (hbatch : w.batch? id = some batch) :
    ∃ strand recorded, w.strands[id]? = some strand ∧ strand.status = .draining batch recorded := by
  obtain ⟨strand, hstrand, hbatch⟩ := Option.bind_eq_some_iff.mp hbatch
  cases hstatus : strand.status with
  | draining other recorded =>
      rw [hstatus] at hbatch
      cases hbatch
      exact ⟨strand, recorded, hstrand, hstatus⟩
  | _ =>
      rw [hstatus] at hbatch
      cases hbatch

/-- In a turn of its own a drain keeps what is not over. -/
theorem batch?_advance_of_draining
    {batch : List Nat}
    (hbatch : w.batch? id = some batch) :
    (w.advance id).batch? id =
        (if (w.unsettled batch).isEmpty then none else some (w.unsettled batch)) ∧
      ∀ j, id ≠ j → (w.advance id).batch? j = w.batch? j := by
  obtain ⟨strand, recorded, hstrand, hdraining⟩ := exists_of_batch? hbatch
  have hstrands := w.strands_advance_of_draining hstrand hdraining
  constructor
  · rw [batch?_of_modify hstrands, hstrand, Option.bind_some, if_pos rfl]
    exact w.batch?_statusAfter batch recorded
  · intro j hj
    rw [batch?_of_modify hstrands]
    simp only [if_neg hj]
    rfl

theorem idles_abort
    (w : World)
    (task : Nat) :
    Idles w (w.abort task) := by
  intro j batch hbatch
  rw [batch?, (w.aborts_abort task).strands, List.getElem?_map] at hbatch
  cases hstrand : w.strands[j]? with
  | none =>
      rw [hstrand] at hbatch
      cases hbatch
  | some strand =>
      rw [hstrand, Option.map_some, Option.bind_some, Strand.abortedIn] at hbatch
      rw [batch?, hstrand, Option.bind_some]
      split at hbatch
      · exact hbatch
      · split at hbatch
        · cases hbatch
        · exact hbatch

/-- How a strand comes by the batch that it has after a move: it had it before, it has put away what is
over of one, or it has begun to drain. -/
theorem batch?_move
    (w : World)
    (m : Move)
    {j : Nat}
    {batch : List Nat}
    (hbatch : (w.move m).batch? j = some batch) :
    w.batch? j = some batch ∨
      m = .advance j ∧ (∃ old, w.batch? j = some old ∧ batch = w.unsettled old) ∨
      m = .advance j ∧ w.isAboutToDrain j = true ∧ batch = w.pending := by
  cases m with
  | advance id =>
      cases hold : w.batch? id with
      | some old =>
          obtain ⟨hown, hothers⟩ := batch?_advance_of_draining hold
          by_cases hj : id = j
          · subst hj
            refine .inr (.inl ⟨rfl, old, hold, ?_⟩)
            have hleft := hown.symm.trans hbatch
            split at hleft
            · cases hleft
            · exact (Option.some.inj hleft).symm
          · exact .inl ((hothers j hj).symm.trans hbatch)
      | none =>
          cases habout : w.isAboutToDrain id with
          | false =>
              exact .inl (w.idles_advance hold habout j batch hbatch)
          | true =>
              obtain ⟨hown, hothers⟩ := w.batch?_advance_of_about habout
              by_cases hj : id = j
              · subst hj
                exact .inr (.inr ⟨rfl, habout, Option.some.inj (hbatch.symm.trans hown)⟩)
              · exact .inl ((hothers j hj).symm.trans hbatch)
  | deliver delivery =>
      exact .inl (idles_of_strands (w.background_deliver delivery).strands j batch hbatch)
  | pass time =>
      exact .inl hbatch
  | signal s =>
      exact .inl hbatch
  | abort task =>
      exact .inl (w.idles_abort task j batch hbatch)

end Moves

/-! ## What is written down of drains -/

section Ledger

variable (w : World)

theorem batchesIn_sendOf
    (sender : Sender)
    (event : String)
    (properties : Fields) :
    batchesIn (w.sendOf sender event properties) = [] := by
  unfold sendOf
  split
  · rfl
  · rfl

theorem batchesIn_actionOf
    (a : Action) :
    batchesIn (w.actionOf a) = [] := by
  cases a with
  | send name properties =>
      exact w.batchesIn_sendOf _ _ _
  | post event properties =>
      simp only [actionOf, postOf]
      split
      · rfl
      · rfl
  | _ =>
      rfl

theorem batchesIn_append
    (before after : List Posting) :
    batchesIn (before ++ after) = batchesIn before ++ batchesIn after :=
  List.filterMap_append

theorem batchesIn_buildOf
    (steps : List BuildStep) :
    batchesIn (w.buildOf steps) = [] := by
  induction steps with
  | nil =>
      rfl
  | cons step rest ih =>
      cases step with
      | panic p =>
          rfl
      | act a =>
          rw [buildOf, batchesIn_append, batchesIn_actionOf, ih]
          rfl

theorem batchesIn_raceOf
    (number : Nat) :
    batchesIn (w.raceOf number) = [] := by
  unfold raceOf
  split
  · split
    · exact w.batchesIn_sendOf _ _ _
    · rfl
  · rfl

/-- Of the beginning of a drain nothing but that is written down. -/
theorem ledgerOf_of_about
    {id : Nat}
    (habout : w.isAboutToDrain id = true) :
    w.ledgerOf (.advance id) = [.taken id w.pending] := by
  obtain ⟨strand, recorded, rest, hstrand, hready, hrest⟩ := isAboutToDrain_iff.mp habout
  simp only [ledgerOf, turnOf, hstrand, hready, hrest, stepOf]

/-- A drain is only written down when it begins. -/
theorem batchesIn_ledgerOf
    (m : Move)
    (habout : ∀ id, m = .advance id → w.isAboutToDrain id = false) :
    batchesIn (w.ledgerOf m) = [] := by
  cases m with
  | advance id =>
      simp only [ledgerOf, turnOf]
      cases hstrand : w.strands[id]? with
      | none =>
          rfl
      | some strand =>
          simp only
          cases hstatus : strand.status with
          | ready =>
              simp only
              cases hrest : strand.rest with
              | nil =>
                  rfl
              | cons step rest =>
                  cases step with
                  | act a =>
                      exact w.batchesIn_actionOf a
                  | instrument name subject build body propagate abandonAfter =>
                      have hreport := w.batchesIn_sendOf
                        (.call w.calls.length (Event.stage ⟨subject, .started⟩))
                        (Event.name ⟨subject, .started⟩) (Event.properties ⟨subject, .started⟩)
                      simp only [stepOf, reportOf, batchesIn_append, hreport, w.batchesIn_buildOf]
                      rfl
                  | drain recorded =>
                      have hyes : w.isAboutToDrain id = true :=
                        isAboutToDrain_iff.mpr ⟨strand, recorded, rest, hstrand, hstatus, hrest⟩
                      rw [habout id rfl] at hyes
                      cases hyes
                  | _ =>
                      rfl
          | racing number =>
              exact w.batchesIn_raceOf number
          | _ =>
              rfl
  | _ =>
      rfl

end Ledger

end World
end LifecycleTelemetry
