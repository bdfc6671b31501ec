import LifecycleTelemetry.Proofs.Operation.Disclosed
import LifecycleTelemetry.Proofs.Operation.Drain

/-!
# Code that goes straight on

A list of steps goes straight on when none of them makes a call, opens a further list, hands anything to
a transport, or can wait for ever. What it contributes to the call in whose extent it is carried out, and
what it comes to, can then be read off the steps: this is what it *yields*.

A strand that carries out such steps touches nothing but itself and its call, and it discloses nothing.
At any time what it has contributed so far and what the steps before it yield make up the whole, unless
it has been aborted; `Strand.Follows` says so, and every turn of the strand keeps it.
-/

namespace LifecycleTelemetry

/-- Whether a step goes straight on. -/
def Step.isStraight : Step → Bool
  | .act a => a.isSilent
  | .succeed _ => true
  | .fail _ => true
  | .panic _ => true
  | .sleep _ => true
  | .giveWay => true
  | .drain _ => true
  | _ => false

/-- What a list of steps yields: what it contributes, in this order, and what it comes to. -/
structure Yield where
  given : List Contribution
  outcome : Outcome
deriving DecidableEq

/-- What a list of steps that goes straight on yields. -/
def yieldOf : Script → Yield
  | [] => ⟨[], .ok .null⟩
  | .succeed value :: _ => ⟨[], .ok value⟩
  | .fail f :: _ => ⟨[], .err f⟩
  | .panic p :: _ => ⟨[], .panic p⟩
  | .act a :: rest => ⟨a.contributions ++ (yieldOf rest).given, (yieldOf rest).outcome⟩
  | _ :: rest => yieldOf rest

/-- Whether a strand is under way with steps that go straight on. -/
def StrandStatus.isUnderWay : StrandStatus → Bool
  | .ready => true
  | .sleeping _ _ => true
  | .gaveWay => true
  | .draining _ _ => true
  | _ => false

/-- A strand is on its way to what it is to yield, and has contributed a part of it. -/
inductive Strand.Follows (y : Yield) (given : List Contribution) (strand : Strand) : Prop where
  | underWay
      (hstatus : strand.status.isUnderWay = true)
      (hstraight : ∀ step ∈ strand.rest, step.isStraight = true)
      (hgiven : given ++ (yieldOf strand.rest).given = y.given)
      (houtcome : (yieldOf strand.rest).outcome = y.outcome)
  | arrived
      (hstatus : strand.status = .finished y.outcome)
      (hgiven : given = y.given)
  | aborted
      (hstatus : strand.status = .aborted)
      (hgiven : given <+: y.given)

section Follows

variable {y : Yield} {given : List Contribution} {strand : Strand}

theorem Strand.Follows.isPrefix
    (h : strand.Follows y given) :
    given <+: y.given := by
  cases h with
  | underWay _ _ hgiven _ =>
      exact ⟨_, hgiven⟩
  | arrived _ hgiven =>
      exact hgiven ▸ List.prefix_refl _
  | aborted _ hgiven =>
      exact hgiven

/-- Such a strand races no call. -/
theorem Strand.Follows.race?
    (h : strand.Follows y given) :
    strand.status.race? = none := by
  cases h with
  | underWay hstatus _ _ _ =>
      cases hkind : strand.status with
      | racing number =>
          simp [hkind, StrandStatus.isUnderWay] at hstatus
      | _ =>
          rfl
  | arrived hstatus _ =>
      rw [hstatus]
      rfl
  | aborted hstatus _ =>
      rw [hstatus]
      rfl

/-- What a strand waits for makes no difference to what it is to yield. -/
theorem Strand.Follows.withStatus
    (h : strand.Follows y given)
    (hnow : strand.status.isUnderWay = true)
    {status : StrandStatus}
    (hstatus : status.isUnderWay = true) :
    ({ strand with status } : Strand).Follows y given := by
  cases h with
  | underWay _ hstraight hgiven houtcome =>
      exact .underWay hstatus hstraight hgiven houtcome
  | arrived hfinished _ =>
      simp [hfinished, StrandStatus.isUnderWay] at hnow
  | aborted haborted _ =>
      simp [haborted, StrandStatus.isUnderWay] at hnow

theorem Strand.Follows.abortedIn
    (h : strand.Follows y given)
    (task : Nat) :
    (World.Strand.abortedIn task strand).Follows y given := by
  unfold World.Strand.abortedIn
  split
  · exact h
  · split
    · exact .aborted rfl h.isPrefix
    · exact h

end Follows

namespace World

/-! ## Turns -/

/-- What a turn of a strand that goes straight on does: it changes the strand, which is still on its
way, and contributes something more to the call of the strand. -/
structure Treads (id : Nat) (strand : Strand) (y : Yield) (given : List Contribution)
    (w after : World) (change : Strand → Strand) (more : List Contribution) : Prop where
  strands : after.strands = w.strands.modify id change
  acts : Acts w strand.scope more after
  disclosed : after.disclosed = w.disclosed
  follows : (change strand).Follows y (given ++ more)

section Treads

variable (w : World) (id : Nat)

theorem strands_finish
    (o : Outcome) :
    (w.finish id o).strands =
      w.strands.modify id fun strand => { strand with status := .finished o } := by
  unfold finish
  cases hstrand : w.strands[id]? with
  | none =>
      exact (List.modify_eq_self (List.getElem?_eq_none_iff.mp hstrand)).symm
  | some strand =>
      simp only
      split
      · rfl
      · rfl

theorem strands_act
    (list : String)
    (scope : Option Nat)
    {a : Action}
    (ha : a.isSilent = true) :
    (w.act list scope a).strands = w.strands := by
  cases a with
  | contribute accessor stage key value =>
      cases scope with
      | none =>
          rfl
      | some call =>
          rfl
  | contributeAll stage data =>
      cases scope with
      | none =>
          simp only [act, contributeAll?_none]
          by_cases hdata : data = [] <;>
            simp [hdata, record, note]
      | some call =>
          simp only [act, contributeAll?_some]
          rfl
  | send name properties =>
      cases ha
  | post event properties =>
      cases ha
  | _ =>
      rfl

theorem strands_drain
    (list : String)
    (batch : List Nat)
    (recorded : Bool) :
    ∃ status, status.isUnderWay = true ∧
      (w.drain id list batch recorded).strands =
        w.strands.modify id fun strand => { strand with status } := by
  have hsame := (w.same_complain (batch.filter w.isDelivered)).1
  simp only [drain]
  split
  · refine ⟨.ready, rfl, ?_⟩
    rw [← hsame]
    split
    · rfl
    · rfl
  · exact ⟨.draining _ recorded, rfl, by rw [← hsame]; rfl⟩

variable {w id} {strand : Strand} {y : Yield} {given : List Contribution}

/-- A strand may always stay where it is. -/
theorem treads_refl
    (h : strand.Follows y given) :
    Treads id strand y given w w (fun strand => strand) [] where
  strands := (List.modify_id id w.strands).symm
  acts := Apart.refl.acts _
  disclosed := rfl
  follows := by rwa [List.append_nil]

/-- It may wait for something else, where that can come. -/
theorem treads_wait
    (h : strand.Follows y given)
    (hnow : strand.status.isUnderWay = true)
    {after : World}
    {status : StrandStatus}
    (hstatus : status.isUnderWay = true)
    (hstrands : after.strands = w.strands.modify id fun strand => { strand with status })
    (hapart : Apart w after)
    (hdisclosed : after.disclosed = w.disclosed) :
    Treads id strand y given w after (fun strand => { strand with status }) [] where
  strands := hstrands
  acts := hapart.acts _
  disclosed := hdisclosed
  follows := by
    rw [List.append_nil]
    exact h.withStatus hnow hstatus

/-- It may put a step behind it, with whatever the step does. -/
theorem treads_step
    {rest : Script}
    {after : World}
    {change : Strand → Strand}
    {more : List Contribution}
    (hstrands : after.strands = (w.pass id rest).strands.modify id change)
    (hacts : Acts (w.pass id rest) strand.scope more after)
    (hdisclosed : after.disclosed = w.disclosed)
    (hfollows : (change { strand with index := strand.index + 1, rest }).Follows y (given ++ more)) :
    ∃ change more, Treads id strand y given w after change more := by
  refine ⟨fun strand => change { strand with index := strand.index + 1, rest }, more, ?_, ?_,
    hdisclosed, hfollows⟩
  · rw [hstrands]
    exact List.modify_modify_eq _ _ _ _
  · exact ⟨hacts.calls, hacts.ids, hacts.nextId, hacts.source,
      hacts.places.trans (w.apart_pass id rest).places⟩

/-- A step that ends the strand comes to its outcome, and contributes nothing more. -/
theorem treads_end
    {rest : Script}
    {o : Outcome}
    (hyields : yieldOf strand.rest = ⟨[], o⟩)
    (hgiven : given ++ (yieldOf strand.rest).given = y.given)
    (houtcome : (yieldOf strand.rest).outcome = y.outcome) :
    ∃ change more, Treads id strand y given w ((w.pass id rest).finish id o) change more := by
  rw [hyields] at hgiven houtcome
  exact treads_step (strands_finish _ id o) ((apart_finish _ id o).acts _)
    (disclosed_of_history (history_finish _ id o))
    (.arrived (congrArg StrandStatus.finished houtcome) hgiven)

/-- A step that lets the strand wait leaves it to the steps behind it to yield something. -/
theorem treads_on
    {rest : Script}
    {status : StrandStatus}
    {after : World}
    (hstatus : status.isUnderWay = true)
    (hlater : ∀ step ∈ rest, step.isStraight = true)
    (hgiven : given ++ (yieldOf rest).given = y.given)
    (houtcome : (yieldOf rest).outcome = y.outcome)
    (hstrands : after.strands =
      (w.pass id rest).strands.modify id fun strand => { strand with status })
    (hapart : Apart (w.pass id rest) after)
    (hdisclosed : after.disclosed = w.disclosed) :
    ∃ change more, Treads id strand y given w after change more := by
  refine treads_step hstrands (hapart.acts _) hdisclosed (.underWay hstatus hlater ?_ houtcome)
  rwa [List.append_nil]

theorem treads_perform
    {step : Step}
    {rest : Script}
    (hready : strand.status = .ready)
    (hrest : strand.rest = step :: rest)
    (hstraight : ∀ step ∈ strand.rest, step.isStraight = true)
    (hgiven : given ++ (yieldOf strand.rest).given = y.given)
    (houtcome : (yieldOf strand.rest).outcome = y.outcome) :
    ∃ change more, Treads id strand y given w ((w.pass id rest).perform id strand step) change more := by
  have hstep : step.isStraight = true := hstraight step (by simp [hrest])
  have hlater : ∀ step ∈ rest, step.isStraight = true := fun other hother =>
    hstraight other (by simp [hrest, hother])
  cases step with
  | act a =>
      rw [hrest] at hgiven houtcome
      have hsame : ((w.pass id rest).act strand.list strand.scope a).strands =
          (w.pass id rest).strands.modify id fun strand => strand :=
        (strands_act _ _ _ hstep).trans (List.modify_id id _).symm
      exact treads_step hsame (acts_act _ strand.list strand.scope a)
        (disclosed_act _ strand.list strand.scope hstep)
        (.underWay (by rw [hready]; rfl) hlater ((List.append_assoc _ _ _).trans hgiven) houtcome)
  | succeed value =>
      exact treads_end (by rw [hrest]; rfl) hgiven houtcome
  | fail f =>
      exact treads_end (by rw [hrest]; rfl) hgiven houtcome
  | panic p =>
      exact treads_end (by rw [hrest]; rfl) hgiven houtcome
  | sleep duration =>
      rw [hrest] at hgiven houtcome
      have hticket : Apart (w.pass id rest) (w.pass id rest).ticket.2 := ⟨rfl, rfl, rfl, rfl⟩
      exact treads_on rfl hlater hgiven houtcome rfl
        (hticket.trans (apart_withStatus _ id _)) rfl
  | giveWay =>
      rw [hrest] at hgiven houtcome
      exact treads_on rfl hlater hgiven houtcome rfl (apart_withStatus _ id _) rfl
  | drain recorded =>
      rw [hrest] at hgiven houtcome
      have hdraining : (StrandStatus.draining w.pending recorded).isUnderWay = true := rfl
      refine treads_on hdraining hlater hgiven houtcome ?_
        (apart_startDrain _ id recorded) (disclosed_startDrain _ id recorded)
      simp only [perform, startDrain]
      split
      · rfl
      · rfl
  | _ =>
      cases hstep

theorem treads_stepForward
    (hready : strand.status = .ready)
    (h : strand.Follows y given) :
    ∃ change more, Treads id strand y given w (w.stepForward id strand) change more := by
  cases h with
  | arrived hfinished _ =>
      simp [hready] at hfinished
  | aborted haborted _ =>
      simp [hready] at haborted
  | underWay _ hstraight hgiven houtcome =>
      unfold stepForward
      cases hrest : strand.rest with
      | nil =>
          rw [hrest] at hgiven houtcome
          exact ⟨_, _, strands_finish w id _, (w.apart_finish id _).acts _,
            disclosed_of_history (history_finish w id _),
            .arrived (congrArg StrandStatus.finished houtcome) hgiven⟩
      | cons step rest =>
          exact treads_perform hready hrest hstraight hgiven houtcome

/-- Every turn of a strand that goes straight on is of this kind. -/
theorem treads_advance
    (hstrand : w.strands[id]? = some strand)
    (h : strand.Follows y given) :
    ∃ change more, Treads id strand y given w (w.advance id) change more := by
  have hready : ∀ after : World, strand.status.isUnderWay = true →
      after.strands = w.strands.modify id (fun strand => { strand with status := .ready }) →
      Apart w after → after.disclosed = w.disclosed →
      ∃ change more, Treads id strand y given w after change more :=
    fun _ hnow hstrands hapart hdisclosed =>
      ⟨_, _, treads_wait h hnow rfl hstrands hapart hdisclosed⟩
  have hstays : ∃ change more, Treads id strand y given w w change more := ⟨_, _, treads_refl h⟩
  unfold advance
  simp only [hstrand]
  split
  · cases hstatus : strand.status with
    | ready =>
        exact treads_stepForward hstatus h
    | sleeping deadline ticket =>
        exact hready _ (by rw [hstatus]; rfl) rfl (w.apart_withStatus id _) rfl
    | gaveWay =>
        exact hready _ (by rw [hstatus]; rfl) rfl (w.apart_withStatus id _) rfl
    | draining batch recorded =>
        obtain ⟨status, hgoes, hstrands⟩ := w.strands_drain id strand.list batch recorded
        exact ⟨_, _, treads_wait h (by rw [hstatus]; rfl) hgoes hstrands (w.apart_drain id _ _ _)
          (w.disclosed_drain id _ _ _)⟩
    | stuck =>
        exact hstays
    | finished o =>
        exact hstays
    | aborted =>
        exact hstays
    | _ =>
        cases h with
        | underWay hnow _ _ _ =>
            simp [hstatus, StrandStatus.isUnderWay] at hnow
        | arrived hfinished _ =>
            simp [hstatus] at hfinished
        | aborted haborted _ =>
            simp [hstatus] at haborted
  · exact hstays

end Treads
end World
end LifecycleTelemetry
