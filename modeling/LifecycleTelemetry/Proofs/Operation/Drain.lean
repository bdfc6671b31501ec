import LifecycleTelemetry.Proofs.Operation.CallStep

/-!
# What a drain waits for

A drain takes the deliveries that wait to be drained, and comes back when those are over. A
delivery that another drain has taken before does not wait to be drained any more, even if it is
still on its way. So a drain comes back with everything delivered that had been accepted when it
began exactly if what earlier drains had taken by then is delivered as well; and that is so once
those drains have come back.

Two facts about worlds carry this. Every accepted delivery waits to be drained or has been taken
by a drain, and the strand of a drain is held until what it has taken is over.
-/

namespace LifecycleTelemetry

/-- Whether a strand is neither draining nor cut off. -/
def StrandStatus.isBack : StrandStatus → Bool
  | .draining _ _ => false
  | .aborted => false
  | _ => true

/-- Whether the next step of a strand is a drain, and the strand is ready for it. -/
def Strand.isAboutToDrain (strand : Strand) : Bool :=
  match strand.status, strand.rest with
  | .ready, .drain _ :: _ => true
  | _, _ => false

namespace World

/-- A delivery is over: it has succeeded, failed or panicked. -/
def HasFinished (w : World) (delivery : Nat) : Prop :=
  ∃ d, w.deliveries[delivery]? = some d ∧ d.isFinished = true

/-- There is a strand with a number that is neither draining nor cut off. -/
def isBack (w : World) (id : Nat) : Bool :=
  (w.strands[id]?).any fun strand => strand.status.isBack

/-- There is a strand with a number that is about to drain. -/
def isAboutToDrain (w : World) (id : Nat) : Bool :=
  (w.strands[id]?).any Strand.isAboutToDrain

theorem isAboutToDrain_iff
    {w : World}
    {id : Nat} :
    w.isAboutToDrain id = true ↔ ∃ strand recorded rest, w.strands[id]? = some strand ∧
      strand.status = .ready ∧ strand.rest = .drain recorded :: rest := by
  constructor
  · intro h
    obtain ⟨strand, hstrand, hdrain⟩ := (Option.any_eq_true _ _).mp h
    unfold Strand.isAboutToDrain at hdrain
    split at hdrain
    · next recorded rest hready hrest =>
        exact ⟨strand, recorded, rest, hstrand, hready, hrest⟩
    · cases hdrain
  · rintro ⟨strand, recorded, rest, hstrand, hready, hrest⟩
    simp [isAboutToDrain, Strand.isAboutToDrain, hstrand, hready, hrest]

/-! ## Deliveries that are over -/

section Finished

variable {w after : World}

theorem hasFinished_iff
    {delivery : Nat} :
    w.HasFinished delivery ↔
      delivery < w.deliveries.length ∧ w.isDelivered delivery = true := by
  constructor
  · rintro ⟨d, hd, hover⟩
    refine ⟨(List.getElem?_eq_some_iff.mp hd).1, ?_⟩
    simp [isDelivered, hd, hover]
  · rintro ⟨hlt, hover⟩
    refine ⟨w.deliveries[delivery], List.getElem?_eq_getElem hlt, ?_⟩
    simpa [isDelivered, hlt] using hover

theorem hasFinished_of_deliveries
    (h : w.deliveries <+: after.deliveries)
    {delivery : Nat}
    (hw : w.HasFinished delivery) :
    after.HasFinished delivery := by
  obtain ⟨d, hd, hover⟩ := hw
  obtain ⟨new, hnew⟩ := h
  refine ⟨d, ?_, hover⟩
  rw [← hnew]
  exact List.getElem?_append_left (List.getElem?_eq_some_iff.mp hd).1 ▸ hd

/-- A delivery that is over stays so. -/
theorem hasFinished_of_change
    (h : Change w after)
    {delivery : Nat}
    (hw : w.HasFinished delivery) :
    after.HasFinished delivery := by
  cases h with
  | turn h =>
      exact hasFinished_of_deliveries (spares_of_turn h).deliveries hw
  | background h =>
      obtain ⟨hlt, hover⟩ := hasFinished_iff.mp hw
      exact hasFinished_iff.mpr ⟨by rw [h.deliveries]; exact hlt, h.delivered delivery hover⟩
  | abortion task =>
      exact hasFinished_of_deliveries (aborts_abort w task).deliveries hw
  | script s hover =>
      exact hasFinished_of_deliveries (quiet_beginScript w s).deliveries hw

theorem Evolves.hasFinished
    (h : Evolves w after)
    {delivery : Nat}
    (hw : w.HasFinished delivery) :
    after.HasFinished delivery :=
  h.induct hw fun _ _ _ _ hu hchange => hasFinished_of_change hchange hu

/-- There never are fewer deliveries than before. -/
theorem length_deliveries_of_change
    (h : Change w after) :
    w.deliveries.length ≤ after.deliveries.length := by
  cases h with
  | turn h =>
      exact (spares_of_turn h).deliveries.length_le
  | background h =>
      exact Nat.le_of_eq h.deliveries.symm
  | abortion task =>
      exact (aborts_abort w task).deliveries.length_le
  | script s hover =>
      exact (quiet_beginScript w s).deliveries.length_le

end Finished

/-! ## What a strand waits for -/

/-- A delivery has been taken by a drain of a strand: it is over, or the strand still drains it
or has been cut off. -/
structure Taken (w : World) (id delivery : Nat) : Prop where
  made : delivery < w.deliveries.length
  kept : w.HasFinished delivery ∨ ∃ strand, w.strands[id]? = some strand ∧
    (strand.status = .aborted ∨
      ∃ batch recorded, strand.status = .draining batch recorded ∧ delivery ∈ batch)

section Taken

variable {w after : World} {id delivery : Nat}

/-- A strand that is back has got what it has taken. -/
theorem Taken.hasFinished
    (h : Taken w id delivery)
    (hback : w.isBack id = true) :
    w.HasFinished delivery := by
  obtain ⟨strand, hstrand, hback⟩ := (Option.any_eq_true _ _).mp hback
  rcases h.kept with hover | ⟨other, hother, hstatus⟩
  · exact hover
  · rw [hstrand] at hother
    cases hother
    rcases hstatus with haborted | ⟨batch, recorded, hdraining, -⟩
    · simp [haborted, StrandStatus.isBack] at hback
    · simp [hdraining, StrandStatus.isBack] at hback

theorem same_complain
    (w : World)
    (batch : List Nat) :
    (w.complain batch).strands = w.strands ∧ (w.complain batch).deliveries = w.deliveries := by
  unfold complain
  induction batch generalizing w with
  | nil =>
      exact ⟨rfl, rfl⟩
  | cons d rest ih =>
      rw [List.foldl_cons]
      obtain ⟨hstrands, hdeliveries⟩ := ih (if w.hasPanicked d then
        w.say .debug .delivery "telemetry delivery task did not complete" [] else w)
      rw [hstrands, hdeliveries]
      split
      · exact ⟨rfl, rfl⟩
      · exact ⟨rfl, rfl⟩

/-- A drain that goes on keeps what is not over yet. -/
theorem strand_drain
    {strand : Strand}
    (hstrand : w.strands[id]? = some strand)
    (list : String)
    (batch : List Nat)
    (recorded : Bool) :
    ∃ status, (w.drain id list batch recorded).strands[id]? = some { strand with status } ∧
      ∀ d ∈ batch, w.isDelivered d = true ∨
        ∃ rest, status = .draining rest recorded ∧ d ∈ rest := by
  obtain ⟨hstrands, hdeliveries⟩ := w.same_complain (batch.filter w.isDelivered)
  have hdelivered : ∀ d, (w.complain (batch.filter w.isDelivered)).isDelivered d =
      w.isDelivered d := by
    intro d
    simp [isDelivered, hdeliveries]
  have hsame : (w.complain (batch.filter w.isDelivered)).strands[id]? = some strand := by
    rw [hstrands, hstrand]
  simp only [drain, hdelivered]
  by_cases hempty : (batch.filter fun d => !w.isDelivered d).isEmpty = true
  · rw [if_pos hempty]
    refine ⟨.ready, ?_, ?_⟩
    · split
      · exact strand_withStatus _ id hsame .ready
      · exact strand_withStatus _ id hsame .ready
    · intro d hd
      have hnone := List.isEmpty_iff.mp hempty
      rw [List.filter_eq_nil_iff] at hnone
      exact Or.inl (by simpa using hnone d hd)
  · rw [if_neg hempty]
    refine ⟨_, strand_withStatus _ id hsame _, ?_⟩
    intro d hd
    by_cases hover : w.isDelivered d = true
    · exact Or.inl hover
    · exact Or.inr ⟨_, rfl, List.mem_filter.mpr ⟨hd, by simpa using hover⟩⟩

/-- The beginning of a drain takes what waits to be drained. -/
theorem taken_startDrain
    {recorded : Bool}
    {strand : Strand}
    (hstrand : w.strands[id]? = some strand)
    (hmade : delivery < w.deliveries.length)
    (hpending : delivery ∈ w.pending) :
    Taken (w.startDrain id recorded) id delivery := by
  have hdeliveries := (w.spares_startDrain id recorded).deliveries
  refine ⟨Nat.lt_of_lt_of_le hmade hdeliveries.length_le, Or.inr ?_⟩
  have hsame : (w.startDrain id recorded).strands[id]? =
      some { strand with status := .draining w.pending recorded } := by
    unfold startDrain
    simp only
    split
    · exact strand_withStatus _ id hstrand _
    · exact strand_withStatus _ id hstrand _
  exact ⟨_, hsame, Or.inr ⟨w.pending, recorded, rfl, hpending⟩⟩

/-- In a turn of its own a strand goes on to hold what it has taken, until that is over. -/
theorem taken_ownTurn
    {strand : Strand}
    (hmade : delivery < w.deliveries.length)
    (hstrand : w.strands[id]? = some strand)
    (hstatus : strand.status = .aborted ∨
      ∃ batch recorded, strand.status = .draining batch recorded ∧ delivery ∈ batch)
    (h : Turn w id after) :
    after.HasFinished delivery ∨ ∃ strand, after.strands[id]? = some strand ∧
      (strand.status = .aborted ∨
        ∃ batch recorded, strand.status = .draining batch recorded ∧ delivery ∈ batch) := by
  have hother : ∀ other, w.strands[id]? = some other → other = strand := by
    intro other h
    rw [hstrand] at h
    exact (Option.some.inj h).symm
  cases h with
  | quiet h hheld =>
      -- A strand that drains or has been cut off is held, so that a quiet turn changes nothing.
      have hsame : after = w := by
        refine hheld strand hstrand ?_
        rcases hstatus with haborted | ⟨batch, recorded, hdraining, -⟩
        · simp [haborted, StrandStatus.isHeld]
        · simp [hdraining, StrandStatus.isHeld]
      rw [hsame]
      exact Or.inr ⟨strand, hstrand, hstatus⟩
  | opens hstrand' hready _ =>
      rw [hother _ hstrand'] at hready
      simp [hready] at hstatus
  | drains hstrand' hready _ =>
      rw [hother _ hstrand'] at hready
      simp [hready] at hstatus
  | concludes hstrand' hracing _ _ =>
      rw [hother _ hstrand'] at hracing
      simp [hracing] at hstatus
  | abandons hstrand' hracing _ _ _ =>
      rw [hother _ hstrand'] at hracing
      simp [hracing] at hstatus
  | @drainsOn same batch recorded hstrand' hdraining =>
      have hdeliveries := (quiet_drain id w same.list batch recorded).deliveries
      have hsame := hother _ hstrand'
      subst hsame
      simp only [hdraining, reduceCtorEq, StrandStatus.draining.injEq, false_or] at hstatus
      obtain ⟨batch', recorded', ⟨rfl, rfl⟩, hmem⟩ := hstatus
      obtain ⟨status, hafter, hbatch⟩ := strand_drain hstrand same.list batch recorded
      rcases hbatch delivery hmem with hover | ⟨rest, rfl, hrest⟩
      · have hbefore := hasFinished_iff.mpr ⟨hmade, hover⟩
        exact Or.inl (hasFinished_of_deliveries hdeliveries hbefore)
      · exact Or.inr ⟨_, hafter, Or.inr ⟨rest, recorded, rfl, hrest⟩⟩

theorem Taken.change
    (hw : Taken w id delivery)
    (h : Change w after) :
    Taken after id delivery := by
  refine ⟨Nat.lt_of_lt_of_le hw.made (length_deliveries_of_change h), ?_⟩
  rcases hw.kept with hover | ⟨strand, hstrand, hstatus⟩
  · exact Or.inl (hasFinished_of_change h hover)
  · cases h with
    | @turn other _ h =>
        by_cases hid : id = other
        · subst hid
          exact taken_ownTurn hw.made hstrand hstatus h
        · exact Or.inr ⟨strand, (spares_of_turn h).strands id hid strand hstrand, hstatus⟩
    | background h =>
        exact Or.inr ⟨strand, by rw [h.strands]; exact hstrand, hstatus⟩
    | abortion task =>
        refine Or.inr ⟨Strand.abortedIn task strand, ?_, ?_⟩
        · rw [(aborts_abort w task).strands, List.getElem?_map, hstrand]
          rfl
        · rcases hstatus with haborted | ⟨batch, recorded, hdraining, hmem⟩
          · left
            simp only [Strand.abortedIn, haborted]
            split
            · rfl
            · exact haborted
          · by_cases htask : strand.task = task
            · left
              simp [Strand.abortedIn, hdraining, htask]
            · right
              exact ⟨batch, recorded, by simp [Strand.abortedIn, hdraining, htask], hmem⟩
    | script s hover =>
        by_cases hid : id = 0
        · subst hid
          simp only [outcome?, hstrand] at hover
          rcases hstatus with haborted | ⟨batch, recorded, hdraining, -⟩
          · simp [haborted] at hover
          · simp [hdraining] at hover
        · exact Or.inr ⟨strand, (quiet_beginScript w s).strands id hid strand hstrand, hstatus⟩

theorem Taken.evolves
    (hw : Taken w id delivery)
    (h : Evolves w after) :
    Taken after id delivery :=
  h.induct (P := fun w => Taken w id delivery) hw fun _ _ _ _ hu hchange => hu.change hchange

end Taken

/-! ## Who has taken a delivery -/

section Accepted

variable {w after : World}

theorem retains_of_turn
    {id : Nat}
    (h : Turn w id after) :
    Retains w after ∨ w.isAboutToDrain id = true ∧ after = w.advance id ∧
      ∀ delivery, after.Accepted delivery → w.Accepted delivery := by
  cases h with
  | quiet h _ =>
      exact Or.inl h.toRetains
  | opens _ _ _ =>
      obtain ⟨_, -, h⟩ := opens_step id w _ _ _ _ _ _ _ _
      exact Or.inl h.toRetains
  | @drains strand recorded rest hstrand hready hrest =>
      right
      refine ⟨isAboutToDrain_iff.mpr ⟨strand, recorded, rest, hstrand, hready, hrest⟩, ?_, ?_⟩
      · exact (w.advance_of_draining id hstrand hready hrest).symm
      · intro delivery h
        unfold startDrain at h
        simp only at h
        split at h
        · exact h
        · exact h
  | @drainsOn strand batch recorded _ _ =>
      exact Or.inl (quiet_drain id w strand.list batch recorded).toRetains
  | @concludes strand number call s _ _ _ _ =>
      exact Or.inl (concludes_conclude id w strand.list number call s).toRetains
  | @abandons strand number call _ _ _ _ _ =>
      exact Or.inl (leaves_abandon id w number strand.list).toRetains

/-- A delivery waits to be drained, or a drain has taken it since a world was. -/
def Traced (first w : World) (delivery : Nat) : Prop :=
  delivery ∈ w.pending ∨ ∃ t id, Evolves first t ∧ t.isAboutToDrain id = true ∧
    t.Accepted delivery ∧ delivery ∈ t.pending ∧ Evolves (t.advance id) w

theorem Retains.traced
    {first : World}
    (h : Retains w after)
    (hstep : Evolves w after)
    (hw : ∀ delivery, w.Accepted delivery → Traced first w delivery)
    (delivery : Nat)
    (haccepted : after.Accepted delivery) :
    Traced first after delivery := by
  rcases h.accepted delivery haccepted with hold | hnew
  · rcases hw delivery hold with hpending | ⟨t, id, ht, hdrain, hmade, hmem, hlater⟩
    · exact Or.inl (h.pending delivery hpending)
    · exact Or.inr ⟨t, id, ht, hdrain, hmade, hmem, hlater.trans hstep⟩
  · exact Or.inl hnew

/-- Every accepted delivery waits to be drained or has been taken by a drain. -/
theorem Evolves.traced
    {first : World}
    (hfirst : first.deliveries = [])
    (h : Evolves first w)
    (delivery : Nat)
    (haccepted : w.Accepted delivery) :
    Traced first w delivery := by
  refine h.induct (P := fun w => ∀ delivery, w.Accepted delivery → Traced first w delivery)
    ?_ ?_ delivery haccepted
  · intro d hd
    simp [Accepted, hfirst] at hd
  · intro u after hpast hstep hu hchange
    cases hchange with
    | @turn id _ h =>
        -- Only the beginning of a drain takes anything away from what waits to be drained.
        rcases retains_of_turn h with hretains | ⟨hdrain, rfl, hsame⟩
        · exact hretains.traced hstep hu
        · intro d hd
          rcases hu d (hsame d hd) with hpending | ⟨t, j, ht, hdrain', hmade, hmem, hlater⟩
          · exact Or.inr ⟨u, id, hpast, hdrain, hsame d hd, hpending, .refl⟩
          · exact Or.inr ⟨t, j, ht, hdrain', hmade, hmem, hlater.trans hstep⟩
    | background h =>
        exact h.retains.traced hstep hu
    | abortion task =>
        exact (aborts_abort u task).retains.traced hstep hu
    | script s hover =>
        exact (quiet_beginScript u s).toRetains.traced hstep hu

end Accepted

/-! ## Drains -/

/-- A drain has got what waited to be drained when it began, whenever it comes back. -/
theorem hasFinished_of_drain
    {u w : World}
    {id delivery : Nat}
    (hdrain : u.isAboutToDrain id = true)
    (hmade : u.Accepted delivery)
    (hpending : delivery ∈ u.pending)
    (hlater : Evolves (u.advance id) w)
    (hback : w.isBack id = true) :
    w.HasFinished delivery := by
  obtain ⟨strand, recorded, rest, hstrand, hready, hrest⟩ := isAboutToDrain_iff.mp hdrain
  rw [u.advance_of_draining id hstrand hready hrest] at hlater
  have hpass : (u.pass id rest).strands[id]? =
      some { strand with index := strand.index + 1, rest } := by
    simp [pass, withStrand, hstrand]
  have htaken : Taken ((u.pass id rest).startDrain id recorded) id delivery :=
    taken_startDrain hpass hmade.1 hpending
  exact (htaken.evolves hlater).hasFinished hback

/-- What a drain comes to that began in one world and has come back in another. -/
structure Drained (first u w : World) : Prop where
  /-- What waited to be drained when it began is over. -/
  own : ∀ delivery, u.Accepted delivery → delivery ∈ u.pending → w.HasFinished delivery
  /-- Everything that had been accepted by then is over exactly when the rest is. -/
  complete_iff : (∀ delivery, u.Accepted delivery → w.HasFinished delivery) ↔
    ∀ delivery, u.Accepted delivery → delivery ∉ u.pending → w.HasFinished delivery
  /-- The rest had been taken by earlier drains. It is over if these have come back as well. -/
  rest : ∀ delivery, u.Accepted delivery → delivery ∉ u.pending →
    ∃ t id, Evolves first t ∧ t.isAboutToDrain id = true ∧ delivery ∈ t.pending ∧
      Evolves (t.advance id) u ∧
      ∀ v, Evolves (t.advance id) v → v.isBack id = true → Evolves v w → w.HasFinished delivery

/-- A drain waits for everything accepted before it, except for what earlier drains have taken. -/
theorem drained_of_evolves
    {reporter : Reporter}
    {hasRuntime : Bool}
    {stamps : Nat → Int}
    {source : InterruptSource}
    {plans : List DeliveryPlan}
    {u w : World}
    {id : Nat}
    (hpast : Evolves (World.start reporter hasRuntime stamps source plans) u)
    (hdrain : u.isAboutToDrain id = true)
    (hlater : Evolves (u.advance id) w)
    (hback : w.isBack id = true) :
    Drained (World.start reporter hasRuntime stamps source plans) u w := by
  have hown : ∀ delivery, u.Accepted delivery → delivery ∈ u.pending → w.HasFinished delivery :=
    fun delivery hmade hpending => hasFinished_of_drain hdrain hmade hpending hlater hback
  refine ⟨hown, ?_, ?_⟩
  · constructor
    · exact fun hall delivery hmade _ => hall delivery hmade
    · intro hrest delivery hmade
      by_cases hpending : delivery ∈ u.pending
      · exact hown delivery hmade hpending
      · exact hrest delivery hmade hpending
  · intro delivery hmade hnot
    rcases hpast.traced rfl delivery hmade with hpending | ⟨t, j, ht, htdrain, htmade, hmem, hu⟩
    · exact (hnot hpending).elim
    · refine ⟨t, j, ht, htdrain, hmem, hu, ?_⟩
      intro v hv hvback hvw
      exact hvw.hasFinished (hasFinished_of_drain htdrain htmade hmem hv hvback)

/-- For instance, in a program that sends an event and drains it. -/
theorem drained_plainRun :
    let u := plainRun [⟨some 100, .succeed⟩] [.act (.send "e" []), .drain true]
      [.advance 0, .deliver 0]
    let w := (u.advance 0).moves [.pass 100, .deliver 0, .advance 0]
    u.isAboutToDrain 0 = true ∧ w.isBack 0 = true ∧ u.pending = [0] ∧
      Drained (World.start plainReporter true plainStamps .channel [⟨some 100, .succeed⟩]) u w := by
  intro u w
  have hdrain : u.isAboutToDrain 0 = true := by decide +kernel
  have hback : w.isBack 0 = true := by decide +kernel
  exact ⟨hdrain, hback, by decide +kernel,
    drained_of_evolves (evolves_plainRun _ _ _) hdrain (Evolves.moves _ _) hback⟩

/-- Not every drain comes back with everything delivered that had been accepted before it: of
two drains that run side by side, the second does not wait for what the first has taken. -/
theorem drain_incomplete :
    let script := [.act (.send "e" []), .parallel none [[.drain true], [.drain true]] false]
    let u := plainRun [⟨some 100, .succeed⟩] script
      [.advance 0, .deliver 0, .advance 0, .advance 1]
    let w := (u.advance 2).moves [.advance 2]
    u.isAboutToDrain 2 = true ∧ w.isBack 2 = true ∧
      ¬ ∀ d, u.Accepted d → w.HasFinished d := by
  intro script u w
  refine ⟨by decide +kernel, by decide +kernel, ?_⟩
  intro hall
  have haccepted : u.Accepted 0 := ⟨by decide +kernel, by decide +kernel⟩
  have hwaiting : w.isDelivered 0 = false := by decide +kernel
  have hover := (hasFinished_iff.mp (hall 0 haccepted)).2
  simp [hwaiting] at hover

end World
end LifecycleTelemetry
