import LifecycleTelemetry.Operation.Move
import LifecycleTelemetry.Proofs.Operation.Report

/-!
# What the turn of a strand leaves alone

A turn of a strand is made of small parts, and most of these touch very little. Three relations
say what is left alone. `Spares` is about the surroundings: the reporter, the clock, the other
strands and the deliveries under way. `Hushed` is about the calls: none starts, ends or reports
anything, and no strand enters a race. `Retains` is about the deliveries that wait to be
drained: none of them is taken away, and what is newly accepted joins them.

A part that does all three is `Quiet`. Everything a turn is made of is quiet, except the start
and the end of a call and the start of a drain.
-/

namespace LifecycleTelemetry

open Json (Fields)

/-! ## Views of a world -/

/-- What stays of a call when one does not look at its listener and its contributions. -/
def Call.outline (c : Call) : Call :=
  { c with listener := .unarmed, contributions := .none }

/-- A call in another phase. -/
def Call.withPhase (phase : CallPhase) (c : Call) : Call :=
  { c with phase }

/-- The call that a strand with a given status is waiting for in its race, if that is what it
does. -/
def StrandStatus.race? : StrandStatus → Option Nat
  | .racing call => some call
  | _ => none

namespace World

/-- The call that a strand is waiting for in its race, if that is what it does. -/
def race? (w : World) (id : Nat) : Option Nat :=
  (w.strands[id]?).bind fun strand => strand.status.race?

/-- The calls of a world, without their listeners and contributions. -/
def outlines (w : World) : List Call :=
  w.calls.map Call.outline

/-- Whether a delivery has been accepted by the reporter. The others were posted to the client
directly. -/
def Accepted (w : World) (delivery : Nat) : Prop :=
  delivery < w.deliveries.length ∧ some delivery ∉ w.posted

/-! ## Frames -/

/-- In the turn of a strand, the surroundings stay as they are. -/
structure Spares (id : Nat) (w after : World) : Prop where
  reporter : after.reporter = w.reporter
  hasRuntime : after.hasRuntime = w.hasRuntime
  clock : after.clock = w.clock
  strands : ∀ other, other ≠ id → ∀ strand,
    w.strands[other]? = some strand → after.strands[other]? = some strand
  deliveries : w.deliveries <+: after.deliveries
  count : w.strands.length ≤ after.strands.length

/-- The calls stay as they are, report nothing, and no strand enters a race. -/
structure Hushed (w after : World) : Prop where
  outlines : after.outlines = w.outlines
  reports : ∀ call, after.reports call = w.reports call
  races : ∀ id call, after.race? id = some call → w.race? id = some call

/-- What waits to be drained keeps waiting, and what is newly accepted waits to be drained as
well. -/
structure Retains (w after : World) : Prop where
  pending : ∀ delivery ∈ w.pending, delivery ∈ after.pending
  accepted : ∀ delivery, after.Accepted delivery → w.Accepted delivery ∨ delivery ∈ after.pending

/-- A part of a turn that leaves everything alone but the strand itself. -/
structure Quiet (id : Nat) (w after : World) : Prop extends
  Spares id w after, Hushed w after, Retains w after

section Order

variable {id : Nat} {w mid after : World}

theorem Spares.refl : Spares id w w :=
  ⟨rfl, rfl, rfl, fun _ _ _ h => h, List.prefix_refl _, Nat.le_refl _⟩

theorem Spares.trans
    (h₁ : Spares id w mid)
    (h₂ : Spares id mid after) :
    Spares id w after where
  reporter := h₂.reporter.trans h₁.reporter
  hasRuntime := h₂.hasRuntime.trans h₁.hasRuntime
  clock := h₂.clock.trans h₁.clock
  strands := fun other hne strand h =>
    h₂.strands other hne strand (h₁.strands other hne strand h)
  deliveries := h₁.deliveries.trans h₂.deliveries
  count := Nat.le_trans h₁.count h₂.count

theorem Hushed.refl : Hushed w w :=
  ⟨rfl, fun _ => rfl, fun _ _ h => h⟩

theorem Hushed.trans
    (h₁ : Hushed w mid)
    (h₂ : Hushed mid after) :
    Hushed w after where
  outlines := h₂.outlines.trans h₁.outlines
  reports := fun call => (h₂.reports call).trans (h₁.reports call)
  races := fun id call h => h₁.races id call (h₂.races id call h)

theorem Retains.refl : Retains w w :=
  ⟨fun _ h => h, fun _ h => Or.inl h⟩

theorem Retains.trans
    (h₁ : Retains w mid)
    (h₂ : Retains mid after) :
    Retains w after where
  pending := fun d h => h₂.pending d (h₁.pending d h)
  accepted := by
    intro d h
    rcases h₂.accepted d h with hmid | hpending
    · rcases h₁.accepted d hmid with hw | hpending
      · exact Or.inl hw
      · exact Or.inr (h₂.pending d hpending)
    · exact Or.inr hpending

theorem Quiet.refl : Quiet id w w :=
  ⟨.refl, .refl, .refl⟩

theorem Quiet.trans
    (h₁ : Quiet id w mid)
    (h₂ : Quiet id mid after) :
    Quiet id w after :=
  ⟨h₁.toSpares.trans h₂.toSpares, h₁.toHushed.trans h₂.toHushed,
    h₁.toRetains.trans h₂.toRetains⟩

end Order

/-! ## Parts that are quiet -/

section Parts

variable (id : Nat) (w : World)

theorem quiet_note
    (what : Happening)
    (h : ∀ call time, what.reportOf? call time = none) :
    Quiet id w (w.note what) where
  toSpares := ⟨rfl, rfl, rfl, fun _ _ _ h => h, List.prefix_refl _, Nat.le_refl _⟩
  toHushed := ⟨rfl, fun call => by simp [reports_note, h], fun _ _ h => h⟩
  toRetains := ⟨fun _ h => h, fun _ h => Or.inl h⟩

theorem quiet_record
    (list : String)
    (deed : Deed)
    (finding : Finding) :
    Quiet id w (w.record list deed finding) :=
  quiet_note id w _ fun _ _ => rfl

theorem quiet_say
    (level : LogLevel)
    (source : LogSource)
    (message : String)
    (fields : Fields) :
    Quiet id w (w.say level source message fields) :=
  quiet_note id w _ fun _ _ => rfl

/-- Who is to be woken, what tickets are left and what the channel holds is nobody else's
business. -/
theorem quiet_background
    (channel : Channel)
    (tickets : Nat)
    (woken : List TaskId) :
    Quiet id w { w with channel, tickets, woken } where
  toSpares := ⟨rfl, rfl, rfl, fun _ _ _ h => h, List.prefix_refl _, Nat.le_refl _⟩
  toHushed := ⟨rfl, fun _ => rfl, fun _ _ h => h⟩
  toRetains := ⟨fun _ h => h, fun _ h => Or.inl h⟩

theorem race?_withStrand
    (change : Strand → Strand)
    (other : Nat) :
    (w.withStrand id change).race? other =
      if other = id then (w.strands[id]?).bind fun strand => (change strand).status.race?
      else w.race? other := by
  by_cases h : other = id
  · subst h
    simp only [race?, withStrand, List.getElem?_modify_eq, if_true]
    cases w.strands[other]? with
    | none =>
        rfl
    | some strand =>
        rfl
  · have hne : ¬ id = other := fun h' => h h'.symm
    simp [race?, withStrand, h, hne]

theorem race?_withStatus
    (status : StrandStatus)
    (other : Nat) :
    (w.withStatus id status).race? other =
      if other = id then (w.strands[id]?).bind fun _ => status.race?
      else w.race? other :=
  race?_withStrand id w _ other

theorem spares_withStrand
    (change : Strand → Strand) :
    Spares id w (w.withStrand id change) := by
  refine ⟨rfl, rfl, rfl, ?_, List.prefix_refl _, Nat.le_of_eq ?_⟩
  · intro other hne strand h
    have hne' : ¬ id = other := fun h' => hne h'.symm
    simpa [withStrand, hne'] using h
  · exact (List.length_modify _ _ _).symm

theorem retains_withStrand
    (change : Strand → Strand) :
    Retains w (w.withStrand id change) :=
  ⟨fun _ h => h, fun _ h => Or.inl h⟩

/-- A strand may be changed as long as it does not enter a race. -/
theorem quiet_withStrand
    (change : Strand → Strand)
    (hcalm : ∀ strand call,
      (change strand).status.race? = some call → strand.status.race? = some call) :
    Quiet id w (w.withStrand id change) where
  toSpares := spares_withStrand id w change
  toHushed := by
    refine ⟨rfl, fun _ => rfl, ?_⟩
    intro other call h
    rw [race?_withStrand] at h
    by_cases heq : other = id
    · subst heq
      simp only [if_true] at h
      obtain ⟨strand, hstrand, hrace⟩ := Option.bind_eq_some_iff.mp h
      exact Option.bind_eq_some_iff.mpr ⟨strand, hstrand, hcalm strand call hrace⟩
    · simpa [heq] using h
  toRetains := retains_withStrand id w change

theorem quiet_withStatus
    (status : StrandStatus)
    (hcalm : status.race? = none) :
    Quiet id w (w.withStatus id status) :=
  quiet_withStrand id w _ fun _ call h => by simp [hcalm] at h

theorem quiet_addStrand
    (strand : Strand)
    (hready : strand.status = .ready) :
    Quiet id w (w.addStrand strand).2 where
  toSpares := by
    refine ⟨rfl, rfl, rfl, ?_, List.prefix_refl _, ?_⟩
    · intro other _ old h
      exact List.getElem?_append_left (List.getElem?_eq_some_iff.mp h).1 ▸ h
    · exact (List.prefix_append _ _).length_le
  toHushed := by
    refine ⟨rfl, fun _ => rfl, ?_⟩
    intro other call h
    simp only [race?, addStrand] at h ⊢
    rcases Nat.lt_trichotomy other w.strands.length with hlt | heq | hgt
    · rwa [List.getElem?_append_left hlt] at h
    · subst heq
      simp [hready, StrandStatus.race?] at h
    · rw [List.getElem?_eq_none (by simp; omega)] at h
      cases h
  toRetains := ⟨fun _ h => h, fun _ h => Or.inl h⟩

theorem quiet_spawnTask
    (list : String)
    (script : Script)
    (scope : Option Nat) :
    Quiet id w (w.spawnTask list script scope).2 :=
  (quiet_addStrand id w _ rfl).trans (quiet_background id _ _ _ _)

/-- A change of a call shows in its outline as a change of the outline. -/
theorem outlines_withCall
    (call : Nat)
    (change changed : Call → Call)
    (houtline : ∀ c, (change c).outline = changed c.outline) :
    (w.withCall call change).outlines = w.outlines.modify call changed := by
  apply List.ext_getElem?
  intro n
  simp only [outlines, withCall, List.getElem?_map, List.getElem?_modify]
  cases w.calls[n]? with
  | none =>
      rfl
  | some c =>
      by_cases h : call = n
      · simp [h, houtline]
      · simp [h]

/-- What happens to the listener and the contributions of a call does not show in its outline. -/
theorem quiet_withCall
    (call : Nat)
    (change : Call → Call)
    (houtline : ∀ c, (change c).outline = c.outline) :
    Quiet id w (w.withCall call change) where
  toSpares := ⟨rfl, rfl, rfl, fun _ _ _ h => h, List.prefix_refl _, Nat.le_refl _⟩
  toHushed := by
    refine ⟨?_, fun _ => rfl, fun _ _ h => h⟩
    rw [outlines_withCall w call change (fun c => c) houtline]
    exact List.modify_id call w.outlines
  toRetains := ⟨fun _ h => h, fun _ h => Or.inl h⟩

theorem quiet_listen :
    Quiet id w w.listen.2 := by
  unfold listen
  cases w.source.listen? w.clock w.channel with
  | none =>
      exact quiet_say id w _ _ _ _
  | some installed =>
      exact quiet_background id w _ _ _

theorem quiet_listenFor
    (call : Nat) :
    Quiet id w (w.listenFor call) := by
  have hcall := quiet_withCall id w.listen.2 call (fun c => { c with listener := w.listen.1 })
    fun _ => rfl
  exact (quiet_listen id w).trans hcall

theorem quiet_release
    (call : Nat) :
    Quiet id w (w.release call) := by
  unfold release
  cases w.calls[call]? with
  | none =>
      exact .refl
  | some c =>
      have hcall := quiet_withCall id w call (fun c => { c with listener := .unarmed }) fun _ => rfl
      exact hcall.trans (quiet_background id _ _ _ _)

theorem quiet_trigger
    (s : Signal) :
    Quiet id w (w.trigger s).2 :=
  quiet_background id w _ _ _

theorem quiet_contribute?
    {after : World}
    {scope : Option Nat}
    {stage : TerminalStage}
    {key : String}
    {value : Json}
    (h : w.contribute? scope stage key value = some after) :
    Quiet id w after := by
  cases scope with
  | none =>
      cases h
  | some call =>
      cases h
      exact quiet_withCall id w call _ fun _ => rfl

theorem quiet_contributeAll?
    {after : World}
    {scope : Option Nat}
    {stage : TerminalStage}
    {data : Fields}
    (h : w.contributeAll? scope stage data = some after) :
    Quiet id w after := by
  induction data generalizing w with
  | nil =>
      cases h
      exact .refl
  | cons field rest ih =>
      rw [contributeAll?] at h
      cases hfirst : w.contribute? scope stage field.1 field.2 with
      | none =>
          simp [hfirst] at h
      | some mid =>
          simp only [hfirst] at h
          exact (quiet_contribute? id w hfirst).trans (ih mid h)

end Parts

/-! ## Sending -/

section Sending

variable (id : Nat) (w : World)

/-- A payload that is handed over is one more delivery; otherwise nothing is different. -/
theorem post_cases
    (sender : Sender)
    (event : String)
    (properties : Fields) :
    ∃ sent after, w.post sender event properties = (sent, after) ∧
      Spares id w after ∧ after.calls = w.calls ∧ after.strands = w.strands ∧
      after.pending = w.pending ∧ after.posted = w.posted ∧
      (sent = none ∧ after.deliveries.length = w.deliveries.length ∨
        sent = some w.deliveries.length ∧
          after.deliveries.length = w.deliveries.length + 1) := by
  unfold post
  cases w.reporter.client.transport with
  | none =>
      exact ⟨none, w, rfl, .refl, rfl, rfl, rfl, rfl, Or.inl ⟨rfl, rfl⟩⟩
  | some transport =>
      by_cases hruntime : w.hasRuntime
      · simp only [hruntime, if_true]
        refine ⟨_, _, rfl, ⟨rfl, rfl, rfl, fun _ _ _ h => h, ?_, Nat.le_refl _⟩, rfl, rfl, rfl,
          rfl, Or.inr ⟨rfl, ?_⟩⟩
        · exact List.prefix_append _ _
        · exact List.length_append
      · simp only [hruntime]
        exact ⟨_, _, rfl, (quiet_say id w _ _ _ _).toSpares, rfl, rfl, rfl, rfl,
          Or.inl ⟨rfl, rfl⟩⟩

/-- Sending an event touches no strand, and what is accepted waits to be drained. -/
theorem send_cases
    (sender : Sender)
    (event : String)
    (properties : Fields) :
    Spares id w (w.send sender event properties) ∧
      Retains w (w.send sender event properties) ∧
      (w.send sender event properties).calls = w.calls ∧
      (w.send sender event properties).strands = w.strands := by
  unfold send
  by_cases henabled : w.reporter.enabled
  · simp only [henabled, if_true]
    obtain ⟨sent, after, heq, hspares, hcalls, hstrands, hpending, hposted, hcase⟩ :=
      w.post_cases id sender event (w.reporter.merged properties)
    rw [heq]
    rcases hcase with ⟨rfl, hlength⟩ | ⟨rfl, hlength⟩
    · refine ⟨hspares, ⟨fun d h => by rw [hpending]; exact h, ?_⟩, hcalls, hstrands⟩
      intro d h
      exact Or.inl ⟨hlength ▸ h.1, hposted ▸ h.2⟩
    · refine ⟨⟨hspares.reporter, hspares.hasRuntime, hspares.clock,
        hspares.strands, hspares.deliveries, hspares.count⟩, ⟨?_, ?_⟩, hcalls, hstrands⟩
      · intro d h
        simp [hpending, h]
      · intro d h
        rcases Nat.lt_or_eq_of_le (Nat.lt_succ_iff.mp (hlength ▸ h.1)) with hlt | heq
        · exact Or.inl ⟨hlt, hposted ▸ h.2⟩
        · exact Or.inr (by simp [heq])
  · simp only [henabled]
    exact ⟨.refl, .refl, rfl, rfl⟩

theorem spares_report
    (call : Nat)
    (e : Event) :
    Spares id w (w.report call e) :=
  (send_cases id w _ _ _).1

theorem retains_report
    (call : Nat)
    (e : Event) :
    Retains w (w.report call e) :=
  (send_cases 0 w _ _ _).2.1

@[simp]
theorem calls_report
    (call : Nat)
    (e : Event) :
    (w.report call e).calls = w.calls :=
  (send_cases 0 w _ _ _).2.2.1

@[simp]
theorem strands_report
    (call : Nat)
    (e : Event) :
    (w.report call e).strands = w.strands :=
  (send_cases 0 w _ _ _).2.2.2

/-- The same calls and the same strands make a world hushed, if no call has reported anything. -/
theorem hushed_of_eq
    {after : World}
    (hcalls : after.calls = w.calls)
    (hstrands : after.strands = w.strands)
    (hreports : ∀ call, after.reports call = w.reports call) :
    Hushed w after where
  outlines := by rw [outlines, outlines, hcalls]
  reports := hreports
  races := fun other call h => by rwa [race?, hstrands] at h

theorem quiet_send_program
    (event : String)
    (properties : Fields) :
    Quiet id w (w.send .program event properties) := by
  obtain ⟨hspares, hretains, hcalls, hstrands⟩ := w.send_cases id .program event properties
  have hreports := w.reports_send_program event properties
  exact ⟨hspares, w.hushed_of_eq hcalls hstrands hreports, hretains⟩

/-- What is posted to the client directly is none of the reporter's deliveries. -/
theorem quiet_post_program
    (event : String)
    (properties : Fields) :
    Quiet id w { (w.post .program event properties).2 with
      posted := (w.post .program event properties).2.posted ++
        [(w.post .program event properties).1] } := by
  have hreports := w.reports_post_program event properties
  obtain ⟨sent, after, heq, hspares, hcalls, hstrands, hpending, hposted, hcase⟩ :=
    w.post_cases id .program event properties
  rw [heq] at hreports ⊢
  refine ⟨⟨hspares.reporter, hspares.hasRuntime, hspares.clock,
      hspares.strands, hspares.deliveries, hspares.count⟩,
    w.hushed_of_eq hcalls hstrands hreports, ⟨?_, ?_⟩⟩
  · intro d h
    simp [hpending, h]
  · intro d h
    obtain ⟨hlt, hnew⟩ := h
    rw [hposted, List.mem_append, not_or] at hnew
    rcases hcase with ⟨rfl, hlength⟩ | ⟨rfl, hlength⟩
    · exact Or.inl ⟨hlength ▸ hlt, hnew.1⟩
    · have hne : d ≠ w.deliveries.length := by
        intro h
        exact hnew.2 (by simp [h])
      have hle : d < w.deliveries.length + 1 := hlength ▸ hlt
      exact Or.inl ⟨by omega, hnew.1⟩

end Sending
end World
end LifecycleTelemetry
