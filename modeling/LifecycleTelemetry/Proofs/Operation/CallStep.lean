import LifecycleTelemetry.Proofs.Operation.Races

/-!
# What a change of a world means to one call

Whatever happens to a world, a single call is made, decided or given up by it, or does not
notice anything. It reports when it is made and when it is decided, and at no other time. A call
that is over is left alone for good.
-/

namespace LifecycleTelemetry

/-- Whether a call is over: its race has been decided, its operation could not be built, or it
has been given up. -/
def CallPhase.isOver : CallPhase → Bool
  | .settled _ => true
  | .collapsed _ => true
  | .abandoned => true
  | _ => false

namespace World

/-! ## What all changes have in common -/

section Endures

variable {w after : World}

theorem endures_of_change
    (h : Change w after) :
    Endures w after := by
  cases h with
  | turn h =>
      exact (spares_of_turn h).endures
  | background h =>
      exact ⟨h.reporter, h.hasRuntime, h.clock⟩
  | abortion task =>
      have h := aborts_abort w task
      exact ⟨h.reporter, h.hasRuntime, Nat.le_of_eq h.clock.symm⟩
  | script s hover =>
      exact (quiet_beginScript w s).toSpares.endures

theorem Evolves.endures
    (h : Evolves w after) :
    Endures w after :=
  h.induct ⟨rfl, rfl, Nat.le_refl _⟩ fun _ _ _ _ hu hchange =>
    hu.trans (endures_of_change hchange)

end Endures

/-! ## One call -/

/-- What a change of a world means to a call. -/
inductive CallChange (n : Nat) (w after : World) : Prop where
  | unchanged
      (houtline : after.outlines[n]? = w.outlines[n]?)
      (hreports : after.reports n = w.reports n)
  | made
      {id : Nat}
      {strand : Strand}
      {call : Call}
      (hnew : n = w.calls.length)
      (hstrand : w.strands[id]? = some strand)
      (heq : after = w.advance id)
      (hafter : after.outlines[n]? = some call)
      (hbegins : Begins w strand.list call after)
      (hstart : call.startedAt = w.clock)
      (hreports : after.reports n =
        if w.isReporting then w.reports n ++ [w.reportAt w.clock ⟨call.subject, .started⟩]
        else w.reports n)
  | settled
      {id : Nat}
      {strand : Strand}
      {call : Call}
      {s : Settlement}
      (hstrand : w.strands[id]? = some strand)
      (hracing : strand.status = .racing n)
      (hcall : w.calls[n]? = some call)
      (hsettled : w.settlement? call = some s)
      (heq : after = w.advance id)
      (hafter : after.outlines[n]? = some (call.outline.withPhase (.settled s)))
      (hreports : after.reports n =
        if w.isReporting then w.reports n ++ [w.reportAt w.clock (endingOf call s w.clock)]
        else w.reports n)
  | dropped
      {call : Call}
      {body : Nat}
      (houtline : w.outlines[n]? = some call)
      (hphase : call.phase = .racing body)
      (hafter : after.outlines[n]? = some (call.withPhase .abandoned))
      (hreports : after.reports n = w.reports n)

section CallChange

variable {w after : World}

theorem Hushed.callChange
    (h : Hushed w after)
    (n : Nat) :
    CallChange n w after :=
  .unchanged (by rw [h.outlines]) (h.reports n)

theorem Opens.callChange
    {id : Nat}
    {strand : Strand}
    {call : Call}
    (h : Opens id call w after)
    (hstrand : w.strands[id]? = some strand)
    (heq : after = w.advance id)
    (hbegins : Begins w strand.list call after)
    (hstart : call.startedAt = w.clock)
    (n : Nat) :
    CallChange n w after := by
  have hlength := outlines_length w
  by_cases hn : n = w.calls.length
  · refine .made hn hstrand heq ?_ hbegins hstart ?_
    · rw [h.outlines, hn, ← hlength]
      exact List.getElem?_concat_length
    · rw [h.reports]
      simp only [hn, true_and]
  · refine .unchanged ?_ ?_
    · rw [h.outlines, List.getElem?_append]
      split
      · rfl
      · next hge =>
          rw [List.getElem?_eq_none (by simp; omega), List.getElem?_eq_none (by omega)]
    · rw [h.reports]
      simp only [hn, false_and, if_false]

/-- The call that a strand races is being raced, when races are owned. -/
theorem RacesOwned.racing
    (hw : RacesOwned w)
    {id number : Nat}
    {strand : Strand}
    (hstrand : w.strands[id]? = some strand)
    (hracing : strand.status = .racing number) :
    ∃ call body, w.outlines[number]? = some call ∧ call.phase = .racing body := by
  obtain ⟨call, body, hcall, hphase, -⟩ := hw id number (race?_of_racing hstrand hracing)
  exact ⟨call, body, hcall, hphase⟩

theorem getElem?_outlines
    {n : Nat}
    {call : Call}
    (h : w.calls[n]? = some call) :
    w.outlines[n]? = some call.outline := by
  simp [outlines, h]

theorem callChange_of_turn
    (hw : RacesOwned w)
    {id : Nat}
    (h : Turn w id after)
    (n : Nat) :
    CallChange n w after := by
  cases h with
  | quiet h _ =>
      exact h.toHushed.callChange n
  | @drainsOn strand batch recorded _ _ =>
      exact (quiet_drain id w strand.list batch recorded).toHushed.callChange n
  | opens hstrand hready hrest =>
      obtain ⟨phase, hbegins, h⟩ := opens_step id w _ _ _ _ _ _ _ _
      exact h.callChange hstrand (w.advance_of_opening id hstrand hready hrest).symm hbegins rfl n
  | @drains strand recorded rest _ _ _ =>
      exact ((quiet_pass id w rest).toHushed.trans (hushed_startDrain id _ recorded)).callChange n
  | @concludes strand number call s hstrand hracing hcall hsettled =>
      have h := concludes_conclude id w strand.list number call s
      have heq := w.advance_of_decided id hstrand hracing hcall hsettled
      by_cases hn : n = number
      · subst hn
        refine .settled hstrand hracing hcall hsettled heq.symm ?_ ?_
        · rw [h.outlines]
          simp [getElem?_outlines hcall]
        · rw [h.reports]
          simp only [true_and]
      · have hne : ¬ number = n := fun h' => hn h'.symm
        refine .unchanged ?_ ?_
        · rw [h.outlines]
          simp [hne]
        · rw [h.reports]
          simp only [hn, false_and, if_false]
  | @abandons strand number call hstrand hracing _ _ _ =>
      have h := leaves_abandon id w number strand.list
      obtain ⟨seen, body, hseen, hphase⟩ := hw.racing hstrand hracing
      by_cases hn : n = number
      · subst hn
        refine .dropped hseen hphase ?_ (h.reports n)
        rw [h.outlines]
        simp [hseen]
      · have hne : ¬ number = n := fun h' => hn h'.symm
        refine .unchanged ?_ (h.reports n)
        rw [h.outlines]
        simp [hne]

theorem callChange_of_change
    (hw : RacesOwned w)
    (h : Change w after)
    (n : Nat) :
    CallChange n w after := by
  cases h with
  | turn h =>
      exact callChange_of_turn hw h n
  | background h =>
      exact h.hushed.callChange n
  | abortion task =>
      have h := aborts_abort w task
      have houtline := h.outlines n
      by_cases hn : n ∈ w.racesOf task
      · obtain ⟨id, hrace, -⟩ := w.mem_racesOf task hn
        obtain ⟨call, body, hcall, hphase, -⟩ := hw id n hrace
        refine .dropped hcall hphase ?_ (h.reports n)
        rw [houtline, if_pos hn, hcall]
        rfl
      · rw [if_neg hn] at houtline
        exact .unchanged houtline (h.reports n)
  | script s hover =>
      exact (quiet_beginScript w s).toHushed.callChange n

/-- A call that is over stays as it is, and reports nothing more. -/
theorem CallChange.of_isOver
    {n : Nat}
    {call : Call}
    (h : CallChange n w after)
    (hcall : w.outlines[n]? = some call)
    (hover : call.phase.isOver = true) :
    after.outlines[n]? = some call ∧ after.reports n = w.reports n := by
  cases h with
  | unchanged houtline hreports =>
      exact ⟨houtline.trans hcall, hreports⟩
  | made hnew _ _ _ _ _ _ =>
      rw [List.getElem?_eq_none (by rw [outlines_length]; omega)] at hcall
      cases hcall
  | settled _ _ hcall' hsettled _ _ _ =>
      obtain ⟨body, hphase⟩ := racing_of_settlement? hsettled
      rw [getElem?_outlines hcall'] at hcall
      cases hcall
      simp [Call.outline, hphase, CallPhase.isOver] at hover
  | dropped houtline hphase _ _ =>
      rw [hcall] at houtline
      cases houtline
      simp [hphase, CallPhase.isOver] at hover

/-- So it is with everything the world may become. -/
theorem Evolves.of_isOver
    {v : World}
    (h : Evolves w v)
    (hw : RacesOwned w)
    {n : Nat}
    {call : Call}
    (hcall : w.outlines[n]? = some call)
    (hover : call.phase.isOver = true) :
    v.outlines[n]? = some call ∧ v.reports n = w.reports n := by
  have hkept := h.induct
    (P := fun v => RacesOwned v ∧ v.outlines[n]? = some call ∧ v.reports n = w.reports n)
    ⟨hw, hcall, rfl⟩ fun u after _ _ hu hchange => by
      obtain ⟨howned, hsame, hreports⟩ := hu
      obtain ⟨hsame', hreports'⟩ :=
        (callChange_of_change howned hchange n).of_isOver hsame hover
      exact ⟨howned.change hchange, hsame', hreports'.trans hreports⟩
  exact hkept.2

/-- What is seen of a call without its listener and its contributions can be seen of its outline. -/
theorem map_calls
    {α : Type}
    (w : World)
    (view : Call → α)
    (hview : ∀ c, view c.outline = view c)
    (n : Nat) :
    (w.calls[n]?).map view = (w.outlines[n]?).map view := by
  rw [outlines, List.getElem?_map]
  cases w.calls[n]? with
  | none =>
      rfl
  | some c =>
      exact congrArg some (hview c).symm

/-- What a call has been made with does not change. -/
theorem made_of_change
    (hw : RacesOwned w)
    (h : Change w after)
    {n : Nat}
    {α : Type}
    {view : Call → α}
    {x : α}
    (houtline : ∀ c, view c.outline = view c)
    (hphase : ∀ c phase, view (Call.withPhase phase c) = view c)
    (hcall : (w.calls[n]?).map view = some x) :
    (after.calls[n]?).map view = some x := by
  rw [w.map_calls view houtline] at hcall
  obtain ⟨call, hold, hx⟩ := Option.map_eq_some_iff.mp hcall
  rw [after.map_calls view houtline]
  cases callChange_of_change hw h n with
  | unchanged houtline _ =>
      rw [houtline, hold, Option.map_some, hx]
  | made hnew _ _ _ _ _ _ =>
      rw [List.getElem?_eq_none (by rw [outlines_length]; omega)] at hold
      cases hold
  | settled _ _ hcall' _ _ hafter _ =>
      rw [getElem?_outlines hcall'] at hold
      cases hold
      rw [hafter, Option.map_some, hphase, hx]
  | dropped houtline _ hafter _ =>
      rw [hold] at houtline
      cases houtline
      rw [hafter, Option.map_some, hphase, hx]

theorem owner_of_evolves
    (hw : RacesOwned w)
    (h : Evolves w after)
    {id n : Nat}
    (hcall : (w.calls[n]?).map Call.owner = some id) :
    (after.calls[n]?).map Call.owner = some id := by
  have hkept := h.induct (P := fun u => RacesOwned u ∧ (u.calls[n]?).map Call.owner = some id)
    ⟨hw, hcall⟩ fun u v _ _ hu hchange =>
      ⟨hu.1.change hchange, made_of_change hu.1 hchange (fun _ => rfl) (fun _ _ => rfl) hu.2⟩
  exact hkept.2

/-- A call that is there either was there before, or a change has made it what it is. -/
theorem Evolves.origin
    {v : World}
    (h : Evolves w v)
    (hw : RacesOwned w)
    {n : Nat}
    {call : Call}
    (hcall : v.outlines[n]? = some call) :
    w.outlines[n]? = some call ∨
      ∃ u after, Evolves w u ∧ CallChange n u after ∧ u.outlines[n]? ≠ some call ∧
        after.outlines[n]? = some call ∧ Evolves after v := by
  have htraced := h.induct
    (P := fun v => RacesOwned v ∧ (v.outlines[n]? = some call →
      w.outlines[n]? = some call ∨
        ∃ u after, Evolves w u ∧ CallChange n u after ∧ u.outlines[n]? ≠ some call ∧
          after.outlines[n]? = some call ∧ Evolves after v))
    ⟨hw, Or.inl⟩ fun u after hpast hstep hu hchange => by
      obtain ⟨howned, htraced⟩ := hu
      refine ⟨howned.change hchange, fun hafter => ?_⟩
      -- The change to be found is the last one that has made a difference to the call.
      by_cases hsame : u.outlines[n]? = some call
      · rcases htraced hsame with hold | ⟨u', after', hpast', hcause, hnew, hbrought, hlater⟩
        · exact Or.inl hold
        · exact Or.inr ⟨u', after', hpast', hcause, hnew, hbrought, hlater.trans hstep⟩
      · have hcause := callChange_of_change howned hchange n
        exact Or.inr ⟨u, after, hpast, hcause, hsame, hafter, .refl⟩
  exact htraced.2 hcall

/-- A call whose race has been decided was decided in a turn of the strand that raced it. -/
theorem Evolves.origin_settled
    {v : World}
    (h : Evolves w v)
    (hw : RacesOwned w)
    {n : Nat}
    {call : Call}
    {s : Settlement}
    (hcall : v.outlines[n]? = some call)
    (hphase : call.phase = .settled s) :
    w.outlines[n]? = some call ∨
      ∃ u id strand before, Evolves w u ∧ u.strands[id]? = some strand ∧
        strand.status = .racing n ∧ u.calls[n]? = some before ∧
        u.settlement? before = some s ∧ (u.advance id).outlines[n]? = some call ∧
        Evolves (u.advance id) v := by
  rcases h.origin hw hcall with hold | ⟨u, after, hpast, hcause, hnew, hbrought, hlater⟩
  · exact Or.inl hold
  · right
    cases hcause with
    | unchanged houtline _ =>
        exact (hnew (houtline.symm.trans hbrought)).elim
    | made _ _ _ hafter hbegins _ _ =>
        rw [hbrought] at hafter
        cases hafter
        rcases hbegins with ⟨body, hracing⟩ | ⟨p, hcollapsed, -⟩
        · simp [hracing] at hphase
        · simp [hcollapsed] at hphase
    | @settled id strand before s' hstrand hracing hbefore hsettled heq hafter _ =>
        subst heq
        rw [hbrought] at hafter
        cases hafter
        cases hphase
        exact ⟨u, id, strand, before, hpast, hstrand, hracing, hbefore, hsettled, hbrought,
          hlater⟩
    | dropped _ _ hafter _ =>
        rw [hbrought] at hafter
        cases hafter
        cases hphase

/-- A call whose operation could not be built was made in a turn of a strand that was handed the
panic in the same turn. -/
theorem Evolves.origin_collapsed
    {v : World}
    (h : Evolves w v)
    (hw : RacesOwned w)
    {n : Nat}
    {call : Call}
    {p : PanicPayload}
    (hcall : v.outlines[n]? = some call)
    (hphase : call.phase = .collapsed p) :
    w.outlines[n]? = some call ∨
      ∃ u id strand, Evolves w u ∧ u.strands[id]? = some strand ∧
        (u.advance id).outlines[n]? = some call ∧
        (u.advance id).history.head? =
          some ⟨u.clock, .recorded strand.list .instrument (.outcome (.panic p))⟩ ∧
        Evolves (u.advance id) v := by
  rcases h.origin hw hcall with hold | ⟨u, after, hpast, hcause, hnew, hbrought, hlater⟩
  · exact Or.inl hold
  · right
    cases hcause with
    | unchanged houtline _ =>
        exact (hnew (houtline.symm.trans hbrought)).elim
    | @made id strand made _ hstrand heq hafter hbegins _ _ =>
        subst heq
        rw [hbrought] at hafter
        cases hafter
        rcases hbegins with ⟨body, hracing⟩ | ⟨p', hcollapsed, hhead⟩
        · simp [hracing] at hphase
        · rw [hphase] at hcollapsed
          cases hcollapsed
          exact ⟨u, id, strand, hpast, hstrand, hbrought, hhead, hlater⟩
    | settled _ _ _ _ _ hafter _ =>
        rw [hbrought] at hafter
        cases hafter
        cases hphase
    | dropped _ _ hafter _ =>
        rw [hbrought] at hafter
        cases hafter
        cases hphase

end CallChange
end World
end LifecycleTelemetry
