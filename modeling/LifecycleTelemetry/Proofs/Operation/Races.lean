import LifecycleTelemetry.Proofs.Operation.Evolution

/-!
# Strands and their races

A race belongs to a single strand, the owner of its call. A strand races only calls of its own,
and the latest of them; and a call that is being raced is waited for by its owner: the call has not
come back. All this holds in every world that a program may come to.
-/

namespace LifecycleTelemetry
namespace World

/-! ## Who owns a race -/

/-- A strand races only calls that it has made itself, and that are being raced. -/
def RacesOwned (w : World) : Prop :=
  ∀ id n, w.race? id = some n → ∃ call body,
    w.outlines[n]? = some call ∧ call.phase = .racing body ∧ call.owner = id

section RacesOwned

variable {w after : World}

theorem RacesOwned.hushed
    (hw : RacesOwned w)
    (h : Hushed w after) :
    RacesOwned after := by
  intro id n hrace
  rw [h.outlines]
  exact hw id n (h.races id n hrace)

/-- A call that takes a new phase was owned by its strand, and that strand has left it. -/
theorem RacesOwned.modify
    (hw : RacesOwned w)
    {id number : Nat}
    {change : Call → Call}
    (hown : w.race? id = some number)
    (houtlines : after.outlines = w.outlines.modify number change)
    (hraces : ∀ other n, after.race? other = some n → other ≠ id ∧ w.race? other = some n) :
    RacesOwned after := by
  intro other n hrace
  obtain ⟨hne, hold⟩ := hraces other n hrace
  obtain ⟨call, body, hcall, hphase, howner⟩ := hw other n hold
  have hother : ¬ number = n := by
    rintro rfl
    obtain ⟨call', _, hcall', _, howner'⟩ := hw id number hown
    rw [hcall] at hcall'
    cases hcall'
    exact hne (howner.symm.trans howner')
  exact ⟨call, body, by simp [houtlines, hother, hcall], hphase, howner⟩

/-- A new call may be raced by the strand that has made it. -/
theorem RacesOwned.joins
    (hw : RacesOwned w)
    {id : Nat}
    {call : Call}
    (houtlines : after.outlines = w.outlines ++ [call])
    (hraces : ∀ other n, after.race? other = some n →
      other = id ∧ n = w.calls.length ∧ (∃ body, call.phase = .racing body) ∨
        other ≠ id ∧ w.race? other = some n)
    (hcall : call.owner = id) :
    RacesOwned after := by
  intro other n hrace
  rcases hraces other n hrace with ⟨rfl, rfl, body, hphase⟩ | ⟨-, hold⟩
  · refine ⟨call, body, ?_, hphase, hcall⟩
    rw [houtlines, ← outlines_length]
    exact List.getElem?_concat_length
  · obtain ⟨old, body, hold, hphase, howner⟩ := hw other n hold
    refine ⟨old, body, ?_, hphase, howner⟩
    rw [houtlines]
    exact List.getElem?_append_left (List.getElem?_eq_some_iff.mp hold).1 ▸ hold

theorem RacesOwned.aborts
    (hw : RacesOwned w)
    {task : Nat}
    (h : Aborts task w after) :
    RacesOwned after := by
  intro id n hrace
  obtain ⟨hold, htask⟩ := h.races hrace
  obtain ⟨call, body, hcall, hphase, howner⟩ := hw id n hold
  have hkept : n ∉ w.racesOf task := by
    intro hmem
    obtain ⟨place, hplace, hstrands⟩ := w.mem_racesOf task hmem
    obtain ⟨call', _, hcall', _, howner'⟩ := hw place n hplace
    rw [hcall] at hcall'
    cases hcall'
    rw [← howner', howner] at hstrands
    obtain ⟨strand, hstrand, hin⟩ := hstrands
    exact htask strand hstrand hin
  exact ⟨call, body, by rw [h.outlines, if_neg hkept, hcall], hphase, howner⟩

theorem race?_of_racing
    {id number : Nat}
    {strand : Strand}
    (hstrand : w.strands[id]? = some strand)
    (hracing : strand.status = .racing number) :
    w.race? id = some number := by
  simp [race?, hstrand, hracing, StrandStatus.race?]

theorem RacesOwned.turn
    (hw : RacesOwned w)
    {id : Nat}
    (h : Turn w id after) :
    RacesOwned after := by
  cases h with
  | quiet h _ =>
      exact hw.hushed h.toHushed
  | @drainsOn strand batch recorded _ _ =>
      exact hw.hushed (quiet_drain id w strand.list batch recorded).toHushed
  | opens _ _ _ =>
      obtain ⟨_, -, h⟩ := opens_step id w _ _ _ _ _ _ _ _
      exact hw.joins h.outlines h.races rfl
  | drains _ _ _ =>
      exact (hw.hushed (quiet_pass id w _).toHushed).hushed (hushed_startDrain id _ _)
  | @concludes strand number call s hstrand hracing _ _ =>
      have h := concludes_conclude id w strand.list number call s
      exact hw.modify (race?_of_racing hstrand hracing) h.outlines h.races
  | @abandons strand number _ hstrand hracing _ _ _ =>
      have h := leaves_abandon id w number strand.list
      exact hw.modify (race?_of_racing hstrand hracing) h.outlines h.races

theorem RacesOwned.change
    (hw : RacesOwned w)
    (h : Change w after) :
    RacesOwned after := by
  cases h with
  | turn h =>
      exact hw.turn h
  | background h =>
      exact hw.hushed h.hushed
  | abortion task =>
      exact hw.aborts (aborts_abort w task)
  | script s hover =>
      exact hw.hushed (quiet_beginScript w s).toHushed

theorem RacesOwned.evolves
    (hw : RacesOwned w)
    (h : Evolves w after) :
    RacesOwned after :=
  h.induct hw fun _ _ _ _ hu hchange => hu.change hchange

/-- No two strands wait for the same call. -/
theorem RacesOwned.unique
    (hw : RacesOwned w)
    {id other n : Nat}
    (h₁ : w.race? id = some n)
    (h₂ : w.race? other = some n) :
    id = other := by
  obtain ⟨call, -, hcall, -, rfl⟩ := hw id n h₁
  obtain ⟨call', -, hcall', -, rfl⟩ := hw other n h₂
  rw [hcall] at hcall'
  cases hcall'
  rfl

end RacesOwned

/-! ## Who waits for a race -/

/-- A call that is being raced has not come back: its strand waits for it. -/
def CallsAwaited (w : World) : Prop :=
  ∀ n call body, w.outlines[n]? = some call → call.phase = .racing body →
    w.race? call.owner = some n

section CallsAwaited

variable {w after : World}

/-- The race of another strand does not end in the turn of a strand. -/
theorem Spares.race?_of_ne
    {id other n : Nat}
    (h : Spares id w after)
    (hne : other ≠ id)
    (hrace : w.race? other = some n) :
    after.race? other = some n := by
  obtain ⟨strand, hstrand, hn⟩ := Option.bind_eq_some_iff.mp hrace
  exact Option.bind_eq_some_iff.mpr ⟨strand, h.strands other hne strand hstrand, hn⟩

theorem isHeld_of_race?
    {status : StrandStatus}
    {n : Nat}
    (h : status.race? = some n) :
    status.isHeld = true := by
  cases status with
  | racing call =>
      rfl
  | _ =>
      cases h

/-- When a call takes a new phase, the others go on being waited for. -/
theorem CallsAwaited.modify
    (hw : CallsAwaited w)
    {id number : Nat}
    {phase : CallPhase}
    (h : Spares id w after)
    (hown : w.race? id = some number)
    (houtlines : after.outlines = w.outlines.modify number (Call.withPhase phase))
    (hphase : ∀ body, phase ≠ .racing body) :
    CallsAwaited after := by
  intro n call body hcall hracing
  rw [houtlines, List.getElem?_modify] at hcall
  by_cases hn : number = n
  · simp only [hn, if_true] at hcall
    obtain ⟨old, -, rfl⟩ := Option.map_eq_some_iff.mp hcall
    exact (hphase body hracing).elim
  · simp only [hn, if_false, Option.map_eq_map, Option.map_id_fun'] at hcall
    have hrace := hw n call body hcall hracing
    refine h.race?_of_ne ?_ hrace
    rintro rfl
    rw [hown] at hrace
    exact hn (Option.some.inj hrace)

theorem CallsAwaited.opens
    (hw : CallsAwaited w)
    {id : Nat}
    {call : Call}
    (h : Opens id call w after)
    (howner : call.owner = id)
    (hid : id < w.strands.length)
    (hfree : w.race? id = none) :
    CallsAwaited after := by
  intro n seen body hseen hracing
  rw [h.outlines, List.getElem?_append] at hseen
  -- Either the call was there before, or it is the new one.
  split at hseen
  · have hrace := hw n seen body hseen hracing
    refine h.race?_of_ne ?_ hrace
    rintro rfl
    simp [hfree] at hrace
  · next hge =>
      have hn : n = w.calls.length := by
        have hlt := (List.getElem?_eq_some_iff.mp hseen).1
        have hlength := outlines_length w
        simp only [List.length_singleton] at hlt
        omega
      have hnew : seen = call := by
        simpa [hn, outlines_length] using hseen.symm
      subst hnew
      rw [howner, hn]
      exact h.entered hid body hracing

theorem CallsAwaited.quiet
    (hw : CallsAwaited w)
    {id : Nat}
    (h : Quiet id w after)
    (hkept : ∀ n, w.race? id = some n → after.race? id = some n) :
    CallsAwaited after := by
  intro n call body hcall hracing
  rw [h.outlines] at hcall
  have hrace := hw n call body hcall hracing
  by_cases howner : call.owner = id
  · rw [howner] at hrace ⊢
    exact hkept n hrace
  · exact h.race?_of_ne howner hrace

theorem race?_eq_none
    {id : Nat}
    {strand : Strand}
    (hstrand : w.strands[id]? = some strand)
    (hcalm : strand.status.race? = none) :
    w.race? id = none := by
  simp [race?, hstrand, hcalm]

theorem CallsAwaited.turn
    (hw : CallsAwaited w)
    {id : Nat}
    (h : Turn w id after) :
    CallsAwaited after := by
  cases h with
  | quiet h hheld =>
      refine hw.quiet h fun n hrace => ?_
      obtain ⟨strand, hstrand, hn⟩ := Option.bind_eq_some_iff.mp hrace
      rw [hheld strand hstrand (isHeld_of_race? hn)]
      exact hrace
  | opens hstrand hready _ =>
      obtain ⟨_, -, h⟩ := opens_step id w _ _ _ _ _ _ _ _
      refine hw.opens h rfl (List.getElem?_eq_some_iff.mp hstrand).1 ?_
      exact race?_eq_none hstrand (by rw [hready]; rfl)
  | @drains strand recorded rest hstrand hready _ =>
      have hfree := race?_eq_none hstrand (by rw [hready]; rfl)
      intro n call body hcall hracing
      have hpass := quiet_pass id w rest
      have hhushed := hpass.toHushed.trans (hushed_startDrain id _ recorded)
      rw [hhushed.outlines] at hcall
      have hrace := hw n call body hcall hracing
      refine (hpass.toSpares.trans (spares_startDrain id _ recorded)).race?_of_ne ?_ hrace
      rintro rfl
      simp [hfree] at hrace
  | @drainsOn strand batch recorded hstrand hdraining =>
      have hfree := race?_eq_none hstrand (by rw [hdraining]; rfl)
      refine hw.quiet (quiet_drain id w strand.list batch recorded) fun n hrace => ?_
      simp [hfree] at hrace
  | @concludes strand number call s hstrand hracing _ _ =>
      have h := concludes_conclude id w strand.list number call s
      exact hw.modify h.toSpares (race?_of_racing hstrand hracing) h.outlines nofun
  | @abandons strand number _ hstrand hracing _ _ _ =>
      have h := leaves_abandon id w number strand.list
      exact hw.modify h.toSpares (race?_of_racing hstrand hracing) h.outlines nofun

theorem CallsAwaited.aborts
    (hw : CallsAwaited w)
    {task : Nat}
    (h : Aborts task w after) :
    CallsAwaited after := by
  intro n call body hcall hracing
  rw [h.outlines] at hcall
  split at hcall
  · obtain ⟨old, -, rfl⟩ := Option.map_eq_some_iff.mp hcall
    cases hracing
  · next hkept =>
      have hrace := hw n call body hcall hracing
      obtain ⟨strand, hstrand, hn⟩ := Option.bind_eq_some_iff.mp hrace
      cases hstatus : strand.status with
      | racing number =>
          rw [hstatus] at hn
          cases hn
          have htask : strand.task ≠ task := by
            intro htask
            refine hkept (List.mem_filterMap.mpr ⟨strand, List.mem_of_getElem? hstrand, ?_⟩)
            simp [hstatus, htask]
          have hsame : Strand.abortedIn task strand = strand := by
            simp [Strand.abortedIn, hstatus, htask]
          rw [race?, h.strands, List.getElem?_map, hstrand]
          simp [hsame, hstatus, StrandStatus.race?]
      | _ =>
          rw [hstatus] at hn
          cases hn

theorem CallsAwaited.change
    (hw : CallsAwaited w)
    (h : Change w after) :
    CallsAwaited after := by
  cases h with
  | turn h =>
      exact hw.turn h
  | background h =>
      intro n call body hcall hracing
      rw [h.hushed.outlines] at hcall
      rw [race?, h.strands]
      exact hw n call body hcall hracing
  | abortion task =>
      exact hw.aborts (aborts_abort w task)
  | script s hover =>
      refine hw.quiet (quiet_beginScript w s) fun n hrace => ?_
      obtain ⟨strand, hstrand, hn⟩ := Option.bind_eq_some_iff.mp hrace
      simp only [outcome?, hstrand] at hover
      cases hstatus : strand.status with
      | racing number =>
          simp [hstatus] at hover
      | _ =>
          rw [hstatus] at hn
          cases hn

end CallsAwaited

/-! ## Which call is raced -/

/-- A strand races the call that it has made last. -/
def RacesLatest (w : World) : Prop :=
  ∀ id n, w.race? id = some n →
    ∀ (m : Nat) (call : Call), w.outlines[m]? = some call → call.owner = id → m ≤ n

section RacesLatest

variable {w after : World}

/-- Calls that take a new phase stay with their owners. -/
theorem owner_of_modify
    {number m : Nat}
    {phase : CallPhase}
    {call : Call}
    (houtlines : after.outlines = w.outlines.modify number (Call.withPhase phase))
    (hcall : after.outlines[m]? = some call) :
    ∃ old, w.outlines[m]? = some old ∧ old.owner = call.owner := by
  rw [houtlines, List.getElem?_modify] at hcall
  obtain ⟨old, hold, rfl⟩ := Option.map_eq_some_iff.mp hcall
  refine ⟨old, hold, ?_⟩
  by_cases hm : number = m
  · simp [hm, Call.withPhase]
  · simp [hm]

/-- A call that there is after the turn of a strand was there before, or the strand has made it. -/
theorem owner_of_turn
    {id m : Nat}
    {call : Call}
    (h : Turn w id after)
    (hcall : after.outlines[m]? = some call) :
    call.owner = id ∨ ∃ old, w.outlines[m]? = some old ∧ old.owner = call.owner := by
  cases h with
  | quiet h _ =>
      exact Or.inr ⟨call, h.outlines ▸ hcall, rfl⟩
  | @drainsOn strand batch recorded _ _ =>
      exact Or.inr ⟨call, (quiet_drain id w strand.list batch recorded).outlines ▸ hcall, rfl⟩
  | opens _ _ _ =>
      obtain ⟨_, -, h⟩ := opens_step id w _ _ _ _ _ _ _ _
      rw [h.outlines, List.getElem?_append] at hcall
      split at hcall
      · exact Or.inr ⟨call, hcall, rfl⟩
      · obtain ⟨-, rfl⟩ := List.getElem?_eq_some_iff.mp hcall
        exact Or.inl (by simp [Call.withPhase, newCall])
  | @drains strand recorded rest _ _ _ =>
      have h := (quiet_pass id w rest).toHushed.trans (hushed_startDrain id _ recorded)
      exact Or.inr ⟨call, h.outlines ▸ hcall, rfl⟩
  | @concludes strand number call s _ _ _ _ =>
      exact Or.inr (owner_of_modify (concludes_conclude id w strand.list number call s).outlines hcall)
  | @abandons strand number _ _ _ _ _ _ =>
      exact Or.inr (owner_of_modify (leaves_abandon id w number strand.list).outlines hcall)

/-- A strand goes on racing the latest of its calls as long as no call is made. -/
theorem RacesLatest.keep
    (hw : RacesLatest w)
    (hcalls : ∀ (m : Nat) (call : Call), after.outlines[m]? = some call →
      ∃ old, w.outlines[m]? = some old ∧ old.owner = call.owner)
    (hraces : ∀ id n, after.race? id = some n → w.race? id = some n) :
    RacesLatest after := by
  intro id n hrace m call hcall howner
  obtain ⟨old, hold, hsame⟩ := hcalls m call hcall
  exact hw id n (hraces id n hrace) m old hold (hsame.trans howner)

theorem RacesLatest.hushed
    (hw : RacesLatest w)
    (h : Hushed w after) :
    RacesLatest after :=
  hw.keep (fun _ call hcall => ⟨call, h.outlines ▸ hcall, rfl⟩) h.races

theorem RacesLatest.modify
    (hw : RacesLatest w)
    {number : Nat}
    {phase : CallPhase}
    (houtlines : after.outlines = w.outlines.modify number (Call.withPhase phase))
    (hraces : ∀ id n, after.race? id = some n → w.race? id = some n) :
    RacesLatest after :=
  hw.keep (fun _ _ => owner_of_modify houtlines) hraces

/-- The call that a strand makes is the latest of all. -/
theorem RacesLatest.opens
    (hw : RacesLatest w)
    {id : Nat}
    {call : Call}
    (h : Opens id call w after)
    (howner : call.owner = id) :
    RacesLatest after := by
  intro other n hrace m seen hseen hother
  have hlength := outlines_length w
  have hlt := (List.getElem?_eq_some_iff.mp hseen).1
  rw [h.outlines, List.length_append, List.length_singleton] at hlt
  rcases h.races other n hrace with ⟨-, rfl, -⟩ | ⟨hne, hold⟩
  · omega
  · rw [h.outlines, List.getElem?_append] at hseen
    split at hseen
    · exact hw other n hold m seen hseen hother
    · have hnew : seen = call := by
        have hm : m - w.outlines.length = 0 := by omega
        simpa [hm] using hseen.symm
      exact (hne (by rw [← hother, hnew, howner])).elim

theorem RacesLatest.turn
    (hw : RacesLatest w)
    {id : Nat}
    (h : Turn w id after) :
    RacesLatest after := by
  cases h with
  | quiet h _ =>
      exact hw.hushed h.toHushed
  | @drainsOn strand batch recorded _ _ =>
      exact hw.hushed (quiet_drain id w strand.list batch recorded).toHushed
  | opens _ _ _ =>
      obtain ⟨_, -, h⟩ := opens_step id w _ _ _ _ _ _ _ _
      exact hw.opens h rfl
  | drains _ _ _ =>
      exact (hw.hushed (quiet_pass id w _).toHushed).hushed (hushed_startDrain id _ _)
  | @concludes strand number call s _ _ _ _ =>
      have h := concludes_conclude id w strand.list number call s
      exact hw.modify h.outlines fun other n hrace => (h.races other n hrace).2
  | @abandons strand number _ _ _ _ _ _ =>
      have h := leaves_abandon id w number strand.list
      exact hw.modify h.outlines fun other n hrace => (h.races other n hrace).2

theorem RacesLatest.aborts
    (hw : RacesLatest w)
    {task : Nat}
    (h : Aborts task w after) :
    RacesLatest after := by
  refine hw.keep (fun m call hcall => ?_) fun id n hrace => (h.races hrace).1
  rw [h.outlines] at hcall
  split at hcall
  · obtain ⟨old, hold, rfl⟩ := Option.map_eq_some_iff.mp hcall
    exact ⟨old, hold, rfl⟩
  · exact ⟨call, hcall, rfl⟩

theorem RacesLatest.change
    (hw : RacesLatest w)
    (h : Change w after) :
    RacesLatest after := by
  cases h with
  | turn h =>
      exact hw.turn h
  | background h =>
      exact hw.hushed h.hushed
  | abortion task =>
      exact hw.aborts (aborts_abort w task)
  | script s hover =>
      exact hw.hushed (quiet_beginScript w s).toHushed

end RacesLatest

/-! ## From the start -/

section Start

variable {reporter : Reporter}
variable {hasRuntime : Bool}
variable {stamps : Nat → Int}
variable {source : InterruptSource}
variable {plans : List DeliveryPlan}
variable {w : World}

/-- In every world that a program may come to, a strand races only calls of its own. -/
theorem racesOwned_of_evolves
    (h : Evolves (World.start reporter hasRuntime stamps source plans) w) :
    RacesOwned w := by
  refine RacesOwned.evolves ?_ h
  intro id n hrace
  cases id with
  | zero =>
      cases hrace
  | succ other =>
      cases hrace

/-- That call is the last one it has made. -/
theorem racesLatest_of_evolves
    (h : Evolves (World.start reporter hasRuntime stamps source plans) w) :
    RacesLatest w := by
  refine h.induct ?_ fun _ _ _ _ hu hchange => hu.change hchange
  intro _ _ _ _ _ hcall
  cases hcall

/-- And every call that is being raced is waited for. -/
theorem callsAwaited_of_evolves
    (h : Evolves (World.start reporter hasRuntime stamps source plans) w) :
    CallsAwaited w := by
  refine h.induct ?_ fun _ _ _ _ hu hchange => hu.change hchange
  intro n call body hcall
  cases hcall

end Start
end World
end LifecycleTelemetry
