import LifecycleTelemetry.Proofs.Event.Composition
import LifecycleTelemetry.Proofs.Operation.CallStep
import LifecycleTelemetry.Proofs.Operation.Readings
import LifecycleTelemetry.Proofs.Operation.Undelayed

/-!
# Durations

The ending of a call reports how long the call has taken. The clock is read for it when the call begins and
once more right after its race has been decided, and at no other time; `Kept` says of every call what has been
read for it by now, and what it has reported. Under a clock that never goes back the readings are in order,
and the calls are numbered in the order in which they have begun.

The main result is `ownTime_of_timed`. It holds under any clock: one that goes on in the middle of a turn,
one that is set back, and one that only moves when nothing can run.
-/

namespace LifecycleTelemetry

open Json (Fields)

/-! ## What is reported -/

/-- The duration that a message reports, in milliseconds, if it reports one. -/
def Message.duration? (message : Message) : Option Int :=
  match Fields.get? "durationMs" message.properties with
  | some (.number (.integer d)) => some d.value
  | _ => none

/-- What has been read for a call. -/
def about (n : Nat) (told : List ClockReading) : List ClockReading :=
  told.filter fun r => r.call == n

/-- The duration that follows from what has been read for a call, once its race has been decided. -/
def spans : List ClockReading → List Int
  | [.began _ _ start, .decided _ stop] => [(World.elapsed start stop : Int)]
  | _ => []

/-- The call that begins with a reading, if one does. -/
def ClockReading.begun? : ClockReading → Option Nat
  | .began n _ _ => some n
  | .decided _ _ => none

namespace World

/-- The durations that a call has reported. -/
def durations (w : World) (n : Nat) : List Int :=
  (w.reports n).filterMap fun report => report.message.duration?

theorem duration?_started
    (w : World)
    (subject : Subject) :
    (w.messageOf ⟨subject, .started⟩).duration? = none := by
  have hnone := ((w.composed_messageOf ⟨subject, .started⟩).started rfl).2
  rw [Message.duration?, hnone]

/-- The largest number that can be reported is also the largest duration. -/
theorem duration?_ended
    (w : World)
    (subject : Subject)
    (ending : Ending)
    (contributed : Fields)
    (start stop : Nat) :
    (w.messageOf ⟨subject, .ended ending contributed (elapsed start stop)⟩).duration? =
      some (elapsed start stop : Int) := by
  have hvalue := (w.composed_messageOf
    ⟨subject, .ended ending contributed (elapsed start stop)⟩).value "durationMs"
  have hbound : elapsed start stop ≤ 18446744073709551615 := Nat.min_le_right _ _
  have hclamp := Json.Integer64.clamp_value (z := (elapsed start stop : Int)) (by omega) (by omega)
  rw [Message.duration?, hvalue]
  exact congrArg some hclamp

/-! ## What has been read and reported for a call -/

/-- What has been read and reported for a call by now: nothing for one that has not been made, a start, or a
start and an ending. An event is handed over at the time of its reading, or later in the same turn. -/
inductive Kept (law : ClockLaw) (w : World) (told : List ClockReading) (n : Nat) : Prop where
  | unmade
      (hcall : w.outlines[n]? = none)
      (htold : about n told = [])
      (hreports : w.reports n = [])
  | begun
      {call : Call}
      {inside : Option Nat}
      {handed : Nat}
      (hcall : w.outlines[n]? = some call)
      (hphase : ∀ s, call.phase ≠ .settled s)
      (hnear : law.Near call.startedAt handed)
      (htold : about n told = [.began n inside call.startedAt])
      (hreports : w.reports n =
        if w.isReporting then [w.reportAt handed ⟨call.subject, .started⟩] else [])
  | decided
      {call : Call}
      {s : Settlement}
      {inside : Option Nat}
      {handed stop handedEnd : Nat}
      {contributed : Fields}
      (hcall : w.outlines[n]? = some call)
      (hphase : call.phase = .settled s)
      (hnear : law.Near call.startedAt handed)
      (hnearEnd : law.Near stop handedEnd)
      (htold : about n told = [.began n inside call.startedAt, .decided n stop])
      (hreports : w.reports n =
        if w.isReporting then
          [w.reportAt handed ⟨call.subject, .started⟩,
            w.reportAt handedEnd
              ⟨call.subject, .ended s.ending contributed (elapsed call.startedAt stop)⟩]
        else [])

section Kept

variable {law : ClockLaw} {w after : World} {told new : List ClockReading} {n : Nat}

theorem Tells.sameSetting
    (h : Tells law w new after) :
    SameSetting w after := by
  cases h with
  | untold h =>
      exact h.toSameSetting
  | made _ _ _ _ h =>
      exact h.toSameSetting
  | decided _ _ _ h =>
      exact h.toSameSetting

theorem about_append
    (n : Nat)
    (told new : List ClockReading) :
    about n (told ++ new) = about n told ++ about n new :=
  List.filter_append _ _

/-- A step that is no matter of a call. -/
theorem Kept.unchanged
    (h : Kept law w told n)
    (hsetting : SameSetting w after)
    (hcall : after.outlines[n]? = w.outlines[n]?)
    (hnew : about n new = [])
    (hreports : after.reports n = w.reports n) :
    Kept law after (told ++ new) n := by
  have habout : about n (told ++ new) = about n told := by
    rw [about_append, hnew, List.append_nil]
  have hreporting := hsetting.isReporting
  cases h with
  | unmade hnone htold hnothing =>
      exact .unmade (hcall.trans hnone) (habout.trans htold) (hreports.trans hnothing)
  | begun hown hphase hnear htold hstarted =>
      refine .begun (hcall.trans hown) hphase hnear (habout.trans htold) ?_
      rw [hreports, hstarted, hreporting, hsetting.reportAt]
  | decided hown hphase hnear hnearEnd htold hended =>
      have hafter := hreports.trans hended
      rw [← hreporting, ← hsetting.reportAt, ← hsetting.reportAt] at hafter
      exact .decided (hcall.trans hown) hphase hnear hnearEnd (habout.trans htold) hafter

theorem Kept.of_none
    (h : Kept law w told n)
    (hnone : w.outlines[n]? = none) :
    about n told = [] ∧ w.reports n = [] := by
  cases h with
  | unmade _ htold hreports =>
      exact ⟨htold, hreports⟩
  | begun hcall _ _ _ _ =>
      rw [hnone] at hcall
      cases hcall
  | decided hcall _ _ _ _ _ =>
      rw [hnone] at hcall
      cases hcall

/-- A call that is being raced has begun, and no more. -/
theorem Kept.of_racing
    (h : Kept law w told n)
    {call : Call}
    {body : Nat}
    (hcall : w.outlines[n]? = some call)
    (hracing : call.phase = .racing body) :
    ∃ inside handed, law.Near call.startedAt handed ∧
      about n told = [.began n inside call.startedAt] ∧
        w.reports n =
          if w.isReporting then [w.reportAt handed ⟨call.subject, .started⟩] else [] := by
  cases h with
  | unmade hnone _ _ =>
      rw [hcall] at hnone
      cases hnone
  | begun hown _ hnear htold hreports =>
      obtain rfl := Option.some.inj (hcall.symm.trans hown)
      exact ⟨_, _, hnear, htold, hreports⟩
  | decided hown hphase _ _ _ _ =>
      obtain rfl := Option.some.inj (hcall.symm.trans hown)
      rw [hracing] at hphase
      cases hphase

theorem Kept.untold
    (h : Kept law w told n)
    (huntold : Untold w after) :
    Kept law after (told ++ []) n := by
  rcases huntold.outlines n with hsame | ⟨call, body, hcall, hracing, hafter⟩
  · exact h.unchanged huntold.toSameSetting hsame rfl (huntold.reports n)
  · obtain ⟨inside, handed, hnear, htold, hstarted⟩ := h.of_racing hcall hracing
    have hreports := (huntold.reports n).trans hstarted
    rw [← huntold.isReporting, ← huntold.reportAt] at hreports
    exact .begun hafter nofun hnear ((List.append_nil told).symm ▸ htold) hreports

theorem Kept.made
    (h : Kept law w told n)
    {id handed : Nat}
    {inside : Option Nat}
    {call : Call}
    (hstart : call.startedAt = w.clock)
    (hphase : ∀ s, call.phase ≠ .settled s)
    (hnear : law.Near w.clock handed)
    (hmade : Made id call handed w after) :
    Kept law after (told ++ [.began w.calls.length inside w.clock]) n := by
  have hlength := outlines_length w
  by_cases hn : n = w.calls.length
  · have hafter : after.outlines[n]? = some call := by
      rw [hmade.outlines, hn, ← hlength]
      exact List.getElem?_concat_length
    obtain ⟨htold, hnothing⟩ := h.of_none (List.getElem?_eq_none (by omega))
    have habout : about n (told ++ [.began w.calls.length inside w.clock]) =
        [.began n inside call.startedAt] := by
      rw [about_append, htold, hstart]
      simp [about, ClockReading.call, hn]
    refine .begun hafter hphase (hstart ▸ hnear) habout ?_
    rw [hmade.reports, hnothing, hmade.isReporting, hmade.reportAt]
    simp [hn]
  · refine h.unchanged hmade.toSameSetting ?_ ?_ ?_
    · rw [hmade.outlines, List.getElem?_append]
      split
      · rfl
      · rw [List.getElem?_eq_none (by simp; omega), List.getElem?_eq_none (by omega)]
    · have hne : ¬ w.calls.length = n := fun h => hn h.symm
      simp [about, ClockReading.call, hne]
    · rw [hmade.reports, if_neg fun h => hn h.1]

theorem Kept.decides
    (h : Kept law w told n)
    {id number body stop handed : Nat}
    {call : Call}
    {s : Settlement}
    (hcall : w.calls[number]? = some call)
    (hracing : call.phase = .racing body)
    (hnear : law.Near stop handed)
    (hdecided : Decided id number call s stop handed w after) :
    Kept law after (told ++ [.decided number stop]) n := by
  by_cases hn : number = n
  · subst hn
    -- A call is decided only while it is raced, so that it has begun and not yet ended.
    have hown := getElem?_outlines hcall
    have hafter : after.outlines[number]? = some (call.outline.withPhase (.settled s)) := by
      simp [hdecided.outlines, hown]
    obtain ⟨inside, start, hnearStart, htold, hstarted⟩ := h.of_racing hown hracing
    have habout : about number (told ++ [.decided number stop]) =
        [.began number inside call.startedAt, .decided number stop] := by
      rw [about_append, htold]
      simp [about, ClockReading.call]
      rfl
    have hreports : after.reports number =
        if after.isReporting then
          [after.reportAt start ⟨call.subject, .started⟩,
            after.reportAt handed (endingOf call s stop)]
        else [] := by
      rw [hdecided.reports, hstarted, hdecided.isReporting, hdecided.reportAt, hdecided.reportAt]
      by_cases hreporting : w.isReporting
      · simp [hreporting]
        rfl
      · simp [hreporting]
    exact .decided hafter rfl hnearStart hnear habout hreports
  · refine h.unchanged hdecided.toSameSetting ?_ ?_ ?_
    · simp [hdecided.outlines, hn]
    · simp [about, ClockReading.call, hn]
    · rw [hdecided.reports, if_neg fun h => hn h.1.symm]

theorem Kept.tells
    (h : Kept law w told n)
    (htells : Tells law w new after) :
    Kept law after (told ++ new) n := by
  cases htells with
  | untold huntold =>
      exact h.untold huntold
  | made _ hstart hphase hnear hmade =>
      exact h.made hstart hphase hnear hmade
  | decided hcall hracing hnear hdecided =>
      exact h.decides hcall hracing hnear hdecided

/-- The durations of a call are those that follow from what has been read for it. -/
theorem durations_of_kept
    (h : Kept law w told n) :
    w.durations n = if w.isReporting then spans (about n told) else [] := by
  cases h with
  | unmade _ htold hreports =>
      simp [durations, hreports, htold, spans]
  | begun _ _ _ htold hreports =>
      by_cases hreporting : w.isReporting
      · simp [durations, hreports, hreporting, htold, spans, reportAt, duration?_started]
      · simp [durations, hreports, hreporting]
  | decided _ _ _ _ htold hreports =>
      by_cases hreporting : w.isReporting
      · simp [durations, hreports, hreporting, htold, spans, reportAt, duration?_started,
          duration?_ended]
      · simp [durations, hreports, hreporting]

/-- Whatever is known under a law is known without it. -/
theorem Kept.any
    (h : Kept law w told n) :
    Kept .any w told n := by
  cases h with
  | unmade hcall htold hreports =>
      exact .unmade hcall htold hreports
  | begun hcall hphase _ htold hreports =>
      exact .begun hcall hphase (.inr trivial) htold hreports
  | decided hcall hphase _ _ htold hreports =>
      exact .decided hcall hphase (.inr trivial) (.inr trivial) htold hreports

theorem mem_about
    {r : ClockReading}
    (hmem : r ∈ told) :
    r ∈ about r.call told :=
  List.mem_filter.mpr ⟨hmem, by simp⟩

/-- A call whose race has been decided has been read for twice, and has reported twice. -/
theorem Kept.of_decided
    (h : Kept law w told n)
    {stop : Nat}
    (hmem : .decided n stop ∈ told) :
    ∃ inside subject s contributed start handed handedEnd,
      about n told = [.began n inside start, .decided n stop] ∧
        law.Near start handed ∧ law.Near stop handedEnd ∧
        w.reports n =
          if w.isReporting then
            [w.reportAt handed ⟨subject, .started⟩,
              w.reportAt handedEnd
                ⟨subject, .ended (Settlement.ending s) contributed (elapsed start stop)⟩]
          else [] := by
  have habout := mem_about hmem
  cases h with
  | unmade _ htold _ =>
      rw [ClockReading.call, htold] at habout
      cases habout
  | begun _ _ _ htold _ =>
      rw [ClockReading.call, htold] at habout
      cases List.mem_singleton.mp habout
  | @decided call s inside handed stop' handedEnd contributed _ _ hnear hnearEnd htold hreports =>
      rw [ClockReading.call, htold] at habout
      obtain rfl : stop = stop' := by simpa using habout
      exact ⟨inside, call.subject, s, contributed, call.startedAt, handed, handedEnd, htold, hnear,
        hnearEnd, hreports⟩

/-- Its duration runs from the reading with which it began. -/
theorem Kept.eq_elapsed
    (h : Kept law w told n)
    {inside : Option Nat}
    {start stop : Nat}
    (hbegan : .began n inside start ∈ told)
    (hdecided : .decided n stop ∈ told) :
    ∀ d ∈ w.durations n, d = elapsed start stop := by
  obtain ⟨_, _, _, _, start', _, _, habout, -⟩ := h.of_decided hdecided
  have hmem := mem_about hbegan
  rw [ClockReading.call, habout] at hmem
  obtain ⟨-, rfl⟩ : inside = _ ∧ start = start' := by simpa using hmem
  intro d hd
  rw [durations_of_kept h, habout] at hd
  split at hd
  · exact List.mem_singleton.mp hd
  · cases hd

end Kept

/-! ## The order of readings -/

/-- Two members of a list that is in order stand in that order. -/
theorem sublist_pair_of_pairwise
    {α : Type}
    {R : α → α → Prop}
    {l : List α}
    (hl : l.Pairwise R)
    {a b : α}
    (ha : a ∈ l)
    (hb : b ∈ l)
    (hne : a ≠ b)
    (hnot : ¬ R b a) :
    [a, b].Sublist l := by
  obtain ⟨before, after, rfl⟩ := List.append_of_mem ha
  obtain ⟨-, -, hbefore⟩ := List.pairwise_append.mp hl
  rcases List.mem_append.mp hb with hearlier | hlater
  · exact (hnot (hbefore b hearlier a List.mem_cons_self)).elim
  · rcases List.mem_cons.mp hlater with rfl | hafter
    · exact (hne rfl).elim
    · have hpair : [a, b].Sublist (a :: after) := (List.singleton_sublist.mpr hafter).cons_cons a
      exact hpair.trans (List.sublist_append_right before (a :: after))

/-- The times that have been read are in order, and the clock has not been set back behind them. -/
structure Ordered (w : World) (told : List ClockReading) : Prop where
  times : told.Pairwise fun earlier later => earlier.time ≤ later.time
  clock : ∀ r ∈ told, r.time ≤ w.clock

/-- The calls are numbered in the order in which they have begun, and a call that begins in the extent of
another one has begun after it. -/
structure Numbered (w : World) (told : List ClockReading) : Prop where
  begun : told.filterMap ClockReading.begun? = List.range w.calls.length
  places : ∀ place ∈ w.places, ∀ n, place.2 = some n → n < w.calls.length
  inside : ∀ m n time, .began m (some n) time ∈ told → n < m

section Order

variable {law : ClockLaw} {w after : World} {told new : List ClockReading}

theorem Ordered.le
    (h : Ordered w told)
    {earlier later : ClockReading}
    (hpair : [earlier, later].Sublist told) :
    earlier.time ≤ later.time := by
  have htimes := h.times.sublist hpair
  exact List.rel_of_pairwise_cons htimes List.mem_cons_self

theorem Ordered.onward
    (h : Ordered w told)
    (honward : Onward w new after) :
    Ordered after (told ++ new) where
  times := List.pairwise_append.mpr ⟨h.times, honward.order, fun r hr r' hr' =>
    Nat.le_trans (h.clock r hr) (honward.times r' hr').1⟩
  clock := List.forall_mem_append.mpr ⟨fun r hr => Nat.le_trans (h.clock r hr) honward.clock,
    fun r hr => (honward.times r hr).2⟩

theorem Numbered.untold
    (h : Numbered w told)
    (huntold : Untold w after) :
    Numbered after told where
  begun := huntold.count ▸ h.begun
  places := by
    intro place hplace n hn
    rw [huntold.count]
    rcases huntold.scopes place hplace with hnone | ⟨old, hold, hsame⟩
    · rw [hnone] at hn
      cases hn
    · exact h.places old hold n (hsame.trans hn)
  inside := h.inside

theorem Numbered.made
    (h : Numbered w told)
    {id handed time : Nat}
    {place : Nat × Option Nat}
    {call : Call}
    (hplace : place ∈ w.places)
    (hmade : Made id call handed w after) :
    Numbered after (told ++ [.began w.calls.length place.2 time]) := by
  have hlength : after.calls.length = w.calls.length + 1 := by
    rw [← outlines_length, hmade.outlines, List.length_append, outlines_length]
    rfl
  have hplaces : ∀ place ∈ w.places, ∀ n, place.2 = some n → n < after.calls.length :=
    fun place hplace n hn => hlength ▸ Nat.lt_succ_of_lt (h.places place hplace n hn)
  refine ⟨?_, ?_, ?_⟩
  · rw [List.filterMap_append, h.begun, hlength, List.range_succ]
    rfl
  · rcases hmade.places with hsame | hadded
    · rwa [hsame]
    · rw [hadded]
      refine List.forall_mem_append.mpr ⟨hplaces, List.forall_mem_singleton.mpr ?_⟩
      intro n hn
      rw [← Option.some.inj hn, hlength]
      exact Nat.lt_succ_self _
  · intro m n time' hmem
    rcases List.mem_append.mp hmem with hold | hnew
    · exact h.inside m n time' hold
    · -- The extent in which the strand runs is that of a call which is there before this one.
      obtain ⟨rfl, hextent, -⟩ : m = w.calls.length ∧ some n = place.2 ∧ time' = time := by
        simpa using hnew
      exact h.places place hplace n hextent.symm

theorem Numbered.decides
    (h : Numbered w told)
    {id number stop handed : Nat}
    {call : Call}
    {s : Settlement}
    (hdecided : Decided id number call s stop handed w after) :
    Numbered after (told ++ [.decided number stop]) := by
  have hlength : after.calls.length = w.calls.length := by
    rw [← outlines_length, hdecided.outlines, List.length_modify, outlines_length]
  refine ⟨?_, ?_, ?_⟩
  · rw [List.filterMap_append, h.begun, hlength]
    exact List.append_nil _
  · rw [hdecided.places, hlength]
    exact h.places
  · intro m n time hmem
    rcases List.mem_append.mp hmem with hold | hnew
    · exact h.inside m n time hold
    · cases List.mem_singleton.mp hnew

theorem Numbered.tells
    (h : Numbered w told)
    (htells : Tells law w new after) :
    Numbered after (told ++ new) := by
  cases htells with
  | untold huntold =>
      rw [List.append_nil]
      exact h.untold huntold
  | made hplace _ _ _ hmade =>
      exact h.made hplace hmade
  | decided _ _ _ hdecided =>
      exact h.decides hdecided

/-- One of two calls that have begun has begun before the other one. -/
theorem Numbered.sublist
    (h : Numbered w told)
    {m n : Nat}
    {inside inside' : Option Nat}
    {start start' : Nat}
    (hn : .began n inside start ∈ told)
    (hm : .began m inside' start' ∈ told)
    (hlt : n < m) :
    [.began n inside start, .began m inside' start'].Sublist told := by
  -- The times do not help here: they may be equal, and under some laws they are out of order.
  have hpairwise := List.pairwise_filterMap.mp (h.begun ▸ List.pairwise_lt_range)
  refine sublist_pair_of_pairwise hpairwise hn hm ?_ ?_
  · intro hsame
    cases hsame
    exact Nat.lt_irrefl _ hlt
  · intro hless
    exact Nat.lt_asymm hlt (hless m rfl n rfl)

theorem Numbered.exists_began
    (h : Numbered w told)
    {n : Nat}
    (hn : n < w.calls.length) :
    ∃ inside start, .began n inside start ∈ told := by
  have hmem : n ∈ told.filterMap ClockReading.begun? := by
    rw [h.begun]
    exact List.mem_range.mpr hn
  obtain ⟨r, hr, hbegun⟩ := List.mem_filterMap.mp hmem
  cases r with
  | began number inside start =>
      cases hbegun
      exact ⟨inside, start, hr⟩
  | decided number stop =>
      cases hbegun

theorem Numbered.lt
    (h : Numbered w told)
    {n : Nat}
    {inside : Option Nat}
    {start : Nat}
    (hmem : .began n inside start ∈ told) :
    n < w.calls.length := by
  have hbegun : n ∈ told.filterMap ClockReading.begun? :=
    List.mem_filterMap.mpr ⟨_, hmem, rfl⟩
  rw [h.begun] at hbegun
  exact List.mem_range.mp hbegun

end Order

/-! ## Moves that follow -/

/-- A world in which other deliveries are planned, made, posted by the program and still waited for. -/
def withDeliveries (w : World) (plans : List DeliveryPlan) (deliveries : List Delivery)
    (posted : List (Option Nat)) (pending : List Nat) : World :=
  { w with plans, deliveries, posted, pending }

section Moves

variable {w : World} {told : List ClockReading} {n : Nat}

theorem follows_any
    (time : Nat)
    (times : List Nat) :
    Follows ClockLaw.any.within time times := by
  induction times generalizing time with
  | nil =>
      exact trivial
  | cons next rest ih =>
      exact ⟨trivial, ih next⟩

theorem allows_any
    (w : World)
    (m : TimedMove) :
    ClockLaw.any.Allows w m := by
  cases m with
  | turn strand times =>
      exact follows_any w.clock times
  | _ =>
      exact trivial

theorem firm_withDeliveries
    (w : World)
    (plans : List DeliveryPlan)
    (deliveries : List Delivery)
    (posted : List (Option Nat))
    (pending : List Nat) :
    Firm w (w.withDeliveries plans deliveries posted pending) :=
  ⟨⟨rfl, rfl⟩, ⟨rfl, fun _ => rfl, fun _ _ h => h⟩, rfl⟩

theorem alike_withDeliveries
    (w : World)
    (plans : List DeliveryPlan)
    (deliveries : List Delivery)
    (posted : List (Option Nat))
    (pending : List Nat) :
    Alike w (w.withDeliveries plans deliveries posted pending) :=
  ⟨rfl, rfl, rfl, rfl, rfl, rfl, rfl⟩

/-- Whatever moves follow, the durations follow from what has been read. -/
theorem durations_timedMoves
    (hw : RacesOwned w)
    (h : Kept .any w told n)
    (ms : List TimedMove) :
    (w.timedMoves ms).durations n =
      if w.isReporting then spans (about n (told ++ w.readings ms)) else [] := by
  induction ms generalizing w told with
  | nil =>
      rw [readings, List.append_nil]
      exact durations_of_kept h
  | cons m rest ih =>
      have htells := tells_timedMove hw m (allows_any w m)
      have hrest := ih (hw.timedMove m) (h.tells htells)
      rw [htells.sameSetting.isReporting, List.append_assoc] at hrest
      exact hrest

/-- Moves in which the same is read lead to the same durations, whatever has become of the deliveries. -/
theorem durations_withDeliveries
    (hw : RacesOwned w)
    (h : Kept .any w told n)
    (plans : List DeliveryPlan)
    (deliveries : List Delivery)
    (posted : List (Option Nat))
    (pending : List Nat)
    {ms others : List TimedMove}
    (hsame : w.readings ms = (w.withDeliveries plans deliveries posted pending).readings others) :
    (w.timedMoves ms).durations n =
      ((w.withDeliveries plans deliveries posted pending).timedMoves others).durations n := by
  have hfirm := w.firm_withDeliveries plans deliveries posted pending
  have hother := durations_timedMoves (hw.hushed hfirm.toHushed) (h.untold hfirm.untold) others
  rw [durations_timedMoves hw h ms, hother, List.append_nil, hsame]
  rfl

end Moves

/-! ## An operation's own time -/

/-- What a duration is: the number of whole milliseconds from one time to another, both of them in nanoseconds;
none if time has gone back in between, and at most as many as the largest number that can be reported. -/
structure Measures (start stop : Nat) (duration : Int) : Prop where
  back : stop ≤ start → duration = 0
  fits : ∀ whole : Nat, start + 1000000 * whole ≤ stop → stop < start + 1000000 * (whole + 1) →
    whole ≤ 18446744073709551615 → duration = whole
  beyond : start + 1000000 * 18446744073709551615 ≤ stop → duration = 18446744073709551615

theorem measures_elapsed
    (start stop : Nat) :
    Measures start stop (elapsed start stop) := by
  unfold elapsed
  refine ⟨?_, ?_, ?_⟩
  · omega
  · intro whole hreached hmissed hfits
    omega
  · omega

/-- A shorter stretch of time takes no longer. -/
theorem elapsed_le
    {start start' stop stop' : Nat}
    (hstart : start ≤ start')
    (hstop : stop' ≤ stop) :
    elapsed start' stop' ≤ elapsed start stop := by
  unfold elapsed
  omega

/-- A call that begins in the extent of another one, or in the extent of a call that does. -/
def BeginsIn (told : List ClockReading) : Nat → Nat → Prop :=
  Relation.TransGen fun m n => ∃ time, .began m (some n) time ∈ told

/-- In what way the durations that are reported are the operations' own time, in a world that has come about
under a clock that keeps a law, with what has been read off the clock. -/
structure OwnTime (law : ClockLaw) (w : World) (told : List ClockReading) : Prop where
  /-- For a call whose race has been decided the clock has been read when it began, before its start was
  handed over, and right after the decision, before its ending was. The ending reports the time from the one
  reading to the other. -/
  measured : w.isReporting → ∀ n stop, .decided n stop ∈ told →
    ∃ (inside : Option Nat) (start handed handedEnd : Nat) (stage : TerminalStage)
        (first last : Message) (d : Int),
      about n told = [.began n inside start, .decided n stop] ∧
        w.reports n = [⟨handed, .started, first⟩, ⟨handedEnd, stage.toStage, last⟩] ∧
        law.Near start handed ∧ law.Near stop handedEnd ∧
        last.duration? = some d ∧ Measures start stop d
  /-- No ending is reported without such readings. -/
  accounted : ∀ n, ∀ report ∈ w.reports n, report.stage ≠ .started → ∃ stop, .decided n stop ∈ told
  /-- If the clock moves between turns only, this is the time from the moment at which the start is handed
  over to the moment at which the ending is. -/
  idle : law.IsIdle → ∀ n first last, w.reports n = [first, last] →
    ∃ d, last.message.duration? = some d ∧ Measures first.time last.time d
  /-- A call that begins inside another operation begins after it. -/
  inside : ∀ m n, BeginsIn told m n → ∃ outer start inner start',
    [.began n outer start, .began m inner start'].Sublist told
  /-- If the clock does not go back, a call that begins after another one and is decided before it takes no
  longer. -/
  enclosed : law.IsForward → ∀ m n outer start inner start' stop stop',
    [.began n outer start, .began m inner start'].Sublist told →
    [.decided m stop', .decided n stop].Sublist told →
    ∀ d' ∈ w.durations m, ∀ d ∈ w.durations n, d' ≤ d
  /-- Whatever has become of the deliveries by some moment, the next move is read alike, and leads to the same
  durations. -/
  unswayed : ∀ plans deliveries posted pending m,
    let v := w.withDeliveries plans deliveries posted pending
    w.moveReadings m = v.moveReadings m ∧ ∀ n, (w.timedMove m).durations n = (v.timedMove m).durations n
  /-- As long as its turns are tactful a program goes on with the same readings and the same durations whatever
  becomes of the deliveries from then on. It may wait for them afterwards. -/
  undelayed : ∀ ms, w.areTactful ms = true → ∀ plans deliveries posted pending others,
    withoutTimedDeliveries ms = withoutTimedDeliveries others →
    let v := w.withDeliveries plans deliveries posted pending
    w.readings ms = v.readings others ∧
      ∀ n, (w.timedMoves ms).durations n = (v.timedMoves others).durations n

section OwnTime

variable {law : ClockLaw} {w : World} {told : List ClockReading}

/-- Under any law the calls are numbered and have been read for, and under a law that does not let the clock
go back the readings are in order. -/
theorem kept_of_timed
    {reporter : Reporter}
    {hasRuntime : Bool}
    {stamps : Nat → Int}
    {source : InterruptSource}
    {plans : List DeliveryPlan}
    (h : Timed law (World.start reporter hasRuntime stamps source plans) w told) :
    RacesOwned w ∧ (∀ n, Kept law w told n) ∧ Numbered w told ∧ (law.IsForward → Ordered w told) := by
  refine h.induct (P := fun w told => (∀ n, Kept law w told n) ∧ Numbered w told ∧
    (law.IsForward → Ordered w told)) (racesOwned_of_evolves .refl) ⟨?_, ?_, ?_⟩ ?_
  · exact fun n => .unmade rfl rfl rfl
  · refine ⟨rfl, ?_, nofun⟩
    intro place hplace n hn
    cases List.mem_singleton.mp hplace
    cases hn
  · exact fun _ => ⟨.nil, nofun⟩
  · intro u before new after ⟨hkept, hnumbered, hordered⟩ htells honward
    exact ⟨fun n => (hkept n).tells htells, hnumbered.tells htells,
      fun hforward => (hordered hforward).onward (honward hforward)⟩

theorem Kept.accounted
    {n : Nat}
    (h : Kept law w told n)
    {report : Report}
    (hreport : report ∈ w.reports n)
    (hstage : report.stage ≠ .started) :
    ∃ stop, .decided n stop ∈ told := by
  cases h with
  | unmade _ _ hreports =>
      rw [hreports] at hreport
      cases hreport
  | begun _ _ _ _ hreports =>
      rw [hreports] at hreport
      split at hreport
      · rw [List.mem_singleton.mp hreport] at hstage
        exact (hstage rfl).elim
      · cases hreport
  | @decided _ _ _ _ stop _ _ _ _ _ _ htold _ =>
      have habout : .decided n stop ∈ about n told := by simp [htold]
      exact ⟨stop, (List.mem_filter.mp habout).1⟩

/-- Under a clock that moves between turns only, both events are handed over at the times of the readings. -/
theorem Kept.idle
    {n : Nat}
    (h : Kept law w told n)
    (hidle : law.IsIdle)
    {first last : Report}
    (hreports : w.reports n = [first, last]) :
    ∃ d, last.message.duration? = some d ∧ Measures first.time last.time d := by
  cases h with
  | unmade _ _ hnothing =>
      rw [hnothing] at hreports
      cases hreports
  | begun _ _ _ _ hstarted =>
      rw [hstarted] at hreports
      split at hreports <;> cases hreports
  | @decided call s _ handed stop handedEnd contributed _ _ hnear hnearEnd _ hended =>
      obtain rfl := hidle.eq_of_near hnear
      obtain rfl := hidle.eq_of_near hnearEnd
      rw [hended] at hreports
      split at hreports
      · cases hreports
        exact ⟨_, w.duration?_ended call.subject s.ending contributed call.startedAt handedEnd,
          measures_elapsed call.startedAt handedEnd⟩
      · cases hreports

theorem Numbered.beginsIn
    (h : Numbered w told)
    {m n : Nat}
    (hin : BeginsIn told m n) :
    n < m ∧ ∃ inside time, .began m inside time ∈ told := by
  induction hin with
  | single hdirect =>
      obtain ⟨time, hmem⟩ := hdirect
      exact ⟨h.inside _ _ _ hmem, _, _, hmem⟩
  | tail _ hdirect ih =>
      obtain ⟨time, hmem⟩ := hdirect
      exact ⟨Nat.lt_trans (h.inside _ _ _ hmem) ih.1, ih.2⟩

/-- Under any clock, the durations that a program reports are the operations' own time. -/
theorem ownTime_of_timed
    {reporter : Reporter}
    {hasRuntime : Bool}
    {stamps : Nat → Int}
    {source : InterruptSource}
    {plans : List DeliveryPlan}
    (h : Timed law (World.start reporter hasRuntime stamps source plans) w told) :
    OwnTime law w told := by
  obtain ⟨howned, hkept, hnumbered, hordered⟩ := kept_of_timed h
  constructor
  case measured =>
    intro hreporting n stop hmem
    obtain ⟨inside, subject, s, contributed, start, handed, handedEnd, habout, hnear, hnearEnd,
      hreports⟩ := (hkept n).of_decided hmem
    rw [if_pos hreporting] at hreports
    exact ⟨inside, start, handed, handedEnd, s.ending.stage, _, _, _, habout, hreports, hnear,
      hnearEnd, w.duration?_ended subject s.ending contributed start stop, measures_elapsed start stop⟩
  case accounted =>
    exact fun n report hreport hstage => (hkept n).accounted hreport hstage
  case idle =>
    exact fun hidle n first last hreports => (hkept n).idle hidle hreports
  case inside =>
    intro m n hin
    obtain ⟨hlt, inner, start', hm⟩ := hnumbered.beginsIn hin
    obtain ⟨outer, start, hn⟩ := hnumbered.exists_began (Nat.lt_trans hlt (hnumbered.lt hm))
    exact ⟨outer, start, inner, start', hnumbered.sublist hn hm hlt⟩
  case enclosed =>
    intro hforward m n outer start inner start' stop stop' hbegan hdecided d' hd' d hd
    have hstart : start ≤ start' := (hordered hforward).le hbegan
    have hstop : stop' ≤ stop := (hordered hforward).le hdecided
    have hinner : d' = elapsed start' stop' :=
      (hkept m).eq_elapsed (hbegan.mem (.tail _ (.head _))) (hdecided.mem (.head _)) d' hd'
    have houter : d = elapsed start stop :=
      (hkept n).eq_elapsed (hbegan.mem (.head _)) (hdecided.mem (.tail _ (.head _))) d hd
    rw [hinner, houter]
    exact Int.ofNat_le.mpr (elapsed_le hstart hstop)
  case unswayed =>
    intro plans deliveries posted pending m v
    have hread := (w.alike_withDeliveries plans deliveries posted pending).moveReadings m
    have hsame : w.readings [m] = v.readings [m] := congrArg (· ++ []) hread
    exact ⟨hread, fun n => durations_withDeliveries howned (hkept n).any plans deliveries posted pending
      hsame⟩
  case undelayed =>
    intro ms htactful plans deliveries posted pending others hothers v
    have halike := w.alike_withDeliveries plans deliveries posted pending
    have hsame := readings_of_alike halike htactful hothers
    exact ⟨hsame, fun n => durations_withDeliveries howned (hkept n).any plans deliveries posted pending
      hsame⟩

end OwnTime

/-- For instance, with a call inside another one, while the clock goes on in the middle of turns, the delivery
of the outer start hangs, and the outer call is interrupted in the end. The inner call takes three nanoseconds
less than twenty-five milliseconds. All this happens before the program waits for its deliveries. -/
theorem ownTime_plainRun :
    let inner : Step := .instrument none (.prompt "q" .null) [] [.hang] false none
    let script : Script :=
      [.instrument none (.session []) [.act .countListeners] [inner] false none, .drain false]
    let first := World.start plainReporter true plainStamps .channel [⟨none, .hang⟩]
    let w := first.beginScript script
    let ms : List TimedMove := [.turn 0 [5, 7], .set 10000003, .turn 1 [12000000], .deliver 0, .turn 2 [],
      .set 30000000, .signal .interrupt, .turn 1 [31000000, 35000000, 40000000], .turn 1 [],
      .set 50000000, .turn 0 [51000000, 53000001, 60000000]]
    ClockLaw.forward.Keeps w ms ∧ w.areTactful ms = true ∧
      w.readings ms = [.began 0 none 0, .began 1 (some 0) 10000003, .decided 1 35000000,
        .decided 0 53000001] ∧
      (w.timedMoves ms).durations 0 = [53] ∧ (w.timedMoves ms).durations 1 = [24] ∧
      OwnTime .forward (w.timedMoves ms) (w.readings ms) := by
  intro inner script first w ms
  have hkeeps : ClockLaw.forward.Keeps w ms := by decide +kernel
  have hbegun : Timed .forward first w [] := .script script .refl rfl
  exact ⟨hkeeps, by decide +kernel, by decide +kernel, by decide +kernel, by decide +kernel,
    ownTime_of_timed (hbegun.moves hkeeps)⟩

end World
end LifecycleTelemetry
