import LifecycleTelemetry.Proofs.Operation.Turn

/-!
# The life of a call, turn by turn

The four kinds of turns that are not quiet, and the abortion of a task, told by what they do to
the outlines of the calls, to their reports and to the races. A call that is made reports its
start, one whose race is decided reports its ending, and nothing else is ever reported for a
call.
-/

namespace LifecycleTelemetry
namespace World

open Json (Fields)

/-! ## Leaving a race -/

section Races

variable (w : World) (id : Nat)

theorem race?_of_calm
    (status : StrandStatus)
    (hcalm : status.race? = none) :
    (w.withStatus id status).race? id = none := by
  simp [race?_withStatus, hcalm]

theorem race?_finish
    (o : Outcome) :
    (w.finish id o).race? id = none := by
  unfold finish
  cases hstrand : w.strands[id]? with
  | none =>
      simp [race?, hstrand]
  | some strand =>
      have hleft := w.race?_of_calm id (.finished o) rfl
      simp only
      split
      · exact hleft
      · exact hleft

/-- A strand that has been handed an outcome has left its race. -/
theorem race?_hand
    (o : Outcome)
    (propagate : Bool) :
    (w.hand id o propagate).race? id = none := by
  have hready := w.race?_of_calm id .ready rfl
  cases o with
  | ok v =>
      exact hready
  | err f =>
      simp only [hand]
      split
      · exact w.race?_finish id _
      · exact hready
  | panic p =>
      simp only [hand]
      split
      · exact w.race?_finish id _
      · exact hready

end Races

/-! ## Being handed an outcome -/

/-- What becomes of a strand that is handed an outcome: it goes on, unless the outcome ends it
as well. -/
def handedStatus (o : Outcome) (propagate : Bool) : StrandStatus :=
  match o with
  | .ok _ => .ready
  | _ => if propagate then .finished o else .ready

section Handing

variable (w : World) (id : Nat)

theorem history_finish
    (o : Outcome) :
    (w.finish id o).history = w.history := by
  unfold finish
  cases w.strands[id]? with
  | none =>
      rfl
  | some strand =>
      simp only
      split
      · rfl
      · rfl

theorem history_hand
    (o : Outcome)
    (propagate : Bool) :
    (w.hand id o propagate).history = w.history := by
  cases o with
  | ok v =>
      rfl
  | _ =>
      simp only [hand]
      split
      · exact w.history_finish id _
      · rfl

/-- What a strand is handed has been written into the history before. -/
theorem head_hand_record
    (list : String)
    (deed : Deed)
    (finding : Finding)
    (o : Outcome)
    (propagate : Bool) :
    ((w.record list deed finding).hand id o propagate).history.head? =
      some ⟨w.clock, .recorded list deed finding⟩ := by
  rw [history_hand]
  rfl

theorem strand_withStatus
    {strand : Strand}
    (hstrand : w.strands[id]? = some strand)
    (status : StrandStatus) :
    (w.withStatus id status).strands[id]? = some { strand with status } := by
  simp [withStatus, withStrand, hstrand]

theorem strand_finish
    {strand : Strand}
    (hstrand : w.strands[id]? = some strand)
    (o : Outcome) :
    (w.finish id o).strands[id]? = some { strand with status := .finished o } := by
  have hfinished := w.strand_withStatus id hstrand (.finished o)
  unfold finish
  simp only [hstrand]
  split
  · exact hfinished
  · exact hfinished

theorem strand_hand
    {strand : Strand}
    (hstrand : w.strands[id]? = some strand)
    (o : Outcome)
    (propagate : Bool) :
    (w.hand id o propagate).strands[id]? =
      some { strand with status := handedStatus o propagate } := by
  have hready := w.strand_withStatus id hstrand .ready
  cases o with
  | ok v =>
      exact hready
  | _ =>
      simp only [hand, handedStatus]
      split
      · exact w.strand_finish id hstrand _
      · exact hready

end Handing

/-! ## Reports in the same surroundings -/

/-- The reporter, the runtime and the start of the clock stay the same, and time does not go
back. -/
structure Endures (w after : World) : Prop where
  reporter : after.reporter = w.reporter
  hasRuntime : after.hasRuntime = w.hasRuntime
  clock : w.clock ≤ after.clock

section Endures

variable {w after : World}

theorem Spares.endures
    {id : Nat}
    (h : Spares id w after) :
    Endures w after :=
  ⟨h.reporter, h.hasRuntime, Nat.le_of_eq h.clock.symm⟩

theorem Endures.trans
    {mid : World}
    (h₁ : Endures w mid)
    (h₂ : Endures mid after) :
    Endures w after :=
  ⟨h₂.reporter.trans h₁.reporter, h₂.hasRuntime.trans h₁.hasRuntime,
    Nat.le_trans h₁.clock h₂.clock⟩

theorem Endures.isReporting
    (h : Endures w after) :
    after.isReporting = w.isReporting := by
  simp [World.isReporting, h.reporter, h.hasRuntime]

theorem Endures.reportAt
    (h : Endures w after)
    (time : Nat)
    (e : Event) :
    after.reportAt time e = w.reportAt time e := by
  simp [World.reportAt, messageOf, h.reporter]

end Endures

theorem outlines_length
    (w : World) :
    w.outlines.length = w.calls.length :=
  List.length_map _

/-! ## Making a call -/

section Opening

variable (w : World) (id : Nat)

theorem spares_addCall
    (call : Call) :
    Spares id w (w.addCall call) :=
  ⟨rfl, rfl, rfl, fun _ _ _ h => h, List.prefix_refl _, Nat.le_refl _⟩

theorem retains_addCall
    (call : Call) :
    Retains w (w.addCall call) :=
  ⟨fun _ h => h, fun _ h => Or.inl h⟩

variable (subject : Subject) (propagate : Bool) (abandonAfter : Option Nat)

theorem spares_openCall :
    Spares id w (w.openCall id subject propagate abandonAfter) := by
  have hadd := w.spares_addCall id (w.newCall id subject propagate abandonAfter)
  exact hadd.trans ((spares_report id _ _ _).trans (quiet_listenFor id _ _).toSpares)

theorem retains_openCall :
    Retains w (w.openCall id subject propagate abandonAfter) := by
  have hadd := w.retains_addCall (w.newCall id subject propagate abandonAfter)
  exact hadd.trans ((retains_report _ _ _).trans (quiet_listenFor id _ _).toRetains)

/-- A new call joins the others. -/
theorem outlines_openCall :
    (w.openCall id subject propagate abandonAfter).outlines =
      w.outlines ++ [w.newCall id subject propagate abandonAfter] := by
  rw [openCall, (quiet_listenFor id _ _).outlines, outlines, calls_report]
  exact List.map_append

/-- Its start is reported at once. -/
theorem reports_openCall
    (call : Nat) :
    (w.openCall id subject propagate abandonAfter).reports call =
      if call = w.calls.length ∧ w.isReporting then
        w.reports call ++ [w.reportAt w.clock ⟨subject, .started⟩]
      else w.reports call := by
  rw [openCall, (quiet_listenFor id _ _).reports, reports_report]
  rfl

theorem races_openCall
    {other call : Nat}
    (h : (w.openCall id subject propagate abandonAfter).race? other = some call) :
    w.race? other = some call := by
  have hreport := (quiet_listenFor id _ _).races other call h
  rwa [race?, strands_report] at hreport

end Opening
/-! ## Taking a new phase -/

section Phases

variable {id number : Nat} {phase : CallPhase} {w mid after : World}

/-- What happens when a call takes a new phase and its strand goes on without it: no other call is
touched, none reports anything, and the strand is in no race. -/
structure Leaves (id number : Nat) (phase : CallPhase) (w after : World) : Prop extends
    Spares id w after, Retains w after where
  outlines : after.outlines = w.outlines.modify number (Call.withPhase phase)
  reports : ∀ call, after.reports call = w.reports call
  races : ∀ other call, after.race? other = some call →
    other ≠ id ∧ w.race? other = some call

theorem spares_withCall
    (w : World)
    (change : Call → Call) :
    Spares id w (w.withCall number change) :=
  ⟨rfl, rfl, rfl, fun _ _ _ h => h, List.prefix_refl _, Nat.le_refl _⟩

theorem retains_withCall
    (w : World)
    (change : Call → Call) :
    Retains w (w.withCall number change) :=
  ⟨fun _ h => h, fun _ h => Or.inl h⟩

theorem ne_of_race?
    {other call : Nat}
    (hleft : w.race? id = none)
    (h : w.race? other = some call) :
    other ≠ id := by
  rintro rfl
  simp [hleft] at h

theorem leaves_of_quiet
    (hbefore : Quiet id w mid)
    (hafter : Quiet id (mid.withCall number (Call.withPhase phase)) after)
    (hleft : after.race? id = none) :
    Leaves id number phase w after where
  toSpares := hbefore.toSpares.trans ((spares_withCall mid _).trans hafter.toSpares)
  toRetains := hbefore.toRetains.trans ((retains_withCall mid _).trans hafter.toRetains)
  outlines := by
    rw [hafter.outlines, ← hbefore.outlines]
    exact mid.outlines_withCall number _ _ fun _ => rfl
  reports := fun call => (hafter.reports call).trans (hbefore.reports call)
  races := fun other call h =>
    ⟨ne_of_race? hleft h, hbefore.races other call (hafter.races other call h)⟩

/-- An operation that has panicked while it was built takes its call to the end. -/
theorem leaves_collapse
    (id : Nat)
    (w : World)
    (list : String)
    (p : PanicPayload)
    (propagate : Bool) :
    Leaves id number (.collapsed p) w (w.collapse id list number p propagate) := by
  have hrecord := quiet_record id
    ((w.release number).withCall number (Call.withPhase (.collapsed p)))
    list .instrument (.outcome (.panic p))
  exact leaves_of_quiet (quiet_release id w number)
    (hrecord.trans (quiet_hand id _ (.panic p) propagate)) (race?_hand _ id _ _)

theorem head_collapse
    (id : Nat)
    (w : World)
    (list : String)
    (p : PanicPayload)
    (propagate : Bool) :
    (w.collapse id list number p propagate).history.head? =
      some ⟨w.clock, .recorded list .instrument (.outcome (.panic p))⟩ := by
  rw [← (quiet_release id w number).clock]
  exact head_hand_record _ id _ _ _ _ _

/-- So does the time after which a call is given up. -/
theorem leaves_abandon
    (id : Nat)
    (w : World)
    (number : Nat)
    (list : String) :
    Leaves id number .abandoned w (w.abandon id list number) :=
  leaves_of_quiet (quiet_release id w number)
    ((quiet_record id _ _ _ _).trans (quiet_withStatus id _ .ready rfl))
    (race?_of_calm _ id .ready rfl)

end Phases

/-! ## Ending a call -/

section Ending

variable (id : Nat) (w : World) (number : Nat) (call : Call) (s : Settlement)

theorem quiet_announce :
    Quiet id w (w.announce s) := by
  cases s with
  | interrupted signal =>
      exact quiet_say id w _ _ _ _
  | _ =>
      exact .refl

theorem strands_release :
    (w.release number).strands = w.strands := by
  unfold release
  cases w.calls[number]? with
  | none =>
      rfl
  | some c =>
      rfl

/-- The world in which the ending of a call is reported. -/
theorem quiet_before_settle :
    Quiet id w ((w.announce s).release number) :=
  (quiet_announce id w s).trans (quiet_release id _ number)

theorem spares_settle :
    Spares id w (w.settle number call s) :=
  spares_withCall w _

theorem outlines_settle :
    (w.settle number call s).outlines =
      w.outlines.modify number (Call.withPhase (.settled s)) :=
  w.outlines_withCall number _ _ fun _ => rfl

theorem spares_reportEnding :
    Spares id w (w.reportEnding number call s) :=
  (quiet_before_settle id w number s).toSpares.trans
    ((spares_settle id _ number call s).trans (spares_report id _ _ _))

theorem retains_reportEnding :
    Retains w (w.reportEnding number call s) :=
  (quiet_before_settle 0 w number s).toRetains.trans
    ((retains_withCall _ _).trans (retains_report _ _ _))

theorem outlines_reportEnding :
    (w.reportEnding number call s).outlines =
      w.outlines.modify number (Call.withPhase (.settled s)) := by
  rw [reportEnding, outlines, calls_report]
  rw [← (quiet_before_settle 0 w number s).outlines]
  exact outlines_settle _ number call s

/-- The ending is reported for the call that ends, and nothing for any other. -/
theorem reports_reportEnding
    (other : Nat) :
    (w.reportEnding number call s).reports other =
      if other = number ∧ w.isReporting then
        w.reports other ++ [w.reportAt w.clock (endingOf call s w.clock)]
      else w.reports other := by
  have hquiet := quiet_before_settle 0 w number s
  have hspares := hquiet.toSpares.trans (spares_settle 0 _ number call s)
  have hreports : (((w.announce s).release number).settle number call s).reports other =
      w.reports other := hquiet.reports other
  rw [reportEnding, reports_report, hspares.endures.isReporting, hspares.endures.reportAt,
    hspares.clock, hreports]

/-- The strands do not notice that the ending of a call is reported. -/
theorem strands_reportEnding :
    (w.reportEnding number call s).strands = w.strands := by
  have hannounce : (w.announce s).strands = w.strands := by
    cases s with
    | _ =>
        rfl
  rw [reportEnding, strands_report]
  exact (strands_release (w.announce s) number).trans hannounce

theorem races_reportEnding
    {other n : Nat}
    (h : (w.reportEnding number call s).race? other = some n) :
    w.race? other = some n := by
  rwa [race?, strands_reportEnding] at h

end Ending
/-! ## The four turns -/

section Turns

variable (id : Nat) (w : World)

/-- What happens when the operation of a call has been built: its race begins, and its strand is
the one that waits for it. -/
structure Enters (id number body : Nat) (w after : World) : Prop extends
    Spares id w after, Retains w after where
  outlines : after.outlines = w.outlines.modify number (Call.withPhase (.racing body))
  reports : ∀ call, after.reports call = w.reports call
  races : ∀ other call, after.race? other = some call →
    other = id ∧ call = number ∨ other ≠ id ∧ w.race? other = some call
  entered : id < w.strands.length → after.race? id = some number

theorem enters_startRace
    (inner : String)
    (number : Nat)
    (body : Script) :
    Enters id number w.strands.length w (w.startRace id inner number body) := by
  have hspawn := quiet_spawnTask id w inner body (some number)
  refine ⟨?_, ?_, ?_, ?_, ?_, ?_⟩
  · exact hspawn.toSpares.trans ((spares_withCall _ _).trans (spares_withStrand id _ _))
  · exact hspawn.toRetains.trans ((retains_withCall _ _).trans (retains_withStrand id _ _))
  · rw [← hspawn.outlines]
    exact outlines_withCall _ number _ _ fun _ => rfl
  · exact hspawn.reports
  · intro other call h
    rw [startRace, race?_withStatus] at h
    by_cases heq : other = id
    · simp only [heq, if_true] at h
      obtain ⟨strand, -, hrace⟩ := Option.bind_eq_some_iff.mp h
      exact Or.inl ⟨heq, (Option.some.inj hrace).symm⟩
    · simp only [heq, if_false] at h
      exact Or.inr ⟨heq, hspawn.races other call h⟩
  · intro hid
    have hspawned := Nat.lt_of_lt_of_le hid hspawn.count
    rw [startRace, race?_withStatus, if_pos rfl]
    exact Option.bind_eq_some_iff.mpr ⟨_, List.getElem?_eq_getElem hspawned, rfl⟩

/-- The operation of a call either panics while it is built, or its race begins. -/
theorem instrument_cases
    (list inner : String)
    (subject : Subject)
    (steps : List BuildStep)
    (body : Script)
    (propagate : Bool)
    (abandonAfter : Option Nat) :
    let number := w.calls.length
    let built :=
      (w.openCall id subject propagate abandonAfter).build inner number (w.readied steps)
    let after := w.instrument id list inner subject steps body propagate abandonAfter
    (∃ p, built.1 = some p ∧ Leaves id number (.collapsed p) built.2 after ∧
        after.history.head? =
          some ⟨built.2.clock, .recorded list .instrument (.outcome (.panic p))⟩) ∨
      (built.1 = none ∧ Enters id number built.2.strands.length built.2 after) := by
  intro number built after
  have hafter : ∀ panicked mid, built = (panicked, mid) → after =
      (panicked.elim (mid.startRace id inner number body)
        fun p => mid.collapse id list number p propagate) := by
    intro panicked mid hbuilt
    simp only [after, instrument]
    rw [show (w.openCall id subject propagate abandonAfter).build inner w.calls.length
      (w.readied steps) = (panicked, mid) from hbuilt]
    cases panicked with
    | none =>
        rfl
    | some p =>
        rfl
  obtain ⟨panicked, mid⟩ := built
  rw [hafter panicked mid rfl]
  cases panicked with
  | some p =>
      exact Or.inl ⟨p, rfl, leaves_collapse id mid list p propagate,
        head_collapse id mid list p propagate⟩
  | none =>
      exact Or.inr ⟨rfl, enters_startRace id mid inner number body⟩

/-- What happens when a call is made: it joins the others, has reported its start, and is the
one that its strand races, if there is a race. -/
structure Opens (id : Nat) (call : Call) (w after : World) : Prop extends
    Spares id w after, Retains w after where
  outlines : after.outlines = w.outlines ++ [call]
  reports : ∀ n, after.reports n =
    if n = w.calls.length ∧ w.isReporting then
      w.reports n ++ [w.reportAt w.clock ⟨call.subject, .started⟩]
    else w.reports n
  races : ∀ other n, after.race? other = some n →
    other = id ∧ n = w.calls.length ∧ (∃ body, call.phase = .racing body) ∨
      other ≠ id ∧ w.race? other = some n
  entered : id < w.strands.length → ∀ body, call.phase = .racing body →
    after.race? id = some w.calls.length

theorem modify_length_append
    {α : Type}
    (xs : List α)
    (x : α)
    (f : α → α) :
    (xs ++ [x]).modify xs.length f = xs ++ [f x] := by
  induction xs with
  | nil =>
      rfl
  | cons y ys ih =>
      simpa using ih

theorem opens_instrument
    (list inner : String)
    (subject : Subject)
    (steps : List BuildStep)
    (body : Script)
    (propagate : Bool)
    (abandonAfter : Option Nat) :
    let call := w.newCall id subject propagate abandonAfter
    let built :=
      (w.openCall id subject propagate abandonAfter).build inner w.calls.length (w.readied steps)
    let after := w.instrument id list inner subject steps body propagate abandonAfter
    (∃ p, built.1 = some p ∧ Opens id (call.withPhase (.collapsed p)) w after ∧
        after.history.head? =
          some ⟨w.clock, .recorded list .instrument (.outcome (.panic p))⟩) ∨
      (built.1 = none ∧ Opens id (call.withPhase (.racing built.2.strands.length)) w after) := by
  intro call built after
  have hbuild := quiet_build id (w.openCall id subject propagate abandonAfter) inner
    w.calls.length (w.readied steps)
  have hspares := (spares_openCall w id subject propagate abandonAfter).trans hbuild.toSpares
  have hretains := (retains_openCall w id subject propagate abandonAfter).trans hbuild.toRetains
  have houtlines := hbuild.outlines.trans (outlines_openCall w id subject propagate abandonAfter)
  have hreports := fun n =>
    (hbuild.reports n).trans (reports_openCall w id subject propagate abandonAfter n)
  have hraces := fun other n h =>
    races_openCall w id subject propagate abandonAfter (hbuild.races other n h)
  have hmodify := fun phase : CallPhase =>
    modify_length_append w.outlines (w.newCall id subject propagate abandonAfter)
      (Call.withPhase phase)
  rw [outlines_length] at hmodify
  rcases w.instrument_cases id list inner subject steps body propagate abandonAfter with
    ⟨p, hp, hleaves, hhead⟩ | ⟨hnone, henters⟩
  · rw [hspares.clock] at hhead
    refine Or.inl ⟨p, hp, ?_, hhead⟩
    refine ⟨hspares.trans hleaves.toSpares, hretains.trans hleaves.toRetains, ?_, ?_, ?_, ?_⟩
    · rw [hleaves.outlines, houtlines, hmodify]
    · exact fun n => (hleaves.reports n).trans (hreports n)
    · intro other n h
      obtain ⟨hne, hrace⟩ := hleaves.races other n h
      exact Or.inr ⟨hne, hraces other n hrace⟩
    · intro _ body hphase
      cases hphase
  · refine Or.inr ⟨hnone, ?_⟩
    refine ⟨hspares.trans henters.toSpares, hretains.trans henters.toRetains, ?_, ?_, ?_, ?_⟩
    · rw [henters.outlines, houtlines, hmodify]
    · exact fun n => (henters.reports n).trans (hreports n)
    · intro other n h
      rcases henters.races other n h with ⟨hid, hn⟩ | ⟨hne, hrace⟩
      · exact Or.inl ⟨hid, hn, _, rfl⟩
      · exact Or.inr ⟨hne, hraces other n hrace⟩
    · exact fun hid _ _ => henters.entered (Nat.lt_of_lt_of_le hid hspares.count)

/-- What a call may be when it has just been made: it is being raced, or the part that builds its
operation has panicked. The strand has been handed that panic at once. -/
def Begins (w : World) (list : String) (call : Call) (after : World) : Prop :=
  (∃ body, call.phase = .racing body) ∨
    ∃ p, call.phase = .collapsed p ∧
      after.history.head? = some ⟨w.clock, .recorded list .instrument (.outcome (.panic p))⟩

/-- The same, seen from the world in which the strand has not yet passed the step. -/
theorem opens_step
    (list inner : String)
    (subject : Subject)
    (steps : List BuildStep)
    (body rest : Script)
    (propagate : Bool)
    (abandonAfter : Option Nat) :
    let after := (w.pass id rest).instrument id list inner subject steps body propagate abandonAfter
    ∃ phase, Begins w list ((w.newCall id subject propagate abandonAfter).withPhase phase) after ∧
      Opens id ((w.newCall id subject propagate abandonAfter).withPhase phase) w after := by
  intro after
  have hpass := quiet_pass id w rest
  have hopens : ∃ phase,
      Begins w list ((w.newCall id subject propagate abandonAfter).withPhase phase) after ∧
      Opens id ((w.newCall id subject propagate abandonAfter).withPhase phase) (w.pass id rest)
        after := by
    rcases opens_instrument id (w.pass id rest) list inner subject steps body propagate
      abandonAfter with ⟨p, -, h, hhead⟩ | ⟨-, h⟩
    · exact ⟨_, Or.inr ⟨p, rfl, hhead⟩, h⟩
    · exact ⟨_, Or.inl ⟨_, rfl⟩, h⟩
  obtain ⟨phase, hphase, h⟩ := hopens
  refine ⟨phase, hphase, hpass.toSpares.trans h.toSpares, hpass.toRetains.trans h.toRetains,
    h.outlines, h.reports, ?_, ?_⟩
  · intro other n hrace
    rcases h.races other n hrace with hnew | ⟨hne, hold⟩
    · exact Or.inl hnew
    · exact Or.inr ⟨hne, hpass.races other n hold⟩
  · exact fun hid => h.entered (Nat.lt_of_lt_of_le hid hpass.count)

/-- A drain takes what waits to be drained, and that is all. -/
theorem startDrain_eq
    (recorded : Bool) :
    ∃ told, Quiet id { w with pending := [] } told ∧
      w.startDrain id recorded = told.withStatus id (.draining w.pending recorded) := by
  simp only [startDrain]
  split
  · exact ⟨_, .refl, rfl⟩
  · exact ⟨_, quiet_say id _ _ _ _ _, rfl⟩

theorem spares_startDrain
    (recorded : Bool) :
    Spares id w (w.startDrain id recorded) := by
  obtain ⟨told, htold, heq⟩ := w.startDrain_eq id recorded
  rw [heq]
  have htaken : Spares id w { w with pending := [] } :=
    ⟨rfl, rfl, rfl, fun _ _ _ h => h, List.prefix_refl _, Nat.le_refl _⟩
  exact htaken.trans (htold.toSpares.trans (spares_withStrand id told _))

theorem hushed_startDrain
    (recorded : Bool) :
    Hushed w (w.startDrain id recorded) := by
  obtain ⟨told, htold, heq⟩ := w.startDrain_eq id recorded
  rw [heq]
  have htaken : Hushed w { w with pending := [] } :=
    ⟨rfl, fun _ => rfl, fun _ _ h => h⟩
  exact htaken.trans (htold.trans (quiet_withStatus id told _ rfl)).toHushed

/-- What happens when the race of a call has been decided. -/
structure Concludes (id number : Nat) (call : Call) (s : Settlement) (w after : World) : Prop
    extends Spares id w after, Retains w after where
  outlines : after.outlines = w.outlines.modify number (Call.withPhase (.settled s))
  reports : ∀ other, after.reports other =
    if other = number ∧ w.isReporting then
      w.reports other ++ [w.reportAt w.clock (endingOf call s w.clock)]
    else w.reports other
  races : ∀ other n, after.race? other = some n → other ≠ id ∧ w.race? other = some n

theorem concludes_conclude
    (list : String)
    (number : Nat)
    (call : Call)
    (s : Settlement) :
    Concludes id number call s w (w.conclude id list number call s) := by
  have hrecord := quiet_record id (w.reportEnding number call s) list .instrument
    (.outcome s.outcome)
  have hquiet := hrecord.trans (quiet_hand id _ s.outcome call.propagate)
  refine ⟨?_, ?_, ?_, ?_, ?_⟩
  · exact (spares_reportEnding id w number call s).trans hquiet.toSpares
  · exact (retains_reportEnding w number call s).trans hquiet.toRetains
  · exact hquiet.outlines.trans (outlines_reportEnding w number call s)
  · intro other
    exact (hquiet.reports other).trans (reports_reportEnding w number call s other)
  · intro other n h
    refine ⟨ne_of_race? (race?_hand _ id _ _) h, ?_⟩
    exact races_reportEnding w number call s (hquiet.races other n h)

/-- No turn touches anything but what belongs to the strand and its calls. -/
theorem spares_of_turn
    {id : Nat}
    {w after : World}
    (h : Turn w id after) :
    Spares id w after := by
  cases h with
  | quiet h _ =>
      exact h.toSpares
  | opens _ _ _ =>
      obtain ⟨_, -, h⟩ := opens_step id w _ _ _ _ _ _ _ _
      exact h.toSpares
  | @drains strand recorded rest _ _ _ =>
      exact (quiet_pass id w rest).toSpares.trans (spares_startDrain id _ recorded)
  | @drainsOn strand batch recorded _ _ =>
      exact (quiet_drain id w strand.list batch recorded).toSpares
  | @concludes strand number call s _ _ _ _ =>
      exact (concludes_conclude id w strand.list number call s).toSpares
  | @abandons strand number call _ _ _ _ _ =>
      exact (leaves_abandon id w number strand.list).toSpares

/-- The last thing that happens then is that the caller gets the outcome. -/
theorem head_conclude
    (list : String)
    (number : Nat)
    (call : Call)
    (s : Settlement) :
    (w.conclude id list number call s).history.head? =
      some ⟨w.clock, .recorded list .instrument (.outcome s.outcome)⟩ := by
  rw [← (spares_reportEnding id w number call s).clock]
  exact head_hand_record _ id _ _ _ _ _

theorem strand_conclude
    {strand : Strand}
    (hstrand : w.strands[id]? = some strand)
    (list : String)
    (number : Nat)
    (call : Call)
    (s : Settlement) :
    (w.conclude id list number call s).strands[id]? =
      some { strand with status := handedStatus s.outcome call.propagate } := by
  have hsame : ((w.reportEnding number call s).record list .instrument
      (.outcome s.outcome)).strands[id]? = some strand := by
    rw [← hstrand, ← strands_reportEnding w number call s]
    rfl
  exact strand_hand _ id hsame _ _

end Turns
end World
end LifecycleTelemetry
