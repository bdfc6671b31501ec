import LifecycleTelemetry.Proofs.Operation.Extent
import LifecycleTelemetry.Proofs.Operation.Races
import LifecycleTelemetry.Proofs.Operation.Timed

/-!
# What timed moves do to calls

The lemmas on turns say what becomes of a world whose clock stands still. Here the clock may show any time in
the middle of a turn, so the same is told again without the clock: a part of a turn is `Firm` when it is no
matter of the calls, whatever time it may be.

`Tells` sums up what a move does. In most moves nothing is read off the clock, and at most some calls are
given up. In the others one call is made, or one is decided, and each comes with its reading and with the
time at which its event is handed over.
-/

namespace LifecycleTelemetry
namespace World

/-! ## Settings -/

/-- The reporter, the runtime and the start of the clock are the same. -/
structure SameSetting (w after : World) : Prop where
  reporter : after.reporter = w.reporter
  hasRuntime : after.hasRuntime = w.hasRuntime

section SameSetting

variable {w mid after : World}

theorem SameSetting.trans
    (h₁ : SameSetting w mid)
    (h₂ : SameSetting mid after) :
    SameSetting w after :=
  ⟨h₂.reporter.trans h₁.reporter, h₂.hasRuntime.trans h₁.hasRuntime⟩

theorem Spares.sameSetting
    {id : Nat}
    (h : Spares id w after) :
    SameSetting w after :=
  ⟨h.reporter, h.hasRuntime⟩

theorem SameSetting.isReporting
    (h : SameSetting w after) :
    after.isReporting = w.isReporting := by
  simp [World.isReporting, h.reporter, h.hasRuntime]

theorem SameSetting.reportAt
    (h : SameSetting w after)
    (time : Nat)
    (e : Event) :
    after.reportAt time e = w.reportAt time e := by
  simp [World.reportAt, messageOf, h.reporter]

end SameSetting

/-! ## Firm parts -/

/-- A part of a turn that is no matter of the calls, and in which every strand stays in its extent, at
whatever time it is carried out. -/
structure Firm (w after : World) : Prop extends SameSetting w after, Hushed w after where
  places : after.places = w.places

section Firm

variable {w mid after : World}

theorem Firm.refl : Firm w w :=
  ⟨⟨rfl, rfl⟩, .refl, rfl⟩

theorem Firm.trans
    (h₁ : Firm w mid)
    (h₂ : Firm mid after) :
    Firm w after :=
  ⟨h₁.toSameSetting.trans h₂.toSameSetting, h₁.toHushed.trans h₂.toHushed,
    h₂.places.trans h₁.places⟩

theorem Quiet.firm
    {id : Nat}
    (h : Quiet id w after)
    (hplaces : after.places = w.places) :
    Firm w after :=
  ⟨h.toSpares.sameSetting, h.toHushed, hplaces⟩

theorem firm_showing
    (w : World)
    (time : Nat) :
    Firm w (w.showing time) :=
  ⟨⟨rfl, rfl⟩, ⟨rfl, fun _ => rfl, fun _ _ h => h⟩, rfl⟩

theorem firm_listenFor
    (w : World)
    (call : Nat) :
    Firm w (w.listenFor call) :=
  (quiet_listenFor 0 w call).firm w.apart_listen.places

theorem firm_act
    (w : World)
    (list : String)
    (scope : Option Nat)
    (a : Action) :
    Firm w (w.act list scope a) :=
  (quiet_act 0 w list scope a).firm (w.acts_act list scope a).places

theorem firm_announce
    (w : World)
    (s : Settlement) :
    Firm w (w.announce s) :=
  (quiet_announce 0 w s).firm (w.apart_announce s).places

theorem firm_release
    (w : World)
    (number : Nat) :
    Firm w (w.release number) :=
  (quiet_release 0 w number).firm (congrArg (List.map Strand.place) (strands_release w number))

theorem firm_record
    (w : World)
    (list : String)
    (deed : Deed)
    (finding : Finding) :
    Firm w (w.record list deed finding) :=
  (quiet_record 0 w list deed finding).firm rfl

theorem firm_hand
    (w : World)
    (id : Nat)
    (o : Outcome)
    (propagate : Bool) :
    Firm w (w.hand id o propagate) :=
  (quiet_hand id w o propagate).firm (w.apart_hand id o propagate).places

theorem firm_pass
    (w : World)
    (id : Nat)
    (rest : Script) :
    Firm w (w.pass id rest) :=
  (quiet_pass id w rest).firm (w.apart_pass id rest).places

/-- Firm parts are firm together, whatever the clock shows in between. -/
theorem firm_through
    {parts : List (World → World)}
    (hparts : ∀ part ∈ parts, ∀ v, Firm v (part v))
    (times : List Nat)
    (w : World) :
    Firm w (through parts times w) := by
  induction parts generalizing times w with
  | nil =>
      exact .refl
  | cons part rest ih =>
      obtain ⟨hpart, hrest⟩ := List.forall_mem_cons.mp hparts
      cases times with
      | nil =>
          exact (hpart w).trans (ih hrest [] (part w))
      | cons time times =>
          exact (hpart w).trans ((firm_showing _ time).trans (ih hrest times _))

theorem firm_buildParts
    (inner : String)
    (call : Nat)
    (steps : List BuildStep) :
    ∀ part ∈ buildParts inner call steps, ∀ v, Firm v (part v) := by
  induction steps with
  | nil =>
      exact fun _ h => by cases h
  | cons step rest ih =>
      cases step with
      | panic p =>
          exact fun _ h => by cases h
      | act a =>
          exact List.forall_mem_cons.mpr ⟨fun v => v.firm_act inner (some call) a, ih⟩

end Firm

/-! ## One part after the other -/

section Order

/-- The first of some parts, and the time that the clock shows after it. -/
theorem through_cons
    (part : World → World)
    (parts : List (World → World))
    (times : List Nat)
    (w : World) :
    through (part :: parts) times w =
      through parts times.tail ((part w).showing (times.headD (part w).clock)) := by
  cases times with
  | nil =>
      rfl
  | cons time times =>
      rfl

theorem Follows.near
    {law : ClockLaw}
    {time : Nat}
    {times : List Nat}
    (h : Follows law.within time times) :
    law.Near time (times.headD time) ∧ Follows law.within (times.headD time) times.tail := by
  cases times with
  | nil =>
      exact ⟨Or.inl rfl, trivial⟩
  | cons next rest =>
      exact ⟨Or.inr h.1, h.2⟩

/-- After parts that do not touch the clock the other times follow the one that it shows. -/
theorem Follows.through
    {may : Nat → Nat → Prop}
    {parts : List (World → World)}
    (hparts : Timeless parts)
    {times : List Nat}
    {w : World}
    (h : Follows may w.clock times) :
    Follows may (through parts times w).clock (times.drop parts.length) := by
  induction parts generalizing times w with
  | nil =>
      exact h
  | cons part rest ih =>
      obtain ⟨hpart, hrest⟩ := List.forall_mem_cons.mp hparts
      cases times with
      | nil =>
          exact trivial
      | cons time times =>
          exact ih hrest h.2

end Order

/-! ## Handing over an event -/

/-- What happens when an event of a call is handed over at a time, and nothing else that is a matter of the
calls. -/
structure HandsOver (number : Nat) (e : Event) (time : Nat) (w after : World) : Prop extends
    SameSetting w after where
  outlines : after.outlines = w.outlines
  reports : ∀ n, after.reports n =
    if n = number ∧ w.isReporting then w.reports n ++ [w.reportAt time e] else w.reports n
  races : ∀ other n, after.race? other = some n → w.race? other = some n
  places : after.places = w.places

section HandsOver

variable {w mid after : World} {number time : Nat} {e : Event}

theorem handsOver_report
    (w : World)
    (number : Nat)
    (e : Event) :
    HandsOver number e w.clock w (w.report number e) where
  toSameSetting := (spares_report 0 w number e).sameSetting
  outlines := by rw [outlines, outlines, calls_report]
  reports := fun n => w.reports_report number n e
  races := fun other n h => by rwa [race?, strands_report] at h
  places := congrArg (List.map Strand.place) (strands_report w number e)

theorem HandsOver.firm
    (h : HandsOver number e time w mid)
    (hfirm : Firm mid after) :
    HandsOver number e time w after where
  toSameSetting := h.toSameSetting.trans hfirm.toSameSetting
  outlines := hfirm.outlines.trans h.outlines
  reports := fun n => (hfirm.reports n).trans (h.reports n)
  races := fun other n hrace => h.races other n (hfirm.races other n hrace)
  places := hfirm.places.trans h.places

end HandsOver

/-! ## Making a call -/

/-- What happens when a call is made whose start is handed over at a time. -/
structure Made (id : Nat) (call : Call) (handed : Nat) (w after : World) : Prop extends
    SameSetting w after where
  outlines : after.outlines = w.outlines ++ [call]
  reports : ∀ n, after.reports n =
    if n = w.calls.length ∧ w.isReporting then
      w.reports n ++ [w.reportAt handed ⟨call.subject, .started⟩]
    else w.reports n
  races : ∀ other n, after.race? other = some n →
    other = id ∧ n = w.calls.length ∧ (∃ body, call.phase = .racing body) ∨
      other ≠ id ∧ w.race? other = some n
  places : after.places = w.places ∨
    after.places = w.places ++ [(w.places.length, some w.calls.length)]

section Made

variable {id handed : Nat} {call : Call} {w mid after : World}

/-- What comes after it does not matter if it is firm. -/
theorem Made.firm
    (h : Made id call handed w mid)
    (hfirm : Firm mid after) :
    Made id call handed w after where
  toSameSetting := h.toSameSetting.trans hfirm.toSameSetting
  outlines := hfirm.outlines.trans h.outlines
  reports := fun n => (hfirm.reports n).trans (h.reports n)
  races := fun other n hrace => h.races other n (hfirm.races other n hrace)
  places := hfirm.places ▸ h.places

/-- What comes before it does not matter either. -/
theorem Firm.made
    (hfirm : Firm w mid)
    (h : Made id call handed mid after) :
    Made id call handed w after := by
  have hlength : mid.calls.length = w.calls.length := by
    rw [← outlines_length, ← outlines_length, hfirm.outlines]
  have hplaces := h.places
  rw [hfirm.places, hlength] at hplaces
  refine ⟨hfirm.toSameSetting.trans h.toSameSetting, ?_, ?_, ?_, hplaces⟩
  · rw [h.outlines, hfirm.outlines]
  · intro n
    rw [h.reports, hlength, hfirm.isReporting, hfirm.reportAt, hfirm.reports]
  · intro other n hrace
    rcases h.races other n hrace with ⟨hid, hn, hphase⟩ | ⟨hne, hold⟩
    · exact Or.inl ⟨hid, hn.trans hlength, hphase⟩
    · exact Or.inr ⟨hne, hfirm.races other n hold⟩

/-- The last part of the turn gives the call, whose start has been handed over by then, its phase. -/
theorem made_afterBuild
    (houtline : call.outline = call)
    (h : HandsOver w.calls.length ⟨call.subject, .started⟩ handed
      ((w.addCall call).showing handed) mid)
    (list inner : String)
    (body : Script)
    (propagate : Bool)
    (panic : Option PanicPayload) :
    ∃ phase, (∀ s, phase ≠ CallPhase.settled s) ∧
      Made id (call.withPhase phase) handed w
        (afterBuild id list inner w.calls.length body propagate (panic, mid)) := by
  have hsetting : SameSetting w mid := ⟨h.reporter, h.hasRuntime⟩
  have hadded : mid.outlines = w.outlines ++ [call] := by
    rw [h.outlines, ← houtline]
    exact List.map_append
  have hmodify := fun phase : CallPhase =>
    modify_length_append w.outlines call (Call.withPhase phase)
  rw [outlines_length] at hmodify
  cases panic with
  | some p =>
      have hleaves : Leaves id w.calls.length (.collapsed p) mid
          (mid.collapse id list w.calls.length p propagate) :=
        leaves_collapse id mid list p propagate
      refine ⟨.collapsed p, nofun, ?_, ?_, ?_, ?_, Or.inl ?_⟩
      · exact hsetting.trans hleaves.toSpares.sameSetting
      · exact hleaves.outlines.trans (hadded ▸ hmodify _)
      · exact fun n => (hleaves.reports n).trans (h.reports n)
      · intro other n hrace
        obtain ⟨hne, hold⟩ := hleaves.races other n hrace
        exact Or.inr ⟨hne, h.races other n hold⟩
      · exact (mid.calls_collapse id list w.calls.length p propagate).1.trans h.places
  | none =>
      have henters := enters_startRace id mid inner w.calls.length body
      refine ⟨.racing mid.strands.length, nofun, ?_, ?_, ?_, ?_, Or.inr ?_⟩
      · exact hsetting.trans henters.toSpares.sameSetting
      · exact henters.outlines.trans (hadded ▸ hmodify _)
      · exact fun n => (henters.reports n).trans (h.reports n)
      · intro other n hrace
        rcases henters.races other n hrace with ⟨hid, hn⟩ | ⟨hne, hold⟩
        · exact Or.inl ⟨hid, hn, _, rfl⟩
        · exact Or.inr ⟨hne, h.races other n hold⟩
      · have hstarted := (mid.calls_startRace id inner w.calls.length body).1
        rw [h.places] at hstarted
        exact hstarted

/-- The parts of the turn make the call. Its start is handed over at the time that the clock shows after the
first of them. -/
theorem made_openingParts
    (w : World)
    (id : Nat)
    (list inner : String)
    (subject : Subject)
    (steps : List BuildStep)
    (body : Script)
    (propagate : Bool)
    (abandonAfter : Option Nat)
    (times : List Nat) :
    ∃ phase, (∀ s, phase ≠ CallPhase.settled s) ∧
      Made id ((w.newCall id subject propagate abandonAfter).withPhase phase)
        (times.headD w.clock) w
        (through
          (openingParts id list inner w.calls.length subject steps body propagate abandonAfter)
          times w) := by
  let building : List (World → World) :=
    (fun v => v.listenFor w.calls.length) :: buildParts inner w.calls.length steps
  let last : World → World := fun v =>
    afterBuild id list inner w.calls.length body propagate (BuildStep.panic? steps, v)
  have hparts : openingParts id list inner w.calls.length subject steps body propagate
      abandonAfter =
      (fun v => v.addCall (v.newCall id subject propagate abandonAfter)) ::
        (fun v => v.report w.calls.length ⟨subject, .started⟩) :: (building ++ [last]) := rfl
  have hbuilding : ∀ part ∈ building, ∀ v, Firm v (part v) :=
    List.forall_mem_cons.mpr ⟨fun v => v.firm_listenFor _, firm_buildParts inner _ steps⟩
  let added := (w.addCall (w.newCall id subject propagate abandonAfter)).showing
    (times.headD w.clock)
  have hreported := added.handsOver_report w.calls.length ⟨subject, .started⟩
  have hbuilt := hreported.firm
    ((firm_showing _ (times.tail.headD (added.report w.calls.length ⟨subject, .started⟩).clock)).trans
      (firm_through hbuilding times.tail.tail _))
  obtain ⟨phase, hphase, hmade⟩ :=
    @made_afterBuild id _ (w.newCall id subject propagate abandonAfter) w _ rfl hbuilt list inner body
      propagate (BuildStep.panic? steps)
  refine ⟨phase, hphase, ?_⟩
  rw [hparts, through_cons, through_cons, through_append, through_cons]
  exact hmade.firm (firm_showing _ _)

end Made

/-! ## Deciding a call -/

/-- What happens when the race of a call has been decided, if the clock is read at one time, and the ending
is handed over at another. -/
structure Decided (id number : Nat) (call : Call) (s : Settlement) (stop handed : Nat)
    (w after : World) : Prop extends SameSetting w after where
  outlines : after.outlines = w.outlines.modify number (Call.withPhase (.settled s))
  reports : ∀ n, after.reports n =
    if n = number ∧ w.isReporting then
      w.reports n ++ [w.reportAt handed (endingOf call s stop)]
    else w.reports n
  races : ∀ other n, after.race? other = some n → other ≠ id ∧ w.race? other = some n
  places : after.places = w.places

section Decided

variable {w left : World}

theorem firm_leavingParts
    (number : Nat)
    (s : Settlement) :
    ∀ part ∈ leavingParts number s, ∀ v, Firm v (part v) :=
  List.forall_mem_cons.mpr ⟨fun v => v.firm_announce s,
    List.forall_mem_singleton.mpr fun v => v.firm_release number⟩

/-- The parts of the turn, after the race has been left, decide the call. Its ending is handed over at the
time that the clock shows after the first of them. -/
theorem decided_closingParts
    (hleft : Firm w left)
    (id : Nat)
    (list : String)
    (number : Nat)
    (call : Call)
    (s : Settlement)
    (times : List Nat) :
    Decided id number call s left.clock (times.headD left.clock) w
      (through (closingParts id list number call s left.clock) times left) := by
  let settled := (left.settle number call s).showing (times.headD left.clock)
  let reported := (settled.report number (endingOf call s left.clock)).showing
    (times.tail.headD (settled.report number (endingOf call s left.clock)).clock)
  let recorded := (reported.record list .instrument (.outcome s.outcome)).showing
    (times.tail.tail.headD reported.clock)
  let handed := recorded.hand id s.outcome call.propagate
  have hreported := settled.handsOver_report number (endingOf call s left.clock)
  have hrecorded : Firm (settled.report number (endingOf call s left.clock)) recorded :=
    (firm_showing _ _).trans ((firm_record reported list _ _).trans (firm_showing _ _))
  have hhanded := hreported.firm (hrecorded.trans (recorded.firm_hand id s.outcome call.propagate))
  have hoff : handed.race? id = none := race?_hand recorded id s.outcome call.propagate
  have hafter : through (closingParts id list number call s left.clock) times left =
      handed.showing (times.tail.tail.tail.headD handed.clock) := by
    rw [closingParts, through_cons, through_cons, through_cons, through_cons]
    rfl
  have hlast := hhanded.firm (firm_showing handed (times.tail.tail.tail.headD handed.clock))
  rw [hafter]
  refine ⟨?_, ?_, ?_, ?_, hlast.places.trans hleft.places⟩
  · exact hleft.toSameSetting.trans ⟨hlast.reporter, hlast.hasRuntime⟩
  · rw [hlast.outlines, ← hleft.outlines]
    exact outlines_settle left number call s
  · intro n
    rw [hlast.reports, ← hleft.isReporting, ← hleft.reportAt, ← hleft.reports]
    rfl
  · intro other n hrace
    exact ⟨ne_of_race? hoff hrace, hleft.races other n (hlast.races other n hrace)⟩

end Decided

/-! ## Turns -/

/-- What the turn of a strand is, in the middle of which the clock shows some times: it makes a call, or
decides one, or is a turn in which nobody looks at the clock. -/
inductive TurnTells (w : World) (id : Nat) (times : List Nat) : List ClockReading → World → Prop where
  | opens
      {strand : Strand}
      {call : Call}
      {after : World}
      (hstrand : w.strands[id]? = some strand)
      (howner : call.owner = id)
      (hstart : call.startedAt = w.clock)
      (hphase : ∀ s, call.phase ≠ .settled s)
      (h : Made id call (times.headD w.clock) w after) :
      TurnTells w id times [.began w.calls.length strand.scope w.clock] after
  | decides
      {strand : Strand}
      {number : Nat}
      {call : Call}
      {s : Settlement}
      {stop : Nat}
      {after : World}
      (hstrand : w.strands[id]? = some strand)
      (hracing : strand.status = .racing number)
      (hcall : w.calls[number]? = some call)
      (hsettled : w.settlement? call = some s)
      (hstop : stop = (through (leavingParts number s) times w).clock)
      (h : Decided id number call s stop
        ((times.drop (leavingParts number s).length).headD stop) w after) :
      TurnTells w id times [.decided number stop] after
  | other
      (h : Minds w id .other) :
      TurnTells w id times [] (w.advance id)

section Turns

variable (w : World) (id : Nat) (times : List Nat)

theorem turnTells_timedTurn :
    TurnTells w id times (w.turnReadings id times) (w.timedTurn id times) := by
  have hminds := w.minds_errand id
  unfold timedTurn turnReadings
  generalize w.errand id = errand at hminds
  cases hminds with
  | @opens strand name subject steps body rest propagate abandonAfter hstrand hready hrest =>
      obtain ⟨phase, hphase, hmade⟩ := (w.pass id rest).made_openingParts id strand.list
        (innerName strand.list strand.index name) subject (w.readied steps) body propagate abandonAfter
        times
      exact .opens hstrand rfl rfl hphase ((w.firm_pass id rest).made hmade)
  | @decides strand number call s hstrand hracing hcall hsettled =>
      have hleft := firm_through (firm_leavingParts number s) times w
      exact .decides hstrand hracing hcall hsettled rfl
        (decided_closingParts hleft id strand.list number call s _)
  | other hopens hdecides =>
      exact .other (.other hopens hdecides)

end Turns

/-! ## Moves in which nothing is read -/

/-- What happens to calls in a move in which nothing is read off the clock: some that are being raced may be
given up. New strands run in extents in which strands have run before, or in none. -/
structure Untold (w after : World) : Prop extends SameSetting w after where
  count : after.calls.length = w.calls.length
  outlines : ∀ n : Nat, after.outlines[n]? = w.outlines[n]? ∨
    ∃ (call : Call) (body : Nat), w.outlines[n]? = some call ∧ call.phase = .racing body ∧
      after.outlines[n]? = some (call.withPhase .abandoned)
  reports : ∀ n, after.reports n = w.reports n
  scopes : ∀ place ∈ after.places, place.2 = none ∨ ∃ old ∈ w.places, old.2 = place.2

section Untold

variable {w after : World}

theorem scopes_of_same
    (h : after.places = w.places) :
    ∀ place ∈ after.places, place.2 = none ∨ ∃ old ∈ w.places, old.2 = place.2 :=
  fun place hplace => Or.inr ⟨place, h ▸ hplace, rfl⟩

theorem untold_of_hushed
    (hsetting : SameSetting w after)
    (h : Hushed w after)
    (hscopes : ∀ place ∈ after.places, place.2 = none ∨ ∃ old ∈ w.places, old.2 = place.2) :
    Untold w after := by
  refine ⟨hsetting, ?_, fun n => Or.inl (by rw [h.outlines]), h.reports, hscopes⟩
  rw [← outlines_length, ← outlines_length, h.outlines]

theorem Firm.untold
    (h : Firm w after) :
    Untold w after :=
  untold_of_hushed h.toSameSetting h.toHushed (scopes_of_same h.places)

/-- In a turn in which nobody looks at the clock no extent is opened. -/
theorem scopes_advance
    {id : Nat}
    (h : Minds w id .other) :
    ∀ place ∈ (w.advance id).places, place.2 = none ∨ ∃ old ∈ w.places, old.2 = place.2 := by
  have hstride := w.stride_advance id
  generalize w.advance id = after at hstride
  cases h with
  | other hopens hdecides =>
      cases hstride with
      | apart _ h =>
          exact scopes_of_same h.places
      | @acts strand a rest hstrand hready hrest =>
          exact scopes_of_same (((w.pass id rest).acts_act strand.list strand.scope a).places.trans
            (w.apart_pass id rest).places)
      | @adds strand added after hstrand _ h hadded =>
          intro place hplace
          rw [h.places] at hplace
          rcases List.mem_append.mp hplace with hold | hnew
          · exact Or.inr ⟨place, hold, rfl⟩
          · rcases hadded with hbranch | htask
            · have hmem : strand.place ∈ w.places :=
                List.mem_map_of_mem (List.mem_of_getElem? hstrand)
              exact Or.inr ⟨strand.place, hmem, by rw [hbranch place hnew]⟩
            · rw [htask] at hnew
              exact Or.inl (by rw [List.mem_singleton.mp hnew])
      | opens hstrand hready hrest =>
          exact (hopens _ _ _ _ _ _ _ _ hstrand hready hrest).elim
      | concludes hstrand hracing hcall hsettled =>
          rw [hdecides _ _ _ hstrand hracing hcall] at hsettled
          cases hsettled
      | @abandons strand number hstrand hracing =>
          exact scopes_of_same ((w.apart_abandon id strand.list number).places.trans
            (w.calls_dropCall number).1)

/-- A call that takes another phase while it is being raced. -/
theorem outlines_of_modify
    {number body : Nat}
    {call : Call}
    (hcall : w.outlines[number]? = some call)
    (hphase : call.phase = .racing body)
    (houtlines : after.outlines = w.outlines.modify number (Call.withPhase .abandoned))
    (n : Nat) :
    after.outlines[n]? = w.outlines[n]? ∨
      ∃ (call : Call) (body : Nat), w.outlines[n]? = some call ∧ call.phase = .racing body ∧
        after.outlines[n]? = some (call.withPhase .abandoned) := by
  by_cases hn : number = n
  · subst hn
    exact Or.inr ⟨call, body, hcall, hphase, by rw [houtlines]; simp [hcall]⟩
  · exact Or.inl (by rw [houtlines]; simp [hn])

theorem untold_advance
    (hw : RacesOwned w)
    {id : Nat}
    (h : Minds w id .other) :
    Untold w (w.advance id) := by
  have hscopes := scopes_advance h
  have hsetting := (spares_of_turn (w.turn_advance id)).sameSetting
  have hturn := w.turn_advance id
  generalize w.advance id = after at hturn hscopes hsetting
  cases h with
  | other hopens hdecides =>
      cases hturn with
      | quiet h _ =>
          exact untold_of_hushed hsetting h.toHushed hscopes
      | @drainsOn strand batch recorded _ _ =>
          exact untold_of_hushed hsetting (quiet_drain id w strand.list batch recorded).toHushed hscopes
      | @drains strand recorded rest _ _ _ =>
          exact untold_of_hushed hsetting
            ((quiet_pass id w rest).toHushed.trans (hushed_startDrain id _ recorded)) hscopes
      | opens hstrand hready hrest =>
          exact (hopens _ _ _ _ _ _ _ _ hstrand hready hrest).elim
      | concludes hstrand hracing hcall hsettled =>
          rw [hdecides _ _ _ hstrand hracing hcall] at hsettled
          cases hsettled
      | @abandons strand number call hstrand hracing _ _ _ =>
          have hleaves := leaves_abandon id w number strand.list
          obtain ⟨call, body, hcall, hphase, -⟩ := hw id number (race?_of_racing hstrand hracing)
          refine ⟨hsetting, ?_, outlines_of_modify hcall hphase hleaves.outlines, hleaves.reports,
            hscopes⟩
          rw [← outlines_length, ← outlines_length, hleaves.outlines, List.length_modify]

theorem untold_abort
    (hw : RacesOwned w)
    (task : Nat) :
    Untold w (w.abort task) := by
  have haborts := aborts_abort w task
  have hplaces : (w.abort task).places = w.places := by
    rw [places, haborts.strands]
    exact places_abortedIn task w.strands
  refine ⟨⟨haborts.reporter, haborts.hasRuntime⟩, ?_, ?_, haborts.reports,
    scopes_of_same hplaces⟩
  · exact (kept_foldl_dropCall (w.racesOf task) w).1
  · intro n
    rw [haborts.outlines]
    by_cases hmem : n ∈ w.racesOf task
    · obtain ⟨id, hrace, -⟩ := w.mem_racesOf task hmem
      obtain ⟨call, body, hcall, hphase, -⟩ := hw id n hrace
      exact Or.inr ⟨call, body, hcall, hphase, by rw [if_pos hmem, hcall]; rfl⟩
    · exact Or.inl (if_neg hmem)

/-- What goes on apart from the strands tells nothing. -/
theorem Background.untold
    (h : Background w after) :
    Untold w after :=
  untold_of_hushed ⟨h.reporter, h.hasRuntime⟩ h.hushed
    (scopes_of_same (congrArg (List.map Strand.place) h.strands))

theorem untold_beginScript
    (w : World)
    (s : Script) :
    Untold w (w.beginScript s) :=
  ((quiet_beginScript w s).firm (w.apart_withStrand 0
    (fun strand => { strand with index := 0, rest := s, status := .ready }) fun _ => rfl).places).untold

end Untold

/-! ## Single steps -/

/-- What a step under a clock that keeps a law comes to: nothing is read, a call is made, or a call is
decided. -/
inductive Tells (law : ClockLaw) (w : World) : List ClockReading → World → Prop where
  | untold
      {after : World}
      (h : Untold w after) :
      Tells law w [] after
  | made
      {id handed : Nat}
      {place : Nat × Option Nat}
      {call : Call}
      {after : World}
      (hplace : place ∈ w.places)
      (hstart : call.startedAt = w.clock)
      (hphase : ∀ s, call.phase ≠ .settled s)
      (hnear : law.Near w.clock handed)
      (h : Made id call handed w after) :
      Tells law w [.began w.calls.length place.2 w.clock] after
  | decided
      {id number body stop handed : Nat}
      {call : Call}
      {s : Settlement}
      {after : World}
      (hcall : w.calls[number]? = some call)
      (hphase : call.phase = .racing body)
      (hnear : law.Near stop handed)
      (h : Decided id number call s stop handed w after) :
      Tells law w [.decided number stop] after

section Tells

variable {law : ClockLaw} {w after : World}

theorem tells_timedMove
    (hw : RacesOwned w)
    (m : TimedMove)
    (hlaw : law.Allows w m) :
    Tells law w (w.moveReadings m) (w.timedMove m) := by
  cases m with
  | turn id times =>
      have hturn := w.turnTells_timedTurn id times
      simp only [timedMove, moveReadings]
      generalize w.timedTurn id times = after at hturn
      generalize w.turnReadings id times = new at hturn
      cases hturn with
      | opens hstrand howner hstart hphase h =>
          exact .made (List.mem_map_of_mem (List.mem_of_getElem? hstrand)) hstart hphase
            (Follows.near hlaw).1 h
      | @decides strand number call s stop after hstrand hracing hcall hsettled hstop h =>
          obtain ⟨body, hphase⟩ := racing_of_settlement? hsettled
          have hlater := Follows.through (timeless_leavingParts number s) hlaw
          rw [← hstop] at hlater
          exact .decided hcall hphase (Follows.near hlater).1 h
      | other h =>
          exact .untold (untold_advance hw h)
  | deliver delivery =>
      exact .untold (w.background_deliver delivery).untold
  | set time =>
      exact .untold (w.firm_showing time).untold
  | signal s =>
      exact .untold (w.background_rouse _ _ _).untold
  | abort task =>
      exact .untold (untold_abort hw task)

theorem RacesOwned.timedMove
    (hw : RacesOwned w)
    (m : TimedMove) :
    RacesOwned (w.timedMove m) := by
  cases m with
  | turn id times =>
      have hturn := w.turnTells_timedTurn id times
      simp only [World.timedMove]
      generalize w.timedTurn id times = after at hturn
      generalize w.turnReadings id times = new at hturn
      cases hturn with
      | opens _ howner _ _ h =>
          exact hw.joins h.outlines h.races howner
      | decides hstrand hracing _ _ _ h =>
          exact hw.modify (race?_of_racing hstrand hracing) h.outlines h.races
      | other _ =>
          exact hw.turn (w.turn_advance id)
  | deliver delivery =>
      exact hw.hushed (w.background_deliver delivery).hushed
  | set time =>
      exact hw.hushed (w.firm_showing time).toHushed
  | signal s =>
      exact hw.hushed (w.background_rouse _ _ _).hushed
  | abort task =>
      exact hw.aborts (aborts_abort w task)

end Tells

/-! ## Clocks that do not go back -/

/-- What is read in a step lies between the times that the clock shows before it and after it. -/
structure Onward (w : World) (new : List ClockReading) (after : World) : Prop where
  clock : w.clock ≤ after.clock
  times : ∀ r ∈ new, w.clock ≤ r.time ∧ r.time ≤ after.clock
  order : new.Pairwise fun earlier later => earlier.time ≤ later.time

section Onward

variable {law : ClockLaw} {w after : World}

/-- Times that follow one another without going back. -/
theorem le_through
    (hforward : law.IsForward)
    {parts : List (World → World)}
    (hparts : Timeless parts)
    {times : List Nat}
    (w : World)
    (h : Follows law.within w.clock times) :
    w.clock ≤ (through parts times w).clock := by
  induction parts generalizing times w with
  | nil =>
      exact Nat.le_refl _
  | cons part rest ih =>
      obtain ⟨hpart, hrest⟩ := List.forall_mem_cons.mp hparts
      cases times with
      | nil =>
          have hlater : (part w).clock ≤ (through rest [] (part w)).clock :=
            ih hrest (part w) trivial
          rwa [hpart w] at hlater
      | cons time times =>
          exact Nat.le_trans (hforward.1 _ _ h.1) (ih hrest ((part w).showing time) h.2)

theorem onward_timedTurn
    (hforward : law.IsForward)
    (id : Nat)
    {times : List Nat}
    (h : Follows law.within w.clock times) :
    Onward w (w.turnReadings id times) (w.timedTurn id times) := by
  unfold timedTurn turnReadings
  cases w.errand id with
  | opens strand name subject steps body propagate abandonAfter rest =>
      have hlater := le_through hforward
        (timeless_openingParts id strand.list (innerName strand.list strand.index name) w.calls.length
          subject (w.readied steps) body propagate abandonAfter) (w.pass id rest) h
      refine ⟨hlater, ?_, List.pairwise_singleton _ _⟩
      exact List.forall_mem_singleton.mpr ⟨Nat.le_refl _, hlater⟩
  | decides strand number call s =>
      have hleft := le_through hforward (timeless_leavingParts number s) w h
      have hrest := Follows.through (timeless_leavingParts number s) h
      have hlater := le_through hforward (timeless_closingParts id strand.list number call s
        (through (leavingParts number s) times w).clock) _ hrest
      refine ⟨Nat.le_trans hleft hlater, ?_, List.pairwise_singleton _ _⟩
      exact List.forall_mem_singleton.mpr ⟨hleft, hlater⟩
  | other =>
      refine ⟨Nat.le_of_eq (spares_of_turn (w.turn_advance id)).clock.symm, ?_, .nil⟩
      exact nofun

/-- Moves in which nothing is read. -/
theorem onward_of_le
    (h : w.clock ≤ after.clock) :
    Onward w [] after :=
  ⟨h, nofun, .nil⟩

theorem onward_timedMove
    (hforward : law.IsForward)
    (m : TimedMove)
    (hlaw : law.Allows w m) :
    Onward w (w.moveReadings m) (w.timedMove m) := by
  cases m with
  | turn id times =>
      exact onward_timedTurn hforward id hlaw
  | deliver delivery =>
      exact onward_of_le (w.background_deliver delivery).clock
  | set time =>
      exact onward_of_le (hforward.2 _ _ hlaw)
  | signal s =>
      exact onward_of_le (Nat.le_refl _)
  | abort task =>
      exact onward_of_le (Nat.le_of_eq (aborts_abort w task).clock.symm)

end Onward

/-! ## Runs -/

/-- What every step keeps holds of every run under a clock that keeps a law. -/
theorem Timed.induct
    {law : ClockLaw}
    {first w : World}
    {told : List ClockReading}
    {P : World → List ClockReading → Prop}
    (h : Timed law first w told)
    (hfirst : RacesOwned first)
    (hstart : P first [])
    (hstep : ∀ u before new after, P u before → Tells law u new after →
      (law.IsForward → Onward u new after) → P after (before ++ new)) :
    RacesOwned w ∧ P w told := by
  have hsilent : ∀ {u after : World} {before : List ClockReading}, P u before → Untold u after →
      u.clock ≤ after.clock → P after before := by
    intro u after before hu huntold hclock
    have hlater := hstep u before [] after hu (.untold huntold) fun _ => onward_of_le hclock
    rwa [List.append_nil] at hlater
  induction h with
  | refl =>
      exact ⟨hfirst, hstart⟩
  | @move v told m _ hlaw ih =>
      obtain ⟨howned, hv⟩ := ih
      exact ⟨howned.timedMove m, hstep v told _ _ hv (tells_timedMove howned m hlaw) fun hforward =>
        onward_timedMove hforward m hlaw⟩
  | @script v told s _ hover ih =>
      obtain ⟨howned, hv⟩ := ih
      exact ⟨howned.hushed (quiet_beginScript v s).toHushed,
        hsilent hv (v.untold_beginScript s) (Nat.le_refl _)⟩
  | @rouse v told woken _ ih =>
      obtain ⟨howned, hv⟩ := ih
      have hback := v.background_rouse v.channel v.tickets woken
      exact ⟨howned.hushed hback.hushed, hsilent hv hback.untold hback.clock⟩
  | @mark v told pending listeners _ ih =>
      obtain ⟨howned, hv⟩ := ih
      have hback := v.background_note (.scriptEnded pending listeners) fun _ _ => rfl
      exact ⟨howned.hushed hback.hushed, hsilent hv hback.untold hback.clock⟩

end World
end LifecycleTelemetry
