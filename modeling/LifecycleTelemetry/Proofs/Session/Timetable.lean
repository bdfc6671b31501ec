import LifecycleTelemetry.Proofs.Session.Pace

/-!
# Sessions on a schedule

A session that begins on a schedule is carried out until it is over, or until it waits for deliveries that
never end. By then its race has been decided, by what comes first.

`Timely` is what holds of a schedule between two turns; each turn, and each move of the clock, keeps it and
leaves less to be done.
-/

namespace LifecycleTelemetry
namespace Session

open Channel (keepLast)
open Schedule (turn poll)
open World (Rouses)

variable {source : InterruptSource} {child : ChildRun} {subject : Subject} {body : Script}

/-! ## Whole turns -/

section Turns

variable {w : World} {main worker : Strand} {call : Call}

/-- The strands of a session neither give way nor wait for branches of their own, and there are two at
most. -/
theorem Scene.statuses
    (h : Scene subject body w.sight) :
    (∀ strand ∈ w.strands, strand.status ≠ .gaveWay ∧ ∀ branches propagate,
        strand.status ≠ .joining branches propagate) ∧
      w.strands.length ≤ 2 := by
  have hworking : ∀ {worker : Strand}, Worker worker →
      worker.status ≠ .gaveWay ∧ ∀ branches propagate, worker.status ≠ .joining branches propagate := by
    intro worker hworker
    rcases hworker.status with hstatus | ⟨deadline, ticket, hstatus⟩ | ⟨o, hstatus⟩
    · simp [hstatus]
    · simp [hstatus]
    · simp [hstatus]
  have hwaiting : ∀ {main : Strand}, Waits w.sight main →
      main.status ≠ .gaveWay ∧ ∀ branches propagate, main.status ≠ .joining branches propagate := by
    intro main hwaits
    cases hwaits with
    | before hstatus =>
        simp [hstatus]
    | during hstatus =>
        simp [hstatus]
    | back hstatus =>
        simp [hstatus]
    | ended hstatus =>
        simp [hstatus]
  cases h with
  | ahead hstrands hcalls htask hready hrest hdeliveries hpending hruntime =>
      have hstrands : w.strands = [_] := hstrands
      simp [hstrands, hready]
  | racing hstrands hcalls hracer hworker hraced hpending =>
      have hstrands : w.strands = [_, _] := hstrands
      rw [hstrands]
      simp [hracer.status, hworking hworker]
  | decided hstrands hcalls htask hworker hphase hown hwaits =>
      have hstrands : w.strands = [_, _] := hstrands
      rw [hstrands]
      simp [hwaiting hwaits, hworking hworker]

theorem Scene.goesOn
    (h : Scene subject body w.sight)
    (id : Nat) :
    Schedule.goesOn w id = w.canAdvance id ∧ Schedule.branchesOf w id = [] := by
  unfold Schedule.goesOn Schedule.branchesOf
  cases hstrand : w.strands[id]? with
  | none =>
      exact ⟨rfl, rfl⟩
  | some strand =>
      obtain ⟨hgave, hjoins⟩ := h.statuses.1 strand (List.mem_of_getElem? hstrand)
      simp only [Option.map_some]
      constructor
      · split
        · next hstatus =>
            exact (hgave (Option.some.inj hstatus)).elim
        · rfl
      · split
        · next branches propagate hstatus =>
            exact (hjoins branches propagate (Option.some.inj hstatus)).elim
        · rfl

/-- The parties of a race are there as long as it is not decided. -/
theorem Scene.race
    (h : Scene subject body w.sight)
    (hstrands : w.strands = [main, worker])
    (hcalls : w.calls = [call])
    (hraced : Raced call) :
    Racer main ∧ Worker worker := by
  cases h with
  | ahead hone =>
      have hone : w.strands = [_] := hone
      rw [hstrands] at hone
      cases hone
  | racing hboth hone hracer hworker =>
      have hboth : w.strands = [_, _] := hboth
      rw [hstrands] at hboth
      cases hboth
      exact ⟨hracer, hworker⟩
  | decided hboth hone htask hworker hphase =>
      have hone : w.calls = [_] := hone
      rw [hcalls] at hone
      cases hone
      rw [hraced.phase] at hphase
      cases hphase

/-- Only the main strand of a session races or drains. -/
theorem Worker.waits_for_nobody
    (h : Worker worker) :
    (∀ number, worker.status ≠ .racing number) ∧
      (∀ batch recorded, worker.status ≠ .draining batch recorded) ∧
        ∀ n, worker.status ≠ .settling n := by
  rcases h.status with hstatus | ⟨deadline, ticket, hstatus⟩ | ⟨o, hstatus⟩
  · simp [hstatus]
  · simp [hstatus]
  · simp [hstatus]

theorem Waits.races_nothing
    {v : Sight}
    (h : Waits v main)
    (number : Nat) :
    main.status ≠ .racing number := by
  cases h with
  | before hstatus =>
      simp [hstatus]
  | during hstatus =>
      simp [hstatus]
  | back hstatus =>
      simp [hstatus]
  | ended hstatus =>
      simp [hstatus]

/-- Each strand of a session is a task of its own, and the main strand races its own call. -/
theorem Scene.solo
    (h : Scene subject body w.sight) :
    w.Solo := by
  have hboth : ∀ {main worker : Strand}, w.strands = [main, worker] → main.task = 0 → Worker worker →
      (∀ (number : Nat) (call : Call), main.status = .racing number → w.calls[number]? = some call →
        call.owner = 0 ∧ ∃ body, call.phase = .racing body) → w.Solo := by
    intro main worker hstrands htask hworker hrace
    constructor
    · intro id strand hstrand
      rw [hstrands] at hstrand
      match id with
      | 0 =>
          cases hstrand
          exact htask
      | 1 =>
          cases hstrand
          exact hworker.task
      | id + 2 =>
          cases hstrand
    · intro id number strand call hstrand hracing hcall
      rw [hstrands] at hstrand
      match id with
      | 0 =>
          cases hstrand
          exact hrace number call hracing hcall
      | 1 =>
          cases hstrand
          exact (hworker.waits_for_nobody.1 number hracing).elim
      | id + 2 =>
          cases hstrand
  cases h with
  | @ahead main hstrands hcalls htask hready hrest hdeliveries hpending hruntime =>
      have hstrands : w.strands = [main] := hstrands
      constructor
      · intro id strand hstrand
        rw [hstrands] at hstrand
        cases id with
        | zero =>
            cases hstrand
            exact htask
        | succ id =>
            cases hstrand
      · intro id number strand call hstrand hracing hcall
        have hcalls : w.calls = [] := hcalls
        rw [hcalls] at hcall
        cases hcall
  | @racing main worker call hstrands hcalls hracer hworker hraced hpending =>
      refine hboth hstrands hracer.task hworker fun number other hracing hother => ?_
      rw [hracer.status] at hracing
      cases hracing
      have hcalls : w.calls = [call] := hcalls
      rw [hcalls] at hother
      cases hother
      exact ⟨hraced.owner, 1, hraced.phase⟩
  | decided hstrands hcalls htask hworker hphase hown hwaits =>
      exact hboth hstrands htask hworker fun number _ hracing _ => (hwaits.races_nothing number hracing).elim

/-- At most the main strand waits for a delivery. -/
theorem Scene.length_drainers_le
    (h : Scene subject body w.sight)
    (id : Nat) :
    (w.drainers id).length ≤ 1 := by
  have hboth : ∀ {main worker : Strand}, w.strands = [main, worker] → Worker worker →
      (w.drainers id).length ≤ 1 := by
    intro main worker hstrands hworker
    have hsplit : w.strands = [main] ++ [worker] := hstrands
    have hnobody : World.drainers { w with strands := [worker] } id = [] := by
      rcases hworker.status with hstatus | ⟨deadline, ticket, hstatus⟩ | ⟨o, hstatus⟩
      · simp [World.drainers, hstatus]
      · simp [World.drainers, hstatus]
      · simp [World.drainers, hstatus]
    have happend : w.drainers id =
        World.drainers { w with strands := [main] } id ++
          World.drainers { w with strands := [worker] } id := by
      simp only [World.drainers, hsplit, List.filterMap_append]
    rw [happend, hnobody, List.append_nil]
    exact List.length_filterMap_le _ _
  cases h with
  | ahead hstrands =>
      have hstrands : w.strands = [_] := hstrands
      rw [World.drainers, hstrands]
      exact List.length_filterMap_le _ _
  | racing hstrands hcalls hracer hworker =>
      exact hboth hstrands hworker
  | decided hstrands hcalls htask hworker =>
      exact hboth hstrands hworker

/-- What a whole turn does to a session. -/
structure Turned (source : InterruptSource) (child : ChildRun) (subject : Subject) (body : Script)
    (t : TaskId) (w after : World) : Prop where
  scene : Scene subject body after.sight
  pace : Pace source child (Outlook source child False) after.sight
  rouses : Rouses t w after
  idle : ¬ after.IsDue t
  load : after.load ≤ w.load

theorem turned_main
    {hurry : Prop}
    {lead : Script}
    {fuel : Nat}
    (hbody : body = alarms child.interrupts ++ lead)
    (hlead : Lead child lead)
    (hplain : ∀ step ∈ body, step.isPlain = true)
    (hscene : Scene subject body w.sight)
    (hpace : Pace source child (Outlook source child hurry) w.sight)
    (hfuel : w.load ≤ fuel) :
    Turned source child subject body (.strand 0) w (turn fuel 0 w) := by
  let P (u : World) : Prop := Scene subject body u.sight ∧
    Pace source child (Outlook source child True) u.sight ∧ Rouses (.strand 0) w u
  have hstart : P w := ⟨hscene, hpace.imp fun _ _ _ _ _ _ h => h.congr rfl rfl fun _ => trivial, .refl⟩
  have hstep : ∀ u, P u → Schedule.goesOn u 0 = true → P (u.advance 0) ∧ (u.advance 0).load < u.load := by
    rintro u ⟨hscene, hpace, hrouses⟩ hgoes
    rw [(hscene.goesOn 0).1] at hgoes
    have hstrides := strides_main hbody hlead hscene hpace hgoes
    exact ⟨⟨hscene.advance hplain 0, hstrides.pace, hrouses.trans hstrides.rouses⟩, hstrides.load⟩
  obtain ⟨⟨hscene', hpace', hrouses⟩, hload, hends⟩ :=
    Schedule.turn_ends (fun u hu => (hu.1.goesOn 0).2) hstep hstart hfuel
  rw [(hscene'.goesOn 0).1] at hends
  refine ⟨hscene', hpace'.imp fun main worker call hstrands hcalls hraced h => ?_, hrouses, ?_, hload⟩
  · obtain ⟨hracer, hworker⟩ := hscene'.race hstrands hcalls hraced
    refine h.looked hstrands hworker hraced ?_
    rw [canAdvance_racer hstrands hcalls hracer hraced] at hends
    simpa using hends
  · intro hdue
    exact absurd (hends.symm.trans hdue) (by simp)

theorem turned_operation
    {fuel : Nat}
    (hplain : ∀ step ∈ body, step.isPlain = true)
    (hscene : Scene subject body w.sight)
    (hpace : Pace source child (Outlook source child False) w.sight)
    (hfuel : w.load ≤ fuel) :
    Turned source child subject body (.strand 1) w (turn fuel 1 w) := by
  let P (u : World) : Prop := Scene subject body u.sight ∧
    Pace source child (Doing source child) u.sight ∧ Rouses (.strand 1) w u
  have hstart : P w := ⟨hscene, hpace.imp fun _ _ _ _ _ _ h => h.doing, .refl⟩
  have hstep : ∀ u, P u → Schedule.goesOn u 1 = true → P (u.advance 1) ∧ (u.advance 1).load < u.load := by
    rintro u ⟨hscene, hpace, hrouses⟩ hgoes
    rw [(hscene.goesOn 1).1] at hgoes
    have hstrides := strides_operation hscene hpace hgoes
    exact ⟨⟨hscene.advance hplain 1, hstrides.pace, hrouses.trans hstrides.rouses⟩, hstrides.load⟩
  obtain ⟨⟨hscene', hpace', hrouses⟩, hload, hends⟩ :=
    Schedule.turn_ends (fun u hu => (hu.1.goesOn 1).2) hstep hstart hfuel
  rw [(hscene'.goesOn 1).1] at hends
  refine ⟨hscene', hpace'.imp fun main worker call hstrands hcalls hraced h => ?_, hrouses, ?_, hload⟩
  · obtain ⟨-, hworker⟩ := hscene'.race hstrands hcalls hraced
    have hnot := mt (canAdvance_worker hstrands hworker).mpr (by simp [hends])
    refine h.outlook (fun hready => hnot (.inl hready)) fun deadline ticket hsleeps => ?_
    exact Nat.lt_of_not_le fun hdue => hnot (.inr ⟨deadline, ticket, hsleeps, hdue⟩)
  · intro hdue
    exact absurd (hends.symm.trans hdue) (by simp)

/-- A strand that there is not has nothing to do in its turn. -/
theorem turned_nobody
    {fuel id : Nat}
    (hscene : Scene subject body w.sight)
    (hpace : Pace source child (Outlook source child False) w.sight)
    (hnobody : 2 ≤ id) :
    Turned source child subject body (.strand id) w (turn fuel id w) := by
  have hnever : w.canAdvance id = false := by
    have hnone : w.strands[id]? = none :=
      List.getElem?_eq_none (Nat.le_trans hscene.statuses.2 hnobody)
    simp [World.canAdvance, hnone]
  have hsame : turn fuel id w = w := by
    cases fuel with
    | zero =>
        rfl
    | succ fuel =>
        rw [turn, (hscene.goesOn id).2, List.foldl_nil, (hscene.goesOn id).1, hnever]
        rfl
  rw [hsame]
  refine ⟨hscene, hpace, .refl, fun hdue => ?_, Nat.le_refl _⟩
  exact absurd (hnever.symm.trans hdue) (by simp)

/-- The pace is seen from strands, calls, listeners and the clock. -/
theorem Pace.congr
    {hurry later : Prop}
    {v after : Sight}
    (h : Pace source child (Outlook source child hurry) v)
    (hstrands : after.strands = v.strands)
    (hcalls : after.calls = v.calls)
    (hsource : after.source = v.source)
    (hchannel : after.channel = v.channel)
    (hclock : after.clock = v.clock)
    (hlater : hurry → later) :
    Pace source child (Outlook source child later) after where
  few := hchannel ▸ h.few
  ahead := fun hnone => by
    rw [hsource, hclock, hchannel]
    exact h.ahead (hcalls ▸ hnone)
  racing := fun main worker call hboth hone hraced =>
    (h.racing main worker call (hstrands ▸ hboth) (hcalls ▸ hone) hraced).congr hchannel hclock hlater
  decided := fun call s hone hphase => h.decided call s (hcalls ▸ hone) hphase

theorem turned_delivery
    {id : Nat}
    (hscene : Scene subject body w.sight)
    (hpace : Pace source child (Outlook source child False) w.sight) :
    Turned source child subject body (.delivery id) w (w.deliver id) := by
  have hkept : ∀ v, w.Handles id v → Pace source child (Outlook source child False) v := by
    intro v hhandles
    cases hhandles with
    | idle hidle =>
        exact hpace
    | goes hd hpast hwakes =>
        exact hpace.congr rfl rfl rfl rfl rfl False.elim
  exact ⟨hscene.deliver id, hkept _ (w.handles_deliver id), w.rouses_deliver hscene.solo id,
    w.not_isDue_deliver id, Schedule.load_deliver_le w (hscene.length_drainers_le id)⟩

end Turns

/-! ## Schedules -/

/-- What holds of the schedule of a session between turns: it is in one of its scenes, nobody who is due is
forgotten, and where there is a hurry the main strand comes next. -/
structure Timely (source : InterruptSource) (child : ChildRun) (subject : Subject) (body : Script)
    (s : Schedule) : Prop where
  scene : Scene subject body s.world.sight
  pace : Pace source child (Outlook source child (s.mainWoken = true ∧ s.mainNext = true)) s.world.sight
  awake : s.Awake

section Schedules

variable {s : Schedule} {t : TaskId} {world : World}

/-- After a whole turn all is as it should be between turns. -/
theorem Turned.timely
    (h : Turned source child subject body t s.world world)
    (hadmits : s.Admits t) :
    Timely source child subject body (Schedule.gatherAfter { s with world } t) ∧
      (Schedule.gatherAfter { s with world } t).load ≤ s.load := by
  have hworld := Schedule.world_gatherAfter { s with world } t
  refine ⟨⟨?_, ?_, Schedule.awake_of_rouses hadmits h.rouses h.idle⟩, ?_⟩
  · rw [hworld]
    exact h.scene.congr rfl rfl rfl rfl (fun _ hn => hn) rfl
  · rw [hworld]
    exact h.pace.congr rfl rfl rfl rfl rfl False.elim
  · have hgathered := Schedule.load_gatherAfter_le { s with world } t
    have hless := h.load
    have hafter : Schedule.load { s with world } = world.load + s.tokens := rfl
    have hbefore : s.load = s.world.load + s.tokens := rfl
    omega

/-- Whoever has the next turn, all is as it should be after it. A hurry is over with the turn of the main
strand. -/
theorem timely_poll
    {hurry : Prop}
    {lead : Script}
    {fuel : Nat}
    (hadmits : s.Admits t)
    (hbody : body = alarms child.interrupts ++ lead)
    (hlead : Lead child lead)
    (hplain : ∀ step ∈ body, step.isPlain = true)
    (hscene : Scene subject body s.world.sight)
    (hpace : Pace source child (Outlook source child hurry) s.world.sight)
    (hcalm : t ≠ .main → ¬ hurry)
    (hfuel : s.world.load ≤ fuel) :
    Timely source child subject body (poll fuel s t) ∧ (poll fuel s t).load ≤ s.load := by
  have hstrand : ∀ id, Turned source child subject body (.strand id) s.world (turn fuel id s.world) →
      poll fuel s (.strand id) =
        Schedule.gatherAfter { s with world := turn fuel id s.world } (.strand id) := by
    intro id hturned
    exact Schedule.poll_strand (fun strand hstrand => (hscene.statuses.1 strand hstrand).1)
      fun strand hstrand => (hturned.scene.statuses.1 strand hstrand).1
  have hquiet : t ≠ .main → Pace source child (Outlook source child False) s.world.sight := fun hne =>
    hpace.congr rfl rfl rfl rfl rfl (hcalm hne)
  match t with
  | .strand 0 =>
      have hturned := turned_main hbody hlead hplain hscene hpace hfuel
      rw [hstrand 0 hturned]
      exact hturned.timely hadmits
  | .strand 1 =>
      have hturned := turned_operation hplain hscene (hquiet nofun) hfuel
      rw [hstrand 1 hturned]
      exact hturned.timely hadmits
  | .strand (id + 2) =>
      have hturned : Turned source child subject body (.strand (id + 2)) s.world
          (turn fuel (id + 2) s.world) :=
        turned_nobody hscene (hquiet nofun) (Nat.le_add_left 2 id)
      rw [hstrand (id + 2) hturned]
      exact hturned.timely hadmits
  | .delivery id =>
      exact (turned_delivery hscene (hquiet nofun)).timely hadmits

/-- Nobody is due when nobody waits for a turn. -/
theorem Timely.nobody_due
    (h : Timely source child subject body s)
    (hqueue : s.queue = [])
    (hwoken : s.mainWoken = false)
    (u : TaskId) :
    ¬ s.world.IsDue u := by
  intro hu
  rcases h.awake.waits u hu with ⟨-, hmain⟩ | hmem
  · rw [hwoken] at hmain
    cases hmain
  · rw [hqueue] at hmem
    cases hmem

/-- An operation that sleeps has a time that it waits for. -/
theorem mem_timers_of_sleeping
    {w : World}
    {main worker : Strand}
    {deadline ticket : Nat}
    (hstrands : w.strands = [main, worker])
    (hsleeps : worker.status = .sleeping deadline ticket)
    (hahead : w.clock < deadline) :
    ⟨deadline, ticket, .strand worker.task⟩ ∈ Schedule.timers w := by
  refine List.mem_filter.mpr ⟨List.mem_append_left _ (List.mem_append_left _ ?_), decide_eq_true hahead⟩
  exact List.mem_filterMap.mpr ⟨worker, by simp [hstrands], by simp [hsleeps]⟩

/-- A session that has not made its call can do so. -/
theorem Scene.begins
    {w : World}
    (h : Scene subject body w.sight)
    (hnone : w.sight.calls = []) :
    w.canAdvance 0 = true := by
  cases h with
  | ahead hstrands hcalls htask hready =>
      have hstrands : w.strands = [_] := hstrands
      simp [World.canAdvance, hstrands, hready]
  | racing hstrands hcalls =>
      rw [hcalls] at hnone
      cases hnone
  | decided hstrands hcalls =>
      rw [hcalls] at hnone
      cases hnone

theorem tokens_next_le
    (s : Schedule) :
    Schedule.tokens { s with mainNext := true } ≤ s.tokens := by
  simp only [Schedule.tokens, if_true]
  split
  · split
    · exact Nat.le_refl _
    · omega
  · exact Nat.le_refl _

/-- Less is left to be done when the clock has moved on. -/
theorem load_later_lt
    {time : Nat}
    (htime : Schedule.nextTime? s.world = some time) :
    Schedule.load
        { Schedule.gather { s with world := Schedule.moveTo s.world time } with mainNext := true } <
      s.load := by
  let moved : Schedule := { s with world := Schedule.moveTo s.world time }
  have hmoved : moved.world.load < s.world.load := Schedule.load_moveTo_lt htime
  have hgathered : (Schedule.gather moved).load ≤ moved.load := Schedule.load_gather_le moved
  have hnext := tokens_next_le (Schedule.gather moved)
  calc
    Schedule.load { Schedule.gather moved with mainNext := true }
      ≤ (Schedule.gather moved).load := Nat.add_le_add_left hnext _
    _ ≤ moved.world.load + s.tokens := hgathered
    _ < s.load := Nat.add_lt_add_right hmoved _

/-- All is as it should be when the clock has moved on. Whoever is to decide the race is in a hurry then, but
comes next. -/
theorem Timely.waits_on
    {time : Nat}
    (h : Timely source child subject body s)
    (hqueue : s.queue = [])
    (hwoken : s.mainWoken = false)
    (htime : Schedule.nextTime? s.world = some time) :
    let later := { Schedule.gather { s with world := Schedule.moveTo s.world time } with mainNext := true }
    Timely source child subject body later ∧ later.load < s.load := by
  intro later
  obtain ⟨hahead, hleast, -⟩ := Schedule.exists_of_nextTime? htime
  have hawake : later.Awake := h.awake.waits_on h.scene.solo (Nat.le_of_lt hahead)
  have hworld : later.world = { Schedule.moveTo s.world time with woken := [] } :=
    Schedule.world_gather { s with world := Schedule.moveTo s.world time }
  have hclock : later.world.clock = time := by
    rw [hworld]
    exact Nat.max_eq_right (Nat.le_of_lt hahead)
  have hscene : Scene subject body later.world.sight := by
    rw [hworld]
    exact h.scene.congr rfl rfl rfl rfl (fun _ hn => hn) rfl
  have hmain : later.world.canAdvance 0 = true → later.mainWoken = true := by
    intro hdue
    rcases hawake.waits (.strand 0) hdue with ⟨-, hnext⟩ | hmem
    · exact hnext
    · refine (Schedule.main_not_mem_foldl_enqueue _ _ ?_ hmem).elim
      change TaskId.main ∉ s.queue
      rw [hqueue]
      exact List.not_mem_nil
  have hstrands : later.world.sight.strands = s.world.sight.strands := by
    rw [hworld]
    rfl
  have hcalls : later.world.sight.calls = s.world.sight.calls := by
    rw [hworld]
    rfl
  have hchannel : later.world.sight.channel = s.world.sight.channel := by
    rw [hworld]
    rfl
  refine ⟨⟨hscene, ⟨hchannel ▸ h.pace.few, ?_, ?_, ?_⟩, hawake⟩, ?_⟩
  · intro hnone
    exact (h.nobody_due hqueue hwoken (.strand 0) (h.scene.begins (hcalls.symm.trans hnone))).elim
  · intro main worker call hboth hone hraced
    have hboth' : s.world.strands = [main, worker] := hstrands.symm.trans hboth
    have hone' : s.world.calls = [call] := hcalls.symm.trans hone
    obtain ⟨hracer, hworker⟩ := h.scene.race hboth' hone' hraced
    have hnot := mt (canAdvance_worker hboth' hworker).mpr (h.nobody_due hqueue hwoken (.strand 1))
    have hearly : ∀ deadline ticket, worker.status = .sleeping deadline ticket →
        s.world.clock < deadline := fun deadline ticket hsleeps =>
      Nat.lt_of_not_le fun hdue => hnot (.inr ⟨deadline, ticket, hsleeps, hdue⟩)
    refine (h.pace.racing main worker call hboth' hone' hraced).waits_on (fun hready => hnot (.inl hready))
      (fun deadline ticket hsleeps => ?_) hchannel hclock fun hopen hsignal => ⟨hmain ?_, rfl⟩
    · exact hleast _ (mem_timers_of_sleeping hboth' hsleeps (hearly deadline ticket hsleeps))
    · rw [canAdvance_racer hboth hone hracer hraced, isSome_settlement? hboth hworker hraced hopen, hclock]
      exact hsignal
  · exact fun call settlement hone hphase => h.pace.decided call settlement (hcalls ▸ hone) hphase
  · exact load_later_lt htime

/-- Whatever happens next, all is as it should be after it, and less is left to be done. -/
theorem Timely.next
    {lead : Script}
    {fuel : Nat}
    {after : Schedule}
    (hbody : body = alarms child.interrupts ++ lead)
    (hlead : Lead child lead)
    (hplain : ∀ step ∈ body, step.isPlain = true)
    (h : Timely source child subject body s)
    (hfuel : s.load ≤ fuel)
    (hnext : Schedule.step? fuel none s = some after) :
    Timely source child subject body after ∧ after.load < s.load := by
  have hless : s.world.load ≤ fuel := Nat.le_trans (Nat.le_add_right _ _) hfuel
  cases Schedule.next_of_step? h.awake.aside hnext with
  | main hwoken hfirst =>
      have hadmits : Schedule.Admits { s with mainWoken := false, mainNext := false } .main :=
        ⟨h.awake.aside, fun u hne hu => (h.awake.waits u hu).imp_left fun hmain => (hne hmain.1).elim⟩
      obtain ⟨htimely, hload⟩ := timely_poll hadmits hbody hlead hplain h.scene h.pace
        (fun hne => (hne rfl).elim) hless
      refine ⟨htimely, Nat.lt_of_le_of_lt hload ?_⟩
      simp [Schedule.load, Schedule.tokens, hwoken, hfirst]
  | @first t queue hqueue hmain =>
      have hadmits : Schedule.Admits { s with queue, mainNext := false } t := by
        refine ⟨h.awake.aside, fun u hne hu => (h.awake.waits u hu).imp_right fun hmem => ?_⟩
        rw [hqueue] at hmem
        exact (List.mem_cons.mp hmem).resolve_left hne
      have hcalm : t ≠ .main → ¬ (s.mainWoken = true ∧ s.mainNext = true) := by
        rintro - ⟨hwoken, hnext⟩
        rw [hmain hwoken] at hnext
        cases hnext
      obtain ⟨htimely, hload⟩ := timely_poll hadmits hbody hlead hplain h.scene h.pace hcalm hless
      refine ⟨htimely, Nat.lt_of_le_of_lt hload ?_⟩
      cases hwoken : s.mainWoken with
      | false =>
          simp [Schedule.load, Schedule.tokens, hqueue, hwoken]
      | true =>
          simp [Schedule.load, Schedule.tokens, hqueue, hwoken, hmain hwoken]
  | letIn hqueue hwoken hlater =>
      refine ⟨⟨h.scene, h.pace.congr rfl rfl rfl rfl rfl fun hhurry => ⟨hhurry.1, rfl⟩,
        ⟨h.awake.woken, h.awake.aside, h.awake.waits⟩⟩, ?_⟩
      simp [Schedule.load, Schedule.tokens, hwoken, hlater]
  | wait hqueue hwoken htime =>
      exact h.waits_on hqueue hwoken htime

end Schedules

/-! ## The end -/

section Ends

variable {s : Schedule} {w : World} {main worker : Strand} {call : Call}

theorem not_mem_timers
    (h : Schedule.nextTime? w = none)
    (t : Schedule.Timer) :
    t ∉ Schedule.timers w := by
  have hnone : Schedule.timers w = [] := List.map_eq_nil_iff.mp (List.min?_eq_none_iff.mp h)
  rw [hnone]
  exact List.not_mem_nil

/-- A delivery that is not over, though nobody is due and nothing waits for a time, is stuck. -/
theorem exists_stuck
    {n : Nat}
    (hidle : ∀ u, ¬ w.IsDue u)
    (hnever : Schedule.nextTime? w = none)
    (hopen : w.isDelivered n = false) :
    ∃ d ∈ w.deliveries, d.status = .stuck := by
  unfold World.isDelivered at hopen
  cases hd : w.deliveries[n]? with
  | none =>
      simp [hd] at hopen
  | some d =>
      simp only [hd] at hopen
      refine ⟨d, List.mem_of_getElem? hd, ?_⟩
      have hnot : d.isDue w.clock = false := by
        cases hdue : d.isDue w.clock with
        | false =>
            rfl
        | true =>
            exact (hidle (.delivery n) ⟨d, hd, hdue⟩).elim
      cases hstatus : d.status with
      | waiting =>
          simp [Delivery.isDue, hstatus] at hnot
      | delayed deadline ticket =>
          simp only [Delivery.isDue, hstatus, decide_eq_false_iff_not, Nat.not_le] at hnot
          refine (not_mem_timers hnever ⟨deadline, ticket, .delivery n⟩ (List.mem_filter.mpr ⟨?_, ?_⟩)).elim
          · refine List.mem_append_right _ (List.mem_filterMap.mpr ⟨(d, n), ?_, by simp [hstatus]⟩)
            exact List.mem_zipIdx_iff_getElem?.mpr hd
          · exact decide_eq_true hnot
      | stuck =>
          rfl
      | finished panicked =>
          simp [Delivery.isFinished, hstatus] at hopen

/-- How a session ends: its race has been decided by what comes first, and it is over with all its
deliveries, or waits for one that never ends. -/
structure Ended (source : InterruptSource) (child : ChildRun) (w : World) : Prop where
  progress : progress w = .decided (.ofInterrupt (child.interrupt? source))
  deliveries : (w.outcome? 0 = some (.ok .null) ∧ ∀ d ∈ w.deliveries, d.isFinished = true) ∨
    w.outcome? 0 = none ∧ ∃ d ∈ w.deliveries, d.status = .stuck

/-- A session that has nothing left to do has ended. -/
theorem Timely.ended
    (h : Timely source child subject body s)
    (hidle : s.IsIdle) :
    Ended source child s.world := by
  have hnothing : s.isOver = false →
      (∀ u, ¬ s.world.IsDue u) ∧ Schedule.nextTime? s.world = none := h.awake.idle hidle
  cases h.scene with
  | @ahead main hstrands hcalls htask hready hrest hdeliveries hpending hruntime =>
      have hstrands : s.world.strands = [main] := hstrands
      have hopen : s.isOver = false := by
        simp [Schedule.isOver, World.outcome?, hstrands, hready]
      exact ((hnothing hopen).1 (.strand 0) (h.scene.begins hcalls)).elim
  | @racing main worker call hstrands hcalls hracer hworker hraced hpending =>
      have hstrands : s.world.strands = [main, worker] := hstrands
      have hopen : s.isOver = false := by
        simp [Schedule.isOver, World.outcome?, hstrands, hracer.status]
      obtain ⟨hnobody, hnever⟩ := hnothing hopen
      have hnot := mt (canAdvance_worker hstrands hworker).mpr (hnobody (.strand 1))
      rcases hworker.status with hstatus | ⟨deadline, ticket, hstatus⟩ | ⟨o, hstatus⟩
      · exact (hnot (.inl hstatus)).elim
      · have hahead : s.world.clock < deadline :=
          Nat.lt_of_not_le fun hdue => hnot (.inr ⟨deadline, ticket, hstatus, hdue⟩)
        exact (not_mem_timers hnever _ (mem_timers_of_sleeping hstrands hstatus hahead)).elim
      · refine (hnobody (.strand 0) ?_).elim
        change s.world.canAdvance 0 = true
        rw [canAdvance_racer hstrands hcalls hracer hraced, settlement?_eq hstrands hworker hraced, hstatus]
        rfl
  | @decided main worker call settlement hstrands hcalls htask hworker hphase hown hwaits =>
      have hstrands : s.world.strands = [main, worker] := hstrands
      have hcalls : s.world.calls = [call] := hcalls
      have hprogress : progress s.world = .decided (.ofInterrupt (child.interrupt? source)) := by
        rw [← h.pace.decided call settlement hcalls hphase]
        simp [progress, hcalls, hphase]
      refine ⟨hprogress, ?_⟩
      have hready : main.status = .ready → False := by
        intro hready
        have hopen : s.isOver = false := by
          simp [Schedule.isOver, World.outcome?, hstrands, hready]
        refine (hnothing hopen).1 (.strand 0) ?_
        simp [World.IsDue, World.canAdvance, hstrands, hready]
      cases hwaits with
      | before hstatus =>
          exact (hready hstatus).elim
      | @during batch hstatus hrest hnone hbatch =>
          have hopen : s.isOver = false := by
            simp [Schedule.isOver, World.outcome?, hstrands, hstatus]
          obtain ⟨hnobody, hnever⟩ := hnothing hopen
          have hstays : ¬ s.world.canAdvance 0 = true := hnobody (.strand 0)
          simp only [World.canAdvance, hstrands, List.getElem?_cons_zero, hstatus, Bool.or_eq_true, not_or,
            Bool.not_eq_true] at hstays
          obtain ⟨n, hn⟩ := List.exists_mem_of_ne_nil batch (by simpa using hstays.1)
          have hlate : s.world.isDelivered n = false := by
            simpa using List.any_eq_false.mp hstays.2 n hn
          exact .inr ⟨by simp [World.outcome?, hstrands, hstatus], exists_stuck hnobody hnever hlate⟩
      | back hstatus =>
          exact (hready hstatus).elim
      | ended hstatus hnone hover =>
          exact .inl ⟨by simp [World.outcome?, hstrands, hstatus], fun d hd =>
            Sight.isFinished_of_delivered hover hd⟩

/-- A session is on time at the beginning. -/
theorem timely_start
    (reporter : Reporter)
    (stamps : Nat → Int)
    (plans : List DeliveryPlan) :
    Timely source child subject body
      { Schedule.start (World.start reporter true stamps source plans) with
        world := (World.start reporter true stamps source plans).beginScript (operation subject body)
        mainWoken := true
        mainNext := true } where
  scene := .ahead rfl rfl rfl rfl rfl rfl rfl rfl
  pace :=
    { few := Nat.zero_le _
      ahead := fun _ => ⟨rfl, rfl, rfl⟩
      racing := fun _ _ _ _ hone => by cases hone
      decided := fun _ _ hone => by cases hone }
  awake :=
    { woken := rfl
      aside := rfl
      waits := by
        intro u hu
        match u with
        | .strand 0 =>
            exact .inl ⟨rfl, rfl⟩
        | .strand (id + 1) =>
            cases hu
        | .delivery id =>
            obtain ⟨d, hd, -⟩ := hu
            cases hd }

/-- The turns that a session is given are enough. -/
theorem load_start_lt
    (w : World)
    (script : Script) :
    32 * weights script + 1 < Schedule.enough w script := by
  simp only [Schedule.enough]
  generalize w.strands.foldl (fun n strand => n + weights strand.rest) 0 = left
  have hsize : weights script + 8 ≤ weights script + left + w.deliveries.length + 8 := by omega
  generalize weights script + left + w.deliveries.length + 8 = size at hsize
  have hsquare : 64 * size * 1 ≤ 64 * size * size := Nat.mul_le_mul_left _ (by omega)
  omega

/-- A session that is carried out on a schedule comes to its end. -/
theorem ended_run
    (reporter : Reporter)
    (stamps : Nat → Int)
    (plans : List DeliveryPlan)
    (projectName : Option String)
    (program : String)
    (args : List String) :
    Ended source child
      (run (World.start reporter true stamps source plans) projectName (program :: args) child) := by
  obtain ⟨lead, hbody, hlead⟩ := exists_lead program args child
  have hplain := isPlain_work program args child
  let w := World.start reporter true stamps source plans
  let subject : Subject := .session (arguments projectName (program :: args))
  let begun : Schedule :=
    { Schedule.start w with
      world := w.beginScript (operation subject (work (program :: args) child))
      mainWoken := true
      mainNext := true }
  have hstart : Timely source child subject (work (program :: args) child) begun :=
    timely_start reporter stamps plans
  have hload : begun.load < Schedule.enough w (script projectName (program :: args) child) := by
    have hbegun : begun.load = 32 * weights (script projectName (program :: args) child) + 1 := rfl
    rw [hbegun]
    exact load_start_lt w _
  obtain ⟨htimely, rest, hends⟩ := Schedule.run_ends
    (fun fuel s after hs hfuel hnext => hs.next hbody hlead hplain hfuel hnext) hstart hload
  exact htimely.ended (Schedule.isIdle_of_step? htimely.awake.aside hends)

end Ends
end Session
end LifecycleTelemetry
