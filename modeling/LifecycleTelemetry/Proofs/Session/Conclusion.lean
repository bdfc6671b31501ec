import LifecycleTelemetry.Proofs.Session.Closing
import LifecycleTelemetry.Proofs.Session.Timetable

/-!
# What running a command comes to

A command is run as a session. What the session comes to, and what is reported of it, is told by its closing:
by the interrupt that has come before the program has ended, or else by what the program has come to. Neither
the metrics file nor the permission, the collector or what becomes of deliveries has a part in it, as long as
a notice that is due can be printed; they decide on whether anything is handed over, and on whether the
session returns.

`session_concludes` says so for the session that the program carries out, where an interrupt comes first if
it is there by the time at which the program ends, and for sessions whose parties take their turns in any
order, where an interrupt comes first if the operation is not over when it is found.
-/

namespace LifecycleTelemetry

/-- Among the things that happen no task is aborted. -/
def Unaborted (ms : List Move) : Prop :=
  ∀ m ∈ ms, ∀ task, m ≠ .abort task

/-- What comes first in a session whose race is looked at now: the operation, if it is over, or else the
signal that its listener has got. -/
inductive World.ComesFirst (w : World) : Option Signal → Prop where
  | operation
      {o : Outcome}
      (hover : w.outcome? 1 = some o) :
      ComesFirst w none
  | signal
      {call : Call}
      {s : Signal}
      (hcall : w.calls[0]? = some call)
      (hruns : w.outcome? 1 = none)
      (hsignal : call.listener.signal? w.clock w.channel = some s) :
      ComesFirst w (some s)

open Program (reporterOf worldOf)

namespace Session

/-! ## What comes first -/

section First

variable {subject : Subject} {body : Script} {w after : World} {main worker : Strand} {call : Call}

theorem exists_ofInterrupt
    {a : Arbiter}
    (h : a ≠ .abortion) :
    ∃ interrupt, a = .ofInterrupt interrupt := by
  cases a with
  | operation =>
      exact ⟨none, rfl⟩
  | abortion =>
      exact (h rfl).elim
  | signal s =>
      exact ⟨some s, rfl⟩

/-- What comes first decides the race. -/
theorem comesFirst_iff
    (hstrands : w.strands = [main, worker])
    (hcalls : w.calls = [call])
    (hworker : Worker worker)
    (hraced : Raced call)
    (interrupt : Option Signal) :
    w.ComesFirst interrupt ↔ ∃ s, w.settlement? call = some s ∧ s.arbiter = .ofInterrupt interrupt := by
  have hcall : w.calls[0]? = some call := by rw [hcalls]; rfl
  constructor
  · rintro (@⟨o, hover⟩ | @⟨other, signal, hother, hruns, hsignal⟩)
    · refine ⟨_, World.settlement?_of_ended hraced.phase hover, ?_⟩
      cases o with
      | _ =>
          rfl
    · rw [hcall] at hother
      cases hother
      have hwhole : ∀ strand, w.strands[1]? = some strand → strand.status ≠ .aborted := by
        intro strand hstrand haborted
        rw [hstrands] at hstrand
        cases hstrand
        rcases hworker.status with hstatus | ⟨deadline, ticket, hstatus⟩ | ⟨o, hstatus⟩
        · simp [hstatus] at haborted
        · simp [hstatus] at haborted
        · simp [hstatus] at haborted
      have hcause : w.Cause call (.interrupted signal) := .interrupted hraced.phase hruns hwhole hsignal
      exact ⟨.interrupted signal, World.settlement?_of_cause hcause, rfl⟩
  · rintro ⟨s, hsettled, harbiter⟩
    cases World.cause_of_settlement? hsettled with
    | @ended n o hphase hover =>
        rw [hraced.phase] at hphase
        cases hphase
        cases interrupt with
        | none =>
            exact .operation hover
        | some signal =>
            cases o with
            | _ =>
                cases harbiter
    | aborted hphase hstrand haborted =>
        exact absurd hsettled (fun h => arbiter_ne_abortion hstrands hworker hraced h rfl)
    | @interrupted n signal hphase hruns hwhole hsignal =>
        rw [hraced.phase] at hphase
        cases hphase
        cases interrupt with
        | none =>
            cases harbiter
        | some other =>
            cases harbiter
            exact .signal hcall hruns hsignal

/-- The main strand decides the race by what comes first when it looks at it. -/
theorem decided_look_iff
    (hstrands : w.strands = [main, worker])
    (hcalls : w.calls = [call])
    (hracer : Racer main)
    (hworker : Worker worker)
    (hraced : Raced call)
    (a : Arbiter) :
    progress (w.advance 0) = .decided a ↔
      ∃ interrupt, w.ComesFirst interrupt ∧ a = .ofInterrupt interrupt := by
  have hfirst := comesFirst_iff hstrands hcalls hworker hraced
  cases hsettled : w.settlement? call with
  | none =>
      have hopen : progress w = .underWay := by simp [progress, hcalls, hraced.phase]
      rw [(advance_undecided hstrands hcalls hracer hraced hsettled).2, hopen]
      refine iff_of_false (by simp) ?_
      rintro ⟨interrupt, hcomes, -⟩
      obtain ⟨s, hs, -⟩ := (hfirst interrupt).mp hcomes
      rw [hsettled] at hs
      cases hs
  | some s =>
      have hdecided : progress (w.advance 0) = .decided s.arbiter := by
        have hsight := congrArg Sight.calls (sight_deciding hstrands hcalls hracer hraced hsettled)
        change (w.advance 0).calls = _ at hsight
        simp [progress, hsight]
      rw [hdecided, Progress.decided.injEq]
      constructor
      · rintro rfl
        have hown := arbiter_ne_abortion hstrands hworker hraced hsettled
        obtain ⟨interrupt, hinterrupt⟩ := exists_ofInterrupt hown
        exact ⟨interrupt, (hfirst interrupt).mpr ⟨s, hsettled, hinterrupt⟩, hinterrupt⟩
      · rintro ⟨interrupt, hcomes, rfl⟩
        obtain ⟨other, hs, harbiter⟩ := (hfirst interrupt).mp hcomes
        rw [hsettled] at hs
        cases hs
        exact harbiter

/-- As long as the main strand does not look at the race, it stays as it is. -/
theorem underWay_of_aside
    (hstrands : w.strands = [main, worker])
    (hcalls : w.calls = [call])
    (hworker : Worker worker)
    (hraced : Raced call)
    {m : Move}
    (hm : ∀ task, m ≠ .abort task)
    (haside : m ≠ .advance 0) :
    progress (w.move m) = .underWay := by
  have hopen : progress w = .underWay := by simp [progress, hcalls, hraced.phase]
  have hstays : ∀ id, w.canAdvance id = false → progress (w.advance id) = .underWay := by
    intro id hnot
    rw [w.advance_of_stuck hnot, hopen]
  cases m with
  | deliver id =>
      exact (progress_of_phases (congrArg _ (w.background_deliver id).calls)).trans hopen
  | pass time =>
      exact hopen
  | signal s =>
      exact hopen
  | abort task =>
      exact (hm task rfl).elim
  | advance id =>
      rcases eq_or_stuck hstrands id with rfl | rfl | hnobody
      · exact (haside rfl).elim
      · by_cases hgoes : w.canAdvance 1 = true
        · obtain ⟨next, contributions, -, hsight, -⟩ :=
            (labour_advance hstrands hcalls hworker hgoes).keeps hcalls hworker
          have hcalls' : (w.advance 1).calls = [{ call with contributions }] := hsight
          simp [progress, World.move, hcalls', hraced.phase]
        · exact hstays 1 (by simpa using hgoes)
      · exact hstays id hnobody

/-- A race that is under way is decided by what comes first, in the turn in which the main strand looks at
it. -/
theorem Scene.decided_move_iff
    (h : Scene subject body w.sight)
    (hopen : progress w = .underWay)
    {m : Move}
    (hm : ∀ task, m ≠ .abort task)
    (a : Arbiter) :
    progress (w.move m) = .decided a ↔
      m = .advance 0 ∧ ∃ interrupt, w.ComesFirst interrupt ∧ a = .ofInterrupt interrupt := by
  cases h with
  | ahead hstrands hcalls =>
      have hcalls : w.calls = [] := hcalls
      simp [progress, hcalls] at hopen
  | decided hstrands hcalls htask hworker hphase =>
      have hcalls : w.calls = [_] := hcalls
      simp [progress, hcalls, hphase] at hopen
  | racing hstrands hcalls hracer hworker hraced =>
      by_cases hlooks : m = .advance 0
      · subst hlooks
        simpa [World.move] using decided_look_iff hstrands hcalls hracer hworker hraced a
      · rw [underWay_of_aside hstrands hcalls hworker hraced hm hlooks]
        exact iff_of_false (by simp) fun hlook => hlooks hlook.1

/-- A race is under way until it is decided. -/
theorem decided_before
    {a : Arbiter}
    (howned : w.RacesOwned)
    (hchange : World.Change w after)
    (h : progress after = .decided a) :
    progress w = .underWay ∨ progress w = .decided a := by
  obtain ⟨s, hs, harbiter⟩ := decided_iff.mp h
  rcases settled_before howned hchange hs with hold | ⟨id, strand, call, hstrand, hracing, hcall, hsettled⟩
  · exact .inr (decided_iff.mpr ⟨s, hold, harbiter⟩)
  · obtain ⟨n, hphase⟩ := World.racing_of_settlement? hsettled
    refine .inl ?_
    unfold progress
    cases hcalls : w.calls with
    | nil =>
        simp [hcalls] at hcall
    | cons first rest =>
        obtain rfl : first = call := by simpa [hcalls] using hcall
        simp [hphase]

/-- A session that is over has been decided, and so are all its deliveries over. -/
theorem Scene.returned
    {o : Outcome}
    (h : Scene subject body w.sight)
    (hover : w.outcome? 0 = some o) :
    (∃ interrupt, progress w = .decided (.ofInterrupt interrupt)) ∧
      ∀ d ∈ w.deliveries, d.isFinished = true := by
  obtain ⟨strand, hstrand, hstatus⟩ := World.outcome?_eq_some_iff.mp hover
  cases h with
  | ahead hstrands hcalls htask hready =>
      have hstrands : w.strands = [_] := hstrands
      rw [hstrands] at hstrand
      cases hstrand
      rw [hready] at hstatus
      cases hstatus
  | racing hstrands hcalls hracer =>
      have hstrands : w.strands = [_, _] := hstrands
      rw [hstrands] at hstrand
      cases hstrand
      rw [hracer.status] at hstatus
      cases hstatus
  | @decided main worker call s hstrands hcalls htask hworker hphase hown hwaits =>
      have hstrands : w.strands = [main, worker] := hstrands
      have hcalls : w.calls = [call] := hcalls
      rw [hstrands] at hstrand
      cases hstrand
      obtain ⟨interrupt, hinterrupt⟩ := exists_ofInterrupt hown
      refine ⟨⟨interrupt, by simp [progress, hcalls, hphase, hinterrupt]⟩, fun d hd => ?_⟩
      cases hwaits with
      | ended hfinished hnone hall =>
          exact Sight.isFinished_of_delivered hall hd
      | before hready =>
          rw [hready] at hstatus
          cases hstatus
      | during hdrains =>
          rw [hdrains] at hstatus
          cases hstatus
      | back hready =>
          rw [hready] at hstatus
          cases hstatus

/-- A session has been decided exactly when some turn of the main strand has done so, by what came first. -/
theorem Scene.decided_moves_iff
    (h : Scene subject body w.sight)
    (hbody : ∀ step ∈ body, step.isPlain = true)
    (howned : w.RacesOwned)
    (hahead : progress w = .ahead)
    {ms : List Move}
    (hms : Unaborted ms)
    (a : Arbiter) :
    progress (w.moves ms) = .decided a ↔
      ∃ (before after : List Move) (interrupt : Option Signal), ms = before ++ .advance 0 :: after ∧
        progress (w.moves before) = .underWay ∧ (w.moves before).ComesFirst interrupt ∧
        a = .ofInterrupt interrupt := by
  have hmove : ∀ before m, w.moves (before ++ [m]) = (w.moves before).move m :=
    fun before m => w.moves_append before [m]
  have howned' : ∀ before, (w.moves before).RacesOwned := fun before =>
    howned.evolves (World.Proceeds.moves w before).evolves
  constructor
  · intro hdecided
    -- the last move that has made a difference is the one that has decided
    induction ms using List.reverseRecOn with
    | nil =>
        rw [World.moves, List.foldl_nil, hahead] at hdecided
        cases hdecided
    | append_singleton ms m ih =>
        have hbefore : Unaborted ms := fun other hother => hms other (List.mem_append_left _ hother)
        rw [hmove] at hdecided
        rcases decided_before (howned' ms) (World.change_move _ m) hdecided with hopen | hold
        · obtain ⟨rfl, interrupt, hfirst, rfl⟩ :=
            ((h.moves hbody hbefore).decided_move_iff hopen (hms m (by simp)) a).mp hdecided
          exact ⟨ms, [], interrupt, rfl, hopen, hfirst, rfl⟩
        · obtain ⟨before, after, interrupt, rfl, hopen, hfirst, rfl⟩ := ih hbefore hold
          exact ⟨before, after ++ [m], interrupt, by simp, hopen, hfirst, rfl⟩
  · rintro ⟨before, after, interrupt, hsplit, hopen, hfirst, rfl⟩
    have hbefore : Unaborted before := fun m hm => hms m (hsplit ▸ List.mem_append_left _ hm)
    have hscene := h.moves hbody hbefore
    have hdecided : progress (w.moves (before ++ [.advance 0])) = .decided (.ofInterrupt interrupt) := by
      rw [hmove]
      exact (hscene.decided_move_iff hopen (by simp) _).mpr ⟨rfl, interrupt, hfirst, rfl⟩
    have hwhole : ms = (before ++ [.advance 0]) ++ after := by simp [hsplit]
    rw [hwhole, World.moves_append]
    exact decided_of_evolves (howned' _) hdecided (World.Proceeds.moves _ after).evolves

end First
/-! ## Any order of turns -/

/-- How a session goes whose parties take their turns in any order. Nothing in it aborts a task. -/
structure ClosesInAnyOrder (w : World) (program : String) (child : ChildRun) : Prop where
  /-- It has been decided exactly when the main strand has looked at the race in some turn and has found
  something there. What it has found first has decided. -/
  decided : ∀ ms, Unaborted ms → ∀ a, progress (w.moves ms) = .decided a ↔
    ∃ (before after : List Move) (interrupt : Option Signal), ms = before ++ .advance 0 :: after ∧
      progress (w.moves before) = .underWay ∧ (w.moves before).ComesFirst interrupt ∧
      a = .ofInterrupt interrupt
  /-- Then it is closed, by the interrupt or else by what the program has come to. -/
  closed : ∀ ms interrupt, progress (w.moves ms) = .decided (.ofInterrupt interrupt) →
    Closed (Closing.of program child interrupt) (w.moves ms)
  /-- It stays so, whatever happens and whatever the program comes to afterwards. -/
  final : ∀ ms more interrupt, progress (w.moves ms) = .decided (.ofInterrupt interrupt) →
    progress (w.moves (ms ++ more)) = .decided (.ofInterrupt interrupt)
  /-- It is over only after it has been decided, and after each of its deliveries. -/
  returned : ∀ ms o, Unaborted ms → (w.moves ms).outcome? 0 = some o →
    (∃ interrupt, progress (w.moves ms) = .decided (.ofInterrupt interrupt)) ∧
      ∀ d ∈ (w.moves ms).deliveries, d.isFinished = true

section Orders

variable {reporter : Reporter} {stamps : Nat → Int} {source : InterruptSource}
  {plans : List DeliveryPlan} {projectName : Option String} {program : String} {args : List String}
  {child : ChildRun}

theorem closesInAnyOrder_begin :
    ClosesInAnyOrder
      ((World.start reporter true stamps source plans).beginScript
        (script projectName (program :: args) child))
      program child := by
  let w := (World.start reporter true stamps source plans).beginScript
    (script projectName (program :: args) child)
  have hplain := isPlain_work program args child
  have hbegins : Scene (.session (arguments projectName (program :: args))) (work (program :: args) child)
      w.sight :=
    .ahead rfl rfl rfl rfl rfl rfl rfl rfl
  have howned : w.RacesOwned := World.racesOwned_of_evolves (.script _ .refl rfl)
  exact
    { decided := fun ms hms => hbegins.decided_moves_iff hplain howned rfl hms
      closed := fun ms interrupt => closed_of_proceeds (World.Proceeds.moves w ms)
      final := fun ms more interrupt hdecided => by
        rw [World.moves_append]
        exact decided_of_evolves (howned.evolves (World.Proceeds.moves w ms).evolves) hdecided
          (World.Proceeds.moves _ more).evolves
      returned := fun ms o hms => (hbegins.moves hplain hms).returned }

end Orders
end Session

/-! ## The program -/

/-- What the program comes to when it runs a command in a session that closes in some way. -/
structure Concludes (s : StoreState) (outside : Outside) (projectName : Option String) (program : String)
    (args : List String) (closing : Closing) (c : Completion) : Prop where
  /-- The result is what the closing says. -/
  result : c.conclusion = Program.conclusionOf (some closing.outcome)
  /-- It is the same with any other metrics file, permission and collector, and whatever becomes of
  deliveries, if a notice that is due can be printed there as well; it does not even depend on the project
  and on the arguments. -/
  independent : ∀ (other : StoreState) (builtInKey : Option String) (plans : List DeliveryPlan)
      (name : Option String) (words : List String),
    let elsewhere : Outside := { outside with builtInKey, plans }
    Program.noticePanic? (reporterOf other elsewhere).1 elsewhere.output = none →
      (Program.runSession other elsewhere name (program :: words)).conclusion = c.conclusion
  /-- If reporting is allowed and there is a transport, a start is handed over, and then an ending that tells
  of the closing. -/
  reported : (reporterOf s outside).1.enabled = true → (reporterOf s outside).1.client.isEnabled = true →
    ∃ start ending : Payload, c.payloads = [start, ending] ∧ start.event = "c3 session started" ∧
      ending.Tells closing
  /-- Otherwise nothing is handed over. -/
  silent : ((reporterOf s outside).1.enabled && (reporterOf s outside).1.client.isEnabled) = false →
    c.payloads = []
  /-- The session has returned when each of its deliveries is over. Otherwise it waits for one that never
  is. -/
  returns : ∃ w, c.session = some w ∧
    ((w.outcome? 0 = some (.ok .null) ∧ ∀ d ∈ w.deliveries, d.isFinished = true) ∨
      w.outcome? 0 = none ∧ ∃ d ∈ w.deliveries, d.status = .stuck)
  /-- Its parties may as well take their turns in any other order. -/
  inAnyOrder : Session.ClosesInAnyOrder
    ((worldOf (reporterOf s outside).1 outside).beginScript
      (Session.script projectName (program :: args) outside.child))
    program outside.child

namespace Program

section Conclusion

variable (s : StoreState) (outside : Outside) (projectName : Option String) (program : String)
  (args : List String)

/-- How a session closes that the program carries out. -/
def closing (program : String) (outside : Outside) : Closing :=
  Closing.of program outside.child (outside.child.interrupt? outside.source)

/-- The world that a session leaves behind. -/
def sessionOf (command : List String) : World :=
  Session.run (worldOf (reporterOf s outside).1 outside) projectName command outside.child

/-- The session that the program carries out has ended and is closed. -/
theorem closed_sessionOf :
    Session.Ended outside.source outside.child (sessionOf s outside projectName (program :: args)) ∧
      Closed (closing program outside) (sessionOf s outside projectName (program :: args)) := by
  have hended : Session.Ended outside.source outside.child
      (sessionOf s outside projectName (program :: args)) :=
    Session.ended_run (reporterOf s outside).1 outside.stamps outside.plans projectName program args
  have hproceeds := Schedule.proceeds_runMain (Schedule.start (worldOf (reporterOf s outside).1 outside)) none
    (Session.script projectName (program :: args) outside.child)
  exact ⟨hended, Session.closed_of_proceeds hproceeds hended.progress⟩

/-- Where what is printed ends in no panic, no notice does. -/
theorem noticePanic?_of_printing
    {output : StandardOutput}
    (hprints : output.panic? = none)
    (r : Reporter) :
    noticePanic? r output = none := by
  rw [noticePanic?, hprints, ite_self]

/-- A session is carried out if its notice ends in no panic. -/
theorem runSession_of_printing
    (hprints : noticePanic? (reporterOf s outside).1 outside.output = none)
    (command : List String) :
    (runSession s outside projectName command).conclusion =
        conclusionOf (Session.outcome? (sessionOf s outside projectName command)) ∧
      (runSession s outside projectName command).session =
        some (sessionOf s outside projectName command) := by
  simp only [runSession_eq, hprints, sessionOf, and_self]

theorem conclusion_runSession
    (hprints : noticePanic? (reporterOf s outside).1 outside.output = none) :
    (runSession s outside projectName (program :: args)).conclusion =
      conclusionOf (some (closing program outside).outcome) := by
  rw [(runSession_of_printing s outside projectName hprints _).1,
    (closed_sessionOf s outside projectName program args).2.outcome]

theorem payloads_of_session
    {c : Completion}
    {w : World}
    (h : c.session = some w) :
    c.payloads = w.payloads := by
  unfold Completion.payloads Completion.entries
  rw [h]
  rfl

theorem isReporting_sessionOf
    (command : List String) :
    (sessionOf s outside projectName command).isReporting =
      ((reporterOf s outside).1.enabled && (reporterOf s outside).1.client.isEnabled) := by
  have hproceeds := Schedule.proceeds_runMain (Schedule.start (worldOf (reporterOf s outside).1 outside)) none
    (Session.script projectName command outside.child)
  exact hproceeds.evolves.endures.isReporting.trans (Bool.and_true _)

end Conclusion
end Program

/-- Whenever a command is run, for whatever project, with whatever metrics file and in whatever environment,
and no notice that is due ends in a panic: if an interrupt comes before the program has ended, the session is
cancelled, and otherwise it comes to what the program has come to. -/
theorem session_concludes
    (s : StoreState)
    {outside : Outside}
    (projectName : Option String)
    (program : String)
    (args : List String)
    (hprints : Program.noticePanic? (reporterOf s outside).1 outside.output = none) :
    Concludes s outside projectName program args (Program.closing program outside)
      (Program.runSession s outside projectName (program :: args)) := by
  obtain ⟨hended, hclosed⟩ := Program.closed_sessionOf s outside projectName program args
  have hsession := (Program.runSession_of_printing s outside projectName hprints (program :: args)).2
  have hpayloads := Program.payloads_of_session hsession
  have hreporting := Program.isReporting_sessionOf s outside projectName (program :: args)
  exact
    { result := Program.conclusion_runSession s outside projectName program args hprints
      independent := fun other builtInKey plans name words hothers =>
        (Program.conclusion_runSession other { outside with builtInKey, plans } name program words
          hothers).trans (Program.conclusion_runSession s outside projectName program args hprints).symm
      reported := fun henabled htransport => by
        rw [hpayloads]
        exact hclosed.reported (by rw [hreporting, henabled, htransport]; rfl)
      silent := fun hoff => by
        rw [hpayloads]
        exact hclosed.silent (hreporting.trans hoff)
      returns := ⟨_, hsession, hended.deliveries⟩
      inAnyOrder := Session.closesInAnyOrder_begin }

/-- For instance, when a signal comes two units of time before a program ends that is successful. -/
theorem session_concludes_plainUse :
    let s : StoreState := ⟨.new "metrics.json", (plainUse (.permission .status) []).host plainHost⟩
    let outside : Outside := ⟨none, .takes, .ran [] 5 (.exited 0), .timed 3 .interrupt, [], fun _ => 0⟩
    let c := Program.runSession s outside (some "app") ["npm", "test"]
    c.payloads.map (fun p => p.event) = ["c3 session started", "c3 session cancelled"] ∧
      c.failure.map Failure.report = some "operation cancelled (SIGINT)" ∧
      Concludes s outside (some "app") "npm" ["test"] (Program.closing "npm" outside) c := by
  intro s outside c
  have hprints : Program.noticePanic? (reporterOf s outside).1 outside.output = none :=
    Program.noticePanic?_of_printing rfl _
  exact ⟨by decide +kernel, by decide +kernel, session_concludes s (some "app") "npm" ["test"] hprints⟩

/-- Where the notice cannot be printed the metrics file does have a part in it. With an output on a disk that
is full, a first session ends in a panic, although its program is successful; the session after it, which
finds the file that the first one has left, does not. -/
theorem session_unbegun_fullOutput :
    let s : StoreState := ⟨.new "metrics.json", (plainUse (.permission .status) []).host plainHost⟩
    let outside : Outside :=
      ⟨none, .refuses (.os 28), .ran [] 0 (.exited 0), .channel, [], fun _ => 0⟩
    let c := Program.runSession s outside none ["true"]
    let d := Program.runSession ⟨.new "metrics.json", c.host⟩ outside none ["true"]
    c.conclusion = .panicked "failed printing to stdout: No space left on device (os error 28)" ∧
      d.conclusion = .done ∧ (Program.closing "true" outside).outcome = .ok .null ∧
      ¬ Concludes s outside none "true" [] (Program.closing "true" outside) c := by
  intro s outside c d
  have hpanic : c.conclusion = .panicked "failed printing to stdout: No space left on device (os error 28)" :=
    by decide +kernel
  refine ⟨hpanic, by decide +kernel, rfl, fun hconcludes => ?_⟩
  have hresult := hconcludes.result
  rw [hpanic] at hresult
  cases hresult

end LifecycleTelemetry
