import LifecycleTelemetry.Proofs.Operation.Extent
import LifecycleTelemetry.Proofs.Operation.Straight
import LifecycleTelemetry.Proofs.Operation.Verdict
import LifecycleTelemetry.Session.Basic

/-!
# The course of a session

A session makes one call. It is *ahead* before that, then *under way*, and in the end *decided* by the
operation itself, by its abortion or by a signal, unless it is given up in between. Where the operation
goes straight on, this alone tells what the session has disclosed: the events are known from what is
instrumented, from what the operation yields and from how far the session is.

`Course` follows the strands and the call of a session on their way. Every move keeps it, and a session
that has taken it has disclosed what its progress says; this is `disclosed_of_proceeds`.
-/

namespace LifecycleTelemetry

open Json (Fields)

/-! ## Who decides -/

/-- Who decides the race of an operation: the operation itself, its abortion, or a signal. -/
inductive Arbiter where
  | operation
  | abortion
  | signal (s : Signal)
deriving DecidableEq

/-- Who has decided a race. -/
def Settlement.arbiter : Settlement → Arbiter
  | .value _ => .operation
  | .failure _ => .operation
  | .panicked _ => .operation
  | .aborted => .abortion
  | .interrupted s => .signal s

/-- How the race of an operation is decided, given what the operation comes to by itself. -/
def Arbiter.settlement (o : Outcome) : Arbiter → Settlement
  | .operation => .ofOutcome o
  | .abortion => .aborted
  | .signal s => .interrupted s

@[simp]
theorem Arbiter.arbiter_settlement
    (a : Arbiter)
    (o : Outcome) :
    (a.settlement o).arbiter = a := by
  cases a with
  | operation =>
      cases o <;> rfl
  | abortion =>
      rfl
  | signal s =>
      rfl

/-- An operation that does not decide itself is cancelled. -/
theorem Arbiter.stage_settlement
    {a : Arbiter}
    (h : a ≠ .operation)
    (o : Outcome) :
    (a.settlement o).ending.stage = .cancelled := by
  cases a with
  | operation =>
      exact (h rfl).elim
  | _ =>
      rfl

/-- Nothing is in the bag of an ending to which nothing has been contributed. -/
theorem Contributions.bag_addEach_none
    {given : List Contribution}
    {stage : TerminalStage}
    (h : ∀ g ∈ given, g.stage ≠ stage) :
    (Contributions.none.addEach given).bag stage = [] := by
  have hkept : ∀ (rest : List Contribution) (c : Contributions),
      (∀ g ∈ rest, g.stage ≠ stage) → (c.addEach rest).bag stage = c.bag stage := by
    intro rest
    induction rest with
    | nil =>
        exact fun _ _ => rfl
    | cons g rest ih =>
        intro c hrest
        have hne : ¬ stage = g.stage := fun hsame => hrest g List.mem_cons_self hsame.symm
        refine (ih _ fun other hother => hrest other (List.mem_cons_of_mem _ hother)).trans ?_
        rw [bag_add, if_neg hne]
  rw [hkept given _ h]
  cases stage <;> rfl

namespace Session

/-! ## Progress -/

/-- How far a session is. -/
inductive Progress where
  | ahead
  | underWay
  | decided (a : Arbiter)
deriving DecidableEq

/-- How far the session of a world is. -/
def progress (w : World) : Progress :=
  match w.calls.map Call.phase with
  | [] => .ahead
  | .settled s :: _ => .decided s.arbiter
  | _ => .underWay

/-- The ending with which a session is reported that has been decided. -/
def endingBy (subject : Subject) (y : Yield) (a : Arbiter) : Event :=
  let s := a.settlement y.outcome
  ⟨subject, .ended s.ending ((Contributions.none.addEach y.given).bag s.ending.stage) 0⟩

/-- The events that a session reports until it is so far. -/
def Progress.events (subject : Subject) (y : Yield) : Progress → List Event
  | .ahead => []
  | .underWay => [⟨subject, .started⟩]
  | .decided a => [⟨subject, .started⟩, endingBy subject y a]

/-- The script that instruments an operation and waits for the deliveries. -/
def operation (subject : Subject) (body : Script) : Script :=
  [.instrument none subject [] body false none, .drain false]

/-! ## The course -/

/-- The main strand of a session races the call, and the operation is on its way as the worker. -/
structure Race (subject : Subject) (body : Script) (strands : List Strand) (calls : List Call)
    (main worker : Strand) (call : Call) (given : List Contribution) : Prop where
  strands : strands = [main, worker]
  calls : calls = [call]
  task : main.task = 0
  racing : main.status = .racing 0
  rest : main.rest = [.drain false]
  place : worker.place = (1, some 0)
  follows : worker.Follows (yieldOf body) given
  phase : call.phase = .racing 1
  subject : call.subject = subject
  propagate : call.propagate = false
  deadline : call.deadline = none
  given : call.contributions = Contributions.none.addEach given

/-- The strands and the calls of a session: the call is still to be made; or it is being raced; or there
is nothing left to be raced. -/
inductive Course (subject : Subject) (body : Script) (strands : List Strand) (calls : List Call) :
    Prop where
  | ahead
      {main : Strand}
      (hstrands : strands = [main])
      (hcalls : calls = [])
      (htask : main.task = 0)
      (hready : main.status = .ready)
      (hrest : main.rest = operation subject body)
  | racing
      {main worker : Strand}
      {call : Call}
      {given : List Contribution}
      (h : Race subject body strands calls main worker call given)
  | past
      (hfollows : ∀ strand ∈ strands, ∃ y given, strand.Follows y given)

/-- An operation is orderly when it goes straight on and contributes nothing to its cancellation. -/
structure Orderly (body : Script) : Prop where
  straight : ∀ step ∈ body, step.isStraight = true
  uncancelled : ∀ g ∈ (yieldOf body).given, g.stage ≠ .cancelled

/-- A session has a runtime to run its operation, is on its course, and has disclosed what its progress
says. -/
structure OnCourse (subject : Subject) (body : Script) (w : World) : Prop where
  runtime : w.hasRuntime = true
  course : Course subject body w.strands w.calls
  disclosed : w.disclosed = w.gistsOf ((progress w).events subject (yieldOf body))

section Course

variable {subject : Subject} {body : Script} {w after : World}

/-- A session is as far as it was when its calls are in the same phases. -/
theorem progress_of_phases
    (h : after.calls.map Call.phase = w.calls.map Call.phase) :
    progress after = progress w := by
  rw [progress, progress, h]

/-- A session is under way as long as its call is being raced. -/
theorem Race.progress
    {main worker : Strand}
    {call : Call}
    {given : List Contribution}
    (h : Race subject body w.strands w.calls main worker call given) :
    progress w = .underWay := by
  simp [Session.progress, h.calls, h.phase]

/-- What discloses just the events that belong to the progress keeps a session on its course. -/
theorem OnCourse.of_disclosed
    {more : List Event}
    (h : OnCourse subject body w)
    (hendures : World.Endures w after)
    (hcourse : Course subject body after.strands after.calls)
    (hevents : (progress after).events subject (yieldOf body) =
      (progress w).events subject (yieldOf body) ++ more)
    (hdisclosed : after.disclosed = w.disclosed ++ w.gistsOf more) :
    OnCourse subject body after where
  runtime := hendures.hasRuntime.trans h.runtime
  course := hcourse
  disclosed := by
    rw [hdisclosed, h.disclosed, hendures.gistsOf, hevents, World.gistsOf_append]

/-- What discloses nothing and brings no progress has to do with the course alone. -/
theorem OnCourse.of_quiet
    (h : OnCourse subject body w)
    (hendures : World.Endures w after)
    (hcourse : Course subject body after.strands after.calls)
    (hprogress : progress after = progress w)
    (hdisclosed : after.disclosed = w.disclosed) :
    OnCourse subject body after where
  runtime := hendures.hasRuntime.trans h.runtime
  course := hcourse
  disclosed := by
    rw [hdisclosed, h.disclosed, hendures.gistsOf, hprogress]

/-- What does not even touch strands and calls keeps a session where it is. -/
theorem OnCourse.of_same
    (h : OnCourse subject body w)
    (hendures : World.Endures w after)
    (hstrands : after.strands = w.strands)
    (hcalls : after.calls = w.calls)
    (hdisclosed : after.disclosed = w.disclosed) :
    OnCourse subject body after := by
  refine h.of_quiet hendures ?_ (progress_of_phases (congrArg _ hcalls)) hdisclosed
  rw [hstrands, hcalls]
  exact h.course

/-! ## Making the call -/

theorem strands_openCall
    (w : World)
    (id : Nat)
    (subject : Subject)
    (propagate : Bool)
    (abandonAfter : Option Nat) :
    (w.openCall id subject propagate abandonAfter).strands = w.strands := by
  have hlisten : ∀ u : World, u.listen.2.strands = u.strands := by
    intro u
    unfold World.listen
    split
    · rfl
    · rfl
  exact (hlisten _).trans (World.strands_report _ _ _)

theorem strands_startRace
    (w : World)
    (id : Nat)
    (inner : String)
    (number : Nat)
    (body : Script) :
    let worker : Strand := ⟨w.strands.length, inner, 0, body, some number, .ready⟩
    (w.startRace id inner number body).strands =
      (w.strands ++ [worker]).modify id fun strand => { strand with status := .racing number } :=
  rfl

/-- The turn in which the call is made. -/
theorem OnCourse.opens
    {main : Strand}
    (h : OnCourse subject body w)
    (hbody : Orderly body)
    (hstrands : w.strands = [main])
    (hcalls : w.calls = [])
    (htask : main.task = 0)
    (hready : main.status = .ready)
    (hrest : main.rest = operation subject body) :
    OnCourse subject body (w.advance 0) := by
  have hendures := World.endures_of_change (World.change_move w (.advance 0))
  have hstrand : w.strands[0]? = some main := by rw [hstrands]; rfl
  have hnone : (w.pass 0 [.drain false]).calls = [] := hcalls
  let opened := (w.pass 0 [.drain false]).openCall 0 subject false none
  have hturn : w.advance 0 =
      opened.startRace 0 (World.innerName main.list main.index none) 0 body := by
    have hreadied := World.readied_of_hasRuntime (w := w.pass 0 [.drain false]) h.runtime []
    rw [w.advance_of_opening 0 hstrand hready hrest, World.instrument_eq, hnone, hreadied]
    rfl
  obtain ⟨-, listener, hmade⟩ := World.calls_openCall (w.pass 0 [.drain false]) 0 subject false none
  rw [hnone, List.nil_append] at hmade
  have hsame : opened.strands =
      [{ main with index := main.index + 1, rest := [.drain false] }] := by
    rw [strands_openCall, World.pass, World.withStrand, hstrands]
    rfl
  have hnow : (w.advance 0).strands =
      [{ main with index := main.index + 1, rest := [.drain false], status := .racing 0 },
        ⟨1, World.innerName main.list main.index none, 0, body, some 0, .ready⟩] := by
    rw [hturn, strands_startRace, hsame]
    rfl
  have hone : (w.advance 0).calls =
      [{ (w.pass 0 [.drain false]).newCall 0 subject false none with listener, phase := .racing 1 }] := by
    rw [hturn, (World.calls_startRace opened 0 _ 0 body).2, World.places, hsame, hmade]
    rfl
  have hstarted : (w.advance 0).disclosed = w.disclosed ++ w.gistsOf [⟨subject, .started⟩] := by
    rw [hturn]
    exact World.disclosed_openCall (w.pass 0 [.drain false]) 0 subject false none
  have hbefore : progress w = .ahead := by rw [progress, hcalls]; rfl
  have hafter : progress (w.advance 0) = .underWay := by rw [progress, hone]; rfl
  refine h.of_disclosed hendures ?_ (by rw [hafter, hbefore]; rfl) hstarted
  exact .racing ⟨hnow, hone, htask, rfl, rfl, rfl,
    .underWay rfl hbody.straight (List.nil_append _) rfl, rfl, rfl, rfl, rfl, rfl⟩

/-! ## Deciding the race -/

/-- A race that is decided by the operation is decided by what it yields, all of which has been
contributed by then. -/
theorem arbiter_of_settlement?
    {worker : Strand}
    {call : Call}
    {n : Nat}
    {y : Yield}
    {given : List Contribution}
    {s : Settlement}
    (hphase : call.phase = .racing n)
    (hworker : w.strands[n]? = some worker)
    (hfollows : worker.Follows y given)
    (hsettled : w.settlement? call = some s) :
    ∃ a : Arbiter, s = a.settlement y.outcome ∧ (a = .operation → given = y.given) := by
  cases World.cause_of_settlement? hsettled with
  | @ended body o hrace hended =>
      rw [hphase] at hrace
      cases hrace
      obtain ⟨strand, hstrand, hfinished⟩ := World.outcome?_eq_some_iff.mp hended
      rw [hworker] at hstrand
      cases hstrand
      cases hfollows with
      | underWay hstatus _ _ _ =>
          simp [hfinished, StrandStatus.isUnderWay] at hstatus
      | arrived hstatus hgiven =>
          rw [hfinished] at hstatus
          cases hstatus
          exact ⟨.operation, rfl, fun _ => hgiven⟩
      | aborted hstatus _ =>
          simp [hfinished] at hstatus
  | aborted _ _ _ =>
      refine ⟨.abortion, rfl, fun hnot => ?_⟩
      cases hnot
  | @interrupted _ signal _ _ _ _ =>
      refine ⟨.signal signal, rfl, fun hnot => ?_⟩
      cases hnot

/-- The ending is reported with what the whole operation contributes to it, even if the operation has
not ended by itself. -/
theorem bag_of_arbiter
    {given : List Contribution}
    {a : Arbiter}
    (hbody : Orderly body)
    (hbegins : given <+: (yieldOf body).given)
    (hwhole : a = .operation → given = (yieldOf body).given) :
    let stage := (a.settlement (yieldOf body).outcome).ending.stage
    (Contributions.none.addEach given).bag stage =
      (Contributions.none.addEach (yieldOf body).given).bag stage := by
  by_cases ha : a = .operation
  · rw [hwhole ha]
  · rw [Arbiter.stage_settlement ha]
    have hnone := Contributions.bag_addEach_none hbody.uncancelled
    exact (Contributions.bag_addEach_none fun g hg => hbody.uncancelled g (hbegins.subset hg)).trans
      hnone.symm

theorem strands_conclude
    (w : World)
    (id : Nat)
    (list : String)
    (number : Nat)
    {call : Call}
    (hpropagate : call.propagate = false)
    (s : Settlement) :
    (w.conclude id list number call s).strands =
      w.strands.modify id fun strand => { strand with status := .ready } := by
  have hready : ∀ (u : World) (o : Outcome), u.hand id o false = u.withStatus id .ready := by
    intro u o
    cases o <;> rfl
  rw [World.conclude, hpropagate, hready, ← World.strands_reportEnding w number call s]
  rfl

/-- The turn in which the race is found decided. -/
theorem OnCourse.concludes
    {main worker : Strand}
    {call : Call}
    {given : List Contribution}
    {s : Settlement}
    (h : OnCourse subject body w)
    (hbody : Orderly body)
    (hrace : Race subject body w.strands w.calls main worker call given)
    (hsettled : w.settlement? call = some s) :
    OnCourse subject body (w.advance 0) := by
  have hendures := World.endures_of_change (World.change_move w (.advance 0))
  have hturn := w.advance_of_decided 0 (by rw [hrace.strands]; rfl) hrace.racing
    (by rw [hrace.calls]; rfl) hsettled
  obtain ⟨a, rfl, hwhole⟩ :=
    arbiter_of_settlement? hrace.phase (by rw [hrace.strands]; rfl) hrace.follows hsettled
  have hnow : (w.advance 0).strands = [{ main with status := .ready }, worker] := by
    rw [hturn, strands_conclude w 0 main.list 0 hrace.propagate, hrace.strands]
    rfl
  have hended : (w.advance 0).disclosed =
      w.disclosed ++ w.gistsOf [endingBy subject (yieldOf body) a] := by
    rw [hturn, w.disclosed_conclude 0 main.list 0 call _, hrace.subject, hrace.given, Contributions.take,
      bag_of_arbiter hbody hrace.follows.isPrefix hwhole]
    rfl
  have hafter : progress (w.advance 0) = .decided a := by
    rw [progress, hturn, (w.calls_conclude 0 main.list 0 call _).2, hrace.calls]
    simp
  refine h.of_disclosed hendures ?_ (by rw [hafter, hrace.progress]; rfl) hended
  have hmain : ({ main with status := .ready } : Strand).Follows ⟨[], .ok .null⟩ [] :=
    .underWay rfl (by simp [hrace.rest, Step.isStraight]) (by rw [hrace.rest]; rfl)
      (by rw [hrace.rest]; rfl)
  rw [hnow]
  exact .past (List.forall_mem_cons.mpr
    ⟨⟨_, _, hmain⟩, List.forall_mem_singleton.mpr ⟨_, _, hrace.follows⟩⟩)

/-! ## Other turns -/

/-- What is contributed to a call brings no progress. -/
theorem progress_of_acts
    {scope : Option Nat}
    {more : List Contribution}
    (h : World.Acts w scope more after) :
    progress after = progress w := by
  have hcalls := h.calls
  refine progress_of_phases ?_
  cases scope with
  | none =>
      exact congrArg _ hcalls
  | some n =>
      rw [hcalls, map_modify Call.phase (Call.receive more) (fun phase => phase) fun _ => rfl]
      exact List.modify_id n _

/-- A turn of the operation. -/
theorem OnCourse.labours
    {main worker : Strand}
    {call : Call}
    {given : List Contribution}
    (h : OnCourse subject body w)
    (hrace : Race subject body w.strands w.calls main worker call given) :
    OnCourse subject body (w.advance 1) := by
  have hworker : w.strands[1]? = some worker := by rw [hrace.strands]; rfl
  obtain ⟨change, more, htreads⟩ := World.treads_advance hworker hrace.follows
  have hendures := World.endures_of_change (World.change_move w (.advance 1))
  have hnow : (w.advance 1).strands = [main, change worker] := by
    rw [htreads.strands, hrace.strands]
    rfl
  have hscope : worker.scope = some 0 := congrArg Prod.snd hrace.place
  have hone : (w.advance 1).calls = [call.receive more] := by
    have hacts := htreads.acts.calls
    rw [hscope, hrace.calls] at hacts
    exact hacts
  have hstays : (change worker).place = worker.place := by
    have hplaces := htreads.acts.places
    rw [World.places, World.places, hnow, hrace.strands] at hplaces
    simpa using hplaces
  have hgiven : (call.receive more).contributions = Contributions.none.addEach (given ++ more) := by
    rw [Call.receive, hrace.given, Contributions.addEach, Contributions.addEach, ← List.foldl_append]
    rfl
  refine h.of_quiet hendures ?_ (progress_of_acts htreads.acts) htreads.disclosed
  exact .racing ⟨hnow, hone, hrace.task, hrace.racing, hrace.rest, hstays.trans hrace.place,
    htreads.follows, hrace.phase, hrace.subject, hrace.propagate, hrace.deadline, hgiven⟩

/-- Any turn when nothing is left to be raced. -/
theorem OnCourse.winds
    {id : Nat}
    {strand : Strand}
    (h : OnCourse subject body w)
    (hstrand : w.strands[id]? = some strand)
    (hfollows : ∀ strand ∈ w.strands, ∃ y given, strand.Follows y given) :
    OnCourse subject body (w.advance id) := by
  obtain ⟨y, given, hy⟩ := hfollows strand (List.mem_of_getElem? hstrand)
  obtain ⟨change, more, htreads⟩ := World.treads_advance hstrand hy
  have hendures := World.endures_of_change (World.change_move w (.advance id))
  refine h.of_quiet hendures (.past ?_) (progress_of_acts htreads.acts) htreads.disclosed
  intro other hother
  obtain ⟨m, hm⟩ := List.getElem?_of_mem hother
  rw [htreads.strands, List.getElem?_modify] at hm
  obtain ⟨old, hold, rfl⟩ := Option.map_eq_some_iff.mp hm
  split
  · next hsame =>
      rw [← hsame, hstrand] at hold
      cases hold
      exact ⟨_, _, htreads.follows⟩
  · exact hfollows old (List.mem_of_getElem? hold)

/-- Every turn of a strand keeps a session on its course. -/
theorem OnCourse.advance
    (h : OnCourse subject body w)
    (hbody : Orderly body)
    (id : Nat) :
    OnCourse subject body (w.advance id) := by
  cases hstrand : w.strands[id]? with
  | none =>
      rwa [show w.advance id = w by simp [World.advance, hstrand]]
  | some strand =>
      cases h.course with
      | @ahead main hstrands hcalls htask hready hrest =>
          cases id with
          | zero =>
              exact h.opens hbody hstrands hcalls htask hready hrest
          | succ id =>
              simp [hstrands] at hstrand
      | @racing main worker call given hrace =>
          cases id with
          | zero =>
              cases hsettled : w.settlement? call with
              | some s =>
                  exact h.concludes hbody hrace hsettled
              | none =>
                  -- no time has been set after which the call would be given up
                  have hnever : w.isOverdue call = false := by simp [World.isOverdue, hrace.deadline]
                  have hstays : w.advance 0 = w := by
                    simp [World.advance, World.canAdvance, hrace.strands, hrace.calls, hrace.racing,
                      hsettled, hnever]
                  rwa [hstays]
          | succ id =>
              cases id with
              | zero =>
                  exact h.labours hrace
              | succ id =>
                  simp [hrace.strands] at hstrand
      | past hfollows =>
          exact h.winds hstrand hfollows

/-! ## Abortion -/

/-- A task none of whose strands races a call takes no call with it. -/
theorem racesOf_of_calm
    {task : Nat}
    (h : ∀ strand ∈ w.strands, strand.task = task → strand.status.race? = none) :
    w.racesOf task = [] := by
  refine List.filterMap_eq_nil_iff.mpr fun strand hstrand => ?_
  cases hstatus : strand.status with
  | racing number =>
      by_cases htask : strand.task = task
      · have hnone := h strand hstrand htask
        simp [hstatus, StrandStatus.race?] at hnone
      · simp [htask]
  | _ =>
      rfl

theorem calls_abort_of_calm
    {task : Nat}
    (h : ∀ strand ∈ w.strands, strand.task = task → strand.status.race? = none) :
    (w.abort task).calls = w.calls := by
  rw [World.abort, racesOf_of_calm h]
  rfl

/-- Strands that are on their way are so after an abortion. -/
theorem follows_abort
    (hfollows : ∀ strand ∈ w.strands, ∃ y given, strand.Follows y given)
    (task : Nat) :
    ∀ strand ∈ (w.abort task).strands, ∃ y given, strand.Follows y given := by
  rw [(World.aborts_abort w task).strands]
  intro strand hstrand
  obtain ⟨old, hold, rfl⟩ := List.mem_map.mp hstrand
  obtain ⟨y, given, hy⟩ := hfollows old hold
  exact ⟨y, given, hy.abortedIn task⟩

/-- The abortion of the main task in the middle of the race. -/
theorem OnCourse.drops
    {main worker : Strand}
    {call : Call}
    {given : List Contribution}
    (h : OnCourse subject body w)
    (hrace : Race subject body w.strands w.calls main worker call given) :
    OnCourse subject body (w.abort 0) := by
  have hendures := World.endures_of_change (World.change_move w (.abort 0))
  have htask : worker.task = 1 := congrArg Prod.fst hrace.place
  have hraces : w.racesOf 0 = [0] := by
    cases hstatus : worker.status <;>
      simp [World.racesOf, hrace.strands, hrace.racing, hrace.task, htask, hstatus]
  have hcalls : (w.abort 0).calls = (w.dropCall 0).calls := by
    rw [World.abort, hraces]
    rfl
  have hafter : progress (w.abort 0) = .underWay := by
    rw [progress, hcalls, (w.calls_dropCall 0).2, hrace.calls]
    rfl
  refine h.of_quiet hendures ?_ (hafter.trans hrace.progress.symm) (w.disclosed_abort 0)
  have hmain : (World.Strand.abortedIn 0 main).Follows ⟨[], .ok .null⟩ [] :=
    .aborted (by simp [World.Strand.abortedIn, hrace.racing, hrace.task]) (List.prefix_refl _)
  rw [(World.aborts_abort w 0).strands, hrace.strands, List.map_cons, List.map_cons, List.map_nil]
  exact .past (List.forall_mem_cons.mpr ⟨⟨_, _, hmain⟩,
    List.forall_mem_singleton.mpr ⟨_, _, hrace.follows.abortedIn 0⟩⟩)

/-- An abortion keeps a session on its course. -/
theorem OnCourse.abort
    (h : OnCourse subject body w)
    (task : Nat) :
    OnCourse subject body (w.abort task) := by
  have hendures := World.endures_of_change (World.change_move w (.abort task))
  have hstrands := (World.aborts_abort w task).strands
  -- unless the main task is aborted in the middle of the race, no call is dropped
  have hquiet : (∀ strand ∈ w.strands, strand.task = task → strand.status.race? = none) →
      Course subject body (w.abort task).strands w.calls → OnCourse subject body (w.abort task) := by
    intro hcalm hcourse
    have hcalls := calls_abort_of_calm hcalm
    refine h.of_quiet hendures ?_ (progress_of_phases (congrArg _ hcalls)) (w.disclosed_abort task)
    rwa [hcalls]
  cases h.course with
  | @ahead main hmain hcalls htask hready hrest =>
      refine hquiet (by simp [hmain, hready, StrandStatus.race?]) ?_
      rw [hstrands, hmain, List.map_cons, List.map_nil]
      by_cases hsame : main.task = task
      · have haborted : (World.Strand.abortedIn task main).Follows ⟨[], .ok .null⟩ [] :=
          .aborted (by simp [World.Strand.abortedIn, hready, hsame]) (List.prefix_refl _)
        exact .past (List.forall_mem_singleton.mpr ⟨_, _, haborted⟩)
      · have hstays : World.Strand.abortedIn task main = main := by
          simp [World.Strand.abortedIn, hready, hsame]
        rw [hstays]
        exact .ahead rfl hcalls htask hready hrest
  | @racing main worker call given hrace =>
      by_cases hsame : task = 0
      · subst hsame
        exact h.drops hrace
      · have hother : ¬ main.task = task := by rw [hrace.task]; exact fun h => hsame h.symm
        have hstays : World.Strand.abortedIn task main = main := by
          simp [World.Strand.abortedIn, hrace.racing, hother]
        refine hquiet ?_ ?_
        · rw [hrace.strands]
          exact List.forall_mem_cons.mpr ⟨fun hmain => (hother hmain).elim,
            List.forall_mem_singleton.mpr fun _ => hrace.follows.race?⟩
        · have hnow : (w.abort task).strands = [main, World.Strand.abortedIn task worker] := by
            rw [hstrands, hrace.strands, List.map_cons, List.map_cons, List.map_nil, hstays]
          exact .racing { hrace with
            strands := hnow
            place := (World.place_abortedIn task worker).trans hrace.place
            follows := hrace.follows.abortedIn task }
  | past hfollows =>
      refine hquiet (fun strand hstrand _ => ?_) (.past (follows_abort hfollows task))
      obtain ⟨_, _, hy⟩ := hfollows strand hstrand
      exact hy.race?

/-! ## The whole course -/

theorem OnCourse.move
    (h : OnCourse subject body w)
    (hbody : Orderly body)
    (m : Move) :
    OnCourse subject body (w.move m) := by
  have hendures := World.endures_of_change (World.change_move w m)
  cases m with
  | advance id =>
      exact h.advance hbody id
  | deliver id =>
      exact h.of_same hendures (w.background_deliver id).strands (w.background_deliver id).calls
        (w.disclosed_deliver id)
  | pass time =>
      exact h.of_same hendures rfl rfl rfl
  | signal s =>
      exact h.of_same hendures rfl rfl rfl
  | abort task =>
      exact h.abort task

theorem OnCourse.proceeds
    {v : World}
    (h : OnCourse subject body w)
    (hbody : Orderly body)
    (hv : World.Proceeds w v) :
    OnCourse subject body v := by
  induction hv with
  | refl =>
      exact h
  | move m _ ih =>
      exact ih.move hbody m
  | rouse woken _ ih =>
      exact ih.of_same ⟨rfl, rfl, Nat.le_refl _⟩ rfl rfl rfl

end Course

/-- A world that is about to instrument an operation is at the beginning of the course. -/
theorem onCourse_begin
    (reporter : Reporter)
    (stamps : Nat → Int)
    (source : InterruptSource)
    (plans : List DeliveryPlan)
    (subject : Subject)
    (body : Script) :
    OnCourse subject body
      ((World.start reporter true stamps source plans).beginScript (operation subject body)) where
  runtime := rfl
  course := .ahead rfl rfl rfl rfl rfl
  disclosed := by
    unfold World.gistsOf
    split
    · rfl
    · rfl

/-- Whatever happens to a session whose operation is orderly, it has disclosed what its progress says,
and nothing at all if its reporter hands nothing over. -/
theorem disclosed_of_proceeds
    {reporter : Reporter}
    {stamps : Nat → Int}
    {source : InterruptSource}
    {plans : List DeliveryPlan}
    {subject : Subject}
    {body : Script}
    {v : World}
    (hbody : Orderly body)
    (hv : ((World.start reporter true stamps source plans).beginScript
      (operation subject body)).Proceeds v) :
    v.disclosed = (World.start reporter true stamps source plans).gistsOf
      ((progress v).events subject (yieldOf body)) := by
  have hcourse := (onCourse_begin reporter stamps source plans subject body).proceeds hbody hv
  exact hcourse.disclosed.trans (hv.evolves.endures.gistsOf _)

end Session
end LifecycleTelemetry
