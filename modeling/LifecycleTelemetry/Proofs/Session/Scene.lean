import LifecycleTelemetry.Proofs.Operation.Sight
import LifecycleTelemetry.Proofs.Session.Course

/-!
# The scenes of a session

As long as nothing is aborted, a session is in one of three scenes. It is *ahead*: its only strand is
about to make the call. It is *racing*: the main strand waits for the race between the operation, which
is carried out by a second strand, and an interrupt. Or it is *decided*, and the main strand waits for
the deliveries: it is about to drain, drains, is back, or is over.

Whatever the order of turns, a session stays in these scenes. A main strand that is over has nothing left
to wait for, so that a session returns only when each of its deliveries is over.
-/

namespace LifecycleTelemetry

/-- Whether an action is one of those that running a command is made of. -/
def Action.isPlain : Action → Bool
  | .contribute _ _ _ _ => true
  | .trigger _ => true
  | .log _ => true
  | _ => false

/-- Whether a step is. -/
def Step.isPlain : Step → Bool
  | .act a => a.isPlain
  | .succeed _ => true
  | .fail _ => true
  | .sleep _ => true
  | _ => false

/-- Whether a step ends an operation, or is over at once and raises nothing. -/
def Step.isQuick : Step → Bool
  | .act (.trigger _) => false
  | .sleep _ => false
  | _ => true

/-- The delivery of a number is over, if there is one. -/
def Sight.Delivered (v : Sight) (n : Nat) : Prop :=
  ∀ d, v.deliveries[n]? = some d → d.isFinished = true

theorem Sight.isFinished_of_delivered
    {v : Sight}
    {d : Delivery}
    (h : ∀ n, v.Delivered n)
    (hd : d ∈ v.deliveries) :
    d.isFinished = true := by
  obtain ⟨n, hn⟩ := List.getElem?_of_mem hd
  exact h n d hn

theorem World.isDelivered_iff
    (w : World)
    (n : Nat) :
    w.isDelivered n = true ↔ w.sight.Delivered n := by
  unfold World.isDelivered Sight.Delivered World.sight
  cases w.deliveries[n]? with
  | none =>
      simp
  | some d =>
      simp

/-- A strand that cannot go on does not. -/
theorem World.advance_of_stuck
    (w : World)
    {id : Nat}
    (h : w.canAdvance id = false) :
    w.advance id = w := by
  unfold advance
  split
  · rfl
  · simp [h]

namespace Session

/-! ## The parties -/

/-- The main strand while it races its call. -/
structure Racer (main : Strand) : Prop where
  task : main.task = 0
  status : main.status = .racing 0
  rest : main.rest = [.drain false]

/-- The call while it is being raced. -/
structure Raced (call : Call) : Prop where
  owner : call.owner = 0
  phase : call.phase = .racing 1
  propagate : call.propagate = false
  deadline : call.deadline = none

/-- The strand that carries out the operation. -/
structure Worker (strand : Strand) : Prop where
  task : strand.task = 1
  scope : strand.scope = some 0
  steps : ∀ step ∈ strand.rest, step.isPlain = true
  status : strand.status = .ready ∨ (∃ deadline ticket, strand.status = .sleeping deadline ticket) ∨
    ∃ o, strand.status = .finished o

/-- How far the main strand is with waiting for the deliveries. -/
inductive Waits (v : Sight) (main : Strand) : Prop where
  | before
      (hstatus : main.status = .ready)
      (hrest : main.rest = [.drain false])
      (hpending : ∀ n, n < v.deliveries.length → n ∈ v.pending)
  | during
      {batch : List Nat}
      (hstatus : main.status = .draining batch false)
      (hrest : main.rest = [])
      (hpending : v.pending = [])
      (hbatch : ∀ n, n ∈ batch ∨ v.Delivered n)
  | back
      (hstatus : main.status = .ready)
      (hrest : main.rest = [])
      (hpending : v.pending = [])
      (hover : ∀ n, v.Delivered n)
  | ended
      (hstatus : main.status = .finished (.ok .null))
      (hpending : v.pending = [])
      (hover : ∀ n, v.Delivered n)

/-- A session is in one of its scenes. -/
inductive Scene (subject : Subject) (body : Script) (v : Sight) : Prop where
  | ahead
      {main : Strand}
      (hstrands : v.strands = [main])
      (hcalls : v.calls = [])
      (htask : main.task = 0)
      (hready : main.status = .ready)
      (hrest : main.rest = operation subject body)
      (hdeliveries : v.deliveries = [])
      (hpending : v.pending = [])
      (hruntime : v.hasRuntime = true)
  | racing
      {main worker : Strand}
      {call : Call}
      (hstrands : v.strands = [main, worker])
      (hcalls : v.calls = [call])
      (hracer : Racer main)
      (hworker : Worker worker)
      (hraced : Raced call)
      (hpending : ∀ n, n < v.deliveries.length → n ∈ v.pending)
  | decided
      {main worker : Strand}
      {call : Call}
      {s : Settlement}
      (hstrands : v.strands = [main, worker])
      (hcalls : v.calls = [call])
      (htask : main.task = 0)
      (hworker : Worker worker)
      (hphase : call.phase = .settled s)
      (hown : s.arbiter ≠ .abortion)
      (hwaits : Waits v main)

/-! ## Turns of the operation -/

/-- What a turn of the operation comes to, while there is something for it to do. -/
inductive Labour (w : World) (main worker : Strand) (call : Call) : Sight → Prop where
  | wakes
      {deadline ticket : Nat}
      (hsleeps : worker.status = .sleeping deadline ticket)
      (hdue : deadline ≤ w.clock) :
      Labour w main worker call { w.sight with strands := [main, { worker with status := .ready }] }
  | acts
      {a : Action}
      {rest : Script}
      {contributions : Contributions}
      (hready : worker.status = .ready)
      (hrest : worker.rest = .act a :: rest)
      (hquick : (Step.act a).isQuick = true) :
      Labour w main worker call
        { w.sight with
          strands := [main, { worker with index := worker.index + 1, rest }]
          calls := [{ call with contributions }] }
  | raises
      {s : Signal}
      {rest : Script}
      {wakes : List TaskId}
      (hready : worker.status = .ready)
      (hrest : worker.rest = .act (.trigger s) :: rest)
      (hfew : wakes.length ≤ w.channel.receivers.length)
      (hwakes : ∀ r ∈ w.channel.receivers, Raced call → call.listener = .receiver r.id →
        .strand main.task ∈ wakes) :
      Labour w main worker call
        { w.sight with
          strands := [main, { worker with index := worker.index + 1, rest }]
          channel := w.channel.trigger s
          woken := w.woken ++ wakes }
  | sleeps
      {duration ticket : Nat}
      {rest : Script}
      (hready : worker.status = .ready)
      (hrest : worker.rest = .sleep duration :: rest) :
      Labour w main worker call
        { w.sight with
          strands := [main,
            { worker with
              index := worker.index + 1
              rest
              status := .sleeping (w.clock + duration) ticket }] }
  | ends
      {done : Strand}
      {o : Outcome}
      {wakes : List TaskId}
      (hready : worker.status = .ready)
      (hquick : ∀ step rest, worker.rest = step :: rest → step.isQuick = true)
      (hdone : Worker done)
      (hover : done.status = .finished o)
      (hfew : wakes.length ≤ 1)
      (hwakes : Racer main → Raced call → .strand main.task ∈ wakes) :
      Labour w main worker call
        { w.sight with strands := [main, done], woken := w.woken ++ wakes }

section Labour

variable {w : World} {main worker : Strand} {call : Call}

/-- A strand that carries out an operation does so until all is done. -/
theorem Worker.goes
    (h : Worker worker)
    {index : Nat}
    {rest : Script}
    {status : StrandStatus}
    (hrest : ∀ step ∈ rest, step ∈ worker.rest)
    (hstatus : status = .ready ∨ (∃ deadline ticket, status = .sleeping deadline ticket) ∨
      ∃ o, status = .finished o) :
    Worker { worker with index, rest, status } :=
  ⟨h.task, h.scope, fun step hstep => h.steps step (hrest step hstep), hstatus⟩

/-- The end of an operation wakes the strand that races its call, and nobody else. -/
theorem labour_finish
    {v : World}
    {before : Strand}
    (hcalls : w.calls = [call])
    (hready : worker.status = .ready)
    (hquick : ∀ step rest, worker.rest = step :: rest → step.isQuick = true)
    (hbefore : Worker before)
    (hv : v = { w with strands := [main, before] })
    (o : Outcome) :
    Labour w main worker call (v.finish 1 o).sight := by
  let done : Strand := { before with status := .finished o }
  have hstrand : v.strands[1]? = some before := by rw [hv]; rfl
  have hdone : Worker done := ⟨hbefore.task, hbefore.scope, hbefore.steps, .inr (.inr ⟨o, rfl⟩)⟩
  have hwaiters : (v.withStatus 1 (.finished o)).waiters 1 =
      ({ w with strands := [main, done] } : World).waiters 1 := by
    rw [hv]
    rfl
  have hsight : (v.finish 1 o).sight =
      { w.sight with
        strands := [main, done]
        woken := w.woken ++ ({ w with strands := [main, done] } : World).waiters 1 } := by
    rw [v.sight_finish hstrand hbefore.task, hwaiters, hv]
    rfl
  rw [hsight]
  refine .ends hready hquick hdone rfl ?_ fun hracer hraced => ?_
  · have hsplit : [main, done] = [main] ++ [done] := rfl
    rw [World.waiters, hsplit, List.filterMap_append, List.length_append]
    have hnone : ∀ f : Strand → Option TaskId, f done = none → ([done].filterMap f).length = 0 := by
      intro f hf
      simp [hf]
    rw [hnone _ rfl]
    exact List.length_filterMap_le _ _
  · simp [World.waiters, hcalls, hracer.status, hraced.phase]

theorem length_racers_le
    {v : World}
    (hcalls : v.calls = [call])
    (receivers : List Receiver) :
    (receivers.flatMap fun r => v.racers r.id).length ≤ receivers.length := by
  have hone : ∀ id, (v.racers id).length ≤ 1 := by
    intro id
    rw [World.racers, hcalls]
    exact List.length_filterMap_le _ _
  induction receivers with
  | nil =>
      exact Nat.le_refl _
  | cons r rest ih =>
      have hfirst := hone r.id
      simp only [List.flatMap_cons, List.length_append, List.length_cons]
      omega

/-- An action contributes to the call, or raises a signal and wakes the strand that listens for it. -/
theorem labour_act
    {rest : Script}
    {a : Action}
    (hplain : a.isPlain = true)
    (hcalls : w.calls = [call])
    (hworker : Worker worker)
    (hready : worker.status = .ready)
    (hrest : worker.rest = .act a :: rest) :
    Labour w main worker call
      (({ w with strands := [main, { worker with index := worker.index + 1, rest }] } : World).act
        worker.list worker.scope a).sight := by
  let next : Strand := { worker with index := worker.index + 1, rest }
  let v : World := { w with strands := [main, next] }
  cases a with
  | contribute accessor stage key value =>
      have hmade : v.contribute? worker.scope stage key value =
          some (v.withCall 0 fun c => { c with contributions := c.contributions.add stage key value }) := by
        rw [World.contribute?, hworker.scope]
        rfl
      have hsight : (v.act worker.list worker.scope (.contribute accessor stage key value)).sight =
          { w.sight with
            strands := [main, next]
            calls := [{ call with contributions := call.contributions.add stage key value }] } := by
        simp only [World.act, hmade]
        refine Sight.ext rfl ?_ rfl rfl rfl rfl rfl rfl rfl
        change w.calls.modify 0 _ = _
        rw [hcalls]
        rfl
      rw [hsight]
      exact .acts hready hrest rfl
  | trigger s =>
      refine .raises hready hrest (length_racers_le (v := v) hcalls _) fun r hr hraced hlistener => ?_
      refine List.mem_flatMap.mpr ⟨r, hr, ?_⟩
      rw [World.racers, hcalls]
      simp [hraced.phase, hraced.owner, hlistener]
  | log line =>
      have hsight : (v.act worker.list worker.scope (.log line)).sight =
          { w.sight with strands := [main, next], calls := [call] } :=
        Sight.ext rfl hcalls rfl rfl rfl rfl rfl rfl rfl
      rw [hsight]
      exact .acts hready hrest rfl
  | _ =>
      cases hplain

/-- A turn of the operation in which there is something for it to do. -/
theorem labour_advance
    (hstrands : w.strands = [main, worker])
    (hcalls : w.calls = [call])
    (hworker : Worker worker)
    (hgoes : w.canAdvance 1 = true) :
    Labour w main worker call (w.advance 1).sight := by
  have hstrand : w.strands[1]? = some worker := by rw [hstrands]; rfl
  have hpass : ∀ rest, w.pass 1 rest =
      { w with strands := [main, { worker with index := worker.index + 1, rest }] } := by
    intro rest
    rw [World.pass, World.withStrand, hstrands]
    rfl
  rcases hworker.status with hready | ⟨deadline, ticket, hsleeps⟩ | ⟨o, hover⟩
  · rw [w.advance_of_ready 1 hstrand hready, World.stepForward]
    cases hrest : worker.rest with
    | nil =>
        exact labour_finish hcalls hready (by simp [hrest]) hworker (by rw [← hstrands]) _
    | cons step rest =>
        have hplain : step.isPlain = true := hworker.steps step (by simp [hrest])
        have hbefore : Worker { worker with index := worker.index + 1, rest } :=
          hworker.goes (fun step hstep => by simp [hrest, hstep]) hworker.status
        simp only [hpass]
        cases step with
        | act a =>
            exact labour_act hplain hcalls hworker hready hrest
        | succeed value =>
            exact labour_finish hcalls hready (by simp [hrest, Step.isQuick]) hbefore rfl _
        | fail f =>
            exact labour_finish hcalls hready (by simp [hrest, Step.isQuick]) hbefore rfl _
        | sleep duration =>
            exact .sleeps hready hrest
        | _ =>
            cases hplain
  · have hdue : deadline ≤ w.clock := by
      simpa [World.canAdvance, hstrand, hsleeps] using hgoes
    have hadvance : w.advance 1 = w.withStatus 1 .ready := by
      simp only [World.advance, hstrand, hgoes, if_true, hsleeps]
    rw [hadvance, World.withStatus, World.withStrand, hstrands]
    exact .wakes hsleeps hdue
  · simp [World.canAdvance, hstrand, hover] at hgoes

end Labour

/-! ## Turns of the main strand -/

section Main

variable {subject : Subject} {body : Script} {w : World} {main worker : Strand} {call : Call}

/-- The strand that carries out an operation, before its first turn. -/
def workerOf (main : Strand) (body : Script) : Strand :=
  ⟨1, World.innerName main.list main.index none, 0, body, some 0, .ready⟩

/-- The call is made: the start is reported, the listener installed and the operation spawned. -/
theorem sight_opening
    (hruntime : w.hasRuntime = true)
    (hstrands : w.strands = [main])
    (hcalls : w.calls = [])
    (hready : main.status = .ready)
    (hrest : main.rest = operation subject body) :
    (w.advance 0).sight =
      { w.sight.hand (w.made? ⟨subject, .started⟩) with
        strands :=
          [{ main with index := main.index + 1, rest := [.drain false], status := .racing 0 },
            workerOf main body]
        calls := [{ w.newCall 0 subject false none with
          listener := w.sight.ear.1
          phase := .racing 1 }]
        channel := w.sight.ear.2
        woken := (w.sight.hand (w.made? ⟨subject, .started⟩)).woken ++ [.strand 1] } := by
  have hstrand : w.strands[0]? = some main := by rw [hstrands]; rfl
  have hpass : w.pass 0 [.drain false] =
      { w with strands := [{ main with index := main.index + 1, rest := [.drain false] }] } := by
    rw [World.pass, World.withStrand, hstrands]
    rfl
  let opened := (w.pass 0 [.drain false]).openCall 0 subject false none
  have hturn : w.advance 0 = opened.startRace 0 (World.innerName main.list main.index none) 0 body := by
    have hnone : (w.pass 0 [.drain false]).calls = [] := hcalls
    have hruns : (w.pass 0 [.drain false]).hasRuntime = true := hruntime
    rw [w.advance_of_opening 0 hstrand hready hrest, World.instrument_eq, hnone,
      World.readied_of_hasRuntime hruns]
    rfl
  have hopened : opened.sight =
      { w.sight.hand (w.made? ⟨subject, .started⟩) with
        strands := [{ main with index := main.index + 1, rest := [.drain false] }]
        calls := [{ w.newCall 0 subject false none with listener := w.sight.ear.1 }]
        channel := w.sight.ear.2 } := by
    have hsight := (w.pass 0 [.drain false]).sight_openCall 0 subject false none
    have hsame : (w.pass 0 [.drain false]).sight =
        { w.sight with strands := [{ main with index := main.index + 1, rest := [.drain false] }] } := by
      rw [hpass]
      rfl
    have hcall : (w.pass 0 [.drain false]).calls = [] := hcalls
    have hmade : (w.pass 0 [.drain false]).made? ⟨subject, .started⟩ = w.made? ⟨subject, .started⟩ := rfl
    rw [hsame, hcall, hmade] at hsight
    refine hsight.trans ?_
    cases w.made? ⟨subject, .started⟩ with
    | _ =>
        rfl
  have hlength : opened.strands.length = 1 := congrArg (fun v => v.strands.length) hopened
  have hrace := opened.sight_startRace 0 (World.innerName main.list main.index none) 0 body
  rw [hturn, hrace, hlength]
  have hstrands' := congrArg Sight.strands hopened
  have hcalls' := congrArg Sight.calls hopened
  have hwoken' := congrArg Sight.woken hopened
  change opened.strands = _ at hstrands'
  change opened.calls = _ at hcalls'
  change opened.woken = _ at hwoken'
  rw [hstrands', hcalls', hwoken', hopened]
  rfl

/-- The race is found decided. -/
theorem sight_deciding
    {s : Settlement}
    (hstrands : w.strands = [main, worker])
    (hcalls : w.calls = [call])
    (hracer : Racer main)
    (hraced : Raced call)
    (hsettled : w.settlement? call = some s) :
    (w.advance 0).sight =
      { w.sight.hand (w.made? (World.endingOf call s w.clock)) with
        strands := [{ main with status := .ready }, worker]
        calls := [{ call with
          listener := .unarmed
          contributions := (call.contributions.take s.ending.stage).2
          phase := .settled s }]
        channel := call.listener.release w.channel } := by
  have hcall : w.calls[0]? = some call := by rw [hcalls]; rfl
  rw [w.advance_of_decided 0 (by rw [hstrands]; rfl) hracer.status hcall hsettled,
    w.sight_conclude 0 main.list hcall hraced.propagate s, hstrands, hcalls]
  rfl

/-- The main strand does not go on in a race that is undecided. -/
theorem advance_undecided
    (hstrands : w.strands = [main, worker])
    (hcalls : w.calls = [call])
    (hracer : Racer main)
    (hraced : Raced call)
    (hopen : w.settlement? call = none) :
    w.canAdvance 0 = false ∧ w.advance 0 = w := by
  have hnever : w.isOverdue call = false := by simp [World.isOverdue, hraced.deadline]
  have hstays : w.canAdvance 0 = false := by
    simp [World.canAdvance, hstrands, hcalls, hracer.status, hopen, hnever]
  exact ⟨hstays, w.advance_of_stuck hstays⟩

/-- The drain begins. -/
theorem sight_draining
    (hstrands : w.strands = [main, worker])
    (hready : main.status = .ready)
    (hrest : main.rest = [.drain false]) :
    (w.advance 0).sight =
      { w.sight with
        strands :=
          [{ main with index := main.index + 1, rest := [], status := .draining w.pending false }, worker]
        pending := [] } := by
  have hpass : w.pass 0 [] =
      { w with strands := [{ main with index := main.index + 1, rest := [] }, worker] } := by
    rw [World.pass, World.withStrand, hstrands]
    rfl
  rw [w.advance_of_draining 0 (by rw [hstrands]; rfl) hready hrest, World.sight_startDrain, hpass]
  rfl

/-- The drain goes on. -/
theorem sight_drained
    {batch : List Nat}
    (hstrands : w.strands = [main, worker])
    (hdrains : main.status = .draining batch false)
    (hgoes : w.canAdvance 0 = true) :
    (w.advance 0).sight =
      { w.sight with strands := [{ main with status := w.statusAfter batch false }, worker] } := by
  have hadvance : w.advance 0 = w.drain 0 main.list batch false := by
    simp [World.advance, hstrands, hgoes, hdrains]
  rw [hadvance, w.sight_drain, hstrands]
  rfl

/-- The main strand comes to its end, and nobody waits for it. -/
theorem sight_ending
    (hstrands : w.strands = [main, worker])
    (hworker : Worker worker)
    (htask : main.task = 0)
    (hready : main.status = .ready)
    (hrest : main.rest = []) :
    (w.advance 0).sight =
      { w.sight with strands := [{ main with status := .finished (.ok .null) }, worker] } := by
  have hstrand : w.strands[0]? = some main := by rw [hstrands]; rfl
  have hnobody : (w.withStatus 0 (.finished (.ok .null))).waiters 0 = [] := by
    rw [World.waiters, World.withStatus, World.withStrand, hstrands]
    rcases hworker.status with hstatus | ⟨_, _, hstatus⟩ | ⟨_, hstatus⟩
    · simp [hstatus]
    · simp [hstatus]
    · simp [hstatus]
  have hadvance : w.advance 0 = w.finish 0 (.ok .null) := by
    rw [w.advance_of_ready 0 hstrand hready, World.stepForward, hrest]
  rw [hadvance, w.sight_finish hstrand htask, hnobody, hstrands, List.append_nil]
  rfl

/-! ## Every turn keeps the scene -/

/-- A turn of the operation changes its strand and what has been contributed to the call. -/
theorem Labour.keeps
    {v : Sight}
    (h : Labour w main worker call v)
    (hcalls : w.calls = [call])
    (hworker : Worker worker) :
    ∃ (next : Strand) (contributions : Contributions), v.strands = [main, next] ∧
      v.calls = [{ call with contributions }] ∧ Worker next ∧
        v.deliveries = w.deliveries ∧ v.pending = w.pending := by
  have hsame : w.sight.calls = [{ call with contributions := call.contributions }] := hcalls
  have hstep : ∀ {step : Step} {rest : Script}, worker.rest = step :: rest →
      ∀ other ∈ rest, other ∈ worker.rest := by
    intro step rest hrest other hother
    simp [hrest, hother]
  cases h with
  | wakes hsleeps hdue =>
      exact ⟨_, _, rfl, hsame, hworker.goes (fun _ h => h) (.inl rfl), rfl, rfl⟩
  | acts hready hrest hquick =>
      exact ⟨_, _, rfl, rfl, hworker.goes (hstep hrest) hworker.status, rfl, rfl⟩
  | raises hready hrest hfew hwakes =>
      exact ⟨_, _, rfl, hsame, hworker.goes (hstep hrest) hworker.status, rfl, rfl⟩
  | sleeps hready hrest =>
      exact ⟨_, _, rfl, hsame, hworker.goes (hstep hrest) (.inr (.inl ⟨_, _, rfl⟩)), rfl, rfl⟩
  | ends hready hquick hdone hover hfew hwakes =>
      exact ⟨_, _, rfl, hsame, hdone, rfl, rfl⟩

/-- The main strand waits on while others have their turns. -/
theorem Waits.congr
    {v after : Sight}
    (h : Waits v main)
    (hpending : after.pending = v.pending)
    (hlength : after.deliveries.length = v.deliveries.length)
    (hdelivered : ∀ n, v.Delivered n → after.Delivered n) :
    Waits after main := by
  cases h with
  | before hstatus hrest hall =>
      exact .before hstatus hrest (by rwa [hpending, hlength])
  | during hstatus hrest hnone hbatch =>
      exact .during hstatus hrest (hpending.trans hnone) fun n => (hbatch n).imp_right (hdelivered n)
  | back hstatus hrest hnone hover =>
      exact .back hstatus hrest (hpending.trans hnone) fun n => hdelivered n (hover n)
  | ended hstatus hnone hover =>
      exact .ended hstatus (hpending.trans hnone) fun n => hdelivered n (hover n)

/-- A delivery that is made waits to be drained. -/
theorem pending_hand
    {v : Sight}
    (h : ∀ n, n < v.deliveries.length → n ∈ v.pending)
    (made : Option Delivery) :
    ∀ n, n < (v.hand made).deliveries.length → n ∈ (v.hand made).pending := by
  intro n hn
  cases made with
  | none =>
      exact h n hn
  | some d =>
      simp only [Sight.hand, List.length_append, List.length_singleton, List.mem_append,
        List.mem_singleton] at hn ⊢
      rcases Nat.lt_or_ge n v.deliveries.length with hold | hnew
      · exact .inl (h n hold)
      · exact .inr (by omega)

/-- A race that nothing is aborted in is decided by the operation, or else by a signal. -/
theorem settlement?_eq
    (hstrands : w.strands = [main, worker])
    (hworker : Worker worker)
    (hraced : Raced call) :
    w.settlement? call =
      match worker.status with
      | .finished o => some (.ofOutcome o)
      | _ => (call.listener.signal? w.clock w.channel).map .interrupted := by
  rcases hworker.status with hstatus | ⟨deadline, ticket, hstatus⟩ | ⟨o, hstatus⟩
  · simp [World.settlement?, hraced.phase, hstrands, hstatus]
  · simp [World.settlement?, hraced.phase, hstrands, hstatus]
  · simp [World.settlement?, hraced.phase, hstrands, hstatus]

theorem arbiter_ne_abortion
    {s : Settlement}
    (hstrands : w.strands = [main, worker])
    (hworker : Worker worker)
    (hraced : Raced call)
    (hsettled : w.settlement? call = some s) :
    s.arbiter ≠ .abortion := by
  rw [settlement?_eq hstrands hworker hraced] at hsettled
  split at hsettled
  · next o hstatus =>
      cases hsettled
      cases o with
      | _ =>
          intro habortion
          cases habortion
  · obtain ⟨signal, -, rfl⟩ := Option.map_eq_some_iff.mp hsettled
    intro habortion
    cases habortion

/-- The turns of the main strand after the race. -/
theorem Waits.advance
    (h : Waits w.sight main)
    (hstrands : w.strands = [main, worker])
    (hworker : Worker worker)
    (htask : main.task = 0) :
    ∃ next : Strand, next.task = 0 ∧ (w.advance 0).sight.strands = [next, worker] ∧
      (w.advance 0).sight.calls = w.calls ∧ Waits (w.advance 0).sight next := by
  have hstays : w.canAdvance 0 = false → ∃ next : Strand, next.task = 0 ∧
      (w.advance 0).sight.strands = [next, worker] ∧ (w.advance 0).sight.calls = w.calls ∧
        Waits (w.advance 0).sight next := by
    intro hnot
    rw [w.advance_of_stuck hnot]
    exact ⟨main, htask, hstrands, rfl, h⟩
  cases h with
  | before hstatus hrest hall =>
      rw [sight_draining hstrands hstatus hrest]
      refine ⟨{ main with index := main.index + 1, rest := [], status := .draining w.pending false }, htask,
        rfl, rfl, .during rfl rfl rfl fun n => ?_⟩
      rcases Nat.lt_or_ge n w.deliveries.length with hn | hn
      · exact .inl (hall n hn)
      · refine .inr fun d hd => ?_
        have hnone : w.deliveries[n]? = none := List.getElem?_eq_none hn
        exact absurd (hnone.symm.trans hd) (by simp)
  | @during batch hstatus hrest hnone hbatch =>
      by_cases hgoes : w.canAdvance 0 = true
      · rw [sight_drained hstrands hstatus hgoes]
        have hleft : ∀ n, n ∈ w.unsettled batch ∨ w.sight.Delivered n := by
          intro n
          by_cases hn : w.isDelivered n = true
          · exact .inr ((w.isDelivered_iff n).mp hn)
          · refine (hbatch n).imp_left fun hmem => ?_
            exact List.mem_filter.mpr ⟨hmem, by simpa using hn⟩
        refine ⟨{ main with status := w.statusAfter batch false }, htask, rfl, rfl, ?_⟩
        by_cases hempty : (w.unsettled batch).isEmpty = true
        · refine .back (if_pos hempty) hrest hnone fun n => (hleft n).resolve_left ?_
          rw [List.isEmpty_iff.mp hempty]
          exact List.not_mem_nil
        · exact .during (if_neg hempty) hrest hnone hleft
      · exact hstays (by simpa using hgoes)
  | back hstatus hrest hnone hover =>
      rw [sight_ending hstrands hworker htask hstatus hrest]
      exact ⟨{ main with status := .finished (.ok .null) }, htask, rfl, rfl, .ended rfl hnone hover⟩
  | ended hstatus hnone hover =>
      exact hstays (by simp [World.canAdvance, hstrands, hstatus])

/-- Nobody else than the two strands of a race can go on. -/
theorem eq_or_stuck
    (hstrands : w.strands = [main, worker])
    (id : Nat) :
    id = 0 ∨ id = 1 ∨ w.canAdvance id = false := by
  rcases Nat.lt_or_ge id 2 with hparty | hnobody
  · omega
  · have hnone : w.strands[id]? = none := List.getElem?_eq_none (by rw [hstrands]; exact hnobody)
    exact .inr (.inr (by simp [World.canAdvance, hnone]))

/-- Whoever has a turn, a session stays in its scenes. -/
theorem Scene.advance
    (h : Scene subject body w.sight)
    (hbody : ∀ step ∈ body, step.isPlain = true)
    (id : Nat) :
    Scene subject body (w.advance id).sight := by
  have hstays : w.canAdvance id = false → Scene subject body (w.advance id).sight := by
    intro hnot
    rwa [w.advance_of_stuck hnot]
  cases h with
  | @ahead main hstrands hcalls htask hready hrest hdeliveries hpending hruntime =>
      have hstrands : w.strands = [main] := hstrands
      cases id with
      | succ id =>
          exact hstays (by simp [World.canAdvance, hstrands])
      | zero =>
          rw [sight_opening hruntime hstrands hcalls hready hrest]
          have hnobody : ∀ n, n < w.sight.deliveries.length → n ∈ w.sight.pending := by
            intro n hn
            rw [hdeliveries] at hn
            cases hn
          exact .racing rfl rfl ⟨htask, rfl, rfl⟩ ⟨rfl, rfl, hbody, .inl rfl⟩ ⟨rfl, rfl, rfl, rfl⟩
            (pending_hand hnobody _)
  | @racing main worker call hstrands hcalls hracer hworker hraced hpending =>
      have hstrands : w.strands = [main, worker] := hstrands
      have hcalls : w.calls = [call] := hcalls
      rcases eq_or_stuck hstrands id with rfl | rfl | hnobody
      · cases hsettled : w.settlement? call with
        | none =>
            exact hstays (advance_undecided hstrands hcalls hracer hraced hsettled).1
        | some s =>
            rw [sight_deciding hstrands hcalls hracer hraced hsettled]
            exact .decided rfl rfl hracer.task hworker rfl
              (arbiter_ne_abortion hstrands hworker hraced hsettled)
              (.before rfl hracer.rest (pending_hand hpending _))
      · by_cases hgoes : w.canAdvance 1 = true
        · obtain ⟨next, contributions, hstrands', hcalls', hnext, hdeliveries, hwaiting⟩ :=
            (labour_advance hstrands hcalls hworker hgoes).keeps hcalls hworker
          refine .racing hstrands' hcalls' hracer hnext
            ⟨hraced.owner, hraced.phase, hraced.propagate, hraced.deadline⟩ ?_
          rw [hdeliveries, hwaiting]
          exact hpending
        · exact hstays (by simpa using hgoes)
      · exact hstays hnobody
  | @decided main worker call s hstrands hcalls htask hworker hphase hown hwaits =>
      have hstrands : w.strands = [main, worker] := hstrands
      have hcalls : w.calls = [call] := hcalls
      rcases eq_or_stuck hstrands id with rfl | rfl | hnobody
      · obtain ⟨next, hnext, hstrands', hcalls', hwaits'⟩ := hwaits.advance hstrands hworker htask
        exact .decided hstrands' (hcalls'.trans hcalls) hnext hworker hphase hown hwaits'
      · by_cases hgoes : w.canAdvance 1 = true
        · obtain ⟨next, contributions, hstrands', hcalls', hnext, hdeliveries, hwaiting⟩ :=
            (labour_advance hstrands hcalls hworker hgoes).keeps hcalls hworker
          refine .decided hstrands' hcalls' htask hnext hphase hown
            (hwaits.congr hwaiting (congrArg _ hdeliveries) fun n hn => ?_)
          rw [Sight.Delivered, hdeliveries]
          exact hn
        · exact hstays (by simpa using hgoes)
      · exact hstays hnobody

/-- What is seen of strands, calls and deliveries decides on the scene. -/
theorem Scene.congr
    {v after : Sight}
    (h : Scene subject body v)
    (hstrands : after.strands = v.strands)
    (hcalls : after.calls = v.calls)
    (hpending : after.pending = v.pending)
    (hlength : after.deliveries.length = v.deliveries.length)
    (hdelivered : ∀ n, v.Delivered n → after.Delivered n)
    (hruntime : after.hasRuntime = v.hasRuntime) :
    Scene subject body after := by
  cases h with
  | ahead hone hnone htask hready hrest hdeliveries hwaiting hruns =>
      refine .ahead (hstrands.trans hone) (hcalls.trans hnone) htask hready hrest ?_
        (hpending.trans hwaiting) (hruntime.trans hruns)
      rw [hdeliveries] at hlength
      exact List.eq_nil_of_length_eq_zero hlength
  | racing hboth hone hracer hworker hraced hall =>
      exact .racing (hstrands.trans hboth) (hcalls.trans hone) hracer hworker hraced
        (by rwa [hpending, hlength])
  | decided hboth hone htask hworker hphase hown hwaits =>
      exact .decided (hstrands.trans hboth) (hcalls.trans hone) htask hworker hphase hown
        (hwaits.congr hpending hlength hdelivered)

/-- So do deliveries, time and signals keep it. -/
theorem Scene.deliver
    (h : Scene subject body w.sight)
    (id : Nat) :
    Scene subject body (w.deliver id).sight := by
  have hbackground := w.background_deliver id
  refine h.congr hbackground.strands hbackground.calls hbackground.pending hbackground.deliveries ?_
    hbackground.hasRuntime
  intro n hn
  exact ((w.deliver id).isDelivered_iff n).mp (hbackground.delivered n ((w.isDelivered_iff n).mpr hn))

/-- Nothing that happens to a session takes it out of its scenes, unless something is aborted. -/
theorem Scene.move
    (h : Scene subject body w.sight)
    (hbody : ∀ step ∈ body, step.isPlain = true)
    {m : Move}
    (hm : ∀ task, m ≠ .abort task) :
    Scene subject body (w.move m).sight := by
  cases m with
  | advance id =>
      exact h.advance hbody id
  | deliver id =>
      exact h.deliver id
  | pass time =>
      exact h.congr rfl rfl rfl rfl (fun _ hn => hn) rfl
  | signal s =>
      exact h.congr rfl rfl rfl rfl (fun _ hn => hn) rfl
  | abort task =>
      exact (hm task rfl).elim

theorem Scene.moves
    (h : Scene subject body w.sight)
    (hbody : ∀ step ∈ body, step.isPlain = true)
    {ms : List Move}
    (hms : ∀ m ∈ ms, ∀ task, m ≠ .abort task) :
    Scene subject body (w.moves ms).sight := by
  induction ms generalizing w with
  | nil =>
      exact h
  | cons m rest ih =>
      exact ih (h.move hbody (hms m List.mem_cons_self)) fun other hother =>
        hms other (List.mem_cons_of_mem m hother)

end Main
end Session
end LifecycleTelemetry
