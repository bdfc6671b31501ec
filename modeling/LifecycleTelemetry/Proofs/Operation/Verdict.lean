import LifecycleTelemetry.Proofs.Operation.CallStep

/-!
# What is reported and what the caller gets

When a strand finds the race of its call decided, two things leave the call: a report, and an
outcome for the caller. `Agrees` lists which of them belong together, for each way in which a
race is decided, and `Cause` lists these ways. An operation that is over has decided the race,
whatever signal may be waiting by then.

The main result is `verdicts_of_evolves`. Whenever a race has been decided in a world that a
program may come to, the next turn of its strand reports and hands over what belongs together;
and every call that has been decided by now was decided in such a turn.
-/

namespace LifecycleTelemetry

/-! ## Marks of cancellation -/

/-- The mark that counts in a failure: the first one from outside, as long as only texts stand
before it. -/
inductive Failure.Marked : Failure → Failure.Cancellation → Prop where
  | cause
      (c : Failure.Cancellation) :
      Marked (.cancelled c) c
  | context
      (c : Failure.Cancellation)
      (inner : Failure) :
      Marked (.context (.cancelled c) inner) c
  | text
      {inner : Failure}
      {c : Failure.Cancellation}
      (text : String)
      (h : Marked inner c) :
      Marked (.context (.text text) inner) c

theorem Failure.Marked.cancellation?
    {f : Failure}
    {c : Failure.Cancellation}
    (h : f.Marked c) :
    f.cancellation? = some c := by
  induction h with
  | cause c =>
      rfl
  | context c inner =>
      rfl
  | text text _ ih =>
      exact ih

theorem Failure.marked_of_cancellation?
    {f : Failure}
    {c : Failure.Cancellation}
    (h : f.cancellation? = some c) :
    f.Marked c := by
  fun_induction Failure.cancellation? f with
  | case1 own =>
      cases h
      exact .cause c
  | case2 own inner =>
      cases h
      exact .context c inner
  | case3 text inner ih =>
      exact .text text (ih h)
  | case4 f _ _ _ =>
      cases h

/-- A failure is a cancellation exactly when a mark counts in it. -/
theorem Failure.isCancellation_iff
    (f : Failure) :
    f.isCancellation = true ↔ ∃ c, f.Marked c := by
  constructor
  · intro h
    obtain ⟨c, hc⟩ := Option.isSome_iff_exists.mp h
    exact ⟨c, f.marked_of_cancellation? hc⟩
  · rintro ⟨c, hc⟩
    simp [isCancellation, hc.cancellation?]

/-! ## Endings and outcomes -/

/-- Which ending is reported, and which outcome the caller gets, for each way in which a race
may be decided. -/
inductive Agrees : Settlement → Ending → Outcome → Prop where
  | value
      (v : Json) :
      Agrees (.value v) .completed (.ok v)
  | marked
      {f : Failure}
      {c : Failure.Cancellation}
      (hmark : f.Marked c) :
      Agrees (.failure f) (.cancelled c.signal) (.err f)
  | unmarked
      {f : Failure}
      {info : ErrorInfo}
      (hmark : ∀ c, ¬ f.Marked c)
      (hmessage : info.message = f.chain.head?) :
      Agrees (.failure f) (.errored info) (.err f)
  | panicked
      {p : PanicPayload}
      {info : ErrorInfo}
      (hmessage : ∀ text, info.message = some text ↔ p = .fixedText text ∨ p = .ownedText text) :
      Agrees (.panicked p) (.errored info) (.panic p)
  | aborted :
      Agrees .aborted (.cancelled none) (.err (.cancelled ⟨none⟩))
  | interrupted
      (signal : Signal) :
      Agrees (.interrupted signal) (.cancelled (some signal.name))
        (.err (.cancelled ⟨some signal.name⟩))

theorem agrees_failure
    (f : Failure) :
    Agrees (.failure f) (Settlement.failure f).ending (.err f) := by
  cases hcancel : f.cancellation? with
  | some c =>
      simp only [Settlement.ending, hcancel]
      exact .marked (f.marked_of_cancellation? hcancel)
  | none =>
      simp only [Settlement.ending, hcancel]
      refine .unmarked ?_ ?_
      · intro c hmark
        simp [hmark.cancellation?] at hcancel
      · obtain ⟨text, rest, hchain⟩ := List.exists_cons_of_ne_nil f.chain_ne_nil
        simp [ErrorInfo.ofFailure, Failure.text, hchain]

theorem agrees_panicked
    (p : PanicPayload) :
    Agrees (.panicked p) (Settlement.panicked p).ending (.panic p) := by
  refine .panicked fun text => ?_
  cases p with
  | _ =>
      simp [ErrorInfo.ofPanic, PanicPayload.text?]

/-- What is reported and what the caller gets belong together. -/
theorem agrees_settlement
    (s : Settlement) :
    Agrees s s.ending s.outcome := by
  cases s with
  | value v =>
      exact .value v
  | failure f =>
      exact agrees_failure f
  | panicked p =>
      exact agrees_panicked p
  | aborted =>
      exact .aborted
  | interrupted signal =>
      exact .interrupted signal

/-- A cancellation is reported exactly when the caller gets one. -/
theorem Agrees.cancelled_iff
    {s : Settlement}
    {ending : Ending}
    {o : Outcome}
    (h : Agrees s ending o) :
    (∃ signal, ending = .cancelled signal) ↔ ∃ f, o = .err f ∧ f.isCancellation = true := by
  cases h with
  | value v =>
      simp
  | marked hmark =>
      simp [Failure.isCancellation, hmark.cancellation?]
  | unmarked hmark _ =>
      simp [Failure.isCancellation_iff, hmark]
  | panicked _ =>
      simp
  | aborted =>
      simp [Failure.isCancellation, Failure.cancellation?]
  | interrupted signal =>
      simp [Failure.isCancellation, Failure.cancellation?]

namespace World

/-! ## How a race is decided -/

/-- How the race of a call is decided: by its operation, if that is over in one way or another,
and otherwise by a signal that its listener has got. -/
inductive Cause (w : World) (call : Call) : Settlement → Prop where
  | ended
      {body : Nat}
      {o : Outcome}
      (hphase : call.phase = .racing body)
      (hended : w.outcome? body = some o) :
      Cause w call (.ofOutcome o)
  | aborted
      {body : Nat}
      {strand : Strand}
      (hphase : call.phase = .racing body)
      (hstrand : w.strands[body]? = some strand)
      (haborted : strand.status = .aborted) :
      Cause w call .aborted
  | interrupted
      {body : Nat}
      {signal : Signal}
      (hphase : call.phase = .racing body)
      (hrunning : w.outcome? body = none)
      (hwhole : ∀ strand, w.strands[body]? = some strand → strand.status ≠ .aborted)
      (hsignal : call.listener.signal? w.clock w.channel = some signal) :
      Cause w call (.interrupted signal)

section Cause

variable {w : World} {call : Call}

theorem cause_of_settlement?
    {s : Settlement}
    (h : w.settlement? call = some s) :
    Cause w call s := by
  obtain ⟨body, hphase⟩ := racing_of_settlement? h
  unfold settlement? at h
  simp only [hphase] at h
  cases hstrand : w.strands[body]? with
  | none =>
      simp only [hstrand, Option.map_none] at h
      obtain ⟨signal, hsignal, rfl⟩ := Option.map_eq_some_iff.mp h
      exact .interrupted hphase (by simp [outcome?, hstrand]) (by simp [hstrand]) hsignal
  | some strand =>
      simp only [hstrand, Option.map_some] at h
      cases hstatus : strand.status with
      | finished o =>
          simp only [hstatus] at h
          cases h
          exact .ended hphase (by simp [outcome?, hstrand, hstatus])
      | aborted =>
          simp only [hstatus] at h
          cases h
          exact .aborted hphase hstrand hstatus
      | _ =>
          simp only [hstatus] at h
          obtain ⟨signal, hsignal, rfl⟩ := Option.map_eq_some_iff.mp h
          exact .interrupted hphase (by simp [outcome?, hstrand, hstatus])
            (by simp [hstrand, hstatus]) hsignal

theorem outcome?_eq_some_iff
    {id : Nat}
    {o : Outcome} :
    w.outcome? id = some o ↔
      ∃ strand, w.strands[id]? = some strand ∧ strand.status = .finished o := by
  unfold outcome?
  cases w.strands[id]? with
  | none =>
      simp
  | some strand =>
      cases hstatus : strand.status with
      | _ =>
          simp [hstatus]

/-- An operation that is over decides the race, whatever the listener has got. -/
theorem settlement?_of_ended
    {body : Nat}
    {o : Outcome}
    (hphase : call.phase = .racing body)
    (hended : w.outcome? body = some o) :
    w.settlement? call = some (.ofOutcome o) := by
  obtain ⟨strand, hstrand, hstatus⟩ := outcome?_eq_some_iff.mp hended
  simp [settlement?, hphase, hstrand, hstatus]

theorem settlement?_of_cause
    {s : Settlement}
    (h : Cause w call s) :
    w.settlement? call = some s := by
  cases h with
  | ended hphase hended =>
      exact settlement?_of_ended hphase hended
  | aborted hphase hstrand haborted =>
      simp [settlement?, hphase, hstrand, haborted]
  | @interrupted body signal hphase hrunning hwhole hsignal =>
      unfold settlement?
      simp only [hphase]
      cases hstrand : w.strands[body]? with
      | none =>
          simp [hsignal]
      | some strand =>
          have hnot := hwhole strand hstrand
          cases hstatus : strand.status with
          | finished o =>
              simp [outcome?, hstrand, hstatus] at hrunning
          | aborted =>
              exact (hnot hstatus).elim
          | _ =>
              simp [hstatus, hsignal]

end Cause

/-! ## Verdicts -/

/-- What the turn of a strand does that finds the race of its call decided: the ending is
reported, the outcome is given to the caller, and the two belong together. -/
structure Verdict (w : World) (id number : Nat) (strand : Strand) (call : Call) (s : Settlement)
    (ending : Ending) (o : Outcome) : Prop where
  agrees : Agrees s ending o
  reported : ∀ n, (w.advance id).reports n =
    if n = number ∧ w.isReporting then
      w.reports n ++ [w.reportAt w.clock ⟨call.subject,
        .ended ending (call.contributions.take ending.stage).1 (elapsed call.startedAt w.clock)⟩]
    else w.reports n
  given : (w.advance id).history.head? =
    some ⟨w.clock, .recorded strand.list .instrument (.outcome o)⟩
  handed : (w.advance id).strands[id]? =
    some { strand with status := handedStatus o call.propagate }
  cancelled : (∃ signal, ending = .cancelled signal) ↔ ∃ f, o = .err f ∧ f.isCancellation = true

theorem verdict_of_settlement?
    {w : World}
    {id number : Nat}
    {strand : Strand}
    {call : Call}
    {s : Settlement}
    (hstrand : w.strands[id]? = some strand)
    (hracing : strand.status = .racing number)
    (hcall : w.calls[number]? = some call)
    (hsettled : w.settlement? call = some s) :
    Verdict w id number strand call s s.ending s.outcome := by
  have hturn := w.advance_of_decided id hstrand hracing hcall hsettled
  refine ⟨agrees_settlement s, ?_, ?_, ?_, (agrees_settlement s).cancelled_iff⟩
  · rw [hturn]
    exact (concludes_conclude id w strand.list number call s).reports
  · rw [hturn]
    exact head_conclude id w strand.list number call s
  · rw [hturn]
    exact strand_conclude id w hstrand strand.list number call s

/-- The verdicts of a program that has come from one world to another. -/
structure Verdicts (first w : World) : Prop where
  /-- A race that has been decided ends in the next turn of its strand, by a verdict on its
  cause. -/
  pronounced : ∀ id number strand call s,
    w.strands[id]? = some strand → strand.status = .racing number →
    w.calls[number]? = some call → Cause w call s →
    ∃ ending o, Verdict w id number strand call s ending o
  /-- An operation that is over has decided its race, whatever the listener has got in the
  meantime. -/
  operationFirst : ∀ (call : Call) (body : Nat) (o : Outcome) (channel : Channel)
    (listener : Listener), call.phase = .racing body → w.outcome? body = some o →
    ({ w with channel } : World).settlement? { call with listener } = some (.ofOutcome o)
  /-- A race has at most one cause. -/
  unique : ∀ call s other, Cause w call s → Cause w call other → s = other
  /-- Every call that has been decided was decided by a verdict. -/
  traced : ∀ number call s, w.calls[number]? = some call → call.phase = .settled s →
    ∃ u id strand before ending o,
      Evolves first u ∧ u.strands[id]? = some strand ∧ strand.status = .racing number ∧
      u.calls[number]? = some before ∧ Cause u before s ∧
      Verdict u id number strand before s ending o ∧ Evolves (u.advance id) w

/-- In every world that a program may come to, what is reported and what callers get agree. -/
theorem verdicts_of_evolves
    {reporter : Reporter}
    {hasRuntime : Bool}
    {stamps : Nat → Int}
    {source : InterruptSource}
    {plans : List DeliveryPlan}
    {w : World}
    (h : Evolves (World.start reporter hasRuntime stamps source plans) w) :
    Verdicts (World.start reporter hasRuntime stamps source plans) w where
  pronounced := by
    intro id number strand call s hstrand hracing hcall hcause
    have hsettled := settlement?_of_cause hcause
    exact ⟨_, _, verdict_of_settlement? hstrand hracing hcall hsettled⟩
  operationFirst := by
    intro call body o channel listener hphase hended
    exact @settlement?_of_ended { w with channel } { call with listener } body o hphase hended
  unique := by
    intro call s other hs hother
    have hsettled := settlement?_of_cause hs
    rw [settlement?_of_cause hother] at hsettled
    exact (Option.some.inj hsettled).symm
  traced := by
    intro number call s hcall hphase
    rcases h.origin_settled (racesOwned_of_evolves .refl) (getElem?_outlines hcall) hphase with
      hold | ⟨u, id, strand, before, hpast, hstrand, hracing, hbefore, hsettled, -, hlater⟩
    · cases hold
    · exact ⟨u, id, strand, before, _, _, hpast, hstrand, hracing, hbefore,
        cause_of_settlement? hsettled,
        verdict_of_settlement? hstrand hracing hbefore hsettled, hlater⟩

/-- For instance, in a program whose operation calls itself off. -/
theorem verdicts_plainRun :
    let script := [.instrument none (.session []) []
      [.fail (.context (.text "while asking") (.cancelled ⟨some "SIGINT"⟩))] false none]
    let w := plainRun [] script [.advance 0, .advance 1, .advance 0]
    (w.reports 0).map Report.stage = [.started, .cancelled] ∧
      Verdicts (World.start plainReporter true plainStamps .channel []) w :=
  ⟨by decide +kernel, verdicts_of_evolves (evolves_plainRun _ _ _)⟩

end World
end LifecycleTelemetry
