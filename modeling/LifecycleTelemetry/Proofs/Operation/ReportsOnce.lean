import LifecycleTelemetry.Proofs.Operation.CallStep

/-!
# Every call reports its start, and its ending once

A reporter that is enabled, has a transport and runs inside a runtime hands over whatever a call
reports. Under such a reporter a call has reported its start as long as it is being raced. Once
its race has been decided it has reported its start and one ending, and nothing that happens
later adds a further report.

The invariant `Accounted` says for each number of a call what it has reported so far. A single
change of the world keeps it because of what the change means to that call, and by induction it
holds of every world that a program may come to.

The order of things within one turn is not visible between turns. It is told by the two turns
themselves: the start has been reported in the world in which the operation is built, and the
ending in the one from which the caller gets its outcome.
-/

namespace LifecycleTelemetry
namespace World

open Json (Fields)

/-! ## What is to be reported -/

/-- The report of the start of a call. -/
def startReport (w : World) (call : Call) : Report :=
  w.reportAt call.startedAt ⟨call.subject, .started⟩

/-- The report of the ending of a call whose race has been decided at a time. -/
def endReport (w : World) (call : Call) (s : Settlement) (contributed : Fields) (stop : Nat) :
    Report :=
  w.reportAt stop ⟨call.subject, .ended s.ending contributed (elapsed call.startedAt stop)⟩

/-- The name under which the ending of a call is reported, by its stage. -/
def endNames (call : Call) : List (Stage × String) :=
  [(.completed, call.subject.title ++ " completed"),
    (.cancelled, call.subject.title ++ " cancelled"),
    (.errored, call.subject.title ++ " errored")]

theorem name_startReport
    (w : World)
    (call : Call) :
    (w.startReport call).stage = .started ∧
      (w.startReport call).message.event = call.subject.title ++ " started" := by
  refine ⟨rfl, ?_⟩
  simp [startReport, reportAt, messageOf, DeliveryClient.message, Event.name, Event.stage,
    Stage.name, String.append_assoc]

theorem name_endReport
    (w : World)
    (call : Call)
    (s : Settlement)
    (contributed : Fields)
    (stop : Nat) :
    ((w.endReport call s contributed stop).stage,
      (w.endReport call s contributed stop).message.event) ∈ endNames call := by
  have hname : (w.endReport call s contributed stop).message.event =
      call.subject.title ++ (" " ++ s.ending.stage.toStage.name) := by
    simp [endReport, reportAt, messageOf, DeliveryClient.message, Event.name, Event.stage,
      String.append_assoc]
  have hstage : (w.endReport call s contributed stop).stage = s.ending.stage.toStage := rfl
  rw [hname, hstage]
  cases s.ending.stage with
  | completed =>
      exact List.mem_cons_self
  | cancelled =>
      exact List.mem_cons_of_mem _ List.mem_cons_self
  | errored =>
      exact List.mem_cons_of_mem _ (List.mem_cons_of_mem _ List.mem_cons_self)

/-! ## The invariant -/

/-- What a call has reported, by its phase. A call is never seen while its operation is being
built. -/
def HasReported (w : World) (call : Call) (reports : List Report) : Prop :=
  match call.phase with
  | .building => False
  | .settled s => ∃ stop contributed, call.startedAt ≤ stop ∧ stop ≤ w.clock ∧
      reports = [w.startReport call, w.endReport call s contributed stop]
  | _ => reports = [w.startReport call]

/-- What has been reported under a number, given the outline of the call with that number. -/
def Accounts (w : World) (reports : List Report) : Option Call → Prop
  | none => reports = []
  | some call => call.startedAt ≤ w.clock ∧ w.HasReported call reports

/-- All reports are accounted for. -/
structure Accounted (w : World) : Prop where
  owned : RacesOwned w
  awaited : CallsAwaited w
  reporting : w.isReporting = true
  accounts : ∀ n, w.Accounts (w.reports n) w.outlines[n]?

section Accounted

variable {w after : World}

/-- What a call has reported stays right as time goes by. -/
theorem Endures.accounts
    (h : Endures w after)
    {reports : List Report}
    {call : Option Call}
    (hw : w.Accounts reports call) :
    after.Accounts reports call := by
  cases call with
  | none =>
      exact hw
  | some call =>
      obtain ⟨hclock, hreported⟩ := hw
      refine ⟨Nat.le_trans hclock h.clock, ?_⟩
      unfold HasReported startReport endReport at *
      simp only [h.reportAt]
      cases hphase : call.phase with
      | settled s =>
          simp only [hphase] at hreported ⊢
          obtain ⟨stop, contributed, hstart, hstop, heq⟩ := hreported
          exact ⟨stop, contributed, hstart, Nat.le_trans hstop h.clock, heq⟩
      | building =>
          simp only [hphase] at hreported
      | _ =>
          simp only [hphase] at hreported ⊢
          exact hreported

/-- A change adds to the reports of a call exactly what its new phase calls for. -/
theorem CallChange.accounts
    {n : Nat}
    (h : CallChange n w after)
    (hendures : Endures w after)
    (hreporting : w.isReporting = true)
    (hw : w.Accounts (w.reports n) w.outlines[n]?) :
    after.Accounts (after.reports n) after.outlines[n]? := by
  cases h with
  | unchanged houtline hreports =>
      rw [houtline, hreports]
      exact hendures.accounts hw
  | @made id strand call hnew _ _ hafter hbegins hstart hreports =>
      have hnone : w.outlines[n]? = none :=
        List.getElem?_eq_none (by rw [outlines_length]; omega)
      rw [hnone] at hw
      rw [hafter, hreports, if_pos hreporting, show w.reports n = [] from hw]
      have hreported : w.HasReported call [w.startReport call] := by
        unfold HasReported
        rcases hbegins with ⟨body, hphase⟩ | ⟨p, hphase, -⟩ <;>
          simp [hphase]
      have haccounts : w.Accounts [w.startReport call] (some call) :=
        ⟨Nat.le_of_eq hstart, hreported⟩
      rw [startReport, hstart] at haccounts
      exact hendures.accounts haccounts
  | @settled id strand call s _ _ hcall hsettled _ hafter hreports =>
      obtain ⟨body, hphase⟩ := racing_of_settlement? hsettled
      rw [getElem?_outlines hcall] at hw
      obtain ⟨hclock, hreported⟩ := hw
      have hphase' : call.outline.phase = .racing body := hphase
      simp only [HasReported, hphase'] at hreported
      rw [hafter, hreports, if_pos hreporting, hreported]
      have haccounts : w.Accounts
          [w.startReport call, w.reportAt w.clock (endingOf call s w.clock)]
          (some (call.outline.withPhase (.settled s))) :=
        ⟨hclock, w.clock, _, hclock, Nat.le_refl _, rfl⟩
      exact hendures.accounts haccounts
  | @dropped call body houtline hphase hafter hreports =>
      rw [houtline] at hw
      obtain ⟨hclock, hreported⟩ := hw
      simp only [HasReported, hphase] at hreported
      rw [hafter, hreports]
      have haccounts : w.Accounts [w.startReport call] (some (call.withPhase .abandoned)) :=
        ⟨hclock, rfl⟩
      rw [hreported]
      exact hendures.accounts haccounts

theorem Accounted.change
    (hw : Accounted w)
    (h : Change w after) :
    Accounted after where
  owned := hw.owned.change h
  awaited := hw.awaited.change h
  reporting := by rw [(endures_of_change h).isReporting, hw.reporting]
  accounts := fun n =>
    (callChange_of_change hw.owned h n).accounts (endures_of_change h) hw.reporting
      (hw.accounts n)

theorem Accounted.evolves
    (hw : Accounted w)
    (h : Evolves w after) :
    Accounted after :=
  h.induct hw fun _ _ _ _ hu hchange => hu.change hchange

end Accounted

/-! ## Every call reports once -/

/-- What a call reports, and when. -/
structure ReportsOnce (w : World) : Prop where
  /-- No call, no report. -/
  unmade : ∀ n, w.calls[n]? = none → w.reports n = []
  /-- A call that is being raced has not come back, and has reported its start and nothing else. -/
  undecided : ∀ n call body, w.calls[n]? = some call → call.phase = .racing body →
    w.race? call.owner = some n ∧ w.reports n = [w.startReport call]
  /-- A call that has come back is over. -/
  returned : ∀ n call, w.calls[n]? = some call → w.race? call.owner ≠ some n →
    call.phase.isOver = true
  /-- A call whose race has been decided has reported its start and one ending, in this order. -/
  decided : ∀ n call s, w.calls[n]? = some call → call.phase = .settled s →
    ∃ stop contributed, call.startedAt ≤ stop ∧ stop ≤ w.clock ∧
      w.reports n = [w.startReport call, w.endReport call s contributed stop]
  /-- The two have the names of a start and of an ending of the same subject. -/
  named : ∀ n call s, w.calls[n]? = some call → call.phase = .settled s →
    ∃ first last, w.reports n = [first, last] ∧
      (first.stage, first.message.event) = (.started, call.subject.title ++ " started") ∧
      (last.stage, last.message.event) ∈ endNames call
  /-- Any other call has reported its start. -/
  otherwise : ∀ n call, w.calls[n]? = some call → (∀ s, call.phase ≠ .settled s) →
    call.phase ≠ .building ∧ w.reports n = [w.startReport call]
  /-- The start of a call has been reported before the part that builds its operation runs. -/
  opening : ∀ id strand name subject steps body rest propagate abandonAfter,
    w.strands[id]? = some strand → strand.status = .ready →
    strand.rest = .instrument name subject steps body propagate abandonAfter :: rest →
    let number := w.calls.length
    let inner := innerName strand.list strand.index name
    let opened := (w.pass id rest).openCall id subject propagate abandonAfter
    opened.reports number = [w.reportAt w.clock ⟨subject, .started⟩] ∧
      w.advance id =
        match opened.build inner number steps with
        | (some p, built) => built.collapse id strand.list number p propagate
        | (none, built) => built.startRace id inner number body
  /-- The ending of a call has been reported before its caller gets the outcome. -/
  closing : ∀ id strand number call s,
    w.strands[id]? = some strand → strand.status = .racing number →
    w.calls[number]? = some call → w.settlement? call = some s →
    let contributed := (call.contributions.take s.ending.stage).1
    let reported := w.reportEnding number call s
    reported.reports number = [w.startReport call, w.endReport call s contributed w.clock] ∧
      w.advance id =
        (reported.record strand.list .instrument (.outcome s.outcome)).hand id s.outcome
          call.propagate
  /-- A call that is over reports nothing more, whatever happens. -/
  final : ∀ n call later, w.calls[n]? = some call → call.phase.isOver = true →
    Evolves w later → later.reports n = w.reports n

section ReportsOnce

variable {w : World}

theorem Accounted.hasReported
    (hw : Accounted w)
    {n : Nat}
    {call : Call}
    (hcall : w.calls[n]? = some call) :
    w.HasReported call (w.reports n) := by
  have haccounts := hw.accounts n
  rw [getElem?_outlines hcall] at haccounts
  exact haccounts.2

/-- What is reported can only be handed over within a runtime. -/
theorem Accounted.hasRuntime
    (hw : Accounted w) :
    w.hasRuntime = true := by
  have hreporting := hw.reporting
  simp only [isReporting, Bool.and_eq_true] at hreporting
  exact hreporting.2

theorem Accounted.reports_of_none
    (hw : Accounted w)
    {n : Nat}
    (hcall : w.calls[n]? = none) :
    w.reports n = [] := by
  have haccounts := hw.accounts n
  rwa [outlines, List.getElem?_map, hcall] at haccounts

/-- Nothing has been reported for a call that a strand is about to make. -/
theorem Accounted.fresh
    (hw : Accounted w)
    (id : Nat)
    (rest : Script) :
    (w.pass id rest).isReporting = true ∧ (w.pass id rest).reports w.calls.length = [] := by
  have hpass := quiet_pass id w rest
  refine ⟨hpass.toSpares.endures.isReporting.trans hw.reporting, ?_⟩
  exact (hpass.reports _).trans
    (hw.reports_of_none (List.getElem?_eq_none (Nat.le_refl _)))

theorem Accounted.opening
    (hw : Accounted w)
    (id : Nat)
    (subject : Subject)
    (rest : Script)
    (propagate : Bool)
    (abandonAfter : Option Nat) :
    ((w.pass id rest).openCall id subject propagate abandonAfter).reports w.calls.length =
      [w.reportAt w.clock ⟨subject, .started⟩] := by
  obtain ⟨hreporting, hnone⟩ := hw.fresh id rest
  rw [reports_openCall, if_pos ⟨rfl, hreporting⟩, hnone]
  rfl

theorem Accounted.closing
    (hw : Accounted w)
    {number : Nat}
    {call : Call}
    {s : Settlement}
    (hcall : w.calls[number]? = some call)
    (hsettled : w.settlement? call = some s) :
    (w.reportEnding number call s).reports number =
      [w.startReport call,
        w.endReport call s (call.contributions.take s.ending.stage).1 w.clock] := by
  obtain ⟨body, hphase⟩ := racing_of_settlement? hsettled
  have hreported := hw.hasReported hcall
  simp only [HasReported, hphase] at hreported
  rw [reports_reportEnding, if_pos ⟨rfl, hw.reporting⟩, hreported]
  rfl

/-- Where all reports are accounted for, every call reports once. -/
theorem Accounted.reportsOnce
    (hw : Accounted w) :
    ReportsOnce w where
  unmade := fun n hcall => hw.reports_of_none hcall
  undecided := by
    intro n call body hcall hphase
    have hreported := hw.hasReported hcall
    simp only [HasReported, hphase] at hreported
    exact ⟨hw.awaited n call.outline body (getElem?_outlines hcall) hphase, hreported⟩
  returned := by
    intro n call hcall hback
    have hreported := hw.hasReported hcall
    unfold HasReported at hreported
    cases hphase : call.phase with
    | building =>
        simp only [hphase] at hreported
    | racing body =>
        exact (hback (hw.awaited n call.outline body (getElem?_outlines hcall) hphase)).elim
    | _ =>
        rfl
  decided := by
    intro n call s hcall hphase
    have hreported := hw.hasReported hcall
    simpa only [HasReported, hphase] using hreported
  named := by
    intro n call s hcall hphase
    have hreported := hw.hasReported hcall
    simp only [HasReported, hphase] at hreported
    obtain ⟨stop, contributed, -, -, heq⟩ := hreported
    obtain ⟨hstage, hname⟩ := w.name_startReport call
    exact ⟨_, _, heq, by rw [hstage, hname], w.name_endReport call s contributed stop⟩
  otherwise := by
    intro n call hcall hunsettled
    have hreported := hw.hasReported hcall
    unfold HasReported at hreported
    cases hphase : call.phase with
    | building =>
        simp only [hphase] at hreported
    | settled s =>
        exact (hunsettled s hphase).elim
    | _ =>
        simp only [hphase] at hreported
        exact ⟨nofun, hreported⟩
  opening := by
    intro id strand name subject steps body rest propagate abandonAfter hstrand hready hrest
    refine ⟨hw.opening id subject rest propagate abandonAfter, ?_⟩
    have hruntime : (w.pass id rest).hasRuntime = true := hw.hasRuntime
    rw [w.advance_of_opening id hstrand hready hrest, instrument, readied_of_hasRuntime hruntime]
    rfl
  closing := by
    intro id strand number call s hstrand hracing hcall hsettled
    refine ⟨hw.closing hcall hsettled, ?_⟩
    rw [w.advance_of_decided id hstrand hracing hcall hsettled]
    rfl
  final := by
    intro n call later hcall hover hlater
    exact (hlater.of_isOver hw.owned (getElem?_outlines hcall) hover).2

end ReportsOnce

/-- Nothing has been reported in a world in which nothing has happened. -/
theorem accounted_start
    {reporter : Reporter}
    (henabled : reporter.enabled = true)
    (htransport : reporter.client.isEnabled = true)
    (stamps : Nat → Int)
    (source : InterruptSource)
    (plans : List DeliveryPlan) :
    Accounted (World.start reporter true stamps source plans) where
  owned := racesOwned_of_evolves .refl
  awaited := callsAwaited_of_evolves .refl
  reporting := by simp [isReporting, start, henabled, htransport]
  accounts := fun _ => rfl

/-- Under a reporter that reports, every call of every program reports its start and one ending. -/
theorem reportsOnce_of_evolves
    {reporter : Reporter}
    (henabled : reporter.enabled = true)
    (htransport : reporter.client.isEnabled = true)
    {stamps : Nat → Int}
    {source : InterruptSource}
    {plans : List DeliveryPlan}
    {w : World}
    (h : Evolves (World.start reporter true stamps source plans) w) :
    ReportsOnce w :=
  ((accounted_start henabled htransport stamps source plans).evolves h).reportsOnce

/-- For instance, when an operation and the one inside it are interrupted, and the inner one panics
afterwards. -/
theorem reportsOnce_plainRun :
    let inner : Step :=
      .instrument none (.prompt "k" .null) [] [.sleep 5, .panic (.fixedText "late")] false none
    let w := plainRun [] [.instrument none (.session []) [] [inner] false none]
      [.advance 0, .advance 1, .advance 2, .signal .interrupt, .advance 1, .advance 0, .pass 5,
        .advance 2, .advance 2]
    plainReporter.enabled = true ∧ plainReporter.client.isEnabled = true ∧
      (w.reports 0).map Report.stage = [.started, .cancelled] ∧
      (w.reports 1).map Report.stage = [.started, .cancelled] ∧
      w.outcome? 2 = some (.panic (.fixedText "late")) ∧ ReportsOnce w :=
  ⟨rfl, rfl, by decide +kernel, by decide +kernel, by decide +kernel,
    reportsOnce_of_evolves rfl rfl (evolves_plainRun _ _ _)⟩

end World
end LifecycleTelemetry
