import LifecycleTelemetry.Proofs.Config.Uses
import LifecycleTelemetry.Proofs.Operation.Muted
import LifecycleTelemetry.Proofs.Operation.Unobserved

/-!
# A refusal stands

A user who has stopped the reporting is not reported on until reporting is allowed again. The refusal is
in the file, and every use of the file that does not allow reporting leaves it there: the identity of the
device is made beside it, and a permission that is there already is not made anew.

What follows for a reporter made from the file is that it hands nothing over in whatever it is used for,
and for a question about the status that it is answered accordingly.
-/

namespace LifecycleTelemetry

namespace StoreCall

/-- Whether a call is to stop the reporting. -/
def refuses : StoreCall → Bool
  | .setPermission enabled => !enabled
  | .command .disable => true
  | _ => false

/-- Whether a call is to allow the reporting. -/
def allows : StoreCall → Bool
  | .setPermission enabled => enabled
  | .command .enable => true
  | _ => false

theorem states_effect_of_refuses
    {call : StoreCall}
    (h : call.refuses = true)
    (now : Calendar.Instant)
    (fresh : String)
    (r : MetricsRecord) :
    (call.effect now fresh r).states false = true := by
  cases call with
  | setPermission enabled =>
      cases enabled with
      | true => cases h
      | false => exact r.states_decided false now
  | command c =>
      cases c with
      | disable => exact r.states_decided false now
      | status => cases h
      | enable => cases h
  | reporter collector => cases h
  | read => cases h
  | deviceId => cases h
  | permission => cases h

/-- A refusal outlasts every call that is not to allow the reporting. -/
theorem states_effect
    {call : StoreCall}
    {r : MetricsRecord}
    (h : call.allows = false)
    (hrefused : r.states false = true)
    (now : Calendar.Instant)
    (fresh : String) :
    (call.effect now fresh r).states false = true := by
  obtain ⟨p, hp, hstopped⟩ := MetricsRecord.states_iff.mp hrefused
  have hidentified := (r.identified_frame fresh).1
  have hpermitted : ∀ q : MetricsRecord, q.permission = some p → q.permitted now = q := by
    intro q hq
    simp [MetricsRecord.permitted, hq]
  have hdecided : r.decided false now = r := by simp [MetricsRecord.decided, hrefused]
  cases call with
  | setPermission enabled =>
      cases enabled with
      | true => cases h
      | false =>
          rw [effect, hdecided]
          exact hrefused
  | command c =>
      cases c with
      | status => exact hrefused
      | enable => cases h
      | disable =>
          rw [effect, hdecided]
          exact hrefused
  | reporter collector =>
      rw [effect, hpermitted _ (hidentified.trans hp)]
      exact MetricsRecord.states_iff.mpr ⟨p, hidentified.trans hp, hstopped⟩
  | read => exact hrefused
  | deviceId => exact MetricsRecord.states_iff.mpr ⟨p, hidentified.trans hp, hstopped⟩
  | permission =>
      rw [effect, hpermitted r hp]
      exact hrefused

end StoreCall

/-- Whether an answer is that something has been done. -/
def StoreAnswer.isOk : StoreAnswer → Bool
  | .changed result => result.isOk
  | .report result => result.isOk
  | _ => true

namespace Workbench

/-- Whether a use stops the reporting: it is to do so, and says that it has done so. -/
def refuses (b : Workbench) (path : String) (u : StoreUse) : Bool :=
  u.call.refuses && (u.outcome path b).answer.isOk

/-- Whether a use allows the reporting: it is to do so, and says that it has done so. -/
def allows (b : Workbench) (path : String) (u : StoreUse) : Bool :=
  u.call.allows && (u.outcome path b).answer.isOk

/-- Whether none of some uses allows the reporting. -/
def unrevoked (path : String) : Workbench → List StoreUse → Bool
  | _, [] => true
  | b, u :: us => !b.allows path u && unrevoked path (b.use path u) us

variable {b : Workbench} {path : String}

theorem states_use
    (h : b.Sound path)
    (u : StoreUse)
    (enabled : Bool) :
    ((b.use path u).record path).states enabled
      = (u.call.effect u.now b.fresh (b.record path)).states enabled := by
  rw [MetricsRecord.states, MetricsRecord.states, (h.fields_use u).1]

/-- Where the file can be written, everything that is to be done is done. -/
theorem Sound.isOk
    (h : b.Sound path)
    (u : StoreUse) :
    (u.outcome path b).answer.isOk = true := by
  have hset := fun enabled => ((h.state u).1.setPermission enabled).1
  cases hcall : u.call with
  | setPermission enabled =>
      simp only [StoreUse.outcome, hcall, hset]
      rfl
  | command c =>
      cases c with
      | status =>
          simp only [StoreUse.outcome, hcall]
          rfl
      | enable =>
          simp only [StoreUse.outcome, hcall, PermissionCommand.run, announce_answer _ (hset true)]
          rfl
      | disable =>
          simp only [StoreUse.outcome, hcall, PermissionCommand.run, announce_answer _ (hset false)]
          rfl
  | reporter collector => simp only [StoreUse.outcome, hcall, StoreAnswer.isOk]
  | read => simp only [StoreUse.outcome, hcall, StoreAnswer.isOk]
  | deviceId => simp only [StoreUse.outcome, hcall, StoreAnswer.isOk]
  | permission => simp only [StoreUse.outcome, hcall, StoreAnswer.isOk]

/-- A refusal outlasts every use that does not allow the reporting. -/
theorem Sound.refused_after
    (h : b.Sound path)
    {us : List StoreUse}
    (hrefused : (b.record path).states false = true)
    (hunrevoked : unrevoked path b us = true) :
    ((b.after path us).record path).states false = true := by
  induction us generalizing b with
  | nil => exact hrefused
  | cons u us ih =>
      obtain ⟨hu, hus⟩ := Bool.and_eq_true_iff.mp hunrevoked
      refine ih (h.use u) ?_ hus
      rw [states_use h]
      rw [allows, h.isOk u, Bool.and_true, Bool.not_eq_true'] at hu
      exact StoreCall.states_effect hu hrefused _ _

/-- Where reporting has been refused, a reporter is not enabled. -/
theorem Sound.reporter_of_refused
    (h : b.Sound path)
    (hrefused : (b.record path).states false = true)
    {u : StoreUse}
    {collector : Collector}
    (hcall : u.call = .reporter collector) :
    ∃ reporter : Reporter, (u.outcome path b).answer = .reporter reporter ∧
      reporter.enabled = false := by
  refine ⟨(Reporter.ofStore collector (u.state path b)).1, ?_, ?_⟩
  · simp only [StoreUse.outcome, hcall]
  · obtain ⟨-, -, -, henabled, -⟩ := (h.state u).1.ofStore collector
    obtain ⟨p, hp, hallowed⟩ := (u.state path b).permission_registered
    obtain ⟨q, hq, hstopped⟩ := MetricsRecord.states_iff.mp hrefused
    rw [orEmpty_reading_state, MetricsRecord.allowsReporting, hq] at hallowed
    have hp' : p.enabled = false := hallowed.trans hstopped
    rw [henabled, MetricsRecord.allowsReporting, hp]
    simp only [hp', Bool.false_and]

/-- And a question about the status is answered by saying so. -/
theorem status_of_refused
    (hrefused : (b.record path).states false = true)
    {u : StoreUse}
    (hcall : u.call = .command .status) :
    (u.outcome path b).answer = .report (.ok ⟨"Status: Disabled", none⟩) := by
  obtain ⟨q, hq, hstopped⟩ := MetricsRecord.states_iff.mp hrefused
  have hrecord : (u.state path b).read.1 = b.record path := by
    rw [StoreState.read_fst, orEmpty_reading_state]
  have hallowed : (b.record path).allowsReporting = false := by
    rw [MetricsRecord.allowsReporting, hq]
    exact hstopped
  simp only [StoreUse.outcome, hcall, PermissionCommand.run, hrecord, hallowed]
  rfl

/-- Once the reporting has been stopped, and until it is allowed again, no reporter that is made from the
file is enabled or hands anything over, whatever it is used for by a program that does not go past it, and
none has deliveries to wait for; the status is that reporting does not take place. So it is whatever was
in the file, whatever was asked of it before and after, and however the environment changed. -/
theorem refusal_stands
    {path : String}
    {host : Host}
    {before between : List StoreUse}
    {stop : StoreUse}
    (hwritable : StoreState.Writable ⟨.new path, host⟩)
    (hstop : refuses (after ⟨host, none⟩ path before) path stop = true)
    (hbetween : unrevoked path (after ⟨host, none⟩ path (before ++ [stop])) between = true)
    (u : StoreUse) :
    let found := after ⟨host, none⟩ path (before ++ stop :: between)
    (∀ collector : Collector, u.call = .reporter collector →
      ∃ reporter : Reporter, (u.outcome path found).answer = .reporter reporter ∧
        reporter.enabled = false ∧
        ∀ (hasRuntime : Bool) (epoch : Int) (plans : List DeliveryPlan) (source : InterruptSource)
          (script : Script) (ms : List Move), Compliant (actionsOf script) →
          let w := World.runOf reporter hasRuntime epoch plans source script ms
          (∀ e ∈ w.history, e.what.isHandover = false) ∧ w.pending = []) ∧
      (u.call = .command .status →
        (u.outcome path found).answer = .report (.ok ⟨"Status: Disabled", none⟩)) := by
  intro found
  have hsound := sound_of_writable hwritable
  have hfound : found = after (after ⟨host, none⟩ path (before ++ [stop])) path between := by
    rw [← after_append, List.append_assoc]
    rfl
  have hrefused : (found.record path).states false = true := by
    rw [hfound]
    refine (hsound.after _).refused_after ?_ hbetween
    rw [after_append]
    show (((after ⟨host, none⟩ path before).use path stop).record path).states false = true
    rw [states_use (hsound.after before)]
    exact StoreCall.states_effect_of_refuses (Bool.and_eq_true_iff.mp hstop).1 _ _ _
  refine ⟨fun collector hcall => ?_, status_of_refused hrefused⟩
  obtain ⟨reporter, hanswer, hdisabled⟩ :=
    (hsound.after _).reporter_of_refused hrefused hcall
  refine ⟨reporter, hanswer, hdisabled, fun hasRuntime epoch plans source script ms hscript => ?_⟩
  have hstart := World.muted_start hdisabled hasRuntime epoch source plans
  have hbegun : ((World.start reporter hasRuntime epoch source plans).beginScript script).Muted :=
    hstart.withStrand 0 fun _ _ => hscript
  have hmuted := hbegun.moves ms
  exact ⟨hmuted.history, hmuted.pending⟩

/-- For instance, where the reporting has been stopped by command, between reporters that are made. -/
theorem refusal_stands_sharedHost :
    let collector : Collector := .ofEnvironment none [("SPARROW_SOURCE_KEY", .text "key")]
    let reporter := plainStoreUse (.reporter collector)
    let stop := plainStoreUse (.command .disable)
    let between := [reporter, plainStoreUse .permission, plainStoreUse (.setPermission false)]
    let found := after ⟨sharedHost, none⟩ "metrics.json" ([reporter] ++ stop :: between)
    refuses (after ⟨sharedHost, none⟩ "metrics.json" [reporter]) "metrics.json" stop = true ∧
      unrevoked "metrics.json"
        (after ⟨sharedHost, none⟩ "metrics.json" ([reporter] ++ [stop])) between = true ∧
      ∃ r : Reporter, (reporter.outcome "metrics.json" found).answer = .reporter r ∧
        r.enabled = false := by
  intro collector reporter stop between found
  have hstop : refuses (after ⟨sharedHost, none⟩ "metrics.json" [reporter]) "metrics.json" stop
      = true := by
    rw [refuses, (sound_sharedHost.after [reporter]).isOk stop]
    rfl
  have hbetween : unrevoked "metrics.json"
      (after ⟨sharedHost, none⟩ "metrics.json" ([reporter] ++ [stop])) between = true := by
    simp [unrevoked, allows, between, reporter, plainStoreUse, StoreCall.allows]
  obtain ⟨hreporter, -⟩ := refusal_stands StoreState.writable_sharedHost hstop hbetween reporter
  obtain ⟨r, hanswer, hdisabled, -⟩ := hreporter collector rfl
  exact ⟨hstop, hbetween, r, hanswer, hdisabled⟩

end Workbench
end LifecycleTelemetry
