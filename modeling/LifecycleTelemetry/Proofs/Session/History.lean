import LifecycleTelemetry.Session.Program
import LifecycleTelemetry.Proofs.Operation.Muted
import LifecycleTelemetry.Proofs.Reporter.Stored

/-!
# The program used again and again

A use of the program starts from what the ones before it have left behind: the files, and nothing else
that the program looks at. The environment, the user, the clock and all else that it depends on are those of
the use.

This module says what one use comes to. Making a reporter leaves a permission in the metrics file; a
session whose reporter may not report hands nothing over; and a command about the permission hands
nothing over in any case.
-/

namespace LifecycleTelemetry

open CommandLine (Request)

/-! ## Reporters -/

/-- A reporter is made from what the file is good for, and leaves the permission in it by which it
was made. -/
theorem Reporter.ofStore_of_mirrors
    (collector : Collector)
    {s : StoreState}
    {r : MetricsRecord}
    (h : s.Mirrors r) :
    ∃ (after : MetricsRecord) (p : Permission),
      (Reporter.ofStore collector s).2.Mirrors after ∧ after.permission = some p ∧
        p.enabled = r.allowsReporting ∧
          (Reporter.ofStore collector s).2.store.path = s.store.path ∧
          (Reporter.ofStore collector s).1.enabled =
            (p.enabled && !reportingSwitchedOff s.host.environment) ∧
          (Reporter.ofStore collector s).1.ambient.isFirstUsage = r.permission.isNone := by
  obtain ⟨hmirrors, hstep, -, henabled, hfirst⟩ := h.writable.ofStore collector
  obtain ⟨p, hp, hallowed⟩ := s.permission_registered
  have hsame := h.fields.1
  refine ⟨s.registered, p, hmirrors, hp, ?_, hstep.path, ?_, ?_⟩
  · rw [hallowed, MetricsRecord.allowsReporting, MetricsRecord.allowsReporting, hsame]
  · rw [henabled, MetricsRecord.allowsReporting, hp]
  · rw [hfirst, hsame]

/-! ## Sessions -/

namespace Session

theorem compliant_work
    (command : List String)
    (child : ChildRun) :
    Compliant (actionsOf (work command child)) := by
  cases command with
  | nil => simp [work, actionsOf, Step.actions, Compliant]
  | cons program rest =>
      cases child with
      | refused fault => simp [work, actionsOf, Step.actions, Compliant]
      | ran interrupts duration status =>
          have hinterrupts :
              Compliant (actionsOf (interrupts.map fun s => Step.act (.trigger s))) := by
            induction interrupts with
            | nil => simp [actionsOf, Compliant]
            | cons s interrupts ih =>
                exact (compliant_append [Action.trigger s] _).mpr ⟨by simp [Compliant, Action.bypasses], ih⟩
          have hexit : Compliant (actionsOf (exitCodeSteps status)) := by
            cases status <;>
              simp [exitCodeSteps, ExitStatus.code?, actionsOf, Step.actions, Compliant,
                Action.bypasses]
          have hending : Compliant (actionsOf (endingSteps program status)) := by
            unfold endingSteps
            split <;> simp [actionsOf, Step.actions, Compliant, Action.bypasses]
          simp only [work, actionsOf_append, compliant_append]
          exact ⟨⟨⟨hinterrupts, by simp [actionsOf, Step.actions, Compliant]⟩, hexit⟩, hending⟩

/-- A session does nothing past its reporter. -/
theorem compliant_script
    (projectName : Option String)
    (command : List String)
    (child : ChildRun) :
    Compliant (actionsOf (script projectName command child)) := by
  have hwork := compliant_work command child
  simpa [script, actionsOf, Step.actions] using hwork

theorem muted_run
    {w : World}
    (h : w.Muted)
    (projectName : Option String)
    (command : List String)
    (child : ChildRun) :
    (run w projectName command child).Muted :=
  Schedule.muted_runMain (s := Schedule.start w) h none (compliant_script projectName command child)

end Session

namespace Program

theorem runSession_eq
    (s : StoreState)
    (outside : Outside)
    (projectName : Option String)
    (command : List String) :
    runSession s outside projectName command =
      match noticePanic? (reporterOf s outside).1 outside.output with
      | some text => ⟨"", .panicked text, (reporterOf s outside).2.host, none⟩
      | none =>
          let w := Session.run (worldOf (reporterOf s outside).1 outside) projectName command outside.child
          ⟨outside.output.seen (notice (reporterOf s outside).1), conclusionOf (Session.outcome? w),
            (reporterOf s outside).2.host, some w⟩ :=
  rfl

/-- Whether or not a session begins, the metrics file has been completed before it. -/
theorem host_runSession
    (s : StoreState)
    (outside : Outside)
    (projectName : Option String)
    (command : List String) :
    (runSession s outside projectName command).host = (reporterOf s outside).2.host := by
  rw [runSession_eq]
  cases noticePanic? (reporterOf s outside).1 outside.output with
  | _ => rfl

/-- A session begins unless its notice ends in a panic. -/
theorem session_runSession
    (s : StoreState)
    (outside : Outside)
    (projectName : Option String)
    (command : List String) :
    (runSession s outside projectName command).session =
      if (noticePanic? (reporterOf s outside).1 outside.output).isSome then none
      else some (Session.run (worldOf (reporterOf s outside).1 outside) projectName command
        outside.child) := by
  rw [runSession_eq]
  cases noticePanic? (reporterOf s outside).1 outside.output with
  | _ => rfl

/-- A session whose reporter is not enabled hands nothing over. -/
theorem payloads_runSession
    {s : StoreState}
    {outside : Outside}
    (projectName : Option String)
    (command : List String)
    (h : (reporterOf s outside).1.enabled = false) :
    (runSession s outside projectName command).payloads = [] := by
  have hbegins : noticePanic? (reporterOf s outside).1 outside.output = none := by
    simp [noticePanic?, announces, h]
  have hstart := World.muted_start h true outside.stamps outside.source outside.plans
  have hmuted := Session.muted_run hstart projectName command outside.child
  rw [runSession_eq, hbegins]
  refine List.filterMap_eq_nil_iff.mpr fun e he => ?_
  have hsilent := hmuted.history e (List.mem_reverse.mp he)
  cases hwhat : e.what with
  | handedOver sender p =>
      rw [hwhat] at hsilent
      cases hsilent
  | _ => rfl

/-- Nor does a command about the permission. -/
theorem payloads_changePermission
    (s : StoreState)
    (output : StandardOutput)
    (command : PermissionCommand) :
    (changePermission s output command).payloads = [] := by
  unfold changePermission
  split <;> rfl

end Program

/-! ## Histories -/

/-- A use of the program: what is asked of it, and what it depends on besides the files. -/
structure Invocation where
  request : Request
  environment : Environment
  accountHome : Option String
  now : Calendar.Instant
  outside : Outside

namespace Invocation

/-- The machine as a use of the program finds it, after what has been left behind. -/
def host (m : Invocation) (behind : Host) : Host :=
  { behind with environment := m.environment, accountHome := m.accountHome, now := m.now, log := [] }

/-- The path of the metrics file that a use of the program works with. -/
def metricsFile? (m : Invocation) : Option String :=
  Location.metricsFile? m.accountHome m.environment

/-- What a use of the program comes to. -/
def completion (m : Invocation) (behind : Host) : Completion :=
  Program.carryOut m.request m.outside (m.host behind)

end Invocation

namespace Host

/-- The machine after uses of the program, one after the other. -/
def after (h : Host) (ms : List Invocation) : Host :=
  ms.foldl (fun behind m => (m.completion behind).host) h

/-- What uses of the program come to, one after the other. -/
def completions (h : Host) : List Invocation → List Completion
  | [] => []
  | m :: rest => m.completion h :: completions (m.completion h).host rest

theorem after_concat
    (h : Host)
    (ms : List Invocation)
    (m : Invocation) :
    h.after (ms ++ [m]) = (m.completion (h.after ms)).host := by
  simp [after]

theorem completions_concat
    (h : Host)
    (ms : List Invocation)
    (m : Invocation) :
    h.completions (ms ++ [m]) = h.completions ms ++ [m.completion (h.after ms)] := by
  induction ms generalizing h with
  | nil =>
      rfl
  | cons first rest ih =>
      simp only [List.cons_append, completions]
      rw [ih]
      rfl

end Host
end LifecycleTelemetry
