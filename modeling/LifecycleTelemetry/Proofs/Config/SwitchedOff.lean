import LifecycleTelemetry.Proofs.Config.Attempted

/-!
# The switch and the file

A reporter that is made while the environment turns reporting off is not enabled, but it is made as any
other one: what is missing in the file is made and written before the switch is looked at. The file is left
alone just where nothing is missing, or where it cannot be written.
-/

namespace LifecycleTelemetry

namespace StoreState

variable {s : StoreState}

/-- After a reporter has been made from a file that can be written, nothing is missing there. -/
theorem missing_reporter
    (hwritable : s.Writable)
    (hfresh : s.host.draw.1 ≠ "")
    (collector : Collector) :
    (Reporter.ofStore collector s).2.reading.orEmpty.missing = 0 := by
  obtain ⟨hmirrors, -⟩ := hwritable.ofStore collector
  obtain ⟨hpermission, hid, -⟩ := hmirrors.fields
  rw [MetricsRecord.missing_congr hpermission hid]
  exact MetricsRecord.missing_of_made hfresh s.reading.orEmpty s.host.now

/-- Where nothing is missing, a reporter is made without touching any file. -/
theorem quiet_reporter
    (h : s.reading.orEmpty.missing = 0)
    (collector : Collector) :
    s.Quiet (Reporter.ofStore collector s).2 := by
  have hattempts := s.attempts_reporter collector
  rw [reporterAttempts_eq_nil h] at hattempts
  cases hattempts with
  | none quiet => exact quiet

/-- Where nothing is written in vain and writing does not break off, making a reporter leaves the file as it is
just where nothing is missing in it, or where it cannot be written. -/
theorem file?_reporter_iff
    (hfaithful : s.Faithful)
    (hwhole : s.host.files.jam = none)
    (hfresh : s.host.draw.1 ≠ "")
    (collector : Collector) :
    (Reporter.ofStore collector s).2.file? = s.file? ↔
      s.reading.orEmpty.missing = 0 ∨ ¬s.Writable := by
  constructor
  · intro hsame
    by_cases hwritable : s.Writable
    · refine Or.inl ?_
      rw [← orEmpty_reading_of_file? hsame]
      exact missing_reporter hwritable hfresh collector
    · exact Or.inr hwritable
  · rintro (hcomplete | hvain)
    · have hquiet := quiet_reporter hcomplete collector
      exact file?_congr hquiet.files hquiet.path
    · have hbarred := (hfaithful.writable_or_barred hwhole).resolve_left hvain
      exact ((s.attempts_reporter collector).vain hbarred).2.1

/-- A reporter that is made while reporting is switched off is not enabled. Where nothing is missing in the
file, no file and no count is touched; and a file that cannot be opened is left as it was, or its absence.
Where something is missing in a file that can be written, there is a record afterwards, with the identity of
the reporter and with a permission. So the file is left as it was in no other case, unless writing breaks off
or what is written is not read. -/
theorem reporter_of_switchedOff
    (hoff : reportingSwitchedOff s.host.environment = true)
    (hfresh : s.host.draw.1 ≠ "")
    (collector : Collector) :
    let made := Reporter.ofStore collector s
    made.1.enabled = false ∧
      (s.Faithful → s.host.files.jam = none →
        (made.2.file? = s.file? ↔ s.reading.orEmpty.missing = 0 ∨ ¬s.Writable)) ∧
      (s.Barred → made.2.file? = s.file?) ∧
      (s.reading.orEmpty.missing = 0 →
        made.2.host.files = s.host.files ∧ made.2.store.writes = s.store.writes) ∧
      (s.reading.orEmpty.missing ≠ 0 → s.Writable →
        ∃ r : MetricsRecord, made.2.reading = .record r ∧
          r.deviceId = some made.1.client.deviceId ∧ r.permission.isSome = true) := by
  refine ⟨?_, fun hfaithful hwhole => file?_reporter_iff hfaithful hwhole hfresh collector,
    fun hbarred => ((s.attempts_reporter collector).vain hbarred).2.1, fun hcomplete => ?_,
    fun hmissing hwritable => ?_⟩
  · obtain ⟨henabled, -⟩ := Reporter.ofStore_settings collector s
    rw [henabled, hoff, Bool.not_true, Bool.and_false]
  · have hquiet := quiet_reporter hcomplete collector
    exact ⟨hquiet.files, hquiet.writes⟩
  · obtain ⟨hmirrors, hleads, hid, -⟩ := hwritable.ofStore collector
    obtain ⟨p, hp, -⟩ := s.permission_registered
    obtain ⟨r, hr⟩ := hleads.record hmissing
    obtain ⟨hpermission, hdevice, -⟩ := hmirrors.fields
    rw [hr, Reading.orEmpty] at hpermission hdevice
    refine ⟨r, hr, hdevice.trans hid, ?_⟩
    rw [hpermission, hp]
    rfl

/-- A machine like the one that is shared, on which reporting is switched off. -/
def switchedOffHost : Host :=
  { sharedHost with environment := [("C3_TELEMETRY_DISABLED", .text " yes ")] }

theorem writable_switchedOffHost :
    Writable ⟨.new "metrics.json", switchedOffHost⟩ :=
  writable_sharedHost.congr rfl rfl

/-- For instance, a second reporter does not touch what the first one has left. -/
theorem reporter_of_switchedOff_again :
    let first := Reporter.ofStore (.default none) ⟨.new "metrics.json", switchedOffHost⟩
    let second := Reporter.ofStore (.default none) first.2
    second.1.enabled = false ∧ second.2.host.files = first.2.host.files ∧
      second.2.store.writes = 2 := by
  intro first second
  let s : StoreState := ⟨.new "metrics.json", switchedOffHost⟩
  have hplace := (s.attempts_reporter (.default none)).samePlace
  have hoff : reportingSwitchedOff first.2.host.environment = true := by
    rw [hplace.environment]
    decide
  have hfresh : first.2.host.draw.1 ≠ "" := by
    rw [Host.draw, hplace.identifier]
    exact identifier_sharedHost first.2.host.drawn
  have hcomplete : first.2.reading.orEmpty.missing = 0 :=
    missing_reporter writable_switchedOffHost (identifier_sharedHost 0) (.default none)
  have hwrites : first.2.store.writes = 2 := by
    obtain ⟨-, hleads, -⟩ := writable_switchedOffHost.ofStore (.default none)
    have hrecord : s.reading = .record sharedRecord := reading_sharedHost
    rw [hleads.written, hrecord]
    rfl
  -- of the first reporter no more than this is needed, and nothing is to be computed from it
  clear_value first
  obtain ⟨hdisabled, -, -, huntouched, -⟩ := reporter_of_switchedOff hoff hfresh (.default none)
  obtain ⟨hfiles, hcount⟩ := huntouched hcomplete
  exact ⟨hdisabled, hfiles, hcount.trans hwrites⟩

/-- But the first one makes a file where there is none. -/
theorem made_of_switchedOff :
    let s : StoreState := ⟨.new "metrics.json", { switchedOffHost with files := .empty }⟩
    let made := Reporter.ofStore (.default none) s
    reportingSwitchedOff s.host.environment = true ∧ made.1.enabled = false ∧ s.file? = none ∧
      made.2.file? ≠ none ∧ made.2.reading.orEmpty.missing = 0 := by
  intro s made
  have hoff : reportingSwitchedOff s.host.environment = true := by decide
  have hfresh : s.host.draw.1 ≠ "" := identifier_sharedHost 0
  have hnone : s.file? = none := by decide
  have hmissing : s.reading.orEmpty.missing ≠ 0 := by decide
  have hwritable : s.Writable :=
    writable_of_kept (r := .empty) (by decide +kernel) (by decide +kernel)
  obtain ⟨hdisabled, -⟩ := Reporter.ofStore_settings (.default none) s
  rw [hoff, Bool.not_true, Bool.and_false] at hdisabled
  refine ⟨hoff, hdisabled, hnone, fun hunmade => ?_, missing_reporter hwritable hfresh (.default none)⟩
  rcases (file?_reporter_iff hwritable.faithful rfl hfresh (.default none)).mp
    (hunmade.trans hnone.symm) with h | h
  · exact hmissing h
  · exact h hwritable

end StoreState
end LifecycleTelemetry
