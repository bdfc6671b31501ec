import LifecycleTelemetry.Proofs.Config.Attempted
import LifecycleTelemetry.Proofs.Config.Dated
import LifecycleTelemetry.Proofs.Config.SwitchedOff

/-!
# The status that is shown

Whether reporting takes place is told in two ways: by the answer to the question about it, and by the
reporter that is made. The answer only reads, the reporter writes what is missing or fails to; they agree
all the same, for both go by what the file is good for and by the environment.

A reporter leaves the answer as it is, too, even where it fails to write, unless writing breaks off after the
file has been opened. The file is empty then, and good for what it is good for as if there were none.

A command that sets the permission announces what it has set, and does not look at the environment. So it
announces what the next answer says unless it allows reporting that is switched off.
-/

namespace LifecycleTelemetry

/-! ## The switch -/

namespace Environment

theorem text?_unset
    (env : Environment)
    (name : String) :
    text? (unset env name) name = none := by
  have hnone : get? (unset env name) name = none := by
    simp [get?, unset, List.find?_filter]
  rw [text?, hnone, Option.bind_none]

end Environment

theorem reportingSwitchedOff_unset
    (env : Environment) :
    reportingSwitchedOff (Environment.unset env "C3_TELEMETRY_DISABLED") = false := by
  rw [reportingSwitchedOff, Environment.text?_unset]

/-! ## The answer -/

namespace PermissionCommand

variable {allowed off : Bool}

/-- The answer goes by what the file is good for and by the environment. -/
theorem run_status
    (s : StoreState) :
    (run .status s).1 = .ok (statusReport s.reading.orEmpty.allowsReporting
      (reportingSwitchedOff s.host.environment)) := by
  rw [← s.quiet_read.environment, ← s.read_fst]
  rfl

theorem enabled_statusLine_iff :
    (statusReport allowed off).statusLine = "Status: Enabled" ↔ (allowed && !off) = true := by
  revert allowed off
  decide

/-- The remark is made where reporting would take place but for the switch. -/
theorem switchRemark_statusLine_iff :
    (statusReport allowed off).statusLine = "Status: Disabled" ++ PermissionReport.switchRemark ↔
      (allowed && !off) = false ∧ allowed = true := by
  revert allowed off
  decide

theorem disabled_statusLine_iff :
    (statusReport allowed off).statusLine = "Status: Disabled" ↔ allowed = false := by
  revert allowed off
  decide

/-- What is announced of a permission is the answer but for the remark, unless it is one that allows
reporting that is switched off. -/
theorem lineFor_statusLine_iff :
    (statusReport allowed off).statusLine = PermissionReport.lineFor allowed ∨
        (statusReport allowed off).statusLine
          = PermissionReport.lineFor allowed ++ PermissionReport.switchRemark ↔
      (allowed && off) = false := by
  revert allowed off
  decide

theorem lineFor_enabled_iff :
    (PermissionReport.lineFor allowed = "Status: Enabled" ↔ (allowed && !off) = true) ↔
      (allowed && off) = false := by
  revert allowed off
  decide

end PermissionCommand

/-! ## Uses that do not set the permission -/

/-- A call that is not to set the permission leaves what the record is good for. -/
theorem StoreCall.allowsReporting_effect
    {call : StoreCall}
    (h : call.wanted? = none)
    (now : Calendar.Instant)
    (fresh : String)
    (r : MetricsRecord) :
    (call.effect now fresh r).allowsReporting = r.allowsReporting := by
  have hidentified : (r.identified fresh).allowsReporting = r.allowsReporting := by
    rw [MetricsRecord.allowsReporting, (r.identified_frame fresh).1]
    rfl
  have hpermitted : ∀ q : MetricsRecord,
      (q.permitted now).allowsReporting = q.allowsReporting := by
    intro q
    cases hp : q.permission with
    | none => simp [MetricsRecord.permitted, MetricsRecord.allowsReporting, hp]
    | some p => simp [MetricsRecord.permitted, hp]
  cases call with
  | setPermission enabled => cases h
  | command c =>
      cases c with
      | status => rfl
      | enable => cases h
      | disable => cases h
  | reporter collector => exact (hpermitted _).trans hidentified
  | read => rfl
  | deviceId => exact hidentified
  | permission => exact hpermitted r

namespace Workbench

variable {b : Workbench} {path : String}

theorem Sound.allowsReporting_after
    (h : b.Sound path)
    {us : List StoreUse}
    (hunset : ∀ u ∈ us, u.call.wanted? = none) :
    ((b.after path us).record path).allowsReporting = (b.record path).allowsReporting := by
  induction us generalizing b with
  | nil => rfl
  | cons u us ih =>
      obtain ⟨hu, hus⟩ := List.forall_mem_cons.mp hunset
      have hused : ((b.use path u).record path).allowsReporting
          = (u.call.effect u.now b.fresh (b.record path)).allowsReporting := by
        rw [MetricsRecord.allowsReporting, (h.fields_use u).1]
        rfl
      exact (ih (h.use u) hus).trans (hused.trans (u.call.allowsReporting_effect hu _ _ _))

theorem record_eq
    (b : Workbench)
    (path : String) :
    b.record path = (StoreState.reading ⟨.new path, b.host⟩).orEmpty :=
  rfl

/-- Whether or not the file can be written, what it is good for stays as it is as long as nobody sets the
permission, and writing does not break off. -/
theorem allowsReporting_after
    {host : Host}
    (hwhole : host.files.jam = none)
    {us : List StoreUse}
    (hunset : ∀ u ∈ us, u.call.wanted? = none) :
    ((after ⟨host, none⟩ path us).record path).allowsReporting
      = (record ⟨host, none⟩ path).allowsReporting := by
  rcases StoreState.writable_or_barred_or_sunk (s := ⟨.new path, host⟩) hwhole with
    hwritable | hbarred | hsunk
  · exact (sound_of_writable hwritable).allowsReporting_after hunset
  · obtain ⟨-, hfile⟩ := vain_after (b := ⟨host, none⟩) hbarred us
    rw [record_eq, record_eq, StoreState.orEmpty_reading_of_file? hfile]
  · have hstill := sunk_after (b := ⟨host, none⟩) hsunk hwhole us
    rw [record_eq, record_eq, hstill.orEmpty_reading]
    exact congrArg MetricsRecord.allowsReporting hsunk.orEmpty_reading.symm

/-- Asking for the status, however often, touches no file. -/
theorem files_after_status
    {us : List StoreUse}
    (hstatus : ∀ u ∈ us, u.call = .command .status) :
    (b.after path us).host.files = b.host.files := by
  induction us generalizing b with
  | nil => rfl
  | cons u us ih =>
      obtain ⟨hu, hus⟩ := List.forall_mem_cons.mp hstatus
      have hused : (b.use path u).host.files = b.host.files := by
        simp only [use, StoreUse.outcome, hu]
        exact (PermissionCommand.run_status_unchanged (u.state path b)).1
      exact (ih hus).trans hused

/-- The answer goes by the record in the file and by the environment of the use. -/
theorem answer_status
    (b : Workbench)
    (path : String)
    (writes : Nat)
    (environment : Environment)
    (now : Calendar.Instant) :
    (StoreUse.outcome ⟨.command .status, writes, environment, now⟩ path b).answer
      = .report (.ok (PermissionCommand.statusReport (b.record path).allowsReporting
          (reportingSwitchedOff environment))) :=
  congrArg StoreAnswer.report (PermissionCommand.run_status _)

/-- And so does a reporter that is made. -/
theorem enabled_reporter
    (b : Workbench)
    (path : String)
    (u : StoreUse)
    (collector : Collector) :
    (Reporter.ofStore collector (u.state path b)).1.enabled
      = ((b.record path).allowsReporting && !reportingSwitchedOff u.environment) :=
  (Reporter.ofStore_settings collector (u.state path b)).1

/-- The answer to the question about the status says that reporting takes place just if a reporter that is
made instead is enabled, and bears the remark just if one would be but for the switch. Asking touches no file
and no count. It is the answer that was given before other uses of the file, as long as these do not set the
permission, whether or not they can write, unless writing breaks off after the file has been opened. -/
theorem status_agrees
    (host : Host)
    (path : String)
    {us : List StoreUse}
    (hunset : ∀ u ∈ us, u.call.wanted? = none)
    (writes : Nat)
    (environment : Environment)
    (now : Calendar.Instant)
    (collector : Collector) :
    let start : Workbench := ⟨host, none⟩
    let found := start.after path us
    let ask : StoreUse := ⟨.command .status, writes, environment, now⟩
    let free : StoreUse :=
      { ask with environment := Environment.unset environment "C3_TELEMETRY_DISABLED" }
    let made := (Reporter.ofStore collector (ask.state path found)).1
    let freed := (Reporter.ofStore collector (free.state path found)).1
    ∃ line : String,
      (ask.outcome path found).answer = .report (.ok ⟨line, none⟩) ∧
      (line = "Status: Enabled" ↔ made.enabled = true) ∧
      (line = "Status: Disabled" ++ PermissionReport.switchRemark ↔
        made.enabled = false ∧ freed.enabled = true) ∧
      (line = "Status: Disabled" ↔ made.enabled = false ∧ freed.enabled = false) ∧
      (host.files.jam = none →
        (ask.outcome path start).answer = .report (.ok ⟨line, none⟩)) ∧
      (ask.outcome path found).state.host.files = found.host.files ∧
      (ask.outcome path found).state.store.writes = writes ∧
      ((∀ u ∈ us, u.call = .command .status) → found.host.files = host.files) := by
  intro start found ask free made freed
  have hmade : made.enabled
      = ((found.record path).allowsReporting && !reportingSwitchedOff environment) :=
    found.enabled_reporter path ask collector
  have hfreed : freed.enabled = (found.record path).allowsReporting := by
    have henabled := found.enabled_reporter path free collector
    rw [reportingSwitchedOff_unset, Bool.not_false, Bool.and_true] at henabled
    exact henabled
  have hkept (hwhole : host.files.jam = none) :
      (found.record path).allowsReporting = (start.record path).allowsReporting :=
    allowsReporting_after hwhole hunset
  obtain ⟨hfiles, hstore⟩ := PermissionCommand.run_status_unchanged (ask.state path found)
  refine ⟨(PermissionCommand.statusReport (found.record path).allowsReporting
    (reportingSwitchedOff environment)).statusLine,
    answer_status found path writes environment now, ?_, ?_, ?_, fun hwhole => ?_, hfiles,
    congrArg MetricsStore.writes hstore, files_after_status⟩
  · rw [hmade]
    exact PermissionCommand.enabled_statusLine_iff
  · rw [hmade, hfreed]
    exact PermissionCommand.switchRemark_statusLine_iff
  · rw [hmade, hfreed, PermissionCommand.disabled_statusLine_iff]
    cases (found.record path).allowsReporting with
    | true => simp
    | false => simp
  · rw [answer_status start, ← hkept hwhole]
    rfl

/-- For instance, two reporters do not change the answer, one of them made while reporting is switched
off. -/
theorem status_agrees_sharedHost :
    let off : Environment := [("C3_TELEMETRY_DISABLED", .text "1")]
    let us : List StoreUse :=
      [plainStoreUse (.reporter (.default none)), ⟨.reporter (.default none), 0, off, .epoch⟩]
    let ask : StoreUse := ⟨.command .status, 0, off, .epoch⟩
    (∀ u ∈ us, u.call.wanted? = none) ∧
      ∃ line : String,
        (ask.outcome "metrics.json" (after ⟨sharedHost, none⟩ "metrics.json" us)).answer
          = .report (.ok ⟨line, none⟩) ∧
        (ask.outcome "metrics.json" ⟨sharedHost, none⟩).answer = .report (.ok ⟨line, none⟩) := by
  intro off us ask
  have hunset : ∀ u ∈ us, u.call.wanted? = none := by
    simp [us, plainStoreUse, StoreCall.wanted?]
  obtain ⟨line, hanswer, -, -, -, hbefore, -⟩ :=
    status_agrees sharedHost "metrics.json" hunset 0 off .epoch (.default none)
  exact ⟨hunset, line, hanswer, hbefore rfl⟩

/-- But where the medium is full, a reporter that does not find an identity of the device undoes what a user
has decided: the reporting that was stopped takes place again. -/
theorem status_unstopped_fullHost :
    let text := "\x7b\"permission\":\x7b\"enabled\":false,\"date\":\"2026-01-01T00:00:00Z\"\x7d\x7d"
    let full : FileTree :=
      { FileTree.empty.put ["metrics.json"] (.file (.text text)) with jam := some ⟨0, .os 28⟩ }
    let start : Workbench := ⟨{ sharedHost with files := full }, none⟩
    let reporter := plainStoreUse (.reporter (.default none))
    let ask := plainStoreUse (.command .status)
    (ask.outcome "metrics.json" start).answer = .report (.ok ⟨"Status: Disabled", none⟩) ∧
      (ask.outcome "metrics.json" (start.use "metrics.json" reporter)).answer
        = .report (.ok ⟨"Status: Enabled", none⟩) := by
  intro text full start reporter ask
  have hstopped : (start.record "metrics.json").allowsReporting = false := by decide +kernel
  have hallowed : ((start.use "metrics.json" reporter).record "metrics.json").allowsReporting
      = true := by decide +kernel
  refine ⟨(start.answer_status "metrics.json" 0 [] .epoch).trans ?_,
    ((start.use "metrics.json" reporter).answer_status "metrics.json" 0 [] .epoch).trans ?_⟩
  · rw [hstopped]
    rfl
  · rw [hallowed]
    rfl

end Workbench

/-! ## Announcements -/

namespace StoreState

variable {s : StoreState} {enabled changed : Bool}

/-- A permission that has been set, and not in vain, is what the file is good for. -/
theorem allowsReporting_of_setPermission
    (hfaithful : s.Faithful)
    (h : (s.setPermission enabled).1 = .ok changed) :
    (s.setPermission enabled).2.reading.orEmpty.allowsReporting = enabled := by
  cases hstates : s.reading.orEmpty.states enabled with
  | true =>
      obtain ⟨p, hp, hsays⟩ := MetricsRecord.states_iff.mp hstates
      rw [setPermission_of_states hstates, reading_congr s.quiet_read.files s.quiet_read.path,
        MetricsRecord.allowsReporting, hp]
      exact hsays
  | false =>
      have hwritten := h
      rw [setPermission_of_other hstates] at hwritten
      have hwritable : s.Writable := by
        have hread := hfaithful.congr s.quiet_read.files s.quiet_read.path
        cases hresult : (s.read.2.write (s.reading.orEmpty.decided enabled s.host.now)).1 with
        | ok result =>
            exact (hread.writable hresult).congr s.quiet_read.files.symm s.quiet_read.path.symm
        | error e =>
            rw [hresult] at hwritten
            cases hwritten
      obtain ⟨p, hp, hsays⟩ := s.reading.orEmpty.permission_decided enabled s.host.now
      rw [MetricsRecord.allowsReporting, (hwritable.setPermission enabled).2.1.fields.1, hp]
      exact hsays

end StoreState

namespace PermissionCommand

variable {s t : StoreState} {c : PermissionCommand} {report : PermissionReport}

/-- A command that has set the permission announces what the file is good for. -/
theorem statusLine_of_run
    {enabled : Bool}
    (hfaithful : s.Faithful)
    (hc : StoreCall.wanted? (.command c) = some enabled)
    (hok : (c.run s).1 = .ok report) :
    report.statusLine = PermissionReport.lineFor enabled ∧
      (c.run s).2.reading.orEmpty.allowsReporting = enabled := by
  have hannounced : ∀ note : String, (run.announce s enabled note).1 = .ok report →
      report.statusLine = PermissionReport.lineFor enabled ∧
        (run.announce s enabled note).2.reading.orEmpty.allowsReporting = enabled := by
    intro note hok
    rw [Workbench.announce_eq] at hok ⊢
    cases hset : (s.setPermission enabled).1 with
    | ok changed =>
        rw [hset] at hok
        cases hok
        exact ⟨rfl, StoreState.allowsReporting_of_setPermission hfaithful hset⟩
    | error e =>
        rw [hset] at hok
        cases hok
  cases c with
  | status => cases hc
  | enable =>
      cases hc
      exact hannounced enabledNote hok
  | disable =>
      cases hc
      exact hannounced disabledNote hok

/-- What a command announces that has set the permission, or has found it set, is what the next answer
says but for the remark, and whether the next reporter is enabled, unless it has allowed reporting that is
switched off. Only what is written to a device, or to a file that cannot be read, is announced in vain. -/
theorem announced_iff
    {enabled : Bool}
    (hfaithful : s.Faithful)
    (hc : StoreCall.wanted? (.command c) = some enabled)
    (hok : (c.run s).1 = .ok report)
    (hfiles : t.host.files = (c.run s).2.host.files)
    (hpath : t.store.path = s.store.path)
    (henvironment : t.host.environment = s.host.environment)
    (collector : Collector) :
    let hidden := enabled && reportingSwitchedOff s.host.environment
    ∃ line : String,
      (run .status t).1 = .ok ⟨line, none⟩ ∧
      (line = report.statusLine ∨ line = report.statusLine ++ PermissionReport.switchRemark ↔
        hidden = false) ∧
      ((report.statusLine = "Status: Enabled" ↔
        (Reporter.ofStore collector t).1.enabled = true) ↔ hidden = false) := by
  intro hidden
  obtain ⟨hline, hallowed⟩ := statusLine_of_run hfaithful hc hok
  have hplace := (s.attempts_command c).samePlace
  have hgood : t.reading.orEmpty.allowsReporting = enabled := by
    rw [StoreState.reading_congr hfiles (hpath.trans hplace.path.symm), hallowed]
  obtain ⟨hmade, -⟩ := Reporter.ofStore_settings collector t
  rw [hgood, henvironment] at hmade
  refine ⟨(statusReport enabled (reportingSwitchedOff s.host.environment)).statusLine, ?_, ?_, ?_⟩
  · rw [run_status, hgood, henvironment]
    rfl
  · rw [hline]
    exact lineFor_statusLine_iff
  · rw [hline, hmade]
    exact lineFor_enabled_iff

/-- For instance, a user who stops the reporting that is switched off is told what the next answer says. -/
theorem announced_disable :
    let s : StoreState := ⟨.new "metrics.json", StoreState.switchedOffHost⟩
    let next := (run .disable s).2
    ∃ line : String,
      (run .disable s).1 = .ok ⟨"Status: Disabled", some disabledNote⟩ ∧
      (run .status next).1 = .ok ⟨line, none⟩ ∧
      (line = "Status: Disabled" ∨ line = "Status: Disabled" ++ PermissionReport.switchRemark) := by
  intro s next
  have hok : (run .disable s).1 = .ok ⟨"Status: Disabled", some disabledNote⟩ :=
    Workbench.announce_answer disabledNote (StoreState.writable_switchedOffHost.setPermission false).1
  have hfaithful : s.Faithful := StoreState.writable_switchedOffHost.faithful
  have hplace := (s.attempts_command .disable).samePlace
  obtain ⟨line, hanswer, hsame, -⟩ :=
    announced_iff (t := next) hfaithful rfl hok rfl hplace.path hplace.environment (.default none)
  exact ⟨line, hok, hanswer, hsame.mpr rfl⟩

/-- But one who allows it is told that it takes place, although the next answer says that it does not and
the next reporter is not enabled. -/
theorem announced_enable_switchedOff :
    let s : StoreState := ⟨.new "metrics.json", StoreState.switchedOffHost⟩
    let next := (run .enable s).2
    (run .enable s).1 = .ok ⟨"Status: Enabled", some enabledNote⟩ ∧
      (run .status next).1
        = .ok ⟨"Status: Disabled" ++ PermissionReport.switchRemark, none⟩ ∧
      (Reporter.ofStore (.default none) next).1.enabled = false := by
  intro s next
  have hok : (run .enable s).1 = .ok ⟨"Status: Enabled", some enabledNote⟩ :=
    Workbench.announce_answer enabledNote (StoreState.writable_switchedOffHost.setPermission true).1
  obtain ⟨-, hallowed⟩ := statusLine_of_run StoreState.writable_switchedOffHost.faithful rfl hok
  have hoff : reportingSwitchedOff next.host.environment = true := by
    rw [(s.attempts_command .enable).samePlace.environment]
    decide
  obtain ⟨hmade, -⟩ := Reporter.ofStore_settings (.default none) next
  rw [hallowed, hoff] at hmade
  refine ⟨hok, ?_, hmade⟩
  rw [run_status, hallowed, hoff]
  rfl

end PermissionCommand
end LifecycleTelemetry
