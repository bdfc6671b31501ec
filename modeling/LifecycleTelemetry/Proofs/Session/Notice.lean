import LifecycleTelemetry.Proofs.Session.History

/-!
# The notice before the first events

The first session that reports tells the user so. Whether a session is the first one is told by the
metrics file: as long as it holds no permission, nobody has been asked and nothing has been reported. A
session leaves a permission behind, whether or not it has reported, and so do the commands that allow
and stop reporting.

For a history of uses that begins without a file this means that the first use that does more than ask
for the status decides. If it is a session, the file says from then on that reporting is allowed, and
the user has been told exactly when the session was free to report and what it printed was taken. A session
in which reporting is switched off, or whose notice cannot be printed, uses the occasion up without a word:
later sessions report, and nobody has been told.
-/

namespace LifecycleTelemetry

open CommandLine (Request)

/-- The user is told that the program reports. -/
def Completion.GivesNotice (c : Completion) : Prop :=
  firstUsageNotice.toList <:+: c.printed.toList

namespace Invocation

/-- Whether a use only asks for the status. -/
def isQuestion (m : Invocation) : Bool :=
  m.request = .permission .status

/-- Whether a use allows reporting. -/
def isPermit (m : Invocation) : Bool :=
  m.request = .permission .enable

/-- Whether a use is a session. -/
def isSession (m : Invocation) : Bool :=
  match m.request with
  | .run _ _ => true
  | .permission _ => false

/-- Whether a use is a session that cannot tell the user anything: reporting is switched off in it, or what it
prints is not taken. -/
def isSilentSession (m : Invocation) : Bool :=
  m.isSession && (reportingSwitchedOff m.environment || m.outside.output != .takes)

/-- The first use that does more than ask for the status. -/
def opening? (ms : List Invocation) : Option Invocation :=
  ms.find? fun m => !m.isQuestion

theorem opening?_concat
    (ms : List Invocation)
    (m : Invocation) :
    opening? (ms ++ [m]) = (opening? ms).or (if m.isQuestion then none else some m) := by
  cases h : m.isQuestion <;> simp [opening?, h]

/-- The metrics file at a path, as a use finds it. -/
def storeAt (m : Invocation) (path : String) (behind : Host) : StoreState :=
  ⟨MetricsStore.new path, m.host behind⟩

end Invocation

namespace Host

/-- One of several uses tells the user that the program reports. -/
def Noticed (h : Host) (ms : List Invocation) : Prop :=
  ∃ c ∈ h.completions ms, c.GivesNotice

theorem noticed_concat
    (h : Host)
    (ms : List Invocation)
    (m : Invocation) :
    h.Noticed (ms ++ [m]) ↔ h.Noticed ms ∨ (m.completion (h.after ms)).GivesNotice := by
  simp [Noticed, completions_concat, or_and_right, exists_or]

end Host

/-! ## One use -/

section Use

variable {m : Invocation} {path : String} {behind : Host} {r : MetricsRecord}

theorem Completion.not_givesNotice
    {c : Completion}
    (h : c.printed.length < firstUsageNotice.length) :
    ¬ c.GivesNotice := by
  intro hinfix
  have hlength := hinfix.length_le
  simp only [String.length_toList] at hlength
  omega

theorem length_statusReport
    (allowed switchedOff : Bool) :
    ((PermissionCommand.statusReport allowed switchedOff).text ++ "\n").length
      < firstUsageNotice.length := by
  cases allowed <;> cases switchedOff <;> decide

theorem host_changePermission
    (s : StoreState)
    (output : StandardOutput)
    (command : PermissionCommand) :
    (Program.changePermission s output command).host = (command.run s).2.host := by
  unfold Program.changePermission
  cases command.run s with
  | mk answer after =>
      cases answer with
      | _ =>
          rfl

/-- A report that is shorter than the notice does not contain it, whether or not it is printed. -/
theorem not_givesNotice_changePermission
    {s : StoreState}
    {command : PermissionCommand}
    (output : StandardOutput)
    (hshort : ∀ report, (command.run s).1 = .ok report →
      (report.text ++ "\n").length < firstUsageNotice.length) :
    ¬ (Program.changePermission s output command).GivesNotice := by
  have hnothing : "".length < firstUsageNotice.length := by decide
  refine Completion.not_givesNotice ?_
  unfold Program.changePermission
  cases hrun : command.run s with
  | mk answer after =>
      cases answer with
      | error e =>
          exact hnothing
      | ok report =>
          cases output with
          | takes =>
              exact hshort report (by rw [hrun])
          | refuses fault =>
              exact hnothing

/-- A session gives the notice exactly when its reporter announces itself and somebody takes what it prints. -/
theorem givesNotice_runSession
    (s : StoreState)
    (outside : Outside)
    (projectName : Option String)
    (command : List String) :
    (Program.runSession s outside projectName command).GivesNotice ↔
      Program.announces (Program.reporterOf s outside).1 = true ∧ outside.output = .takes := by
  have hsilent : ∀ {c : Completion}, c.printed = "" → ¬ c.GivesNotice := fun hprinted =>
    Completion.not_givesNotice (by rw [hprinted]; decide)
  rw [Program.runSession_eq]
  cases hannounces : Program.announces (Program.reporterOf s outside).1 with
  | false =>
      refine iff_of_false ?_ (by simp)
      simp only [Program.noticePanic?, Program.notice, hannounces, Bool.false_eq_true, if_false]
      refine hsilent ?_
      cases outside.output with
      | _ =>
          rfl
  | true =>
      simp only [Program.noticePanic?, Program.notice, hannounces, if_true, true_and]
      cases houtput : outside.output with
      | takes =>
          refine iff_of_true ?_ rfl
          simp only [StandardOutput.panic?, StandardOutput.seen, Completion.GivesNotice, String.toList_append]
          exact List.infix_append' [] _ _
      | refuses fault =>
          refine iff_of_false ?_ (by simp)
          cases (StandardOutput.refuses fault).panic? with
          | _ =>
              exact hsilent rfl

theorem completion_eq
    (behind : Host)
    (hpath : m.metricsFile? = some path) :
    m.completion behind =
      match m.request with
      | .permission command =>
          Program.changePermission (m.storeAt path behind) m.outside.output command
      | .run projectName command =>
          Program.runSession (m.storeAt path behind) m.outside projectName command := by
  have hlocation : Location.metricsFile? (m.host behind).accountHome (m.host behind).environment =
      some path := hpath
  unfold Invocation.completion Program.carryOut
  rw [hlocation]
  rfl

/-- Asking for the status leaves the file alone and tells nobody anything new. -/
theorem question_of_status
    (behind : Host)
    (hpath : m.metricsFile? = some path)
    (hrequest : m.request = .permission .status) :
    (m.completion behind).host.files = behind.files ∧ ¬ (m.completion behind).GivesNotice := by
  have hunchanged := PermissionCommand.run_status_unchanged (m.storeAt path behind)
  rw [completion_eq behind hpath, hrequest]
  refine ⟨(congrArg Host.files (host_changePermission _ _ _)).trans hunchanged.1,
    not_givesNotice_changePermission _ fun report hreport => ?_⟩
  obtain rfl := Except.ok.inj hreport
  exact length_statusReport _ _

/-- Stopping the reporting leaves a permission that says so. -/
theorem stopped_of_disable
    (h : StoreState.Mirrors ⟨.new path, behind⟩ r)
    (hpath : m.metricsFile? = some path)
    (hrequest : m.request = .permission .disable) :
    (∃ (after : MetricsRecord) (p : Permission),
      StoreState.Mirrors ⟨.new path, (m.completion behind).host⟩ after ∧
        after.permission = some p ∧ p.enabled = false) ∧
      ¬ (m.completion behind).GivesNotice := by
  have hstore : (m.storeAt path behind).Mirrors r := h.congr rfl rfl
  obtain ⟨hok, hmirrors, hstep⟩ := hstore.writable.setPermission false
  obtain ⟨p, hp, hstopped⟩ := MetricsRecord.permission_decided
    (m.storeAt path behind).reading.orEmpty false (m.storeAt path behind).host.now
  have hrun : PermissionCommand.run .disable (m.storeAt path behind) =
      (.ok ⟨PermissionReport.lineFor false, some disabledNote⟩,
        ((m.storeAt path behind).setPermission false).2) := by
    simp only [PermissionCommand.run, PermissionCommand.run.announce]
    generalize (m.storeAt path behind).setPermission false = result at *
    obtain ⟨answer, s⟩ := result
    simp only at hok
    rw [hok]
  rw [completion_eq behind hpath, hrequest]
  refine ⟨⟨_, p, ?_, hp, hstopped⟩, not_givesNotice_changePermission _ fun report hreport => ?_⟩
  · refine hmirrors.congr ?_ hstep.path.symm
    exact congrArg Host.files ((host_changePermission _ _ _).trans (by rw [hrun]))
  · rw [hrun] at hreport
    obtain rfl := Except.ok.inj hreport
    decide

/-- A session leaves the permission by which it was carried out, and tells the user about it if it is
the first one and may report, and if what it prints is taken. It hands nothing over unless it may report. -/
theorem session_of_run
    (h : StoreState.Mirrors ⟨.new path, behind⟩ r)
    (hpath : m.metricsFile? = some path)
    (hsession : m.isSession = true) :
    ∃ (after : MetricsRecord) (p : Permission),
      StoreState.Mirrors ⟨.new path, (m.completion behind).host⟩ after ∧
        after.permission = some p ∧ p.enabled = r.allowsReporting ∧
        ((m.completion behind).GivesNotice ↔
          r.permission = none ∧ reportingSwitchedOff m.environment = false ∧ m.outside.output = .takes) ∧
        ((m.completion behind).payloads ≠ [] →
          r.allowsReporting = true ∧ reportingSwitchedOff m.environment = false) := by
  have hstore : (m.storeAt path behind).Mirrors r := h.congr rfl rfl
  obtain ⟨after, p, hmirrors, hp, hallowed, hplace, henabled, hfirst⟩ :=
    Reporter.ofStore_of_mirrors (Collector.ofEnvironment m.outside.builtInKey m.environment) hstore
  rw [hallowed] at henabled
  have hreporter : (Program.reporterOf (m.storeAt path behind) m.outside).1.enabled =
      (r.allowsReporting && !reportingSwitchedOff m.environment) := henabled
  have hnew : (Program.reporterOf (m.storeAt path behind) m.outside).1.ambient.isFirstUsage =
      r.permission.isNone := hfirst
  cases hrun : m.request with
  | permission command =>
      simp [Invocation.isSession, hrun] at hsession
  | run projectName command =>
      have hcompletion := completion_eq behind hpath
      rw [hrun] at hcompletion
      simp only at hcompletion
      rw [hcompletion]
      refine ⟨after, p, hmirrors.congr ?_ hplace.symm, hp, hallowed, ?_, ?_⟩
      · rw [Program.host_runSession]
        rfl
      · rw [givesNotice_runSession, Program.announces, hreporter, hnew, ← and_assoc]
        refine and_congr_left fun _ => ?_
        -- without a permission reporting is allowed
        cases hpermission : r.permission with
        | none =>
            simp [MetricsRecord.allowsReporting, hpermission]
        | some q =>
            simp
      · intro hpayloads
        have hreporting : (Program.reporterOf (m.storeAt path behind) m.outside).1.enabled = true := by
          cases hmay : (Program.reporterOf (m.storeAt path behind) m.outside).1.enabled with
          | true =>
              rfl
          | false =>
              exact absurd (Program.payloads_runSession _ _ hmay) hpayloads
        rw [hreporter] at hreporting
        simpa using hreporting

/-- Only a session hands anything over. -/
theorem isSession_of_payloads
    (hpath : m.metricsFile? = some path)
    (hpayloads : (m.completion behind).payloads ≠ []) :
    m.isSession = true := by
  cases hrequest : m.request with
  | run projectName command =>
      simp [Invocation.isSession, hrequest]
  | permission command =>
      rw [completion_eq behind hpath, hrequest] at hpayloads
      exact absurd (Program.payloads_changePermission _ _ command) hpayloads

/-- Whatever else than a question a use is, there is a permission in the file after it. Unless the use
is one that allows reporting, the permission says so only if a session has found reporting allowed. -/
theorem permission_of_use
    (h : StoreState.Mirrors ⟨.new path, behind⟩ r)
    (hpath : m.metricsFile? = some path)
    (hquestion : m.isQuestion = false)
    (hpermit : m.isPermit = false) :
    ∃ (after : MetricsRecord) (p : Permission),
      StoreState.Mirrors ⟨.new path, (m.completion behind).host⟩ after ∧
        after.permission = some p ∧
        (p.enabled = true → m.isSession = true ∧ r.allowsReporting = true) ∧
        ((m.completion behind).GivesNotice ↔
          m.isSession = true ∧ r.permission = none ∧
            reportingSwitchedOff m.environment = false ∧ m.outside.output = .takes) := by
  cases hrequest : m.request with
  | run projectName command =>
      have hsession : m.isSession = true := by simp [Invocation.isSession, hrequest]
      obtain ⟨after, p, hmirrors, hp, hallowed, hnotice, -⟩ := session_of_run h hpath hsession
      refine ⟨after, p, hmirrors, hp, fun henabled => ⟨hsession, hallowed ▸ henabled⟩, ?_⟩
      rw [hnotice]
      simp [hsession]
  | permission command =>
      cases command with
      | status => simp [Invocation.isQuestion, hrequest] at hquestion
      | enable => simp [Invocation.isPermit, hrequest] at hpermit
      | disable =>
          obtain ⟨⟨after, p, hmirrors, hp, hstopped⟩, hsilent⟩ :=
            stopped_of_disable h hpath hrequest
          have hcommand : m.isSession = false := by simp [Invocation.isSession, hrequest]
          refine ⟨after, p, hmirrors, hp, ?_, ?_⟩
          · simp [hstopped]
          · simp [hsilent, hcommand]

end Use

/-! ## Histories -/

/-- How things stand after uses none of which allows reporting. Either nobody has done more than ask,
and the file holds no permission; or the first one who has done more decides what the permission can
be, and whether the user has been told. -/
inductive Standing
    (path : String)
    (host : Host)
    (ms : List Invocation) : Prop
  | untouched
      {r : MetricsRecord}
      (mirrors : StoreState.Mirrors ⟨.new path, host.after ms⟩ r)
      (opening : Invocation.opening? ms = none)
      (permission : r.permission = none)
      (silent : ¬ host.Noticed ms)
  | opened
      {r : MetricsRecord}
      {first : Invocation}
      {p : Permission}
      (mirrors : StoreState.Mirrors ⟨.new path, host.after ms⟩ r)
      (opening : Invocation.opening? ms = some first)
      (permission : r.permission = some p)
      (session : p.enabled = true → first.isSession = true)
      (noticed : host.Noticed ms ↔
        first.isSession = true ∧ reportingSwitchedOff first.environment = false ∧
          first.outside.output = .takes)

section Standing

variable {path : String} {host : Host} {ms : List Invocation} {m : Invocation}

theorem standing_nil
    (hmissing : Reading.ofFile host.files path = .missing)
    (hwritable : StoreState.Writable ⟨.new path, host⟩) :
    Standing path host [] := by
  have hreading : StoreState.reading ⟨.new path, host⟩ = .missing := hmissing
  refine .untouched ⟨hwritable, MetricsRecord.storable_empty,
    Or.inl (congrArg Reading.orEmpty hreading)⟩ rfl rfl ?_
  simp [Host.Noticed, Host.completions]

/-- One more use: a question leaves everything as it is, a first other use opens, and later ones can
only take the permission away. -/
theorem standing_concat
    (h : Standing path host ms)
    (hpath : m.metricsFile? = some path)
    (hpermit : m.isPermit = false) :
    Standing path host (ms ++ [m]) := by
  cases hquestion : m.isQuestion with
  | true =>
      have hrequest : m.request = .permission .status := by
        simpa [Invocation.isQuestion] using hquestion
      obtain ⟨hfiles, hsilent⟩ := question_of_status (host.after ms) hpath hrequest
      have hopening := Invocation.opening?_concat ms m
      simp only [hquestion, if_true, Option.or_none] at hopening
      have hnoticed : host.Noticed (ms ++ [m]) ↔ host.Noticed ms := by
        simp [Host.noticed_concat, hsilent]
      cases h with
      | untouched mirrors opening permission silent =>
          refine .untouched ?_ (hopening.trans opening) permission (by rwa [hnoticed])
          rw [Host.after_concat]
          exact mirrors.congr hfiles rfl
      | opened mirrors opening permission session noticed =>
          refine .opened ?_ (hopening.trans opening) permission session (hnoticed.trans noticed)
          rw [Host.after_concat]
          exact mirrors.congr hfiles rfl
  | false =>
      have hopening := Invocation.opening?_concat ms m
      simp only [hquestion, Bool.false_eq_true, if_false] at hopening
      cases h with
      | untouched mirrors opening permission silent =>
          obtain ⟨after, p, hmirrors, hp, henabled, hnotice⟩ :=
            permission_of_use mirrors hpath hquestion hpermit
          rw [← Host.after_concat] at hmirrors
          refine .opened hmirrors (by rw [hopening, opening]; rfl) hp
            (fun hallowed => (henabled hallowed).1) ?_
          simp [Host.noticed_concat, silent, hnotice, permission]
      | @opened r first q mirrors opening permission session noticed =>
          obtain ⟨after, p, hmirrors, hp, henabled, hnotice⟩ :=
            permission_of_use mirrors hpath hquestion hpermit
          rw [← Host.after_concat] at hmirrors
          refine .opened hmirrors (by rw [hopening, opening]; rfl) hp ?_ ?_
          · intro hallowed
            have hstill : r.allowsReporting = true := (henabled hallowed).2
            exact session (by simpa [MetricsRecord.allowsReporting, permission] using hstill)
          · -- there was a permission already, so this use says nothing
            simp [Host.noticed_concat, hnotice, permission, noticed]

theorem standing_append
    {later : List Invocation}
    (h : Standing path host ms)
    (hpaths : ∀ k ∈ later, k.metricsFile? = some path)
    (hpermit : ∀ k ∈ later, k.isPermit = false) :
    Standing path host (ms ++ later) := by
  induction later generalizing ms with
  | nil =>
      rwa [List.append_nil]
  | cons k later ih =>
      have hnext := standing_concat h (hpaths k (by simp)) (hpermit k (by simp))
      have hrest := ih hnext (fun j hj => hpaths j (by simp [hj])) (fun j hj => hpermit j (by simp [hj]))
      rwa [List.append_assoc] at hrest

end Standing

/-- In a history that begins without a metrics file, a session that hands anything over has told the
user, or another use before it has, or reporting has been allowed by command before — exactly if the
first use that does more than ask for the status was no session in which reporting was switched off or
whose output was not taken, or reporting has been allowed by command. -/
theorem Host.noticed_of_payloads
    {host : Host}
    {path : String}
    {before : List Invocation}
    {m : Invocation}
    (hmissing : Reading.ofFile host.files path = .missing)
    (hwritable : StoreState.Writable ⟨.new path, host⟩)
    (hpaths : ∀ k ∈ before ++ [m], k.metricsFile? = some path)
    (hpayloads : (m.completion (host.after before)).payloads ≠ []) :
    (host.Noticed (before ++ [m]) ∨ ∃ k ∈ before, k.isPermit = true) ↔
      (Invocation.opening? (before ++ [m])).any Invocation.isSilentSession = false ∨
        ∃ k ∈ before, k.isPermit = true := by
  by_cases hpermitted : ∃ k ∈ before, k.isPermit = true
  · simp [hpermitted]
  have hpath : m.metricsFile? = some path := hpaths m (by simp)
  have hstanding : Standing path host before :=
    standing_append (standing_nil hmissing hwritable) (fun k hk => hpaths k (by simp [hk]))
      (fun k hk => by
        cases hk' : k.isPermit with
        | false => rfl
        | true => exact absurd ⟨k, hk, hk'⟩ hpermitted)
  have hsession := isSession_of_payloads hpath hpayloads
  have hquestion : m.isQuestion = false := by
    cases hrequest : m.request <;>
      simp [Invocation.isQuestion, Invocation.isSession, hrequest] at hsession ⊢
  have hopening := Invocation.opening?_concat before m
  simp only [hquestion, Bool.false_eq_true, if_false] at hopening
  simp only [hpermitted, or_false, Host.noticed_concat, hopening]
  cases hstanding with
  | untouched mirrors opening permission silent =>
      obtain ⟨after, p, -, -, -, hnotice, hmay⟩ := session_of_run mirrors hpath hsession
      obtain ⟨-, hfree⟩ := hmay hpayloads
      simp [hnotice, opening, permission, silent, hfree, hsession, Invocation.isSilentSession]
  | @opened r first q mirrors opening permission session noticed =>
      obtain ⟨after, p, -, -, -, hnotice, hmay⟩ := session_of_run mirrors hpath hsession
      obtain ⟨hallowed, -⟩ := hmay hpayloads
      have hfirst : first.isSession = true :=
        session (by simpa [MetricsRecord.allowsReporting, permission] using hallowed)
      simp [hnotice, opening, permission, noticed, hfirst, Invocation.isSilentSession]

/-! ## A machine on which the program is new -/

/-- A machine without any files. -/
def plainHost : Host where
  files := .empty
  environment := []
  accountHome := none
  now := .epoch
  platform := "platform"
  arch := "arch"
  identifier := fun _ => "device"
  drawn := 0
  log := []

/-- A use of the program where the metrics file is `metrics.json`, events can be delivered, and
commands do well. -/
def plainUse (request : Request) (settings : Environment) : Invocation where
  request := request
  environment :=
    [("C3_METRICS_CONFIG_PATH", .text "metrics.json"), ("SPARROW_SOURCE_KEY", .text "key")] ++ settings
  accountHome := none
  now := .epoch
  outside := ⟨none, .takes, .ran [] 0 (.exited 0), .channel, [], fun _ => 0⟩

theorem writable_plainHost :
    StoreState.Writable ⟨.new "metrics.json", plainHost⟩ :=
  StoreState.writable_of_kept (r := .empty) (by decide +kernel) (by decide +kernel)

/-- A question, a session and one more: the first session has told the user. -/
theorem noticed_plainUse :
    let question := plainUse (.permission .status) []
    let session := plainUse (.run none ["true"]) []
    (session.completion (plainHost.after [question, session])).payloads ≠ [] ∧
      plainHost.Noticed [question, session, session] := by
  intro question session
  have hpayloads : (session.completion (plainHost.after [question, session])).payloads ≠ [] :=
    List.ne_nil_of_length_pos (by decide +kernel)
  have hpaths : ∀ k ∈ [question, session] ++ [session],
      k.metricsFile? = some "metrics.json" := by decide +kernel
  have htold := (Host.noticed_of_payloads rfl writable_plainHost hpaths hpayloads).mpr
    (.inl (by decide +kernel))
  refine ⟨hpayloads, htold.resolve_right ?_⟩
  decide +kernel

/-- A session in which reporting is switched off, and then one in which it is not: the second hands
events over, although nobody has been told and nobody has allowed it. -/
theorem unnoticed_plainUse :
    let silenced := plainUse (.run none ["true"]) [("C3_TELEMETRY_DISABLED", .text "1")]
    let session := plainUse (.run none ["true"]) []
    Reading.ofFile plainHost.files "metrics.json" = .missing ∧
      StoreState.Writable ⟨.new "metrics.json", plainHost⟩ ∧
      (∀ k ∈ [silenced, session], k.metricsFile? = some "metrics.json") ∧
      (session.completion (plainHost.after [silenced])).payloads ≠ [] ∧
      ¬ (plainHost.Noticed [silenced, session] ∨ ∃ k ∈ [silenced], k.isPermit = true) := by
  intro silenced session
  have hpayloads : (session.completion (plainHost.after [silenced])).payloads ≠ [] :=
    List.ne_nil_of_length_pos (by decide +kernel)
  have hprinted : ∀ c ∈ plainHost.completions [silenced, session], c.printed = "" := by
    decide +kernel
  refine ⟨rfl, writable_plainHost, by decide +kernel, hpayloads, ?_⟩
  rintro (⟨c, hc, hgiven⟩ | hpermitted)
  · exact Completion.not_givesNotice (by rw [hprinted c hc]; decide) hgiven
  · revert hpermitted
    decide +kernel

end LifecycleTelemetry
