import LifecycleTelemetry.Proofs.Config.Attempted

/-!
# A record at hand

A program holds a record: it asks for the identity of the device and for the permission on it, and writes
it. In between it may use the store for other things, and others may do to the files whatever they like, so
that a write may fail at one time and succeed at another.

An attempt that fails because the file cannot be opened leaves all files and the count as they are. Where the
permission is to be set the failure is the answer; where a value is asked for it is given all the same and
goes into the record. There it stays for as long as the record is held, and whatever writes the record writes
it too.
-/

namespace LifecycleTelemetry

open Failure (ConfigError)

/-- A store in use, and the record that is held. -/
structure Desk where
  state : StoreState
  held : MetricsRecord

/-- What a program does next, or what others do in the meantime. -/
inductive DeskStep where
  | ask (call : StoreCall)
  | hold (r : MetricsRecord)
  | writeHeld
  | write (r : MetricsRecord)
  | meanwhile (files : FileTree) (environment : Environment) (now : Calendar.Instant)

namespace DeskStep

/-- Whether it is the program that acts. -/
def isOwn : DeskStep → Bool
  | .meanwhile _ _ _ => false
  | _ => true

/-- Whether the record that is held is still the same one after a step. -/
def keepsHeld : DeskStep → Bool
  | .hold _ => false
  | .ask .read => false
  | _ => true

/-- Whether what a step writes, if it writes anything, is the record that is held. -/
def writesHeld : DeskStep → Bool
  | .writeHeld => true
  | .ask .deviceId => true
  | .ask .permission => true
  | _ => false

end DeskStep

namespace Desk

/-- Asks something of the store: the identity of the device and the permission on the record that is held.
A record that is read is held from then on. -/
def ask (d : Desk) : StoreCall → StoreAnswer × Desk
  | .setPermission enabled =>
      (.changed (d.state.setPermission enabled).1, ⟨(d.state.setPermission enabled).2, d.held⟩)
  | .command c => (.report (c.run d.state).1, ⟨(c.run d.state).2, d.held⟩)
  | .reporter collector =>
      (.reporter (Reporter.ofStore collector d.state).1,
        ⟨(Reporter.ofStore collector d.state).2, d.held⟩)
  | .read => (.record d.state.read.1, ⟨d.state.read.2, d.state.read.1⟩)
  | .deviceId =>
      (.deviceId (d.state.deviceId d.held).1,
        ⟨(d.state.deviceId d.held).2.2, (d.state.deviceId d.held).2.1⟩)
  | .permission =>
      (.permission (d.state.permission d.held).1,
        ⟨(d.state.permission d.held).2.2, (d.state.permission d.held).2.1⟩)

/-- How things are after a step. -/
def step (d : Desk) : DeskStep → Desk
  | .ask call => (d.ask call).2
  | .hold r => ⟨d.state, r⟩
  | .writeHeld => ⟨(d.state.write d.held).2, d.held⟩
  | .write r => ⟨(d.state.write r).2, d.held⟩
  | .meanwhile files environment now =>
      ⟨{ d.state with host := { d.state.host with files, environment, now } }, d.held⟩

/-- How things are after steps, one after the other. -/
def after (d : Desk) (steps : List DeskStep) : Desk :=
  steps.foldl step d

/-- The writes that a step attempts. -/
def attempts (d : Desk) : DeskStep → List Attempt
  | .ask call => d.state.attempts d.held call
  | .hold _ => []
  | .writeHeld => [⟨d.state, d.held⟩]
  | .write r => [⟨d.state, r⟩]
  | .meanwhile _ _ _ => []

/-- The writes that steps attempt, one after the other. -/
def attemptsOf : Desk → List DeskStep → List Attempt
  | _, [] => []
  | d, c :: steps => d.attempts c ++ attemptsOf (d.step c) steps

end Desk

/-- Whether a record holds the value that has been answered. -/
def MetricsRecord.Gives (r : MetricsRecord) : StoreAnswer → Prop
  | .deviceId id => r.deviceId = some id ∧ id.isEmpty = false
  | .permission p => r.permission = some p
  | _ => True

/-! ## Operations whose attempts fail or succeed -/

namespace StoreState

variable {s : StoreState} {r : MetricsRecord} {a : Attempt} {e : ConfigError} {enabled : Bool}

/-- What could not be written is complained about. -/
theorem log_keep_of_error
    (h : (s.write r).1 = .error e)
    (complaint : String) :
    (s.keep r complaint).host.log = s.host.log ++ [⟨.warn, .store, complaint, []⟩] := by
  have hlog := log_write_of_error h
  unfold keep
  split
  · rename_i hresult
    rw [hresult] at h
    cases h
  · rename_i after hresult
    rw [hresult] at hlog
    rw [← hlog]
    rfl

/-- The failure of an attempt to set the permission is the answer. -/
theorem setPermission_of_failed
    (ha : a ∈ s.setPermissionAttempts enabled)
    (he : a.result = .error e) :
    (s.setPermission enabled).1 = .error e := by
  unfold setPermissionAttempts at ha
  cases hstates : s.reading.orEmpty.states enabled with
  | true => simp [hstates] at ha
  | false =>
      rw [hstates, if_neg Bool.false_ne_true, List.mem_singleton] at ha
      subst ha
      rw [setPermission_of_other hstates]
      rw [Attempt.result] at he
      rw [he]
      rfl

/-- It is that of a command, too. -/
theorem run_of_failed
    {c : PermissionCommand}
    (ha : a ∈ s.commandAttempts c)
    (he : a.result = .error e) :
    (c.run s).1 = .error e := by
  cases c with
  | status => cases ha
  | enable =>
      rw [PermissionCommand.run, Workbench.announce_eq, setPermission_of_failed ha he]
      rfl
  | disable =>
      rw [PermissionCommand.run, Workbench.announce_eq, setPermission_of_failed ha he]
      rfl

/-- An identity of the device that could not be written is given and held, and complained about. -/
theorem deviceId_of_failed
    (ha : a ∈ s.deviceIdAttempts r)
    (he : a.result = .error e) :
    (s.deviceId r).1 = s.host.draw.1 ∧
      (s.deviceId r).2.1 = { r with deviceId := some s.host.draw.1 } ∧
        (s.deviceId r).2.2.host.log
          = s.host.log ++ [⟨.warn, .store, "failed to persist device id", []⟩] := by
  unfold deviceIdAttempts at ha
  cases hlacks : r.lacksDeviceId with
  | false => simp [hlacks] at ha
  | true =>
      rw [hlacks, if_pos rfl, List.mem_singleton] at ha
      subst ha
      rw [s.deviceId_of_lacking hlacks]
      exact ⟨rfl, by rw [MetricsRecord.identified, if_pos hlacks], log_keep_of_error he _⟩

/-- So is a permission. -/
theorem permission_of_failed
    (ha : a ∈ s.permissionAttempts r)
    (he : a.result = .error e) :
    (s.permission r).1 = ⟨true, s.host.now⟩ ∧
      (s.permission r).2.1 = { r with permission := some ⟨true, s.host.now⟩ } ∧
        (s.permission r).2.2.host.log
          = s.host.log ++
              [⟨.warn, .store, "failed to persist default telemetry permission", []⟩] := by
  unfold permissionAttempts at ha
  cases hp : r.permission with
  | some p => simp [hp] at ha
  | none =>
      rw [hp, Option.isNone_none, if_pos rfl, List.mem_singleton] at ha
      subst ha
      rw [s.permission_of_lacking hp]
      exact ⟨rfl, by simp [MetricsRecord.permitted, hp], log_keep_of_error he _⟩

/-- Asking for the identity of the device leaves it in the record. -/
theorem deviceId_record
    (s : StoreState)
    (r : MetricsRecord) :
    (s.deviceId r).2.1 = r.identified s.host.draw.1 := by
  cases hlacks : r.lacksDeviceId with
  | false =>
      obtain ⟨id, hid, hempty⟩ := MetricsRecord.exists_deviceId hlacks
      rw [s.deviceId_of_held hid hempty, MetricsRecord.identified, hlacks]
      rfl
  | true => rw [s.deviceId_of_lacking hlacks]

/-- And asking for the permission leaves that. -/
theorem permission_record
    (s : StoreState)
    (r : MetricsRecord) :
    (s.permission r).2.1 = r.permitted s.host.now := by
  cases hp : r.permission with
  | some p =>
      rw [s.permission_of_held hp, MetricsRecord.permitted, hp]
      rfl
  | none => rw [s.permission_of_lacking hp]

/-- What is written on asking for the identity of the device is the record with it. -/
theorem deviceId_of_written
    (ha : a ∈ s.deviceIdAttempts r)
    (hok : a.result = .ok ()) :
    (s.deviceId r).2 = (a.record, a.after) := by
  unfold deviceIdAttempts at ha
  cases hlacks : r.lacksDeviceId with
  | false => simp [hlacks] at ha
  | true =>
      rw [hlacks, if_pos rfl, List.mem_singleton] at ha
      subst ha
      rw [s.deviceId_of_lacking hlacks, keep_of_written hok]
      rfl

theorem permission_of_written
    (ha : a ∈ s.permissionAttempts r)
    (hok : a.result = .ok ()) :
    (s.permission r).2 = (a.record, a.after) := by
  unfold permissionAttempts at ha
  cases hp : r.permission with
  | some p => simp [hp] at ha
  | none =>
      rw [hp, Option.isNone_none, if_pos rfl, List.mem_singleton] at ha
      subst ha
      rw [s.permission_of_lacking hp, keep_of_written hok]
      rfl

/-- A file that holds the text of a record that can be stored is read as that record. -/
theorem reading_of_file?
    (h : s.file? = some (.text r.text))
    (hstorable : r.Storable) :
    s.reading = .record r.reread :=
  reading_eq_record_iff.mpr ⟨r.text, h, MetricsRecord.ofText?_text hstorable⟩

end StoreState

namespace Desk

variable {d : Desk} {c : DeskStep} {steps : List DeskStep} {a : Attempt} {e : ConfigError}

/-! ## What is written -/

/-- What a program does with the store comes to the attempts of the step. -/
theorem attempts_step
    (d : Desk)
    (h : c.isOwn = true) :
    d.state.Attempts (d.attempts c) (d.step c).state := by
  cases c with
  | ask call =>
      cases call with
      | setPermission enabled => exact d.state.attempts_setPermission enabled
      | command c => exact d.state.attempts_command c
      | reporter collector => exact d.state.attempts_reporter collector
      | read => exact .none d.state.quiet_read
      | deviceId => exact d.state.attempts_deviceId d.held
      | permission => exact d.state.attempts_permission d.held
  | hold r => exact .none (.refl d.state)
  | writeHeld => exact d.state.attempts_write d.held
  | write r => exact d.state.attempts_write r
  | meanwhile files environment now => cases h

/-- Only what the program does attempts anything. -/
theorem isOwn_of_mem
    (ha : a ∈ d.attempts c) :
    c.isOwn = true := by
  cases c with
  | meanwhile files environment now => cases ha
  | _ => rfl

theorem writes_step
    (d : Desk)
    (c : DeskStep) :
    (d.step c).state.store.writes
      = d.state.store.writes + (d.attempts c).countP Attempt.succeeds := by
  cases hown : c.isOwn with
  | true => exact (d.attempts_step hown).writes
  | false =>
      cases c with
      | meanwhile files environment now => rfl
      | _ => cases hown

/-- The count tells how many of the attempts have succeeded. -/
theorem writes_after
    (d : Desk)
    (steps : List DeskStep) :
    (d.after steps).state.store.writes
      = d.state.store.writes + (d.attemptsOf steps).countP Attempt.succeeds := by
  induction steps generalizing d with
  | nil => rfl
  | cons c steps ih =>
      have hrest := ih (d.step c)
      rw [d.writes_step c, Nat.add_assoc, ← List.countP_append] at hrest
      exact hrest

theorem identifier_after
    (d : Desk)
    (steps : List DeskStep) :
    (d.after steps).state.host.identifier = d.state.host.identifier := by
  induction steps generalizing d with
  | nil => rfl
  | cons c steps ih =>
      have hstep : (d.step c).state.host.identifier = d.state.host.identifier := by
        cases hown : c.isOwn with
        | true => exact (d.attempts_step hown).samePlace.identifier
        | false =>
            cases c with
            | meanwhile files environment now => rfl
            | _ => cases hown
      exact (ih (d.step c)).trans hstep

/-! ## What is held -/

/-- The record that is held is kept, or is given what was missing in it. -/
theorem held_step
    (d : Desk)
    (h : c.keepsHeld = true) :
    (d.step c).held = d.held ∨
      (d.step c).held = d.held.identified d.state.host.draw.1 ∨
        (d.step c).held = d.held.permitted d.state.host.now := by
  cases c with
  | ask call =>
      cases call with
      | deviceId => exact Or.inr (Or.inl (d.state.deviceId_record d.held))
      | permission => exact Or.inr (Or.inr (d.state.permission_record d.held))
      | read => cases h
      | _ => exact Or.inl rfl
  | hold r => cases h
  | _ => exact Or.inl rfl

/-- A value that is in the record stays there. -/
theorem gives_step
    {answer : StoreAnswer}
    (h : c.keepsHeld = true)
    (hgives : d.held.Gives answer) :
    (d.step c).held.Gives answer := by
  cases answer with
  | deviceId id =>
      obtain ⟨hid, hempty⟩ := hgives
      have hlacks : d.held.lacksDeviceId = false := by
        simp [MetricsRecord.lacksDeviceId, hid, hempty]
      refine ⟨?_, hempty⟩
      rcases d.held_step h with hsame | hidentified | hpermitted
      · rw [hsame, hid]
      · rw [hidentified, MetricsRecord.identified, hlacks]
        exact hid
      · rw [hpermitted, (d.held.permitted_frame _).1, hid]
  | permission p =>
      have hp : d.held.permission = some p := hgives
      show (d.step c).held.permission = some p
      rcases d.held_step h with hsame | hidentified | hpermitted
      · rw [hsame, hp]
      · rw [hidentified, (d.held.identified_frame _).1, hp]
      · rw [hpermitted, MetricsRecord.permitted, hp]
        exact hp
  | _ => trivial

theorem gives_after
    {answer : StoreAnswer}
    (h : ∀ c ∈ steps, c.keepsHeld = true)
    (hgives : d.held.Gives answer) :
    (d.after steps).held.Gives answer := by
  induction steps generalizing d with
  | nil => exact hgives
  | cons c steps ih =>
      obtain ⟨hc, hsteps⟩ := List.forall_mem_cons.mp h
      exact ih hsteps (gives_step hc hgives)

/-- What is asked on the record is in it from then on. -/
theorem gives_ask
    {call : StoreCall}
    (d : Desk)
    (hcall : call = .deviceId ∨ call = .permission)
    (hfresh : d.state.host.draw.1 ≠ "") :
    (d.ask call).2.held.Gives (d.ask call).1 := by
  rcases hcall with rfl | rfl
  · show (d.state.deviceId d.held).2.1.deviceId = some (d.state.deviceId d.held).1 ∧
      (d.state.deviceId d.held).1.isEmpty = false
    cases hlacks : d.held.lacksDeviceId with
    | false =>
        obtain ⟨id, hid, hempty⟩ := MetricsRecord.exists_deviceId hlacks
        rw [d.state.deviceId_of_held hid hempty]
        exact ⟨hid, hempty⟩
    | true =>
        rw [d.state.deviceId_of_lacking hlacks]
        exact ⟨by rw [MetricsRecord.identified, if_pos hlacks], by simpa using hfresh⟩
  · show (d.state.permission d.held).2.1.permission = some (d.state.permission d.held).1
    cases hp : d.held.permission with
    | some p =>
        rw [d.state.permission_of_held hp]
        exact hp
    | none =>
        rw [d.state.permission_of_lacking hp, MetricsRecord.permitted, hp]
        rfl

/-- A value that is in the record is the answer, and nothing is attempted. -/
theorem ask_of_gives
    {call : StoreCall}
    {before : Desk}
    (hcall : call = .deviceId ∨ call = .permission)
    (hgives : d.held.Gives (before.ask call).1) :
    (d.ask call).1 = (before.ask call).1 ∧ d.attempts (.ask call) = [] := by
  rcases hcall with rfl | rfl
  · obtain ⟨hid, hempty⟩ := hgives
    have hlacks : d.held.lacksDeviceId = false := by
      simp [MetricsRecord.lacksDeviceId, hid, hempty]
    refine ⟨congrArg StoreAnswer.deviceId ?_, ?_⟩
    · rw [d.state.deviceId_of_held hid hempty]
    · simp [attempts, StoreState.attempts, StoreState.deviceIdAttempts, hlacks]
  · have hp : d.held.permission = some (before.state.permission before.held).1 := hgives
    refine ⟨congrArg StoreAnswer.permission ?_, ?_⟩
    · rw [d.state.permission_of_held hp]
    · simp [attempts, StoreState.attempts, StoreState.permissionAttempts, hp]

/-- What is written of the record that is held is all of it. -/
theorem step_of_written
    (h : c.writesHeld = true)
    (ha : a ∈ d.attempts c)
    (hok : a.result = .ok ()) :
    (d.step c).held = a.record ∧ (d.step c).state = a.after := by
  cases c with
  | ask call =>
      cases call with
      | deviceId =>
          have hmade := StoreState.deviceId_of_written ha hok
          exact ⟨congrArg Prod.fst hmade, congrArg Prod.snd hmade⟩
      | permission =>
          have hmade := StoreState.permission_of_written ha hok
          exact ⟨congrArg Prod.fst hmade, congrArg Prod.snd hmade⟩
      | _ => cases h
  | writeHeld =>
      rw [attempts, List.mem_singleton] at ha
      subst ha
      exact ⟨rfl, rfl⟩
  | _ => cases h

/-! ## Failures and successes -/

/-- What a step comes to that has attempted to write, in vain. -/
structure Complains (d : Desk) (c : DeskStep) (e : ConfigError) : Prop where
  setPermission : ∀ enabled : Bool, c = .ask (.setPermission enabled) →
    (d.ask (.setPermission enabled)).1 = .changed (.error e)
  command : ∀ k : PermissionCommand, c = .ask (.command k) →
    (d.ask (.command k)).1 = .report (.error e)
  deviceId : c = .ask .deviceId → ∃ id : String, id ≠ "" ∧
    (d.ask .deviceId).1 = .deviceId id ∧
    (d.step c).held = { d.held with deviceId := some id } ∧
    (d.step c).state.host.log
      = d.state.host.log ++ [⟨.warn, .store, "failed to persist device id", []⟩]
  permission : c = .ask .permission → ∃ p : Permission, p = ⟨true, d.state.host.now⟩ ∧
    (d.ask .permission).1 = .permission p ∧
    (d.step c).held = { d.held with permission := some p } ∧
    (d.step c).state.host.log
      = d.state.host.log ++
          [⟨.warn, .store, "failed to persist default telemetry permission", []⟩]

theorem complains_of_failed
    (hfresh : d.state.host.draw.1 ≠ "")
    (ha : a ∈ d.attempts c)
    (he : a.result = .error e) :
    d.Complains c e := by
  refine ⟨?_, ?_, ?_, ?_⟩
  · rintro enabled rfl
    exact congrArg StoreAnswer.changed (StoreState.setPermission_of_failed ha he)
  · rintro k rfl
    exact congrArg StoreAnswer.report (StoreState.run_of_failed ha he)
  · rintro rfl
    obtain ⟨hid, hheld, hlog⟩ := StoreState.deviceId_of_failed ha he
    exact ⟨_, hfresh, congrArg StoreAnswer.deviceId hid, hheld, hlog⟩
  · rintro rfl
    obtain ⟨hp, hheld, hlog⟩ := StoreState.permission_of_failed ha he
    exact ⟨_, rfl, congrArg StoreAnswer.permission hp, hheld, hlog⟩

/-- What a step leaves as it was that has found a file that cannot be opened. -/
structure Spares (d : Desk) (c : DeskStep) : Prop where
  /-- The file is as it was, or is not there as it was not. -/
  file : (d.step c).state.file? = d.state.file?
  /-- So is every other file. -/
  files : d.state.host.files.Widened (d.step c).state.host.files
  store : (d.step c).state.store = d.state.store
  record : (d.step c).state.reading.orEmpty = d.state.reading.orEmpty

theorem spares_of_barred
    (ha : a ∈ d.attempts c)
    (hbarred : a.state.Barred) :
    d.Spares c := by
  have hattempts := d.attempts_step (isOwn_of_mem ha)
  obtain ⟨hfailed, hfile, hfiles, -⟩ := hattempts.vain (hattempts.barred_of_mem ha hbarred)
  have hcount : (d.attempts c).countP Attempt.succeeds = 0 := by
    simpa [List.countP_eq_zero] using hfailed
  have hwrites := hattempts.writes
  rw [hcount, Nat.add_zero] at hwrites
  have hstore : (d.step c).state.store = d.state.store := by
    rw [MetricsStore.mk.injEq]
    exact ⟨hattempts.samePlace.path, hwrites⟩
  exact ⟨hfile, hfiles, hstore, StoreState.orEmpty_reading_of_file? hfile⟩

/-- What becomes of a value that has been answered on the record that is held: it is in the record, it is
answered again, without any attempt to write, and whatever writes the record writes it too. Where the file can
be read it is read there. -/
structure Recalls (d : Desk) (call : StoreCall) (answer : StoreAnswer) : Prop where
  held : d.held.Gives answer
  again : (d.ask call).1 = answer
  unattempted : d.attempts (.ask call) = []
  written : ∀ w : DeskStep, w.writesHeld = true → ∀ a ∈ d.attempts w, a.result = .ok () →
    (d.step w).held.Gives answer ∧
    (¬a.state.OnDevice → (d.step w).state.kept? = some (.text (d.step w).held.text)) ∧
    (a.state.Faithful → d.held.Storable → ∃ r : MetricsRecord,
      (d.step w).state.reading = .record r ∧ r.Gives answer)

theorem keepsHeld_of_writesHeld
    (h : c.writesHeld = true) :
    c.keepsHeld = true := by
  cases c with
  | ask call =>
      cases call with
      | read => cases h
      | _ => rfl
  | hold r => cases h
  | _ => rfl

/-- A record that could be stored still can be when what was missing has been made. -/
theorem storable_step
    (h : c.keepsHeld = true)
    (hstorable : d.held.Storable) :
    (d.step c).held.Storable := by
  rcases d.held_step h with hsame | hidentified | hpermitted
  · rw [hsame]
    exact hstorable
  · rw [hidentified]
    exact hstorable.identified _
  · rw [hpermitted]
    exact hstorable.permitted _

theorem recalls_of_gives
    {call : StoreCall}
    {before : Desk}
    (hcall : call = .deviceId ∨ call = .permission)
    (hgives : d.held.Gives (before.ask call).1) :
    d.Recalls call (before.ask call).1 := by
  obtain ⟨hagain, hunattempted⟩ := ask_of_gives hcall hgives
  refine ⟨hgives, hagain, hunattempted, fun w hw a ha hok => ?_⟩
  have hkeeps := keepsHeld_of_writesHeld hw
  have hheld := gives_step hkeeps hgives
  obtain ⟨hrecord, hafter⟩ := step_of_written hw ha hok
  refine ⟨hheld, fun hdevice => ?_, fun hfaithful hstorable => ?_⟩
  · rw [hafter, hrecord]
    exact StoreState.kept?_write hok hdevice
  have hfile : (d.step w).state.file? = some (.text (d.step w).held.text) := by
    rw [hafter, hrecord]
    exact StoreState.file?_write_of_faithful hfaithful hok
  refine ⟨_, StoreState.reading_of_file? hfile (storable_step hkeeps hstorable), ?_⟩
  rcases hcall with rfl | rfl
  · exact hheld
  · exact hheld

/-- Whatever has been done before and whatever others have done to the files: what a program does comes to
attempts to write, and the count tells how many of them have succeeded. One that fails because a directory
cannot be made or the file cannot be opened leaves everything as it was. Whatever it fails by, the failure is
the answer where the permission is to be set; an identity of the device and a permission are given and held
all the same. As long as the record is held they are answered again, and the next write of it that succeeds
writes them. -/
theorem failures_spare
    {start : Desk}
    (hfresh : ∀ n, start.state.host.identifier n ≠ "")
    (steps : List DeskStep)
    (c : DeskStep) :
    let d := start.after steps
    (c.isOwn = true → d.state.Attempts (d.attempts c) (d.step c).state) ∧
      (d.step c).state.store.writes
        = start.state.store.writes
          + (start.attemptsOf (steps ++ [c])).countP (fun a => a.result.isOk) ∧
      (∀ a ∈ d.attempts c, ∀ e : ConfigError, a.result = .error e → d.Complains c e) ∧
      (∀ a ∈ d.attempts c, ∀ e : ConfigError, a.state.openFile.2 = .error e →
        a.result = .error e ∧ d.Spares c) ∧
      ∀ call : StoreCall, call = .deviceId ∨ call = .permission → c = .ask call →
        ∀ later : List DeskStep, (∀ x ∈ later, x.keepsHeld = true) →
          ((d.step c).after later).Recalls call (d.ask call).1 := by
  intro d
  have hdraw : d.state.host.draw.1 ≠ "" := by
    rw [Host.draw, start.identifier_after steps]
    exact hfresh _
  refine ⟨d.attempts_step, ?_, fun a ha e he => complains_of_failed hdraw ha he,
    fun a ha e he => ⟨?_, spares_of_barred ha ⟨e, he⟩⟩, ?_⟩
  · have hwrites := start.writes_after (steps ++ [c])
    rw [after, List.foldl_append] at hwrites
    exact hwrites
  · rw [Attempt.result, StoreState.write_of_barred he]
  · rintro call hcall rfl later hlater
    exact recalls_of_gives hcall (gives_after hlater (d.gives_ask hcall hdraw))

/-- For instance, an identity that could not be written is written with the permission when others have
made the files writable. -/
theorem failures_spare_sharedHost :
    let locked : FileTree := { sharedHost.files with readOnly := true }
    let start : Desk := ⟨⟨.new "metrics.json", { sharedHost with files := locked }⟩, .empty⟩
    let asked := start.step (.ask .deviceId)
    let unlocked := asked.step (.meanwhile sharedHost.files [] .epoch)
    let written := unlocked.step (.ask .permission)
    start.Complains (.ask .deviceId) (.write "metrics.json" .readOnly) ∧
      start.Spares (.ask .deviceId) ∧
        unlocked.Recalls .deviceId (.deviceId "first") ∧
          written.held.Gives (.deviceId "first") ∧
            ∃ r : MetricsRecord, written.state.reading = .record r ∧ r.Gives (.deviceId "first") := by
  intro locked start asked unlocked written
  let step : DeskStep := .meanwhile sharedHost.files [] .epoch
  let failing : Attempt :=
    ⟨⟨start.state.store, start.state.host.draw.2⟩, start.held.identified "first"⟩
  let succeeding : Attempt := ⟨unlocked.state, unlocked.held.permitted .epoch⟩
  have hfailing : failing.state.openFile.2 = .error (.write "metrics.json" .readOnly) := by
    decide +kernel
  have hpath : unlocked.state.store.path = "metrics.json" :=
    (start.attempts_step (c := .ask .deviceId) rfl).samePlace.path
  have hwritable : succeeding.state.Writable := StoreState.writable_sharedHost.congr rfl hpath
  have hmember : failing ∈ start.attempts (.ask .deviceId) := List.mem_singleton.mpr rfl
  have hnext : succeeding ∈ unlocked.attempts (.ask .permission) := List.mem_singleton.mpr rfl
  have hfresh : ∀ n, start.state.host.identifier n ≠ "" := identifier_sharedHost
  obtain ⟨-, -, hcomplains, hspares, hrecalls⟩ := failures_spare hfresh [] (.ask .deviceId)
  obtain ⟨hfailed, hspared⟩ := hspares failing hmember _ hfailing
  have hrecalled : unlocked.Recalls .deviceId (.deviceId "first") :=
    hrecalls .deviceId (Or.inl rfl) rfl [step] (List.forall_mem_singleton.mpr rfl)
  obtain ⟨hgives, -, hread⟩ := hrecalled.written (.ask .permission) rfl succeeding hnext
    (hwritable succeeding.record).1
  have hstorable : unlocked.held.Storable := MetricsRecord.storable_empty.identified "first"
  exact ⟨hcomplains failing hmember _ hfailed, hspared, hrecalled, hgives,
    hread hwritable.faithful hstorable⟩

end Desk
end LifecycleTelemetry
