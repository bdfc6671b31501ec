import LifecycleTelemetry.Proofs.Config.Attempts
import LifecycleTelemetry.Proofs.Config.Uses

/-!
# What is attempted

Each operation of the store comes to the attempts that are listed here: one for each piece that is missing
in the record, or for a permission that is not yet as it is to be. In a file that cannot be opened all of
them fail, and the operation goes on with what it has made.
-/

namespace LifecycleTelemetry
namespace StoreState

variable {s t : StoreState} {r : MetricsRecord}

/-! ## The attempts of an operation -/

/-- What is attempted to give a record an identity of the device. -/
def deviceIdAttempts (s : StoreState) (r : MetricsRecord) : List Attempt :=
  if r.lacksDeviceId then [⟨⟨s.store, s.host.draw.2⟩, r.identified s.host.draw.1⟩] else []

/-- What is attempted to give a record a permission. -/
def permissionAttempts (s : StoreState) (r : MetricsRecord) : List Attempt :=
  if r.permission.isNone then [⟨s, r.permitted s.host.now⟩] else []

/-- What is attempted to set the permission in the file. -/
def setPermissionAttempts (s : StoreState) (enabled : Bool) : List Attempt :=
  if s.reading.orEmpty.states enabled then []
  else [⟨s.read.2, s.reading.orEmpty.decided enabled s.host.now⟩]

/-- What is attempted to carry out a command. -/
def commandAttempts (s : StoreState) : PermissionCommand → List Attempt
  | .status => []
  | .enable => s.setPermissionAttempts true
  | .disable => s.setPermissionAttempts false

/-- What is attempted to make a reporter. -/
def reporterAttempts (s : StoreState) : List Attempt :=
  let device := s.read.2.deviceId s.read.1
  s.read.2.deviceIdAttempts s.read.1 ++ device.2.2.permissionAttempts device.2.1

/-- What a call attempts that is made on a record. -/
def attempts (s : StoreState) (r : MetricsRecord) : StoreCall → List Attempt
  | .setPermission enabled => s.setPermissionAttempts enabled
  | .command c => s.commandAttempts c
  | .reporter _ => s.reporterAttempts
  | .read => []
  | .deviceId => s.deviceIdAttempts r
  | .permission => s.permissionAttempts r

/-! ## Operations come to their attempts -/

theorem attempts_write
    (s : StoreState)
    (r : MetricsRecord) :
    s.Attempts [⟨s, r⟩] (s.write r).2 :=
  .attempt (.refl s) (.none (.refl _))

theorem attempts_keep
    (s : StoreState)
    (r : MetricsRecord)
    (complaint : String) :
    s.Attempts [⟨s, r⟩] (s.keep r complaint) := by
  have hwrite := s.attempts_write r
  unfold keep
  split
  · rename_i hresult
    rwa [hresult] at hwrite
  · rename_i after hresult
    rw [hresult] at hwrite
    exact hwrite.append (.none { Quiet.refl after with })

theorem attempts_deviceId
    (s : StoreState)
    (r : MetricsRecord) :
    s.Attempts (s.deviceIdAttempts r) (s.deviceId r).2.2 := by
  unfold deviceIdAttempts
  cases hlacks : r.lacksDeviceId with
  | false =>
      obtain ⟨id, hid, hempty⟩ := MetricsRecord.exists_deviceId hlacks
      rw [s.deviceId_of_held hid hempty]
      exact .none (.refl s)
  | true =>
      rw [s.deviceId_of_lacking hlacks]
      exact (attempts_keep _ _ _).quietly { Quiet.refl s with }

theorem attempts_permission
    (s : StoreState)
    (r : MetricsRecord) :
    s.Attempts (s.permissionAttempts r) (s.permission r).2.2 := by
  unfold permissionAttempts
  cases hp : r.permission with
  | some p =>
      rw [s.permission_of_held hp]
      exact .none (.refl s)
  | none =>
      rw [s.permission_of_lacking hp]
      exact attempts_keep s _ _

theorem attempts_setPermission
    (s : StoreState)
    (enabled : Bool) :
    s.Attempts (s.setPermissionAttempts enabled) (s.setPermission enabled).2 := by
  unfold setPermissionAttempts
  cases hstates : s.reading.orEmpty.states enabled with
  | true =>
      rw [setPermission_of_states hstates]
      exact .none s.quiet_read
  | false =>
      rw [setPermission_of_other hstates]
      exact (attempts_write _ _).quietly s.quiet_read

theorem attempts_command
    (s : StoreState)
    (c : PermissionCommand) :
    s.Attempts (s.commandAttempts c) (c.run s).2 := by
  cases c with
  | status => exact .none s.quiet_read
  | enable =>
      rw [commandAttempts, PermissionCommand.run, Workbench.announce_state]
      exact s.attempts_setPermission true
  | disable =>
      rw [commandAttempts, PermissionCommand.run, Workbench.announce_state]
      exact s.attempts_setPermission false

theorem attempts_reporter
    (s : StoreState)
    (collector : Collector) :
    s.Attempts s.reporterAttempts (Reporter.ofStore collector s).2 := by
  have hdevice := (attempts_deviceId s.read.2 s.read.1).quietly s.quiet_read
  have hasked := hdevice.append
    (attempts_permission (s.read.2.deviceId s.read.1).2.2 (s.read.2.deviceId s.read.1).2.1)
  rw [← List.append_nil s.reporterAttempts]
  refine hasked.append (.none ?_)
  unfold Reporter.ofStore
  simp only
  generalize (s.read.2.deviceId s.read.1).2.2.permission (s.read.2.deviceId s.read.1).2.1 = asked
  exact { Quiet.refl asked.2.2 with }

/-- A reporter of a file in which nothing is missing attempts nothing. -/
theorem reporterAttempts_eq_nil
    (h : s.reading.orEmpty.missing = 0) :
    s.reporterAttempts = [] := by
  obtain ⟨hlacks, hpermission⟩ : s.reading.orEmpty.lacksDeviceId = false ∧
      s.reading.orEmpty.permission.isNone = false := by
    simpa [MetricsRecord.missing] using h
  obtain ⟨id, hid, hempty⟩ := MetricsRecord.exists_deviceId hlacks
  simp only [reporterAttempts, read_fst, deviceIdAttempts, permissionAttempts, hlacks,
    deviceId_of_held _ hid hempty, hpermission, Bool.false_eq_true, if_false, List.append_nil]

end StoreState

namespace Workbench

variable {b : Workbench} {path : String}

/-- Whatever a use is, it comes to some attempts. -/
theorem attempts_outcome
    (u : StoreUse)
    (path : String)
    (b : Workbench) :
    ∃ as : List Attempt, (u.state path b).Attempts as (u.outcome path b).state := by
  have hsubject : (u.state path b).Quiet (u.subject path b).2 := by
    unfold StoreUse.subject
    split
    · exact .refl _
    · exact (u.state path b).quiet_read
  unfold StoreUse.outcome
  cases u.call with
  | setPermission enabled => exact ⟨_, (u.state path b).attempts_setPermission enabled⟩
  | command c => exact ⟨_, (u.state path b).attempts_command c⟩
  | reporter collector => exact ⟨_, (u.state path b).attempts_reporter collector⟩
  | read => exact ⟨_, .none (u.state path b).quiet_read⟩
  | deviceId =>
      exact ⟨_, (StoreState.attempts_deviceId (u.subject path b).2 (u.subject path b).1).quietly
        hsubject⟩
  | permission =>
      exact ⟨_, (StoreState.attempts_permission (u.subject path b).2 (u.subject path b).1).quietly
        hsubject⟩

theorem path_outcome
    (u : StoreUse)
    (path : String)
    (b : Workbench) :
    (u.outcome path b).state.store.path = path := by
  obtain ⟨as, has⟩ := attempts_outcome u path b
  exact has.samePlace.path

/-- Where the file cannot be opened, no use of it changes what it holds. -/
theorem vain_use
    (h : StoreState.Barred ⟨.new path, b.host⟩)
    (u : StoreUse) :
    StoreState.Barred ⟨.new path, (b.use path u).host⟩ ∧
      StoreState.file? ⟨.new path, (b.use path u).host⟩ = StoreState.file? ⟨.new path, b.host⟩ := by
  obtain ⟨as, has⟩ := attempts_outcome u path b
  have hfound : (u.state path b).Barred := h.congr rfl rfl
  obtain ⟨-, hfile, -, hlast⟩ := has.vain hfound
  have hpath := path_outcome u path b
  have hsame : StoreState.file? ⟨.new path, (b.use path u).host⟩
      = (u.outcome path b).state.file? :=
    StoreState.file?_congr rfl hpath.symm
  exact ⟨hlast.congr rfl hpath.symm, hsame.trans hfile⟩

theorem vain_after
    (h : StoreState.Barred ⟨.new path, b.host⟩)
    (us : List StoreUse) :
    StoreState.Barred ⟨.new path, (b.after path us).host⟩ ∧
      StoreState.file? ⟨.new path, (b.after path us).host⟩
        = StoreState.file? ⟨.new path, b.host⟩ := by
  induction us generalizing b with
  | nil => exact ⟨h, rfl⟩
  | cons u us ih =>
      obtain ⟨hstill, hsame⟩ := vain_use h u
      obtain ⟨hlast, hfile⟩ := ih hstill
      exact ⟨hlast, hfile.trans hsame⟩

/-- Where what is written is not read, it is not read after a use either. -/
theorem sunk_use
    (h : StoreState.Sunk ⟨.new path, b.host⟩)
    (hwhole : b.host.files.jam = none)
    (u : StoreUse) :
    StoreState.Sunk ⟨.new path, (b.use path u).host⟩ ∧ (b.use path u).host.files.jam = none := by
  obtain ⟨as, has⟩ := attempts_outcome u path b
  have hfound : (u.state path b).Sunk := h.congr rfl rfl
  exact ⟨(has.sunk hfound hwhole).congr rfl (path_outcome u path b).symm, has.jam.trans hwhole⟩

theorem sunk_after
    (h : StoreState.Sunk ⟨.new path, b.host⟩)
    (hwhole : b.host.files.jam = none)
    (us : List StoreUse) :
    StoreState.Sunk ⟨.new path, (b.after path us).host⟩ := by
  induction us generalizing b with
  | nil => exact h
  | cons u us ih =>
      obtain ⟨hstill, hwhole⟩ := sunk_use h hwhole u
      exact ih hstill hwhole

end Workbench
end LifecycleTelemetry
