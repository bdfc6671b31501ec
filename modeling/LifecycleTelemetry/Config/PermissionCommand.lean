import LifecycleTelemetry.Config.Collector
import LifecycleTelemetry.Config.Store

/-!
# Permission commands

What a user can do about reporting from the command line: ask whether it takes place, allow it and
stop it. Asking never writes. A permission that the environment overrides is shown with a remark.
-/

namespace LifecycleTelemetry

open Failure (ConfigError)

/-- A command about the permission. -/
inductive PermissionCommand where
  | status
  | enable
  | disable
deriving DecidableEq

/-- What a command about the permission answers. -/
structure PermissionReport where
  statusLine : String
  note : Option String
deriving DecidableEq

/-- The thanks to a user who allows reporting. -/
def enabledNote : String :=
  "c3 telemetry is completely anonymous. Thank you for helping us improve the experience!"

/-- The confirmation for a user who stops reporting. -/
def disabledNote : String :=
  "c3 is no longer collecting telemetry."

/-- The notice that is shown before anything is reported for the first time. -/
def firstUsageNotice : String :=
  "c3 collects anonymous telemetry about how it is used. " ++
    "Run \x60c3 telemetry disable\x60 to opt out."

namespace PermissionReport

/-- The line that says whether reporting takes place. -/
def lineFor (enabled : Bool) : String :=
  if enabled then "Status: Enabled" else "Status: Disabled"

/-- The remark that the environment, and not the permission, turns reporting off. -/
def switchRemark : String :=
  " (C3_TELEMETRY_DISABLED is set)"

/-- A report as it is printed. -/
def text (r : PermissionReport) : String :=
  match r.note with
  | some note => r.statusLine ++ "\n\n" ++ note
  | none => r.statusLine

end PermissionReport

namespace PermissionCommand

/-- The answer to the question whether reporting takes place. -/
def statusReport (allowed switchedOff : Bool) : PermissionReport :=
  let line := PermissionReport.lineFor (allowed && !switchedOff)
  { statusLine := if allowed && switchedOff then line ++ PermissionReport.switchRemark else line
    note := none }

/-- Carries out a command. -/
def run (command : PermissionCommand) (s : StoreState) :
    Except ConfigError PermissionReport × StoreState :=
  match command with
  | .status =>
      let (r, s) := s.read
      (.ok (statusReport r.allowsReporting (reportingSwitchedOff s.host.environment)), s)
  | .enable => announce true enabledNote
  | .disable => announce false disabledNote
where
  /-- Sets the permission and says so. -/
  announce (enabled : Bool) (note : String) : Except ConfigError PermissionReport × StoreState :=
    match s.setPermission enabled with
    | (.ok _, s) => (.ok ⟨PermissionReport.lineFor enabled, some note⟩, s)
    | (.error e, s) => (.error e, s)

/-- Asking leaves the files and the count of writes alone. -/
theorem run_status_unchanged
    (s : StoreState) :
    (run .status s).2.host.files = s.host.files ∧ (run .status s).2.store = s.store :=
  s.read_unchanged

end PermissionCommand
end LifecycleTelemetry
