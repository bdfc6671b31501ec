import LifecycleTelemetry.Config.Host
import LifecycleTelemetry.Config.Record
import LifecycleTelemetry.Failure.Basic

/-!
# The metrics store

The metrics file, read and written as a whole. Reading never fails: a file that is missing, that
cannot be read or that holds no record is as good as an empty record. Writing makes the directories
that are missing and counts only when it succeeds.

The identity of the device and the permission are made when they are first asked for. They are then
written at once; if that fails they are still good for the record at hand, and a later write keeps
them. A permission that is set explicitly is only written when it changes, and a failure to write it is
reported.
-/

namespace LifecycleTelemetry

open Failure (ConfigError SystemError)

/-- The metrics file at a path, and how often it has been written. -/
structure MetricsStore where
  path : String
  writes : Nat
deriving DecidableEq

/-- A store on a host. -/
structure StoreState where
  store : MetricsStore
  host : Host

/-- What reading the metrics file came to. -/
inductive Reading where
  | missing
  | unreadable (fault : SystemError)
  | malformed
  | record (r : MetricsRecord)
deriving DecidableEq

/-- The record that a reading is good for. -/
def Reading.orEmpty : Reading → MetricsRecord
  | .record r => r
  | _ => MetricsRecord.empty

/-- What reading a file comes to. -/
def Reading.ofFile (files : FileTree) (path : String) : Reading :=
  match files.readText path with
  | .ok text =>
      match MetricsRecord.ofText? text with
      | some r => .record r
      | none => .malformed
  | .error fault => if fault = .notFound then .missing else .unreadable fault

namespace MetricsStore

/-- A store that has not been written. -/
def new (path : String) : MetricsStore :=
  ⟨path, 0⟩

end MetricsStore

namespace StoreState

/-- The state after a line has been added to the log. -/
def say (s : StoreState) (level : LogLevel) (message : String) : StoreState :=
  { s with host := s.host.say level .store message [] }

/-- What the metrics file holds at present. -/
def reading (s : StoreState) : Reading :=
  Reading.ofFile s.host.files s.store.path

/-- Reads the record. -/
def read (s : StoreState) : MetricsRecord × StoreState :=
  match s.reading with
  | .missing => (MetricsRecord.empty, s)
  | .unreadable _ =>
      (MetricsRecord.empty, s.say .warn "metrics config unreadable, using defaults")
  | .malformed =>
      (MetricsRecord.empty, s.say .warn "metrics config malformed, using defaults")
  | .record r => (r, s)

/-- Makes the directory in which the metrics file belongs. -/
def makeParent (s : StoreState) : FileTree × Except ConfigError Unit :=
  match Path.parent? s.store.path with
  | none => (s.host.files, .ok ())
  | some parent =>
      if parent.isEmpty then (s.host.files, .ok ())
      else
        match s.host.files.makeDirectories parent with
        | (files, .ok ()) => (files, .ok ())
        | (files, .error fault) => (files, .error (.createDirectory parent fault))

/-- Opens the metrics file to be written, after its directory has been made. -/
def openFile (s : StoreState) : FileTree × Except ConfigError (List String) :=
  match s.makeParent with
  | (files, .error e) => (files, .error e)
  | (files, .ok ()) =>
      match files.openFile s.store.path with
      | .error fault => (files, .error (.write s.store.path fault))
      | .ok location => (files, .ok location)

/-- Writes a record. -/
def write (s : StoreState) (r : MetricsRecord) : Except ConfigError Unit × StoreState :=
  match s.openFile with
  | (files, .error e) => (.error e, { s with host := { s.host with files } })
  | (files, .ok location) =>
      match files.fill location (.text r.text) with
      | (files, .error fault) =>
          (.error (.write s.store.path fault), { s with host := { s.host with files } })
      | (files, .ok ()) =>
          let written : StoreState :=
            { store := { s.store with writes := s.store.writes + 1 }
              host := { s.host with files } }
          (.ok (), written.say .debug "metrics config written")

/-- Writes a record that will do even if it is not written. -/
def keep (s : StoreState) (r : MetricsRecord) (complaint : String) : StoreState :=
  match s.write r with
  | (.ok (), s) => s
  | (.error _, s) => s.say .warn complaint

/-- The identity of the device: that of a record, or a new one if the record has none or an empty
one. -/
def deviceId (s : StoreState) (r : MetricsRecord) : String × MetricsRecord × StoreState :=
  let fresh : String × MetricsRecord × StoreState :=
    let (id, host) := s.host.draw
    let r := { r with deviceId := some id }
    (id, r, { s with host }.keep r "failed to persist device id")
  match r.deviceId with
  | some id => if id.isEmpty then fresh else (id, r, s)
  | none => fresh

/-- The permission of a record; where it has none, reporting is allowed from now on. -/
def permission (s : StoreState) (r : MetricsRecord) : Permission × MetricsRecord × StoreState :=
  match r.permission with
  | some p => (p, r, s)
  | none =>
      let p : Permission := ⟨true, s.host.now⟩
      let r := { r with permission := some p }
      (p, r, s.keep r "failed to persist default telemetry permission")

/-- Sets the permission, unless it is set so already. Says whether anything was changed. -/
def setPermission (s : StoreState) (enabled : Bool) : Except ConfigError Bool × StoreState :=
  let (r, s) := s.read
  match r.permission with
  | some p =>
      if p.enabled = enabled then (.ok false, s)
      else change s r
  | none => change s r
where
  /-- Writes a record with the new permission. -/
  change (s : StoreState) (r : MetricsRecord) : Except ConfigError Bool × StoreState :=
    match s.write { r with permission := some ⟨enabled, s.host.now⟩ } with
    | (.ok (), s) => (.ok true, s)
    | (.error e, s) => (.error e, s)

/-- The record that is read is the one that the reading of the file is good for. -/
theorem read_fst
    (s : StoreState) :
    s.read.1 = s.reading.orEmpty := by
  unfold read
  split <;> simp_all [Reading.orEmpty]

/-- Reading leaves the files and the count of writes alone. -/
theorem read_unchanged
    (s : StoreState) :
    s.read.2.host.files = s.host.files ∧ s.read.2.store = s.store := by
  unfold read
  split <;> simp [say]

end StoreState
end LifecycleTelemetry
