import LifecycleTelemetry.Config.PermissionCommand
import LifecycleTelemetry.Proofs.Reporter.Stored

/-!
# The metrics file in use

A program uses the metrics file again and again: it sets the permission, carries out commands about it,
makes reporters, and asks for the identity of the device and the permission on a record that it has read
and still holds. Each use has an environment and a time of its own, and may reach the file by a store of
its own. A record is held for as long as nothing has been written but what was asked on it.

`StoreCall.effect` is what a use is meant to make of the record in the file. `Workbench.Sound.use` says
that it makes just that of it, with no more writes and identifiers than needed, and that the record that
is held keeps up with the file. Everything that holds of a history of uses comes from there by induction.
-/

namespace LifecycleTelemetry

open Failure (ConfigError)

/-- What can be asked of the metrics file. The last two are asked on the record that is held, or else on
one that is read for it. -/
inductive StoreCall where
  | setPermission (enabled : Bool)
  | command (c : PermissionCommand)
  | reporter (collector : Collector)
  | read
  | deviceId
  | permission

/-- What comes of it. -/
inductive StoreAnswer where
  | changed (result : Except ConfigError Bool)
  | report (result : Except ConfigError PermissionReport)
  | reporter (r : Reporter)
  | record (r : MetricsRecord)
  | deviceId (id : String)
  | permission (p : Permission)

/-- A use of the metrics file: what is asked, how often the store that it goes by has written before, and
the environment and the time in which it takes place. -/
structure StoreUse where
  call : StoreCall
  writes : Nat
  environment : Environment
  now : Calendar.Instant

/-- Where the metrics file is used: the machine, and the record that is held. -/
structure Workbench where
  host : Host
  held : Option MetricsRecord

/-- What a use comes to: the answer, the state of the store, and the record that is held after it. -/
structure StoreOutcome where
  answer : StoreAnswer
  state : StoreState
  held : Option MetricsRecord

namespace StoreUse

/-- The store as a use finds it. -/
def state (u : StoreUse) (path : String) (b : Workbench) : StoreState :=
  { store := ⟨path, u.writes⟩
    host := { b.host with environment := u.environment, now := u.now } }

/-- The record on which something is asked, and the state after it has been read if need be. -/
def subject (u : StoreUse) (path : String) (b : Workbench) : MetricsRecord × StoreState :=
  match b.held with
  | some r => (r, u.state path b)
  | none => (u.state path b).read

/-- The record that is held after a use that has come to a state: none if it has written. -/
def stillHeld (u : StoreUse) (b : Workbench) (after : StoreState) : Option MetricsRecord :=
  if after.store.writes = u.writes then b.held else none

/-- Carries out a use of the metrics file at a path. -/
def outcome (u : StoreUse) (path : String) (b : Workbench) : StoreOutcome :=
  let s := u.state path b
  match u.call with
  | .setPermission enabled =>
      let (result, after) := s.setPermission enabled
      ⟨.changed result, after, u.stillHeld b after⟩
  | .command c =>
      let (result, after) := c.run s
      ⟨.report result, after, u.stillHeld b after⟩
  | .reporter collector =>
      let (r, after) := Reporter.ofStore collector s
      ⟨.reporter r, after, u.stillHeld b after⟩
  | .read =>
      let (r, after) := s.read
      ⟨.record r, after, some r⟩
  | .deviceId =>
      let (r, s) := u.subject path b
      let (id, r, after) := s.deviceId r
      ⟨.deviceId id, after, some r⟩
  | .permission =>
      let (r, s) := u.subject path b
      let (p, r, after) := s.permission r
      ⟨.permission p, after, some r⟩

end StoreUse

namespace Workbench

/-- Where things are after a use. -/
def use (b : Workbench) (path : String) (u : StoreUse) : Workbench :=
  ⟨(u.outcome path b).state.host, (u.outcome path b).held⟩

/-- Where things are after uses, one after the other. -/
def after (b : Workbench) (path : String) (us : List StoreUse) : Workbench :=
  us.foldl (fun b u => b.use path u) b

/-- What the metrics file holds. -/
def reading (b : Workbench) (path : String) : Reading :=
  Reading.ofFile b.host.files path

/-- The record that the metrics file is good for. -/
def record (b : Workbench) (path : String) : MetricsRecord :=
  (b.reading path).orEmpty

@[simp]
theorem after_nil
    (b : Workbench)
    (path : String) :
    b.after path [] = b :=
  rfl

@[simp]
theorem after_cons
    (b : Workbench)
    (path : String)
    (u : StoreUse)
    (us : List StoreUse) :
    b.after path (u :: us) = (b.use path u).after path us :=
  rfl

theorem after_append
    (b : Workbench)
    (path : String)
    (before later : List StoreUse) :
    b.after path (before ++ later) = (b.after path before).after path later :=
  List.foldl_append

end Workbench

/-! ## What a use is meant to do -/

namespace StoreCall

/-- The record that a call makes of the one in the file, at a time and with a fresh identifier. -/
def effect (now : Calendar.Instant) (fresh : String) (r : MetricsRecord) : StoreCall → MetricsRecord
  | .setPermission enabled => r.decided enabled now
  | .command .status => r
  | .command .enable => r.decided true now
  | .command .disable => r.decided false now
  | .reporter _ => (r.identified fresh).permitted now
  | .read => r
  | .deviceId => r.identified fresh
  | .permission => r.permitted now

/-- How many writes that takes. -/
def writes (r : MetricsRecord) : StoreCall → Nat
  | .setPermission enabled => (!r.states enabled).toNat
  | .command .status => 0
  | .command .enable => (!r.states true).toNat
  | .command .disable => (!r.states false).toNat
  | .reporter _ => r.missing
  | .read => 0
  | .deviceId => r.lacksDeviceId.toNat
  | .permission => r.permission.isNone.toNat

/-- How many sessions a call begins, each with an identifier of its own. -/
def sessions : StoreCall → Nat
  | .reporter _ => 1
  | _ => 0

/-- How many identities of a device a call makes. -/
def devices (r : MetricsRecord) : StoreCall → Nat
  | .reporter _ => r.lacksDeviceId.toNat
  | .deviceId => r.lacksDeviceId.toNat
  | _ => 0

section Effect

variable (now : Calendar.Instant) (fresh : String) (r : MetricsRecord) (call : StoreCall)

/-- A call makes of a record what setting the permission makes of it, or asking for what may be missing. -/
theorem effect_cases
    {motive : MetricsRecord → Prop}
    (same : motive r)
    (decided : ∀ enabled, motive (r.decided enabled now))
    (identified : motive (r.identified fresh))
    (permitted : motive (r.permitted now))
    (both : motive ((r.identified fresh).permitted now)) :
    motive (call.effect now fresh r) := by
  cases call with
  | setPermission enabled => exact decided enabled
  | command c =>
      cases c with
      | status => exact same
      | enable => exact decided true
      | disable => exact decided false
  | reporter collector => exact both
  | read => exact same
  | deviceId => exact identified
  | permission => exact permitted

/-- No call touches the identity of the user or what others keep in the file. -/
theorem effect_frame :
    (call.effect now fresh r).userId = r.userId ∧ (call.effect now fresh r).extra = r.extra := by
  have hidentified := (r.identified_frame fresh).2
  have hboth := ((r.identified fresh).permitted_frame now).2
  refine call.effect_cases (motive := fun q => q.userId = r.userId ∧ q.extra = r.extra) now fresh r
    ⟨rfl, rfl⟩ ?_ hidentified (r.permitted_frame now).2 ?_
  · exact fun enabled => (r.decided_frame enabled now).2
  · exact ⟨hboth.1.trans hidentified.1, hboth.2.trans hidentified.2⟩

end Effect

end StoreCall

/-! ## What a use does -/

/-- The file can be written, and a record that is held is what the file is good for. -/
structure Workbench.Sound (b : Workbench) (path : String) : Prop where
  writable : StoreState.Writable ⟨.new path, b.host⟩
  held : ∀ r ∈ b.held, StoreState.Mirrors ⟨.new path, b.host⟩ r

namespace Workbench

variable {b : Workbench} {path : String}

/-- The identifier that is drawn next. -/
def fresh (b : Workbench) : String :=
  b.host.identifier b.host.drawn

theorem sound_of_writable
    {host : Host}
    (h : StoreState.Writable ⟨.new path, host⟩) :
    Sound ⟨host, none⟩ path :=
  ⟨h, fun _ hheld => nomatch hheld⟩

/-- What a use has come to, with respect to the record that the file was good for. -/
structure Served (u : StoreUse) (path : String) (b : Workbench) : Prop where
  mirrors : (u.outcome path b).state.Mirrors (u.call.effect u.now b.fresh (b.record path))
  held : ∀ r ∈ (u.outcome path b).held, (u.outcome path b).state.Mirrors r
  leads : (u.state path b).Leads (u.outcome path b).state (u.call.writes (b.record path))
    (u.call.devices (b.record path) + u.call.sessions)

section Serve

variable {u : StoreUse}

/-- The store that a use finds is as good as any other one for the same file. -/
theorem Sound.state
    (h : b.Sound path)
    (u : StoreUse) :
    (u.state path b).Writable ∧ ∀ r ∈ b.held, (u.state path b).Mirrors r :=
  ⟨h.writable.congr rfl rfl, fun r hr => (h.held r hr).congr rfl rfl⟩

/-- A record that is held after a use that may write is still what the file is good for. -/
theorem Sound.stillHeld
    (h : b.Sound path)
    {after : StoreState}
    {writes draws : Nat}
    (hleads : (u.state path b).Leads after writes draws) :
    ∀ r ∈ u.stillHeld b after, after.Mirrors r := by
  intro r hr
  unfold StoreUse.stillHeld at hr
  split at hr
  · rename_i hwrites
    have hwritten : after.store.writes = u.writes + writes := hleads.written
    exact ((h.state u).2 r hr).congr (hleads.files (by omega)) hleads.path
  · cases hr

/-- The record on which something is asked is what the file is good for. -/
theorem Sound.subject
    (h : b.Sound path)
    (u : StoreUse) :
    (u.subject path b).2.Mirrors (u.subject path b).1 ∧
      (u.state path b).Leads (u.subject path b).2 0 0 := by
  unfold StoreUse.subject
  cases hheld : b.held with
  | some r =>
      exact ⟨(h.state u).2 r (by rw [hheld]; rfl), .refl _⟩
  | none =>
      have hstep := (u.state path b).leads_read
      rw [StoreState.read_fst]
      exact ⟨(h.state u).1.mirrors.congr (hstep.files rfl) hstep.path, hstep⟩

/-- A command that sets the permission does what setting the permission does, and announces it if that
succeeds. -/
theorem announce_eq
    (s : StoreState)
    (enabled : Bool)
    (note : String) :
    PermissionCommand.run.announce s enabled note =
      ((s.setPermission enabled).1.map fun _ => ⟨PermissionReport.lineFor enabled, some note⟩,
        (s.setPermission enabled).2) := by
  unfold PermissionCommand.run.announce
  split
  · rename_i hset
    rw [hset]
    rfl
  · rename_i hset
    rw [hset]
    rfl

theorem announce_state
    (s : StoreState)
    (enabled : Bool)
    (note : String) :
    (PermissionCommand.run.announce s enabled note).2 = (s.setPermission enabled).2 := by
  rw [announce_eq]

theorem announce_answer
    {s : StoreState}
    {enabled changed : Bool}
    (note : String)
    (h : (s.setPermission enabled).1 = .ok changed) :
    (PermissionCommand.run.announce s enabled note).1
      = .ok ⟨PermissionReport.lineFor enabled, some note⟩ := by
  rw [announce_eq, h]
  rfl

theorem orEmpty_reading_state
    (u : StoreUse)
    (path : String)
    (b : Workbench) :
    (u.state path b).reading.orEmpty = b.record path :=
  rfl

theorem draw_state
    (u : StoreUse)
    (path : String)
    (b : Workbench) :
    (u.state path b).host.draw.1 = b.fresh :=
  rfl

theorem Sound.served_setPermission
    (h : b.Sound path)
    (u : StoreUse)
    (enabled : Bool) :
    let after := ((u.state path b).setPermission enabled).2
    after.Mirrors ((b.record path).decided enabled u.now) ∧
      (∀ r ∈ u.stillHeld b after, after.Mirrors r) ∧
        (u.state path b).Leads after (!(b.record path).states enabled).toNat 0 := by
  obtain ⟨-, hmirrors, hleads⟩ := (h.state u).1.setPermission enabled
  rw [orEmpty_reading_state] at hmirrors hleads
  exact ⟨hmirrors, h.stillHeld hleads, hleads⟩

/-- A use is served when its outcome is as meant. -/
theorem served_of_outcome
    {call : StoreCall}
    {answer : StoreAnswer}
    {after : StoreState}
    {held : Option MetricsRecord}
    (hcall : u.call = call)
    (houtcome : u.outcome path b = ⟨answer, after, held⟩)
    (hmirrors : after.Mirrors (call.effect u.now b.fresh (b.record path)))
    (hheld : ∀ r ∈ held, after.Mirrors r)
    (hleads : (u.state path b).Leads after (call.writes (b.record path))
      (call.devices (b.record path) + call.sessions)) :
    Served u path b := by
  subst hcall
  constructor
  · rwa [houtcome]
  · rwa [houtcome]
  · rwa [houtcome]

theorem Sound.served_command
    (h : b.Sound path)
    {c : PermissionCommand}
    (hcall : u.call = .command c) :
    Served u path b := by
  have houtcome :
      u.outcome path b = ⟨.report (c.run (u.state path b)).1, (c.run (u.state path b)).2,
        u.stillHeld b (c.run (u.state path b)).2⟩ := by
    simp only [StoreUse.outcome, hcall]
  cases c with
  | status =>
      have hstep : (u.state path b).Leads (PermissionCommand.run .status (u.state path b)).2 0 0 :=
        (u.state path b).leads_read
      refine served_of_outcome hcall houtcome ?_ (h.stillHeld hstep) hstep
      exact (h.state u).1.mirrors.congr (hstep.files rfl) hstep.path
  | enable =>
      obtain ⟨hmirrors, hheld, hleads⟩ := h.served_setPermission u true
      rw [← announce_state _ true enabledNote] at hmirrors hheld hleads
      exact served_of_outcome hcall houtcome hmirrors hheld hleads
  | disable =>
      obtain ⟨hmirrors, hheld, hleads⟩ := h.served_setPermission u false
      rw [← announce_state _ false disabledNote] at hmirrors hheld hleads
      exact served_of_outcome hcall houtcome hmirrors hheld hleads

theorem Sound.served_reporter
    (h : b.Sound path)
    {collector : Collector}
    (hcall : u.call = .reporter collector) :
    Served u path b := by
  obtain ⟨hmirrors, hleads, -⟩ := (h.state u).1.ofStore collector
  rw [orEmpty_reading_state] at hleads
  rw [StoreState.registered, orEmpty_reading_state, draw_state] at hmirrors
  have houtcome :
      u.outcome path b = ⟨.reporter (Reporter.ofStore collector (u.state path b)).1,
        (Reporter.ofStore collector (u.state path b)).2,
        u.stillHeld b (Reporter.ofStore collector (u.state path b)).2⟩ := by
    simp only [StoreUse.outcome, hcall]
  exact served_of_outcome hcall houtcome hmirrors (h.stillHeld hleads) hleads

theorem Sound.served_read
    (h : b.Sound path)
    (hcall : u.call = .read) :
    Served u path b := by
  have hstep := (u.state path b).leads_read
  have hmirrors := (h.state u).1.mirrors.congr (hstep.files rfl) hstep.path
  have houtcome :
      u.outcome path b = ⟨.record (u.state path b).read.1, (u.state path b).read.2,
        some (u.state path b).read.1⟩ := by
    simp only [StoreUse.outcome, hcall]
  refine served_of_outcome hcall houtcome hmirrors ?_ hstep
  rintro r ⟨rfl⟩
  rw [StoreState.read_fst]
  exact hmirrors

/-- What is asked on a record that is held, or read for it, is asked on what is in the file. -/
theorem Sound.subject_fields
    (h : b.Sound path)
    (u : StoreUse) :
    (u.subject path b).2.reading.orEmpty = b.record path ∧
      (u.subject path b).2.host.draw.1 = b.fresh ∧ (u.subject path b).2.host.now = u.now ∧
        (u.subject path b).1.permission = (b.record path).permission ∧
          (u.subject path b).1.deviceId = (b.record path).deviceId := by
  obtain ⟨hmirrors, hstep⟩ := h.subject u
  have hreading : (u.subject path b).2.reading.orEmpty = b.record path := by
    rw [StoreState.reading_congr (hstep.files rfl) hstep.path, orEmpty_reading_state]
  have hfields := hmirrors.fields
  rw [hreading] at hfields
  refine ⟨hreading, ?_, hstep.now, hfields.1.symm, hfields.2.1.symm⟩
  simp only [Host.draw, hstep.identifier, hstep.drawn, Nat.add_zero]
  rfl

theorem Sound.served_deviceId
    (h : b.Sound path)
    (hcall : u.call = .deviceId) :
    Served u path b := by
  obtain ⟨hsubject, hstep⟩ := h.subject u
  obtain ⟨hreading, hfresh, -, -, hid⟩ := h.subject_fields u
  obtain ⟨hrecord, -, hheld, hfile, hleads⟩ := hsubject.deviceId
  have houtcome :
      u.outcome path b = ⟨.deviceId ((u.subject path b).2.deviceId (u.subject path b).1).1,
        ((u.subject path b).2.deviceId (u.subject path b).1).2.2,
        some ((u.subject path b).2.deviceId (u.subject path b).1).2.1⟩ := by
    simp only [StoreUse.outcome, hcall]
  have hsteps := hstep.trans hleads
  rw [hreading, hfresh] at hfile
  rw [← hrecord] at hheld
  rw [MetricsRecord.lacksDeviceId, hid] at hsteps
  refine served_of_outcome hcall houtcome hfile ?_ ?_
  · rintro r ⟨rfl⟩
    exact hheld
  · simpa [StoreCall.writes, StoreCall.devices, StoreCall.sessions, MetricsRecord.lacksDeviceId]
      using hsteps

theorem Sound.served_permission
    (h : b.Sound path)
    (hcall : u.call = .permission) :
    Served u path b := by
  obtain ⟨hsubject, hstep⟩ := h.subject u
  obtain ⟨hreading, -, hnow, hpermission, -⟩ := h.subject_fields u
  obtain ⟨hrecord, -, hheld, hfile, hleads⟩ := hsubject.permission
  have houtcome :
      u.outcome path b = ⟨.permission ((u.subject path b).2.permission (u.subject path b).1).1,
        ((u.subject path b).2.permission (u.subject path b).1).2.2,
        some ((u.subject path b).2.permission (u.subject path b).1).2.1⟩ := by
    simp only [StoreUse.outcome, hcall]
  have hsteps := hstep.trans hleads
  rw [hreading, hnow] at hfile
  rw [← hrecord] at hheld
  rw [hpermission] at hsteps
  refine served_of_outcome hcall houtcome hfile ?_ ?_
  · rintro r ⟨rfl⟩
    exact hheld
  · simpa [StoreCall.writes, StoreCall.devices, StoreCall.sessions] using hsteps

/-- Each use makes of the record in the file what it is meant to make of it. -/
theorem Sound.served
    (h : b.Sound path)
    (u : StoreUse) :
    Served u path b := by
  cases hcall : u.call with
  | setPermission enabled =>
      obtain ⟨hmirrors, hheld, hleads⟩ := h.served_setPermission u enabled
      have houtcome :
          u.outcome path b = ⟨.changed ((u.state path b).setPermission enabled).1,
            ((u.state path b).setPermission enabled).2,
            u.stillHeld b ((u.state path b).setPermission enabled).2⟩ := by
        simp only [StoreUse.outcome, hcall]
      exact served_of_outcome hcall houtcome hmirrors hheld hleads
  | command c => exact h.served_command hcall
  | reporter collector => exact h.served_reporter hcall
  | read => exact h.served_read hcall
  | deviceId => exact h.served_deviceId hcall
  | permission => exact h.served_permission hcall

/-! ## Histories of uses -/

theorem Sound.use
    (h : b.Sound path)
    (u : StoreUse) :
    (b.use path u).Sound path := by
  obtain ⟨hmirrors, hheld, hleads⟩ := h.served u
  have hpath : (u.outcome path b).state.store.path = path := hleads.path
  exact ⟨hmirrors.writable.congr rfl hpath.symm, fun r hr => (hheld r hr).congr rfl hpath.symm⟩

theorem Sound.after
    (h : b.Sound path)
    (us : List StoreUse) :
    (b.after path us).Sound path := by
  induction us generalizing b with
  | nil => exact h
  | cons u us ih => exact ih (h.use u)

theorem Sound.identifier_use
    (h : b.Sound path)
    (u : StoreUse) :
    (b.use path u).host.identifier = b.host.identifier :=
  (h.served u).leads.identifier

theorem reading_use
    (h : b.Sound path)
    (u : StoreUse) :
    (b.use path u).reading path = (u.outcome path b).state.reading := by
  have hpath : (u.outcome path b).state.store.path = path := (h.served u).leads.path
  rw [StoreState.reading, hpath]
  rfl

/-- After a use the file is good for what the use is meant to make of it, but for numbers. -/
theorem Sound.record_use
    (h : b.Sound path)
    (u : StoreUse) :
    (b.use path u).record path = u.call.effect u.now b.fresh (b.record path) ∨
      (b.use path u).record path = (u.call.effect u.now b.fresh (b.record path)).reread := by
  rw [record, reading_use h]
  exact (h.served u).mirrors.reading

/-- Of the known fields this is certain. -/
theorem Sound.fields_use
    (h : b.Sound path)
    (u : StoreUse) :
    ((b.use path u).record path).permission
        = (u.call.effect u.now b.fresh (b.record path)).permission ∧
      ((b.use path u).record path).deviceId
        = (u.call.effect u.now b.fresh (b.record path)).deviceId := by
  rcases h.record_use u with hsame | hreread
  · rw [hsame]
    exact ⟨rfl, rfl⟩
  · rw [hreread]
    exact ⟨rfl, rfl⟩

end Serve

end Workbench

/-- The machine that is shared, and the record that another tool has left there. -/
theorem Workbench.sound_sharedHost :
    Workbench.Sound ⟨sharedHost, none⟩ "metrics.json" :=
  Workbench.sound_of_writable StoreState.writable_sharedHost

theorem Workbench.record_sharedHost :
    Workbench.record ⟨sharedHost, none⟩ "metrics.json" = sharedRecord := by
  rw [Workbench.record, Workbench.reading, reading_sharedHost]
  rfl

/-- A plain use of the metrics file. -/
def plainStoreUse (call : StoreCall) : StoreUse :=
  ⟨call, 0, [], .epoch⟩

end LifecycleTelemetry
