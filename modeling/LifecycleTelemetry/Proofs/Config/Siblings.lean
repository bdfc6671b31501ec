import LifecycleTelemetry.Proofs.Config.Attempted

/-!
# The data of sibling tools

The metrics file is shared: other tools keep fields of their own in it, and the identity of the user.
Every use of the file that writes writes the whole of it, from the record that it has read. What other
tools have left survives this, as long as a record is read and their numbers are integers; and of what is
its own a use changes only what it is asked about.

A write that cannot open the file does no harm. But one that breaks off after it has opened it has emptied it
by then, and what other tools have left is gone.
-/

namespace LifecycleTelemetry

/-- What a call may change of the record in the file. -/
def StoreCall.Keeps (p q : MetricsRecord) : StoreCall → Prop
  | .setPermission _ => q = { p with permission := q.permission }
  | .command .status => q = p
  | .command _ => q = { p with permission := q.permission }
  | .reporter _ =>
      q = { p with permission := q.permission, deviceId := q.deviceId } ∧
        (q.permission ≠ p.permission → p.permission = none) ∧
        (q.deviceId ≠ p.deviceId → p.deviceId = none ∨ p.deviceId = some "")
  | .read => q = p
  | .deviceId =>
      q = { p with deviceId := q.deviceId } ∧
        (q.deviceId ≠ p.deviceId → p.deviceId = none ∨ p.deviceId = some "")
  | .permission =>
      q = { p with permission := q.permission } ∧
        (q.permission ≠ p.permission → p.permission = none)

/-- Changing nothing is changing no more than it may. -/
theorem StoreCall.keeps_refl
    (call : StoreCall)
    (r : MetricsRecord) :
    call.Keeps r r := by
  cases call with
  | setPermission enabled => rfl
  | command c =>
      cases c with
      | status => rfl
      | enable => rfl
      | disable => rfl
  | reporter collector => exact ⟨rfl, absurd rfl, absurd rfl⟩
  | read => rfl
  | deviceId => exact ⟨rfl, absurd rfl⟩
  | permission => exact ⟨rfl, absurd rfl⟩

namespace MetricsRecord

section Made

variable (r : MetricsRecord) (fresh : String) (now : Calendar.Instant)

/-- Only a missing identity is made. -/
theorem identified_of_lacking
    (h : (r.identified fresh).deviceId ≠ r.deviceId) :
    r.deviceId = none ∨ r.deviceId = some "" := by
  cases hid : r.deviceId with
  | none => exact Or.inl rfl
  | some id =>
      refine Or.inr ?_
      by_cases hempty : id = ""
      · rw [hempty]
      · simp [identified, lacksDeviceId, hid, hempty] at h

/-- Only a missing permission is made. -/
theorem permitted_of_lacking
    (h : (r.permitted now).permission ≠ r.permission) :
    r.permission = none := by
  cases hp : r.permission with
  | none => rfl
  | some p => simp [permitted, hp] at h

end Made

end MetricsRecord

/-- A call changes no more than it may. -/
theorem StoreCall.keeps_effect
    (call : StoreCall)
    (now : Calendar.Instant)
    (fresh : String)
    (r : MetricsRecord) :
    call.Keeps r (call.effect now fresh r) := by
  have hdecided : ∀ enabled : Bool,
      r.decided enabled now = { r with permission := (r.decided enabled now).permission } := by
    intro enabled
    obtain ⟨hid, huser, hextra⟩ := r.decided_frame enabled now
    rw [← hid, ← huser, ← hextra]
  obtain ⟨hpermission, huser, hextra⟩ := r.identified_frame fresh
  cases call with
  | setPermission enabled => exact hdecided enabled
  | command c =>
      cases c with
      | status => rfl
      | enable => exact hdecided true
      | disable => exact hdecided false
  | reporter collector =>
      obtain ⟨hid', huser', hextra'⟩ := (r.identified fresh).permitted_frame now
      refine ⟨?_, fun h => ?_, fun h => ?_⟩
      · rw [effect, ← huser, ← hextra, ← huser', ← hextra']
      · rw [← hpermission] at h ⊢
        exact (r.identified fresh).permitted_of_lacking now h
      · rw [effect, hid'] at h
        exact r.identified_of_lacking fresh h
  | read => rfl
  | deviceId =>
      refine ⟨?_, r.identified_of_lacking fresh⟩
      rw [effect, ← hpermission, ← huser, ← hextra]
  | permission =>
      obtain ⟨hid', huser', hextra'⟩ := r.permitted_frame now
      refine ⟨?_, r.permitted_of_lacking now⟩
      rw [effect, ← hid', ← huser', ← hextra']

namespace Workbench

variable {b : Workbench} {path : String} {r : MetricsRecord}

/-- Without other numbers than integers, a use makes just the record that it is meant to make. -/
theorem Sound.reading_use_of_integral
    (h : b.Sound path)
    (hreading : b.reading path = .record r)
    (hintegral : (Json.object r.extra).Integral)
    (u : StoreUse) :
    (b.use path u).reading path = .record (u.call.effect u.now b.fresh r) := by
  have hrecord : b.record path = r := by
    rw [record, hreading]
    rfl
  have hagain : (u.call.effect u.now b.fresh r).reread = u.call.effect u.now b.fresh r := by
    refine MetricsRecord.reread_of_integral ?_
    rw [(u.call.effect_frame u.now b.fresh r).2]
    exact hintegral
  have hmade := h.record_use u
  rw [hrecord, hagain, or_self] at hmade
  obtain ⟨q, hq⟩ : ∃ q : MetricsRecord, (b.use path u).reading path = .record q := by
    rw [reading_use h]
    exact (h.served u).leads.isRecord ⟨r, hreading⟩
  rw [record, hq] at hmade
  rw [hq]
  exact congrArg Reading.record hmade

/-- A record in the file keeps what is not its own through all uses. -/
theorem Sound.reading_after_of_integral
    (h : b.Sound path)
    (hreading : b.reading path = .record r)
    (hintegral : (Json.object r.extra).Integral)
    (us : List StoreUse) :
    ∃ q : MetricsRecord, (b.after path us).reading path = .record q ∧
      q.extra = r.extra ∧ q.userId = r.userId := by
  induction us generalizing b r with
  | nil => exact ⟨r, hreading, rfl, rfl⟩
  | cons u us ih =>
      obtain ⟨huser, hextra⟩ := u.call.effect_frame u.now b.fresh r
      obtain ⟨q, hq, hqextra, hquser⟩ :=
        ih (h.use u) (h.reading_use_of_integral hreading hintegral u) (hextra ▸ hintegral)
      exact ⟨q, hq, hqextra.trans hextra, hquser.trans huser⟩

/-- Whatever is done with a file that has been read as a record with no other numbers than integers, a
record is read after it that has the same further fields and the same user; and each use changes no more
of the record than it may. Writes may fail, but not break off. -/
theorem siblings_survive
    {host : Host}
    (hwhole : host.files.jam = none)
    (hreading : Reading.ofFile host.files path = .record r)
    (hintegral : (Json.object r.extra).Integral)
    (us : List StoreUse)
    (u : StoreUse) :
    let found := after ⟨host, none⟩ path us
    ∃ p q : MetricsRecord,
      (found.reading path = .record p ∧ p.extra = r.extra ∧ p.userId = r.userId) ∧
        ((found.use path u).reading path = .record q ∧ q.extra = r.extra ∧ q.userId = r.userId) ∧
          u.call.Keeps p q := by
  intro found
  rcases StoreState.writable_or_barred_or_sunk (s := ⟨.new path, host⟩) hwhole with
    hwritable | hbarred | hsunk
  · have hsound := sound_of_writable hwritable
    obtain ⟨p, hp, hextra, huser⟩ := hsound.reading_after_of_integral hreading hintegral us
    have huse := (hsound.after us).reading_use_of_integral hp (hextra ▸ hintegral) u
    obtain ⟨husers, hextras⟩ := u.call.effect_frame u.now found.fresh p
    exact ⟨p, _, ⟨hp, hextra, huser⟩, ⟨huse, hextras.trans hextra, husers.trans huser⟩,
      u.call.keeps_effect u.now found.fresh p⟩
  · -- a record that can only be read stays what it is
    obtain ⟨hvain, hfound⟩ := vain_after (b := ⟨host, none⟩) hbarred us
    obtain ⟨-, hused⟩ := vain_use hvain u
    have hp : found.reading path = .record r :=
      (StoreState.reading_record_congr hfound).mpr hreading
    have hq : (found.use path u).reading path = .record r :=
      (StoreState.reading_record_congr hused).mpr hp
    exact ⟨r, r, ⟨hp, rfl, rfl⟩, ⟨hq, rfl, rfl⟩, u.call.keeps_refl r⟩
  · exact absurd hreading (hsunk.reading_ne r)

/-- For instance, what another tool has left is still there after the reporting has been stopped and a
reporter has been made. -/
theorem siblings_survive_sharedHost :
    let stop := plainStoreUse (.setPermission false)
    let reporter := plainStoreUse (.reporter (.default none))
    let found := after ⟨sharedHost, none⟩ "metrics.json" [stop]
    ∃ p q : MetricsRecord,
      (found.reading "metrics.json" = .record p ∧ p.extra = sharedRecord.extra ∧
        p.userId = some "user") ∧
        ((found.use "metrics.json" reporter).reading "metrics.json" = .record q ∧
          q.extra = sharedRecord.extra ∧ q.userId = some "user") ∧
          reporter.call.Keeps p q := by
  intro stop reporter found
  exact siblings_survive rfl reading_sharedHost integral_sharedRecord [stop] reporter

/-- But where the medium is full, stopping the reporting fails, and of what another tool has left in the file
nothing remains. -/
theorem siblings_lost_fullHost :
    let full : FileTree := { sharedHost.files with jam := some ⟨0, .os 28⟩ }
    let b : Workbench := ⟨{ sharedHost with files := full }, none⟩
    let stop := plainStoreUse (.setPermission false)
    b.reading "metrics.json" = .record sharedRecord ∧
      (stop.outcome "metrics.json" b).answer = .changed (.error (.write "metrics.json" (.os 28))) ∧
        (b.use "metrics.json" stop).reading "metrics.json" = .malformed ∧
          ((b.use "metrics.json" stop).record "metrics.json").extra = [] := by
  intro full b stop
  have hlost : (b.use "metrics.json" stop).reading "metrics.json" = .malformed := by
    decide +kernel
  refine ⟨by decide +kernel, ?_, hlost, ?_⟩
  · have hset : ((stop.state "metrics.json" b).setPermission false).1
        = .error (.write "metrics.json" (.os 28)) := by decide +kernel
    exact congrArg StoreAnswer.changed hset
  · rw [record, hlost]
    rfl

end Workbench
end LifecycleTelemetry
