import LifecycleTelemetry.Proofs.Config.Uses

/-!
# The identity of a device

The device is given an identity when one is asked for and the file has none, or an empty one. From then
on the identity is in the file, and no use of the file changes it. Identifiers are drawn for sessions as
well; what has been drawn beyond these has been drawn for the device.
-/

namespace LifecycleTelemetry

namespace StoreCall

/-- An identity that is not empty outlasts every call. -/
theorem deviceId_effect
    {r : MetricsRecord}
    {id : String}
    (h : r.deviceId = some id)
    (hid : id ≠ "")
    (call : StoreCall)
    (now : Calendar.Instant)
    (fresh : String) :
    (call.effect now fresh r).deviceId = some id := by
  have hidentified : r.identified fresh = r := by
    simp [MetricsRecord.identified, MetricsRecord.lacksDeviceId, h, hid]
  have hpermitted := (r.permitted_frame now).1.trans h
  refine call.effect_cases (motive := fun q => q.deviceId = some id) now fresh r h ?_ ?_ hpermitted ?_
  · exact fun enabled => (r.decided_frame enabled now).1.trans h
  · rwa [hidentified]
  · rwa [hidentified]

/-- Where an identity is lacking, a call either leaves it so or makes one that is not lacking. -/
theorem devices_effect
    {fresh : String}
    (hfresh : fresh ≠ "")
    (call : StoreCall)
    (now : Calendar.Instant)
    (r : MetricsRecord) :
    call.devices r + (call.effect now fresh r).lacksDeviceId.toNat = r.lacksDeviceId.toNat := by
  have hsame : ∀ q : MetricsRecord, q.deviceId = r.deviceId →
      0 + q.lacksDeviceId.toNat = r.lacksDeviceId.toNat := by
    intro q hq
    rw [Nat.zero_add, MetricsRecord.lacksDeviceId, hq]
    rfl
  have hmade : ∀ q : MetricsRecord, q.deviceId = (r.identified fresh).deviceId →
      r.lacksDeviceId.toNat + q.lacksDeviceId.toNat = r.lacksDeviceId.toNat := by
    intro q hq
    have hnone : q.lacksDeviceId = false := by
      rw [MetricsRecord.lacksDeviceId, hq, MetricsRecord.identified]
      split
      · simpa using hfresh
      · exact Bool.eq_false_iff.mpr ‹_›
    rw [hnone]
    rfl
  have hdecided := fun enabled => (r.decided_frame enabled now).1
  cases call with
  | setPermission enabled => exact hsame _ (hdecided enabled)
  | command c =>
      cases c with
      | status => exact hsame r rfl
      | enable => exact hsame _ (hdecided true)
      | disable => exact hsame _ (hdecided false)
  | reporter collector => exact hmade _ ((r.identified fresh).permitted_frame now).1
  | read => exact hsame r rfl
  | deviceId => exact hmade _ rfl
  | permission => exact hsame _ (r.permitted_frame now).1

end StoreCall

namespace Workbench

variable {b : Workbench} {path : String}

/-- An identity in the file that is not empty outlasts all uses. -/
theorem Sound.deviceId_after
    (h : b.Sound path)
    {id : String}
    (hid : id ≠ "")
    (hdevice : (b.record path).deviceId = some id)
    (us : List StoreUse) :
    ((b.after path us).record path).deviceId = some id := by
  induction us generalizing b with
  | nil => exact hdevice
  | cons u us ih =>
      refine ih (h.use u) ?_
      rw [(h.fields_use u).2]
      exact u.call.deviceId_effect hdevice hid u.now b.fresh

/-- How many sessions uses begin. -/
def sessionsOf (us : List StoreUse) : Nat :=
  (us.map fun u => u.call.sessions).sum

/-- Uses draw an identifier for each session they begin, and at most one more: one for the device, if the
file has none. -/
theorem Sound.drawn_after
    (h : b.Sound path)
    (hidentifier : ∀ n, b.host.identifier n ≠ "")
    (us : List StoreUse) :
    ∃ made : Nat, (b.after path us).host.drawn = b.host.drawn + sessionsOf us + made ∧
      made ≤ (b.record path).lacksDeviceId.toNat := by
  induction us generalizing b with
  | nil => exact ⟨0, rfl, Nat.zero_le _⟩
  | cons u us ih =>
      have hleads := (h.served u).leads
      have hdrawn : (b.use path u).host.drawn
          = b.host.drawn + (u.call.devices (b.record path) + u.call.sessions) := hleads.drawn
      have hsupply := h.identifier_use u
      have hlacking := u.call.devices_effect (hidentifier b.host.drawn) u.now (b.record path)
      obtain ⟨made, hmade, hle⟩ := ih (h.use u) (by rwa [hsupply])
      rw [MetricsRecord.lacksDeviceId, (h.fields_use u).2] at hle
      refine ⟨u.call.devices (b.record path) + made, ?_, ?_⟩
      · show ((b.use path u).after path us).host.drawn = _
        rw [hmade, hdrawn, sessionsOf, sessionsOf, List.map_cons, List.sum_cons]
        omega
      · exact (Nat.add_le_add_left hle _).trans hlacking.le

/-- A reporter goes by the identity that is in the file once it has been made, and takes as many writes
as there are pieces missing in the file. -/
theorem Sound.reporter
    (h : b.Sound path)
    {u : StoreUse}
    {collector : Collector}
    (hcall : u.call = .reporter collector) :
    ∃ (r : Reporter) (q : MetricsRecord),
      (u.outcome path b).answer = .reporter r ∧
        (b.use path u).reading path = .record q ∧ q.deviceId = some r.client.deviceId ∧
          (u.outcome path b).state.store.writes = u.writes + (b.record path).missing := by
  obtain ⟨-, hleads, hid, -⟩ := (h.state u).1.ofStore collector
  have houtcome : (u.outcome path b).answer = .reporter (Reporter.ofStore collector (u.state path b)).1 ∧
      (u.outcome path b).state = (Reporter.ofStore collector (u.state path b)).2 := by
    simp only [StoreUse.outcome, hcall, and_self]
  have hdevice : ((b.use path u).record path).deviceId
      = some (Reporter.ofStore collector (u.state path b)).1.client.deviceId := by
    rw [(h.fields_use u).2, hcall, ← hid]
    rfl
  obtain ⟨q, hq⟩ : ∃ q : MetricsRecord, (b.use path u).reading path = .record q := by
    unfold record at hdevice
    cases hreading : (b.use path u).reading path with
    | record q => exact ⟨q, rfl⟩
    | missing => simp [hreading, Reading.orEmpty, MetricsRecord.empty] at hdevice
    | unreadable fault => simp [hreading, Reading.orEmpty, MetricsRecord.empty] at hdevice
    | malformed => simp [hreading, Reading.orEmpty, MetricsRecord.empty] at hdevice
  rw [record, hq] at hdevice
  rw [houtcome.2]
  exact ⟨_, q, houtcome.1, hq, hdevice, hleads.written⟩

/-- An identity is made at most once in all uses of a file that can be written, whatever is in the file at
first: what is drawn besides the identifiers of sessions is at most one. An identity in the file that is
not empty stays there. A reporter goes by the identity that is in the file once it has been made, and
takes as many writes as there are pieces missing: an identity that is there and not empty, and a
permission. -/
theorem identity_stands
    {host : Host}
    (hwritable : StoreState.Writable ⟨.new path, host⟩)
    (hidentifier : ∀ n, host.identifier n ≠ "")
    (us : List StoreUse) :
    let found := after ⟨host, none⟩ path us
    (∃ made ≤ 1, found.host.drawn = host.drawn + sessionsOf us + made) ∧
      (∀ id : String, id ≠ "" → (found.record path).deviceId = some id → ∀ later : List StoreUse,
        ((found.after path later).record path).deviceId = some id) ∧
      ∀ (u : StoreUse) (collector : Collector), u.call = .reporter collector →
        ∃ (r : Reporter) (q : MetricsRecord),
          (u.outcome path found).answer = .reporter r ∧
            (found.use path u).reading path = .record q ∧ q.deviceId = some r.client.deviceId ∧
              (u.outcome path found).state.store.writes = u.writes + (found.record path).missing := by
  intro found
  have hsound := sound_of_writable hwritable
  obtain ⟨made, hdrawn, hmade⟩ := hsound.drawn_after hidentifier us
  refine ⟨⟨made, hmade.trans (Bool.toNat_le _), hdrawn⟩, fun id hid hdevice later => ?_,
    fun u collector hcall => ?_⟩
  · exact (hsound.after us).deviceId_after hid hdevice later
  · exact (hsound.after us).reporter hcall

/-- For instance, an identity that has been asked for is the one of two reporters, of which the second one
finds nothing missing. -/
theorem identity_stands_sharedHost :
    let reporter := plainStoreUse (.reporter (.default none))
    let found := after ⟨sharedHost, none⟩ "metrics.json" [plainStoreUse .deviceId, reporter]
    (∃ made ≤ 1, found.host.drawn = 0 + 1 + made) ∧
      (∀ later : List StoreUse,
        ((found.after "metrics.json" later).record "metrics.json").deviceId = some "first") ∧
      ∃ (r : Reporter) (q : MetricsRecord),
        (reporter.outcome "metrics.json" found).answer = .reporter r ∧
          (found.use "metrics.json" reporter).reading "metrics.json" = .record q ∧
            q.deviceId = some r.client.deviceId ∧
              (reporter.outcome "metrics.json" found).state.store.writes = 0 := by
  intro reporter found
  let asked := use ⟨sharedHost, none⟩ "metrics.json" (plainStoreUse .deviceId)
  have hsound : asked.Sound "metrics.json" := sound_sharedHost.use _
  have hasked : (asked.record "metrics.json").deviceId = some "first" := by
    rw [(sound_sharedHost.fields_use (plainStoreUse .deviceId)).2, record_sharedHost]
    rfl
  have hfound : found = asked.after "metrics.json" [reporter] := by
    simp only [found, asked, after_cons, after_nil]
  have hdevice : (found.record "metrics.json").deviceId = some "first" := by
    rw [hfound]
    exact hsound.deviceId_after (by decide) hasked [reporter]
  have hfresh : asked.fresh ≠ "" := by
    rw [fresh, sound_sharedHost.identifier_use]
    exact identifier_sharedHost asked.host.drawn
  have hmissing : (found.record "metrics.json").missing = 0 := by
    obtain ⟨hpermission, hid⟩ := hsound.fields_use reporter
    rw [hfound, after_cons, after_nil, MetricsRecord.missing_congr hpermission hid]
    exact MetricsRecord.missing_of_made hfresh _ _
  obtain ⟨hdrawn, hstays, hreporter⟩ := identity_stands
    StoreState.writable_sharedHost identifier_sharedHost [plainStoreUse .deviceId, reporter]
  obtain ⟨r, q, hanswer, hreading, hid, hwrites⟩ := hreporter reporter (.default none) rfl
  rw [hmissing] at hwrites
  exact ⟨hdrawn, hstays "first" (by decide) hdevice, r, q, hanswer, hreading, hid, hwrites⟩

end Workbench
end LifecycleTelemetry
