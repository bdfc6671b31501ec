import LifecycleTelemetry.Proofs.Config.Uses

/-!
# The date of the permission

The permission in the file bears a date. It is the moment at which what the permission says was last
changed, or said for the first time: the file is written again and again for other reasons, and each time
the date is read, kept at hand and written as it was.

`StoreCall.permission_effect` sorts the calls by this. Each of them keeps the permission as it is, or makes
one that says something else and bears the present date. The rest is an induction over the uses.
-/

namespace LifecycleTelemetry

namespace MetricsRecord

/-- What the permission of a record says, if there is one. -/
def flag? (r : MetricsRecord) : Option Bool :=
  r.permission.map Permission.enabled

theorem states_eq
    (r : MetricsRecord)
    (enabled : Bool) :
    r.states enabled = decide (r.flag? = some enabled) := by
  cases hp : r.permission with
  | none => simp [states, flag?, hp]
  | some p => simp [states, flag?, hp, Bool.beq_eq_decide_eq]

end MetricsRecord

namespace StoreCall

/-- The permission that a call is to set. -/
def wanted? : StoreCall → Option Bool
  | .setPermission enabled => some enabled
  | .command .enable => some true
  | .command .disable => some false
  | _ => none

/-- A call keeps the permission, date and all, or makes one of the present date that says something that
was not said before. -/
theorem permission_effect
    (call : StoreCall)
    (now : Calendar.Instant)
    (fresh : String)
    (r : MetricsRecord) :
    (call.effect now fresh r).permission = r.permission ∨
      ∃ enabled : Bool, (call.effect now fresh r).permission = some ⟨enabled, now⟩ ∧
        r.flag? ≠ some enabled := by
  have hpermitted : ∀ q : MetricsRecord, q.permission = r.permission →
      (q.permitted now).permission = r.permission ∨
        ∃ enabled : Bool, (q.permitted now).permission = some ⟨enabled, now⟩ ∧
          r.flag? ≠ some enabled := by
    intro q hq
    cases hp : r.permission with
    | none => exact Or.inr ⟨true, by simp [MetricsRecord.permitted, hq, hp], by
        simp [MetricsRecord.flag?, hp]⟩
    | some p => exact Or.inl (by simp [MetricsRecord.permitted, hq, hp])
  have hidentified := (r.identified_frame fresh).1
  refine call.effect_cases (motive := fun q => q.permission = r.permission ∨
    ∃ enabled : Bool, q.permission = some ⟨enabled, now⟩ ∧ r.flag? ≠ some enabled) now fresh r
    (Or.inl rfl) ?_ (Or.inl hidentified) (hpermitted r rfl) (hpermitted _ hidentified)
  intro enabled
  unfold MetricsRecord.decided
  split
  · exact Or.inl rfl
  · rename_i hother
    refine Or.inr ⟨enabled, rfl, ?_⟩
    simpa [MetricsRecord.states_eq] using hother

theorem effect_wanted
    {call : StoreCall}
    {enabled : Bool}
    (h : call.wanted? = some enabled)
    (now : Calendar.Instant)
    (fresh : String)
    (r : MetricsRecord) :
    call.effect now fresh r = r.decided enabled now ∧
      call.writes r = (!r.states enabled).toNat := by
  cases call with
  | setPermission wanted =>
      cases h
      exact ⟨rfl, rfl⟩
  | command c =>
      cases c with
      | status => cases h
      | enable =>
          cases h
          exact ⟨rfl, rfl⟩
      | disable =>
          cases h
          exact ⟨rfl, rfl⟩
  | reporter collector => cases h
  | read => cases h
  | deviceId => cases h
  | permission => cases h

end StoreCall

namespace Workbench

variable {b : Workbench} {path : String}

/-- Whether a use changes what the permission in the file says, or says it for the first time. -/
def switches (b : Workbench) (path : String) (u : StoreUse) : Bool :=
  (b.record path).flag? ≠ ((b.use path u).record path).flag?

/-- Whether none of some uses does so. -/
def unswitched (path : String) : Workbench → List StoreUse → Bool
  | _, [] => true
  | b, u :: us => !b.switches path u && unswitched path (b.use path u) us

/-- A use that changes nothing of what the permission says keeps its date; one that does gives it the
present date. -/
theorem Sound.permission_use
    (h : b.Sound path)
    (u : StoreUse) :
    (b.switches path u = false ∧
        ((b.use path u).record path).permission = (b.record path).permission) ∨
      (b.switches path u = true ∧
        ∃ enabled : Bool, ((b.use path u).record path).permission = some ⟨enabled, u.now⟩) := by
  have hmade := u.call.permission_effect u.now b.fresh (b.record path)
  rw [← (h.fields_use u).1] at hmade
  rcases hmade with hkept | ⟨enabled, hnew, hother⟩
  · exact Or.inl ⟨by simp [switches, MetricsRecord.flag?, hkept], hkept⟩
  · refine Or.inr ⟨?_, enabled, hnew⟩
    have hflag : ((b.use path u).record path).flag? = some enabled := by
      rw [MetricsRecord.flag?, hnew]
      rfl
    simpa [switches, hflag] using hother

/-- Setting the permission to what it says already writes nothing, and otherwise takes one write. -/
theorem Sound.use_wanted
    (h : b.Sound path)
    {u : StoreUse}
    {enabled : Bool}
    (hwanted : u.call.wanted? = some enabled) :
    ((b.use path u).record path).flag? = some enabled ∧
      (u.outcome path b).state.store.writes
        = u.writes + (if (b.record path).flag? = some enabled then 0 else 1) ∧
      ((b.record path).flag? = some enabled → (b.use path u).host.files = b.host.files) := by
  have hleads := (h.served u).leads
  obtain ⟨heffect, hwrites⟩ := StoreCall.effect_wanted hwanted u.now b.fresh (b.record path)
  rw [hwrites, MetricsRecord.states_eq] at hleads
  refine ⟨?_, ?_, fun hsaid => ?_⟩
  · have hpermission := (h.fields_use u).1
    obtain ⟨p, hp, hsays⟩ := (b.record path).permission_decided enabled u.now
    rw [heffect, hp] at hpermission
    rw [MetricsRecord.flag?, hpermission, Option.map_some, hsays]
  · have hwritten : (u.outcome path b).state.store.writes = u.writes + _ := hleads.written
    rw [hwritten]
    split
    · simp [*]
    · simp [*]
  · exact hleads.files (by simp [hsaid])

/-- The permission after uses is the one before them, if none of them has changed what it says; and
otherwise it bears the date of the last one that has. -/
theorem Sound.permission_after
    (h : b.Sound path)
    (us : List StoreUse) :
    (unswitched path b us = true ∧
        ((b.after path us).record path).permission = (b.record path).permission) ∨
      ∃ (before later : List StoreUse) (change : StoreUse), us = before ++ change :: later ∧
        (b.after path before).switches path change = true ∧
          unswitched path (b.after path (before ++ [change])) later = true ∧
            ∃ enabled : Bool,
              ((b.after path us).record path).permission = some ⟨enabled, change.now⟩ := by
  induction us generalizing b with
  | nil => exact Or.inl ⟨rfl, rfl⟩
  | cons u us ih =>
      rcases ih (h.use u) with ⟨hrest, hkept⟩ | ⟨before, later, change, rfl, hlast⟩
      · rcases h.permission_use u with ⟨hswitches, hsame⟩ | ⟨hswitches, enabled, hnew⟩
        · refine Or.inl ⟨?_, hkept.trans hsame⟩
          rw [unswitched, hswitches, hrest]
          rfl
        · exact Or.inr ⟨[], us, u, rfl, hswitches, hrest, enabled, hkept.trans hnew⟩
      · exact Or.inr ⟨u :: before, later, change, rfl, hlast⟩

/-- After whatever uses, the date of the permission in the file is the moment of the last one that has
changed what the permission says or has said it for the first time; and it is the date that was there at
first, if no use has done so. Setting the permission to what it says already changes nothing in the file
and writes nothing; setting it to anything else, or for the first time, takes one write. -/
theorem permission_dated
    {host : Host}
    (hwritable : StoreState.Writable ⟨.new path, host⟩)
    (us : List StoreUse)
    (u : StoreUse) :
    let first : Workbench := ⟨host, none⟩
    let found := first.after path us
    ((unswitched path first us = true ∧
          (found.record path).permission = (first.record path).permission) ∨
        ∃ (before later : List StoreUse) (change : StoreUse), us = before ++ change :: later ∧
          (first.after path before).switches path change = true ∧
            unswitched path (first.after path (before ++ [change])) later = true ∧
              ∃ enabled : Bool, (found.record path).permission = some ⟨enabled, change.now⟩) ∧
      ∀ enabled : Bool, u.call.wanted? = some enabled →
        ((found.record path).flag? = some enabled →
          (u.call = .setPermission enabled →
            (u.outcome path found).answer = .changed (.ok false)) ∧
          (found.use path u).host.files = found.host.files ∧
            (u.outcome path found).state.store.writes = u.writes) ∧
        ((found.record path).flag? ≠ some enabled →
          (u.call = .setPermission enabled →
            (u.outcome path found).answer = .changed (.ok true)) ∧
          ((found.use path u).record path).permission = some ⟨enabled, u.now⟩ ∧
            (u.outcome path found).state.store.writes = u.writes + 1) := by
  intro first found
  have hfirst : first.Sound path := sound_of_writable hwritable
  have hfound : found.Sound path := hfirst.after us
  refine ⟨hfirst.permission_after us, fun enabled hwanted => ?_⟩
  obtain ⟨hflag, hwrites, hfiles⟩ := hfound.use_wanted hwanted
  have hanswer : u.call = .setPermission enabled →
      (u.outcome path found).answer
        = .changed (.ok (!decide ((found.record path).flag? = some enabled))) := by
    intro hcall
    have hset := ((hfound.state u).1.setPermission enabled).1
    rw [orEmpty_reading_state, MetricsRecord.states_eq] at hset
    simp only [StoreUse.outcome, hcall, hset]
  refine ⟨fun hsaid => ⟨fun hcall => ?_, hfiles hsaid, ?_⟩, fun hother => ⟨fun hcall => ?_, ?_, ?_⟩⟩
  · simpa [hsaid] using hanswer hcall
  · simpa [hsaid] using hwrites
  · simpa [hother] using hanswer hcall
  · rcases hfound.permission_use u with ⟨-, hkept⟩ | ⟨-, made, hnew⟩
    · rw [MetricsRecord.flag?, hkept] at hflag
      exact (hother hflag).elim
    · rw [MetricsRecord.flag?, hnew] at hflag
      cases hflag
      exact hnew
  · simpa [hother] using hwrites

/-- For instance, the permission that a reporter has made, and that is then taken back, still bears the
date of that after the identity of the device has been asked for and the clock has been put back. -/
theorem permission_dated_sharedHost :
    let late : Calendar.Instant :=
      ⟨⟨.epoch, 23, 59, 59, 999999999, by decide, by decide, by decide, by decide⟩, by decide⟩
    let reporter := plainStoreUse (.reporter (.default none))
    let stop : StoreUse := { plainStoreUse (.command .disable) with now := late }
    let again := plainStoreUse (.setPermission false)
    let found := after ⟨sharedHost, none⟩ "metrics.json" [reporter, stop, plainStoreUse .deviceId]
    (found.record "metrics.json").permission = some ⟨false, late.toMoment⟩ ∧
      (again.outcome "metrics.json" found).answer = .changed (.ok false) ∧
        (found.use "metrics.json" again).host.files = found.host.files ∧
          (again.outcome "metrics.json" found).state.store.writes = 0 := by
  intro late reporter stop again found
  let made := use ⟨sharedHost, none⟩ "metrics.json" reporter
  let stopped := made.use "metrics.json" stop
  have hmade : (made.record "metrics.json").permission
      = some ⟨true, Calendar.Instant.epoch.toMoment⟩ := by
    rw [(sound_sharedHost.fields_use reporter).1, record_sharedHost]
    rfl
  have hother : (made.record "metrics.json").states false = false := by
    rw [MetricsRecord.states, hmade]
    rfl
  have hstopped : (stopped.record "metrics.json").permission = some ⟨false, late⟩ := by
    rw [((sound_sharedHost.use reporter).fields_use stop).1]
    show ((made.record "metrics.json").decided false late).permission = _
    rw [MetricsRecord.decided, hother]
    rfl
  have hstored : (found.record "metrics.json").permission = some ⟨false, late⟩ := by
    have hfound : found = stopped.use "metrics.json" (plainStoreUse .deviceId) := by
      simp only [found, stopped, made, after_cons, after_nil]
    rw [hfound, (((sound_sharedHost.use reporter).use stop).fields_use (plainStoreUse .deviceId)).1]
    show ((stopped.record "metrics.json").identified stopped.fresh).permission = _
    rw [((stopped.record "metrics.json").identified_frame stopped.fresh).1, hstopped]
  have hsaid : (found.record "metrics.json").flag? = some false := by
    rw [MetricsRecord.flag?, hstored]
    rfl
  obtain ⟨-, hset⟩ := permission_dated StoreState.writable_sharedHost
    [reporter, stop, plainStoreUse .deviceId] again
  obtain ⟨hanswer, hfiles, hwrites⟩ := (hset false rfl).1 hsaid
  exact ⟨hstored, hanswer rfl, hfiles, hwrites⟩

end Workbench
end LifecycleTelemetry
