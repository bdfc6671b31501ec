import LifecycleTelemetry.Proofs.Config.Store
import LifecycleTelemetry.Reporter.Basic

/-!
# Reporters of a metrics file

A reporter is made from what the file is good for. It writes what is missing there, each piece once, and
so knows the device and the permission by what the file says afterwards.

Whether it may report, and what it says of the system and of the user, does not depend on whether
anything can be written. These are its *settings*.
-/

namespace LifecycleTelemetry
namespace StoreState

variable {s : StoreState}

/-- The record of a file after a reporter has been made. -/
def registered (s : StoreState) : MetricsRecord :=
  (s.reading.orEmpty.identified s.host.draw.1).permitted s.host.now

/-- There is a permission in the file then, which says what the file was good for before. -/
theorem permission_registered
    (s : StoreState) :
    ∃ p : Permission, s.registered.permission = some p ∧
      p.enabled = s.reading.orEmpty.allowsReporting := by
  have hsame := (s.reading.orEmpty.identified_frame s.host.draw.1).1
  unfold registered MetricsRecord.permitted
  rw [hsame, MetricsRecord.allowsReporting]
  cases hp : s.reading.orEmpty.permission with
  | none => exact ⟨⟨true, s.host.now⟩, rfl, rfl⟩
  | some p => exact ⟨p, hsame.trans hp, rfl⟩

/-- The reporter of a metrics file has the identity that the file then has, and may report as far as the
permission in the file and the environment allow it. It takes as many writes as there are pieces missing,
and an identifier for the session besides the one for the device if that is missing. -/
theorem Writable.ofStore
    (h : s.Writable)
    (collector : Collector) :
    (Reporter.ofStore collector s).2.Mirrors s.registered ∧
      s.Leads (Reporter.ofStore collector s).2 s.reading.orEmpty.missing
        (s.reading.orEmpty.lacksDeviceId.toNat + 1) ∧
      s.registered.deviceId = some (Reporter.ofStore collector s).1.client.deviceId ∧
      (Reporter.ofStore collector s).1.enabled =
        (s.registered.allowsReporting && !reportingSwitchedOff s.host.environment) ∧
      (Reporter.ofStore collector s).1.ambient.isFirstUsage
        = s.reading.orEmpty.permission.isNone := by
  have hread := s.read_fst
  have hstep := s.leads_read
  have hmirrors : s.read.2.Mirrors s.reading.orEmpty :=
    h.mirrors.congr (hstep.files rfl) hstep.path
  obtain ⟨hidentified, hid, hdevice, -, hdeviceStep⟩ := hmirrors.deviceId
  have hdraw : s.read.2.host.draw.1 = s.host.draw.1 := by
    simp only [Host.draw, hstep.identifier, hstep.drawn, Nat.add_zero]
  rw [← hidentified] at hid hdevice
  rw [hdraw] at hidentified
  obtain ⟨hpermitted, hp, hasked, -, haskedStep⟩ := hdevice.permission
  have hsteps := (hstep.trans hdeviceStep).trans haskedStep
  have hnow := (hstep.trans hdeviceStep).now
  rw [hnow] at hpermitted hp hasked
  have hlacking := (s.reading.orEmpty.identified_frame s.host.draw.1).1
  rw [← hidentified] at hlacking
  have hfinal := (s.read.2.deviceId s.reading.orEmpty).2.1.permitted_frame s.host.now
  unfold registered Reporter.ofStore
  simp only [hread]
  rw [← hidentified]
  generalize s.read.2.deviceId s.reading.orEmpty = device at *
  generalize device.2.2.permission device.2.1 = asked at *
  refine ⟨hasked.congr rfl rfl, ?_, hfinal.1.trans hid, ?_, trivial⟩
  · have hsession : asked.2.2.Leads
        { asked.2.2 with
          host := ((asked.2.2.host.say .debug .reporter "telemetry reporter initialised"
            [("enabled", .bool (asked.1.enabled && !reportingSwitchedOff asked.2.2.host.environment)),
              ("is_first_usage", .bool s.reading.orEmpty.permission.isNone)]).draw).2 } 0 1 :=
      { Leads.refl asked.2.2 with drawn := rfl }
    have hwhole := hsteps.trans hsession
    rw [hlacking] at hwhole
    simpa [MetricsRecord.missing] using hwhole
  · rw [hsteps.environment, MetricsRecord.allowsReporting, hp]

/-! ## Settings -/

/-- What stays as it is whatever is read and written: the environment, and the kind of system. -/
structure SameSystem (s t : StoreState) : Prop where
  environment : t.host.environment = s.host.environment
  platform : t.host.platform = s.host.platform
  arch : t.host.arch = s.host.arch

section SameSystem

variable (s : StoreState) (r : MetricsRecord)

theorem SameSystem.trans
    {s t u : StoreState}
    (h₁ : s.SameSystem t)
    (h₂ : t.SameSystem u) :
    s.SameSystem u :=
  ⟨h₂.environment.trans h₁.environment, h₂.platform.trans h₁.platform, h₂.arch.trans h₁.arch⟩

theorem sameSystem_read :
    s.SameSystem s.read.2 := by
  unfold read
  split
  · exact ⟨rfl, rfl, rfl⟩
  · exact ⟨rfl, rfl, rfl⟩
  · exact ⟨rfl, rfl, rfl⟩
  · exact ⟨rfl, rfl, rfl⟩

theorem sameSystem_write :
    s.SameSystem (s.write r).2 := by
  unfold write
  split
  · exact ⟨rfl, rfl, rfl⟩
  · split
    · exact ⟨rfl, rfl, rfl⟩
    · exact ⟨rfl, rfl, rfl⟩

theorem sameSystem_keep
    (complaint : String) :
    s.SameSystem (s.keep r complaint) := by
  have hwrite := s.sameSystem_write r
  unfold keep
  split
  · next hresult =>
      rwa [hresult] at hwrite
  · next hresult =>
      rw [hresult] at hwrite
      exact hwrite.trans ⟨rfl, rfl, rfl⟩

/-- Making an identity of the device has nothing to do with the permission. -/
theorem sameSystem_deviceId :
    s.SameSystem (s.deviceId r).2.2 ∧ (s.deviceId r).2.1.permission = r.permission := by
  let drawn : StoreState := { s with host := s.host.draw.2 }
  have hdrawn : s.SameSystem drawn := ⟨rfl, rfl, rfl⟩
  have hfresh := hdrawn.trans
    (sameSystem_keep drawn { r with deviceId := some s.host.draw.1 } "failed to persist device id")
  simp only [deviceId]
  split
  · split
    · exact ⟨hfresh, rfl⟩
    · exact ⟨⟨rfl, rfl, rfl⟩, rfl⟩
  · exact ⟨hfresh, rfl⟩

/-- The permission that is found or made says what the record is good for. -/
theorem sameSystem_permission :
    s.SameSystem (s.permission r).2.2 ∧ (s.permission r).1.enabled = r.allowsReporting := by
  unfold permission MetricsRecord.allowsReporting
  cases r.permission with
  | some p =>
      exact ⟨⟨rfl, rfl, rfl⟩, rfl⟩
  | none =>
      exact ⟨sameSystem_keep s _ _, rfl⟩

end SameSystem
end StoreState

/-- The settings of a reporter are told by the file, the environment and the system. -/
theorem Reporter.ofStore_settings
    (collector : Collector)
    (s : StoreState) :
    let r := (Reporter.ofStore collector s).1
    r.enabled =
        (s.reading.orEmpty.allowsReporting && !reportingSwitchedOff s.host.environment) ∧
      r.client.transport = (DeliveryClient.ofCollector collector "" none).transport ∧
      r.ambient = ⟨r.ambient.sessionId, s.host.platform, s.host.arch, programVersion,
        s.reading.orEmpty.permission.isNone⟩ := by
  have hread := s.sameSystem_read
  obtain ⟨hdevice, hkept⟩ := s.read.2.sameSystem_deviceId s.read.1
  obtain ⟨hasked, hallowed⟩ :=
    (s.read.2.deviceId s.read.1).2.2.sameSystem_permission (s.read.2.deviceId s.read.1).2.1
  have hsystem := (hread.trans hdevice).trans hasked
  rw [MetricsRecord.allowsReporting, hkept, s.read_fst, ← MetricsRecord.allowsReporting] at hallowed
  rw [← s.read_fst] at *
  unfold Reporter.ofStore
  refine ⟨?_, rfl, ?_⟩
  · simp only [hallowed, hsystem.environment]
  · rw [← hsystem.platform, ← hsystem.arch]
    rfl

end LifecycleTelemetry
