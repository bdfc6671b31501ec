import LifecycleTelemetry.Proofs.Config.Collector
import LifecycleTelemetry.Proofs.Operation.Ledger

/-!
# Clients of a collector

A client that is made for a collector has the collector's credential, if there is one, and hands over
whatever it is given as long as there is a runtime. Without a credential there is nothing to write down
in the ledger of any move, so that nothing is ever handed over, whatever a world becomes.
-/

namespace LifecycleTelemetry

open Json (Fields)

namespace World

/-! ## Clients that cannot send -/

section Disabled

variable {w : World}

theorem sendOf_of_disabled
    (h : w.reporter.client.isEnabled = false)
    (sender : Sender)
    (event : String)
    (properties : Fields) :
    w.sendOf sender event properties = [] := by
  simp [sendOf, isReporting, h]

theorem actionOf_of_disabled
    (h : w.reporter.client.isEnabled = false)
    (a : Action) :
    w.actionOf a = [] := by
  cases a with
  | send name properties =>
      exact sendOf_of_disabled h .program name properties
  | post event properties =>
      simp [actionOf, postOf, h]
  | _ =>
      rfl

theorem buildOf_of_disabled
    (h : w.reporter.client.isEnabled = false)
    (steps : List BuildStep) :
    w.buildOf steps = [] := by
  induction steps with
  | nil =>
      rfl
  | cons step rest ih =>
      cases step with
      | act a =>
          rw [buildOf, actionOf_of_disabled h, ih]
          rfl
      | panic p =>
          rfl

theorem dispatchesIn_stepOf_of_disabled
    (h : w.reporter.client.isEnabled = false)
    (id : Nat)
    (step : Step) :
    dispatchesIn (w.stepOf id step) = [] := by
  cases step with
  | act a =>
      rw [stepOf, actionOf_of_disabled h]
      rfl
  | instrument name subject build body propagate abandonAfter =>
      rw [stepOf, reportOf, sendOf_of_disabled h, buildOf_of_disabled h]
      rfl
  | _ =>
      rfl

theorem raceOf_of_disabled
    (h : w.reporter.client.isEnabled = false)
    (number : Nat) :
    w.raceOf number = [] := by
  unfold raceOf
  split
  · split
    · exact sendOf_of_disabled h _ _ _
    · rfl
  · rfl

theorem dispatchesIn_turnOf_of_disabled
    (h : w.reporter.client.isEnabled = false)
    (id : Nat) :
    dispatchesIn (w.turnOf id) = [] := by
  unfold turnOf
  split
  · split
    · split
      · exact dispatchesIn_stepOf_of_disabled h id _
      · rfl
    · rw [raceOf_of_disabled h]
      rfl
    · rfl
  · rfl

/-- A move hands nothing over where the client cannot send. -/
theorem handed_move_of_disabled
    (h : w.reporter.client.isEnabled = false)
    (m : Move) :
    (w.move m).handed = w.handed := by
  have hnone : dispatchesIn (w.ledgerOf m) = [] := by
    cases m with
    | advance id =>
        exact dispatchesIn_turnOf_of_disabled h id
    | _ =>
        rfl
  have hbooks := (w.books_move m).handed
  rw [hnone] at hbooks
  exact hbooks.trans (List.append_nil _)

/-- Nor does anything else that happens, as the client stays what it is. -/
theorem handed_of_evolves_of_disabled
    {v : World}
    (hv : Evolves w v)
    (h : w.reporter.client.isEnabled = false) :
    v.handed = w.handed := by
  induction hv with
  | refl =>
      rfl
  | move m hu ih =>
      refine (handed_move_of_disabled ?_ m).trans ih
      rw [hu.endures.reporter]
      exact h
  | script s hu hover ih =>
      exact ih
  | rouse woken hu ih =>
      exact ih
  | mark pending listeners hu ih =>
      rw [handed_note, ih]
      exact List.append_nil _

end Disabled

/-! ## Clients with a collector -/

/-- What the client of a world hands over is decided by a collector: with a credential everything that
it is given where a runtime is running, and without one nothing. -/
structure Serves (r : Collector) (w : World) : Prop where
  transport : w.reporter.client.transport =
    r.credential?.map fun key => .http r.endpoint key r.timeoutSeconds
  sent : ∀ sender event properties, r.credential?.isSome = true → w.hasRuntime = true →
    (w.post sender event properties).1 = some w.deliveries.length ∧
      (w.post sender event properties).2.handed =
        w.handed ++
          [(sender, w.reporter.client.payload event (w.stamps w.deliveries.length) properties)]
  dropped : ∀ sender event properties, w.hasRuntime = false →
    (w.post sender event properties).1 = none ∧
      (w.post sender event properties).2.handed = w.handed
  refused : ∀ sender event properties, r.credential? = none →
    w.post sender event properties = (none, w)
  silent : r.credential? = none → ∀ v, Evolves w v → v.handed = w.handed

section Serves

variable {w : World} {r : Collector} {deviceId : String} {userId : Option String}

theorem serves_of_client
    (h : w.reporter.client = DeliveryClient.ofCollector r deviceId userId) :
    Serves r w := by
  have henabled : w.reporter.client.isEnabled = r.credential?.isSome := by
    rw [h, DeliveryClient.isEnabled_ofCollector]
  have htransport : w.reporter.client.transport =
      r.credential?.map fun key => .http r.endpoint key r.timeoutSeconds := by
    rw [h]
    rfl
  refine ⟨htransport, ?_, ?_, ?_, ?_⟩
  · intro sender event properties hkey hruntime
    have hpost := w.post_spec sender event properties
    rw [if_pos (by rw [henabled, hkey, hruntime]; rfl)] at hpost
    exact ⟨hpost.1, congrArg Tally.handed hpost.2⟩
  · intro sender event properties hruntime
    have hpost := w.post_spec sender event properties
    rw [if_neg (by simp [hruntime])] at hpost
    exact ⟨hpost.1, congrArg Tally.handed hpost.2⟩
  · intro sender event properties hnone
    rw [hnone] at htransport
    simp [post, htransport]
  · intro hnone v hv
    refine handed_of_evolves_of_disabled hv ?_
    rw [henabled, hnone]
    rfl

end Serves

/-- The environment decides about the key and the endpoint of any collector, and a client that is made
for the outcome hands over what it is given just when there is a key. -/
theorem serves_withEnvironment
    {c : Collector}
    {env : Environment}
    {deviceId : String}
    {userId : Option String}
    {w : World}
    (h : w.reporter.client = DeliveryClient.ofCollector (c.withEnvironment env) deviceId userId) :
    Collector.Resolves c env (c.withEnvironment env) ∧ Serves (c.withEnvironment env) w :=
  ⟨c.resolves_withEnvironment env, serves_of_client h⟩

/-- For instance, where the key in the environment is no text, so that the collector's own is used, and
both it and the endpoint are padded with blanks of several kinds. -/
theorem serves_withEnvironment_padded :
    let c : Collector := { Collector.default none with sourceKey := some "\u00a0base key\u3000" }
    let env : Environment :=
      [("SPARROW_SOURCE_KEY", .undecodable [0xff]),
        ("C3_TELEMETRY_ENDPOINT", .text "\u2028http://127.0.0.1:9/event\t")]
    let r := c.withEnvironment env
    let client := DeliveryClient.ofCollector r "d1" none
    let w := World.start { plainReporter with client } true plainStamps .channel []
    r.credential? = some "base key" ∧ r.endpoint = "http://127.0.0.1:9/event" ∧
      w.reporter.client = client ∧ Collector.Resolves c env r ∧ Serves r w := by
  intro c env r client w
  exact ⟨by decide +kernel, by decide +kernel, rfl, serves_withEnvironment rfl⟩

end World
end LifecycleTelemetry
