import LifecycleTelemetry.Proofs.Operation.Verdict

/-!
# Cancellations that are carried out of an operation

The mark of a cancellation can leave an operation in many ways: by itself, inside the library's own type of
errors, as part of a failure that this type holds, and with texts around it at every level. `Failure.Carries`
lists them.

A call looks for the mark behind texts, and not inside the library's type. So a cancellation is reported as
one exactly when that type is nowhere around the mark. The type has a case of its own for cancellations, but
what is put into it comes out as a failure like any other.
-/

namespace LifecycleTelemetry

namespace Failure

/-- A failure that comes from the mark of a cancellation by conversions, and by texts said around it. -/
inductive Carries (c : Cancellation) : Failure → Prop where
  | itself : Carries c (.cancelled c)
  | converted : Carries c (.library (.cancelled c))
  | held
      {inner : Failure}
      (h : Carries c inner) :
      Carries c (.library (.other inner))
  | said
      {inner : Failure}
      (text : String)
      (h : Carries c inner) :
      Carries c (inner.withText text)

/-- Whether there are only contexts around the cause of a failure, and no error of the library's own type. -/
def isBare : Failure → Bool
  | .library _ => false
  | .context _ inner => inner.isBare
  | _ => true

/-- A mark that is carried is found exactly when there are only contexts around it. -/
theorem Carries.cancellation?
    {f : Failure}
    {c : Cancellation}
    (h : f.Carries c) :
    f.cancellation? = if f.isBare then some c else none := by
  induction h with
  | itself =>
      rfl
  | converted =>
      rfl
  | held _ _ =>
      rfl
  | said text _ ih =>
      rw [cancellation?_withText, ih]
      rfl

theorem Carries.isCancellation
    {f : Failure}
    {c : Cancellation}
    (h : f.Carries c) :
    f.isCancellation = f.isBare := by
  rw [Failure.isCancellation, h.cancellation?]
  cases f.isBare with
  | _ =>
      rfl

/-- The ending with which a failure that carries a mark is reported. -/
theorem Carries.ending
    {f : Failure}
    {c : Cancellation}
    (h : f.Carries c) :
    (Settlement.failure f).ending =
      if f.isBare then .cancelled c.signal else .errored (ErrorInfo.ofFailure f) := by
  simp only [Settlement.ending, h.cancellation?]
  cases f.isBare with
  | _ =>
      rfl

end Failure

namespace World

/-- An operation that ends with the mark of a cancellation is reported as cancelled, with the signal of the
mark, and its caller is given a cancellation, exactly when there are only contexts around the mark. When an
error of the library's own type is among what is around it, the operation is reported as failed, and what
its caller is given is no cancellation. -/
theorem carried_cancelled_iff
    {w : World}
    {id number body : Nat}
    {strand : Strand}
    {call : Call}
    {f : Failure}
    {c : Failure.Cancellation}
    (hcarries : f.Carries c)
    (hstrand : w.strands[id]? = some strand)
    (hracing : strand.status = .racing number)
    (hcall : w.calls[number]? = some call)
    (hphase : call.phase = .racing body)
    (hended : w.outcome? body = some (.err f)) :
    (Verdict w id number strand call (.failure f) (.cancelled c.signal) (.err f) ∧
        f.isCancellation = true ↔ f.isBare = true) ∧
      (f.isBare = false →
        Verdict w id number strand call (.failure f) (.errored (ErrorInfo.ofFailure f)) (.err f) ∧
          f.isCancellation = false) := by
  have hsettled : w.settlement? call = some (.failure f) := settlement?_of_ended hphase hended
  have hverdict := verdict_of_settlement? hstrand hracing hcall hsettled
  have hending := hcarries.ending
  rw [hcarries.isCancellation]
  refine ⟨⟨fun h => h.2, fun hbare => ⟨?_, hbare⟩⟩, fun hlibrary => ⟨?_, hlibrary⟩⟩
  · rwa [hending, if_pos hbare] at hverdict
  · rwa [hending, if_neg (by simp [hlibrary])] at hverdict

/-- For instance, a mark with two texts around it, in a program whose operation calls itself off. -/
theorem carried_cancelled_plainRun :
    let c : Failure.Cancellation := ⟨some "SIGINT"⟩
    let f := ((Failure.cancelled c).withText "while asking").withText "in the session"
    let w := plainRun [] [.instrument none (.session []) [] [.fail f] false none]
      [.advance 0, .advance 1]
    ∃ strand call, w.strands[0]? = some strand ∧ w.calls[0]? = some call ∧
      Verdict w 0 0 strand call (.failure f) (.cancelled c.signal) (.err f) ∧
        f.isCancellation = true := by
  intro c f w
  have hcarries : f.Carries c := .said _ (.said _ .itself)
  exact ⟨_, _, rfl, rfl, (carried_cancelled_iff hcarries rfl rfl rfl rfl rfl).1.mpr rfl⟩

/-- Not every cancellation is reported as one: the mark alone, converted into the library's own type of
errors and returned, makes its operation fail. -/
theorem converted_errored :
    let c : Failure.Cancellation := ⟨some "SIGINT"⟩
    let f := Failure.library (.cancelled c)
    let w := plainRun [] [.instrument none (.session []) [] [.fail f] false none]
      [.advance 0, .advance 1]
    ((w.advance 0).reports 0).map Report.stage = [.started, .errored] ∧ f.isCancellation = false ∧
      ¬ ∀ (g : Failure) (strand : Strand) (call : Call), g.Carries c →
        w.strands[0]? = some strand → strand.status = .racing 0 →
        w.calls[0]? = some call → call.phase = .racing 1 → w.outcome? 1 = some (.err g) →
        Verdict w 0 0 strand call (.failure g) (.cancelled c.signal) (.err g) ∧
          g.isCancellation = true := by
  intro c f w
  refine ⟨by decide +kernel, rfl, fun hall => ?_⟩
  have hcancelled : f.isCancellation = true :=
    (hall f _ _ .converted rfl rfl rfl rfl rfl).2
  simp [Failure.isCancellation, f, Failure.cancellation?] at hcancelled

end World
end LifecycleTelemetry
