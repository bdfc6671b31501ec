import LifecycleTelemetry.Proofs.Event.Composition
import LifecycleTelemetry.Proofs.Operation.Verdict

/-!
# What contributions can forge

An operation contributes properties under any name, also under those that the report of its ending fills
in by itself: the duration, the description of an error, the signal of a cancellation. `Genuine` says what
becomes of them. What is filled in cannot be displaced. But a cancellation without a signal leaves its
place open, and there a contribution to cancellations is taken for one.

The main result is `unforged_of_isReporting`. It tells exactly when a report says nothing but what is so:
there has to be a signal, or nothing may have been contributed under its name.
-/

namespace LifecycleTelemetry

open Json (Fields)

/-- By what an operation was called off, and the signal that it carries, if it carries one: a mark in its
failure, the abortion of its task, or an interrupt. -/
inductive CalledOff : Settlement → Option String → Prop where
  | marked
      {f : Failure}
      {c : Failure.Cancellation}
      (hmark : f.Marked c) :
      CalledOff (.failure f) c.signal
  | aborted :
      CalledOff .aborted none
  | interrupted
      (signal : Signal) :
      CalledOff (.interrupted signal) (some signal.name)

/-- An operation that was called off is reported as cancelled, with the signal. -/
theorem CalledOff.ending
    {s : Settlement}
    {signal : Option String}
    (h : CalledOff s signal) :
    s.ending = .cancelled signal := by
  cases h with
  | marked hmark =>
      simp [Settlement.ending, hmark.cancellation?]
  | aborted =>
      rfl
  | interrupted signal =>
      rfl

/-- No other operation is reported as cancelled. -/
theorem calledOff_of_ending
    {s : Settlement}
    {signal : Option String}
    (h : s.ending = .cancelled signal) :
    CalledOff s signal := by
  have hagrees := agrees_settlement s
  rw [h] at hagrees
  generalize s.outcome = o at hagrees
  cases hagrees with
  | marked hmark =>
      exact .marked hmark
  | aborted =>
      exact .aborted
  | interrupted signal =>
      exact .interrupted signal

/-- What the properties of a report of an ending say of it, whatever has been contributed. -/
structure Genuine (call : Call) (s : Settlement) (now : Nat) (properties : Fields) : Prop where
  /-- The duration is the one that has been measured. -/
  duration : Fields.get? "durationMs" properties =
    some (.ofNat (World.elapsed call.startedAt now))
  /-- The error is the description of the failure, when it is not a cancellation. -/
  failure : ∀ f, s = .failure f → (∀ c, ¬ f.Marked c) →
    Fields.get? "error" properties = some (ErrorInfo.ofFailure f).json
  /-- It is the description of the panic, when there was one. -/
  panic : ∀ p, s = .panicked p →
    Fields.get? "error" properties = some (ErrorInfo.ofPanic p).json
  /-- A cancellation with a signal names it. -/
  named : ∀ name, CalledOff s (some name) →
    Fields.get? "signal" properties = some (.string name)
  /-- In the place of the signal of a cancellation without one stands what has been contributed under this
  name. -/
  unnamed : CalledOff s none →
    Fields.get? "signal" properties =
      Fields.get? "signal" (Fields.ofList (call.contributions.bag .cancelled))
  /-- So a cancellation says exactly which signal there was when there was one, or when nothing has been
  contributed under this name. -/
  signal : ∀ signal, CalledOff s signal →
    (Fields.get? "signal" properties = signal.map Json.string ↔
      signal.isSome = true ∨
        ∀ contributed ∈ call.contributions.bag .cancelled, contributed.1 ≠ "signal")

/-- Neither a subject nor an ambient has a field of the name of the signal. -/
theorem Subject.field?_signal
    (subject : Subject) :
    subject.field? "signal" = none := by
  cases subject <;> rfl

/-- In a cancellation the signal is the one that there was, or else what has been contributed. -/
theorem Event.composed?_signal
    (subject : Subject)
    (signal : Option String)
    (contributed : Fields)
    (duration : Nat)
    (a : Ambient) :
    (Event.mk subject (.ended (.cancelled signal) contributed duration)).composed? "signal" a =
      (signal.map Json.string).or (Fields.get? "signal" (Fields.ofList contributed)) := by
  have hambient : a.field? "signal" = none := rfl
  have hcomputed : (Occasion.ended (.cancelled signal) contributed duration).computed? "signal" =
      signal.map Json.string := rfl
  have hcontributed : (Occasion.ended (.cancelled signal) contributed duration).contributed?
      "signal" = Fields.get? "signal" (Fields.ofList contributed) := rfl
  rw [Event.composed?, hcomputed, hcontributed, subject.field?_signal, hambient, Option.or_none,
    Option.or_none]

/-- Properties that are composed for an ending are genuine. -/
theorem genuine_of_composed
    {call : Call}
    {s : Settlement}
    {now : Nat}
    {a : Ambient}
    {properties : Fields}
    (h : Composed a
      ⟨call.subject, .ended s.ending (call.contributions.bag s.ending.stage)
        (World.elapsed call.startedAt now)⟩ properties) :
    Genuine call s now properties := by
  have hsignal : ∀ signal, CalledOff s signal →
      Fields.get? "signal" properties = (signal.map Json.string).or
        (Fields.get? "signal" (Fields.ofList (call.contributions.bag .cancelled))) := by
    intro signal hcalled
    have hvalue := h.value "signal"
    rw [hcalled.ending] at hvalue
    rw [hvalue, Event.composed?_signal]
    rfl
  refine ⟨?_, ?_, ?_, ?_, ?_, ?_⟩
  · rw [h.value]
    rfl
  · rintro f rfl hunmarked
    have hending : (Settlement.failure f).ending = .errored (ErrorInfo.ofFailure f) := by
      have hnone : f.cancellation? = none :=
        Option.eq_none_iff_forall_ne_some.mpr fun c hc =>
          hunmarked c (f.marked_of_cancellation? hc)
      simp [Settlement.ending, hnone]
    rw [h.value, hending]
    rfl
  · rintro p rfl
    rw [h.value]
    rfl
  · intro name hcalled
    exact hsignal (some name) hcalled
  · intro hcalled
    exact hsignal none hcalled
  · intro signal hcalled
    rw [hsignal signal hcalled]
    cases signal with
    | some name =>
        simp
    | none =>
        rw [← Fields.get?_ofList_eq_none_iff]
        simp

namespace World

/-- The reports of endings of a world say what is so, whatever has been contributed to them. -/
structure Unforged (w : World) : Prop where
  /-- A strand that finds the race of its call decided reports an ending whose properties are genuine. -/
  ended : ∀ id strand number call s,
    w.strands[id]? = some strand → strand.status = .racing number →
    w.calls[number]? = some call → w.settlement? call = some s →
    ∃ message : Message,
      (w.advance id).reports number =
          w.reports number ++ [⟨w.clock, s.ending.stage.toStage, message⟩] ∧
        Genuine call s w.clock message.properties
  /-- It is reported as a cancellation exactly when it has been called off. -/
  cancelled : ∀ s signal, s.ending = .cancelled signal ↔ CalledOff s signal

/-- So it is in every world in which what is reported is handed to a transport. -/
theorem unforged_of_isReporting
    {w : World}
    (hreporting : w.isReporting = true) :
    Unforged w where
  ended := by
    intro id strand number call s hstrand hracing hcall hsettled
    refine ⟨_, ?_, genuine_of_composed (w.composed_messageOf _)⟩
    rw [(verdict_of_settlement? hstrand hracing hcall hsettled).reported,
      if_pos ⟨rfl, hreporting⟩]
    rfl
  cancelled := fun _ _ => ⟨calledOff_of_ending, CalledOff.ending⟩

/-- For instance, when an operation contributes under all three names before it is interrupted. -/
theorem unforged_plainRun :
    let set (key : String) : Step := .act (.contribute .free .cancelled key (.string "forged"))
    let w := plainRun []
      [.instrument none (.session []) [] [set "durationMs", set "error", set "signal", .hang] false none]
      [.advance 0, .advance 1, .advance 1, .advance 1, .advance 1, .pass 5000000, .signal .interrupt]
    w.isReporting = true ∧
      (((w.advance 0).reports 0).getLast?.map fun report =>
        (Fields.get? "durationMs" report.message.properties,
          Fields.get? "signal" report.message.properties)) =
        some (some (Json.ofNat 5), some (.string "SIGINT")) ∧
      Unforged w :=
  ⟨rfl, by decide +kernel, unforged_of_isReporting rfl⟩

/-- An operation that has contributed a signal to its cancellation and calls itself off without one. -/
def forger : Script :=
  [.act (.contribute .free .cancelled "signal" (.string "SIGKILL")), .fail (.cancelled ⟨none⟩)]

/-- Not every cancellation without a signal is reported without one. -/
theorem signal_forged :
    let w := plainRun [] [.instrument none (.session []) [] forger false none]
      [.advance 0, .advance 1, .advance 1]
    ((w.advance 0).reports 0).map
        (fun report => (report.stage, Fields.get? "signal" report.message.properties)) =
        [(.started, none), (.cancelled, some (.string "SIGKILL"))] ∧
      ¬ ∀ (strand : Strand) (call : Call) (s : Settlement) (signal : Option String),
        w.strands[0]? = some strand → strand.status = .racing 0 →
        w.calls[0]? = some call → w.settlement? call = some s → CalledOff s signal →
        ((w.advance 0).reports 0).getLast?.map (fun report =>
          Fields.get? "signal" report.message.properties) = some (signal.map Json.string) := by
  intro w
  refine ⟨by decide +kernel, fun hall => ?_⟩
  have hclaimed := hall _ _ (.failure (.cancelled ⟨none⟩)) _ rfl rfl rfl rfl (.marked (.cause _))
  have hforged : ((w.advance 0).reports 0).getLast?.map (fun report =>
      Fields.get? "signal" report.message.properties) = some (some (.string "SIGKILL")) := by
    decide +kernel
  rw [hforged] at hclaimed
  cases hclaimed

end World
end LifecycleTelemetry
