import LifecycleTelemetry.Operation.Advance

/-!
# Reports of calls

What a call has handed over can be read off the history: every payload there names its sender. What it says
and when it has been handed over is told here, and not the date that it bears, which is read off another clock.
This module says how the history grows under the parts of which a step is made, and which of
them hand over anything for a call. Only `World.report` does.
-/

namespace LifecycleTelemetry

open Json (Fields)

/-- What a call has handed over for one of its stages: the time on the clock, the stage, and what has been
said. -/
structure Report where
  time : Nat
  stage : Stage
  message : Message
deriving DecidableEq

/-- What a happening at a time says about the reports of a call: what was handed over for it, if that is what
happened. -/
def Happening.reportOf? (call time : Nat) : Happening → Option Report
  | .handedOver (.call id stage) p => if id = call then some ⟨time, stage, p.toMessage⟩ else none
  | _ => none

namespace World

/-- What a call has handed over, in the order of time. -/
def reports (w : World) (call : Nat) : List Report :=
  w.history.reverse.filterMap fun e => e.what.reportOf? call e.time

/-- Whether anything that is reported is handed to a transport. -/
def isReporting (w : World) : Bool :=
  w.reporter.enabled && w.reporter.client.isEnabled && w.hasRuntime

/-- What is said of an event when it is handed over. -/
def messageOf (w : World) (e : Event) : Message :=
  w.reporter.client.message e.name (w.reporter.merged e.properties)

/-- An event as it is handed over at a time. -/
def reportAt (w : World) (time : Nat) (e : Event) : Report :=
  ⟨time, e.stage, w.messageOf e⟩

section Reports

variable (w : World)

theorem reports_note
    (what : Happening)
    (call : Nat) :
    (w.note what).reports call = w.reports call ++ (what.reportOf? call w.clock).toList := by
  cases h : what.reportOf? call w.clock with
  | none => simp [reports, note, h]
  | some report => simp [reports, note, h]

@[simp]
theorem reports_say
    (level : LogLevel)
    (source : LogSource)
    (message : String)
    (fields : Fields)
    (call : Nat) :
    (w.say level source message fields).reports call = w.reports call := by
  simp [say, reports_note, Happening.reportOf?]

/-- Only a client with a transport and a runtime hands anything over, and then exactly what it is
given. -/
theorem reports_post
    (sender : Sender)
    (event : String)
    (properties : Fields)
    (call : Nat) :
    (w.post sender event properties).2.reports call =
      if w.reporter.client.isEnabled && w.hasRuntime then
        w.reports call ++
          ((Happening.handedOver sender
            (w.reporter.client.payload event (w.stamps w.deliveries.length) properties)).reportOf?
              call w.clock).toList
      else w.reports call := by
  unfold post DeliveryClient.isEnabled
  cases w.reporter.client.transport with
  | none =>
      simp
  | some transport =>
      by_cases hruntime : w.hasRuntime
      · simp only [hruntime, if_true, Option.isSome_some, Bool.and_self]
        change (note (say ..) _).reports call = _
        rw [reports_note, reports_say]
        rfl
      · simp [hruntime]

/-- What the program posts by itself is no call's report. -/
@[simp]
theorem reports_post_program
    (event : String)
    (properties : Fields)
    (call : Nat) :
    (w.post .program event properties).2.reports call = w.reports call := by
  simp [reports_post, Happening.reportOf?]

theorem reports_send
    (sender : Sender)
    (event : String)
    (properties : Fields)
    (call : Nat) :
    (w.send sender event properties).reports call =
      if w.isReporting then
        w.reports call ++
          ((Happening.handedOver sender
            (w.reporter.client.payload event (w.stamps w.deliveries.length)
              (w.reporter.merged properties))).reportOf? call w.clock).toList
      else w.reports call := by
  have hpost := w.reports_post sender event (w.reporter.merged properties) call
  unfold send isReporting
  by_cases henabled : w.reporter.enabled
  · simp only [henabled, if_true, Bool.true_and]
    rw [← hpost]
    cases hsent : w.post sender event (w.reporter.merged properties) with
    | mk sent after =>
        cases sent <;> rfl
  · simp [henabled]

/-- Nor is what it sends. -/
@[simp]
theorem reports_send_program
    (event : String)
    (properties : Fields)
    (call : Nat) :
    (w.send .program event properties).reports call = w.reports call := by
  simp [reports_send, Happening.reportOf?]

/-- A call that reports an event has that event as its latest report. -/
theorem reports_report
    (call other : Nat)
    (e : Event) :
    (w.report call e).reports other =
      if other = call ∧ w.isReporting then w.reports other ++ [w.reportAt w.clock e]
      else w.reports other := by
  rw [report, reports_send]
  by_cases hcall : other = call
  · subst hcall
    by_cases hreporting : w.isReporting <;>
      simp [hreporting, Happening.reportOf?, reportAt, messageOf,
        DeliveryClient.payload]
  · have hne : ¬ call = other := fun h => hcall h.symm
    simp [hcall, hne, Happening.reportOf?]

end Reports
end World
end LifecycleTelemetry
