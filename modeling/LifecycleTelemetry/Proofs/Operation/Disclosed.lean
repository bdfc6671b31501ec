import LifecycleTelemetry.Proofs.Json.Fields
import LifecycleTelemetry.Proofs.Operation.Evolution
import LifecycleTelemetry.Proofs.Operation.Stride

/-!
# What has been disclosed

Everything that has been handed to a transport, by a call or by the program itself, in the order of
time. Of a payload only the gist counts here: the name of the event and its properties, except for the
duration of the operation and the identifier of the session.

A call that reports an event adds its gist, which depends on the event and on the reporter, and on
nothing else. Apart from reports, only code that sends something by itself discloses anything.
-/

namespace LifecycleTelemetry

open Json (Fields)

/-- The keys whose values tell how long an operation took, and which session it belonged to. -/
def incidentalKeys : List String :=
  ["durationMs", "sessionId"]

/-- What a payload says of an event: its name and its properties, but for what is incidental. -/
def Payload.gist (p : Payload) : String × Fields :=
  (p.event, Fields.cover incidentalKeys p.properties)

/-- The gist of a payload that was handed to a transport, if that is what happened. -/
def Happening.gist? : Happening → Option (String × Fields)
  | .handedOver _ p => some p.gist
  | _ => none

/-- Whether an action hands nothing to a transport. -/
def Action.isSilent : Action → Bool
  | .send _ _ => false
  | .post _ _ => false
  | _ => true

namespace Reporter

/-- The gist of what is sent for an event. -/
def gistOf (r : Reporter) (e : Event) : String × Fields :=
  (e.name, Fields.cover incidentalKeys (r.merged e.properties))

/-- How long an operation took does not belong to the gist of its ending. -/
theorem gistOf_ended
    (r : Reporter)
    (subject : Subject)
    (ending : Ending)
    (contributed : Fields)
    (duration : Nat) :
    r.gistOf ⟨subject, .ended ending contributed duration⟩ =
      r.gistOf ⟨subject, .ended ending contributed 0⟩ := by
  have hcovered : ∀ n, Fields.coverAt incidentalKeys "durationMs" (Json.ofNat n) = .null :=
    fun n => if_pos (by decide)
  simp only [gistOf, merged, Event.properties, Fields.cover_insertAll, Fields.cover_insert, hcovered]
  rfl

end Reporter

namespace World

/-- The gists of what has been handed to a transport, in the order of time. -/
def disclosed (w : World) : List (String × Fields) :=
  w.history.reverse.filterMap fun e => e.what.gist?

/-- The gists of events that are reported. -/
def gistsOf (w : World) (events : List Event) : List (String × Fields) :=
  if w.isReporting then events.map w.reporter.gistOf else []

/-! ## Parts of turns -/

section Parts

variable (w : World)

theorem disclosed_note
    (what : Happening) :
    (w.note what).disclosed = w.disclosed ++ what.gist?.toList := by
  cases h : what.gist? <;>
    simp [disclosed, note, h]

theorem disclosed_say
    (level : LogLevel)
    (source : LogSource)
    (message : String)
    (fields : Fields) :
    (w.say level source message fields).disclosed = w.disclosed :=
  (w.disclosed_note _).trans (List.append_nil _)

theorem disclosed_record
    (list : String)
    (deed : Deed)
    (finding : Finding) :
    (w.record list deed finding).disclosed = w.disclosed :=
  (w.disclosed_note _).trans (List.append_nil _)

theorem disclosed_of_history
    {w after : World}
    (h : after.history = w.history) :
    after.disclosed = w.disclosed := by
  rw [disclosed, disclosed, h]

theorem disclosed_post
    (sender : Sender)
    (event : String)
    (properties : Fields) :
    (w.post sender event properties).2.disclosed =
      if w.reporter.client.isEnabled && w.hasRuntime then
        w.disclosed ++ [(event, Fields.cover incidentalKeys properties)]
      else w.disclosed := by
  unfold post DeliveryClient.isEnabled
  cases w.reporter.client.transport with
  | none =>
      rfl
  | some transport =>
      by_cases hruntime : w.hasRuntime
      · simp only [hruntime, if_true, Option.isSome_some, Bool.and_self]
        change (note (say ..) _).disclosed = _
        rw [disclosed_note, disclosed_say]
        rfl
      · simp [hruntime, disclosed_say]

/-- A call that reports an event discloses its gist. -/
theorem disclosed_report
    (call : Nat)
    (e : Event) :
    (w.report call e).disclosed = w.disclosed ++ w.gistsOf [e] := by
  have hpost := w.disclosed_post (.call call e.stage) e.name (w.reporter.merged e.properties)
  unfold report send gistsOf isReporting
  by_cases henabled : w.reporter.enabled
  · have hsame : (w.post (.call call e.stage) e.name (w.reporter.merged e.properties)).2.disclosed =
        w.disclosed ++ if w.reporter.client.isEnabled && w.hasRuntime then
          [w.reporter.gistOf e] else [] := by
      rw [hpost]
      split
      · rfl
      · exact (List.append_nil _).symm
    simp only [henabled, if_true, Bool.true_and, List.map_cons, List.map_nil]
    rw [← hsame]
    cases w.post (.call call e.stage) e.name (w.reporter.merged e.properties) with
    | mk sent after =>
        cases sent <;> rfl
  · simp [henabled]

theorem gistsOf_append
    (before after : List Event) :
    w.gistsOf (before ++ after) = w.gistsOf before ++ w.gistsOf after := by
  unfold gistsOf
  split
  · exact List.map_append
  · rfl

/-- What events are reported with does not change as time goes by. -/
theorem Endures.gistsOf
    {w after : World}
    (h : Endures w after)
    (events : List Event) :
    after.gistsOf events = w.gistsOf events := by
  simp only [World.gistsOf, h.isReporting, h.reporter]

theorem history_release
    (call : Nat) :
    (w.release call).history = w.history := by
  unfold release
  split
  · rfl
  · rfl

theorem disclosed_announce
    (s : Settlement) :
    (w.announce s).disclosed = w.disclosed := by
  cases s with
  | interrupted signal =>
      exact w.disclosed_say _ _ _ _
  | _ =>
      rfl

theorem disclosed_listenFor
    (call : Nat) :
    (w.listenFor call).disclosed = w.disclosed := by
  have hlisten : w.listen.2.disclosed = w.disclosed := by
    unfold listen
    split
    · rfl
    · exact w.disclosed_say _ _ _ _
  exact hlisten

theorem disclosed_complain
    (batch : List Nat) :
    (w.complain batch).disclosed = w.disclosed := by
  unfold complain
  induction batch generalizing w with
  | nil =>
      rfl
  | cons delivery rest ih =>
      rw [List.foldl_cons, ih]
      split
      · exact w.disclosed_say _ _ _ _
      · rfl

variable (id : Nat)

theorem disclosed_startDrain
    (recorded : Bool) :
    (w.startDrain id recorded).disclosed = w.disclosed := by
  simp only [startDrain]
  split
  · rfl
  · exact disclosed_say { w with pending := [] } _ _ _ _

theorem disclosed_drain
    (list : String)
    (batch : List Nat)
    (recorded : Bool) :
    (w.drain id list batch recorded).disclosed = w.disclosed := by
  have hcomplain := w.disclosed_complain (batch.filter w.isDelivered)
  simp only [drain]
  split
  · split
    · exact (disclosed_record _ _ _ _).trans hcomplain
    · exact hcomplain
  · exact hcomplain

/-- What is contributed is not disclosed before the operation has ended. -/
theorem disclosed_act
    (list : String)
    (scope : Option Nat)
    {a : Action}
    (ha : a.isSilent = true) :
    (w.act list scope a).disclosed = w.disclosed := by
  have hrecord := w.disclosed_record list
  cases a with
  | contribute accessor stage key value =>
      cases scope with
      | none =>
          exact hrecord _ _
      | some call =>
          exact disclosed_record _ _ _ _
  | contributeAll stage data =>
      cases scope with
      | none =>
          simp only [act, contributeAll?_none]
          by_cases hdata : data = []
          · simp only [hdata, if_true]
            exact hrecord _ _
          · simp only [hdata, if_false]
            exact hrecord _ _
      | some call =>
          simp only [act, contributeAll?_some]
          exact disclosed_record _ _ _ _
  | trigger s =>
      exact (w.trigger s).2.disclosed_record _ _ _
  | send name properties =>
      cases ha
  | post event properties =>
      cases ha
  | log line =>
      exact (w.disclosed_note _).trans (List.append_nil _)
  | _ =>
      exact hrecord _ _

end Parts

/-! ## Calls -/

section Calls

variable (w : World) (id : Nat)

/-- A call that is made discloses its start. -/
theorem disclosed_openCall
    (subject : Subject)
    (propagate : Bool)
    (abandonAfter : Option Nat) :
    (w.openCall id subject propagate abandonAfter).disclosed =
      w.disclosed ++ w.gistsOf [⟨subject, .started⟩] := by
  rw [openCall, disclosed_listenFor, disclosed_report]
  rfl

/-- A call whose race has been decided discloses its ending. -/
theorem disclosed_conclude
    (list : String)
    (number : Nat)
    (call : Call)
    (s : Settlement) :
    (w.conclude id list number call s).disclosed =
      w.disclosed ++ w.gistsOf [⟨call.subject,
        .ended s.ending (call.contributions.take s.ending.stage).1 0⟩] := by
  let settled := ((w.announce s).release number).settle number call s
  have hbefore : settled.disclosed = w.disclosed :=
    (disclosed_of_history (history_release (w.announce s) number)).trans (w.disclosed_announce s)
  have hendures : Endures w settled :=
    ((quiet_before_settle id w number s).toSpares.trans (spares_settle id _ number call s)).endures
  have hreported : (w.reportEnding number call s).disclosed =
      w.disclosed ++ w.gistsOf [endingOf call s settled.clock] := by
    rw [← hbefore, ← hendures.gistsOf]
    exact settled.disclosed_report number _
  rw [conclude, disclosed_of_history (history_hand _ id _ _), disclosed_record, hreported]
  simp only [gistsOf, endingOf, List.map_cons, List.map_nil, w.reporter.gistOf_ended _ _ _ (elapsed ..)]

end Calls

/-! ## Moves -/

section Moves

variable (w : World)

theorem disclosed_endDelivery
    (id : Nat)
    (d : Delivery) :
    (w.endDelivery id d).disclosed = w.disclosed := by
  unfold endDelivery
  cases d.plan.ending with
  | fail =>
      exact w.disclosed_say _ _ _ _
  | _ =>
      rfl

/-- A delivery discloses nothing that has not been handed over before. -/
theorem disclosed_deliver
    (id : Nat) :
    (w.deliver id).disclosed = w.disclosed := by
  unfold deliver
  split
  · rfl
  · split
    · split
      · simp only
        split
        · exact disclosed_endDelivery w.ticket.2 id _
        · rfl
      · exact w.disclosed_endDelivery id _
    · split
      · exact w.disclosed_endDelivery id _
      · rfl
    · rfl
    · rfl

theorem disclosed_abort
    (task : Nat) :
    (w.abort task).disclosed = w.disclosed := by
  have hdropped : ∀ calls : List Nat, (calls.foldl dropCall w).history = w.history := by
    intro calls
    induction calls generalizing w with
    | nil =>
        rfl
    | cons call rest ih =>
        exact (ih (w.dropCall call)).trans (w.history_release call)
  exact disclosed_of_history (hdropped _)

end Moves
end World
end LifecycleTelemetry
