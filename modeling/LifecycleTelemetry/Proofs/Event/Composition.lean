import LifecycleTelemetry.Proofs.Json.Fields
import LifecycleTelemetry.Proofs.Operation.Evolution

/-!
# What the properties of an event are composed of

The properties that are handed over with an event come from four places: what is computed for the stage,
what has been contributed to it, the fields of the subject, and those of the ambient. `Event.composed?` says
for a single key from which of them its value comes, in this order.

The program merges the four one after the other, each time over whole maps, and in another way for each
stage. `get?_merged` is the link: it looks at one key of the result.

`Composed` is what this comes to for the properties of an event as a whole. The main result is
`composes_of_isReporting`: whatever an instrumented operation hands over is composed in this way, where what
has been contributed is the bag of the ending with which the operation is reported.
-/

namespace LifecycleTelemetry

open Json (Fields)

/-! ## The four places -/

/-- The value of a key among the fields of the ambient. -/
def Ambient.field? (key : String) (a : Ambient) : Option Json :=
  if key = "sessionId" then some (.string a.sessionId)
  else if key = "os" then
    some (.object [("arch", .string a.arch), ("platform", .string a.platform)])
  else if key = "c3Version" then some (.string a.version)
  else if key = "isFirstUsage" then some (.bool a.isFirstUsage)
  else none

/-- The value of a key among the fields of the subject itself. -/
def Subject.field? (key : String) : Subject → Option Json
  | .session args => if key = "args" then some (.object args) else none
  | .prompt question config =>
      if key = "key" then some (.string question)
      else if key = "config" then some config
      else none

/-- The value of a key among what has been contributed, the last one if there are several. -/
def Occasion.contributed? (key : String) : Occasion → Option Json
  | .started => none
  | .ended _ contributed _ => Fields.get? key (Fields.ofList contributed)

/-- The value of a key among the fields that an ending has of itself: the signal of a cancellation that has
one, and the description of an error. -/
def Ending.field? (key : String) : Ending → Option Json
  | .completed => none
  | .cancelled signal => if key = "signal" then signal.map Json.string else none
  | .errored error => if key = "error" then some error.json else none

/-- The value that is computed for a key: the duration, and what the ending has of itself. -/
def Occasion.computed? (key : String) : Occasion → Option Json
  | .started => none
  | .ended ending _ duration =>
      if key = "durationMs" then some (.ofNat duration) else ending.field? key

/-- The value of a key in what is handed over with an event. -/
def Event.composed? (key : String) (e : Event) (a : Ambient) : Option Json :=
  (e.occasion.computed? key).or
    ((e.occasion.contributed? key).or ((e.subject.field? key).or (a.field? key)))

/-! ## Looking at one key -/

theorem get?_ambientFields
    (key : String)
    (a : Ambient) :
    Fields.get? key a.fields = a.field? key := by
  simp only [Ambient.fields, Ambient.field?, Fields.get?, eq_comm (a := key)]
  grind

theorem get?_subjectFields
    (key : String)
    (subject : Subject) :
    Fields.get? key subject.fields = subject.field? key := by
  cases subject with
  | session args =>
      simp only [Subject.fields, Subject.field?, Fields.get?, eq_comm (a := key)]
  | prompt question config =>
      simp only [Subject.fields, Subject.field?, Fields.get?, eq_comm (a := key)]
      grind

theorem get?_endingFields
    (key : String)
    (ending : Ending) :
    Fields.get? key (Fields.ofList ending.fields) = ending.field? key := by
  cases ending with
  | completed =>
      rfl
  | cancelled signal =>
      cases signal with
      | none =>
          simp [Ending.fields, Ending.field?, Fields.ofList, Fields.insertAll]
      | some name =>
          exact Fields.get?_insert "signal" key (.string name) []
  | errored error =>
      exact Fields.get?_insert "error" key error.json []

/-- No ending has a field of the name of the duration. -/
theorem Ending.field?_duration
    (ending : Ending) :
    ending.field? "durationMs" = none := by
  cases ending <;> rfl

theorem get?_properties
    (key : String)
    (e : Event) :
    Fields.get? key e.properties =
      (e.occasion.computed? key).or ((e.occasion.contributed? key).or (e.subject.field? key)) := by
  obtain ⟨subject, occasion⟩ := e
  cases occasion with
  | started =>
      exact get?_subjectFields key subject
  | ended ending contributed duration =>
      have hduration := Fields.get?_insert "durationMs" key (Json.ofNat duration)
        (Fields.insertAll subject.fields contributed)
      rw [Event.properties, Fields.get?_insertAll, get?_endingFields, hduration]
      by_cases hkey : key = "durationMs"
      · simp [hkey, Ending.field?_duration, Occasion.computed?]
      · rw [if_neg hkey, Fields.get?_insertAll, get?_subjectFields]
        simp [hkey, Occasion.computed?, Occasion.contributed?]

theorem sorted_subjectFields
    (subject : Subject) :
    Fields.Sorted subject.fields := by
  cases subject with
  | session args =>
      exact List.pairwise_singleton _ _
  | prompt question config =>
      have hbefore : "config" < "key" := by decide
      exact List.pairwise_pair.mpr hbefore

theorem sorted_properties
    (e : Event) :
    Fields.Sorted e.properties := by
  obtain ⟨subject, occasion⟩ := e
  have hsubject := sorted_subjectFields subject
  cases occasion with
  | started =>
      exact hsubject
  | ended ending contributed duration =>
      have hcontributed := Fields.sorted_insertAll contributed hsubject
      exact Fields.sorted_insertAll ending.fields
        (Fields.sorted_insert "durationMs" (Json.ofNat duration) hcontributed)

theorem sorted_ambientFields
    (a : Ambient) :
    Fields.Sorted a.fields := by
  have horder : List.Pairwise (· < ·) ["c3Version", "isFirstUsage", "os", "sessionId"] := by
    decide
  exact List.pairwise_map.mp horder

/-- The properties that an event is handed over with, looked at by one key. -/
theorem get?_merged
    (key : String)
    (r : Reporter)
    (e : Event) :
    Fields.get? key (r.merged e.properties) = e.composed? key r.ambient := by
  rw [Reporter.merged, Fields.get?_insertAll, Fields.ofList_of_sorted (sorted_properties e),
    get?_properties, get?_ambientFields, Event.composed?, Option.or_assoc, Option.or_assoc]

/-! ## The properties as a whole -/

/-- What the properties that are handed over with an event are composed of, in an ambient. -/
structure Composed (a : Ambient) (e : Event) (properties : Fields) : Prop where
  /-- There is one value for each key. -/
  once : Fields.Sorted properties
  /-- It is the one that is computed for the stage, or else the one that has been contributed, or else that
  of the subject, or else that of the ambient. No other key is there. -/
  value : ∀ key, Fields.get? key properties = e.composed? key a
  /-- A start has the fields of the subject and those of the ambient, and no duration. -/
  started : e.occasion = .started →
    (∀ key, Fields.get? key properties = (e.subject.field? key).or (a.field? key)) ∧
      Fields.get? "durationMs" properties = none
  /-- The four fields of the ambient are there, whatever the event is. -/
  ambient : ∀ key ∈ ["sessionId", "os", "c3Version", "isFirstUsage"],
    (a.field? key).isSome = true ∧ (Fields.get? key properties).isSome = true
  /-- What has been contributed is there as it has been contributed, unless the key is one for which a value
  is computed. -/
  kept : ∀ key value, e.occasion.contributed? key = some value →
    Fields.get? key properties = some value ∨ (e.occasion.computed? key).isSome = true

/-- No subject has a field of the name of the duration, nor has an ambient. -/
theorem Event.composed?_duration_started
    (subject : Subject)
    (a : Ambient) :
    (Event.mk subject .started).composed? "durationMs" a = none := by
  cases subject <;> rfl

theorem Ambient.isSome_field?
    (a : Ambient)
    {key : String}
    (h : key ∈ ["sessionId", "os", "c3Version", "isFirstUsage"]) :
    (a.field? key).isSome = true := by
  simp only [List.mem_cons, List.not_mem_nil, or_false] at h
  rcases h with rfl | rfl | rfl | rfl
  · rfl
  · rfl
  · rfl
  · rfl

theorem composed_merged
    (r : Reporter)
    (e : Event) :
    Composed r.ambient e (r.merged e.properties) where
  once := Fields.sorted_insertAll e.properties (sorted_ambientFields r.ambient)
  value := fun key => get?_merged key r e
  started := by
    obtain ⟨subject, occasion⟩ := e
    rintro rfl
    refine ⟨fun key => get?_merged key r _, ?_⟩
    rw [get?_merged, Event.composed?_duration_started]
  ambient := by
    intro key hkey
    have hambient := r.ambient.isSome_field? hkey
    refine ⟨hambient, ?_⟩
    rw [get?_merged, Event.composed?]
    simp [hambient]
  kept := by
    intro key value hcontributed
    rw [get?_merged, Event.composed?, hcontributed]
    cases e.occasion.computed? key with
    | none =>
        exact Or.inl rfl
    | some computed =>
        exact Or.inr rfl

/-! ## What operations hand over -/

namespace World

/-- Whatever operations hand over in a world is composed of what belongs to the event. -/
structure Composes (w : World) : Prop where
  /-- A report of any event hands it over with properties that are composed for it. -/
  reported : ∀ call e, ∃ message : Message,
    (w.report call e).reports call = w.reports call ++ [⟨w.clock, e.stage, message⟩] ∧
      Composed w.reporter.ambient e message.properties
  /-- A strand that makes a call has a start handed over that is composed of the subject and the ambient. -/
  opened : ∀ id strand name subject steps body rest propagate abandonAfter,
    w.strands[id]? = some strand → strand.status = .ready →
    strand.rest = .instrument name subject steps body propagate abandonAfter :: rest →
    ∃ message : Message,
      (w.advance id).reports w.calls.length =
          w.reports w.calls.length ++ [⟨w.clock, .started, message⟩] ∧
        Composed w.reporter.ambient ⟨subject, .started⟩ message.properties
  /-- A strand that finds the race of its call decided has an ending handed over. What has been contributed
  is the bag of this ending, and the duration is the time that the call has taken. -/
  ended : ∀ id strand number call s,
    w.strands[id]? = some strand → strand.status = .racing number →
    w.calls[number]? = some call → w.settlement? call = some s →
    ∃ message : Message,
      (w.advance id).reports number =
          w.reports number ++ [⟨w.clock, s.ending.stage.toStage, message⟩] ∧
        Composed w.reporter.ambient
          ⟨call.subject, .ended s.ending (call.contributions.bag s.ending.stage)
            (elapsed call.startedAt w.clock)⟩
          message.properties

/-- An event as it is handed over has properties that are composed for it. -/
theorem composed_messageOf
    (w : World)
    (e : Event) :
    Composed w.reporter.ambient e (w.messageOf e).properties :=
  composed_merged w.reporter e

/-- So it is in every world in which what is reported is handed to a transport. -/
theorem composes_of_isReporting
    {w : World}
    (hreporting : w.isReporting = true) :
    Composes w where
  reported := by
    intro call e
    refine ⟨w.messageOf e, ?_, w.composed_messageOf e⟩
    rw [w.reports_report, if_pos ⟨rfl, hreporting⟩]
    rfl
  opened := by
    intro id strand name subject steps body rest propagate abandonAfter hstrand hready hrest
    refine ⟨_, ?_, w.composed_messageOf _⟩
    obtain ⟨phase, -, hopens⟩ := opens_step id w strand.list
      (innerName strand.list strand.index name) subject steps body rest propagate abandonAfter
    rw [w.advance_of_opening id hstrand hready hrest, hopens.reports, if_pos ⟨rfl, hreporting⟩]
    rfl
  ended := by
    intro id strand number call s hstrand hracing hcall hsettled
    refine ⟨_, ?_, w.composed_messageOf _⟩
    have hconcludes := concludes_conclude id w strand.list number call s
    rw [w.advance_of_decided id hstrand hracing hcall hsettled, hconcludes.reports,
      if_pos ⟨rfl, hreporting⟩]
    rfl

/-- For instance, when a prompt contributes under the names of other fields before it is called off. -/
theorem composes_plainRun :
    let set (key value : String) : Step :=
      .act (.contribute .free .cancelled key (.string value))
    let body : Script := [set "key" "mine", set "os" "none", set "durationMs" "long", set "note" "kept",
      .sleep 5600000, .fail (.cancelled ⟨some "SIGINT"⟩)]
    let w := plainRun [] [.instrument none (.prompt "q" .null) [] body false none]
      [.advance 0, .advance 1, .advance 1, .advance 1, .advance 1, .advance 1, .pass 5600000, .advance 1,
        .advance 1]
    w.isReporting = true ∧
      (((w.advance 0).reports 0).getLast?.map fun report => report.message.properties) =
        some [("c3Version", .string "version"), ("config", .null), ("durationMs", Json.ofNat 5),
          ("isFirstUsage", .bool false), ("key", .string "mine"), ("note", .string "kept"),
          ("os", .string "none"), ("sessionId", .string "session"), ("signal", .string "SIGINT")] ∧
      Composes w :=
  ⟨rfl, by decide +kernel, composes_of_isReporting rfl⟩

end World
end LifecycleTelemetry
