import LifecycleTelemetry.Delivery.Request
import LifecycleTelemetry.Proofs.Json.Compact

/-!
# What a body decodes to

The body of a request is the text of one object, and there is only one way to read it: it has the members
of the payload that the request was built for, with the payload's own values, and no others. No limit on
nesting is involved, as denotation knows none. Since nothing of a payload is lost on the way, two payloads
never have the same body.

What is assumed of a payload is what its making guarantees: a time of 64 bits, objects whose keys occur
once, and numbers that are integers.
-/

namespace LifecycleTelemetry

open Json (Document Fields)

namespace Payload

/-- A payload with a time of 64 bits and properties that are made of texts, truth values, integers, arrays
and objects, nested in any way. -/
structure Integral (p : Payload) : Prop where
  lower : -9223372036854775808 ≤ p.timestamp
  upper : p.timestamp < 9223372036854775808
  ordered : (Json.object p.properties).Ordered
  integral : (Json.object p.properties).Integral

/-- Fields that are the members of a payload: each has the payload's own value, that of the user is there
exactly when the payload has a user, and there are no others. -/
structure Members (p : Payload) (fields : Fields) : Prop where
  sorted : Fields.Sorted fields
  event : Fields.get? "event" fields = some (.string p.event)
  deviceId : Fields.get? "deviceId" fields = some (.string p.deviceId)
  userId : Fields.get? "userId" fields = p.userId.map Json.string
  timestamp : ∃ n : Json.Integer64,
    Fields.get? "timestamp" fields = some (.number (.integer n)) ∧ n.value = p.timestamp
  properties : Fields.get? "properties" fields = some (.object p.properties)
  others : ∀ key : String, key ∉ ["event", "deviceId", "userId", "timestamp", "properties"] →
    Fields.get? key fields = none

/-- Whoever reads the body of a request finds the payload in it. -/
structure Decodes (p : Payload) : Prop where
  found : ∃ (d : Document) (fields : Fields),
    d.Written p.text ∧ d.Denotes (.object fields) ∧ p.Members fields
  every : ∀ (d : Document) (v : Json), d.Written p.text → d.Denotes v →
    ∃ fields : Fields, v = .object fields ∧ p.Members fields
  body : ∀ (endpoint sourceKey : String) (request : CollectorRequest),
    CollectorRequest.build endpoint sourceKey p = .ok request → request.body = p.text
  distinct : ∀ q : Payload, q.Integral → q.text = p.text → q = p

/-! ## The members -/

/-- The fields that the members of a payload are. -/
def fields (p : Payload) : Fields :=
  Fields.ofList p.members

theorem get?_fields
    (p : Payload)
    (key : String) :
    Fields.get? key p.fields =
      if key = "properties" then some (.object p.properties)
      else if key = "timestamp" then some (Json.ofInt p.timestamp)
      else if key = "userId" then p.userId.map Json.string
      else if key = "deviceId" then some (.string p.deviceId)
      else if key = "event" then some (.string p.event)
      else none := by
  cases huser : p.userId with
  | none =>
      by_cases hkey : key = "userId"
      · simp [fields, members, huser, Fields.ofList, Fields.insertAll, Fields.get?_insert, hkey]
      · simp [fields, members, huser, Fields.ofList, Fields.insertAll, Fields.get?_insert, hkey]
  | some id => simp [fields, members, huser, Fields.ofList, Fields.insertAll, Fields.get?_insert]

theorem members_fields
    {p : Payload}
    (h : p.Integral) :
    p.Members p.fields := by
  have hlower := h.lower
  have hupper := h.upper
  refine
    { sorted := Fields.sorted_ofList _
      event := by simp [get?_fields]
      deviceId := by simp [get?_fields]
      userId := by simp [get?_fields]
      timestamp := ⟨_, by simp [get?_fields, Json.ofInt], Json.Integer64.clamp_value hlower (by omega)⟩
      properties := by simp [get?_fields]
      others := fun key hkey => ?_ }
  simp only [List.mem_cons, List.not_mem_nil, or_false, not_or] at hkey
  simp [get?_fields, hkey]

/-- Fields are the members of one payload at most. -/
theorem Members.unique
    {p q : Payload}
    {fields : Fields}
    (hp : p.Members fields)
    (hq : q.Members fields) :
    p = q := by
  obtain ⟨n, hn, htime⟩ := hp.timestamp
  obtain ⟨m, hm, hother⟩ := hq.timestamp
  have hevent := hp.event.symm.trans hq.event
  have hdevice := hp.deviceId.symm.trans hq.deviceId
  have huser := hp.userId.symm.trans hq.userId
  have hproperties := hp.properties.symm.trans hq.properties
  have hnumber := hn.symm.trans hm
  simp only [Option.some.injEq, Json.string.injEq, Json.object.injEq, Json.number.injEq,
    Json.Number.integer.injEq] at hevent hdevice hproperties hnumber
  have hid : p.userId = q.userId :=
    Option.map_injective (fun _ _ hsame => Json.string.inj hsame) huser
  obtain ⟨⟨event, deviceId, userId, properties⟩, timestamp⟩ := p
  obtain ⟨⟨event', deviceId', userId', properties'⟩, timestamp'⟩ := q
  simp_all

/-! ## The document of a payload -/

/-- The value of every member is one that its document denotes. -/
theorem denotes_of_mem_members
    {p : Payload}
    (h : p.Integral)
    {entry : String × Json}
    (hentry : entry ∈ p.members) :
    entry.2.document.Denotes entry.2 := by
  have hstring : ∀ s : String, (Json.string s).document.Denotes (.string s) :=
    fun s => .text (Json.denotes_ofText s)
  simp only [members, List.mem_append, List.mem_cons, List.not_mem_nil, or_false,
    Option.mem_toList, Option.map_eq_some_iff] at hentry
  rcases hentry with ((rfl | rfl) | ⟨id, -, rfl⟩) | rfl | rfl
  · exact hstring p.event
  · exact hstring p.deviceId
  · exact hstring id
  · exact Json.denotes_integer (Json.Integer64.clamp p.timestamp)
  · exact Json.denotes_document h.ordered h.integral

theorem denotes_fields
    {p : Payload}
    (h : p.Integral) :
    p.json.document.Denotes (.object p.fields) :=
  .object (Json.denoteFields_fieldDocuments fun _ hentry => denotes_of_mem_members h hentry)
    (Fields.gather_iff.mpr rfl)

theorem written_text
    (p : Payload) :
    p.json.document.Written p.text :=
  Json.written_compact p.json

/-- However the text of a payload is read, the fields of the payload are found. -/
theorem eq_fields_of_written
    {p : Payload}
    (h : p.Integral)
    {d : Document}
    {v : Json}
    (hd : d.Written p.text)
    (hv : d.Denotes v) :
    v = .object p.fields := by
  rw [hd.unique (written_text p)] at hv
  exact hv.unique (denotes_fields h)

/-- The body of a request is one text that decodes to the payload, and to no other. -/
theorem decodes_of_integral
    {p : Payload}
    (h : p.Integral) :
    p.Decodes := by
  refine
    { found := ⟨p.json.document, p.fields, written_text p, denotes_fields h, members_fields h⟩
      every := fun d v hd hv => ⟨p.fields, eq_fields_of_written h hd hv, members_fields h⟩
      body := fun _ _ _ hbuild => (CollectorRequest.build_eq_ok hbuild).2
      distinct := fun q hq htext => ?_ }
  have hread : Json.object q.fields = .object p.fields :=
    eq_fields_of_written h (htext ▸ written_text q) (denotes_fields hq)
  have hfields := members_fields hq
  rw [Json.object.inj hread] at hfields
  exact hfields.unique (members_fields h)

/-- A payload with marks, control characters, a character above U+FFFF and the greatest integer there is. -/
def sample : Payload :=
  { event := "say \"c3\"\\\n\x00"
    deviceId := String.ofList [Char.ofNat 0x1F600]
    userId := some ""
    timestamp := -1
    properties :=
      [("", .array [.object [("\t", .number (.integer (.clamp 18446744073709551615)))], .null])] }

theorem decodes_sample :
    sample.Integral ∧ sample.Decodes := by
  have hsample : sample.Integral := by
    refine ⟨by decide, by decide, ?_, ?_⟩
    · simp [Json.Ordered, sample, Fields.Sorted]
    · simp [Json.Integral, sample, Json.Number.IsIntegral.integer]
  exact ⟨hsample, decodes_of_integral hsample⟩

end Payload
end LifecycleTelemetry
