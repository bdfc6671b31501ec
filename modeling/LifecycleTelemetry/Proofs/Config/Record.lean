import LifecycleTelemetry.Config.Record
import LifecycleTelemetry.Proofs.Calendar.Moment
import LifecycleTelemetry.Proofs.Json.Reread

/-!
# Written records

A record can be stored when its further fields do not have the keys of known ones and can be read, and when
its permission has a settled date. A
record that can be stored is read again as it was written: the permission with its moment, the
identities whatever characters they have, and the further fields with their numbers read again. Any
record that has been read can be stored.
-/

namespace LifecycleTelemetry

open Json (Document Piece)

namespace Permission

/-- The document as which a permission is written. -/
def document (p : Permission) : Document :=
  .object [(Piece.ofText "enabled", .bool p.enabled),
    (Piece.ofText "date", .text (Piece.ofText p.date.text))]

theorem document_json
    (p : Permission) :
    p.json.document = p.document :=
  rfl

theorem ofDocument?_document
    {p : Permission}
    (h : p.date.IsSettled) :
    ofDocument? p.document = some p := by
  have hkeyed :
      keyed? [(Piece.ofText "enabled", .bool p.enabled),
          (Piece.ofText "date", .text (Piece.ofText p.date.text))]
        = some [("enabled", .bool p.enabled), ("date", .text (Piece.ofText p.date.text))] := by
    simp [keyed?]
  rw [document, ofDocument?, hkeyed]
  simp [only?, ofParts?, Calendar.Moment.ofText?_text, Calendar.Moment.settled_of_isSettled h]

/-- A permission that has been read has a settled date. -/
theorem isSettled_of_ofDocument?
    {d : Document}
    {p : Permission}
    (h : ofDocument? d = some p) :
    p.date.IsSettled := by
  have hparts : ∀ {enabled date : Document}, ofParts? enabled date = some p → p.date.IsSettled := by
    intro enabled date hparts
    unfold ofParts? at hparts
    split at hparts
    · obtain ⟨text, -, hparts⟩ := Option.bind_eq_some_iff.mp hparts
      obtain ⟨moment, hmoment, hparts⟩ := Option.bind_eq_some_iff.mp hparts
      cases hparts
      exact Calendar.Moment.isSettled_of_ofText? hmoment
    · cases hparts
  unfold ofDocument? at h
  split at h
  · obtain ⟨entries, -, h⟩ := Option.bind_eq_some_iff.mp h
    obtain ⟨enabled, -, h⟩ := Option.bind_eq_some_iff.mp h
    obtain ⟨date, -, h⟩ := Option.bind_eq_some_iff.mp h
    exact hparts h
  · exact hparts h
  · cases h

end Permission

namespace MetricsRecord

/-- A record that is read again after it has been written: the date of its permission is settled, no further
field has the key of a known one, and as an object the further fields can be read. -/
structure Storable (r : MetricsRecord) : Prop where
  settled : ∀ p ∈ r.permission, p.date.IsSettled
  foreign : ∀ field ∈ r.extra, isKnown field.1 = false
  readable : Json.Readable Json.nestingLimit (.object r.extra)

/-- A record with the numbers in its further fields as they are read from their texts. -/
def reread (r : MetricsRecord) : MetricsRecord :=
  { r with extra := Json.rereadFields r.extra }

/-! ## The document of a record -/

/-- The known fields of the document as which a record is written. -/
def knownDocuments (r : MetricsRecord) : List (String × Document) :=
  (r.permission.map fun p => ("permission", p.document)).toList ++
    (r.deviceId.map fun s => ("deviceId", Document.text (Piece.ofText s))).toList ++
    (r.userId.map fun s => ("userId", Document.text (Piece.ofText s))).toList

/-- The further fields of the document as which a record is written. -/
def furtherDocuments (r : MetricsRecord) : List (String × Document) :=
  r.extra.map fun field => (field.1, field.2.document)

/-- The fields of the document as which a record is written. -/
def documents (r : MetricsRecord) : List (String × Document) :=
  r.knownDocuments ++ r.furtherDocuments

theorem document_members
    (r : MetricsRecord) :
    (Json.object r.members).document
      = .object (r.documents.map fun entry => (Piece.ofText entry.1, entry.2)) := by
  obtain ⟨permission, deviceId, userId, extra⟩ := r
  rw [Json.document, Json.fieldDocuments_eq_map]
  cases permission <;> cases deviceId <;> cases userId <;>
    simp [members, documents, knownDocuments, furtherDocuments, Permission.document_json,
      Json.document]

/-- The keys of a written object are the texts that they were. -/
theorem keyed?_ofText
    (entries : List (String × Document)) :
    Permission.keyed? (entries.map fun entry => (Piece.ofText entry.1, entry.2))
      = some entries := by
  unfold Permission.keyed?
  induction entries with
  | nil => rfl
  | cons entry entries ih => simp [ih]

/-! ## Reading it -/

theorem optionally?_document
    {p : Permission}
    (h : p.date.IsSettled) :
    optionally? Permission.ofDocument? p.document = some (some p) := by
  show (Permission.ofDocument? p.document).map some = _
  rw [Permission.ofDocument?_document h]
  rfl

theorem optionally?_text
    (s : String) :
    optionally? textOf? (.text (Piece.ofText s)) = some (some s) := by
  simp [optionally?, textOf?]

section Storable

variable {r : MetricsRecord}

theorem Storable.furtherDocuments
    (h : r.Storable)
    {entry : String × Document}
    (hentry : entry ∈ r.furtherDocuments) :
    isKnown entry.1 = false := by
  obtain ⟨field, hfield, rfl⟩ := List.mem_map.mp hentry
  exact h.foreign field hfield

/-- Under a known key there is nothing but what is known. -/
theorem Storable.filter_documents
    (h : r.Storable)
    (key : String)
    (hkey : isKnown key = true) :
    r.documents.filter (fun entry => entry.1 == key)
      = r.knownDocuments.filter fun entry => entry.1 == key := by
  have hnone : r.furtherDocuments.filter (fun entry => entry.1 == key) = [] := by
    refine List.filter_eq_nil_iff.mpr fun entry hentry hsame => ?_
    have hforeign := h.furtherDocuments hentry
    rw [beq_iff_eq.mp hsame, hkey] at hforeign
    exact Bool.noConfusion hforeign
  rw [documents, List.filter_append, hnone, List.append_nil]

/-- Under the other keys there is nothing but the further fields. -/
theorem Storable.filter_not_isKnown
    (h : r.Storable) :
    r.documents.filter (fun entry => !isKnown entry.1) = r.furtherDocuments := by
  have hall : r.furtherDocuments.filter (fun entry => !isKnown entry.1) = r.furtherDocuments := by
    refine List.filter_eq_self.mpr fun entry hentry => ?_
    rw [h.furtherDocuments hentry]
    rfl
  have hnone : r.knownDocuments.filter (fun entry => !isKnown entry.1) = [] := by
    obtain ⟨permission, deviceId, userId, extra⟩ := r
    cases permission <;> cases deviceId <;> cases userId <;> simp [knownDocuments, isKnown]
  rw [documents, List.filter_append, hnone, hall, List.nil_append]

/-- Each known field is read as it was written. -/
theorem Storable.known?_documents
    (h : r.Storable) :
    known? Permission.ofDocument? "permission" r.documents = some r.permission ∧
      known? textOf? "deviceId" r.documents = some r.deviceId ∧
      known? textOf? "userId" r.documents = some r.userId := by
  have hpermission := h.filter_documents "permission" (by decide)
  have hdeviceId := h.filter_documents "deviceId" (by decide)
  have huserId := h.filter_documents "userId" (by decide)
  have hsettled := h.settled
  rw [known?, known?, known?, hpermission, hdeviceId, huserId]
  obtain ⟨permission, deviceId, userId, extra⟩ := r
  cases permission with
  | none =>
      cases deviceId <;> cases userId <;> simp [knownDocuments, optionally?_text]
  | some p =>
      have hdate := optionally?_document (hsettled p rfl)
      cases deviceId <;> cases userId <;> simp [knownDocuments, hdate, optionally?_text]

/-- The values of further fields, one after the other. -/
theorem mapM_value?
    {fields : List (String × Json)}
    {limit : Nat}
    (h : ∀ field ∈ fields, Json.Readable limit field.2) :
    (fields.map fun field => (field.1, field.2.document)).mapM
        (fun entry => (entry.2.value? limit).map fun value => (entry.1, value))
      = some (Json.rereadFields fields) := by
  induction fields with
  | nil => rfl
  | cons field rest ih =>
      obtain ⟨key, value⟩ := field
      have hvalue := Document.value?_document (h (key, value) List.mem_cons_self)
      have hrest := ih fun other hother => h other (List.mem_cons_of_mem _ hother)
      simp [hvalue, hrest, Json.rereadFields]

/-- A record that can be stored is read as it was written, but for its numbers. -/
theorem ofText?_text
    (h : r.Storable) :
    ofText? r.text = some r.reread := by
  obtain ⟨hsorted, hvalues⟩ : Json.Fields.Sorted r.extra ∧
      ∀ field ∈ r.extra, Json.Readable (Json.nestingLimit - 1) field.2 := by
    cases h.readable with
    | object hsorted hvalues => exact ⟨hsorted, hvalues⟩
  have hagain : Json.Fields.ofList (Json.rereadFields r.extra) = Json.rereadFields r.extra := by
    rw [Json.rereadFields_eq_map]
    exact Json.Fields.ofList_of_sorted (Json.Fields.sorted_map Json.reread hsorted)
  have hothers := mapM_value? hvalues
  obtain ⟨hpermission, hdeviceId, huserId⟩ := h.known?_documents
  rw [ofText?, text, Json.ofText?_pretty, document_members]
  simp only [Option.bind_eq_bind, Option.bind_some, ofDocument?, keyed?_ofText, hpermission,
    hdeviceId, huserId, h.filter_not_isKnown]
  rw [furtherDocuments, hothers, Option.bind_some, hagain]
  rfl

end Storable

/-! ## Which records can be stored -/

/-- The record of a file that is not there can be stored. -/
theorem storable_empty :
    empty.Storable :=
  ⟨fun _ hp => (nomatch hp), fun _ hfield => absurd hfield List.not_mem_nil,
    .object Json.Fields.sorted_nil fun _ hfield => absurd hfield List.not_mem_nil⟩

/-- What is stored of a record can be stored again. -/
theorem Storable.reread
    {r : MetricsRecord}
    (h : r.Storable) :
    r.reread.Storable := by
  refine ⟨h.settled, fun field hfield => ?_, h.readable.reread⟩
  have hmem : field ∈ Json.rereadFields r.extra := hfield
  rw [Json.rereadFields_eq_map] at hmem
  obtain ⟨first, hfirst, rfl⟩ := List.mem_map.mp hmem
  exact h.foreign first hfirst

theorem mem_of_mapM
    {α β : Type}
    {read : α → Option β}
    {items : List α}
    {results : List β}
    (h : items.mapM read = some results) :
    ∀ result ∈ results, ∃ item ∈ items, read item = some result := by
  induction items generalizing results with
  | nil =>
      cases h
      exact fun result hresult => absurd hresult List.not_mem_nil
  | cons item rest ih =>
      rw [List.mapM_cons] at h
      obtain ⟨first, hfirst, hmore⟩ := Option.bind_eq_some_iff.mp h
      obtain ⟨more, hrest, hresults⟩ := Option.bind_eq_some_iff.mp hmore
      cases hresults
      intro result hresult
      rcases List.mem_cons.mp hresult with rfl | hlater
      · exact ⟨item, List.mem_cons_self, hfirst⟩
      · obtain ⟨other, hother, hread⟩ := ih hrest result hlater
        exact ⟨other, List.mem_cons_of_mem _ hother, hread⟩

/-- A known field that has been read is what a document was read as. -/
theorem exists_of_known?
    {α : Type}
    {read : Document → Option α}
    {key : String}
    {entries : List (String × Document)}
    {value : α}
    (h : known? read key entries = some (some value)) :
    ∃ d : Document, read d = some value := by
  unfold known? at h
  split at h
  · cases h
  · rename_i entry _
    unfold optionally? at h
    split at h
    · cases h
    · obtain ⟨found, hfound, hsame⟩ := Option.map_eq_some_iff.mp h
      cases hsame
      exact ⟨_, hfound⟩
  · cases h

/-- Whatever has been read as a record can be stored. -/
theorem storable_of_ofText?
    {s : String}
    {r : MetricsRecord}
    (h : ofText? s = some r) :
    r.Storable := by
  obtain ⟨d, -, hrecord⟩ := Option.bind_eq_some_iff.mp h
  cases d with
  | object fields =>
      obtain ⟨entries, -, h⟩ := Option.bind_eq_some_iff.mp hrecord
      obtain ⟨permission, hpermission, h⟩ := Option.bind_eq_some_iff.mp h
      obtain ⟨deviceId, -, h⟩ := Option.bind_eq_some_iff.mp h
      obtain ⟨userId, -, h⟩ := Option.bind_eq_some_iff.mp h
      obtain ⟨others, hothers, h⟩ := Option.bind_eq_some_iff.mp h
      cases h
      have hsettled : ∀ p ∈ permission, p.date.IsSettled := by
        intro p hp
        obtain rfl : permission = some p := hp
        obtain ⟨d, hd⟩ := exists_of_known? hpermission
        exact Permission.isSettled_of_ofDocument? hd
      have hfrom : ∀ field ∈ Json.Fields.ofList others,
          isKnown field.1 = false ∧ Json.Readable (Json.nestingLimit - 1) field.2 := by
        intro field hfield
        obtain ⟨entry, hentry, hread⟩ := mem_of_mapM hothers field (Json.Fields.mem_ofList hfield)
        obtain ⟨value, hvalue, rfl⟩ := Option.map_eq_some_iff.mp hread
        have hforeign := (List.mem_filter.mp hentry).2
        exact ⟨by simpa using hforeign, Document.readable_of_value? _ _ hvalue⟩
      exact ⟨hsettled, fun field hfield => (hfrom field hfield).1,
        .object (Json.Fields.sorted_ofList others) fun field hfield => (hfrom field hfield).2⟩
  | null => cases hrecord
  | bool b => cases hrecord
  | numeral n => cases hrecord
  | text pieces => cases hrecord
  | array items => cases hrecord

/-- A record can be stored as soon as its date is settled and its further fields have other keys than the
known ones, are not nested too deep, are in order, and have no other numbers than integers. -/
theorem storable_of_integral
    {r : MetricsRecord}
    (hsettled : ∀ p ∈ r.permission, p.date.IsSettled)
    (hforeign : ∀ field ∈ r.extra, isKnown field.1 = false)
    (hnesting : (Json.object r.extra).nesting ≤ Json.nestingLimit)
    (hordered : (Json.object r.extra).Ordered)
    (hintegral : (Json.object r.extra).Integral) :
    r.Storable :=
  ⟨hsettled, hforeign, Json.readable_of_integral hnesting hordered hintegral⟩

/-- A record without other numbers than integers is read again as it is. -/
theorem reread_of_integral
    {r : MetricsRecord}
    (h : (Json.object r.extra).Integral) :
    r.reread = r := by
  rw [reread, Json.rereadFields_of_integral r.extra fun field hfield n hn => h n (.field hfield hn)]

end MetricsRecord
end LifecycleTelemetry
