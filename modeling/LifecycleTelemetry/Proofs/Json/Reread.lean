import LifecycleTelemetry.Proofs.Json.Fields
import LifecycleTelemetry.Proofs.Json.Printed
import LifecycleTelemetry.Proofs.Json.Reals

/-!
# Printed values are read again

Whether the text of a value can be read depends on three things: how deep the value is nested, whether
its objects have their fields in order, and whether its numbers are finite. If it can be read, it
denotes the value with every number read again; where all numbers are integers that is the value
itself. Whatever has been read can be printed and read once more.
-/

namespace LifecycleTelemetry
namespace Json

/-! ## What a value is made of -/

/-- The first value is the second one or stands somewhere in it. -/
inductive Within : Json → Json → Prop where
  | whole (v : Json) : Within v v
  | item {v item : Json} {items : List Json} :
      item ∈ items → Within v item → Within v (.array items)
  | field {v : Json} {field : String × Json} {fields : List (String × Json)} :
      field ∈ fields → Within v field.2 → Within v (.object fields)

/-- Every object has its fields in the order of their keys, each key once. -/
def Ordered (v : Json) : Prop :=
  ∀ fields : List (String × Json), Within (.object fields) v → Fields.Sorted fields

/-- Every number is an integer of one of the two 64-bit ranges. -/
def Integral (v : Json) : Prop :=
  ∀ n : Number, Within (.number n) v → n.IsIntegral

mutual

/-- How many arrays and objects stand in one another. -/
def nesting : Json → Nat
  | .array items => itemsNesting items + 1
  | .object fields => fieldsNesting fields + 1
  | _ => 0

/-- How many arrays and objects stand in one another among the items of an array. -/
def itemsNesting : List Json → Nat
  | [] => 0
  | item :: rest => max (nesting item) (itemsNesting rest)

/-- How many arrays and objects stand in one another among the fields of an object. -/
def fieldsNesting : List (String × Json) → Nat
  | [] => 0
  | (_, value) :: rest => max (nesting value) (fieldsNesting rest)

end

theorem nesting_le_of_mem
    {item : Json}
    {items : List Json}
    (h : item ∈ items) :
    item.nesting ≤ itemsNesting items := by
  induction items with
  | nil =>
      cases h
  | cons first rest ih =>
      rw [itemsNesting]
      rcases List.mem_cons.mp h with rfl | hrest
      · exact Nat.le_max_left _ _
      · exact (ih hrest).trans (Nat.le_max_right _ _)

theorem nesting_le_of_mem_fields
    {field : String × Json}
    {fields : List (String × Json)}
    (h : field ∈ fields) :
    field.2.nesting ≤ fieldsNesting fields := by
  induction fields with
  | nil =>
      cases h
  | cons first rest ih =>
      rw [fieldsNesting]
      rcases List.mem_cons.mp h with rfl | hrest
      · exact Nat.le_max_left _ _
      · exact (ih hrest).trans (Nat.le_max_right _ _)

/-! In a value without items or fields there is nothing but itself. -/

@[simp]
theorem within_null
    {v : Json} :
    Within v .null ↔ v = .null :=
  ⟨fun h => by cases h; rfl, fun h => h ▸ .whole v⟩

@[simp]
theorem within_bool
    {v : Json}
    {b : Bool} :
    Within v (.bool b) ↔ v = .bool b :=
  ⟨fun h => by cases h; rfl, fun h => h ▸ .whole v⟩

@[simp]
theorem within_number
    {v : Json}
    {n : Number} :
    Within v (.number n) ↔ v = .number n :=
  ⟨fun h => by cases h; rfl, fun h => h ▸ .whole v⟩

@[simp]
theorem within_string
    {v : Json}
    {s : String} :
    Within v (.string s) ↔ v = .string s :=
  ⟨fun h => by cases h; rfl, fun h => h ▸ .whole v⟩

@[simp]
theorem within_array
    {v : Json}
    {items : List Json} :
    Within v (.array items) ↔ v = .array items ∨ ∃ item ∈ items, Within v item := by
  constructor
  · intro hwithin
    cases hwithin with
    | whole => exact Or.inl rfl
    | item hitem hwithin => exact Or.inr ⟨_, hitem, hwithin⟩
  · rintro (rfl | ⟨item, hitem, hwithin⟩)
    · exact .whole _
    · exact .item hitem hwithin

@[simp]
theorem within_object
    {v : Json}
    {fields : List (String × Json)} :
    Within v (.object fields) ↔ v = .object fields ∨ ∃ field ∈ fields, Within v field.2 := by
  constructor
  · intro hwithin
    cases hwithin with
    | whole => exact Or.inl rfl
    | field hfield hwithin => exact Or.inr ⟨_, hfield, hwithin⟩
  · rintro (rfl | ⟨field, hfield, hwithin⟩)
    · exact .whole _
    · exact .field hfield hwithin

/-! ## Values that can be read -/

/-- A value that a text can denote when at most `limit` brackets may be open at once. -/
inductive Readable : Nat → Json → Prop where
  | null (limit : Nat) : Readable limit .null
  | bool (limit : Nat) (b : Bool) : Readable limit (.bool b)
  | number (limit : Nat) {n : Number} : n.IsFinite → Readable limit (.number n)
  | string (limit : Nat) (s : String) : Readable limit (.string s)
  | array {limit : Nat} {items : List Json} :
      (∀ item ∈ items, Readable limit item) → Readable (limit + 1) (.array items)
  | object {limit : Nat} {fields : List (String × Json)} :
      Fields.Sorted fields → (∀ field ∈ fields, Readable limit field.2) →
        Readable (limit + 1) (.object fields)

mutual

/-- A value with every number as it is read from its text. -/
def reread : Json → Json
  | .null => .null
  | .bool b => .bool b
  | .number n => .number n.reread
  | .string s => .string s
  | .array items => .array (rereadItems items)
  | .object fields => .object (rereadFields fields)

/-- The items of an array with every number as it is read from its text. -/
def rereadItems : List Json → List Json
  | [] => []
  | item :: rest => reread item :: rereadItems rest

/-- The fields of an object with every number as it is read from its text. -/
def rereadFields : List (String × Json) → List (String × Json)
  | [] => []
  | (key, value) :: rest => (key, reread value) :: rereadFields rest

end

theorem rereadItems_eq_map
    (items : List Json) :
    rereadItems items = items.map reread := by
  induction items with
  | nil => rfl
  | cons item rest ih => rw [rereadItems, ih, List.map_cons]

theorem rereadFields_eq_map
    (fields : List (String × Json)) :
    rereadFields fields = fields.map fun field => (field.1, reread field.2) := by
  induction fields with
  | nil => rfl
  | cons field rest ih =>
      obtain ⟨key, value⟩ := field
      rw [rereadFields, ih, List.map_cons]

/-- A value can be read when it is not nested too deep, its objects are in order and its numbers are
integers. -/
theorem readable_of_integral
    {v : Json}
    {limit : Nat}
    (hnesting : v.nesting ≤ limit)
    (hordered : v.Ordered)
    (hintegral : v.Integral) :
    Readable limit v := by
  induction limit generalizing v with
  | zero =>
      cases v with
      | null => exact .null 0
      | bool b => exact .bool 0 b
      | number n => exact .number 0 (hintegral n (.whole _)).isFinite
      | string s => exact .string 0 s
      | array items =>
          rw [nesting] at hnesting
          omega
      | object fields =>
          rw [nesting] at hnesting
          omega
  | succ limit ih =>
      cases v with
      | null => exact .null _
      | bool b => exact .bool _ b
      | number n => exact .number _ (hintegral n (.whole _)).isFinite
      | string s => exact .string _ s
      | array items =>
          rw [nesting] at hnesting
          refine .array fun item hitem => ih ?_ ?_ ?_
          · exact (nesting_le_of_mem hitem).trans (by omega)
          · exact fun fields hfields => hordered fields (.item hitem hfields)
          · exact fun n hn => hintegral n (.item hitem hn)
      | object fields =>
          rw [nesting] at hnesting
          refine .object (hordered fields (.whole _)) fun field hfield => ih ?_ ?_ ?_
          · exact (nesting_le_of_mem_fields hfield).trans (by omega)
          · exact fun more hmore => hordered more (.field hfield hmore)
          · exact fun n hn => hintegral n (.field hfield hn)

/-- What has been read again can be read again. -/
theorem Readable.reread
    {limit : Nat}
    {v : Json}
    (h : Readable limit v) :
    Readable limit v.reread := by
  induction h with
  | null limit => exact .null limit
  | bool limit b => exact .bool limit b
  | number limit hfinite => exact .number limit hfinite.reread
  | string limit s => exact .string limit s
  | array hitems ih =>
      rw [Json.reread, rereadItems_eq_map]
      refine .array fun item hitem => ?_
      obtain ⟨first, hfirst, rfl⟩ := List.mem_map.mp hitem
      exact ih first hfirst
  | object hsorted hfields ih =>
      rw [Json.reread, rereadFields_eq_map]
      refine .object (Fields.sorted_map Json.reread hsorted) fun field hfield => ?_
      obtain ⟨first, hfirst, rfl⟩ := List.mem_map.mp hfield
      exact ih first hfirst

mutual

/-- A value without other numbers than integers is read again as it is. -/
theorem reread_of_integral
    (v : Json)
    (h : v.Integral) :
    v.reread = v := by
  cases v with
  | null => rfl
  | bool b => rfl
  | number n => rw [reread, (h n (.whole _)).reread]
  | string s => rfl
  | array items =>
      rw [reread, rereadItems_of_integral items fun item hitem n hn => h n (.item hitem hn)]
  | object fields =>
      rw [reread, rereadFields_of_integral fields fun field hfield n hn => h n (.field hfield hn)]

theorem rereadItems_of_integral
    (items : List Json)
    (h : ∀ item ∈ items, item.Integral) :
    rereadItems items = items := by
  cases items with
  | nil => rfl
  | cons item rest =>
      rw [rereadItems, reread_of_integral item (h item List.mem_cons_self),
        rereadItems_of_integral rest fun other hother => h other (List.mem_cons_of_mem _ hother)]

theorem rereadFields_of_integral
    (fields : List (String × Json))
    (h : ∀ field ∈ fields, field.2.Integral) :
    rereadFields fields = fields := by
  cases fields with
  | nil => rfl
  | cons field rest =>
      obtain ⟨key, value⟩ := field
      rw [rereadFields, reread_of_integral value (h (key, value) List.mem_cons_self),
        rereadFields_of_integral rest fun other hother => h other (List.mem_cons_of_mem _ hother)]

end

/-! ## Documents and their values -/

namespace Document

theorem items?_eq_some
    {limit : Nat}
    {items : List Json}
    (h : ∀ item ∈ items, item.document.value? limit = some item.reread) :
    items? limit (itemDocuments items) = some (rereadItems items) := by
  induction items with
  | nil =>
      rfl
  | cons item rest ih =>
      have hitem := h item List.mem_cons_self
      have hrest := ih fun other hother => h other (List.mem_cons_of_mem _ hother)
      simp [itemDocuments, items?, rereadItems, hitem, hrest]

theorem fields?_eq_some
    {limit : Nat}
    {fields : List (String × Json)}
    (h : ∀ field ∈ fields, field.2.document.value? limit = some field.2.reread) :
    fields? limit (fieldDocuments fields) = some (rereadFields fields) := by
  induction fields with
  | nil =>
      rfl
  | cons field rest ih =>
      obtain ⟨key, value⟩ := field
      have hvalue := h (key, value) List.mem_cons_self
      have hrest := ih fun other hother => h other (List.mem_cons_of_mem _ hother)
      simp [fieldDocuments, fields?, rereadFields, hvalue, hrest]

/-- The document of a value that can be read denotes the value with its numbers read again. -/
theorem value?_document
    {limit : Nat}
    {v : Json}
    (h : Readable limit v) :
    v.document.value? limit = some v.reread := by
  induction h with
  | null limit => rfl
  | bool limit b => rfl
  | number limit hfinite =>
      rw [document, value?, Number.number?_numeral hfinite, reread]
      rfl
  | string limit s => simp [document, value?, reread]
  | array hitems ih =>
      rw [document, value?, items?_eq_some ih, reread]
      rfl
  | object hsorted hfields ih =>
      have hagain := Fields.sorted_map reread hsorted
      rw [← rereadFields_eq_map] at hagain
      rw [document, value?, fields?_eq_some ih, Option.map_some, Fields.ofList_of_sorted hagain,
        reread]

mutual

/-- Whatever a document denotes can be read. -/
theorem readable_of_value?
    (limit : Nat)
    (d : Document)
    {v : Json}
    (h : d.value? limit = some v) :
    Readable limit v := by
  cases d with
  | null =>
      cases h
      exact .null limit
  | bool b =>
      cases h
      exact .bool limit b
  | numeral n =>
      obtain ⟨number, hnumber, rfl⟩ := Option.map_eq_some_iff.mp h
      exact .number limit (Number.isFinite_of_number? hnumber)
  | text pieces =>
      obtain ⟨s, -, rfl⟩ := Option.map_eq_some_iff.mp h
      exact .string limit s
  | array items =>
      cases limit with
      | zero => cases h
      | succ limit =>
          obtain ⟨values, hvalues, rfl⟩ := Option.map_eq_some_iff.mp h
          exact .array (readable_of_items? limit items hvalues)
  | object fields =>
      cases limit with
      | zero => cases h
      | succ limit =>
          obtain ⟨entries, hentries, rfl⟩ := Option.map_eq_some_iff.mp h
          refine .object (Fields.sorted_ofList entries) fun field hfield => ?_
          exact readable_of_fields? limit fields hentries field (Fields.mem_ofList hfield)

theorem readable_of_items?
    (limit : Nat)
    (items : List Document)
    {values : List Json}
    (h : items? limit items = some values) :
    ∀ value ∈ values, Readable limit value := by
  cases items with
  | nil =>
      cases h
      exact fun value hvalue => absurd hvalue List.not_mem_nil
  | cons item rest =>
      obtain ⟨first, hfirst, hmore⟩ := Option.bind_eq_some_iff.mp h
      obtain ⟨more, hrest, hvalues⟩ := Option.bind_eq_some_iff.mp hmore
      cases hvalues
      intro value hvalue
      rcases List.mem_cons.mp hvalue with rfl | hlater
      · exact readable_of_value? limit item hfirst
      · exact readable_of_items? limit rest hrest value hlater

theorem readable_of_fields?
    (limit : Nat)
    (fields : List (List Piece × Document))
    {entries : List (String × Json)}
    (h : fields? limit fields = some entries) :
    ∀ entry ∈ entries, Readable limit entry.2 := by
  cases fields with
  | nil =>
      cases h
      exact fun entry hentry => absurd hentry List.not_mem_nil
  | cons field rest =>
      obtain ⟨pieces, d⟩ := field
      obtain ⟨key, -, hnext⟩ := Option.bind_eq_some_iff.mp h
      obtain ⟨value, hvalue, hmore⟩ := Option.bind_eq_some_iff.mp hnext
      obtain ⟨more, hrest, hentries⟩ := Option.bind_eq_some_iff.mp hmore
      cases hentries
      intro entry hentry
      rcases List.mem_cons.mp hentry with rfl | hlater
      · exact readable_of_value? limit d hvalue
      · exact readable_of_fields? limit rest hrest entry hlater

end

end Document
end Json
end LifecycleTelemetry
