import LifecycleTelemetry.Json.Value

/-!
# Fields in order

The fields of an object are kept in the order of their keys, with one value for each key. Inserting a
field keeps them so. Where the values of some keys are covered, it does not matter whether that is done
before an insertion or after it.
-/

namespace LifecycleTelemetry
namespace Json
namespace Fields

/-- Fields in the order of their keys, each key once. -/
def Sorted (fields : Fields) : Prop :=
  fields.Pairwise fun a b => a.1 < b.1

/-- After an insertion there is the new field, and nothing else that was not there before. -/
theorem mem_insert
    {key : String}
    {value : Json}
    {fields : Fields}
    {field : String × Json}
    (h : field ∈ insert key value fields) :
    field = (key, value) ∨ field ∈ fields := by
  induction fields with
  | nil =>
      exact Or.inl (by simpa [insert] using h)
  | cons first rest ih =>
      simp only [insert] at h
      split at h
      · exact List.mem_cons.mp h
      · split at h
        · rcases List.mem_cons.mp h with hnew | hold
          · exact Or.inl hnew
          · exact Or.inr (List.mem_cons_of_mem _ hold)
        · rcases List.mem_cons.mp h with hfirst | hrest
          · exact Or.inr (hfirst ▸ List.mem_cons_self)
          · rcases ih hrest with hnew | hold
            · exact Or.inl hnew
            · exact Or.inr (List.mem_cons_of_mem _ hold)

/-- Inserting a field keeps the order. -/
theorem sorted_insert
    (key : String)
    (value : Json)
    {fields : Fields}
    (h : Sorted fields) :
    Sorted (insert key value fields) := by
  induction fields with
  | nil =>
      exact List.pairwise_singleton _ _
  | cons first rest ih =>
      obtain ⟨hfirst, hrest⟩ := List.pairwise_cons.mp h
      simp only [insert]
      split
      · next hbefore =>
          refine List.pairwise_cons.mpr ⟨fun field hfield => ?_, h⟩
          rcases List.mem_cons.mp hfield with rfl | hmem
          · exact hbefore
          · exact String.lt_trans hbefore (hfirst field hmem)
      · split
        · next hsame =>
            exact List.pairwise_cons.mpr ⟨fun field hfield => hsame ▸ hfirst field hfield, hrest⟩
        · next hnotBefore hne =>
            have hbehind : first.1 < key := by
              refine Decidable.byContradiction fun hnot => hne ?_
              exact String.le_antisymm (String.not_lt.mp hnot) (String.not_lt.mp hnotBefore)
            refine List.pairwise_cons.mpr ⟨fun field hfield => ?_, ih hrest⟩
            rcases mem_insert hfield with rfl | hold
            · exact hbehind
            · exact hfirst field hold

theorem sorted_nil :
    Sorted [] :=
  List.Pairwise.nil

theorem sorted_insertAll
    {fields : Fields}
    (more : Fields)
    (h : Sorted fields) :
    Sorted (insertAll fields more) := by
  induction more generalizing fields with
  | nil => exact h
  | cons field rest ih => exact ih (sorted_insert field.1 field.2 h)

theorem mem_insertAll
    {fields more : Fields}
    {field : String × Json}
    (h : field ∈ insertAll fields more) :
    field ∈ fields ∨ field ∈ more := by
  induction more generalizing fields with
  | nil =>
      exact Or.inl h
  | cons first rest ih =>
      rcases ih h with hinserted | hrest
      · rcases mem_insert hinserted with hfirst | hfields
        · exact Or.inr (hfirst ▸ List.mem_cons_self)
        · exact Or.inl hfields
      · exact Or.inr (List.mem_cons_of_mem _ hrest)

/-- The fields of a list of entries are in order, whatever the order of the entries. -/
theorem sorted_ofList
    (entries : List (String × Json)) :
    Sorted (ofList entries) :=
  sorted_insertAll entries sorted_nil

theorem mem_ofList
    {entries : List (String × Json)}
    {field : String × Json}
    (h : field ∈ ofList entries) :
    field ∈ entries :=
  (mem_insertAll h).resolve_left List.not_mem_nil

/-- A key behind all others goes to the end. -/
theorem insert_of_last
    {key : String}
    (value : Json)
    {fields : Fields}
    (h : ∀ field ∈ fields, field.1 < key) :
    insert key value fields = fields ++ [(key, value)] := by
  induction fields with
  | nil =>
      rfl
  | cons first rest ih =>
      have hfirst : first.1 < key := h first List.mem_cons_self
      have hafter : ¬key < first.1 := fun hless => String.lt_irrefl _ (String.lt_trans hless hfirst)
      have hne : ¬key = first.1 := fun heq => String.lt_irrefl _ (heq ▸ hfirst)
      have hrest := ih fun field hfield => h field (List.mem_cons_of_mem _ hfield)
      simp only [insert, if_neg hafter, if_neg hne, hrest, List.cons_append]

theorem insertAll_of_sorted
    {fields more : Fields}
    (h : Sorted (fields ++ more)) :
    insertAll fields more = fields ++ more := by
  induction more generalizing fields with
  | nil =>
      exact (List.append_nil fields).symm
  | cons field rest ih =>
      have hbefore : ∀ earlier ∈ fields, earlier.1 < field.1 := fun earlier hearlier =>
        (List.pairwise_append.mp h).2.2 earlier hearlier field List.mem_cons_self
      have hsplit : fields ++ field :: rest = (fields ++ [field]) ++ rest := by simp
      rw [hsplit] at h ⊢
      rw [← ih h, ← insert_of_last field.2 hbefore]
      rfl

/-- Of the values of a key the one that is inserted last counts. A key that is not inserted keeps the value
that it has. -/
theorem get?_insertAll
    (key : String)
    (fields more : Fields) :
    get? key (insertAll fields more) = (get? key (ofList more)).or (get? key fields) := by
  induction more generalizing fields with
  | nil =>
      rfl
  | cons field rest ih =>
      have hinsert := get?_insert field.1 key field.2
      have hboth : get? key (insertAll fields (field :: rest)) =
          (get? key (ofList rest)).or (get? key (insert field.1 field.2 fields)) := ih _
      have hmore : get? key (ofList (field :: rest)) =
          (get? key (ofList rest)).or (get? key (insert field.1 field.2 [])) := ih _
      rw [hboth, hmore, Option.or_assoc, hinsert, hinsert]
      split
      · rfl
      · rw [get?_nil, Option.none_or]

/-- The fields of a list of entries lack a key exactly when no entry has it. -/
theorem get?_ofList_eq_none_iff
    (key : String)
    (entries : List (String × Json)) :
    get? key (ofList entries) = none ↔ ∀ entry ∈ entries, entry.1 ≠ key := by
  induction entries with
  | nil =>
      simp [ofList, insertAll]
  | cons first rest ih =>
      have hfirst := get?_insert first.1 key first.2 []
      have hcons : get? key (ofList (first :: rest)) =
          (get? key (ofList rest)).or (get? key (insert first.1 first.2 [])) :=
        get?_insertAll key (insert first.1 first.2 []) rest
      rw [hcons, hfirst, Option.or_eq_none_iff, ih, List.forall_mem_cons]
      by_cases hkey : key = first.1
      · simp [hkey]
      · simp [hkey, Ne.symm hkey, get?_nil]

/-- Entries that are in order already are the fields that they make. -/
theorem ofList_of_sorted
    {fields : Fields}
    (h : Sorted fields) :
    ofList fields = fields :=
  @insertAll_of_sorted [] fields h

/-- The order does not depend on the values. -/
theorem sorted_map
    {fields : Fields}
    (change : Json → Json)
    (h : Sorted fields) :
    Sorted (fields.map fun field => (field.1, change field.2)) :=
  List.pairwise_map.mpr h

/-! ## Covering values -/

/-- A value, or nothing in its place if it is the value of one of some keys. -/
def coverAt (keys : List String) (key : String) (value : Json) : Json :=
  if key ∈ keys then .null else value

/-- The fields with the values of some keys covered. -/
def cover (keys : List String) (fields : Fields) : Fields :=
  fields.map fun field => (field.1, coverAt keys field.1 field.2)

theorem cover_insert
    (keys : List String)
    (key : String)
    (value : Json)
    (fields : Fields) :
    cover keys (insert key value fields) = insert key (coverAt keys key value) (cover keys fields) := by
  induction fields with
  | nil =>
      rfl
  | cons first rest ih =>
      simp only [cover, List.map_cons, insert] at ih ⊢
      split
      · rfl
      · split
        · rfl
        · rw [List.map_cons, ih]

theorem cover_insertAll
    (keys : List String)
    (fields more : Fields) :
    cover keys (insertAll fields more) = insertAll (cover keys fields) (cover keys more) := by
  induction more generalizing fields with
  | nil =>
      rfl
  | cons field rest ih =>
      exact (ih (insert field.1 field.2 fields)).trans
        (congrArg (insertAll · (cover keys rest)) (cover_insert keys field.1 field.2 fields))

theorem get?_cover
    (keys : List String)
    (key : String)
    (fields : Fields) :
    get? key (cover keys fields) = (get? key fields).map (coverAt keys key) := by
  induction fields with
  | nil =>
      rfl
  | cons first rest ih =>
      simp only [cover, List.map_cons, get?] at ih ⊢
      split
      · next hkey =>
          rw [hkey, Option.map_some]
      · exact ih

/-- A key whose values are not covered has the same value in fields that differ in covered values. -/
theorem get?_of_cover
    {keys : List String}
    {key : String}
    {fields other : Fields}
    (h : cover keys fields = cover keys other)
    (hkey : key ∉ keys) :
    get? key fields = get? key other := by
  have hseen : coverAt keys key = id := funext fun value => if_neg hkey
  have hget := congrArg (get? key) h
  rwa [get?_cover, get?_cover, hseen, Option.map_id_fun, id, id] at hget

end Fields
end Json
end LifecycleTelemetry
