import LifecycleTelemetry.Json.Number

/-!
# Values of the interchange format

A value is a tree of the six usual kinds. The fields of an object are kept in the order of their
keys, which is the order of their code points, and `Fields.insert` keeps them so: a key that is
already there takes the new value, so that of several values for one key the last one counts.
-/

namespace LifecycleTelemetry

/-- A value of the interchange format. -/
inductive Json where
  | null
  | bool (b : Bool)
  | number (n : Json.Number)
  | string (s : String)
  | array (items : List Json)
  | object (fields : List (String × Json))

namespace Json

/-- The fields of an object, in the order of their keys. -/
abbrev Fields := List (String × Json)

mutual

/-- Values can be compared. -/
def decEq : (a b : Json) → Decidable (a = b)
  | .null, .null => .isTrue rfl
  | .bool a, .bool b =>
      if h : a = b then .isTrue (by rw [h]) else .isFalse (by simpa using h)
  | .number a, .number b =>
      if h : a = b then .isTrue (by rw [h]) else .isFalse (by simpa using h)
  | .string a, .string b =>
      if h : a = b then .isTrue (by rw [h]) else .isFalse (by simpa using h)
  | .array a, .array b =>
      match decEqItems a b with
      | .isTrue h => .isTrue (by rw [h])
      | .isFalse h => .isFalse (by simpa using h)
  | .object a, .object b =>
      match decEqFields a b with
      | .isTrue h => .isTrue (by rw [h])
      | .isFalse h => .isFalse (by simpa using h)
  | .null, .bool _ | .null, .number _ | .null, .string _ | .null, .array _ | .null, .object _
  | .bool _, .null | .bool _, .number _ | .bool _, .string _ | .bool _, .array _
  | .bool _, .object _
  | .number _, .null | .number _, .bool _ | .number _, .string _ | .number _, .array _
  | .number _, .object _
  | .string _, .null | .string _, .bool _ | .string _, .number _ | .string _, .array _
  | .string _, .object _
  | .array _, .null | .array _, .bool _ | .array _, .number _ | .array _, .string _
  | .array _, .object _
  | .object _, .null | .object _, .bool _ | .object _, .number _ | .object _, .string _
  | .object _, .array _ => .isFalse (by simp)

/-- Lists of values can be compared. -/
def decEqItems : (a b : List Json) → Decidable (a = b)
  | [], [] => .isTrue rfl
  | [], _ :: _ | _ :: _, [] => .isFalse (by simp)
  | a :: r, b :: s =>
      match decEq a b, decEqItems r s with
      | .isTrue h, .isTrue k => .isTrue (by rw [h, k])
      | .isFalse h, _ => .isFalse (by simp [h])
      | _, .isFalse k => .isFalse (by simp [k])

/-- Lists of fields can be compared. -/
def decEqFields : (a b : List (String × Json)) → Decidable (a = b)
  | [], [] => .isTrue rfl
  | [], _ :: _ | _ :: _, [] => .isFalse (by simp)
  | (x, a) :: r, (y, b) :: s =>
      if g : x = y then
        match decEq a b, decEqFields r s with
        | .isTrue h, .isTrue k => .isTrue (by rw [g, h, k])
        | .isFalse h, _ => .isFalse (by simp [h])
        | _, .isFalse k => .isFalse (by simp [k])
      else .isFalse (by simp [g])

end

instance : DecidableEq Json :=
  decEq

namespace Fields

/-- Gives a key a value, at its place in the order. -/
def insert (key : String) (value : Json) : Fields → Fields
  | [] => [(key, value)]
  | (k, v) :: rest =>
      if key < k then (key, value) :: (k, v) :: rest
      else if key = k then (key, value) :: rest
      else (k, v) :: insert key value rest

/-- The value of a key. -/
def get? (key : String) : Fields → Option Json
  | [] => none
  | (k, v) :: rest => if key = k then some v else get? key rest

/-- Every field of `more` inserted into `fields`, one after the other. -/
def insertAll (fields more : Fields) : Fields :=
  more.foldl (fun all field => insert field.1 field.2 all) fields

/-- The fields of a list of entries; of several for one key the last one counts. -/
def ofList (entries : List (String × Json)) : Fields :=
  insertAll [] entries

/-- After an insertion the key has the new value, and every other key has the value it had. -/
theorem get?_insert
    (key other : String)
    (value : Json)
    (fields : Fields) :
    get? other (insert key value fields) =
      if other = key then some value else get? other fields := by
  induction fields with
  | nil => simp [insert, get?]
  | cons field rest ih =>
      obtain ⟨k, v⟩ := field
      simp only [insert]
      split
      · simp [get?]
      · split
        · rename_i hkey
          subst hkey
          by_cases ho : other = key <;> simp [get?, ho]
        · rename_i hkey
          by_cases ho : other = k
          · subst ho
            have hne : ¬ other = key := fun h => hkey h.symm
            simp [get?, hne]
          · simp [get?, ho, ih]

@[simp]
theorem get?_nil
    (key : String) :
    get? key [] = none :=
  rfl

end Fields

/-- A natural number as a value; the greatest one that fits stands for all above it. -/
def ofNat (n : Nat) : Json :=
  .number (.integer (Integer64.clamp n))

/-- An integer as a value, the nearest one that fits. -/
def ofInt (z : Int) : Json :=
  .number (.integer (Integer64.clamp z))

/-- A text that may be absent, as itself or as null. -/
def ofOption : Option String → Json
  | some s => .string s
  | none => .null

/-- The member of an object under a key; null where there is none. -/
def member (key : String) : Json → Json
  | .object fields => (Fields.get? key fields).getD .null
  | _ => .null

end Json
end LifecycleTelemetry
