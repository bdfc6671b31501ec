import LifecycleTelemetry.Json.Reader
import LifecycleTelemetry.Proofs.Json.Fields
import Mathlib.Data.List.Sort

/-!
# What documents denote

The meaning of a document, said as a relation. Code units pair up to characters; a numeral is an integer
where it has the form of one and fits, and is else read by the rule for binary64 numbers; of several fields
with one key the last one counts. How deep a document is nested is not part of its meaning: the reader
finds the value of a document just when the document denotes it and is not nested deeper than the reader
allows.
-/

namespace LifecycleTelemetry
namespace Json

open Decimal (Binary64)

/-! ## Texts -/

/-- The characters that the parts of a quoted text denote. A character above U+FFFF may be given as two code
units, one of the upper surrogate range and one of the lower; by itself neither denotes anything. -/
inductive Piece.Denotes : List Piece → List Char → Prop where
  | nil : Denotes [] []
  | char (c : Char) {pieces : List Piece} {cs : List Char} :
      Denotes pieces cs → Denotes (.char c :: pieces) (c :: cs)
  | unit {code : Nat} {pieces : List Piece} {cs : List Char} :
      code < 0xD800 ∨ 0xE000 ≤ code → Denotes pieces cs →
        Denotes (.unit code :: pieces) (Char.ofNat code :: cs)
  | pair {high low : Nat} {pieces : List Piece} {cs : List Char} :
      0xD800 ≤ high → high < 0xDC00 → 0xDC00 ≤ low → low < 0xE000 → Denotes pieces cs →
        Denotes (.unit high :: .unit low :: pieces)
          (Char.ofNat (0x10000 + (high - 0xD800) * 0x400 + (low - 0xDC00)) :: cs)

namespace Piece

theorem chars?_of_denotes
    {pieces : List Piece}
    {cs : List Char}
    (h : Denotes pieces cs) :
    chars? pieces = some cs := by
  induction h with
  | nil => rfl
  | char c _ ih => simp [chars?, ih]
  | unit hcode _ ih =>
      rw [chars?.eq_def]
      simp [hcode, ih]
  | @pair high low _ _ hhigh hupper hlow hlower _ ih =>
      have hsurrogate : ¬(high < 0xD800 ∨ 0xE000 ≤ high) := by omega
      rw [chars?.eq_def]
      simp [hsurrogate, hupper, hlow, hlower, ih]

theorem denotes_of_chars?
    {pieces : List Piece}
    {cs : List Char}
    (h : chars? pieces = some cs) :
    Denotes pieces cs := by
  fun_induction chars? pieces generalizing cs with
  | case1 =>
      cases h
      exact .nil
  | case2 c rest ih =>
      obtain ⟨more, hmore, rfl⟩ := Option.map_eq_some_iff.mp h
      exact .char c (ih hmore)
  | case3 code rest hcode ih =>
      obtain ⟨more, hmore, rfl⟩ := Option.map_eq_some_iff.mp h
      exact .unit hcode (ih hmore)
  | case4 code hcode hupper low rest hlow c =>
      rename_i ih
      obtain ⟨more, hmore, rfl⟩ := Option.map_eq_some_iff.mp h
      exact .pair (by omega) hupper hlow.1 hlow.2 (ih hmore)
  | case5 => cases h
  | case6 => cases h
  | case7 => cases h

/-- The reader finds a text just when the parts denote its characters. -/
theorem text?_eq_some_iff
    {pieces : List Piece}
    {s : String} :
    text? pieces = some s ↔ Denotes pieces s.toList := by
  constructor
  · intro h
    obtain ⟨cs, hcs, rfl⟩ := Option.map_eq_some_iff.mp h
    rw [String.toList_ofList]
    exact denotes_of_chars? hcs
  · intro h
    rw [text?, chars?_of_denotes h, Option.map_some, String.ofList_toList]

end Piece

/-! ## Numbers -/

namespace Numeral

/-- The integer as which a numeral is written: neither a fraction nor an exponent, and no minus before
zero. -/
structure IsInteger (n : Numeral) (i : Integer64) : Prop where
  fraction : n.fraction = none
  exponent : n.exponent = none
  value : i.value = if n.negative then -(Token.valueOf n.whole : Int) else Token.valueOf n.whole
  zero : n.negative = true → i.value ≠ 0

/-- The number that a numeral denotes: the integer as which it is written, and otherwise what the rule for
binary64 numbers makes of it, if that is finite. -/
inductive Denotes : Numeral → Number → Prop where
  | integer {n : Numeral} {i : Integer64} : n.IsInteger i → Denotes n (.integer i)
  | real {n : Numeral} {x : Binary64} :
      (∀ i : Integer64, ¬n.IsInteger i) → n.real? = some x → Denotes n (.real x)

theorem ofInt?_eq_some_iff
    {z : Int}
    {i : Integer64} :
    Integer64.ofInt? z = some i ↔ i.value = z := by
  constructor
  · intro h
    unfold Integer64.ofInt? at h
    split at h
    · cases h
      rfl
    · cases h
  · rintro rfl
    exact Integer64.ofInt?_value i

theorem integer?_eq_some_iff
    {n : Numeral}
    {i : Integer64} :
    n.integer? = some i ↔ n.IsInteger i := by
  have hlower := i.lower
  have hmagnitude : n.whole.foldl (fun value digit => value * 10 + digit) 0 = Token.valueOf n.whole := rfl
  unfold integer?
  rw [hmagnitude]
  constructor
  · intro h
    split at h
    · cases h
    · next hplain =>
        obtain ⟨hfraction, hexponent⟩ : n.fraction = none ∧ n.exponent = none := by
          simpa using hplain
        dsimp only at h
        split at h
        · next hnegative =>
            split at h
            · cases h
            · next hnonzero =>
                have hvalue := ofInt?_eq_some_iff.mp h
                refine ⟨hfraction, hexponent, by rw [if_pos hnegative, hvalue], fun _ => ?_⟩
                omega
        · next hpositive =>
            have hvalue := ofInt?_eq_some_iff.mp h
            exact ⟨hfraction, hexponent, by rw [if_neg hpositive, hvalue],
              fun hnegative => absurd hnegative hpositive⟩
  · rintro ⟨hfraction, hexponent, hvalue, hzero⟩
    rw [hfraction, hexponent]
    cases hnegative : n.negative with
    | true =>
        have hnonzero := hzero hnegative
        rw [hnegative, if_pos rfl] at hvalue
        have hfits : ¬(Token.valueOf n.whole = 0 ∨ 9223372036854775808 < Token.valueOf n.whole) := by
          omega
        simpa [hfits] using ofInt?_eq_some_iff.mpr hvalue
    | false =>
        rw [hnegative, if_neg (by decide)] at hvalue
        simpa using ofInt?_eq_some_iff.mpr hvalue

/-- The reader finds a number just when the numeral denotes it. -/
theorem number?_eq_some_iff
    {n : Numeral}
    {x : Number} :
    n.number? = some x ↔ n.Denotes x := by
  unfold number?
  constructor
  · intro h
    split at h
    · next i hinteger =>
        cases h
        exact .integer (integer?_eq_some_iff.mp hinteger)
    · next hnone =>
        obtain ⟨real, hreal, rfl⟩ := Option.map_eq_some_iff.mp h
        refine .real (fun i hi => ?_) hreal
        rw [integer?_eq_some_iff.mpr hi] at hnone
        cases hnone
  · rintro (hinteger | ⟨hnone, hreal⟩)
    · rw [integer?_eq_some_iff.mpr hinteger]
    · have hinteger : n.integer? = none :=
        Option.eq_none_iff_forall_not_mem.mpr fun i hi => hnone i (integer?_eq_some_iff.mp hi)
      rw [hinteger, hreal]
      rfl

end Numeral

/-! ## Objects -/

namespace Fields

variable {α : Type}

/-- A key that does not occur. -/
def Absent (entries : List (String × α)) (key : String) : Prop :=
  ∀ entry ∈ entries, entry.1 ≠ key

/-- The value with which a key occurs for the last time. -/
def Last (entries : List (String × α)) (key : String) (value : α) : Prop :=
  ∃ before after : List (String × α),
    entries = before ++ (key, value) :: after ∧ Absent after key

/-- The value with which a key occurs, if it occurs only once. -/
def Once (entries : List (String × α)) (key : String) (value : α) : Prop :=
  ∃ before after : List (String × α),
    entries = before ++ (key, value) :: after ∧ Absent before key ∧ Absent after key

/-- Fields that hold the last value of every key, and nothing else. -/
structure Gather (entries fields : Fields) : Prop where
  sorted : Sorted fields
  get?_eq : ∀ (key : String) (value : Json), get? key fields = some value ↔ Last entries key value

theorem last_cons
    {entries : List (String × α)}
    {entry : String × α}
    {key : String}
    {value : α} :
    Last (entry :: entries) key value ↔
      Last entries key value ∨ entry = (key, value) ∧ Absent entries key := by
  constructor
  · rintro ⟨before, after, hsplit, hafter⟩
    cases before with
    | nil =>
        obtain ⟨rfl, rfl⟩ := List.cons.inj hsplit
        exact .inr ⟨rfl, hafter⟩
    | cons first before =>
        obtain ⟨rfl, rfl⟩ := List.cons.inj hsplit
        exact .inl ⟨before, after, rfl, hafter⟩
  · rintro (⟨before, after, rfl, hafter⟩ | ⟨rfl, hafter⟩)
    · exact ⟨entry :: before, after, rfl, hafter⟩
    · exact ⟨[], entries, rfl, hafter⟩

theorem absent_iff
    {entries : List (String × α)}
    {key : String} :
    Absent entries key ↔ entries.filter (fun entry => entry.1 == key) = [] := by
  simp [Absent, List.filter_eq_nil_iff]

/-- A key occurs once just when a search for it finds one entry. -/
theorem once_iff
    {entries : List (String × α)}
    {key : String}
    {value : α} :
    Once entries key value ↔ entries.filter (fun entry => entry.1 == key) = [(key, value)] := by
  rw [List.filter_eq_cons_iff]
  constructor
  · rintro ⟨before, after, rfl, hbefore, hafter⟩
    refine ⟨before, after, rfl, fun entry hentry => ?_, beq_self_eq_true key, absent_iff.mp hafter⟩
    simpa using hbefore entry hentry
  · rintro ⟨before, after, rfl, hbefore, -, hafter⟩
    refine ⟨before, after, rfl, fun entry hentry => ?_, absent_iff.mpr hafter⟩
    simpa using hbefore entry hentry

theorem get?_ofList_eq_some_iff
    {entries : Fields}
    {key : String}
    {value : Json} :
    get? key (ofList entries) = some value ↔ Last entries key value := by
  induction entries with
  | nil =>
      constructor
      · intro h
        cases h
      · rintro ⟨before, after, hsplit, -⟩
        exact absurd hsplit.symm (List.append_ne_nil_of_right_ne_nil before (List.cons_ne_nil _ after))
  | cons entry rest ih =>
      have hcons : get? key (ofList (entry :: rest)) =
          (get? key (ofList rest)).or (get? key (insert entry.1 entry.2 [])) :=
        get?_insertAll key (insert entry.1 entry.2 []) rest
      obtain ⟨first, its⟩ := entry
      rw [hcons, get?_insert, last_cons, ← ih, Option.or_eq_some_iff, get?_ofList_eq_none_iff, Absent]
      by_cases hkey : key = first
      · simp [hkey, and_comm]
      · simp [hkey, Ne.symm hkey]

theorem mem_iff_get?
    {fields : Fields}
    (h : Sorted fields)
    {key : String}
    {value : Json} :
    (key, value) ∈ fields ↔ get? key fields = some value := by
  induction fields with
  | nil => simp
  | cons field rest ih =>
      obtain ⟨hfirst, hrest⟩ := List.pairwise_cons.mp h
      obtain ⟨first, its⟩ := field
      rw [List.mem_cons, ih hrest, get?]
      by_cases hkey : key = first
      · subst hkey
        have hnone : get? key rest ≠ some value := fun hvalue =>
          String.lt_irrefl key (hfirst _ ((ih hrest).mpr hvalue))
        simp [hnone, eq_comm]
      · simp [hkey]

theorem Sorted.ext
    {fields more : Fields}
    (hfields : Sorted fields)
    (hmore : Sorted more)
    (h : ∀ key : String, get? key fields = get? key more) :
    fields = more := by
  have : Std.Irrefl fun a b : String × Json => a.1 < b.1 := ⟨fun a => String.lt_irrefl a.1⟩
  have : Std.Antisymm fun a b : String × Json => a.1 < b.1 :=
    ⟨fun a b hless hgreater => absurd hgreater (String.lt_asymm hless)⟩
  refine List.Pairwise.eq_of_mem_iff hfields hmore fun field => ?_
  rw [mem_iff_get? hfields, mem_iff_get? hmore, h]

/-- The last value of every key is what is left when entries are inserted one after the other. -/
theorem gather_iff
    {entries fields : Fields} :
    Gather entries fields ↔ fields = ofList entries := by
  constructor
  · intro h
    refine h.sorted.ext (sorted_ofList entries) fun key => Option.ext fun value => ?_
    rw [h.get?_eq, get?_ofList_eq_some_iff]
  · rintro rfl
    exact ⟨sorted_ofList entries, fun key value => get?_ofList_eq_some_iff⟩

end Fields

/-! ## Documents -/

namespace Document

mutual

/-- The value that a document denotes. -/
inductive Denotes : Document → Json → Prop where
  | null : Denotes .null .null
  | bool (b : Bool) : Denotes (.bool b) (.bool b)
  | numeral {n : Numeral} {x : Number} :
      n.Denotes x → Denotes (.numeral n) (.number x)
  | text {pieces : List Piece} {s : String} :
      Piece.Denotes pieces s.toList → Denotes (.text pieces) (.string s)
  | array {items : List Document} {values : List Json} :
      DenoteItems items values → Denotes (.array items) (.array values)
  | object {fields : List (List Piece × Document)} {entries map : Fields} :
      DenoteFields fields entries → Fields.Gather entries map →
        Denotes (.object fields) (.object map)

/-- The values that items denote, one by one. -/
inductive DenoteItems : List Document → List Json → Prop where
  | nil : DenoteItems [] []
  | cons {d : Document} {v : Json} {items : List Document} {values : List Json} :
      Denotes d v → DenoteItems items values → DenoteItems (d :: items) (v :: values)

/-- The keys and values that fields denote, one by one. -/
inductive DenoteFields : List (List Piece × Document) → Fields → Prop where
  | nil : DenoteFields [] []
  | cons {pieces : List Piece} {key : String} {d : Document} {v : Json}
      {fields : List (List Piece × Document)} {entries : Fields} :
      Piece.Denotes pieces key.toList → Denotes d v → DenoteFields fields entries →
        DenoteFields ((pieces, d) :: fields) ((key, v) :: entries)

end

mutual

/-- How many arrays and objects stand in one another. -/
def depth : Document → Nat
  | .array items => itemsDepth items + 1
  | .object fields => fieldsDepth fields + 1
  | _ => 0

/-- How many arrays and objects stand in one another among items. -/
def itemsDepth : List Document → Nat
  | [] => 0
  | item :: rest => max (depth item) (itemsDepth rest)

/-- How many arrays and objects stand in one another among fields. -/
def fieldsDepth : List (List Piece × Document) → Nat
  | [] => 0
  | (_, field) :: rest => max (depth field) (fieldsDepth rest)

end

mutual

/-- The reader finds the value of a document just when the document denotes it and is not nested too
deep. -/
theorem value?_eq_some_iff
    {limit : Nat}
    (d : Document)
    {v : Json} :
    d.value? limit = some v ↔ d.Denotes v ∧ d.depth ≤ limit := by
  constructor
  · intro h
    cases d with
    | null =>
        cases h
        exact ⟨.null, Nat.zero_le limit⟩
    | bool b =>
        cases h
        exact ⟨.bool b, Nat.zero_le limit⟩
    | numeral n =>
        obtain ⟨x, hx, rfl⟩ := Option.map_eq_some_iff.mp h
        exact ⟨.numeral (Numeral.number?_eq_some_iff.mp hx), Nat.zero_le limit⟩
    | text pieces =>
        obtain ⟨s, hs, rfl⟩ := Option.map_eq_some_iff.mp h
        exact ⟨.text (Piece.text?_eq_some_iff.mp hs), Nat.zero_le limit⟩
    | array items =>
        cases limit with
        | zero => cases h
        | succ limit =>
            obtain ⟨values, hvalues, rfl⟩ := Option.map_eq_some_iff.mp h
            obtain ⟨hitems, hdepth⟩ := (items?_eq_some_iff items).mp hvalues
            exact ⟨.array hitems, Nat.succ_le_succ hdepth⟩
    | object fields =>
        cases limit with
        | zero => cases h
        | succ limit =>
            obtain ⟨entries, hentries, rfl⟩ := Option.map_eq_some_iff.mp h
            obtain ⟨hfields, hdepth⟩ := (fields?_eq_some_iff fields).mp hentries
            exact ⟨.object hfields (Fields.gather_iff.mpr rfl), Nat.succ_le_succ hdepth⟩
  · rintro ⟨h, hdepth⟩
    cases h with
    | null => rfl
    | bool b => rfl
    | numeral hx => rw [value?, Numeral.number?_eq_some_iff.mpr hx, Option.map_some]
    | text hs => rw [value?, Piece.text?_eq_some_iff.mpr hs, Option.map_some]
    | @array items values hitems =>
        cases limit with
        | zero => cases hdepth
        | succ limit =>
            have hvalues := (items?_eq_some_iff items).mpr ⟨hitems, Nat.le_of_succ_le_succ hdepth⟩
            rw [value?, hvalues, Option.map_some]
    | @object fields entries map hfields hmap =>
        cases limit with
        | zero => cases hdepth
        | succ limit =>
            have hentries := (fields?_eq_some_iff fields).mpr ⟨hfields, Nat.le_of_succ_le_succ hdepth⟩
            rw [value?, hentries, Option.map_some, Fields.gather_iff.mp hmap]
termination_by sizeOf d

theorem items?_eq_some_iff
    {limit : Nat}
    (items : List Document)
    {values : List Json} :
    items? limit items = some values ↔ DenoteItems items values ∧ itemsDepth items ≤ limit := by
  cases items with
  | nil =>
      constructor
      · intro h
        cases h
        exact ⟨.nil, Nat.zero_le limit⟩
      · rintro ⟨⟨⟩, -⟩
        rfl
  | cons item rest =>
      rw [itemsDepth, Nat.max_le]
      constructor
      · intro h
        obtain ⟨value, hvalue, hmore⟩ := Option.bind_eq_some_iff.mp h
        obtain ⟨more, hrest, hpure⟩ := Option.bind_eq_some_iff.mp hmore
        cases hpure
        obtain ⟨hitem, hdepth⟩ := (value?_eq_some_iff item).mp hvalue
        obtain ⟨hitems, hdepths⟩ := (items?_eq_some_iff rest).mp hrest
        exact ⟨.cons hitem hitems, hdepth, hdepths⟩
      · rintro ⟨hall, hdepth, hdepths⟩
        cases hall with
        | cons hitem hitems =>
            have hvalue := (value?_eq_some_iff item).mpr ⟨hitem, hdepth⟩
            have hrest := (items?_eq_some_iff rest).mpr ⟨hitems, hdepths⟩
            simp [items?, hvalue, hrest]
termination_by sizeOf items

theorem fields?_eq_some_iff
    {limit : Nat}
    (fields : List (List Piece × Document))
    {entries : List (String × Json)} :
    fields? limit fields = some entries ↔
      DenoteFields fields entries ∧ fieldsDepth fields ≤ limit := by
  cases fields with
  | nil =>
      constructor
      · intro h
        cases h
        exact ⟨.nil, Nat.zero_le limit⟩
      · rintro ⟨⟨⟩, -⟩
        rfl
  | cons field rest =>
      obtain ⟨pieces, d⟩ := field
      rw [fieldsDepth, Nat.max_le]
      constructor
      · intro h
        obtain ⟨key, hkey, h⟩ := Option.bind_eq_some_iff.mp h
        obtain ⟨value, hvalue, h⟩ := Option.bind_eq_some_iff.mp h
        obtain ⟨more, hrest, h⟩ := Option.bind_eq_some_iff.mp h
        cases h
        obtain ⟨hfield, hdepth⟩ := (value?_eq_some_iff d).mp hvalue
        obtain ⟨hfields, hdepths⟩ := (fields?_eq_some_iff rest).mp hrest
        exact ⟨.cons (Piece.text?_eq_some_iff.mp hkey) hfield hfields, hdepth, hdepths⟩
      · rintro ⟨hall, hdepth, hdepths⟩
        cases hall with
        | cons hpieces hfield hfields =>
            have hkey := Piece.text?_eq_some_iff.mpr hpieces
            have hvalue := (value?_eq_some_iff d).mpr ⟨hfield, hdepth⟩
            have hrest := (fields?_eq_some_iff rest).mpr ⟨hfields, hdepths⟩
            simp [fields?, hkey, hvalue, hrest]
termination_by sizeOf fields

end

/-- A document denotes one value at most. -/
theorem Denotes.unique
    {d : Document}
    {v w : Json}
    (hv : d.Denotes v)
    (hw : d.Denotes w) :
    v = w := by
  have hread := d.value?_eq_some_iff.mpr ⟨hv, Nat.le_refl d.depth⟩
  have hagain := d.value?_eq_some_iff.mpr ⟨hw, Nat.le_refl d.depth⟩
  exact Option.some.inj (hread.symm.trans hagain)

end Document
end Json
end LifecycleTelemetry
