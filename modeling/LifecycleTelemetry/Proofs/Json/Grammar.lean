import LifecycleTelemetry.Decimal.Shortest
import LifecycleTelemetry.Json.Document

/-!
# The grammar of the interchange format

Which texts are those of a document, without a word about how they are read: words, numerals and quoted
texts as they are spelled, items and fields with commas between them, and gaps wherever two lexemes
meet.
-/

namespace LifecycleTelemetry
namespace Json

open Decimal (digitChar)

/-! ## Spelling -/

/-- A text of nothing but spaces, tabs and line ends. -/
def Gap (cs : List Char) : Prop :=
  ∀ c ∈ cs, c = ' ' ∨ c = '\t' ∨ c = '\n' ∨ c = '\r'

/-- The letters that may follow a backslash, with what they stand for. -/
def escapes : List (Char × Char) :=
  [('"', '"'), ('\\', '\\'), ('/', '/'), ('b', '\x08'), ('f', '\x0c'), ('n', '\n'), ('r', '\r'),
    ('t', '\t')]

/-- A hexadecimal digit of either case, with its value. -/
def HexDigit (c : Char) (n : Nat) : Prop :=
  "0123456789abcdef".toList[n]? = some c ∨ "0123456789ABCDEF".toList[n]? = some c

/-- What stands between two quotation marks, part by part. -/
inductive Piece.Spells : List Char → List Piece → Prop where
  | nil : Spells [] []
  | plain {c : Char} {cs : List Char} {pieces : List Piece} :
      0x20 ≤ c.toNat → c ≠ '"' → c ≠ '\\' → Spells cs pieces →
        Spells (c :: cs) (.char c :: pieces)
  | escape {letter c : Char} {cs : List Char} {pieces : List Piece} :
      (letter, c) ∈ escapes → Spells cs pieces →
        Spells ('\\' :: letter :: cs) (.char c :: pieces)
  | unit {a b c d : Char} {i j k l : Nat} {cs : List Char} {pieces : List Piece} :
      HexDigit a i → HexDigit b j → HexDigit c k → HexDigit d l → Spells cs pieces →
        Spells ('\\' :: 'u' :: a :: b :: c :: d :: cs)
          (.unit (((i * 16 + j) * 16 + k) * 16 + l) :: pieces)

/-- The sign before the digits of an exponent, and whether it is negative. -/
inductive Numeral.SpellsSign : List Char → Bool → Prop where
  | absent : SpellsSign [] false
  | plus : SpellsSign ['+'] false
  | minus : SpellsSign ['-'] true

/-- The exponent of a numeral: a letter of either case, a sign or none, and at least one digit. -/
inductive Numeral.SpellsExponent : List Char → Option Int → Prop where
  | absent : SpellsExponent [] none
  | present {letter : Char} {sign : List Char} {negative : Bool} {digits : List Nat} :
      letter = 'e' ∨ letter = 'E' → SpellsSign sign negative → digits ≠ [] →
        (∀ digit ∈ digits, digit < 10) →
          SpellsExponent (letter :: (sign ++ digits.map digitChar))
            (some (if negative then -(Token.valueOf digits : Int) else Token.valueOf digits))

/-- A numeral that can be written: its digits are digits, it has some wherever it needs them, and
only a single whole digit may be zero. -/
structure Numeral.Proper (n : Numeral) : Prop where
  whole_lt : ∀ digit ∈ n.whole, digit < 10
  whole_ne : n.whole ≠ []
  leading : ∀ (second : Nat) (rest : List Nat), n.whole ≠ 0 :: second :: rest
  fraction_lt : ∀ digits ∈ n.fraction, ∀ digit ∈ digits, digit < 10
  fraction_ne : n.fraction ≠ some []

/-- A numeral: a minus or nothing, whole digits, a fraction and an exponent if it has them. -/
inductive Numeral.Spells : List Char → Numeral → Prop where
  | mk {n : Numeral} {exponent : List Char} :
      n.Proper → SpellsExponent exponent n.exponent →
        Spells
          ((if n.negative then ['-'] else []) ++ (n.whole.map digitChar ++
            ((n.fraction.elim [] fun digits => '.' :: digits.map digitChar) ++ exponent)))
          n

namespace Document

mutual

/-- The text of a document from its first lexeme to its last. -/
inductive Spells : List Char → Document → Prop where
  | null : Spells "null".toList .null
  | true : Spells "true".toList (.bool true)
  | false : Spells "false".toList (.bool false)
  | numeral {cs : List Char} {n : Numeral} :
      Numeral.Spells cs n → Spells cs (.numeral n)
  | text {cs : List Char} {pieces : List Piece} :
      Piece.Spells cs pieces → Spells ('"' :: (cs ++ ['"'])) (.text pieces)
  | noItems {gap : List Char} :
      Gap gap → Spells ('[' :: (gap ++ [']'])) (.array [])
  | items {cs : List Char} {items : List Document} :
      SpellsItems cs items → Spells ('[' :: (cs ++ [']'])) (.array items)
  | noFields {gap : List Char} :
      Gap gap → Spells ('\x7b' :: (gap ++ ['\x7d'])) (.object [])
  | fields {cs : List Char} {fields : List (List Piece × Document)} :
      SpellsFields cs fields → Spells ('\x7b' :: (cs ++ ['\x7d'])) (.object fields)

/-- The text of a document with a gap on either side. -/
inductive Padded : List Char → Document → Prop where
  | mk {before cs after : List Char} {d : Document} :
      Gap before → Spells cs d → Gap after → Padded (before ++ (cs ++ after)) d

/-- One or more items with commas between them. -/
inductive SpellsItems : List Char → List Document → Prop where
  | last {cs : List Char} {d : Document} :
      Padded cs d → SpellsItems cs [d]
  | more {cs rest : List Char} {d : Document} {items : List Document} :
      Padded cs d → SpellsItems rest items → SpellsItems (cs ++ ',' :: rest) (d :: items)

/-- A key, a colon and the document under the key. -/
inductive SpellsField : List Char → List Piece × Document → Prop where
  | mk {before key after cs : List Char} {pieces : List Piece} {d : Document} :
      Gap before → Piece.Spells key pieces → Gap after → Padded cs d →
        SpellsField (before ++ ('"' :: (key ++ '"' :: (after ++ ':' :: cs)))) (pieces, d)

/-- One or more fields with commas between them. -/
inductive SpellsFields : List Char → List (List Piece × Document) → Prop where
  | last {cs : List Char} {field : List Piece × Document} :
      SpellsField cs field → SpellsFields cs [field]
  | more {cs rest : List Char} {field : List Piece × Document}
      {fields : List (List Piece × Document)} :
      SpellsField cs field → SpellsFields rest fields →
        SpellsFields (cs ++ ',' :: rest) (field :: fields)

end

/-- The text is that of the document, and there is nothing else in it but gaps. -/
def Written (s : String) (d : Document) : Prop :=
  Padded s.toList d

end Document

/-! ## Characters and their tables -/

theorem isGap_iff
    {c : Char} :
    Token.isGap c = true ↔ c = ' ' ∨ c = '\t' ∨ c = '\n' ∨ c = '\r' := by
  simp [Token.isGap, or_assoc]

theorem escaped?_eq_some_iff
    {letter c : Char} :
    Token.escaped? letter = some c ↔ (letter, c) ∈ escapes := by
  unfold Token.escaped? escapes
  constructor
  · intro h
    repeat' split at h
    all_goals simp_all [eq_comm]
  · simp only [List.mem_cons, Prod.mk.injEq, List.not_mem_nil, or_false]
    rintro (⟨rfl, rfl⟩ | ⟨rfl, rfl⟩ | ⟨rfl, rfl⟩ | ⟨rfl, rfl⟩ | ⟨rfl, rfl⟩ | ⟨rfl, rfl⟩ |
      ⟨rfl, rfl⟩ | ⟨rfl, rfl⟩) <;> decide

theorem hexDigit_of_toNat
    {c : Char}
    {start n : Nat}
    (count first : Nat)
    (h : c.toNat - start + first = n)
    (hlow : start ≤ c.toNat)
    (hhigh : c.toNat < start + count)
    (hall : ∀ k < count, HexDigit (Char.ofNat (start + k)) (k + first)) :
    HexDigit c n := by
  have hdigit := hall (c.toNat - start) (by omega)
  rwa [h, Nat.add_sub_cancel' hlow, Char.ofNat_toNat] at hdigit

/-- The reader of hexadecimal digits goes by their code points, and finds what the digits stand for. -/
theorem hexValue?_eq_some_iff
    {c : Char}
    {n : Nat} :
    Text.hexValue? c = some n ↔ HexDigit c n := by
  have hle : ∀ a b : Char, a ≤ b ↔ a.toNat ≤ b.toNat := fun _ _ => UInt32.le_iff_toNat_le
  constructor
  · intro h
    unfold Text.hexValue? at h
    split at h
    · next hdigit =>
        obtain ⟨hlow, hhigh⟩ : 48 ≤ c.toNat ∧ c.toNat ≤ 57 := by simpa [hle] using hdigit
        exact hexDigit_of_toNat 10 0 (Option.some.inj h) hlow (by omega) (by unfold HexDigit; decide)
    split at h
    · next hletter =>
        obtain ⟨hlow, hhigh⟩ : 97 ≤ c.toNat ∧ c.toNat ≤ 102 := by simpa [hle] using hletter
        exact hexDigit_of_toNat 6 10 (Option.some.inj h) hlow (by omega) (by unfold HexDigit; decide)
    split at h
    · next hletter =>
        obtain ⟨hlow, hhigh⟩ : 65 ≤ c.toNat ∧ c.toNat ≤ 70 := by simpa [hle] using hletter
        exact hexDigit_of_toNat 6 10 (Option.some.inj h) hlow (by omega) (by unfold HexDigit; decide)
    · cases h
  · have hlower : ∀ k : Fin 16, Text.hexValue? "0123456789abcdef".toList[k] = some k.val := by decide
    have hupper : ∀ k : Fin 16, Text.hexValue? "0123456789ABCDEF".toList[k] = some k.val := by decide
    rintro (h | h)
    · obtain ⟨hlt, rfl⟩ := List.getElem?_eq_some_iff.mp h
      exact hlower ⟨n, hlt⟩
    · obtain ⟨hlt, rfl⟩ := List.getElem?_eq_some_iff.mp h
      exact hupper ⟨n, hlt⟩

theorem codeUnit?_eq_some_iff
    {a b c d : Char}
    {n : Nat} :
    Token.codeUnit? a b c d = some n ↔
      ∃ i j k l : Nat, HexDigit a i ∧ HexDigit b j ∧ HexDigit c k ∧ HexDigit d l ∧
        ((i * 16 + j) * 16 + k) * 16 + l = n := by
  simp [Token.codeUnit?, Option.bind_eq_some_iff, hexValue?_eq_some_iff]

end Json
end LifecycleTelemetry
