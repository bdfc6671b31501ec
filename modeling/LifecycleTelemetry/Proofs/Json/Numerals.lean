import LifecycleTelemetry.Json.Printer
import LifecycleTelemetry.Json.Token
import LifecycleTelemetry.Proofs.Decimal.Shortest
import LifecycleTelemetry.Proofs.Json.Grammar
import LifecycleTelemetry.Proofs.Text.Digits

/-!
# Written numbers are numerals

The text of a number is that of a numeral: whole digits, and for a binary64 number also a fraction, an
exponent or both. The reader of numerals finds just this numeral in it, up to where a text follows that
cannot continue it. What the numeral denotes is not decided here.
-/

namespace LifecycleTelemetry
namespace Json

open Decimal (Digits Layout digitChar digitsOf)

/-! ## The text of a numeral -/

namespace Numeral

/-- The text of an exponent, which always has a sign. -/
def exponentText (power : Int) : List Char :=
  'e' :: (if power < 0 then '-' else '+') :: Nat.toDigits 10 power.natAbs

/-- The text of a numeral, its sign left aside. -/
def body (n : Numeral) : List Char :=
  n.whole.map digitChar ++ (n.fraction.elim [] fun digits => '.' :: digits.map digitChar) ++
    n.exponent.elim [] exponentText

/-- The text of a numeral. -/
def text (n : Numeral) : List Char :=
  if n.negative then '-' :: n.body else n.body

end Numeral

/-! ## Reading it -/

namespace Token

/-- Whether what follows a numeral ends it. -/
def Breaks (rest : List Char) : Prop :=
  ∀ c ∈ rest.head?, c.isDigit = false ∧ c ≠ '.' ∧ c ≠ 'e' ∧ c ≠ 'E'

theorem breaks_cons
    {c : Char}
    (rest : List Char)
    (h : c.isDigit = false ∧ c ≠ '.' ∧ c ≠ 'e' ∧ c ≠ 'E') :
    Breaks (c :: rest) := by
  simpa [Breaks] using h

theorem isDigit_digitChar
    {digit : Nat}
    (h : digit < 10) :
    (digitChar digit).isDigit = true ∧ (digitChar digit).toNat - 0x30 = digit := by
  revert digit
  decide

theorem digitChar_of_isDigit
    {c : Char}
    (h : c.isDigit = true) :
    digitChar (c.toNat - 0x30) = c := by
  simp only [Char.isDigit, ge_iff_le, Bool.and_eq_true, decide_eq_true_eq,
    UInt32.le_iff_toNat_le] at h
  obtain ⟨hlow, -⟩ : 48 ≤ c.toNat ∧ c.toNat ≤ 57 := h
  rw [digitChar, Nat.add_sub_cancel' hlow, Char.ofNat_toNat]

/-- The digits of a natural number are written as the number is. -/
theorem map_digitChar_digitsOf
    (n : Nat) :
    (digitsOf n).map digitChar = Nat.toDigits 10 n := by
  rw [digitsOf, List.map_map]
  refine (List.map_congr_left fun c hc => ?_).trans (List.map_id _)
  exact digitChar_of_isDigit (Nat.isDigit_of_mem_toDigits (by decide) (by decide) hc)

theorem scanDigits_map
    {digits : List Nat}
    {rest : List Char}
    (hdigits : ∀ digit ∈ digits, digit < 10)
    (hrest : ∀ c ∈ rest.head?, c.isDigit = false) :
    scanDigits (digits.map digitChar ++ rest) = (digits, rest) := by
  have hchars : ∀ c ∈ digits.map digitChar, c.isDigit = true := by
    intro c hc
    obtain ⟨digit, hdigit, rfl⟩ := List.mem_map.mp hc
    exact (isDigit_digitChar (hdigits digit hdigit)).1
  rw [scanDigits, Text.takeWhile_isDigit hchars hrest, Text.dropWhile_isDigit hchars hrest,
    List.map_map]
  congr 1
  refine (List.map_congr_left fun digit hdigit => ?_).trans (List.map_id _)
  exact (isDigit_digitChar (hdigits digit hdigit)).2

theorem scanFraction_elim
    {fraction : Option (List Nat)}
    {rest : List Char}
    (hdigits : ∀ digits ∈ fraction, ∀ digit ∈ digits, digit < 10)
    (hne : fraction ≠ some [])
    (hrest : ∀ c ∈ rest.head?, c.isDigit = false ∧ c ≠ '.') :
    scanFraction ((fraction.elim [] fun digits => '.' :: digits.map digitChar) ++ rest)
      = some (fraction, rest) := by
  cases fraction with
  | none =>
      cases rest with
      | nil => rfl
      | cons c rest =>
          rw [Option.elim_none, List.nil_append]
          unfold scanFraction
          split
          · rename_i hcons
            exact absurd (List.cons.inj hcons).1 (hrest c (by simp)).2
          · rfl
  | some digits =>
      have hscan := scanDigits_map (hdigits digits rfl) fun c hc => (hrest c hc).1
      cases digits with
      | nil => exact absurd rfl hne
      | cons digit more => simp only [Option.elim_some, List.cons_append, scanFraction, hscan]

/-- An exponent is read however it is spelled. -/
theorem scanExponent_spelled
    {cs rest : List Char}
    {exponent : Option Int}
    (h : Numeral.SpellsExponent cs exponent)
    (hrest : Breaks rest) :
    scanExponent (cs ++ rest) = some (exponent, rest) := by
  cases h with
  | absent =>
      cases rest with
      | nil => rfl
      | cons c rest =>
          have hc := (hrest c (by simp)).2.2
          simp [scanExponent, hc.1, hc.2]
  | @present letter sign negative digits hletter hspelled hne hlt =>
      have hscan := scanDigits_map hlt fun c hc => (hrest c hc).1
      have hsign :
          scanSign (sign ++ (digits.map digitChar ++ rest))
            = (negative, digits.map digitChar ++ rest) := by
        cases hspelled with
        | plus => rfl
        | minus => rfl
        | absent =>
            obtain ⟨digit, more, rfl⟩ := List.exists_cons_of_ne_nil hne
            have hdigit := (isDigit_digitChar (hlt digit List.mem_cons_self)).1
            have hminus := @Text.ne_of_isDigit _ '-' hdigit (by decide)
            have hplus := @Text.ne_of_isDigit _ '+' hdigit (by decide)
            simp [scanSign, hminus, hplus]
      rw [List.cons_append, List.append_assoc, scanExponent, if_pos hletter, hsign, hscan]
      obtain ⟨digit, more, rfl⟩ := List.exists_cons_of_ne_nil hne
      rfl

theorem spells_exponentText
    (exponent : Option Int) :
    Numeral.SpellsExponent (exponent.elim [] Numeral.exponentText) exponent := by
  cases exponent with
  | none => exact .absent
  | some power =>
      have hne : digitsOf power.natAbs ≠ [] :=
        List.ne_nil_of_length_pos (Decimal.length_digitsOf_pos power.natAbs)
      have hlt : ∀ digit ∈ digitsOf power.natAbs, digit < 10 :=
        fun digit => Decimal.lt_ten_of_mem_digitsOf
      have hvalue := Decimal.valueOf_digitsOf power.natAbs
      rw [Option.elim_some, Numeral.exponentText, ← map_digitChar_digitsOf]
      by_cases hnegative : power < 0
      · have hspelled := Numeral.SpellsExponent.present (.inl rfl) .minus hne hlt
        have hpower : -(power.natAbs : Int) = power := by omega
        rw [hvalue, if_pos rfl, hpower] at hspelled
        simpa [hnegative] using hspelled
      · have hspelled := Numeral.SpellsExponent.present (.inl rfl) .plus hne hlt
        have hpower : (power.natAbs : Int) = power := by omega
        rw [hvalue, if_neg (by decide), hpower] at hspelled
        simpa [hnegative] using hspelled

/-- Neither whole digits nor a fraction can go on in an exponent or in what ends a numeral. -/
theorem head?_exponent
    {cs rest : List Char}
    {exponent : Option Int}
    (h : Numeral.SpellsExponent cs exponent)
    (hrest : Breaks rest) :
    ∀ c ∈ (cs ++ rest).head?, c.isDigit = false ∧ c ≠ '.' := by
  intro c hc
  cases h with
  | absent => exact ⟨(hrest c hc).1, (hrest c hc).2.1⟩
  | present hletter _ _ _ =>
      obtain rfl := Option.some.inj hc
      rcases hletter with rfl | rfl <;> decide

/-- A numeral is read up to its end, however its exponent is spelled. -/
theorem scanNumeral_spelled
    {n : Numeral}
    {exponent rest : List Char}
    (h : n.Proper)
    (hexponent : Numeral.SpellsExponent exponent n.exponent)
    (hrest : Breaks rest) :
    scanNumeral n.negative
        (n.whole.map digitChar ++
          ((n.fraction.elim [] fun digits => '.' :: digits.map digitChar) ++ (exponent ++ rest)))
      = some (n, rest) := by
  obtain ⟨negative, whole, fraction, power⟩ := n
  have hread := scanExponent_spelled hexponent hrest
  have hafter := head?_exponent hexponent hrest
  have hfraction := scanFraction_elim h.fraction_lt h.fraction_ne hafter
  have hbehind :
      ∀ c ∈ ((fraction.elim [] fun digits => '.' :: digits.map digitChar) ++
        (exponent ++ rest)).head?, c.isDigit = false := by
    intro c hc
    cases fraction with
    | none => exact (hafter c hc).1
    | some digits =>
        obtain rfl : '.' = c := by simpa using hc
        decide
  have hwhole := scanDigits_map h.whole_lt hbehind
  rw [scanNumeral, hwhole]
  split
  · rename_i hnil
    exact absurd (Prod.mk.inj hnil).1 h.whole_ne
  · rename_i hzero
    exact absurd (Prod.mk.inj hzero).1 (h.leading _ _)
  · rename_i hsplit
    cases hsplit
    simp [hfraction, hread]

/-- The text of a numeral is read as that numeral, up to its end. -/
theorem scanNumeral_body
    {n : Numeral}
    {rest : List Char}
    (h : n.Proper)
    (hrest : Breaks rest) :
    scanNumeral n.negative (n.body ++ rest) = some (n, rest) := by
  rw [Numeral.body, List.append_assoc, List.append_assoc]
  exact scanNumeral_spelled h (spells_exponentText n.exponent) hrest

end Token

/-! ## The numeral of a number -/

/-- The numeral as which digits are written under a layout. -/
def Numeral.ofDigits (layout : Layout) (negative : Bool) (d : Digits) : Numeral :=
  if layout.leastPositional ≤ d.exponent ∧ d.exponent < layout.leastScientific then
    if d.exponent < 0 then
      { negative
        whole := [0]
        fraction := some (List.replicate ((-d.exponent).toNat - 1) 0 ++ d.digits)
        exponent := none }
    else
      let count := d.exponent.toNat + 1
      { negative
        whole := d.digits.take count ++ List.replicate (count - d.digits.length) 0
        fraction := some (if (d.digits.drop count).isEmpty then [0] else d.digits.drop count)
        exponent := none }
  else
    { negative
      whole := d.digits.take 1
      fraction := if d.digits.tail.isEmpty then none else some d.digits.tail
      exponent := some d.exponent }

/-- The numeral as which a number is written. -/
def Number.numeral : Number → Numeral
  | .integer n => ⟨decide (n.value < 0), digitsOf n.value.natAbs, none, none⟩
  | .real x => Numeral.ofDigits numberLayout x.negative x.written

theorem body_ofDigits
    (layout : Layout)
    (negative : Bool)
    {d : Digits}
    (h : d.digits ≠ []) :
    (Numeral.ofDigits layout negative d).body = layout.write d := by
  have hzero : digitChar 0 = '0' := by decide
  unfold Numeral.ofDigits Layout.write
  simp only
  split
  · split
    · simp [Numeral.body, hzero]
    · by_cases hfraction : (d.digits.drop (d.exponent.toNat + 1)).isEmpty
      · simp [Numeral.body, hzero, hfraction, ← List.map_drop, List.map_take]
      · simp [Numeral.body, hzero, hfraction, ← List.map_drop, List.map_take]
  · cases hdigits : d.digits with
    | nil => exact absurd hdigits h
    | cons digit rest =>
        cases rest with
        | nil => simp [Numeral.body, Numeral.exponentText]
        | cons second more => simp [Numeral.body, Numeral.exponentText]

/-- The numeral of a number has the same text. -/
theorem text_numeral
    (n : Number) :
    n.numeral.text = n.text := by
  cases n with
  | integer n =>
      have hbody :
          (Number.integer n).numeral.body = Nat.toDigits 10 n.value.natAbs := by
        simp [Number.numeral, Numeral.body, Token.map_digitChar_digitsOf]
      rw [Numeral.text, hbody]
      simp [Number.numeral, Number.text, integerText]
  | real x =>
      have hzero : numberLayout.write ⟨[0], 0⟩ = ['0', '.', '0'] := by decide
      have hbody : (Number.real x).numeral.body = numberLayout.write x.written := by
        refine body_ofDigits numberLayout x.negative ?_
        rcases x.written_cases with hnone | ⟨hproper, -⟩
        · simp [hnone]
        · exact hproper.nonempty
      have hwritten :
          numberLayout.write x.written
            = if x.isZero then ['0', '.', '0'] else numberLayout.write x.shortest := by
        unfold Decimal.Binary64.written
        split
        · exact hzero
        · rfl
      have hsign : (Number.real x).numeral.negative = x.negative := by
        unfold Number.numeral Numeral.ofDigits
        simp only
        split
        · split <;> rfl
        · rfl
      rw [Numeral.text, hbody, hwritten, hsign]
      rfl

/-- The numeral of digits can be written. -/
theorem proper_ofDigits
    (layout : Layout)
    (negative : Bool)
    {d : Digits}
    (h : d.Proper) :
    (Numeral.ofDigits layout negative d).Proper := by
  obtain ⟨first, rest, hdigits⟩ := List.exists_cons_of_ne_nil h.nonempty
  have hfirst : first ≠ 0 := by
    have hleading := h.leading
    rw [hdigits] at hleading
    simpa using hleading
  have htake : ∀ count : Nat, ∃ more : List Nat, d.digits.take (count + 1) = first :: more :=
    fun count => ⟨rest.take count, by rw [hdigits, List.take_succ_cons]⟩
  have hzeros : ∀ (count digit : Nat), digit ∈ List.replicate count 0 → digit < 10 := by
    intro count digit hdigit
    rw [List.eq_of_mem_replicate hdigit]
    decide
  unfold Numeral.ofDigits
  split
  · split
    · refine ⟨by simp, by simp, by simp, ?_, by simp [h.nonempty]⟩
      rintro digits ⟨rfl⟩ digit hdigit
      rcases List.mem_append.mp hdigit with hzero | hown
      · exact hzeros _ _ hzero
      · exact h.lt_ten digit hown
    · obtain ⟨more, hmore⟩ := htake d.exponent.toNat
      simp only
      refine ⟨?_, by simp [hmore], ?_, ?_, ?_⟩
      · intro digit hdigit
        rcases List.mem_append.mp hdigit with hown | hzero
        · exact h.lt_ten digit (List.mem_of_mem_take hown)
        · exact hzeros _ _ hzero
      · intro second tail hcons
        simp only [hmore, List.cons_append, List.cons.injEq] at hcons
        exact hfirst hcons.1
      · rintro digits ⟨rfl⟩ digit hdigit
        split at hdigit
        · exact hzeros 1 digit hdigit
        · exact h.lt_ten digit (List.mem_of_mem_drop hdigit)
      · split
        · simp
        · rename_i hfraction
          rw [List.isEmpty_iff] at hfraction
          exact fun hnil => hfraction (Option.some.inj hnil)
  · refine ⟨?_, by simp [hdigits], by simp [hdigits], ?_, ?_⟩
    · intro digit hdigit
      exact h.lt_ten digit (List.mem_of_mem_take hdigit)
    · intro digits hfraction digit hdigit
      split at hfraction
      · cases hfraction
      · cases hfraction
        exact h.lt_ten digit (List.mem_of_mem_tail hdigit)
    · split
      · simp
      · rename_i hfraction
        rw [List.isEmpty_iff] at hfraction
        exact fun hnil => hfraction (Option.some.inj hnil)

theorem proper_numeral
    (n : Number) :
    n.numeral.Proper := by
  cases n with
  | integer n =>
      refine ⟨fun digit => Decimal.lt_ten_of_mem_digitsOf, ?_, ?_, by simp [Number.numeral],
        by simp [Number.numeral]⟩
      · exact List.ne_nil_of_length_pos (Decimal.length_digitsOf_pos _)
      · intro second rest hcons
        have hcons : digitsOf n.value.natAbs = 0 :: second :: rest := hcons
        rcases Nat.eq_zero_or_pos n.value.natAbs with hzero | hpos
        · rw [hzero] at hcons
          cases hcons
        · exact Decimal.head?_digitsOf hpos (by simp [hcons])
  | real x =>
      rcases x.written_cases with hnone | ⟨hproper, -⟩
      · have hnumeral : (Number.real x).numeral = ⟨x.negative, [0], some [0], none⟩ := by
          rw [Number.numeral, hnone]
          rfl
        rw [hnumeral]
        exact ⟨by simp, by simp, by simp, by simp, by simp⟩
      · exact proper_ofDigits numberLayout x.negative hproper

end Json
end LifecycleTelemetry
