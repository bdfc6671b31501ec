import LifecycleTelemetry.Proofs.Json.Numerals
import Mathlib.Tactic.GCongr

/-!
# Written numbers can be read

A binary64 number is read from its numeral by a rule of its own, which rounds several times and need not
come to the number that was written. It does come to some number. What could stand in the way is that a
number close to the greatest one is rounded up too far; the digits of the greatest number itself are
read well, and those of every other number denote something small enough.
-/

namespace LifecycleTelemetry
namespace Json

open Decimal (Binary64 Digits)
open Decimal.Binary64 (overflow ofRatio? ratio_div ratio_snd_pos isSome_ofRatio?)
open Token (valueOf)

namespace Numeral

/-! ## Multiplying and dividing -/

section Arithmetic

variable {x y z : Binary64}

/-- The terms of the quotient that a product is rounded from. -/
theorem mul?_eq
    (x y : Binary64) :
    ∃ num den : Nat, x.mul? y = ofRatio? (x.negative != y.negative) num den ∧ 0 < den ∧
      (num / den : ℚ) = x.magnitude * y.magnitude := by
  refine ⟨x.ratio.1 * y.ratio.1, x.ratio.2 * y.ratio.2, rfl,
    Nat.mul_pos x.ratio_snd_pos y.ratio_snd_pos, ?_⟩
  rw [Nat.cast_mul, Nat.cast_mul, ← div_mul_div_comm, ratio_div, ratio_div]

/-- The terms of the quotient that a quotient is rounded from. -/
theorem div?_eq
    (x : Binary64)
    (hy : 0 < y.magnitude) :
    ∃ num den : Nat, x.div? y = ofRatio? (x.negative != y.negative) num den ∧ 0 < den ∧
      (num / den : ℚ) = x.magnitude / y.magnitude := by
  have hzero : y.isZero = false := by
    refine Bool.eq_false_iff.mpr fun h => ?_
    rw [Binary64.isZero, beq_iff_eq] at h
    simp [Binary64.magnitude, h] at hy
  have hpos : 0 < y.ratio.1 := by
    refine Nat.pos_of_ne_zero fun h => ?_
    rw [← ratio_div, h] at hy
    simp at hy
  have hquotient :
      x.div? y = ofRatio? (x.negative != y.negative) (x.ratio.1 * y.ratio.2)
        (x.ratio.2 * y.ratio.1) := by
    simp [Binary64.div?, hzero]
  refine ⟨_, _, hquotient, Nat.mul_pos x.ratio_snd_pos hpos, ?_⟩
  rw [Nat.cast_mul, Nat.cast_mul, ← ratio_div, ← ratio_div, div_div_div_eq]

theorem isFinite_of_mul?
    (h : x.mul? y = some z) :
    z.IsFinite := by
  obtain ⟨num, den, hmul, hden, -⟩ := mul?_eq x y
  exact Binary64.isFinite_of_ofRatio? hden (hmul ▸ h)

theorem isFinite_of_div?
    (h : x.div? y = some z) :
    z.IsFinite := by
  have hzero : y.isZero = false := by
    refine Bool.eq_false_iff.mpr fun hzero => ?_
    simp [Binary64.div?, hzero] at h
  have hy : 0 < y.magnitude := by
    rw [Binary64.isZero, beq_eq_false_iff_ne] at hzero
    have : (0 : ℚ) < y.significand := by exact_mod_cast Nat.pos_of_ne_zero hzero
    exact mul_pos this (zpow_pos two_pos _)
  obtain ⟨num, den, hdiv, hden, -⟩ := div?_eq x hy
  exact Binary64.isFinite_of_ofRatio? hden (hdiv ▸ h)

/-- A positive natural number below the overflow is rounded to a number that is not far from it. -/
theorem ofNat?_eq_some
    {n : Nat}
    (hpos : 0 < n)
    (h : n < overflow) :
    ∃ y : Binary64, Binary64.ofNat? n = some y ∧ y.magnitude ≤ n * (1 + 1 / 2 ^ 53) ∧
      (n : ℚ) ≤ 2 * y.magnitude := by
  have hquotient : ((n : Nat) / (1 : Nat) : ℚ) = n := by rw [Nat.cast_one, div_one]
  have hone : (1 : ℚ) ≤ (n : Nat) / (1 : Nat) := by
    rw [hquotient]
    exact Nat.one_le_cast.mpr hpos
  have hsmall : ((n : Nat) / (1 : Nat) : ℚ) < overflow := by
    rw [hquotient]
    exact Nat.cast_lt.mpr h
  obtain ⟨y, hy⟩ := Option.isSome_iff_exists.mp (isSome_ofRatio? false Nat.one_pos hsmall)
  have hlow := Binary64.le_two_mul_magnitude Nat.one_pos hone hy
  have hhigh := Binary64.magnitude_le_relative Nat.one_pos hone hy
  rw [hquotient] at hlow hhigh
  exact ⟨y, hy, hhigh, hlow⟩

theorem pow_lt_overflow :
    ∀ places : Nat, places < 309 → Nat.pow 10 places < overflow := by
  decide +kernel

/-- A power of ten with at most 308 places is rounded to a number that is not far from it. -/
theorem ofNat?_pow
    {places : Nat}
    (h : places ≤ 308) :
    ∃ y : Binary64, Binary64.ofNat? (Nat.pow 10 places) = some y ∧
      y.magnitude ≤ 10 ^ places * (1 + 1 / 2 ^ 53) ∧ (10 ^ places : ℚ) ≤ 2 * y.magnitude := by
  have hcast : ((Nat.pow 10 places : Nat) : ℚ) = 10 ^ places := by
    rw [Nat.pow_eq, Nat.cast_pow, Nat.cast_ofNat]
  rw [← hcast]
  exact ofNat?_eq_some (Nat.pow_pos (by decide)) (pow_lt_overflow places (Nat.lt_succ_of_le h))

end Arithmetic

/-! ## Powers of ten -/

theorem isFinite_of_scaleDown
    {x y : Binary64}
    {places : Nat}
    (hx : x.IsFinite)
    (h : scaleDown x places = some y) :
    y.IsFinite := by
  fun_induction scaleDown x places with
  | case1 x places hfew =>
      obtain ⟨z, -, hdiv⟩ := Option.bind_eq_some_iff.mp h
      exact isFinite_of_div? hdiv
  | case2 x places hmany hzero =>
      cases h
      exact hx
  | case3 x places hmany hzero ih =>
      generalize Binary64.ofNat? (Nat.pow 10 308) = power at h
      simp only [bind, Option.bind_eq_some_iff] at h
      obtain ⟨divisor, -, z, hdiv, hrest⟩ := h
      exact ih z (isFinite_of_div? hdiv) hrest

theorem isFinite_of_scaleUp
    {x y : Binary64}
    {places : Nat}
    (hx : x.IsFinite)
    (h : scaleUp x places = some y) :
    y.IsFinite := by
  unfold scaleUp at h
  split at h
  · obtain ⟨z, -, hmul⟩ := Option.bind_eq_some_iff.mp h
    exact isFinite_of_mul? hmul
  split at h
  · cases h
    exact hx
  · cases h

/-- A number that is not too great can be divided by any power of ten. -/
theorem isSome_scaleDown
    {x : Binary64}
    (places : Nat)
    (hx : 2 * x.magnitude < overflow) :
    (scaleDown x places).isSome = true := by
  fun_induction scaleDown x places with
  | case1 x places hfew =>
      obtain ⟨y, hy, -, hhalf⟩ := ofNat?_pow hfew
      have hone : (1 : ℚ) ≤ 10 ^ places := one_le_pow₀ (by norm_num)
      obtain ⟨num, den, hdiv, hden, hquotient⟩ := div?_eq x (y := y) (by linarith)
      have hless : x.magnitude / y.magnitude < overflow := by
        refine lt_of_le_of_lt ?_ hx
        rw [div_le_iff₀ (by linarith)]
        have := mul_le_mul_of_nonneg_left (hone.trans hhalf) x.magnitude_nonneg
        linarith
      rw [hy]
      simp only [bind, Option.bind, hdiv]
      exact isSome_ofRatio? _ hden (hquotient ▸ hless)
  | case2 x places hmany hzero =>
      rfl
  | case3 x places hmany hzero ih =>
      generalize hlimit : 308 = limit at *
      obtain ⟨y, hy, -, hhalf⟩ := ofNat?_pow hlimit.ge
      have hten : (10 : ℚ) ≤ 10 ^ limit := le_self_pow₀ (by norm_num) (by omega)
      have hlarge : 2 ≤ y.magnitude := by linarith
      obtain ⟨num, den, hdiv, hden, hquotient⟩ := div?_eq x (y := y) (by linarith)
      have hhalved : x.magnitude / y.magnitude ≤ x.magnitude / 2 :=
        div_le_div_of_nonneg_left x.magnitude_nonneg two_pos hlarge
      have hnonneg := x.magnitude_nonneg
      have hless : x.magnitude / y.magnitude < overflow := by linarith
      obtain ⟨z, hz⟩ := Option.isSome_iff_exists.mp
        (isSome_ofRatio? (x.negative != y.negative) hden (hquotient ▸ hless))
      have hsmaller := Binary64.magnitude_le_two_mul hden hz
      rw [hquotient] at hsmaller
      rw [hy]
      simp only [bind, Option.bind, hdiv, hz]
      exact ih z (by linarith)

/-! ## Gathering digits -/

section Gather

variable {start : Nat} {digits : List Nat}

/-- One more digit in front moves over to what has been gathered. -/
theorem gather_cons
    (start digit : Nat)
    (rest : List Nat) :
    start * 10 ^ (digit :: rest).length + valueOf (digit :: rest)
      = (start * 10 + digit) * 10 ^ rest.length + valueOf rest := by
  rw [Decimal.valueOf_cons, List.length_cons]
  ring

/-- What is gathered on the way is not greater than what is gathered in the end. -/
theorem gather_le
    (start : Nat)
    (digits : List Nat) :
    start ≤ start * 10 ^ digits.length + valueOf digits :=
  (Nat.le_mul_of_pos_right start (Nat.pow_pos (by decide))).trans (Nat.le_add_right _ _)

theorem foldl_addWhole
    (power : Int)
    (h : start * 10 ^ digits.length + valueOf digits < 18446744073709551616) :
    digits.foldl Gathered.addWhole ⟨start, power, false⟩
      = ⟨start * 10 ^ digits.length + valueOf digits, power, false⟩ := by
  induction digits generalizing start with
  | nil => simp [valueOf]
  | cons digit rest ih =>
      rw [gather_cons] at h ⊢
      have hfits := lt_of_le_of_lt (gather_le (start * 10 + digit) rest) h
      have hstep :
          Gathered.addWhole ⟨start, power, false⟩ digit = ⟨start * 10 + digit, power, false⟩ := by
        simp [Gathered.addWhole, hfits]
      rw [List.foldl_cons, hstep, ih h]

theorem foldl_addFraction
    (power : Int)
    (h : start * 10 ^ digits.length + valueOf digits < 18446744073709551616) :
    digits.foldl Gathered.addFraction ⟨start, power, false⟩
      = ⟨start * 10 ^ digits.length + valueOf digits, power - digits.length, false⟩ := by
  induction digits generalizing start power with
  | nil => simp [valueOf]
  | cons digit rest ih =>
      rw [gather_cons] at h ⊢
      have hfits := lt_of_le_of_lt (gather_le (start * 10 + digit) rest) h
      have hstep :
          Gathered.addFraction ⟨start, power, false⟩ digit
            = ⟨start * 10 + digit, power - 1, false⟩ := by
        simp [Gathered.addFraction, hfits]
      have hpower : power - 1 - (rest.length : Int) = power - ((digit :: rest).length : Nat) := by
        rw [List.length_cons]
        omega
      rw [List.foldl_cons, hstep, ih _ h, hpower]

end Gather

/-- Digits that fit into the significand are all gathered. -/
theorem gathered_eq
    (n : Numeral)
    (h : valueOf (n.whole ++ n.fraction.getD []) < 18446744073709551616) :
    n.gathered.significand = valueOf (n.whole ++ n.fraction.getD []) ∧
      n.gathered.power = n.exponent.getD 0 - (n.fraction.getD []).length := by
  rw [Decimal.valueOf_append] at h ⊢
  have hwhole : n.wholeDigits = ⟨valueOf n.whole, 0, false⟩ := by
    have hfits := lt_of_le_of_lt (gather_le (valueOf n.whole) (n.fraction.getD [])) h
    rw [wholeDigits, foldl_addWhole 0 (by omega), Nat.zero_mul, Nat.zero_add]
  rw [gathered, hwhole]
  simp only [foldl_addFraction 0 h, true_and]
  omega

/-- A number without a fraction that is written without an exponent has few enough digits, with a zero
after its point. -/
theorem valueOf_whole_lt
    {d : Digits}
    (h : d.Proper)
    (hexponent : d.exponent < 16)
    (hwhole : d.digits.length ≤ d.exponent.toNat + 1) :
    valueOf (d.digits ++ List.replicate (d.exponent.toNat + 1 - d.digits.length) 0 ++ [0])
      < 10 ^ 17 := by
  have hdigits :
      ∀ digit ∈ d.digits ++ List.replicate (d.exponent.toNat + 1 - d.digits.length) 0 ++ [0],
        digit < 10 := by
    simp only [List.mem_append, List.mem_replicate, List.mem_singleton]
    rintro digit ((hown | ⟨-, rfl⟩) | rfl)
    · exact h.lt_ten digit hown
    · decide
    · decide
  refine lt_of_lt_of_le (Decimal.valueOf_lt hdigits) (Nat.pow_le_pow_right (by decide) ?_)
  simp only [List.length_append, List.length_replicate, List.length_singleton]
  omega

/-- The digits of a number are gathered as a significand below `10 ^ 17`, with a negative power of
ten unless they are written with an exponent. -/
theorem gathered_ofDigits
    (negative : Bool)
    {d : Digits}
    (h : d.Proper) :
    let g := (ofDigits numberLayout negative d).gathered
    g.significand < 10 ^ 17 ∧
      (g.power < 0 ∨ g.significand = valueOf d.digits ∧ g.power = d.power) := by
  have hvalue : valueOf d.digits < 10 ^ 17 :=
    lt_of_lt_of_le (Decimal.valueOf_lt h.lt_ten) (Nat.pow_le_pow_right (by decide) h.length_le)
  have hlength : 0 < d.digits.length := List.length_pos_of_ne_nil h.nonempty
  -- it is enough to find all digits of the numeral and its power of ten
  suffices hsuffices :
      let n := ofDigits numberLayout negative d
      valueOf (n.whole ++ n.fraction.getD []) < 10 ^ 17 ∧
        (n.exponent.getD 0 - ((n.fraction.getD []).length : Int) < 0 ∨
          valueOf (n.whole ++ n.fraction.getD []) = valueOf d.digits ∧
            n.exponent.getD 0 - ((n.fraction.getD []).length : Int) = d.power) by
    obtain ⟨hsmall, hpower⟩ := hsuffices
    obtain ⟨hsignificand, hexponent⟩ :=
      gathered_eq (ofDigits numberLayout negative d) (hsmall.trans (by decide))
    simp only [hsignificand, hexponent]
    exact ⟨hsmall, hpower⟩
  unfold ofDigits
  simp only
  split
  · rename_i hpositional
    split
    · rw [Option.getD_some, List.singleton_append, Decimal.valueOf_cons, Decimal.valueOf_append,
        Decimal.valueOf_replicate_zero]
      refine ⟨by omega, Or.inl ?_⟩
      rw [Option.getD_none, List.length_append]
      omega
    · rw [Option.getD_some, Option.getD_none]
      by_cases hfraction : (d.digits.drop (d.exponent.toNat + 1)).isEmpty
      · have hall : d.digits.length ≤ d.exponent.toNat + 1 := by simpa using hfraction
        rw [if_pos hfraction, List.take_of_length_le hall]
        exact ⟨valueOf_whole_lt h hpositional.2 hall, Or.inl (by simp)⟩
      · have hmore : d.exponent.toNat + 1 < d.digits.length := by simpa using hfraction
        rw [if_neg hfraction, Nat.sub_eq_zero_of_le hmore.le, List.replicate_zero, List.append_nil,
          List.take_append_drop]
        refine ⟨hvalue, Or.inl ?_⟩
        rw [List.length_drop]
        omega
  · have htail : (if d.digits.tail.isEmpty then none else some d.digits.tail).getD [] = d.digits.tail := by
      split
      · rename_i hempty
        exact (List.isEmpty_iff.mp hempty).symm
      · rfl
    have hall : d.digits.take 1 ++ d.digits.tail = d.digits := by
      rw [← List.drop_one, List.take_append_drop]
    rw [htail, hall, Option.getD_some, List.length_tail, Decimal.Digits.power]
    exact ⟨hvalue, Or.inr ⟨rfl, by omega⟩⟩

/-! ## Numerals that denote a number -/

/-- Twice the half-way point below the greatest number, in halves of its last place. -/
def lastHalf : Nat :=
  (2 ^ 54 - 3) * Nat.pow 2 (Binary64.maxExponent.toNat - 1)

/-- A decimal of any number but the greatest one does not lie above the half-way point below that. -/
theorem ceiling_le_lastHalf
    {x : Binary64}
    (hx : x.IsFinite)
    (hless : ¬(x.significand = 2 ^ 53 - 1 ∧ x.exponent = Binary64.maxExponent)) :
    x.ceiling ≤ lastHalf := by
  have hcast : (lastHalf : ℚ) = (2 ^ 53 - 3 / 2) * 2 ^ Binary64.maxExponent := by
    have hfactor : ((2 ^ 54 - 3 : Nat) : ℚ) / 2 = 2 ^ 53 - 3 / 2 := by norm_num
    rw [lastHalf, Binary64.cast_halves, hfactor]
  have hpos : (0 : ℚ) < 2 ^ Binary64.maxExponent := by positivity
  have hunit : (0 : ℚ) < 2 ^ x.exponent := by positivity
  rw [hcast, Binary64.ceiling]
  rcases Int.lt_or_eq_of_le hx.exponent_le with hlow | hmax
  · have hhalf : (2 : ℚ) ^ x.exponent * 2 ≤ 2 ^ Binary64.maxExponent := by
      rw [← zpow_add_one₀ two_ne_zero]
      exact zpow_le_zpow_right₀ one_le_two hlow
    have hsignificand : (x.significand : ℚ) + 1 / 2 ≤ 2 ^ 53 := by
      have : x.significand + 1 ≤ 2 ^ 53 := hx.significand_lt
      have : (x.significand : ℚ) + 1 ≤ 2 ^ 53 := by exact_mod_cast this
      linarith
    have := mul_le_mul_of_nonneg_right hsignificand hunit.le
    linarith
  · have hsignificand : (x.significand : ℚ) + 1 / 2 ≤ 2 ^ 53 - 3 / 2 := by
      have hbits := hx.significand_lt
      have : x.significand + 2 ≤ 2 ^ 53 := by omega
      have : (x.significand : ℚ) + 2 ≤ 2 ^ 53 := by exact_mod_cast this
      linarith
    rw [hmax]
    exact mul_le_mul_of_nonneg_right hsignificand hpos.le

/-- A decimal up to which both roundings, of the digits and of the power of ten, do no harm. -/
def ample : Nat :=
  1797693134862315 * Nat.pow 10 293

theorem ample_lt_overflow :
    (ample : ℚ) * (1 + 1 / 2 ^ 53) * (1 + 1 / 2 ^ 53) < overflow := by
  have hnat : ample * (2 ^ 53 + 1) * (2 ^ 53 + 1) < overflow * (2 ^ 53 * 2 ^ 53) := by
    decide +kernel
  generalize ample = least at *
  generalize overflow = greatest at *
  have hcast : (least : ℚ) * (2 ^ 53 + 1) * (2 ^ 53 + 1) < greatest * (2 ^ 53 * 2 ^ 53) := by
    exact_mod_cast hnat
  linarith

theorem isSome_scaleUp_of_ample
    {significand places : Nat}
    (hpos : 0 < significand)
    (hsmall : significand < 10 ^ 17)
    (hplaces : places ≤ 308)
    (h : significand * Nat.pow 10 places ≤ ample) :
    ((Binary64.ofNat? significand).bind fun start => scaleUp start places).isSome = true := by
  have hfits : significand < overflow := hsmall.trans (pow_lt_overflow 17 (by decide))
  obtain ⟨x, hx, hxle, -⟩ := ofNat?_eq_some hpos hfits
  obtain ⟨y, hy, hyle, -⟩ := ofNat?_pow hplaces
  obtain ⟨num, den, hmul, hden, hproduct⟩ := mul?_eq x y
  have hless : (num / den : ℚ) < overflow := by
    refine lt_of_le_of_lt ?_ ample_lt_overflow
    have hle : (significand : ℚ) * 10 ^ places ≤ ample := by
      have : ((significand * Nat.pow 10 places : Nat) : ℚ) ≤ (ample : Nat) := Nat.cast_le.mpr h
      rw [Nat.cast_mul, Nat.pow_eq, Nat.cast_pow, Nat.cast_ofNat] at this
      exact this
    generalize ample = least at *
    calc (num / den : ℚ)
        = x.magnitude * y.magnitude := hproduct
      _ ≤ significand * (1 + 1 / 2 ^ 53) * (10 ^ places * (1 + 1 / 2 ^ 53)) :=
          mul_le_mul hxle hyle y.magnitude_nonneg (by positivity)
      _ = significand * 10 ^ places * ((1 + 1 / 2 ^ 53) * (1 + 1 / 2 ^ 53)) := by ring
      _ ≤ least * ((1 + 1 / 2 ^ 53) * (1 + 1 / 2 ^ 53)) := by gcongr
      _ = least * (1 + 1 / 2 ^ 53) * (1 + 1 / 2 ^ 53) := by ring
  rw [hx, Option.bind_some, scaleUp, if_pos hplaces, hy]
  simp only [bind, Option.bind, hmul]
  exact isSome_ofRatio? _ hden hless

/-- The few digits that denote more than `ample`, but not more than the half-way point. -/
theorem isSome_scaleUp_border :
    ∀ more : Nat, more < 6 →
      ((Binary64.ofNat? (17976931348623151 + more)).bind fun start =>
        scaleUp start 292).isSome = true := by
  decide +kernel

/-- Digits that denote nothing above the half-way point below the greatest number denote a number. -/
theorem isSome_scaleUp
    {significand places : Nat}
    (hpos : 0 < significand)
    (hsmall : significand < 10 ^ 17)
    (h : significand * Nat.pow 10 places ≤ lastHalf) :
    ((Binary64.ofNat? significand).bind fun start => scaleUp start places).isSome = true := by
  have hplaces : places ≤ 308 := by
    obtain ⟨most, hmost, hlast⟩ : ∃ most, most = 309 ∧ lastHalf < Nat.pow 10 most :=
      ⟨309, rfl, by decide +kernel⟩
    have hpower : Nat.pow 10 places < Nat.pow 10 most :=
      lt_of_le_of_lt (Nat.le_mul_of_pos_left _ hpos) (lt_of_le_of_lt h hlast)
    have hless : places < most := (Nat.pow_lt_pow_iff_right (by decide)).mp hpower
    omega
  rcases Nat.lt_trichotomy places 292 with hfew | hborder | hmany
  · obtain ⟨most, hmost, hample⟩ : ∃ most, most = 291 ∧ 10 ^ 17 * Nat.pow 10 most ≤ ample :=
      ⟨291, rfl, by decide +kernel⟩
    refine isSome_scaleUp_of_ample hpos hsmall hplaces (le_trans ?_ hample)
    exact Nat.mul_le_mul hsmall.le (Nat.pow_le_pow_right (by decide) (by omega))
  · obtain ⟨most, hmost, hlast, hample⟩ :
        ∃ most, most = 292 ∧ lastHalf < 17976931348623157 * Nat.pow 10 most ∧
          17976931348623150 * Nat.pow 10 most ≤ ample :=
      ⟨292, rfl, by decide +kernel⟩
    obtain rfl : places = most := hborder.trans hmost.symm
    have hlimit : significand < 17976931348623157 := by
      exact Nat.lt_of_mul_lt_mul_right (lt_of_le_of_lt h hlast)
    rcases Nat.lt_or_ge 17976931348623150 significand with hgreat | hless
    · obtain ⟨more, rfl⟩ := Nat.exists_eq_add_of_le hgreat
      rw [hborder]
      exact isSome_scaleUp_border more (by omega)
    · refine isSome_scaleUp_of_ample hpos hsmall hplaces ?_
      exact (Nat.mul_le_mul_right _ hless).trans hample
  · refine isSome_scaleUp_of_ample hpos hsmall hplaces ?_
    -- only whole multiples of `10 ^ 293` are left, and `ample` is the last one that is low enough
    obtain ⟨step, hstep, hlast, hample⟩ :
        ∃ step, step = 293 ∧ lastHalf < 1797693134862316 * Nat.pow 10 step ∧
          ample = 1797693134862315 * Nat.pow 10 step :=
      ⟨293, rfl, by decide +kernel, by decide +kernel⟩
    obtain ⟨more, rfl⟩ : ∃ more, places = more + step := ⟨places - step, by omega⟩
    have hsplit :
        significand * Nat.pow 10 (more + step)
          = significand * Nat.pow 10 more * Nat.pow 10 step := by
      rw [Nat.mul_assoc, Nat.pow_eq, Nat.pow_add, Nat.pow_eq, Nat.pow_eq]
    rw [hsplit] at h ⊢
    have hmost : significand * Nat.pow 10 more < 1797693134862316 := by
      exact Nat.lt_of_mul_lt_mul_right (lt_of_le_of_lt h hlast)
    rw [hample]
    exact Nat.mul_le_mul_right _ (Nat.le_of_lt_succ hmost)

/-- A numeral denotes a number as soon as its digits can be moved to their place. -/
theorem isSome_real?
    {n : Numeral}
    {start x : Binary64}
    (hstart : Binary64.ofNat? n.gathered.significand = some start)
    (hmoved : (if n.gathered.power < 0 then scaleDown start (-n.gathered.power).toNat
      else scaleUp start n.gathered.power.toNat) = some x) :
    n.real?.isSome = true := by
  rw [real?]
  simp only [bind, Option.bind, hstart]
  split at hmoved
  · rename_i hpower
    rw [if_pos hpower, hmoved]
    rfl
  · rename_i hpower
    rw [if_neg hpower, hmoved]
    rfl

theorem isSome_real?_of_neg
    {n : Numeral}
    (hsmall : n.gathered.significand < 10 ^ 17)
    (hpower : n.gathered.power < 0) :
    n.real?.isSome = true := by
  have hquotient : ((n.gathered.significand : Nat) / (1 : Nat) : ℚ) = n.gathered.significand := by
    rw [Nat.cast_one, div_one]
  have hfits : 4 * 10 ^ 17 < overflow := by decide +kernel
  have hlow : (4 * n.gathered.significand : ℚ) < overflow := by
    exact_mod_cast (Nat.mul_lt_mul_of_pos_left hsmall (by decide)).trans hfits
  have hnonneg : (0 : ℚ) ≤ n.gathered.significand := Nat.cast_nonneg _
  have hless : ((n.gathered.significand : Nat) / (1 : Nat) : ℚ) < overflow := by
    rw [hquotient]
    linarith
  obtain ⟨start, hstart⟩ := Option.isSome_iff_exists.mp (isSome_ofRatio? false Nat.one_pos hless)
  have hdouble := Binary64.magnitude_le_two_mul Nat.one_pos hstart
  rw [hquotient] at hdouble
  obtain ⟨x, hx⟩ := Option.isSome_iff_exists.mp
    (isSome_scaleDown (-n.gathered.power).toNat (x := start) (by linarith))
  exact isSome_real? hstart (by rw [if_pos hpower, hx])

theorem isSome_real?_of_nonneg
    {n : Numeral}
    (hpos : 0 < n.gathered.significand)
    (hsmall : n.gathered.significand < 10 ^ 17)
    (hpower : 0 ≤ n.gathered.power)
    (h : n.gathered.significand * Nat.pow 10 n.gathered.power.toNat ≤ lastHalf) :
    n.real?.isSome = true := by
  obtain ⟨x, hx⟩ := Option.isSome_iff_exists.mp (isSome_scaleUp hpos hsmall h)
  obtain ⟨start, hstart, hmoved⟩ := Option.bind_eq_some_iff.mp hx
  exact isSome_real? hstart (by rw [if_neg (by omega), hmoved])

/-- Only numbers of the format are read. -/
theorem isFinite_of_real?
    {n : Numeral}
    {x : Binary64}
    (h : n.real? = some x) :
    x.IsFinite := by
  have hneg : ∀ y : Binary64, y.IsFinite → (if n.negative then y.neg else y).IsFinite := by
    intro y hy
    split
    · exact ⟨hy.significand_lt, hy.exponent_le⟩
    · exact hy
  rw [real?] at h
  obtain ⟨start, hstart, hmoved⟩ := Option.bind_eq_some_iff.mp h
  have hfinite := Binary64.isFinite_of_ofRatio? Nat.one_pos hstart
  simp only at hmoved
  split at hmoved
  · obtain ⟨y, hy, hx⟩ := Option.bind_eq_some_iff.mp hmoved
    exact Option.some.inj hx ▸ hneg y (isFinite_of_scaleDown hfinite hy)
  · obtain ⟨y, hy, hx⟩ := Option.bind_eq_some_iff.mp hmoved
    exact Option.some.inj hx ▸ hneg y (isFinite_of_scaleUp hfinite hy)

end Numeral

/-! ## Reading a written number again -/

/-- The greatest number, of either sign, is read from its digits. -/
theorem isSome_real?_greatest :
    ∀ negative : Bool,
      (Number.real ⟨negative, 2 ^ 53 - 1, Binary64.maxExponent⟩).numeral.real?.isSome = true := by
  decide +kernel

/-- The numeral of a number denotes a number. -/
theorem isSome_real?_numeral
    {x : Binary64}
    (hx : x.IsFinite) :
    (Number.real x).numeral.real?.isSome = true := by
  by_cases hgreatest : x.significand = 2 ^ 53 - 1 ∧ x.exponent = Binary64.maxExponent
  · obtain ⟨negative, significand, exponent⟩ := x
    obtain ⟨rfl, rfl⟩ := hgreatest
    exact isSome_real?_greatest negative
  rcases x.written_cases with hzero | ⟨hproper, hvalue⟩
  · have hnumeral : (Number.real x).numeral = ⟨x.negative, [0], some [0], none⟩ := by
      rw [Number.numeral, hzero]
      rfl
    rw [hnumeral]
    exact Numeral.isSome_real?_of_neg (show 0 < 10 ^ 17 by decide) (show (-1 : Int) < 0 by decide)
  · obtain ⟨hsmall, hneg | ⟨hsignificand, hpower⟩⟩ :=
      Numeral.gathered_ofDigits x.negative hproper
    · exact Numeral.isSome_real?_of_neg hsmall hneg
    rcases Int.lt_or_le (Numeral.ofDigits numberLayout x.negative x.written).gathered.power 0
      with hneg | hnonneg
    · exact Numeral.isSome_real?_of_neg hsmall hneg
    have hpos : 0 < valueOf x.written.digits := by
      obtain ⟨first, rest, hdigits⟩ := List.exists_cons_of_ne_nil hproper.nonempty
      have hfirst : first ≠ 0 := by simpa [hdigits] using hproper.leading
      rw [hdigits, Decimal.valueOf_cons]
      exact Nat.add_pos_left (Nat.mul_pos (Nat.pos_of_ne_zero hfirst) (Nat.pow_pos (by decide))) _
    refine Numeral.isSome_real?_of_nonneg (hsignificand ▸ hpos) hsmall hnonneg ?_
    have hle := hvalue.trans (Numeral.ceiling_le_lastHalf hx hgreatest)
    obtain ⟨places, hplaces⟩ : ∃ places : ℕ, x.written.power = places :=
      ⟨x.written.power.toNat, by omega⟩
    change (Numeral.ofDigits numberLayout x.negative x.written).gathered.significand *
      Nat.pow 10 (Numeral.ofDigits numberLayout x.negative x.written).gathered.power.toNat ≤ _
    rw [Decimal.Digits.value, hplaces, zpow_natCast] at hle
    rw [hsignificand, hpower, hplaces, Int.toNat_natCast, Nat.pow_eq]
    generalize Numeral.lastHalf = last at *
    exact_mod_cast hle

namespace Number

/-- A number that a text can denote: an integer, or a finite binary64 number. -/
def IsFinite : Number → Prop
  | .integer _ => True
  | .real x => x.IsFinite

/-- The number that the text of a number denotes. -/
def reread (n : Number) : Number :=
  n.numeral.number?.getD n

theorem number?_numeral_integer
    (n : Integer64) :
    (Number.integer n).numeral.number? = some (.integer n) := by
  have hlower := n.lower
  have hupper := n.upper
  have hmagnitude :
      (Decimal.digitsOf n.value.natAbs).foldl (fun value digit => value * 10 + digit) 0
        = n.value.natAbs :=
    Decimal.valueOf_digitsOf n.value.natAbs
  have hinteger : (Number.integer n).numeral.integer? = some n := by
    simp only [numeral, Numeral.integer?, hmagnitude, Option.isSome_none, Bool.or_self,
      Bool.false_eq_true, if_false, decide_eq_true_eq]
    split
    · rename_i hnegative
      rw [if_neg (by omega)]
      have hvalue : -(n.value.natAbs : Int) = n.value := by omega
      rw [hvalue, Integer64.ofInt?_value]
    · rename_i hnonneg
      have hvalue : (n.value.natAbs : Int) = n.value := by omega
      rw [hvalue, Integer64.ofInt?_value]
  rw [Numeral.number?, hinteger]

/-- An integer is read again. -/
@[simp]
theorem reread_integer
    (n : Integer64) :
    (Number.integer n).reread = .integer n := by
  rw [reread, number?_numeral_integer, Option.getD_some]

/-- A binary64 number is not written as an integer. -/
theorem integer?_numeral_real
    (x : Binary64) :
    (Number.real x).numeral.integer? = none := by
  refine if_pos ?_
  unfold numeral Numeral.ofDigits
  simp only
  split
  · split
    · rfl
    · rfl
  · exact Bool.or_true _

/-- Every number is written so that some number can be read. -/
theorem number?_numeral
    {n : Number}
    (h : n.IsFinite) :
    n.numeral.number? = some n.reread := by
  cases n with
  | integer n =>
      rw [number?_numeral_integer, reread_integer]
  | real x =>
      obtain ⟨y, hy⟩ := Option.isSome_iff_exists.mp (isSome_real?_numeral h)
      rw [reread, Numeral.number?, integer?_numeral_real, hy]
      rfl

theorem isFinite_of_number?
    {numeral : Numeral}
    {n : Number}
    (h : numeral.number? = some n) :
    n.IsFinite := by
  unfold Numeral.number? at h
  split at h
  · cases h
    trivial
  · obtain ⟨x, hx, rfl⟩ := Option.map_eq_some_iff.mp h
    exact Numeral.isFinite_of_real? hx

theorem IsFinite.reread
    {n : Number}
    (h : n.IsFinite) :
    n.reread.IsFinite :=
  isFinite_of_number? (number?_numeral h)

/-- A number that is written as an integer of one of the two 64-bit ranges. The zero with a minus sign
is one of them, although it is read as a binary64 number. -/
inductive IsIntegral : Number → Prop where
  | integer (i : Integer64) : IsIntegral (.integer i)
  | minusZero : IsIntegral (.real (.zero true))

theorem IsIntegral.isFinite
    {n : Number}
    (h : n.IsIntegral) :
    n.IsFinite := by
  cases h with
  | integer i => trivial
  | minusZero => exact ⟨by decide, by decide⟩

/-- What is written as an integer is read as it is. -/
theorem IsIntegral.reread
    {n : Number}
    (h : n.IsIntegral) :
    n.reread = n := by
  cases h with
  | integer i => exact reread_integer i
  | minusZero => decide +kernel

end Number
end Json
end LifecycleTelemetry
