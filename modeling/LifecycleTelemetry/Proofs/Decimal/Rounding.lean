import LifecycleTelemetry.Decimal.Binary64
import Mathlib.Algebra.Order.Field.Power
import Mathlib.Algebra.Order.Floor.Semiring
import Mathlib.Tactic.FieldSimp
import Mathlib.Tactic.Linarith
import Mathlib.Tactic.NormNum
import Mathlib.Tactic.Positivity

/-!
# How far rounding goes

A quotient that is rounded is changed by at most half a unit of the last place of the significand.
What follows from it is all that a reader of numbers depends on: a quotient below the middle between
the greatest number and the next power of two can be represented, the representation is at most twice
the quotient, and from one on it is greater by less than one part in `2 ^ 53`.
-/

namespace LifecycleTelemetry
namespace Decimal
namespace Binary64

/-- The exact value without its sign. -/
def magnitude (x : Binary64) : ℚ :=
  x.significand * 2 ^ x.exponent

/-- A number that the format has: neither the significand nor the exponent is too great. -/
structure IsFinite (x : Binary64) : Prop where
  significand_lt : x.significand < 2 ^ 53
  exponent_le : x.exponent ≤ maxExponent

/-- The least quotient that is too great to be rounded to a number. -/
def overflow : Nat :=
  (2 ^ 54 - 1) * Nat.pow 2 (maxExponent.toNat - 1)

/-- A number of halves of the unit in which the greatest numbers are counted. -/
theorem cast_halves
    (halves : Nat) :
    ((halves * Nat.pow 2 (maxExponent.toNat - 1) : Nat) : ℚ) = halves / 2 * 2 ^ maxExponent := by
  have hunit : (2 : ℚ) ^ maxExponent = 2 ^ (maxExponent.toNat - 1) * 2 := by
    have hexponent : maxExponent = ((maxExponent.toNat - 1 + 1 : Nat) : ℤ) := by decide
    rw [← pow_succ, ← zpow_natCast, ← hexponent]
  rw [hunit]
  generalize maxExponent.toNat - 1 = places
  rw [Nat.cast_mul, Nat.pow_eq, Nat.cast_pow, Nat.cast_ofNat]
  linarith

theorem cast_overflow :
    (overflow : ℚ) = (2 ^ 53 - 1 / 2) * 2 ^ maxExponent := by
  have hfactor : ((2 ^ 54 - 1 : Nat) : ℚ) / 2 = 2 ^ 53 - 1 / 2 := by norm_num
  rw [overflow, cast_halves, hfactor]

theorem overflow_lt :
    (overflow : ℚ) < 2 ^ (maxExponent + 53) := by
  have hpos : (0 : ℚ) < 2 ^ maxExponent := by positivity
  rw [cast_overflow, zpow_add₀ two_ne_zero, mul_comm]
  exact mul_lt_mul_of_pos_left (by norm_num) hpos

theorem magnitude_nonneg
    (x : Binary64) :
    0 ≤ x.magnitude := by
  unfold magnitude
  positivity

theorem ratio_snd_pos
    (x : Binary64) :
    0 < x.ratio.2 := by
  unfold ratio
  split
  · exact Nat.pow_pos (by decide)
  · exact Nat.one_pos

theorem ratio_div
    (x : Binary64) :
    (x.ratio.1 : ℚ) / x.ratio.2 = x.magnitude := by
  unfold ratio magnitude
  split
  · obtain ⟨places, hplaces⟩ : ∃ places : ℕ, x.exponent = -(places : ℤ) :=
      ⟨(-x.exponent).toNat, by omega⟩
    rw [hplaces]
    simp [div_eq_mul_inv]
  · obtain ⟨places, hplaces⟩ : ∃ places : ℕ, x.exponent = places := ⟨x.exponent.toNat, by omega⟩
    rw [hplaces]
    simp

/-! ## The quotient of two natural numbers, rounded to one -/

section RoundQuotient

variable {num den : Nat}

theorem roundQuotient_bounds
    (num : Nat)
    (hden : 0 < den) :
    2 * (roundQuotient num den * den) ≤ 2 * num + den ∧
      roundQuotient num den * den ≤ 2 * num ∧
        (den ≤ num → num ≤ 2 * (roundQuotient num den * den)) := by
  have hdiv := Nat.div_add_mod num den
  have hmod := Nat.mod_lt num hden
  have hpos : den ≤ num → 1 ≤ num / den := fun h => (Nat.one_le_div_iff hden).mpr h
  unfold roundQuotient
  generalize num / den = quotient at *
  generalize num % den = rest at *
  have hcomm : quotient * den = den * quotient := Nat.mul_comm _ _
  have hnext : (quotient + 1) * den = den * quotient + den := by rw [Nat.add_mul, hcomm]; omega
  have hwhole : den ≤ num → den ≤ den * quotient := fun h => Nat.le_mul_of_pos_right den (hpos h)
  simp only
  split
  · rw [hnext]
    omega
  split
  · rcases Nat.mod_two_eq_zero_or_one quotient with heven | hodd
    · rw [heven, Nat.add_zero, hcomm]
      omega
    · rw [hodd, hnext]
      omega
  · rw [hcomm]
    omega

/-- Rounding adds at most a half. -/
theorem roundQuotient_le
    (num : Nat)
    (hden : 0 < den) :
    (roundQuotient num den : ℚ) ≤ num / den + 1 / 2 := by
  have hbound := (roundQuotient_bounds num hden).1
  have hcast : 2 * ((roundQuotient num den : ℚ) * den) ≤ 2 * num + den := by exact_mod_cast hbound
  have hden' : (0 : ℚ) < den := by exact_mod_cast hden
  rw [div_add_div _ _ hden'.ne' two_ne_zero, le_div_iff₀ (by positivity)]
  linarith

theorem roundQuotient_le_two_mul
    (num : Nat)
    (hden : 0 < den) :
    (roundQuotient num den : ℚ) ≤ 2 * (num / den) := by
  have hbound := (roundQuotient_bounds num hden).2.1
  have hcast : (roundQuotient num den : ℚ) * den ≤ 2 * num := by exact_mod_cast hbound
  have hden' : (0 : ℚ) < den := by exact_mod_cast hden
  rw [← mul_div_assoc, le_div_iff₀ hden']
  exact hcast

theorem le_two_mul_roundQuotient
    (hden : 0 < den)
    (h : (1 : ℚ) ≤ num / den) :
    (num / den : ℚ) ≤ 2 * roundQuotient num den := by
  have hden' : (0 : ℚ) < den := by exact_mod_cast hden
  have hle : den ≤ num := by
    rw [le_div_iff₀ hden', one_mul] at h
    exact_mod_cast h
  have hbound := (roundQuotient_bounds num hden).2.2 hle
  have hcast : (num : ℚ) ≤ 2 * (roundQuotient num den * den) := by exact_mod_cast hbound
  rw [div_le_iff₀ hden']
  linarith

end RoundQuotient

/-! ## The place of the last bit -/

section Exponent

variable {num den : Nat}

theorem scaled_snd_pos
    (num : Nat)
    (exponent : Int)
    (hden : 0 < den) :
    0 < (scaled num den exponent).2 := by
  unfold scaled
  split
  · exact hden
  · exact Nat.mul_pos hden (Nat.pow_pos (by decide))

theorem scaled_div
    (num den : Nat)
    (exponent : Int) :
    ((scaled num den exponent).1 : ℚ) / (scaled num den exponent).2
      = num / den / 2 ^ exponent := by
  unfold scaled
  split
  · obtain ⟨places, rfl⟩ : ∃ places : ℕ, exponent = -(places : ℤ) :=
      ⟨(-exponent).toNat, by omega⟩
    simp [div_eq_mul_inv, mul_right_comm]
  · obtain ⟨places, rfl⟩ : ∃ places : ℕ, exponent = places := ⟨exponent.toNat, by omega⟩
    simp [div_div]

/-- A quotient lies between the powers of two that the sizes of its terms suggest. -/
theorem log2_bounds
    (hnum : 0 < num)
    (hden : 0 < den) :
    (2 : ℚ) ^ ((Nat.log2 num : ℤ) - Nat.log2 den - 1) ≤ num / den ∧
      (num / den : ℚ) < 2 ^ ((Nat.log2 num : ℤ) - Nat.log2 den + 1) := by
  have hnum_ge : (2 : ℚ) ^ (Nat.log2 num : ℤ) ≤ num := by
    exact_mod_cast Nat.log2_self_le hnum.ne'
  have hnum_lt : (num : ℚ) < 2 ^ ((Nat.log2 num : ℤ) + 1) := by
    exact_mod_cast Nat.lt_log2_self
  have hden_ge : (2 : ℚ) ^ (Nat.log2 den : ℤ) ≤ den := by
    exact_mod_cast Nat.log2_self_le hden.ne'
  have hden_lt : (den : ℚ) < 2 ^ ((Nat.log2 den : ℤ) + 1) := by
    exact_mod_cast Nat.lt_log2_self
  have hden' : (0 : ℚ) < den := by exact_mod_cast hden
  have hpos : ∀ e : ℤ, (0 : ℚ) < 2 ^ e := fun e => by positivity
  constructor
  · rw [le_div_iff₀ hden']
    calc (2 : ℚ) ^ ((Nat.log2 num : ℤ) - Nat.log2 den - 1) * den
        ≤ 2 ^ ((Nat.log2 num : ℤ) - Nat.log2 den - 1) * 2 ^ ((Nat.log2 den : ℤ) + 1) := by
          exact mul_le_mul_of_nonneg_left hden_lt.le (hpos _).le
      _ = 2 ^ (Nat.log2 num : ℤ) := by
          rw [← zpow_add₀ two_ne_zero]
          congr 1
          omega
      _ ≤ num := hnum_ge
  · rw [div_lt_iff₀ hden']
    calc (num : ℚ) < 2 ^ ((Nat.log2 num : ℤ) + 1) := hnum_lt
      _ = 2 ^ ((Nat.log2 num : ℤ) - Nat.log2 den + 1) * 2 ^ (Nat.log2 den : ℤ) := by
          rw [← zpow_add₀ two_ne_zero]
          congr 1
          omega
      _ ≤ 2 ^ ((Nat.log2 num : ℤ) - Nat.log2 den + 1) * den := by
          exact mul_le_mul_of_nonneg_left hden_ge (hpos _).le

/-- At the exponent that is tried first, the significand has 53 bits or one less. -/
theorem guess_bounds
    (hnum : 0 < num)
    (hden : 0 < den) :
    (2 ^ 51 : ℚ) ≤ num / den / 2 ^ ((Nat.log2 num : ℤ) - Nat.log2 den - 52) ∧
      (num / den / 2 ^ ((Nat.log2 num : ℤ) - Nat.log2 den - 52) : ℚ) < 2 ^ 53 := by
  obtain ⟨hlow, hhigh⟩ := log2_bounds hnum hden
  have hpos : (0 : ℚ) < 2 ^ ((Nat.log2 num : ℤ) - Nat.log2 den - 52) := by positivity
  constructor
  · rw [le_div_iff₀ hpos]
    refine le_trans (le_of_eq ?_) hlow
    rw [← zpow_natCast, ← zpow_add₀ two_ne_zero]
    congr 1
    omega
  · rw [div_lt_iff₀ hpos]
    refine lt_of_lt_of_le hhigh (le_of_eq ?_)
    rw [← zpow_natCast, ← zpow_add₀ two_ne_zero]
    congr 1
    omega

/-- The exponent is the one at which the significand has 53 bits, or else the least one. -/
theorem exponentOf_eq_max
    (hnum : 0 < num)
    (hden : 0 < den) :
    ∃ right : Int, exponentOf num den = max minExponent right ∧
      (2 ^ 52 : ℚ) ≤ num / den / 2 ^ right ∧ (num / den / 2 ^ right : ℚ) < 2 ^ 53 := by
  obtain ⟨hlow, hhigh⟩ := guess_bounds hnum hden
  generalize hguess : (Nat.log2 num : ℤ) - Nat.log2 den - 52 = guess at hlow hhigh
  have hscaled := scaled_div num den guess
  have hsnd := scaled_snd_pos num guess hden
  have hsnd' : (0 : ℚ) < (scaled num den guess).2 := by exact_mod_cast hsnd
  by_cases hsmall :
      (scaled num den guess).1 / (scaled num den guess).2 < 4503599627370496
  · have hhalf : (num / den / 2 ^ guess : ℚ) < 2 ^ 52 := by
      rw [← hscaled, div_lt_iff₀ hsnd']
      exact_mod_cast (Nat.div_lt_iff_lt_mul hsnd).mp hsmall
    have hshift : (num / den / 2 ^ (guess - 1) : ℚ) = 2 * (num / den / 2 ^ guess) := by
      rw [zpow_sub_one₀ two_ne_zero]
      field_simp
    refine ⟨guess - 1, ?_, ?_, ?_⟩
    · simp only [exponentOf, hguess]
      rw [if_pos hsmall]
    · rw [hshift]
      linarith
    · rw [hshift]
      linarith
  · have hhalf : (2 ^ 52 : ℚ) ≤ num / den / 2 ^ guess := by
      rw [← hscaled, le_div_iff₀ hsnd']
      exact_mod_cast (Nat.le_div_iff_mul_le hsnd).mp (Nat.not_lt.mp hsmall)
    refine ⟨guess, ?_, hhalf, hhigh⟩
    simp only [exponentOf, hguess]
    rw [if_neg hsmall]

/-- The significand has 53 bits at most, and no fewer unless the exponent is the least one. -/
theorem exponentOf_spec
    (hnum : 0 < num)
    (hden : 0 < den) :
    (num / den / 2 ^ exponentOf num den : ℚ) < 2 ^ 53 ∧ minExponent ≤ exponentOf num den ∧
      (exponentOf num den = minExponent ∨
        (2 ^ 52 : ℚ) ≤ num / den / 2 ^ exponentOf num den) := by
  obtain ⟨right, hright, hlow, hhigh⟩ := exponentOf_eq_max hnum hden
  have hpos : (0 : ℚ) < 2 ^ right := by positivity
  have hquotient : (0 : ℚ) ≤ num / den := by positivity
  rw [hright]
  refine ⟨?_, le_max_left _ _, ?_⟩
  · have hmono : (2 : ℚ) ^ right ≤ 2 ^ max minExponent right :=
      zpow_le_zpow_right₀ one_le_two (le_max_right _ _)
    exact lt_of_le_of_lt (div_le_div_of_nonneg_left hquotient hpos hmono) hhigh
  · rcases le_total right minExponent with hless | hmore
    · exact Or.inl (max_eq_left hless)
    · rw [max_eq_right hmore]
      exact Or.inr hlow

end Exponent

/-! ## Numbers -/

section OfRatio

variable {negative : Bool} {num den : Nat} {x y z : Binary64}

/-- A number that a quotient has been rounded to is the rounded significand at its place. -/
theorem ofRatio?_eq_some
    (hnum : 0 < num)
    (hden : 0 < den)
    (h : ofRatio? negative num den = some x) :
    x.IsFinite ∧ ∃ rounded : Nat,
      x.magnitude = rounded * 2 ^ exponentOf num den ∧
        rounded = roundQuotient (scaled num den (exponentOf num den)).1
          (scaled num den (exponentOf num den)).2 := by
  obtain ⟨hhigh, -, -⟩ := exponentOf_spec hnum hden
  have hsnd := scaled_snd_pos num (exponentOf num den) hden
  have hround := roundQuotient_le (scaled num den (exponentOf num den)).1 hsnd
  rw [scaled_div] at hround
  simp only [ofRatio?, if_neg hnum.ne'] at h
  generalize roundQuotient _ _ = rounded at *
  have hle : rounded ≤ 2 ^ 53 := by
    have : (rounded : ℚ) < 2 ^ 53 + 1 := by linarith
    have hlt : rounded < 2 ^ 53 + 1 := by exact_mod_cast this
    omega
  by_cases hcarry : rounded = Nat.pow 2 precision
  · simp only [if_pos hcarry] at h
    split at h
    · cases h
    rename_i hfits
    cases h
    refine ⟨⟨?_, Int.not_lt.mp hfits⟩, rounded, ?_, rfl⟩
    · show 2 ^ 52 < 2 ^ 53
      decide
    · have hbits : ((Nat.pow 2 precision : Nat) : ℚ) = 2 * (Nat.pow 2 (precision - 1) : Nat) := by
        norm_num [precision]
      rw [hcarry, hbits, magnitude, zpow_add_one₀ two_ne_zero]
      linarith
  · rw [if_neg hcarry] at h
    split at h
    · cases h
    rename_i hfits
    cases h
    have hlt : rounded < 2 ^ 53 := lt_of_le_of_ne hle hcarry
    exact ⟨⟨hlt, Int.not_lt.mp hfits⟩, rounded, rfl, rfl⟩

theorem ofRatio?_zero
    (negative : Bool)
    (den : Nat) :
    ofRatio? negative 0 den = some (zero negative) :=
  if_pos rfl

theorem isFinite_zero
    (negative : Bool) :
    (zero negative).IsFinite :=
  ⟨show 0 < 2 ^ 53 by decide, show minExponent ≤ maxExponent by decide⟩

theorem magnitude_zero
    (negative : Bool) :
    (zero negative).magnitude = 0 := by
  simp [zero, magnitude]

theorem isFinite_of_ofRatio?
    (hden : 0 < den)
    (h : ofRatio? negative num den = some x) :
    x.IsFinite := by
  rcases Nat.eq_zero_or_pos num with rfl | hnum
  · rw [ofRatio?_zero] at h
    cases h
    exact isFinite_zero negative
  · exact (ofRatio?_eq_some hnum hden h).1

/-- Rounding at most doubles a quotient. -/
theorem magnitude_le_two_mul
    (hden : 0 < den)
    (h : ofRatio? negative num den = some x) :
    x.magnitude ≤ 2 * (num / den) := by
  rcases Nat.eq_zero_or_pos num with rfl | hnum
  · rw [ofRatio?_zero] at h
    cases h
    simp [magnitude_zero]
  obtain ⟨-, rounded, hx, hrounded⟩ := ofRatio?_eq_some hnum hden h
  have hsnd := scaled_snd_pos num (exponentOf num den) hden
  have hround := roundQuotient_le_two_mul (scaled num den (exponentOf num den)).1 hsnd
  have hpos : (0 : ℚ) < 2 ^ exponentOf num den := by positivity
  rw [← hrounded, scaled_div, ← mul_div_assoc, le_div_iff₀ hpos] at hround
  rw [hx]
  exact hround

/-- The units in which a quotient from one on is rounded are small. -/
theorem one_le_scaled
    (hnum : 0 < num)
    (hden : 0 < den)
    (h : (1 : ℚ) ≤ num / den) :
    (2 ^ 52 : ℚ) ≤ num / den / 2 ^ exponentOf num den := by
  obtain ⟨-, -, hleast | hbits⟩ := exponentOf_spec hnum hden
  · rw [hleast, le_div_iff₀ (by positivity)]
    refine le_trans ?_ h
    rw [← zpow_natCast, ← zpow_add₀ two_ne_zero]
    exact zpow_le_one_of_nonpos₀ one_le_two (by decide)
  · exact hbits

/-- Rounding at most halves a quotient from one on. -/
theorem le_two_mul_magnitude
    (hden : 0 < den)
    (hone : (1 : ℚ) ≤ num / den)
    (h : ofRatio? negative num den = some x) :
    (num / den : ℚ) ≤ 2 * x.magnitude := by
  have hnum : 0 < num := by
    rcases Nat.eq_zero_or_pos num with rfl | hnum
    · norm_num at hone
    · exact hnum
  obtain ⟨-, rounded, hx, hrounded⟩ := ofRatio?_eq_some hnum hden h
  have hsnd := scaled_snd_pos num (exponentOf num den) hden
  have hlarge := one_le_scaled hnum hden hone
  rw [← scaled_div] at hlarge
  have hround := le_two_mul_roundQuotient hsnd (le_trans (by norm_num) hlarge)
  have hpos : (0 : ℚ) < 2 ^ exponentOf num den := by positivity
  rw [← hrounded, scaled_div, div_le_iff₀ hpos] at hround
  rw [hx]
  linarith

/-- Rounding a quotient from one on adds less than one part in `2 ^ 53`. -/
theorem magnitude_le_relative
    (hden : 0 < den)
    (hone : (1 : ℚ) ≤ num / den)
    (h : ofRatio? negative num den = some x) :
    x.magnitude ≤ num / den * (1 + 1 / 2 ^ 53) := by
  have hnum : 0 < num := by
    rcases Nat.eq_zero_or_pos num with rfl | hnum
    · norm_num at hone
    · exact hnum
  obtain ⟨-, rounded, hx, hrounded⟩ := ofRatio?_eq_some hnum hden h
  have hsnd := scaled_snd_pos num (exponentOf num den) hden
  have hlarge := one_le_scaled hnum hden hone
  have hround := roundQuotient_le (scaled num den (exponentOf num den)).1 hsnd
  rw [← hrounded, scaled_div] at hround
  have hpos : (0 : ℚ) < 2 ^ exponentOf num den := by positivity
  have hunits : (rounded : ℚ) ≤ num / den / 2 ^ exponentOf num den * (1 + 1 / 2 ^ 53) := by
    linarith
  calc x.magnitude = rounded * 2 ^ exponentOf num den := hx
    _ ≤ num / den / 2 ^ exponentOf num den * (1 + 1 / 2 ^ 53) * 2 ^ exponentOf num den :=
        mul_le_mul_of_nonneg_right hunits hpos.le
    _ = num / den * (1 + 1 / 2 ^ 53) := by
        rw [mul_right_comm, div_mul_cancel₀ _ hpos.ne']

/-- A quotient below the overflow can be rounded. -/
theorem isSome_ofRatio?
    (negative : Bool)
    (hden : 0 < den)
    (h : (num / den : ℚ) < overflow) :
    (ofRatio? negative num den).isSome = true := by
  rcases Nat.eq_zero_or_pos num with rfl | hnum
  · rw [ofRatio?_zero]
    rfl
  obtain ⟨-, -, hbits⟩ := exponentOf_spec hnum hden
  have hsnd := scaled_snd_pos num (exponentOf num den) hden
  have hround := roundQuotient_le (scaled num den (exponentOf num den)).1 hsnd
  rw [scaled_div] at hround
  have hpos : (0 : ℚ) < 2 ^ exponentOf num den := by positivity
  have hexponent : exponentOf num den ≤ maxExponent := by
    rcases hbits with hleast | hlow
    · rw [hleast]
      decide
    · rw [le_div_iff₀ hpos] at hlow
      have hless : (2 : ℚ) ^ (52 + exponentOf num den) < 2 ^ (maxExponent + 53) := by
        rw [zpow_add₀ two_ne_zero]
        exact lt_of_le_of_lt (le_trans (le_of_eq (by norm_num)) hlow) (h.trans overflow_lt)
      have := (zpow_lt_zpow_iff_right₀ one_lt_two).mp hless
      omega
  simp only [ofRatio?, if_neg hnum.ne']
  generalize hrounded : roundQuotient _ _ = rounded at *
  by_cases hcarry : rounded = Nat.pow 2 precision
  · have hless : exponentOf num den ≠ maxExponent := by
      intro hmax
      rw [hmax, hcarry] at hround
      have hsmall : (num / den / 2 ^ maxExponent : ℚ) < 2 ^ 53 - 1 / 2 := by
        rw [div_lt_iff₀ (by positivity), ← cast_overflow]
        exact h
      have hfull : ((Nat.pow 2 precision : Nat) : ℚ) = 2 ^ 53 := by norm_num [precision]
      rw [hfull] at hround
      linarith
    simp only [if_pos hcarry]
    rw [if_neg (by omega)]
    rfl
  · simp only [if_neg hcarry]
    rw [if_neg (by omega)]
    rfl

end OfRatio

end Binary64
end Decimal
end LifecycleTelemetry
