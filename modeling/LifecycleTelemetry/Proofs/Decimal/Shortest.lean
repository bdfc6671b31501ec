import LifecycleTelemetry.Decimal.Shortest
import LifecycleTelemetry.Json.Token
import LifecycleTelemetry.Proofs.Decimal.Rounding
import Mathlib.Tactic.Ring

/-!
# The digits of a number

The digits that a number is written with are a few decimal digits, the first of them not zero, and
what they denote does not lie above the half-way point between the number and the next one. Neither
says that they are the shortest ones, nor that there are any: a number without digits would be written
as zero.
-/

namespace LifecycleTelemetry
namespace Decimal

open Json.Token (valueOf)

/-! ## Lists of digits -/

theorem foldl_digits
    (start : Nat)
    (digits : List Nat) :
    digits.foldl (fun value digit => value * 10 + digit) start
      = start * 10 ^ digits.length + valueOf digits := by
  induction digits generalizing start with
  | nil =>
      simp [valueOf]
  | cons digit rest ih =>
      have hrest : valueOf (digit :: rest) = digit * 10 ^ rest.length + valueOf rest := by
        rw [valueOf, List.foldl_cons, Nat.zero_mul, Nat.zero_add, ih]
      rw [List.foldl_cons, ih, hrest, List.length_cons]
      ring

theorem valueOf_append
    (digits more : List Nat) :
    valueOf (digits ++ more) = valueOf digits * 10 ^ more.length + valueOf more := by
  rw [valueOf, List.foldl_append, foldl_digits]
  rfl

theorem valueOf_cons
    (digit : Nat)
    (rest : List Nat) :
    valueOf (digit :: rest) = digit * 10 ^ rest.length + valueOf rest := by
  rw [← List.singleton_append, valueOf_append]
  simp [valueOf]

@[simp]
theorem valueOf_replicate_zero
    (count : Nat) :
    valueOf (List.replicate count 0) = 0 := by
  induction count with
  | zero => rfl
  | succ count ih => simp [List.replicate_succ, valueOf_cons, ih]

theorem valueOf_lt
    {digits : List Nat}
    (h : ∀ digit ∈ digits, digit < 10) :
    valueOf digits < 10 ^ digits.length := by
  induction digits with
  | nil =>
      exact Nat.one_pos
  | cons digit rest ih =>
      have hrest := ih fun d hd => h d (List.mem_cons_of_mem _ hd)
      have hdigit := h digit List.mem_cons_self
      have hle : digit * 10 ^ rest.length ≤ 9 * 10 ^ rest.length :=
        Nat.mul_le_mul_right _ (by omega)
      rw [valueOf_cons, List.length_cons, Nat.pow_succ]
      omega

/-! ## The digits of a natural number -/

theorem valueOf_digitsOf
    (n : Nat) :
    valueOf (digitsOf n) = n := by
  have hchars : Nat.ofDigitChars 10 (Nat.toDigits 10 n) 0 = n :=
    Nat.ofDigitChars_toDigits (by decide) (by decide)
  have hzero : '0'.toNat = 48 := by decide
  simp only [Nat.ofDigitChars_eq_foldl, Nat.mul_comm 10, hzero] at hchars
  rw [valueOf, digitsOf, List.foldl_map]
  exact hchars

theorem lt_ten_of_mem_digitsOf
    {n digit : Nat}
    (h : digit ∈ digitsOf n) :
    digit < 10 := by
  obtain ⟨c, hc, rfl⟩ := List.mem_map.mp h
  have hdigit : c.isDigit = true := Nat.isDigit_of_mem_toDigits (by decide) (by decide) hc
  simp only [Char.isDigit, ge_iff_le, Bool.and_eq_true, decide_eq_true_eq,
    UInt32.le_iff_toNat_le] at hdigit
  obtain ⟨hlow, hhigh⟩ : 48 ≤ c.toNat ∧ c.toNat ≤ 57 := hdigit
  omega

theorem length_digitsOf_le
    {n count : Nat}
    (hcount : 0 < count)
    (h : n < 10 ^ count) :
    (digitsOf n).length ≤ count := by
  rw [digitsOf, List.length_map]
  exact (Nat.length_toDigits_le_iff (by decide) hcount).mpr h

theorem length_digitsOf_pos
    (n : Nat) :
    0 < (digitsOf n).length := by
  rw [digitsOf, List.length_map]
  exact Nat.length_toDigits_pos

theorem lt_pow_length_digitsOf
    (n : Nat) :
    n < 10 ^ (digitsOf n).length := by
  have h := valueOf_lt fun digit hdigit => lt_ten_of_mem_digitsOf (n := n) hdigit
  rwa [valueOf_digitsOf] at h

theorem pow_length_digitsOf_le
    {n : Nat}
    (h : 0 < n) :
    10 ^ ((digitsOf n).length - 1) ≤ n := by
  rcases Nat.lt_or_ge n (10 ^ ((digitsOf n).length - 1)) with hless | hge
  · exfalso
    rcases Nat.eq_zero_or_pos ((digitsOf n).length - 1) with hone | hmore
    · rw [hone] at hless
      omega
    · have hlength := length_digitsOf_le hmore hless
      omega
  · exact hge

/-- A positive number does not start with the digit zero. -/
theorem head?_digitsOf
    {n : Nat}
    (h : 0 < n) :
    (digitsOf n).head? ≠ some 0 := by
  intro hzero
  obtain ⟨rest, hrest⟩ := List.head?_eq_some_iff.mp hzero
  have hvalue := valueOf_digitsOf n
  have hlow := pow_length_digitsOf_le h
  have hsmall : valueOf rest < 10 ^ rest.length := by
    refine valueOf_lt fun digit hdigit => lt_ten_of_mem_digitsOf (n := n) ?_
    rw [hrest]
    exact List.mem_cons_of_mem _ hdigit
  rw [hrest, valueOf_cons, Nat.zero_mul, Nat.zero_add] at hvalue
  rw [hrest, List.length_cons, Nat.add_sub_cancel] at hlow
  omega

/-! ## Digits with their place -/

namespace Digits

/-- The power of ten of the last digit. -/
def power (d : Digits) : Int :=
  d.exponent + 1 - d.digits.length

/-- The number that digits denote at their place. -/
def value (d : Digits) : ℚ :=
  valueOf d.digits * 10 ^ d.power

/-- Digits with which a number may be written: a few decimal digits, of which the first is not
zero. -/
structure Proper (d : Digits) : Prop where
  lt_ten : ∀ digit ∈ d.digits, digit < 10
  nonempty : d.digits ≠ []
  leading : d.digits.head? ≠ some 0
  length_le : d.digits.length ≤ 17

/-- Zeros at the end are left out, and nothing else. -/
theorem digitsOf_eq
    (n : Nat)
    (step : Int) :
    ∃ count : Nat, digitsOf n = (ofGrid n step).digits ++ List.replicate count 0 := by
  have hzeros :
      (digitsOf n).reverse.takeWhile (· == 0)
        = List.replicate ((digitsOf n).reverse.takeWhile (· == 0)).length 0 := by
    rw [List.eq_replicate_iff]
    exact ⟨rfl, fun digit hdigit => by
      simpa using List.all_eq_true.mp List.all_takeWhile digit hdigit⟩
  refine ⟨((digitsOf n).reverse.takeWhile (· == 0)).length, ?_⟩
  calc digitsOf n
      = ((digitsOf n).reverse.takeWhile (· == 0) ++
          (digitsOf n).reverse.dropWhile (· == 0)).reverse := by
        rw [List.takeWhile_append_dropWhile, List.reverse_reverse]
    _ = _ := by
        rw [List.reverse_append, hzeros, List.reverse_replicate, List.length_replicate]
        rfl

theorem value_ofGrid
    (n : Nat)
    (step : Int) :
    (ofGrid n step).value = n * 10 ^ step := by
  obtain ⟨count, hcount⟩ := digitsOf_eq n step
  have hlength : (digitsOf n).length = (ofGrid n step).digits.length + count := by
    rw [hcount, List.length_append, List.length_replicate]
  have hexponent : (ofGrid n step).exponent = step + (digitsOf n).length - 1 := rfl
  have hpower : (ofGrid n step).power = count + step := by
    rw [power, hexponent, hlength]
    push_cast
    omega
  have hvalue : n = valueOf (ofGrid n step).digits * 10 ^ count := by
    calc n = valueOf (digitsOf n) := (valueOf_digitsOf n).symm
      _ = _ := by
        rw [hcount, valueOf_append, valueOf_replicate_zero, List.length_replicate, Nat.add_zero]
  have hcast : (n : ℚ) = valueOf (ofGrid n step).digits * 10 ^ count := by exact_mod_cast hvalue
  rw [value, hpower, zpow_add₀ (by norm_num), zpow_natCast, hcast, mul_assoc]

theorem proper_ofGrid
    {n : Nat}
    (step : Int)
    (hpos : 0 < n)
    (hle : n ≤ 10 ^ 17) :
    (ofGrid n step).Proper := by
  obtain ⟨count, hcount⟩ := digitsOf_eq n step
  have hnonempty : (ofGrid n step).digits ≠ [] := by
    intro hnil
    have hvalue := valueOf_digitsOf n
    rw [hcount, hnil, List.nil_append, valueOf_replicate_zero] at hvalue
    omega
  refine ⟨fun digit hdigit => lt_ten_of_mem_digitsOf (n := n) ?_, hnonempty, ?_, ?_⟩
  · rw [hcount]
    exact List.mem_append_left _ hdigit
  · have hhead := head?_digitsOf hpos
    rw [hcount, List.head?_append_of_ne_nil _ hnonempty] at hhead
    exact hhead
  · rcases Nat.lt_or_eq_of_le hle with hless | hequal
    · have hlength := length_digitsOf_le (by decide) hless
      rw [hcount, List.length_append] at hlength
      omega
    · subst hequal
      have hone : (ofGrid (10 ^ 17) step).digits = [1] := by
        show ((digitsOf (10 ^ 17)).reverse.dropWhile (· == 0)).reverse = [1]
        decide
      rw [hone]
      decide

end Digits

/-- A quotient is less than the power of ten behind its first digit. -/
theorem lt_pow_leadingExponent
    {num den : Nat}
    (hnum : 0 < num)
    (hden : 0 < den) :
    (num / den : ℚ) < 10 ^ (leadingExponent num den + 1) := by
  have hnum' : (0 : ℚ) < num := by exact_mod_cast hnum
  have hden' : (0 : ℚ) < den := by exact_mod_cast hden
  unfold leadingExponent
  split
  · -- the whole part has as many digits as the power of ten has zeros
    have hlt := lt_pow_length_digitsOf (num / den)
    rw [Nat.div_lt_iff_lt_mul hden] at hlt
    have hcast : (num : ℚ) < 10 ^ (digitsOf (num / den)).length * den := by exact_mod_cast hlt
    rw [div_lt_iff₀ hden', sub_add_cancel, zpow_natCast]
    exact hcast
  · rename_i hless
    have hwhole : num * 2 ≤ den + num - 1 := by omega
    have htwo : 2 ≤ (den + num - 1) / num := (Nat.le_div_iff_mul_le hnum).mpr (by omega)
    generalize hceil : (den + num - 1) / num - 1 = ceil
    have hpos : 0 < ceil := by omega
    have hlow := pow_length_digitsOf_le hpos
    have hmul : ceil * num < den := by
      have := Nat.div_mul_le_self (den + num - 1) num
      have hsplit : (den + num - 1) / num = ceil + 1 := by omega
      rw [hsplit, Nat.add_mul] at this
      omega
    obtain ⟨places, hplaces⟩ : ∃ places, (digitsOf ceil).length = places + 1 :=
      ⟨(digitsOf ceil).length - 1, by have := length_digitsOf_pos ceil; omega⟩
    rw [hplaces, Nat.add_sub_cancel] at hlow
    have hexponent : (-((places + 1 : Nat) : ℤ)) + 1 = -(places : ℤ) := by
      push_cast
      omega
    have hprod : (10 ^ places * num : ℚ) < den := by
      exact_mod_cast lt_of_le_of_lt (Nat.mul_le_mul_right num hlow) hmul
    rw [hplaces, hexponent, zpow_neg, zpow_natCast, div_lt_iff₀ hden', ← div_eq_inv_mul,
      lt_div_iff₀ (by positivity), mul_comm]
    exact hprod

/-! ## The digits of a binary64 number -/

namespace Binary64

/-- The half-way point between a number and the next one, their signs left aside. -/
def ceiling (x : Binary64) : ℚ :=
  (x.significand + 1 / 2) * 2 ^ x.exponent

theorem halfways_eq
    {x : Binary64}
    (hx : x.isZero = false) :
    ∃ lower : Nat, 0 < lower ∧ x.halfways =
      if x.exponent < 0 then
        (lower, 4 * x.significand, 4 * x.significand + 2, 4 * Nat.pow 2 (-x.exponent).toNat)
      else
        (lower * Nat.pow 2 x.exponent.toNat, 4 * x.significand * Nat.pow 2 x.exponent.toNat,
          (4 * x.significand + 2) * Nat.pow 2 x.exponent.toNat, 4) := by
  have hpos : x.significand ≠ 0 := by simpa [isZero] using hx
  unfold halfways
  by_cases hedge : x.significand = 4503599627370496 ∧ minExponent < x.exponent
  · simp only [if_pos hedge]
    exact ⟨4 * x.significand - 1, by omega, rfl⟩
  · simp only [if_neg hedge]
    exact ⟨4 * x.significand - 2, by omega, rfl⟩

/-- The half-way points and the number itself are positive, and the upper point is the ceiling. -/
theorem halfways_spec
    {x : Binary64}
    (hx : x.isZero = false) :
    0 < x.halfways.1 ∧ 0 < x.halfways.2.1 ∧ 0 < x.halfways.2.2.2 ∧
      (x.halfways.2.2.1 : ℚ) / x.halfways.2.2.2 = x.ceiling := by
  have hpos : x.significand ≠ 0 := by simpa [isZero] using hx
  obtain ⟨lower, hlower, hends⟩ := halfways_eq hx
  have htwo : ∀ places : Nat, 0 < Nat.pow 2 places := fun places => Nat.pow_pos (by decide)
  rw [hends, ceiling]
  split
  · obtain ⟨places, hplaces⟩ : ∃ places : ℕ, x.exponent = -(places : ℤ) :=
      ⟨(-x.exponent).toNat, by omega⟩
    rw [hplaces]
    refine ⟨hlower, by simp only; omega, Nat.mul_pos (by decide) (htwo _), ?_⟩
    simp
    field_simp
    ring
  · obtain ⟨places, hplaces⟩ : ∃ places : ℕ, x.exponent = places := ⟨x.exponent.toNat, by omega⟩
    rw [hplaces]
    refine ⟨Nat.mul_pos hlower (htwo _), Nat.mul_pos (by omega) (htwo _), Nat.succ_pos 3, ?_⟩
    simp
    field_simp
    ring

/-- A decimal that rounds to a number is positive and not above the half-way point. -/
theorem le_ceiling_of_rounds
    {x : Binary64}
    {n num den : Nat}
    (hx : x.isZero = false)
    (hden : 0 < den)
    (h : x.rounds n num den = true) :
    0 < n ∧ (n * (num / den) : ℚ) ≤ x.ceiling := by
  obtain ⟨hlower, -, hunit, hceiling⟩ := halfways_spec hx
  unfold rounds at h
  generalize x.halfways = ends at *
  obtain ⟨lower, value, upper, unit⟩ := ends
  simp only at *
  obtain ⟨hlow, hhigh⟩ : lower * den ≤ n * num * unit ∧ n * num * unit ≤ upper * den := by
    split at h
    · simpa using h
    · simp only [Bool.and_eq_true, decide_eq_true_eq] at h
      exact ⟨h.1.le, h.2.le⟩
  constructor
  · refine Nat.pos_of_ne_zero ?_
    rintro rfl
    have := Nat.mul_pos hlower hden
    omega
  · have hden' : (0 : ℚ) < den := by exact_mod_cast hden
    have hunit' : (0 : ℚ) < unit := by exact_mod_cast hunit
    have hcast : (n * num * unit : ℚ) ≤ upper * den := by exact_mod_cast hhigh
    rw [← hceiling, ← mul_div_assoc, div_le_div_iff₀ hden' hunit']
    exact hcast

/-- A power of ten as a fraction. -/
theorem fraction_of_step
    (step : Int) :
    ∃ num den : Nat, (if step < 0 then (1, Nat.pow 10 (-step).toNat)
      else (Nat.pow 10 step.toNat, 1)) = (num, den) ∧ 0 < num ∧ 0 < den ∧
        (num / den : ℚ) = 10 ^ step := by
  split
  · obtain ⟨places, rfl⟩ : ∃ places : ℕ, step = -(places : ℤ) := ⟨(-step).toNat, by omega⟩
    exact ⟨_, _, rfl, Nat.one_pos, Nat.pow_pos (by decide), by simp⟩
  · obtain ⟨places, rfl⟩ : ∃ places : ℕ, step = places := ⟨step.toNat, by omega⟩
    exact ⟨_, _, rfl, Nat.pow_pos (by decide), Nat.one_pos, by simp⟩

/-- On a grid whose step leaves a count of digits, the point below a number has as many digits. -/
theorem below_lt
    {value unit num den count : Nat}
    {step : Int}
    (hvalue : 0 < value)
    (hunit : 0 < unit)
    (hnum : 0 < num)
    (hden : 0 < den)
    (hstep : leadingExponent value unit - (count : Int) + 1 = step)
    (hquotient : (num / den : ℚ) = 10 ^ step) :
    value * den / (unit * num) < 10 ^ count := by
  have hunit' : (0 : ℚ) < unit := by exact_mod_cast hunit
  have hden' : (0 : ℚ) < den := by exact_mod_cast hden
  have hless : (value / unit : ℚ) < 10 ^ count * (num / den) := by
    refine lt_of_lt_of_eq (lt_pow_leadingExponent hvalue hunit) ?_
    rw [hquotient, ← zpow_natCast, ← zpow_add₀ (by norm_num)]
    congr 1
    omega
  rw [← mul_div_assoc, div_lt_div_iff₀ hunit' hden'] at hless
  have hcast : value * den < 10 ^ count * num * unit := by exact_mod_cast hless
  rw [Nat.div_lt_iff_lt_mul (Nat.mul_pos hunit hnum)]
  calc value * den < 10 ^ count * num * unit := hcast
    _ = 10 ^ count * (unit * num) := by ring

/-- The decimals with a given count of digits come from a grid, and from it only a point that is
positive, not above the half-way point, and of as many digits. -/
theorem withDigits?_eq_some
    {x : Binary64}
    {count : Nat}
    {d : Digits}
    (hx : x.isZero = false)
    (h : x.withDigits? count = some d) :
    ∃ (n : Nat) (step : Int), d = Digits.ofGrid n step ∧ 0 < n ∧ n ≤ 10 ^ count ∧
      (n * 10 ^ step : ℚ) ≤ x.ceiling := by
  obtain ⟨-, hvalue, hunit, -⟩ := halfways_spec hx
  unfold withDigits? at h
  simp only at h
  generalize hstep : leadingExponent x.halfways.2.1 x.halfways.2.2.2 - (count : Int) + 1 = step
    at h
  obtain ⟨num, den, hgrid, hnum, hden, hquotient⟩ := fraction_of_step step
  have hlt := below_lt hvalue hunit hnum hden hstep hquotient
  rw [hgrid] at h
  simp only at h
  generalize x.halfways.2.1 * den / (x.halfways.2.2.2 * num) = below at h hlt
  -- the number lies between two neighbours on the grid, of which the lower one has the digits
  have hfound :
      ∀ n : Nat, n ≤ below + 1 → x.rounds n num den = true → some (Digits.ofGrid n step) = some d →
        ∃ (n : Nat) (step : Int), d = Digits.ofGrid n step ∧ 0 < n ∧ n ≤ 10 ^ count ∧
          (n * 10 ^ step : ℚ) ≤ x.ceiling := by
    intro n hn hrounds hd
    obtain ⟨hpos, hceiling⟩ := le_ceiling_of_rounds hx hden hrounds
    rw [hquotient] at hceiling
    exact ⟨n, step, (Option.some.inj hd).symm, hpos, by omega, hceiling⟩
  split at h
  · cases h
  · rename_i htrue _
    exact hfound below (Nat.le_succ below) htrue h
  · rename_i _ htrue
    exact hfound (below + 1) le_rfl htrue h
  · rename_i hleft hright
    split at h
    · exact hfound below (Nat.le_succ below) hleft h
    split at h
    · exact hfound (below + 1) le_rfl hright h
    split at h
    · exact hfound below (Nat.le_succ below) hleft h
    · exact hfound (below + 1) le_rfl hright h

/-- The digits that a number is written with; a number that has none is written as zero. -/
def written (x : Binary64) : Digits :=
  if x.isZero then ⟨[0], 0⟩ else x.shortest

/-- The digits of a number are those of zero, or they are proper ones and denote nothing above the
half-way point. -/
theorem written_cases
    (x : Binary64) :
    x.written = ⟨[0], 0⟩ ∨ x.written.Proper ∧ x.written.value ≤ x.ceiling := by
  unfold written
  cases hx : x.isZero with
  | true =>
      exact Or.inl rfl
  | false =>
      simp only [Bool.false_eq_true, if_false, shortest]
      cases hfound : (List.range' 1 17).findSome? x.withDigits? with
      | none =>
          exact Or.inl rfl
      | some d =>
          right
          obtain ⟨count, hcount, hd⟩ := List.exists_of_findSome?_eq_some hfound
          obtain ⟨n, step, rfl, hpos, hle, hceiling⟩ := withDigits?_eq_some hx hd
          have hmost : count ≤ 17 := by
            have := List.mem_range'_1.mp hcount
            omega
          refine ⟨Digits.proper_ofGrid step hpos (hle.trans ?_), ?_⟩
          · exact Nat.pow_le_pow_right (by decide) hmost
          · rw [Digits.value_ofGrid]
            exact hceiling

end Binary64
end Decimal
end LifecycleTelemetry
