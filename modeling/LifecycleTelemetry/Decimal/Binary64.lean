/-!
# Binary floating point numbers of 64 bits

A finite number of the binary64 format is a sign, a significand below `2 ^ 53` and an exponent of
two. All arithmetic goes through `ofRatio?`: the exact quotient of two natural numbers, rounded to
the nearest representable number, a half going to the even significand. A result beyond the largest
finite number has no representation.
-/

namespace LifecycleTelemetry
namespace Decimal

/-- A finite number `± significand * 2 ^ exponent`. Numbers that `Binary64.ofRatio?` makes are
normal: the significand has 53 bits, or the exponent is the least one. -/
structure Binary64 where
  negative : Bool
  significand : Nat
  exponent : Int
deriving DecidableEq

namespace Binary64

/-- The number of bits of a significand. -/
def precision : Nat := 53

/-- The least exponent, that of the numbers nearest to zero. -/
def minExponent : Int := -1074

/-- The greatest exponent of a finite number. -/
def maxExponent : Int := 971

/-- Zero with a given sign. -/
def zero (negative : Bool) : Binary64 :=
  ⟨negative, 0, minExponent⟩

/-- The quotient rounded to the nearest natural number, a half to the even neighbour. -/
def roundQuotient (num den : Nat) : Nat :=
  let quotient := num / den
  let rest := num % den
  if den < 2 * rest then quotient + 1
  else if den = 2 * rest then quotient + quotient % 2
  else quotient

/-- Numerator and denominator of `num / den / 2 ^ exponent`. -/
def scaled (num den : Nat) (exponent : Int) : Nat × Nat :=
  if exponent < 0 then (num * Nat.pow 2 (-exponent).toNat, den)
  else (num, den * Nat.pow 2 exponent.toNat)

/-- The exponent at which the quotient has a significand of 53 bits, or the least exponent. -/
def exponentOf (num den : Nat) : Int :=
  let guess : Int := (Nat.log2 num : Int) - (Nat.log2 den : Int) - 52
  let (n, d) := scaled num den guess
  max minExponent (if n / d < 4503599627370496 then guess - 1 else guess)

/-- The number nearest to `± num / den`, when it is finite. -/
def ofRatio? (negative : Bool) (num den : Nat) : Option Binary64 :=
  if num = 0 then some (zero negative)
  else
    let exponent := exponentOf num den
    let (n, d) := scaled num den exponent
    let rounded := roundQuotient n d
    let (significand, exponent) :=
      if rounded = Nat.pow 2 precision then (Nat.pow 2 (precision - 1), exponent + 1) else (rounded, exponent)
    if maxExponent < exponent then none
    else some ⟨negative, significand, exponent⟩

/-- The exact value without its sign, as a numerator and a denominator. -/
def ratio (x : Binary64) : Nat × Nat :=
  if x.exponent < 0 then (x.significand, Nat.pow 2 (-x.exponent).toNat)
  else (x.significand * Nat.pow 2 x.exponent.toNat, 1)

/-- Whether a number is a zero of either sign. -/
def isZero (x : Binary64) : Bool :=
  x.significand == 0

/-- The number with the other sign. -/
def neg (x : Binary64) : Binary64 :=
  { x with negative := !x.negative }

/-- The product, rounded once. -/
def mul? (x y : Binary64) : Option Binary64 :=
  let (a, b) := x.ratio
  let (c, d) := y.ratio
  ofRatio? (x.negative != y.negative) (a * c) (b * d)

/-- The quotient, rounded once; there is none by zero. -/
def div? (x y : Binary64) : Option Binary64 :=
  if y.isZero then none
  else
    let (a, b) := x.ratio
    let (c, d) := y.ratio
    ofRatio? (x.negative != y.negative) (a * d) (b * c)

/-- A natural number, rounded. -/
def ofNat? (n : Nat) : Option Binary64 :=
  ofRatio? false n 1

end Binary64
end Decimal
end LifecycleTelemetry
