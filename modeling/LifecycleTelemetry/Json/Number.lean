import LifecycleTelemetry.Decimal.Binary64

/-!
# Numbers of the interchange format

A number is an integer of one of the two 64-bit ranges, or else a binary64 number. Which of them a
text denotes is decided by its form: a text with a fraction or an exponent, an integer outside both
ranges and a negative zero are all binary64 numbers.

The reading of a binary64 number is a rule of its own. The digits are gathered into a significand
of 64 bits; a whole digit that no longer fits, and every whole digit after it, only counts as a power
of ten, and a fraction digit that no longer fits ends the significand. The significand is then
rounded to a binary64 number and multiplied or divided by the power of ten, each step being rounded
by itself. The result is therefore not always the number nearest to the text.
-/

namespace LifecycleTelemetry
namespace Json

open Decimal (Binary64)

/-- An integer that fits the signed or the unsigned range of 64 bits. -/
structure Integer64 where
  value : Int
  lower : -9223372036854775808 ≤ value
  upper : value < 18446744073709551616
deriving DecidableEq

namespace Integer64

/-- An integer, when it fits. -/
def ofInt? (z : Int) : Option Integer64 :=
  if h : -9223372036854775808 ≤ z ∧ z < 18446744073709551616 then some ⟨z, h.1, h.2⟩ else none

/-- The nearest integer that fits. -/
def clamp (z : Int) : Integer64 :=
  ⟨max (-9223372036854775808) (min z 18446744073709551615), by omega, by omega⟩

theorem clamp_value
    {z : Int}
    (hlow : -9223372036854775808 ≤ z)
    (hhigh : z < 18446744073709551616) :
    (clamp z).value = z := by
  simp only [clamp]
  omega

theorem ofInt?_value
    (n : Integer64) :
    ofInt? n.value = some n := by
  exact dif_pos ⟨n.lower, n.upper⟩

end Integer64

/-- A number of the interchange format. -/
inductive Number where
  | integer (n : Integer64)
  | real (x : Binary64)
deriving DecidableEq

/-- The written form of a number: sign, whole digits, and the fraction and the exponent where the
text has them. -/
structure Numeral where
  negative : Bool
  whole : List Nat
  fraction : Option (List Nat)
  exponent : Option Int
deriving DecidableEq

namespace Numeral

/-- Digits gathered so far: a significand below `2 ^ 64`, the power of ten it is to be multiplied
by, and whether a digit has been left out. -/
structure Gathered where
  significand : Nat
  power : Int
  full : Bool

/-- One more whole digit. Once a digit does not fit, the rest count as powers of ten. -/
def Gathered.addWhole (g : Gathered) (digit : Nat) : Gathered :=
  let next := g.significand * 10 + digit
  if g.full || 18446744073709551616 ≤ next then { g with power := g.power + 1, full := true }
  else { g with significand := next }

/-- One more digit of the fraction. Once a digit does not fit, the rest are without effect. -/
def Gathered.addFraction (g : Gathered) (digit : Nat) : Gathered :=
  let next := g.significand * 10 + digit
  if g.full || 18446744073709551616 ≤ next then { g with full := true }
  else { g with significand := next, power := g.power - 1 }

/-- The digits before the point. -/
def wholeDigits (n : Numeral) : Gathered :=
  n.whole.foldl Gathered.addWhole ⟨0, 0, false⟩

/-- All digits of a numeral, with the power of ten that its exponent adds. -/
def gathered (n : Numeral) : Gathered :=
  let whole := n.wholeDigits
  let all := (n.fraction.getD []).foldl Gathered.addFraction { whole with full := false }
  { all with power := all.power + n.exponent.getD 0 }

/-- Divides by a power of ten, at most 308 places at a time. -/
def scaleDown (x : Binary64) (places : Nat) : Option Binary64 :=
  if places ≤ 308 then do
    x.div? (← Binary64.ofNat? (Nat.pow 10 places))
  else if x.isZero then some x
  else do
    let smaller ← x.div? (← Binary64.ofNat? (Nat.pow 10 308))
    scaleDown smaller (places - 308)
termination_by places

/-- Multiplies by a power of ten. Nothing but zero may have more than 308 places. -/
def scaleUp (x : Binary64) (places : Nat) : Option Binary64 :=
  if places ≤ 308 then do
    x.mul? (← Binary64.ofNat? (Nat.pow 10 places))
  else if x.isZero then some x
  else none

/-- The binary64 number that a numeral denotes, when it is finite. -/
def real? (n : Numeral) : Option Binary64 := do
  let g := n.gathered
  let start ← Binary64.ofNat? g.significand
  let magnitude ←
    if g.power < 0 then scaleDown start (-g.power).toNat else scaleUp start g.power.toNat
  return if n.negative then magnitude.neg else magnitude

/-- The integer that a numeral denotes, when it has neither fraction nor exponent, fits a 64-bit
range and is not a negative zero. -/
def integer? (n : Numeral) : Option Integer64 :=
  if n.fraction.isSome || n.exponent.isSome then none
  else
    let magnitude : Nat := n.whole.foldl (fun value digit => value * 10 + digit) 0
    if n.negative then
      if magnitude = 0 ∨ 9223372036854775808 < magnitude then none else Integer64.ofInt? (-(magnitude : Int))
    else Integer64.ofInt? magnitude

/-- The number that a numeral denotes, when it is finite. -/
def number? (n : Numeral) : Option Number :=
  match n.integer? with
  | some i => some (.integer i)
  | none => n.real?.map .real

end Numeral
end Json
end LifecycleTelemetry
