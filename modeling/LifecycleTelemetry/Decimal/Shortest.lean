import LifecycleTelemetry.Decimal.Binary64

/-!
# The shortest decimal text of a number

A binary64 number stands for all real numbers that round to it. Its *shortest digits* are the
decimal with the fewest digits in that interval, and of two with equally many digits the one nearer
to the number itself, an exact tie going to the even last digit.

For a fixed count of digits the decimals form a grid. If a point of the grid lies in the interval,
so does one of the two neighbours of the number on that grid; it is therefore enough to test these
two, for one digit, for two, and so on up to seventeen, where every number has a decimal of its own.
-/

namespace LifecycleTelemetry
namespace Decimal

/-- A positive decimal `0.d₁d₂… * 10 ^ (exponent + 1)`: its digits, the first not zero, and the
power of ten of the first digit. -/
structure Digits where
  digits : List Nat
  exponent : Int
deriving DecidableEq

/-- The decimal digits of a natural number, the highest first. -/
def digitsOf (n : Nat) : List Nat :=
  (Nat.toDigits 10 n).map fun c => c.toNat - 0x30

/-- The power of ten of the first digit of the positive quotient `num / den`. -/
def leadingExponent (num den : Nat) : Int :=
  if den ≤ num then ((digitsOf (num / den)).length : Int) - 1
  else -((digitsOf ((den + num - 1) / num - 1)).length : Int)

/-- The digits of `n * 10 ^ step`, without zeros at the end. -/
def Digits.ofGrid (n : Nat) (step : Int) : Digits :=
  let digits := digitsOf n
  ⟨(digits.reverse.dropWhile (· == 0)).reverse, step + (digits.length : Int) - 1⟩

namespace Binary64

/-- Twice or four times a number and its half-way points, over one denominator: below, itself,
above, denominator. The gap below a power of two is half the gap above it. -/
def halfways (x : Binary64) : Nat × Nat × Nat × Nat :=
  let m := x.significand
  let (lower, upper) :=
    if m = 4503599627370496 ∧ minExponent < x.exponent then (4 * m - 1, 4 * m + 2)
    else (4 * m - 2, 4 * m + 2)
  if x.exponent < 0 then (lower, 4 * m, upper, 4 * Nat.pow 2 (-x.exponent).toNat)
  else
    let scale := Nat.pow 2 x.exponent.toNat
    (lower * scale, 4 * m * scale, upper * scale, 4)

/-- Whether `n * num / den` rounds to the number with the given half-way points. The half-way points
themselves do exactly when the significand is even. -/
def rounds (x : Binary64) (n num den : Nat) : Bool :=
  let (lower, _, upper, unit) := x.halfways
  let candidate := n * num * unit
  if x.significand % 2 = 0 then lower * den ≤ candidate && candidate ≤ upper * den
  else lower * den < candidate && candidate < upper * den

/-- The decimal with `count` digits that rounds to a positive number, if there is one. -/
def withDigits? (x : Binary64) (count : Nat) : Option Digits :=
  let (_, value, _, unit) := x.halfways
  let first := leadingExponent value unit
  let step := first - (count : Int) + 1
  let (num, den) := if step < 0 then (1, Nat.pow 10 (-step).toNat) else (Nat.pow 10 step.toNat, 1)
  let below := value * den / (unit * num)
  let above := below + 1
  let found (n : Nat) : Option Digits := some (Digits.ofGrid n step)
  match x.rounds below num den, x.rounds above num den with
  | false, false => none
  | true, false => found below
  | false, true => found above
  | true, true =>
      let left := 2 * (value * den)
      let right := (below + above) * (unit * num)
      if left < right then found below
      else if right < left then found above
      else if below % 2 = 0 then found below
      else found above

/-- The shortest digits of a number that is not zero, its sign left aside. -/
def shortest (x : Binary64) : Digits :=
  match (List.range' 1 17).findSome? x.withDigits? with
  | some found => found
  | none => ⟨[0], 0⟩

end Binary64

/-- How a number is laid out: the exponents that are written positionally. A positional number
always has a digit after the point; any other has the sign of its exponent, and a point only after
its first digit and before a second. -/
structure Layout where
  leastPositional : Int
  leastScientific : Int

/-- The character of a decimal digit. -/
def digitChar (d : Nat) : Char :=
  Char.ofNat (0x30 + d)

/-- Digits written under a layout. -/
def Layout.write (layout : Layout) (d : Digits) : List Char :=
  let text := d.digits.map digitChar
  if layout.leastPositional ≤ d.exponent ∧ d.exponent < layout.leastScientific then
    if d.exponent < 0 then
      '0' :: '.' :: (List.replicate ((-d.exponent).toNat - 1) '0' ++ text)
    else
      let count := d.exponent.toNat + 1
      let whole := text.take count ++ List.replicate (count - text.length) '0'
      let fraction := text.drop count
      whole ++ '.' :: (if fraction.isEmpty then ['0'] else fraction)
  else
    let sign := if d.exponent < 0 then '-' else '+'
    let power := (Nat.toDigits 10 d.exponent.natAbs)
    match text with
    | [] => []
    | [c] => c :: 'e' :: sign :: power
    | c :: rest => c :: '.' :: (rest ++ 'e' :: sign :: power)

/-- A number written under a layout by its shortest digits. -/
def Layout.text (layout : Layout) (x : Binary64) : List Char :=
  let body := if x.isZero then ['0', '.', '0'] else layout.write x.shortest
  if x.negative then '-' :: body else body

end Decimal
end LifecycleTelemetry
