import LifecycleTelemetry.Address.Escape

/-!
# Labels with characters outside ASCII

A label of a host name is sent in ASCII. One with other characters is written as its ASCII characters
followed by where the others go: they are taken in ascending order, and for each the number of
positions skipped since the last one is written in digits of variable weight. The weights adapt to the
numbers written so far, so that labels in one script stay short.
-/

namespace LifecycleTelemetry
namespace Address
namespace Punycode

/-- The digit for a number below thirty-six: letters first, then numerals. -/
def digit (n : Nat) : Char :=
  if n < 26 then Char.ofNat (0x61 + n) else Char.ofNat (0x30 + (n - 26))

/-- The weight at which a digit ends a number. -/
def threshold (position bias : Nat) : Nat :=
  if position ≤ bias then 1 else if bias + 26 ≤ position then 26 else position - bias

theorem one_le_threshold
    (position bias : Nat) :
    1 ≤ threshold position bias := by
  unfold threshold
  split
  · exact Nat.le_refl 1
  · split <;> omega

theorem threshold_le
    (position bias : Nat) :
    threshold position bias ≤ 26 := by
  unfold threshold
  split
  · omega
  · split <;> omega

/-- A number in digits of variable weight. -/
def digits (bias position n : Nat) : List Char :=
  let t := threshold position bias
  if n < t then [digit n]
  else digit (t + (n - t) % (36 - t)) :: digits bias (position + 36) ((n - t) / (36 - t))
termination_by n
decreasing_by
  have low := one_le_threshold position bias
  have high := threshold_le position bias
  have := Nat.div_le_self (n - threshold position bias) (36 - threshold position bias)
  omega

/-- Divides a number by thirty-five until it is small, and counts thirty-six for each division. -/
def shrink (n count : Nat) : Nat × Nat :=
  if 455 < n then shrink (n / 35) (count + 36) else (n, count)
termination_by n
decreasing_by exact Nat.div_lt_self (by omega) (by omega)

/-- The bias after a number has been written: halved, or cut down much further the first time, and
shared among the characters placed so far. -/
def adapted (n placed : Nat) (first : Bool) : Nat :=
  let n := if first then n / 700 else n / 2
  let (n, count) := shrink (n + n / placed) 0
  count + 36 * n / (n + 38)

/-- What has been written of a label, and what the next number depends on. -/
structure Progress where
  written : List Char
  skipped : Nat
  bias : Nat
  placed : Nat

/-- Looks at one character of the label while a given character is being placed. -/
def visit (ascii target : Nat) (p : Progress) (c : Char) : Progress :=
  if c.toNat < target then { p with skipped := p.skipped + 1 }
  else if c.toNat = target then
    { written := p.written ++ digits p.bias 36 p.skipped
      skipped := 0
      bias := adapted p.skipped (p.placed + 1) (p.placed == ascii)
      placed := p.placed + 1 }
  else p

/-- Places characters in ascending order. -/
def place (label : List Char) (ascii : Nat) : Nat → List Nat → Progress → Progress
  | _, [], p => p
  | start, target :: rest, p =>
      let p := { p with skipped := p.skipped + (target - start) * (p.placed + 1) }
      let p := label.foldl (visit ascii target) p
      place label ascii (target + 1) rest { p with skipped := p.skipped + 1 }

/-- Adds a number to an ascending list, once. -/
def insertOnce (n : Nat) : List Nat → List Nat
  | [] => [n]
  | m :: rest => if n < m then n :: m :: rest else if n = m then m :: rest else m :: insertOnce n rest

/-- A label in ASCII characters. -/
def encode (label : List Char) : List Char :=
  let ascii := label.filter fun c => decide (c.toNat < 0x80)
  let others := (label.filter fun c => decide (0x80 ≤ c.toNat)).foldr (fun c ns => insertOnce c.toNat ns) []
  let p := place label ascii.length 0x80 others ⟨[], 0, 72, ascii.length⟩
  ascii ++ (if ascii.isEmpty then [] else ['-']) ++ p.written

end Punycode
end Address
end LifecycleTelemetry
