/-!
# Quoted text

A text between quotation marks, as the interchange format writes it. A quotation mark and a
backslash are written after a backslash, the five control characters with a letter of their own are
written by that letter, every other character below U+0020 by four lower-case hexadecimal digits,
and everything else stands for itself.
-/

namespace LifecycleTelemetry
namespace Text

/-- The lower-case hexadecimal digit of a number below sixteen. -/
def hexDigit (n : Nat) : Char :=
  if n < 10 then Char.ofNat (0x30 + n) else Char.ofNat (0x61 + (n - 10))

/-- The value of a hexadecimal digit of either case. -/
def hexValue? (c : Char) : Option Nat :=
  if '0' ≤ c ∧ c ≤ '9' then some (c.toNat - 0x30)
  else if 'a' ≤ c ∧ c ≤ 'f' then some (c.toNat - 0x61 + 10)
  else if 'A' ≤ c ∧ c ≤ 'F' then some (c.toNat - 0x41 + 10)
  else none

/-- The written form of one character between quotation marks. -/
def escapeChar (c : Char) : List Char :=
  if c = '"' then ['\\', '"']
  else if c = '\\' then ['\\', '\\']
  else if c = '\x08' then ['\\', 'b']
  else if c = '\t' then ['\\', 't']
  else if c = '\n' then ['\\', 'n']
  else if c = '\x0c' then ['\\', 'f']
  else if c = '\r' then ['\\', 'r']
  else if c.toNat < 0x20 then
    ['\\', 'u', '0', '0', hexDigit (c.toNat / 16), hexDigit (c.toNat % 16)]
  else [c]

/-- A text between quotation marks. -/
def quoted (s : String) : List Char :=
  '"' :: (s.toList.flatMap escapeChar ++ ['"'])

/-- A character at or above U+0020 other than the two marks stands for itself. -/
theorem escapeChar_plain
    (c : Char)
    (hquote : c ≠ '"')
    (hslash : c ≠ '\\')
    (hlow : 0x20 ≤ c.toNat) :
    escapeChar c = [c] := by
  have hb : c ≠ '\x08' := by rintro rfl; revert hlow; decide
  have ht : c ≠ '\t' := by rintro rfl; revert hlow; decide
  have hn : c ≠ '\n' := by rintro rfl; revert hlow; decide
  have hf : c ≠ '\x0c' := by rintro rfl; revert hlow; decide
  have hr : c ≠ '\r' := by rintro rfl; revert hlow; decide
  have hl : ¬ c.toNat < 0x20 := by omega
  simp [escapeChar, hquote, hslash, hb, ht, hn, hf, hr, hl]

end Text
end LifecycleTelemetry
