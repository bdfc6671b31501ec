import LifecycleTelemetry.Text.Quoted

/-!
# Escaped characters of an address

An address is written with visible ASCII characters. Every other character, and some of the visible
ones depending on where they stand, is written as the bytes of its encoding, each as a percent sign
and two upper-case hexadecimal digits. Escapes that a text already holds are left alone.
-/

namespace LifecycleTelemetry
namespace Address

/-- The places of an address in which different characters are escaped. -/
inductive Place where
  | flat
  | fragment
  | path
  | query (hierarchical : Bool)
  | userInfo
deriving DecidableEq

/-- Whether a character is escaped everywhere. -/
def isForeign (c : Char) : Bool :=
  decide (c.toNat < 0x20) || decide (0x7F ≤ c.toNat)

/-- The visible characters that are escaped in a place. -/
def Place.reserved : Place → List Char
  | .flat => []
  | .fragment => [' ', '"', '<', '>', '\x60']
  | .path => [' ', '"', '<', '>', '\x60', '#', '?', '\x7b', '\x7d']
  | .query hierarchical => [' ', '"', '#', '<', '>'] ++ (if hierarchical then ['\''] else [])
  | .userInfo =>
      [' ', '"', '<', '>', '\x60', '#', '?', '\x7b', '\x7d',
       '/', ':', ';', '=', '@', '[', '\\', ']', '^', '|']

/-- The upper-case hexadecimal digit of a number below sixteen. -/
def upperDigit (n : Nat) : Char :=
  if n < 10 then Char.ofNat (0x30 + n) else Char.ofNat (0x41 + (n - 10))

/-- A byte as an escape. -/
def escapeByte (b : UInt8) : List Char :=
  ['%', upperDigit (b.toNat / 16), upperDigit (b.toNat % 16)]

/-- A character as it is written in a place. -/
def Place.escapeChar (p : Place) (c : Char) : List Char :=
  if isForeign c || p.reserved.contains c then (String.utf8EncodeChar c).flatMap escapeByte else [c]

/-- A text as it is written in a place. -/
def Place.escape (p : Place) (cs : List Char) : List Char :=
  cs.flatMap p.escapeChar

/-- The bytes that a text with escapes stands for. A percent sign without two digits after it stands
for itself. -/
def unescape : List Char → List UInt8
  | '%' :: a :: b :: rest =>
      match Text.hexValue? a, Text.hexValue? b with
      | some x, some y => (x * 16 + y).toUInt8 :: unescape rest
      | _, _ => String.utf8EncodeChar '%' ++ unescape (a :: b :: rest)
  | c :: rest => String.utf8EncodeChar c ++ unescape rest
  | [] => []

end Address
end LifecycleTelemetry
