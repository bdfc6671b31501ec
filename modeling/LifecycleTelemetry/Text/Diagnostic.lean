/-!
# Text in diagnostic output

Diagnostic output shows a text between quotation marks so that a reader can tell every character
apart: the marks themselves, the backslash and four control characters are written by a letter or a
digit after a backslash, and any other character that leaves no mark of its own on the screen by its
number between braces.

`isUnseen` lists these characters: the control and format characters, all separators but the plain
space, the private use areas, the noncharacters, and the combining marks of the blocks that are not
tied to one script.
-/

namespace LifecycleTelemetry
namespace Text

/-- Ranges of characters that leave no mark of their own. -/
def unseenRanges : List (Nat × Nat) :=
  [ (0x00, 0x1F), (0x7F, 0xA0), (0xAD, 0xAD), (0x300, 0x36F), (0x378, 0x379), (0x483, 0x489),
    (0x591, 0x5BD), (0x600, 0x605), (0x610, 0x61A), (0x61C, 0x61C), (0x64B, 0x65F),
    (0x6DD, 0x6DD), (0x70F, 0x70F), (0x180B, 0x180F), (0x1680, 0x1680), (0x1AB0, 0x1ACE),
    (0x1DC0, 0x1DFF), (0x2000, 0x200F), (0x2028, 0x202F), (0x205F, 0x206F), (0x20D0, 0x20F0),
    (0x3000, 0x3000), (0x302A, 0x302D), (0x3099, 0x309A), (0xE000, 0xF8FF), (0xFDD0, 0xFDEF),
    (0xFE00, 0xFE0F), (0xFE20, 0xFE2F), (0xFEFF, 0xFEFF), (0xFFF0, 0xFFFB), (0xFFFE, 0xFFFF),
    (0x1FFFE, 0x1FFFF), (0xE0000, 0x10FFFF) ]

/-- Whether a character leaves no mark of its own. -/
def isUnseen (c : Char) : Bool :=
  unseenRanges.any fun range => range.1 ≤ c.toNat && c.toNat ≤ range.2

/-- One character of a text in diagnostic output. -/
def diagnosticChar (c : Char) : List Char :=
  if c = '\x00' then ['\\', '0']
  else if c = '\t' then ['\\', 't']
  else if c = '\n' then ['\\', 'n']
  else if c = '\r' then ['\\', 'r']
  else if c = '"' then ['\\', '"']
  else if c = '\\' then ['\\', '\\']
  else if isUnseen c then '\\' :: 'u' :: '\x7b' :: (Nat.toDigits 16 c.toNat ++ ['\x7d'])
  else [c]

/-- A text in diagnostic output. -/
def diagnostic (s : String) : String :=
  String.ofList ('"' :: (s.toList.flatMap diagnosticChar ++ ['"']))

/-- An optional text in diagnostic output. -/
def diagnosticOption : Option String → String
  | some s => "Some(" ++ diagnostic s ++ ")"
  | none => "None"

end Text
end LifecycleTelemetry
