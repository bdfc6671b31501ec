/-!
# Blank characters

Values that people type into an environment variable arrive padded. A character is *blank* when
Unicode gives it the property `White_Space`: twenty-five characters, most of
them outside the Basic Latin block. `trim` removes the blank characters on
both sides of a text and keeps those inside it.
-/

namespace LifecycleTelemetry
namespace Text

/-- The characters with the Unicode property `White_Space`. -/
def isBlank (c : Char) : Bool :=
  let n := c.toNat
  (0x09 ≤ n && n ≤ 0x0D) || n == 0x20 || n == 0x85 || n == 0xA0 || n == 0x1680 ||
    (0x2000 ≤ n && n ≤ 0x200A) || n == 0x2028 || n == 0x2029 || n == 0x202F ||
    n == 0x205F || n == 0x3000

/-- A text without the blank characters it starts with. -/
def dropBlanks (cs : List Char) : List Char :=
  cs.dropWhile isBlank

/-- A text without the blank characters on either side. -/
def trimList (cs : List Char) : List Char :=
  (dropBlanks (dropBlanks cs).reverse).reverse

/-- A text without the blank characters on either side. -/
def trim (s : String) : String :=
  String.ofList (trimList s.toList)

/-- A text that has nothing but blank characters. -/
def isAllBlank (s : String) : Bool :=
  s.toList.all isBlank

end Text
end LifecycleTelemetry
