import LifecycleTelemetry.Decimal.Shortest
import LifecycleTelemetry.Json.Value
import LifecycleTelemetry.Text.Quoted

/-!
# Printed values

Two texts of a value: the compact one has no space at all, the laid-out one puts every item and
every field on a line of its own, two spaces further in than the bracket that holds it, and keeps
empty brackets together.

Integers are written in decimal. Binary64 numbers have the shortest digits that round to them; they
are positional from `0.00001` up to below `1e+16`, and always have a fraction or an exponent.
-/

namespace LifecycleTelemetry
namespace Json

/-- Numbers with a decimal exponent from -5 to 15 are positional. -/
def numberLayout : Decimal.Layout :=
  ⟨-5, 16⟩

/-- The text of an integer. -/
def integerText (z : Int) : List Char :=
  if z < 0 then '-' :: Nat.toDigits 10 z.natAbs else Nat.toDigits 10 z.natAbs

/-- The text of a number. -/
def Number.text : Number → List Char
  | .integer n => integerText n.value
  | .real x => numberLayout.text x

/-- The text of a truth value. -/
def boolText (b : Bool) : List Char :=
  if b then "true".toList else "false".toList

mutual

/-- The compact text of a value. -/
def compactList : Json → List Char
  | .null => "null".toList
  | .bool b => boolText b
  | .number n => n.text
  | .string s => Text.quoted s
  | .array items => '[' :: compactItems items
  | .object fields => '\x7b' :: compactFields fields

/-- The compact text of the items of an array, with the closing bracket. -/
def compactItems : List Json → List Char
  | [] => [']']
  | [last] => compactList last ++ [']']
  | item :: rest => compactList item ++ ',' :: compactItems rest

/-- The compact text of the fields of an object, with the closing brace. -/
def compactFields : List (String × Json) → List Char
  | [] => ['\x7d']
  | [(key, last)] => Text.quoted key ++ ':' :: (compactList last ++ ['\x7d'])
  | (key, value) :: rest =>
      Text.quoted key ++ ':' :: (compactList value ++ ',' :: compactFields rest)

end

/-- The compact text of a value. -/
def compact (v : Json) : String :=
  String.ofList v.compactList

/-- A line break and the blanks before what stands at a depth. -/
def newline (depth : Nat) : List Char :=
  '\n' :: List.replicate (2 * depth) ' '

mutual

/-- The laid-out text of a value that stands at a depth. -/
def prettyList (depth : Nat) : Json → List Char
  | .null => "null".toList
  | .bool b => boolText b
  | .number n => n.text
  | .string s => Text.quoted s
  | .array [] => ['[', ']']
  | .array (item :: rest) => '[' :: prettyItems depth (item :: rest)
  | .object [] => ['\x7b', '\x7d']
  | .object (field :: rest) => '\x7b' :: prettyFields depth (field :: rest)

/-- The laid-out text of the items of an array, each on a line, with the closing bracket. -/
def prettyItems (depth : Nat) : List Json → List Char
  | [] => newline depth ++ [']']
  | [last] => newline (depth + 1) ++ prettyList (depth + 1) last ++ newline depth ++ [']']
  | item :: rest =>
      newline (depth + 1) ++ prettyList (depth + 1) item ++ ',' :: prettyItems depth rest

/-- The laid-out text of the fields of an object, each on a line, with the closing brace. -/
def prettyFields (depth : Nat) : List (String × Json) → List Char
  | [] => newline depth ++ ['\x7d']
  | [(key, last)] =>
      newline (depth + 1) ++ Text.quoted key ++ ':' :: ' ' ::
        (prettyList (depth + 1) last ++ newline depth ++ ['\x7d'])
  | (key, value) :: rest =>
      newline (depth + 1) ++ Text.quoted key ++ ':' :: ' ' ::
        (prettyList (depth + 1) value ++ ',' :: prettyFields depth rest)

end

/-- The laid-out text of a value. -/
def pretty (v : Json) : String :=
  String.ofList (v.prettyList 0)

end Json
end LifecycleTelemetry
