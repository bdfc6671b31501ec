import LifecycleTelemetry.Json.Document
import LifecycleTelemetry.Json.Value

/-!
# Reading values

A document denotes a value when each of its parts does: a quoted text when its numeric escapes pair
up to characters, a numeral when it is finite, an array or object when everything in it does and the
nesting is not too deep. Of several fields with one key the last one counts.

The nesting limit is the number of arrays and objects that may be open at once.
-/

namespace LifecycleTelemetry
namespace Json

/-- The greatest number of arrays and objects that may be open at once. -/
def nestingLimit : Nat := 127

/-- The characters that the parts of a quoted text denote. Code units of the upper surrogate range
must be followed by one of the lower range, which may not stand alone. -/
def Piece.chars? : List Piece → Option (List Char)
  | [] => some []
  | .char c :: rest => (chars? rest).map (c :: ·)
  | .unit code :: rest =>
      if code < 0xD800 ∨ 0xE000 ≤ code then (chars? rest).map (Char.ofNat code :: ·)
      else if code < 0xDC00 then
        match rest with
        | .unit low :: rest =>
            if 0xDC00 ≤ low ∧ low < 0xE000 then
              let c := Char.ofNat (0x10000 + (code - 0xD800) * 0x400 + (low - 0xDC00))
              (chars? rest).map (c :: ·)
            else none
        | _ => none
      else none

/-- The text that the parts of a quoted text denote. -/
def Piece.text? (pieces : List Piece) : Option String :=
  (Piece.chars? pieces).map String.ofList

namespace Document

mutual

/-- The value of a document in which at most `limit` brackets may be open at once. -/
def value? (limit : Nat) : Document → Option Json
  | .null => some .null
  | .bool b => some (.bool b)
  | .numeral n => n.number?.map .number
  | .text pieces => (Piece.text? pieces).map .string
  | .array items =>
      match limit with
      | 0 => none
      | limit + 1 => (items? limit items).map .array
  | .object fields =>
      match limit with
      | 0 => none
      | limit + 1 => (fields? limit fields).map fun entries => .object (Fields.ofList entries)

/-- The values of the items of an array. -/
def items? (limit : Nat) : List Document → Option (List Json)
  | [] => some []
  | item :: rest => do
      let value ← value? limit item
      let values ← items? limit rest
      return value :: values

/-- The keys and values of the fields of an object, in the order of the text. -/
def fields? (limit : Nat) : List (List Piece × Document) → Option (List (String × Json))
  | [] => some []
  | (key, field) :: rest => do
      let key ← Piece.text? key
      let value ← value? limit field
      let entries ← fields? limit rest
      return (key, value) :: entries

end

end Document

/-- The value that a text denotes. -/
def parse? (s : String) : Option Json := do
  (← Document.ofText? s).value? nestingLimit

end Json
end LifecycleTelemetry
