import LifecycleTelemetry.Address.Punycode

/-!
# Hosts

The machine that an address is about: a name, a numeric address of four bytes, or one of eight
two-byte pieces. A name whose last label is a number has to be a numeric address, which may be written
with fewer parts and in octal or hexadecimal numbers; names are kept in lower case.
-/

namespace LifecycleTelemetry
namespace Address

/-- A machine. Some kinds of address leave it out. -/
inductive Host where
  | unnamed
  | named (name : List Char)
  | bytes (n : Nat)
  | pieces (ps : List Nat)
deriving DecidableEq

/-- Cuts a list at every element that a test picks out. -/
def splitOn (cut : Char → Bool) : List Char → List (List Char)
  | [] => [[]]
  | c :: rest =>
      if cut c then [] :: splitOn cut rest
      else match splitOn cut rest with
        | part :: parts => (c :: part) :: parts
        | [] => [[c]]

/-- The number that digits in a base stand for. -/
def digitsValue (base : Nat) (digits : List Char) : Nat :=
  digits.foldl (fun n c => n * base + (Text.hexValue? c).getD 0) 0

/-- Whether a character is a digit in a base. -/
def isDigitIn (base : Nat) (c : Char) : Bool :=
  (Text.hexValue? c).any fun n => decide (n < base)

namespace Host

/-- A number in a base, if all its characters are digits of it. No digits at all are zero. -/
def numberIn? (base : Nat) (digits : List Char) : Option Nat :=
  if digits.all (isDigitIn base) then some (digitsValue base digits) else none

/-- One part of a numeric address: hexadecimal after a mark, octal after a zero, else decimal. -/
def number? : List Char → Option Nat
  | [] => none
  | '0' :: 'x' :: digits => numberIn? 16 digits
  | '0' :: 'X' :: digits => numberIn? 16 digits
  | '0' :: c :: digits => numberIn? 8 (c :: digits)
  | digits => numberIn? 10 digits

/-- The labels of a name without the empty one after a last dot. -/
def labels (name : List Char) : List (List Char) :=
  let parts := splitOn (· == '.') name
  if parts.getLast? = some [] then parts.dropLast else parts

/-- Whether a name has to be a numeric address. -/
def endsInNumber (name : List Char) : Bool :=
  match (labels name).getLast? with
  | some [] => false
  | some label => label.all Char.isDigit || (number? label).isSome
  | none => false

/-- The numeric address that a name is. The last part fills the bytes that the others leave. -/
def bytes? (name : List Char) : Option Nat := do
  let numbers ← (labels name).mapM number?
  let last ← numbers.getLast?
  let leading := numbers.dropLast
  if leading.length ≤ 3 ∧ last < Nat.pow 256 (4 - leading.length) ∧ leading.all (· ≤ 255) then
    some (digitsValueOf leading * Nat.pow 256 (4 - leading.length) + last)
  else none
where
  /-- The number whose bytes are given. -/
  digitsValueOf (ns : List Nat) : Nat :=
    ns.foldl (fun n b => n * 256 + b) 0

/-- One piece between colons. -/
def piece? (digits : List Char) : Option (List Nat) :=
  if 1 ≤ digits.length ∧ digits.length ≤ 4 then (numberIn? 16 digits).map ([·]) else none

/-- A decimal number of at most three digits below 256, without needless zeros. -/
def byte? (digits : List Char) : Option Nat :=
  if digits = [] ∨ 3 < digits.length ∨ (digits.head? = some '0' ∧ digits ≠ ['0']) then none
  else (numberIn? 10 digits).filter (· ≤ 255)

/-- Two pieces written as four bytes with dots between them. -/
def piecesOfBytes? (text : List Char) : Option (List Nat) := do
  match ← (splitOn (· == '.') text).mapM byte? with
  | [a, b, c, d] => some [a * 256 + b, c * 256 + d]
  | _ => none

/-- A sequence of pieces, of which the last may be written as bytes. -/
def sequence? : List (List Char) → Option (List Nat)
  | [] => some []
  | [last] => if last.contains '.' then piecesOfBytes? last else piece? last
  | part :: rest => do
      let piece ← piece? part
      let pieces ← sequence? rest
      return piece ++ pieces

/-- The pieces of a text, none for the empty one. -/
def side? (text : List Char) : Option (List Nat) :=
  if text = [] then some [] else sequence? (splitOn (· == ':') text)

/-- The text in front of the first pair of colons, and after it. -/
def atGap? : List Char → Option (List Char × List Char)
  | ':' :: ':' :: rest => some ([], rest)
  | c :: rest => (atGap? rest).map fun sides => (c :: sides.1, sides.2)
  | [] => none

/-- The eight pieces of a text between brackets. A pair of colons stands for the zeros left out. -/
def pieces? (text : List Char) : Option (List Nat) :=
  match atGap? text with
  | none => (side? text).filter fun ps => ps.length == 8
  | some (before, after) => do
      let before ← if before.contains '.' then none else side? before
      let after ← side? after
      if before.length + after.length ≤ 7 then
        some (before ++ List.replicate (8 - before.length - after.length) 0 ++ after)
      else none

/-- The characters that no host name contains. -/
def isForbidden (c : Char) : Bool :=
  decide (c.toNat ≤ 0x20) || c.toNat == 0x7F || "%#/:<>?@[\\]^|".toList.contains c

/-- A label in ASCII characters. -/
def asciiLabel (label : List Char) : List Char :=
  if label.all fun c => decide (c.toNat < 0x80) then label
  else "xn--".toList ++ Punycode.encode label

/-- A host name in lower-case ASCII letters. -/
def asciiName (name : List Char) : List Char :=
  ['.'].intercalate ((splitOn (· == '.') (name.map Char.toLower)).map asciiLabel)

/-- The host that a text between the marks of an address names. -/
def ofChars? (text : List Char) : Option Host :=
  match text with
  | '[' :: rest =>
      if rest.getLast? = some ']' then (pieces? rest.dropLast).map .pieces else none
  | _ => do
      let name := asciiName (← String.fromUTF8? ⟨(unescape text).toArray⟩).toList
      if name = [] ∨ name.any isForbidden then none
      else if endsInNumber name then (bytes? name).map .bytes
      else some (.named name)

/-- The host of an address that is not hierarchical, where names mean nothing. -/
def ofFlatChars? (text : List Char) : Option Host :=
  match text with
  | [] => some .unnamed
  | '[' :: _ => ofChars? text
  | _ => if text.any fun c => isForbidden c && c != '%' && !isForeign c then none
      else some (.named (Place.flat.escape text))

/-- The pieces of which the longest run of zeros, if it is longer than one, is left out. -/
def gap (ps : List Nat) : Nat × Nat :=
  (List.range ps.length).foldl
    (fun best start =>
      let run := ((ps.drop start).takeWhile (· == 0)).length
      if best.2 < run then (start, run) else best)
    (0, 1)

/-- Pieces with colons between them. -/
def pieceText (ps : List Nat) : List Char :=
  [':'].intercalate (ps.map (Nat.toDigits 16))

/-- A host as it is written. -/
def chars : Host → List Char
  | .unnamed => []
  | .named name => name
  | .bytes n =>
      ['.'].intercalate
        ([n / 16777216, n / 65536 % 256, n / 256 % 256, n % 256].map (Nat.toDigits 10))
  | .pieces ps =>
      let (start, run) := gap ps
      let inner := if run ≤ 1 then pieceText ps
        else pieceText (ps.take start) ++ [':', ':'] ++ pieceText (ps.drop (start + run))
      '[' :: inner ++ [']']

end Host
end Address
end LifecycleTelemetry
