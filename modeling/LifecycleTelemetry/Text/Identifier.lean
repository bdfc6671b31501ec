import LifecycleTelemetry.Text.Quoted

/-!
# Random identifiers

Sixteen random bytes as an identifier: six bits say that it is random, and the bytes are written in
lower-case hexadecimal digits, in five groups.
-/

namespace LifecycleTelemetry
namespace Text

/-- The bytes of an identifier with the bits set that say that it is random. -/
def markRandom (bytes : List UInt8) : List UInt8 :=
  bytes.zipIdx.map fun (b, place) =>
    if place = 6 then (b &&& 0x0F) ||| 0x40
    else if place = 8 then (b &&& 0x3F) ||| 0x80
    else b

/-- The two digits of a byte. -/
def byteDigits (b : UInt8) : List Char :=
  [hexDigit (b.toNat / 16), hexDigit (b.toNat % 16)]

/-- The identifier made of random bytes. -/
def identifier (bytes : List UInt8) : String :=
  let marked := markRandom bytes
  let group (start count : Nat) : List Char := ((marked.drop start).take count).flatMap byteDigits
  String.ofList (['-'].intercalate [group 0 4, group 4 2, group 6 2, group 8 2, group 10 6])

end Text
end LifecycleTelemetry
