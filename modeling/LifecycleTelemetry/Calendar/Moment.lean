import LifecycleTelemetry.Calendar.Date
import LifecycleTelemetry.Text.Blank

/-!
# Moments

A moment is a date and a time of day in Coordinated Universal Time, to the nanosecond. A second may last
twice as long: what has passed of it is then a whole second or more. In the last second of a minute this is
the sixty-first second, and it is written so. In another second it is written as the second after it, so
that it is not read again as it was: only in the last second of a minute is such a moment settled. What a
clock shows is never such a moment; `Instant` is what it shows.

A moment is written `YYYY-MM-DDThh:mm:ss` with as many decimals of the second as it needs, in groups
of three, and a final `Z`; years outside four digits have a sign. It is read more freely: numbers may
have a single digit, blanks may precede them and the separators, the date may be parted from the time
by a space, and any offset of less than a day may be given in place of the `Z`.
-/

namespace LifecycleTelemetry
namespace Calendar

/-- A date and a time of day, with what has passed of the second. -/
structure Moment where
  date : Date
  hour : Nat
  minute : Nat
  second : Nat
  nano : Nat
  hour_lt : hour < 24
  minute_lt : minute < 60
  second_lt : second < 60
  nano_lt : nano < 2000000000
deriving DecidableEq

/-- A moment as a clock shows it: no second has lasted longer. -/
structure Instant extends Moment where
  nano_single : nano < 1000000000
deriving DecidableEq

instance : Coe Instant Moment :=
  ⟨Instant.toMoment⟩

namespace Moment

/-- Only the last second of a minute has lasted longer, if any has. -/
def IsSettled (m : Moment) : Prop :=
  m.nano < 1000000000 ∨ m.second = 59

instance (m : Moment) : Decidable m.IsSettled :=
  inferInstanceAs (Decidable (_ ∨ _))

/-- The moment with the given numbers, if there is one. The sixty-first second of a minute is the
continuation of the one before it. -/
def ofNumbers? (date : Date) (hour minute second nano : Nat) : Option Moment :=
  if h : hour < 24 ∧ minute < 60 ∧ second ≤ 60 ∧ nano < 1000000000 then
    if hlast : second = 60 then
      some ⟨date, hour, minute, 59, 1000000000 + nano, h.1, h.2.1, by decide, by omega⟩
    else
      some ⟨date, hour, minute, second, nano, h.1, h.2.1, by omega, by omega⟩
  else none

/-- The moment as far into its second, but on another day and in another minute of it. -/
def inMinute? (m : Moment) (date : Date) (minute : Nat) : Option Moment :=
  if h : minute / 60 < 24 then
    some { m with
      date
      hour := minute / 60
      minute := minute % 60
      hour_lt := h
      minute_lt := Nat.mod_lt _ (by decide) }
  else none

/-- The same reading of the clock a number of minutes earlier, less than a day. -/
def minutesEarlier? (m : Moment) (minutes : Int) : Option Moment :=
  let total : Int := (m.hour : Int) * 60 + m.minute - minutes
  if total < 0 then m.date.previous?.bind fun date => m.inMinute? date (total + 1440).toNat
  else if 1440 ≤ total then m.date.next?.bind fun date => m.inMinute? date (total - 1440).toNat
  else m.inMinute? m.date total.toNat

/-! ## Writing -/

/-- A number with at least the given count of digits. -/
def padded (width n : Nat) : List Char :=
  let digits := Nat.toDigits 10 n
  List.replicate (width - digits.length) '0' ++ digits

/-- A year of four digits, or one with a sign and at least four digits. -/
def yearText (year : Int) : List Char :=
  if 0 ≤ year ∧ year ≤ 9999 then padded 4 year.toNat
  else (if year < 0 then '-' else '+') :: padded 4 year.natAbs

/-- The decimals of a second in as few groups of three as hold them. -/
def fractionText (nano : Nat) : List Char :=
  if nano = 0 then []
  else if nano % 1000000 = 0 then '.' :: padded 3 (nano / 1000000)
  else if nano % 1000 = 0 then '.' :: padded 6 (nano / 1000)
  else '.' :: padded 9 nano

/-- The written form of a moment. A second that has lasted longer is written as the one after it. -/
def chars (m : Moment) : List Char :=
  yearText m.date.year ++ '-' :: padded 2 m.date.month ++ '-' :: padded 2 m.date.day ++
    'T' :: padded 2 m.hour ++ ':' :: padded 2 m.minute ++
    ':' :: padded 2 (m.second + m.nano / 1000000000) ++
    fractionText (m.nano % 1000000000) ++ ['Z']

/-- The written form of a moment. -/
def text (m : Moment) : String :=
  String.ofList m.chars

/-! ## Reading -/

/-- The number that decimal digits denote. -/
def valueOf (digits : List Char) : Nat :=
  digits.foldl (fun value c => value * 10 + (c.toNat - 0x30)) 0

/-- Reads between one and `most` decimal digits. -/
def readDigits (most : Nat) (cs : List Char) : Option (List Char × List Char) :=
  let digits := (cs.takeWhile Char.isDigit).take most
  if digits.isEmpty then none else some (digits, cs.drop digits.length)

/-- Reads a number of one or two digits, with blanks before it. -/
def readNumber (cs : List Char) : Option (Nat × List Char) := do
  let (digits, rest) ← readDigits 2 (Text.dropBlanks cs)
  return (valueOf digits, rest)

/-- Reads a year, with blanks before it: up to four digits, or any number of them after a sign. -/
def readYear (cs : List Char) : Option (Int × List Char) :=
  let signed (negative : Bool) (rest : List Char) : Option (Int × List Char) := do
    let (digits, rest) ← readDigits rest.length rest
    let value : Int := valueOf digits
    return (if negative then -value else value, rest)
  match Text.dropBlanks cs with
  | '-' :: rest => signed true rest
  | '+' :: rest => signed false rest
  | rest => do
      let (digits, rest) ← readDigits 4 rest
      return (valueOf digits, rest)

/-- Reads a separator, with blanks before it. -/
def readMark (mark : Char) (cs : List Char) : Option (List Char) :=
  match Text.dropBlanks cs with
  | [] => none
  | c :: rest => if c = mark then some rest else none

/-- Reads the decimals of a second where a point follows; digits after the ninth have no effect. -/
def readFraction : List Char → Option (Nat × List Char)
  | '.' :: rest => do
      let (digits, tail) ← readDigits 9 rest
      return (valueOf digits * Nat.pow 10 (9 - digits.length), tail.dropWhile Char.isDigit)
  | rest => some (0, rest)

/-- The number that two characters denote when both are digits. -/
def twoDigits? (tens ones : Char) : Option Nat :=
  if tens.isDigit ∧ ones.isDigit then some (valueOf [tens, ones]) else none

/-- Whether an offset counts westward, for a character that starts one. -/
def westward? (c : Char) : Option Bool :=
  if c = '+' then some false
  else if c = '-' ∨ c.toNat = 0x2212 then some true
  else none

/-- Reads the minutes of an offset after its hours, with any colons and blanks between them. -/
def readOffsetMinutes (cs : List Char) : Option (Nat × List Char) :=
  match cs.dropWhile fun c => c = ':' || Text.isBlank c with
  | tens :: ones :: rest => do
      let minutes ← twoDigits? tens ones
      if minutes < 60 then some (minutes, rest) else none
  | _ => none

/-- Reads what follows the time, as minutes east of the zero meridian: one of the names of universal
time in either case, or a sign with two digits each of hours and minutes. -/
def readOffset (cs : List Char) : Option (Int × List Char) :=
  match cs with
  | u :: t :: c :: rest =>
      if u.toUpper = 'U' ∧ t.toUpper = 'T' ∧ c.toUpper = 'C' then some (0, rest)
      else if u = 'Z' ∨ u = 'z' then some (0, t :: c :: rest)
      else do
        let west ← westward? u
        let hours ← twoDigits? t c
        let (minutes, rest) ← readOffsetMinutes rest
        let total : Int := hours * 60 + minutes
        if total < 1440 then some (if west then -total else total, rest) else none
  | c :: rest => if c = 'Z' ∨ c = 'z' then some (0, rest) else none
  | [] => none

/-- Reads what parts the date from the time. -/
def readGap : List Char → Option (List Char)
  | [] => none
  | c :: rest => if c = 'T' ∨ c = 't' ∨ c = ' ' then some rest else none

/-- The moment with the given numbers, where clocks are ahead of universal time by an offset. It must exist
there as well as in universal time. -/
def ofLocal? (date : Option Date) (hour minute second nano : Nat) (offset : Int) : Option Moment := do
  let here ← ofNumbers? (← date) hour minute second nano
  here.minutesEarlier? offset

/-- The moment that a text denotes. -/
def ofChars? (cs : List Char) : Option Moment := do
  let (year, cs) ← readYear cs
  let cs ← readMark '-' cs
  let (month, cs) ← readNumber cs
  let cs ← readMark '-' cs
  let (day, cs) ← readNumber cs
  let cs ← readGap cs
  let (hour, cs) ← readNumber cs
  let cs ← readMark ':' cs
  let (minute, cs) ← readNumber cs
  let cs ← readMark ':' cs
  let (second, cs) ← readNumber cs
  let (nano, cs) ← readFraction cs
  let (offset, cs) ← readOffset (Text.dropBlanks cs)
  if cs.all Text.isBlank then
    ofLocal? (Date.ofNumbers? year month day) hour minute second nano offset
  else none

/-- The moment that a text denotes. -/
def ofText? (s : String) : Option Moment :=
  ofChars? s.toList

end Moment

namespace Instant

/-- What is shown at the start of the first of January 1970. -/
def epoch : Instant :=
  ⟨⟨Date.epoch, 0, 0, 0, 0, by decide, by decide, by decide, by decide⟩, by decide⟩

/-- What is shown at a number of seconds and nanoseconds after the start of 1970. -/
def ofUnix? (seconds : Int) (nano : Nat) : Option Instant := do
  let days := seconds.fdiv 86400
  let time := (seconds - days * 86400).toNat
  let date ← Date.ofDays? days
  if h : time / 3600 < 24 ∧ nano < 1000000000 then
    some ⟨⟨date, time / 3600, time / 60 % 60, time % 60, nano, h.1, Nat.mod_lt _ (by decide),
      Nat.mod_lt _ (by decide), by omega⟩, h.2⟩
  else none

/-- The nanoseconds between what is shown and the start of 1970. -/
def nanoseconds (m : Instant) : Int :=
  let minutes := m.date.days * 1440 + m.hour * 60 + m.minute
  (minutes * 60 + m.second) * 1000000000 + m.nano

end Instant
end Calendar
end LifecycleTelemetry
