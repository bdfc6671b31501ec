import LifecycleTelemetry.Calendar.Moment
import LifecycleTelemetry.Proofs.Text.Digits

/-!
# Written moments

The written form of a moment is read as that moment, to the nanosecond and for all years that have
dates, if the moment is settled; otherwise it is read as the same nanosecond of the next second. Whatever is
read is settled. Every number in it is written with as many digits as its reader takes, or is followed by
something that is no digit, so that each part is read up to where it ends.
-/

namespace LifecycleTelemetry
namespace Calendar

open Text (isBlank dropBlanks dropBlanks_cons isBlank_of_isDigit)

namespace Moment

/-! ## Digits -/

/-- The number that digits denote is the one that the library reads in them. -/
theorem valueOf_eq
    (digits : List Char) :
    valueOf digits = Nat.ofDigitChars 10 digits 0 := by
  simp only [valueOf, Nat.ofDigitChars_eq_foldl]
  congr
  funext value c
  rw [Nat.mul_comm]
  rfl

theorem valueOf_padded
    (width n : Nat) :
    valueOf (padded width n) = n := by
  simp [valueOf_eq, padded, Nat.ofDigitChars_append]

theorem isDigit_of_mem_padded
    {width n : Nat}
    {c : Char}
    (h : c ∈ padded width n) :
    c.isDigit = true := by
  rcases List.mem_append.mp h with hzero | hdigit
  · rw [List.eq_of_mem_replicate hzero]
    rfl
  · exact Nat.isDigit_of_mem_toDigits (by decide) (by decide) hdigit

theorem padded_ne_nil
    (width n : Nat) :
    padded width n ≠ [] := by
  simp [padded, Nat.toDigits_ne_nil]

theorem length_padded
    {width n : Nat}
    (hn : (Nat.toDigits 10 n).length ≤ width) :
    (padded width n).length = width := by
  simp only [padded, List.length_append, List.length_replicate]
  omega

/-- A padded number starts with a digit. -/
theorem padded_eq_cons
    (width n : Nat) :
    ∃ c : Char, ∃ rest : List Char, padded width n = c :: rest ∧ c.isDigit = true := by
  cases hdigits : padded width n with
  | nil => exact absurd hdigits (padded_ne_nil width n)
  | cons c rest =>
      have hmem : c ∈ padded width n := by simp [hdigits]
      exact ⟨c, rest, rfl, isDigit_of_mem_padded hmem⟩

/-- A padded number is read up to its end where as many digits are wanted as it has. -/
theorem readDigits_padded
    (width n : Nat)
    (rest : List Char)
    (hn : (Nat.toDigits 10 n).length ≤ width) :
    readDigits width (padded width n ++ rest) = some (padded width n, rest) := by
  have hlength := length_padded hn
  have htaken :
      ((padded width n ++ rest).takeWhile Char.isDigit).take width = padded width n := by
    rw [List.takeWhile_append_of_pos fun c => isDigit_of_mem_padded]
    exact List.take_left' hlength
  simp [readDigits, htaken, padded_ne_nil]

/-- A padded number is read up to its end where no further digit follows. -/
theorem readDigits_padded_before
    {most width n : Nat}
    {rest : List Char}
    (hmost : (padded width n).length ≤ most)
    (hrest : ∀ c ∈ rest.head?, c.isDigit = false) :
    readDigits most (padded width n ++ rest) = some (padded width n, rest) := by
  have htaken :
      ((padded width n ++ rest).takeWhile Char.isDigit).take most = padded width n := by
    rw [Text.takeWhile_isDigit (fun c => isDigit_of_mem_padded) hrest, List.take_of_length_le hmost]
  simp [readDigits, htaken, padded_ne_nil]

/-! ## The parts of a moment -/

theorem readNumber_padded
    {n : Nat}
    (rest : List Char)
    (hn : n < 100) :
    readNumber (padded 2 n ++ rest) = some (n, rest) := by
  obtain ⟨c, tail, hcons, hdigit⟩ := padded_eq_cons 2 n
  have hblanks : dropBlanks (padded 2 n ++ rest) = padded 2 n ++ rest := by
    rw [hcons]
    exact dropBlanks_cons _ (isBlank_of_isDigit hdigit)
  have hlength : (Nat.toDigits 10 n).length ≤ 2 :=
    (Nat.length_toDigits_le_iff (by decide) (by decide)).mpr hn
  simp [readNumber, hblanks, readDigits_padded 2 n rest hlength, valueOf_padded]

theorem readMark_self
    {mark : Char}
    (rest : List Char)
    (h : isBlank mark = false) :
    readMark mark (mark :: rest) = some rest := by
  simp [readMark, dropBlanks_cons rest h]

theorem readGap_self
    (rest : List Char) :
    readGap ('T' :: rest) = some rest :=
  rfl

theorem readYear_yearText
    (year : Int)
    (rest : List Char) :
    readYear (yearText year ++ '-' :: rest) = some (year, '-' :: rest) := by
  unfold yearText
  split
  · rename_i hyear
    -- four digits and no sign
    have hlength : (Nat.toDigits 10 year.toNat).length ≤ 4 :=
      (Nat.length_toDigits_le_iff (by decide) (by decide)).mpr (by omega)
    have hread := readDigits_padded 4 year.toNat ('-' :: rest) hlength
    obtain ⟨c, tail, hcons, hdigit⟩ := padded_eq_cons 4 year.toNat
    have hvalue := valueOf_padded 4 year.toNat
    rw [hcons] at hread hvalue ⊢
    rw [readYear, List.cons_append, dropBlanks_cons _ (isBlank_of_isDigit hdigit)]
    split
    · rename_i hminus
      cases hminus
      exact absurd hdigit (by decide)
    · rename_i hplus
      cases hplus
      exact absurd hdigit (by decide)
    · rw [← List.cons_append, hread]
      simp [hvalue]
      omega
  · have hread :
        readDigits (padded 4 year.natAbs ++ '-' :: rest).length
            (padded 4 year.natAbs ++ '-' :: rest)
          = some (padded 4 year.natAbs, '-' :: rest) :=
      readDigits_padded_before (by simp) (by simp)
    by_cases hnegative : year < 0
    · rw [if_pos hnegative, List.cons_append, readYear, dropBlanks_cons _ (by decide)]
      simp only [hread, bind, Option.bind, valueOf_padded, if_true]
      congr
      omega
    · rw [if_neg hnegative, List.cons_append, readYear, dropBlanks_cons _ (by decide)]
      simp only [hread, bind, Option.bind, valueOf_padded, Bool.false_eq_true, if_false]
      congr
      omega

/-- The decimals of a second are read as the nanoseconds they stand for. -/
theorem readFraction_fractionText
    {nano : Nat}
    {c : Char}
    (rest : List Char)
    (hnano : nano < 1000000000)
    (hdigit : c.isDigit = false)
    (hpoint : c ≠ '.') :
    readFraction (fractionText nano ++ c :: rest) = some (nano, c :: rest) := by
  have hrest : ∀ d ∈ (c :: rest).head?, d.isDigit = false := by simpa using hdigit
  have hdecimals :
      ∀ {width n : Nat}, 0 < width → width ≤ 9 → n < 10 ^ width →
        readFraction ('.' :: padded width n ++ c :: rest)
          = some (n * 10 ^ (9 - width), c :: rest) := by
    intro width n hwidth hnine hn
    have hlength := length_padded ((Nat.length_toDigits_le_iff (by decide) hwidth).mpr hn)
    rw [List.cons_append, readFraction]
    rw [readDigits_padded_before (by omega) hrest]
    simp [hlength, valueOf_padded, hdigit]
  unfold fractionText
  split
  · rename_i hzero
    rw [List.nil_append, readFraction, hzero]
    intro tail hcons
    exact hpoint (List.cons.inj hcons).1
  split
  · rw [hdecimals (by decide) (by decide) (by omega)]
    simp
    omega
  split
  · rw [hdecimals (by decide) (by decide) (by omega)]
    simp
    omega
  · rw [hdecimals (by decide) (by decide) (by omega)]
    simp

theorem minutesEarlier?_zero
    (m : Moment) :
    m.minutesEarlier? 0 = some m := by
  have hhour := m.hour_lt
  have hminute := m.minute_lt
  have hearly : ¬ (m.hour : Int) * 60 + m.minute - 0 < 0 := by omega
  have hlate : ¬ 1440 ≤ (m.hour : Int) * 60 + m.minute - 0 := by omega
  have htotal : ((m.hour : Int) * 60 + m.minute - 0).toNat = m.hour * 60 + m.minute := by omega
  have hhours : (m.hour * 60 + m.minute) / 60 = m.hour := by omega
  have hminutes : (m.hour * 60 + m.minute) % 60 = m.minute := by omega
  simp only [minutesEarlier?, inMinute?, if_neg hearly, if_neg hlate, htotal, hhours, hminutes,
    dif_pos hhour]

/-! ## Settled moments -/

/-- The moment as which the written form of a moment is read. -/
def settled (m : Moment) : Moment :=
  if h : m.nano < 1000000000 ∨ m.second = 59 then m
  else
    { m with
      second := m.second + 1
      nano := m.nano - 1000000000
      second_lt := by
        have hsecond := m.second_lt
        omega
      nano_lt := by
        have hnano := m.nano_lt
        omega }

theorem settled_of_isSettled
    {m : Moment}
    (h : m.IsSettled) :
    m.settled = m :=
  dif_pos h

theorem ofNumbers?_written
    (m : Moment) :
    ofNumbers? m.date m.hour m.minute (m.second + m.nano / 1000000000) (m.nano % 1000000000)
      = some m.settled := by
  have hhour := m.hour_lt
  have hminute := m.minute_lt
  have hsecond := m.second_lt
  have hnano := m.nano_lt
  rw [ofNumbers?, dif_pos ⟨hhour, hminute, by omega, by omega⟩]
  unfold settled
  rcases Nat.lt_or_ge m.nano 1000000000 with hsingle | hlonger
  · -- the second has not lasted longer, and is written as it is
    have hquotient : m.second + m.nano / 1000000000 = m.second := by omega
    have hrest : m.nano % 1000000000 = m.nano := by omega
    rw [dif_neg (by omega), dif_pos (.inl hsingle)]
    simp only [hquotient, hrest]
  · have hquotient : m.second + m.nano / 1000000000 = m.second + 1 := by omega
    have hrest : m.nano % 1000000000 = m.nano - 1000000000 := by omega
    by_cases hlast : m.second = 59
    · have hwhole : 1000000000 + (m.nano - 1000000000) = m.nano := by omega
      rw [dif_pos (by omega), dif_pos (.inr hlast)]
      simp only [hrest, hwhole, ← hlast]
    · rw [dif_neg (by omega), dif_neg (by omega)]
      simp only [hquotient, hrest]

theorem isSettled_of_ofNumbers?
    {date : Date}
    {hour minute second nano : Nat}
    {m : Moment}
    (h : ofNumbers? date hour minute second nano = some m) :
    m.IsSettled := by
  unfold ofNumbers? at h
  split at h
  · rename_i hnumbers
    split at h
    · cases h
      exact .inr rfl
    · cases h
      exact .inl hnumbers.2.2.2
  · cases h

theorem isSettled_of_inMinute?
    {m other : Moment}
    {date : Date}
    {minute : Nat}
    (hsettled : m.IsSettled)
    (h : m.inMinute? date minute = some other) :
    other.IsSettled := by
  unfold inMinute? at h
  split at h
  · cases h
    exact hsettled
  · cases h

/-- An earlier reading of the clock is as far into the second. -/
theorem isSettled_of_minutesEarlier?
    {m earlier : Moment}
    {minutes : Int}
    (hsettled : m.IsSettled)
    (h : m.minutesEarlier? minutes = some earlier) :
    earlier.IsSettled := by
  unfold minutesEarlier? at h
  simp only at h
  split at h
  · obtain ⟨date, -, h⟩ := Option.bind_eq_some_iff.mp h
    exact isSettled_of_inMinute? hsettled h
  split at h
  · obtain ⟨date, -, h⟩ := Option.bind_eq_some_iff.mp h
    exact isSettled_of_inMinute? hsettled h
  · exact isSettled_of_inMinute? hsettled h

theorem isSettled_of_ofLocal?
    {date : Option Date}
    {hour minute second nano : Nat}
    {offset : Int}
    {m : Moment}
    (h : ofLocal? date hour minute second nano offset = some m) :
    m.IsSettled := by
  obtain ⟨day, -, h⟩ := Option.bind_eq_some_iff.mp h
  obtain ⟨here, hhere, h⟩ := Option.bind_eq_some_iff.mp h
  exact isSettled_of_minutesEarlier? (isSettled_of_ofNumbers? hhere) h

/-- Whatever has been read is settled. -/
theorem isSettled_of_ofText?
    {s : String}
    {m : Moment}
    (h : ofText? s = some m) :
    m.IsSettled := by
  simp only [ofText?, ofChars?, Option.bind_eq_bind, Option.bind_eq_some_iff] at h
  -- of the thirteen parts that have been read only the numbers in the end matter
  iterate 13 obtain ⟨_, -, h⟩ := h
  split at h
  · exact isSettled_of_ofLocal? h
  · cases h

/-! ## The whole -/

theorem ofChars?_chars
    (m : Moment) :
    ofChars? m.chars = some m.settled := by
  have hmonth := m.date.month_bounds
  have hday : m.date.day ≤ 31 := by
    refine Nat.le_trans m.date.day_le ?_
    unfold daysIn
    split <;> (try split) <;> omega
  have hhour := m.hour_lt
  have hminute := m.minute_lt
  have hsecond := m.second_lt
  have hnano := m.nano_lt
  have hmarks : isBlank '-' = false ∧ isBlank ':' = false := by decide
  simp only [ofChars?, chars, List.append_assoc, List.cons_append]
  rw [readYear_yearText]
  simp only [bind, Option.bind, readMark_self _ hmarks.1, readMark_self _ hmarks.2, readGap_self,
    readNumber_padded _ (show m.date.month < 100 by omega),
    readNumber_padded _ (show m.date.day < 100 by omega),
    readNumber_padded _ (show m.hour < 100 by omega),
    readNumber_padded _ (show m.minute < 100 by omega),
    readNumber_padded _ (show m.second + m.nano / 1000000000 < 100 by omega),
    readFraction_fractionText [] (Nat.mod_lt m.nano (by decide))
      (by decide : 'Z'.isDigit = false) (by decide)]
  have hoffset : readOffset (dropBlanks ['Z']) = some (0, []) := by decide
  simp [hoffset, ofLocal?, Date.ofNumbers?_self, m.ofNumbers?_written, minutesEarlier?_zero]

/-- The written form of a moment is read as that moment, settled. -/
theorem ofText?_text
    (m : Moment) :
    ofText? m.text = some m.settled := by
  simpa [ofText?, text] using ofChars?_chars m

end Moment

/-- What a clock shows is settled. -/
theorem Instant.isSettled
    (m : Instant) :
    m.toMoment.IsSettled :=
  .inl m.nano_single

end Calendar
end LifecycleTelemetry
