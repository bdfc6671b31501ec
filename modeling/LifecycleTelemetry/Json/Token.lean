import LifecycleTelemetry.Json.Number
import LifecycleTelemetry.Text.Quoted

/-!
# Lexemes of the interchange format

A text splits into brackets, commas, colons, the three words, numerals and quoted texts, with
spaces, tabs and line ends anywhere between them. Splitting is a matter of syntax alone: a quoted
text keeps its numeric escapes as they are, so that a half of a surrogate pair is still a lexeme,
and a numeral keeps its digits, however many they are. Whether they denote anything is decided
where a value is wanted.
-/

namespace LifecycleTelemetry
namespace Json

open Text (hexValue?)

/-- A part of a quoted text: a character, or a code unit given by four hexadecimal digits. -/
inductive Piece where
  | char (c : Char)
  | unit (code : Nat)
deriving DecidableEq

/-- A lexeme. -/
inductive Token where
  | openObject
  | closeObject
  | openArray
  | closeArray
  | comma
  | colon
  | null
  | bool (b : Bool)
  | numeral (n : Numeral)
  | text (pieces : List Piece)
deriving DecidableEq

namespace Token

/-- The characters between lexemes. -/
def isGap (c : Char) : Bool :=
  c = ' ' || c = '\t' || c = '\n' || c = '\r'

/-- The character that a letter after a backslash stands for. -/
def escaped? (c : Char) : Option Char :=
  if c = '"' then some '"'
  else if c = '\\' then some '\\'
  else if c = '/' then some '/'
  else if c = 'b' then some '\x08'
  else if c = 'f' then some '\x0c'
  else if c = 'n' then some '\n'
  else if c = 'r' then some '\r'
  else if c = 't' then some '\t'
  else none

/-- The number that four hexadecimal digits denote. -/
def codeUnit? (a b c d : Char) : Option Nat := do
  return (((← hexValue? a) * 16 + (← hexValue? b)) * 16 + (← hexValue? c)) * 16 + (← hexValue? d)

/-- Reads a quoted text up to and including its closing mark. The opening mark has been read.
Characters below U+0020 must be escaped. -/
def scanText : List Char → Option (List Piece × List Char)
  | [] => none
  | '"' :: rest => some ([], rest)
  | '\\' :: 'u' :: a :: b :: c :: d :: rest => do
      let unit ← codeUnit? a b c d
      let (pieces, tail) ← scanText rest
      return (.unit unit :: pieces, tail)
  | '\\' :: e :: rest => do
      let c ← escaped? e
      let (pieces, tail) ← scanText rest
      return (.char c :: pieces, tail)
  | c :: rest => do
      if c.toNat < 0x20 ∨ c = '\\' then none
      else
        let (pieces, tail) ← scanText rest
        return (.char c :: pieces, tail)

/-- The decimal digits that a text starts with, and the rest. -/
def scanDigits (cs : List Char) : List Nat × List Char :=
  ((cs.takeWhile Char.isDigit).map fun c => c.toNat - 0x30, cs.dropWhile Char.isDigit)

/-- Reads the fraction of a numeral, if the text starts with a point. -/
def scanFraction : List Char → Option (Option (List Nat) × List Char)
  | '.' :: rest =>
      match scanDigits rest with
      | ([], _) => none
      | (digits, tail) => some (some digits, tail)
  | rest => some (none, rest)

/-- The number that a list of decimal digits denotes. -/
def valueOf (digits : List Nat) : Nat :=
  digits.foldl (fun value digit => value * 10 + digit) 0

/-- The sign that the digits of an exponent may have, and the rest. -/
def scanSign : List Char → Bool × List Char
  | '-' :: rest => (true, rest)
  | '+' :: rest => (false, rest)
  | rest => (false, rest)

/-- Reads the exponent of a numeral, if the text starts with its letter. -/
def scanExponent : List Char → Option (Option Int × List Char)
  | [] => some (none, [])
  | c :: rest =>
      if c = 'e' ∨ c = 'E' then
        match scanDigits (scanSign rest).2 with
        | ([], _) => none
        | (digits, tail) =>
            let power : Int := valueOf digits
            some (some (if (scanSign rest).1 then -power else power), tail)
      else some (none, c :: rest)

/-- Reads a numeral without its sign. A whole part of several digits does not start with zero. -/
def scanNumeral (negative : Bool) (cs : List Char) : Option (Numeral × List Char) :=
  match scanDigits cs with
  | ([], _) => none
  | (0 :: _ :: _, _) => none
  | (whole, rest) => do
      let (fraction, rest) ← scanFraction rest
      let (exponent, rest) ← scanExponent rest
      return (⟨negative, whole, fraction, exponent⟩, rest)

/-- The rest of a text after a word it has to start with. -/
def scanWord : List Char → List Char → Option (List Char)
  | [], rest => some rest
  | _ :: _, [] => none
  | w :: word, c :: rest => if w = c then scanWord word rest else none

/-- The lexeme that a bracket, a comma or a colon is by itself. -/
def punctuation? (c : Char) : Option Token :=
  if c = '\x7b' then some .openObject
  else if c = '\x7d' then some .closeObject
  else if c = '[' then some .openArray
  else if c = ']' then some .closeArray
  else if c = ',' then some .comma
  else if c = ':' then some .colon
  else none

/-- Reads the lexeme that starts with a given character. -/
def next? (c : Char) (rest : List Char) : Option (Token × List Char) :=
  match punctuation? c with
  | some token => some (token, rest)
  | none =>
      if c = '"' then (scanText rest).map fun (pieces, tail) => (.text pieces, tail)
      else if c = 'n' then (scanWord ['u', 'l', 'l'] rest).map (.null, ·)
      else if c = 't' then (scanWord ['r', 'u', 'e'] rest).map (.bool true, ·)
      else if c = 'f' then (scanWord ['a', 'l', 's', 'e'] rest).map (.bool false, ·)
      else if c = '-' then (scanNumeral true rest).map fun (n, tail) => (.numeral n, tail)
      else (scanNumeral false (c :: rest)).map fun (n, tail) => (.numeral n, tail)

theorem scanText_length
    {cs tail : List Char}
    {pieces : List Piece}
    (h : scanText cs = some (pieces, tail)) :
    tail.length < cs.length := by
  fun_induction scanText cs generalizing pieces tail with
  | case1 => simp at h
  | case2 rest =>
      simp only [Option.some.injEq, Prod.mk.injEq] at h
      simp [← h.2]
  | case3 a b c d rest ih =>
      simp only [Option.bind_eq_bind, Option.bind_eq_some_iff] at h
      obtain ⟨_, _, ⟨p, t⟩, hscan, hpure⟩ := h
      simp only [Option.pure_def, Option.some.injEq, Prod.mk.injEq] at hpure
      have := ih hscan
      simp only [List.length_cons, ← hpure.2]
      omega
  | case4 e rest _ ih =>
      simp only [Option.bind_eq_bind, Option.bind_eq_some_iff] at h
      obtain ⟨_, _, ⟨p, t⟩, hscan, hpure⟩ := h
      simp only [Option.pure_def, Option.some.injEq, Prod.mk.injEq] at hpure
      have := ih hscan
      simp only [List.length_cons, ← hpure.2]
      omega
  | case5 => simp_all
  | case6 c rest _ _ _ _ ih =>
      simp only [Option.bind_eq_bind, Option.bind_eq_some_iff] at h
      obtain ⟨⟨p, t⟩, hscan, hpure⟩ := h
      simp only [Option.pure_def, Option.some.injEq, Prod.mk.injEq] at hpure
      have := ih hscan
      simp only [List.length_cons, ← hpure.2]
      omega

theorem scanDigits_length
    (cs : List Char) :
    (scanDigits cs).2.length ≤ cs.length :=
  (List.dropWhile_suffix _).length_le

theorem scanDigits_length_of_digits
    {cs tail : List Char}
    {digit : Nat}
    {digits : List Nat}
    (h : scanDigits cs = (digit :: digits, tail)) :
    tail.length < cs.length := by
  have hsplit : (cs.takeWhile Char.isDigit).length + (cs.dropWhile Char.isDigit).length
      = cs.length := by
    rw [← List.length_append, List.takeWhile_append_dropWhile]
  simp only [scanDigits, Prod.mk.injEq] at h
  have hlen := congrArg List.length h.1
  simp only [List.length_map, List.length_cons] at hlen
  rw [← h.2]
  omega

theorem scanFraction_length
    {cs tail : List Char}
    {fraction : Option (List Nat)}
    (h : scanFraction cs = some (fraction, tail)) :
    tail.length ≤ cs.length := by
  unfold scanFraction at h
  split at h
  · rename_i rest
    split at h
    · simp at h
    · rename_i digits t _ hscan
      simp only [Option.some.injEq, Prod.mk.injEq] at h
      have hdigits := scanDigits_length rest
      rw [hscan] at hdigits
      simp only at hdigits
      simp only [List.length_cons, ← h.2]
      omega
  · simp only [Option.some.injEq, Prod.mk.injEq] at h
    simp [← h.2]

theorem scanSign_length
    (cs : List Char) :
    (scanSign cs).2.length ≤ cs.length := by
  unfold scanSign
  split <;> simp

theorem scanExponent_length
    {cs tail : List Char}
    {exponent : Option Int}
    (h : scanExponent cs = some (exponent, tail)) :
    tail.length ≤ cs.length := by
  unfold scanExponent at h
  split at h
  · simp only [Option.some.injEq, Prod.mk.injEq] at h
    simp [← h.2]
  · rename_i c rest
    split at h
    · have hsign := scanSign_length rest
      split at h
      · simp at h
      · rename_i digits t _ hscan
        have hdigits := scanDigits_length (scanSign rest).2
        rw [hscan] at hdigits
        simp only [Option.some.injEq, Prod.mk.injEq] at h
        simp only [List.length_cons, ← h.2]
        simp only at hdigits
        omega
    · simp only [Option.some.injEq, Prod.mk.injEq] at h
      simp [← h.2]

theorem scanNumeral_length
    {negative : Bool}
    {cs tail : List Char}
    {numeral : Numeral}
    (h : scanNumeral negative cs = some (numeral, tail)) :
    tail.length < cs.length := by
  unfold scanNumeral at h
  split at h
  · simp at h
  · simp at h
  · rename_i whole rest hnil _ hscan
    simp only [Option.bind_eq_bind, Option.bind_eq_some_iff] at h
    obtain ⟨⟨f, r⟩, hf, ⟨e, t⟩, he, hpure⟩ := h
    simp only [Option.pure_def, Option.some.injEq, Prod.mk.injEq] at hpure
    have hfrac := scanFraction_length hf
    have hexp := scanExponent_length he
    cases whole with
    | nil => exact absurd rfl hnil
    | cons digit digits =>
        have hdigits := scanDigits_length_of_digits hscan
        have htail := hpure.2
        subst htail
        exact Nat.lt_of_le_of_lt (Nat.le_trans hexp hfrac) hdigits

theorem scanWord_length
    {word cs tail : List Char}
    (h : scanWord word cs = some tail) :
    tail.length ≤ cs.length := by
  fun_induction scanWord word cs with
  | case1 => simp_all
  | case2 => simp at h
  | case3 w word rest ih =>
      have := ih h
      simp only [List.length_cons]
      omega
  | case4 => simp at h

/-- What follows a lexeme is no longer than what followed its first character. -/
theorem next?_length
    {c : Char}
    {rest tail : List Char}
    {token : Token}
    (h : next? c rest = some (token, tail)) :
    tail.length ≤ rest.length := by
  unfold next? at h
  split at h
  · simp only [Option.some.injEq, Prod.mk.injEq] at h
    simp [← h.2]
  · have hword :
        ∀ {word : List Char} {t : Token},
          (scanWord word rest).map (t, ·) = some (token, tail) → tail.length ≤ rest.length := by
      intro word t hscan
      simp only [Option.map_eq_some_iff, Prod.mk.injEq] at hscan
      obtain ⟨_, hscan, _, rfl⟩ := hscan
      exact scanWord_length hscan
    have hnumeral :
        ∀ {negative : Bool} {cs : List Char},
          (scanNumeral negative cs).map (fun (n, tail) => (Token.numeral n, tail))
              = some (token, tail) → tail.length < cs.length := by
      intro negative cs hscan
      simp only [Option.map_eq_some_iff, Prod.mk.injEq] at hscan
      obtain ⟨⟨n, t⟩, hscan, _, rfl⟩ := hscan
      exact scanNumeral_length hscan
    split at h
    · simp only [Option.map_eq_some_iff, Prod.mk.injEq] at h
      obtain ⟨⟨pieces, t⟩, hscan, _, rfl⟩ := h
      exact Nat.le_of_lt (scanText_length hscan)
    split at h
    · exact hword h
    split at h
    · exact hword h
    split at h
    · exact hword h
    split at h
    · exact Nat.le_of_lt (hnumeral h)
    · exact Nat.le_of_lt_succ (hnumeral h)

/-- The lexemes of a text, if all of it is lexemes and gaps. -/
def scan : List Char → Option (List Token)
  | [] => some []
  | c :: rest =>
      if isGap c then scan rest
      else
        match _ : next? c rest with
        | none => none
        | some (token, tail) => (scan tail).map (token :: ·)
termination_by cs => cs.length
decreasing_by
  · exact Nat.lt_succ_self rest.length
  · exact Nat.lt_succ_of_le (next?_length (by assumption))

end Token
end Json
end LifecycleTelemetry
