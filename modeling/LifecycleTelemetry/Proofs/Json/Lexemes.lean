import LifecycleTelemetry.Json.Reader
import LifecycleTelemetry.Proofs.Json.Numerals

/-!
# The lexemes of a printed value

The laid-out text of a value splits into exactly the lexemes that one would expect of the value. Words,
brackets and quoted texts end by themselves, whatever follows. A numeral ends where a text follows that
cannot continue it, which in a printed value is always so.
-/

namespace LifecycleTelemetry
namespace Json

open Text (hexDigit hexValue? escapeChar quoted)

/-! ## Quoted texts -/

/-- What the written form of a character is read as: a numeric escape where it is written as one. -/
def Piece.ofChar (c : Char) : Piece :=
  if c.toNat < 0x20 ∧ 2 < (escapeChar c).length then .unit c.toNat else .char c

/-- The parts of a text as it is written. -/
def Piece.ofText (s : String) : List Piece :=
  s.toList.map Piece.ofChar

theorem hexValue?_hexDigit
    {n : Nat}
    (h : n < 16) :
    hexValue? (hexDigit n) = some n := by
  revert n
  decide

theorem Piece.chars?_ofChar
    (c : Char)
    (rest : List Piece) :
    Piece.chars? (Piece.ofChar c :: rest) = (Piece.chars? rest).map (c :: ·) := by
  unfold Piece.ofChar
  split
  · rename_i hlow
    have hunit : c.toNat < 0xD800 ∨ 0xE000 ≤ c.toNat := by omega
    rw [Piece.chars?.eq_def]
    simp [hunit]
  · rfl

/-- The parts of a written text denote that text. -/
@[simp]
theorem Piece.text?_ofText
    (s : String) :
    Piece.text? (Piece.ofText s) = some s := by
  have hchars :
      ∀ cs : List Char, Piece.chars? (cs.map Piece.ofChar) = some cs := by
    intro cs
    induction cs with
    | nil => rfl
    | cons c cs ih => simp [Piece.chars?_ofChar, ih]
  simp [Piece.text?, Piece.ofText, hchars]

namespace Token

theorem scanText_escapeChar
    (c : Char)
    (rest : List Char) :
    scanText (escapeChar c ++ rest) =
      (scanText rest).map fun read => (Piece.ofChar c :: read.1, read.2) := by
  have hbind :
      ∀ piece : Piece,
        (scanText rest).bind (fun read => some (piece :: read.1, read.2))
          = (scanText rest).map fun read => (piece :: read.1, read.2) := by
    intro piece
    cases scanText rest <;> rfl
  by_cases hquote : c = '"'
  · subst hquote
    exact hbind (.char '"')
  by_cases hslash : c = '\\'
  · subst hslash
    exact hbind (.char '\\')
  by_cases hb : c = '\x08'
  · subst hb
    exact hbind (.char '\x08')
  by_cases ht : c = '\t'
  · subst ht
    exact hbind (.char '\t')
  by_cases hn : c = '\n'
  · subst hn
    exact hbind (.char '\n')
  by_cases hf : c = '\x0c'
  · subst hf
    exact hbind (.char '\x0c')
  by_cases hr : c = '\r'
  · subst hr
    exact hbind (.char '\r')
  by_cases hlow : c.toNat < 0x20
  · have hescape :
        escapeChar c = ['\\', 'u', '0', '0', hexDigit (c.toNat / 16), hexDigit (c.toNat % 16)] := by
      simp [escapeChar, hquote, hslash, hb, ht, hn, hf, hr, hlow]
    have hpiece : Piece.ofChar c = .unit c.toNat := by
      simp [Piece.ofChar, hescape, hlow]
    have hunit :
        codeUnit? '0' '0' (hexDigit (c.toNat / 16)) (hexDigit (c.toNat % 16)) = some c.toNat := by
      have hzero : hexValue? '0' = some 0 := by decide
      have htens := hexValue?_hexDigit (show c.toNat / 16 < 16 by omega)
      have hones := hexValue?_hexDigit (show c.toNat % 16 < 16 by omega)
      simp only [codeUnit?, hzero, htens, hones, bind, Option.bind, pure]
      congr 1
      omega
    rw [hescape, hpiece, ← hbind]
    simp [scanText, hunit]
  · have hplain : escapeChar c = [c] :=
      Text.escapeChar_plain c hquote hslash (by omega)
    have hpiece : Piece.ofChar c = .char c := by
      simp [Piece.ofChar, hlow]
    rw [hplain, hpiece, ← hbind]
    simp [scanText, hslash, hlow]

/-- A quoted text is read up to its closing mark. -/
theorem scanText_quoted
    (s : String)
    (rest : List Char) :
    scanText (s.toList.flatMap escapeChar ++ '"' :: rest) = some (Piece.ofText s, rest) := by
  unfold Piece.ofText
  induction s.toList with
  | nil =>
      simp [scanText]
  | cons c cs ih =>
      rw [List.flatMap_cons, List.append_assoc, scanText_escapeChar, ih]
      rfl

/-! ## Splitting -/

theorem scan_nil :
    scan [] = some [] := by
  simp [scan]

theorem scan_gap
    {c : Char}
    (rest : List Char)
    (h : isGap c = true) :
    scan (c :: rest) = scan rest := by
  rw [scan, if_pos h]

theorem scan_next
    {c : Char}
    {rest tail : List Char}
    {token : Token}
    (hgap : isGap c = false)
    (hnext : next? c rest = some (token, tail)) :
    scan (c :: rest) = (scan tail).map (token :: ·) := by
  rw [scan, if_neg (by simp [hgap])]
  split
  · rename_i hnone
    rw [hnext] at hnone
    cases hnone
  · rename_i hsome
    rw [hnext] at hsome
    cases hsome
    rfl

/-- A text that splits into the given lexemes, whatever follows it. -/
def Scans (cs : List Char) (tokens : List Token) : Prop :=
  ∀ rest : List Char, scan (cs ++ rest) = (scan rest).map (tokens ++ ·)

/-- A text that splits into the given lexemes where what follows it ends a numeral. -/
def ScansBefore (cs : List Char) (tokens : List Token) : Prop :=
  ∀ rest : List Char, Breaks rest → scan (cs ++ rest) = (scan rest).map (tokens ++ ·)

theorem Scans.before
    {cs : List Char}
    {tokens : List Token}
    (h : Scans cs tokens) :
    ScansBefore cs tokens :=
  fun rest _ => h rest

theorem Scans.append
    {cs ds : List Char}
    {tokens more : List Token}
    (h : Scans cs tokens)
    (k : Scans ds more) :
    Scans (cs ++ ds) (tokens ++ more) := by
  intro rest
  rw [List.append_assoc, h, k, Option.map_map]
  simp only [Function.comp_def, List.append_assoc]

theorem Scans.append_before
    {cs ds : List Char}
    {tokens more : List Token}
    (h : Scans cs tokens)
    (k : ScansBefore ds more) :
    ScansBefore (cs ++ ds) (tokens ++ more) := by
  intro rest hrest
  rw [List.append_assoc, h, k rest hrest, Option.map_map]
  simp only [Function.comp_def, List.append_assoc]

theorem ScansBefore.append
    {cs ds : List Char}
    {c : Char}
    {tokens more : List Token}
    (h : ScansBefore cs tokens)
    (k : Scans (c :: ds) more)
    (hc : c.isDigit = false ∧ c ≠ '.' ∧ c ≠ 'e' ∧ c ≠ 'E') :
    Scans (cs ++ c :: ds) (tokens ++ more) := by
  intro rest
  rw [List.append_assoc, h (c :: ds ++ rest) (breaks_cons _ hc), k, Option.map_map]
  simp only [Function.comp_def, List.append_assoc]

theorem scans_nil :
    Scans [] [] := by
  intro rest
  simp

theorem scans_gap
    {c : Char}
    (h : isGap c = true) :
    Scans [c] [] := by
  intro rest
  simp [scan_gap rest h]

theorem scans_punctuation
    {c : Char}
    {token : Token}
    (hgap : isGap c = false)
    (h : punctuation? c = some token) :
    Scans [c] [token] := by
  intro rest
  exact scan_next hgap (by simp [next?, h])

theorem scans_null :
    Scans "null".toList [.null] := by
  intro rest
  exact scan_next (by decide) rfl

theorem scans_boolText
    (b : Bool) :
    Scans (boolText b) [.bool b] := by
  intro rest
  cases b
  · exact scan_next (by decide) rfl
  · exact scan_next (by decide) rfl

theorem scans_quoted
    (s : String) :
    Scans (quoted s) [.text (Piece.ofText s)] := by
  intro rest
  rw [quoted, List.cons_append, List.append_assoc]
  refine scan_next (by decide) ?_
  rw [next?]
  simp [punctuation?, scanText_quoted]

theorem scans_newline
    (depth : Nat) :
    Scans (newline depth) [] := by
  have hblanks : ∀ count : Nat, Scans (List.replicate count ' ') [] := by
    intro count
    induction count with
    | zero => exact scans_nil
    | succ count ih => exact (scans_gap (by decide)).append ih
  exact (scans_gap (by decide)).append (hblanks (2 * depth))

/-- A numeral starts with a digit, and so it is looked for wherever a text starts with one. -/
theorem scan_numeral
    {negative : Bool}
    {n : Numeral}
    {cs tail : List Char}
    (h : scanNumeral negative cs = some (n, tail)) :
    scan (if negative then '-' :: cs else cs) = (scan tail).map (.numeral n :: ·) := by
  cases negative with
  | true =>
      exact scan_next (by decide) (by simp [next?, punctuation?, h])
  | false =>
      cases cs with
      | nil => cases h
      | cons c rest =>
          have hdigit : c.isDigit = true := by
            refine Decidable.byContradiction fun hother => ?_
            simp [scanNumeral, scanDigits, hother] at h
          have hne : ∀ d : Char, d.isDigit = false → c ≠ d := fun d => Text.ne_of_isDigit hdigit
          refine scan_next ?_ ?_
          · simp [isGap, hne]
          · simp [next?, punctuation?, hne, h]

/-- The text of a number is read as its numeral. -/
theorem scans_number
    (n : Number) :
    ScansBefore n.text [.numeral n.numeral] := by
  intro rest hrest
  have hscan := scan_numeral (scanNumeral_body (proper_numeral n) hrest)
  rw [← text_numeral, Numeral.text]
  cases hnegative : n.numeral.negative with
  | true => simpa [hnegative] using hscan
  | false => simpa [hnegative] using hscan

end Token
end Json
end LifecycleTelemetry
