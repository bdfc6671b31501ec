import LifecycleTelemetry.Proofs.Json.Grammar
import LifecycleTelemetry.Proofs.Json.Printed

/-!
# The reader recognizes the grammar

A text is read as a document just when the grammar derives it as the text of that document. One half goes
by way of the lexemes: what is spelled splits into those of the document, and they are read as it. The
other half takes a text that has been read apart again, first into gaps and lexemes and then along the
document that the lexemes turned out to be.
-/

namespace LifecycleTelemetry
namespace Json

open Decimal (digitChar)
open Token (Breaks Scans ScansBefore)

/-! ## Reading what is spelled -/

theorem scanText_spelled
    {cs : List Char}
    {pieces : List Piece}
    (h : Piece.Spells cs pieces)
    (rest : List Char) :
    Token.scanText (cs ++ '"' :: rest) = some (pieces, rest) := by
  induction h with
  | nil => simp [Token.scanText]
  | plain hlow hquote hslash _ ih =>
      simp [Token.scanText, hslash, Nat.not_lt.mpr hlow, ih]
  | escape hletter _ ih =>
      simp only [escapes, List.mem_cons, Prod.mk.injEq, List.not_mem_nil, or_false] at hletter
      rcases hletter with ⟨rfl, rfl⟩ | ⟨rfl, rfl⟩ | ⟨rfl, rfl⟩ | ⟨rfl, rfl⟩ | ⟨rfl, rfl⟩ |
        ⟨rfl, rfl⟩ | ⟨rfl, rfl⟩ | ⟨rfl, rfl⟩
      all_goals simp [Token.scanText, Token.escaped?, ih]
  | unit ha hb hc hd _ ih =>
      have hunit := codeUnit?_eq_some_iff.mpr ⟨_, _, _, _, ha, hb, hc, hd, rfl⟩
      simp [Token.scanText, hunit, ih]

/-- A quoted text that is read is one that is spelled, and ends at the first mark that is not escaped. -/
theorem spells_of_scanText
    {cs tail : List Char}
    {pieces : List Piece}
    (h : Token.scanText cs = some (pieces, tail)) :
    ∃ text : List Char, cs = text ++ '"' :: tail ∧ Piece.Spells text pieces := by
  fun_induction Token.scanText cs generalizing pieces tail with
  | case1 => cases h
  | case2 rest =>
      cases h
      exact ⟨[], rfl, .nil⟩
  | case3 a b c d rest ih =>
      obtain ⟨unit, hunit, hmore⟩ := Option.bind_eq_some_iff.mp h
      obtain ⟨⟨more, last⟩, hscan, hpure⟩ := Option.bind_eq_some_iff.mp hmore
      cases hpure
      obtain ⟨i, j, k, l, ha, hb, hc, hd, rfl⟩ := codeUnit?_eq_some_iff.mp hunit
      obtain ⟨text, rfl, htext⟩ := ih hscan
      exact ⟨_, rfl, .unit ha hb hc hd htext⟩
  | case4 letter rest _ ih =>
      obtain ⟨c, hletter, hmore⟩ := Option.bind_eq_some_iff.mp h
      obtain ⟨⟨more, last⟩, hscan, hpure⟩ := Option.bind_eq_some_iff.mp hmore
      cases hpure
      obtain ⟨text, rfl, htext⟩ := ih hscan
      exact ⟨_, rfl, .escape (escaped?_eq_some_iff.mp hletter) htext⟩
  | case5 => cases h
  | case6 c rest hquote _ _ hplain ih =>
      obtain ⟨⟨more, last⟩, hscan, hpure⟩ := Option.bind_eq_some_iff.mp h
      cases hpure
      obtain ⟨hlow, hslash⟩ := not_or.mp hplain
      obtain ⟨text, rfl, htext⟩ := ih hscan
      exact ⟨_, rfl, .plain (Nat.not_lt.mp hlow) hquote hslash htext⟩

/-- A numeral that is spelled is a lexeme where what follows ends it. -/
theorem scansBefore_numeral
    {cs : List Char}
    {n : Numeral}
    (h : Numeral.Spells cs n) :
    ScansBefore cs [.numeral n] := by
  intro rest hrest
  obtain ⟨hproper, hexponent⟩ := h
  have hscan := Token.scan_numeral (Token.scanNumeral_spelled hproper hexponent hrest)
  cases hnegative : n.negative with
  | true => simpa [hnegative] using hscan
  | false => simpa [hnegative] using hscan

theorem scans_text
    {cs : List Char}
    {pieces : List Piece}
    (h : Piece.Spells cs pieces) :
    Scans ('"' :: (cs ++ ['"'])) [.text pieces] := by
  intro rest
  rw [List.cons_append, List.append_assoc]
  refine Token.scan_next (by decide) ?_
  simp [Token.next?, Token.punctuation?, scanText_spelled h]

theorem scans_of_gap
    {gap : List Char}
    (h : Gap gap) :
    Scans gap [] := by
  induction gap with
  | nil => exact Token.scans_nil
  | cons c rest ih =>
      have hc : Token.isGap c = true := isGap_iff.mpr (h c List.mem_cons_self)
      exact (Token.scans_gap hc).append (ih fun d hd => h d (List.mem_cons_of_mem _ hd))

/-- A gap ends a numeral, so that it may follow any lexeme. -/
theorem scansBefore_gap
    {cs gap : List Char}
    {tokens : List Token}
    (h : ScansBefore cs tokens)
    (hgap : Gap gap) :
    ScansBefore (cs ++ gap) tokens := by
  cases gap with
  | nil =>
      rwa [List.append_nil]
  | cons c gap =>
      have hbreaks : c.isDigit = false ∧ c ≠ '.' ∧ c ≠ 'e' ∧ c ≠ 'E' := by
        rcases hgap c List.mem_cons_self with rfl | rfl | rfl | rfl <;> decide
      have hscans := h.append (scans_of_gap hgap) hbreaks
      rw [List.append_nil] at hscans
      exact hscans.before

namespace Document

open Token (scans_punctuation)

theorem scans_open : Scans ['['] [.openArray] := scans_punctuation (by decide) rfl
theorem scans_close : Scans [']'] [.closeArray] := scans_punctuation (by decide) rfl
theorem scans_begin : Scans ['\x7b'] [.openObject] := scans_punctuation (by decide) rfl
theorem scans_end : Scans ['\x7d'] [.closeObject] := scans_punctuation (by decide) rfl
theorem scans_comma : Scans [','] [.comma] := scans_punctuation (by decide) rfl
theorem scans_colon : Scans [':'] [.colon] := scans_punctuation (by decide) rfl

theorem itemLexemes_cons
    (d : Document)
    {items : List Document}
    (h : items ≠ []) :
    itemLexemes (d :: items) = d.lexemes ++ .comma :: itemLexemes items :=
  itemLexemes.eq_3 d items h

theorem fieldLexemes_cons
    (field : List Piece × Document)
    {fields : List (List Piece × Document)}
    (h : fields ≠ []) :
    fieldLexemes (field :: fields)
      = .text field.1 :: .colon :: (field.2.lexemes ++ .comma :: fieldLexemes fields) :=
  fieldLexemes.eq_3 field.1 field.2 fields h

theorem SpellsItems.ne_nil
    {cs : List Char}
    {items : List Document}
    (h : SpellsItems cs items) :
    items ≠ [] := by
  cases h <;> exact List.cons_ne_nil _ _

theorem SpellsFields.ne_nil
    {cs : List Char}
    {fields : List (List Piece × Document)}
    (h : SpellsFields cs fields) :
    fields ≠ [] := by
  cases h <;> exact List.cons_ne_nil _ _

mutual

/-- The text of a document splits into the lexemes of the document. -/
theorem Spells.scans :
    ∀ {cs : List Char} {d : Document}, Spells cs d → ScansBefore cs d.lexemes
  | _, _, .null => Token.scans_null.before
  | _, _, .true => (Token.scans_boolText true).before
  | _, _, .false => (Token.scans_boolText false).before
  | _, _, .numeral hn => scansBefore_numeral hn
  | _, _, .text hpieces => (scans_text hpieces).before
  | _, _, .noItems hgap => (scans_open.append ((scans_of_gap hgap).append scans_close)).before
  | _, _, .items hitems => (scans_open.append hitems.scans).before
  | _, _, .noFields hgap => (scans_begin.append ((scans_of_gap hgap).append scans_end)).before
  | _, _, .fields hfields => (scans_begin.append hfields.scans).before

theorem Padded.scans :
    ∀ {cs : List Char} {d : Document}, Padded cs d → ScansBefore cs d.lexemes
  | _, _, .mk hbefore hd hafter =>
      (scans_of_gap hbefore).append_before (scansBefore_gap hd.scans hafter)

theorem SpellsItems.scans :
    ∀ {cs : List Char} {items : List Document}, SpellsItems cs items →
      Scans (cs ++ [']']) (itemLexemes items)
  | _, _, .last hd => hd.scans.append scans_close (by decide)
  | _, _, .more hd hitems => by
      rw [itemLexemes_cons _ hitems.ne_nil, List.append_assoc]
      exact hd.scans.append (scans_comma.append hitems.scans) (by decide)

theorem SpellsField.scans :
    ∀ {cs : List Char} {field : List Piece × Document}, SpellsField cs field →
      ScansBefore cs (.text field.1 :: .colon :: field.2.lexemes)
  | _, _, .mk hbefore hkey hafter hd => by
      have hall := (scans_of_gap hbefore).append ((scans_text hkey).append
        ((scans_of_gap hafter).append scans_colon))
      simpa using hall.append_before hd.scans

theorem SpellsFields.scans :
    ∀ {cs : List Char} {fields : List (List Piece × Document)}, SpellsFields cs fields →
      Scans (cs ++ ['\x7d']) (fieldLexemes fields)
  | _, _, .last hfield => hfield.scans.append scans_end (by decide)
  | _, _, .more hfield hfields => by
      rw [fieldLexemes_cons _ hfields.ne_nil, List.append_assoc]
      exact hfield.scans.append (scans_comma.append hfields.scans) (by decide)

end

/-- What is written as a document is read as it. -/
theorem ofText?_of_written
    {s : String}
    {d : Document}
    (h : Written s d) :
    ofText? s = some d := by
  have hscan := Padded.scans h [] (by simp [Breaks])
  rw [List.append_nil, Token.scan_nil] at hscan
  simp [ofText?, hscan, ofTokens?_lexemes]

end Document

/-! ## What is read is spelled -/

namespace Token

/-- The text of a lexeme. -/
inductive Spells : List Char → Token → Prop where
  | openObject : Spells ['\x7b'] .openObject
  | closeObject : Spells ['\x7d'] .closeObject
  | openArray : Spells ['['] .openArray
  | closeArray : Spells [']'] .closeArray
  | comma : Spells [','] .comma
  | colon : Spells [':'] .colon
  | null : Spells "null".toList .null
  | true : Spells "true".toList (.bool true)
  | false : Spells "false".toList (.bool false)
  | numeral {cs : List Char} {n : Numeral} : Numeral.Spells cs n → Spells cs (.numeral n)
  | text {cs : List Char} {pieces : List Piece} :
      Piece.Spells cs pieces → Spells ('"' :: (cs ++ ['"'])) (.text pieces)

/-- A text of lexemes, with a gap before each and at the end. -/
inductive Layout : List Char → List Token → Prop where
  | nil {gap : List Char} : Gap gap → Layout gap []
  | cons {gap cs rest : List Char} {token : Token} {tokens : List Token} :
      Gap gap → Spells cs token → Layout rest tokens → Layout (gap ++ (cs ++ rest)) (token :: tokens)

theorem spells_of_punctuation?
    {c : Char}
    {token : Token}
    (h : punctuation? c = some token) :
    Spells [c] token := by
  unfold punctuation? at h
  repeat' split at h
  all_goals cases h
  all_goals subst c
  all_goals constructor

theorem eq_of_scanWord
    {word cs tail : List Char}
    (h : scanWord word cs = some tail) :
    cs = word ++ tail := by
  fun_induction scanWord word cs with
  | case1 => simp_all
  | case2 => cases h
  | case3 w word rest ih => rw [ih h, List.cons_append]
  | case4 => cases h

theorem eq_of_scanDigits
    {cs tail : List Char}
    {digits : List Nat}
    (h : scanDigits cs = (digits, tail)) :
    cs = digits.map digitChar ++ tail ∧ ∀ digit ∈ digits, digit < 10 := by
  have hdigit : ∀ c ∈ cs.takeWhile Char.isDigit, c.isDigit = true :=
    List.all_eq_true.mp List.all_takeWhile
  obtain ⟨rfl, rfl⟩ := Prod.mk.inj h
  constructor
  · have hsame :
        (cs.takeWhile Char.isDigit).map (digitChar ∘ fun c => c.toNat - 0x30)
          = cs.takeWhile Char.isDigit :=
      (List.map_congr_left fun c hc => digitChar_of_isDigit (hdigit c hc)).trans (List.map_id _)
    rw [List.map_map, hsame, List.takeWhile_append_dropWhile]
  · intro digit hmem
    obtain ⟨c, hc, rfl⟩ := List.mem_map.mp hmem
    have hvalue := hdigit c hc
    simp only [Char.isDigit, ge_iff_le, Bool.and_eq_true, decide_eq_true_eq,
      UInt32.le_iff_toNat_le] at hvalue
    obtain ⟨-, hhigh⟩ : 48 ≤ c.toNat ∧ c.toNat ≤ 57 := hvalue
    omega

theorem eq_of_scanFraction
    {cs tail : List Char}
    {fraction : Option (List Nat)}
    (h : scanFraction cs = some (fraction, tail)) :
    cs = (fraction.elim [] fun digits => '.' :: digits.map digitChar) ++ tail ∧
      (∀ digits ∈ fraction, ∀ digit ∈ digits, digit < 10) ∧ fraction ≠ some [] := by
  unfold scanFraction at h
  split at h
  · split at h
    · cases h
    · next hne hscan =>
        cases h
        obtain ⟨htext, hlt⟩ := eq_of_scanDigits hscan
        refine ⟨by rw [htext]; rfl, ?_, fun hnil => hne (Option.some.inj hnil)⟩
        rintro digits ⟨rfl⟩
        exact hlt
  · cases h
    exact ⟨rfl, by simp, by simp⟩

theorem spells_of_scanSign
    (cs : List Char) :
    ∃ sign : List Char, cs = sign ++ (scanSign cs).2 ∧
      Numeral.SpellsSign sign (scanSign cs).1 := by
  unfold scanSign
  split
  · exact ⟨_, rfl, .minus⟩
  · exact ⟨_, rfl, .plus⟩
  · exact ⟨[], rfl, .absent⟩

theorem spells_of_scanExponent
    {cs tail : List Char}
    {exponent : Option Int}
    (h : scanExponent cs = some (exponent, tail)) :
    ∃ text : List Char, cs = text ++ tail ∧ Numeral.SpellsExponent text exponent := by
  unfold scanExponent at h
  split at h
  · cases h
    exact ⟨[], rfl, .absent⟩
  · next c rest =>
      split at h
      · next hletter =>
          obtain ⟨sign, hsign, hspelled⟩ := spells_of_scanSign rest
          split at h
          · cases h
          · next digits last hne hscan =>
              cases h
              obtain ⟨htext, hlt⟩ := eq_of_scanDigits hscan
              refine ⟨c :: (sign ++ digits.map digitChar), ?_, .present hletter hspelled ?_ hlt⟩
              · rw [List.cons_append, List.append_assoc, ← htext, ← hsign]
              · exact fun hnil => hne hnil
      · cases h
        exact ⟨[], rfl, .absent⟩

/-- A numeral that is read is one that is spelled. -/
theorem spells_of_scanNumeral
    {negative : Bool}
    {cs tail : List Char}
    {n : Numeral}
    (h : scanNumeral negative cs = some (n, tail)) :
    ∃ text : List Char, (if negative then ['-'] else []) ++ cs = text ++ tail ∧
      Numeral.Spells text n := by
  unfold scanNumeral at h
  split at h
  · cases h
  · cases h
  · next whole rest hnil hzero hscan =>
      obtain ⟨⟨fraction, more⟩, hfraction, hmore⟩ := Option.bind_eq_some_iff.mp h
      obtain ⟨⟨exponent, last⟩, hexponent, hpure⟩ := Option.bind_eq_some_iff.mp hmore
      cases hpure
      obtain ⟨hwhole, hlt⟩ := eq_of_scanDigits hscan
      obtain ⟨hpoint, hfractionLt, hfractionNe⟩ := eq_of_scanFraction hfraction
      obtain ⟨text, htext, hspelled⟩ := spells_of_scanExponent hexponent
      have hproper : Numeral.Proper ⟨negative, whole, fraction, exponent⟩ :=
        ⟨hlt, fun h => hnil h, fun second rest h => hzero second rest h, hfractionLt, hfractionNe⟩
      refine ⟨_, ?_, .mk hproper hspelled⟩
      rw [hwhole, hpoint, htext]
      simp

/-- A lexeme that is read is one that is spelled. -/
theorem spells_of_next?
    {c : Char}
    {rest tail : List Char}
    {token : Token}
    (h : next? c rest = some (token, tail)) :
    ∃ text : List Char, c :: rest = text ++ tail ∧ Spells text token := by
  have hword :
      ∀ {word : List Char} {t : Token}, Spells (c :: word) t →
        (scanWord word rest).map (t, ·) = some (token, tail) →
          ∃ text : List Char, c :: rest = text ++ tail ∧ Spells text token := by
    intro word t ht hscan
    obtain ⟨last, hlast, hpair⟩ := Option.map_eq_some_iff.mp hscan
    cases hpair
    exact ⟨c :: word, by rw [eq_of_scanWord hlast]; rfl, ht⟩
  unfold next? at h
  split at h
  · next hpunctuation =>
      cases h
      exact ⟨[c], rfl, spells_of_punctuation? hpunctuation⟩
  split at h
  · next hquote =>
      obtain ⟨⟨pieces, last⟩, hscan, hpair⟩ := Option.map_eq_some_iff.mp h
      cases hpair
      obtain ⟨text, rfl, htext⟩ := spells_of_scanText hscan
      exact ⟨'"' :: (text ++ ['"']), by simp [hquote], .text htext⟩
  split at h
  · next hletter => exact hword (hletter ▸ .null) h
  split at h
  · next hletter => exact hword (hletter ▸ .true) h
  split at h
  · next hletter => exact hword (hletter ▸ .false) h
  split at h
  · next hminus =>
      obtain ⟨⟨n, last⟩, hscan, hpair⟩ := Option.map_eq_some_iff.mp h
      cases hpair
      obtain ⟨text, htext, hspelled⟩ := spells_of_scanNumeral hscan
      exact ⟨text, by rw [← htext, hminus]; rfl, .numeral hspelled⟩
  · obtain ⟨⟨n, last⟩, hscan, hpair⟩ := Option.map_eq_some_iff.mp h
    cases hpair
    obtain ⟨text, htext, hspelled⟩ := spells_of_scanNumeral hscan
    exact ⟨text, htext, .numeral hspelled⟩

theorem Layout.gap_cons
    {c : Char}
    {cs : List Char}
    {tokens : List Token}
    (hc : c = ' ' ∨ c = '\t' ∨ c = '\n' ∨ c = '\r')
    (h : Layout cs tokens) :
    Layout (c :: cs) tokens := by
  have hgap : ∀ {gap : List Char}, Gap gap → Gap (c :: gap) :=
    fun hgap => List.forall_mem_cons.mpr ⟨hc, hgap⟩
  cases h with
  | nil h => exact .nil (hgap h)
  | cons h htoken hrest => exact .cons (hgap h) htoken hrest

/-- A text that is read is one of lexemes and gaps. -/
theorem layout_of_scan
    {cs : List Char}
    {tokens : List Token}
    (h : scan cs = some tokens) :
    Layout cs tokens := by
  fun_induction scan cs generalizing tokens with
  | case1 =>
      cases h
      exact .nil (List.forall_mem_nil _)
  | case2 c rest hgap ih =>
      exact (ih h).gap_cons (isGap_iff.mp hgap)
  | case3 => cases h
  | case4 c rest hgap token tail hnext ih =>
      obtain ⟨more, hmore, rfl⟩ := Option.map_eq_some_iff.mp h
      obtain ⟨text, htext, hspelled⟩ := spells_of_next? hnext
      rw [htext]
      exact .cons (List.forall_mem_nil _) hspelled (ih hmore)

end Token
namespace Document

/-! ### The lexemes that have been taken -/

/-- The lexemes of items with a comma after each. -/
def listedItems (items : List Document) : List Token :=
  items.flatMap fun d => d.lexemes ++ [.comma]

/-- The lexemes of fields with a comma after each. -/
def listedFields (fields : List (List Piece × Document)) : List Token :=
  fields.flatMap fun field => .text field.1 :: .colon :: (field.2.lexemes ++ [.comma])

theorem itemLexemes_concat
    (items : List Document)
    (last : Document) :
    itemLexemes (items ++ [last]) = listedItems items ++ (last.lexemes ++ [.closeArray]) := by
  induction items with
  | nil => rfl
  | cons d items ih =>
      have hne : items ++ [last] ≠ [] := List.concat_ne_nil _ _
      rw [List.cons_append, itemLexemes_cons d hne, ih]
      simp [listedItems]

theorem fieldLexemes_concat
    (fields : List (List Piece × Document))
    (last : List Piece × Document) :
    fieldLexemes (fields ++ [last])
      = listedFields fields ++ (.text last.1 :: .colon :: (last.2.lexemes ++ [.closeObject])) := by
  induction fields with
  | nil => rfl
  | cons field fields ih =>
      have hne : fields ++ [last] ≠ [] := List.concat_ne_nil _ _
      rw [List.cons_append, fieldLexemes_cons field hne, ih]
      simp [listedFields]

/-- The lexemes that led to an open bracket and to the place behind it. -/
def Frame.taken : Frame → List Token
  | .array before => .openArray :: listedItems before.reverse
  | .object before key => .openObject :: (listedFields before.reverse ++ [.text key, .colon])

/-- The lexemes behind the open brackets that led to what is expected. -/
def Expected.taken : Expected → List Token
  | .value | .firstItem => []
  | .firstField => [.openObject]
  | .field before => .openObject :: listedFields before.reverse
  | .colon before key => .openObject :: (listedFields before.reverse ++ [.text key])
  | .after done => done.lexemes

/-- The lexemes that led to a state of the reader. -/
def taken (stack : List Frame) (expected : Expected) : List Token :=
  stack.reverse.flatMap Frame.taken ++ expected.taken

/-- A first item is only expected right behind the bracket that it belongs to. -/
def Sound (stack : List Frame) (expected : Expected) : Prop :=
  expected = .firstItem → ∃ outer : List Frame, stack = .array [] :: outer

theorem sound_of_ne
    {stack : List Frame}
    {expected : Expected}
    (h : expected ≠ .firstItem) :
    Sound stack expected :=
  fun hfirst => absurd hfirst h

theorem begin?_taken
    {stack next : List Frame}
    {expected : Expected}
    {token : Token}
    (h : begin? stack token = some (next, expected)) :
    Sound next expected ∧ taken next expected = taken stack .value ++ [token] := by
  unfold begin? at h
  split at h
  · cases h
    exact ⟨fun _ => ⟨stack, rfl⟩, by simp [taken, Frame.taken, Expected.taken, listedItems]⟩
  · cases h
    exact ⟨sound_of_ne (by simp), by simp [taken, Expected.taken]⟩
  · obtain ⟨done, hdone, hpair⟩ := Option.map_eq_some_iff.mp h
    cases hpair
    refine ⟨sound_of_ne (by simp), ?_⟩
    cases token <;> cases hdone <;> simp [taken, Expected.taken, lexemes]

/-- Every lexeme that is taken is added to those that have been. -/
theorem step?_taken
    {stack next : List Frame}
    {expected after : Expected}
    {token : Token}
    (hsound : Sound stack expected)
    (h : step? stack expected token = some (next, after)) :
    Sound next after ∧ taken next after = taken stack expected ++ [token] := by
  cases expected with
  | value => exact begin?_taken h
  | firstItem =>
      obtain ⟨outer, rfl⟩ := hsound rfl
      cases token with
      | closeArray =>
          cases h
          exact ⟨sound_of_ne (by simp), by
            simp [taken, Frame.taken, Expected.taken, listedItems, lexemes, itemLexemes]⟩
      | _ => exact begin?_taken h
  | firstField =>
      cases token with
      | closeObject =>
          cases h
          exact ⟨sound_of_ne (by simp), by simp [taken, Expected.taken, lexemes, fieldLexemes]⟩
      | text key =>
          cases h
          exact ⟨sound_of_ne (by simp), by simp [taken, Expected.taken, listedFields]⟩
      | _ => cases h
  | field before =>
      cases token with
      | text key =>
          cases h
          exact ⟨sound_of_ne (by simp), by simp [taken, Expected.taken]⟩
      | _ => cases h
  | colon before key =>
      cases token with
      | colon =>
          cases h
          exact ⟨sound_of_ne (by simp), by simp [taken, Frame.taken, Expected.taken]⟩
      | _ => cases h
  | after done =>
      cases stack with
      | nil => cases h
      | cons frame outer =>
          cases frame with
          | array before =>
              cases token with
              | comma =>
                  cases h
                  exact ⟨sound_of_ne (by simp), by simp [taken, Frame.taken, Expected.taken, listedItems]⟩
              | closeArray =>
                  cases h
                  exact ⟨sound_of_ne (by simp), by
                    simp [taken, Frame.taken, Expected.taken, lexemes, itemLexemes_concat]⟩
              | _ => cases h
          | object before key =>
              cases token with
              | comma =>
                  cases h
                  exact ⟨sound_of_ne (by simp), by simp [taken, Frame.taken, Expected.taken, listedFields]⟩
              | closeObject =>
                  cases h
                  exact ⟨sound_of_ne (by simp), by
                    simp [taken, Frame.taken, Expected.taken, lexemes, fieldLexemes_concat]⟩
              | _ => cases h

theorem run?_taken
    {stack : List Frame}
    {expected : Expected}
    {tokens : List Token}
    {d : Document}
    (hsound : Sound stack expected)
    (h : run? stack expected tokens = some d) :
    taken stack expected ++ tokens = d.lexemes := by
  induction tokens generalizing stack expected with
  | nil =>
      cases stack with
      | nil =>
          cases expected with
          | after done =>
              cases h
              simp [taken, Expected.taken]
          | _ => cases h
      | cons frame outer => cases h
  | cons token rest ih =>
      unfold run? at h
      split at h
      · next hstep =>
          obtain ⟨hnext, htaken⟩ := step?_taken hsound hstep
          rw [← ih hnext h, htaken, List.append_assoc, List.singleton_append]
      · cases h

/-- Lexemes that are read are those of the document that they are read as. -/
theorem eq_lexemes_of_ofTokens?
    {tokens : List Token}
    {d : Document}
    (h : ofTokens? tokens = some d) :
    tokens = d.lexemes := by
  have hsound : Sound [] .value := sound_of_ne (by simp)
  exact run?_taken hsound h

/-! ### From lexemes to the text of a document -/

open Token (Layout)

/-- The first lexeme of a text, with the gap before it and what stands behind it. -/
theorem uncons_layout
    {cs : List Char}
    {token : Token}
    {tokens : List Token}
    (h : Layout cs (token :: tokens)) :
    ∃ gap text rest : List Char, Gap gap ∧ Token.Spells text token ∧ Layout rest tokens ∧
      cs = gap ++ (text ++ rest) := by
  cases h with
  | cons hgap htext hrest => exact ⟨_, _, _, hgap, htext, hrest, rfl⟩

mutual

/-- A text of the lexemes of a document, and of others behind them, starts with a text of the
document. -/
theorem spells_of_layout
    {cs : List Char}
    {tokens : List Token}
    (d : Document)
    (h : Layout cs (d.lexemes ++ tokens)) :
    ∃ gap text rest : List Char, Gap gap ∧ Spells text d ∧ Layout rest tokens ∧
      cs = gap ++ (text ++ rest) := by
  cases d with
  | null =>
      obtain ⟨gap, text, rest, hgap, htext, hrest, rfl⟩ := uncons_layout h
      cases htext
      exact ⟨gap, _, rest, hgap, .null, hrest, rfl⟩
  | bool b =>
      obtain ⟨gap, text, rest, hgap, htext, hrest, rfl⟩ := uncons_layout h
      cases htext with
      | true => exact ⟨gap, _, rest, hgap, .true, hrest, rfl⟩
      | false => exact ⟨gap, _, rest, hgap, .false, hrest, rfl⟩
  | numeral n =>
      obtain ⟨gap, text, rest, hgap, htext, hrest, rfl⟩ := uncons_layout h
      cases htext with
      | numeral hn => exact ⟨gap, text, rest, hgap, .numeral hn, hrest, rfl⟩
  | text pieces =>
      obtain ⟨gap, text, rest, hgap, htext, hrest, rfl⟩ := uncons_layout h
      cases htext with
      | text hpieces => exact ⟨gap, _, rest, hgap, .text hpieces, hrest, rfl⟩
  | array items =>
      obtain ⟨gap, text, rest, hgap, htext, hrest, rfl⟩ := uncons_layout h
      cases htext
      cases items with
      | nil =>
          obtain ⟨inner, close, last, hinner, hclose, hlast, rfl⟩ := uncons_layout hrest
          cases hclose
          exact ⟨gap, _, last, hgap, .noItems hinner, hlast, by simp⟩
      | cons item more =>
          obtain ⟨inner, last, hinner, hlast, rfl⟩ := spellsItems_of_layout item more hrest
          exact ⟨gap, _, last, hgap, .items hinner, hlast, by simp⟩
  | object fields =>
      obtain ⟨gap, text, rest, hgap, htext, hrest, rfl⟩ := uncons_layout h
      cases htext
      cases fields with
      | nil =>
          obtain ⟨inner, close, last, hinner, hclose, hlast, rfl⟩ := uncons_layout hrest
          cases hclose
          exact ⟨gap, _, last, hgap, .noFields hinner, hlast, by simp⟩
      | cons field more =>
          obtain ⟨inner, last, hinner, hlast, rfl⟩ := spellsFields_of_layout field more hrest
          exact ⟨gap, _, last, hgap, .fields hinner, hlast, by simp⟩
termination_by sizeOf d

theorem spellsItems_of_layout
    {cs : List Char}
    {tokens : List Token}
    (item : Document)
    (more : List Document)
    (h : Layout cs (itemLexemes (item :: more) ++ tokens)) :
    ∃ text rest : List Char, SpellsItems text (item :: more) ∧ Layout rest tokens ∧
      cs = text ++ ']' :: rest := by
  cases more with
  | nil =>
      rw [itemLexemes, List.append_assoc] at h
      obtain ⟨before, text, rest, hbefore, htext, hrest, rfl⟩ := spells_of_layout item h
      obtain ⟨after, close, last, hafter, hclose, hlast, rfl⟩ := uncons_layout hrest
      cases hclose
      exact ⟨_, last, .last (.mk hbefore htext hafter), hlast, by simp⟩
  | cons next more =>
      rw [itemLexemes_cons item (List.cons_ne_nil next more), List.append_assoc] at h
      obtain ⟨before, text, rest, hbefore, htext, hrest, rfl⟩ := spells_of_layout item h
      obtain ⟨after, comma, behind, hafter, hcomma, hbehind, rfl⟩ := uncons_layout hrest
      cases hcomma
      obtain ⟨others, last, hothers, hlast, rfl⟩ := spellsItems_of_layout next more hbehind
      exact ⟨_, last, .more (.mk hbefore htext hafter) hothers, hlast, by simp⟩
termination_by sizeOf (item :: more)

theorem spellsFields_of_layout
    {cs : List Char}
    {tokens : List Token}
    (field : List Piece × Document)
    (more : List (List Piece × Document))
    (h : Layout cs (fieldLexemes (field :: more) ++ tokens)) :
    ∃ text rest : List Char, SpellsFields text (field :: more) ∧ Layout rest tokens ∧
      cs = text ++ '\x7d' :: rest := by
  have hsize : sizeOf field.2 < sizeOf field := by
    cases field
    simp only [Prod.mk.sizeOf_spec]
    omega
  have hfield :
      ∀ {cs : List Char} {token : Token} {others : List Token},
        Layout cs (.text field.1 :: .colon :: (field.2.lexemes ++ token :: others)) →
          ∃ text mark rest : List Char, SpellsField text field ∧ Token.Spells mark token ∧
            Layout rest others ∧ cs = text ++ (mark ++ rest) := by
    intro cs token others hcs
    obtain ⟨gap, quoted, rest, hgap, hquoted, hrest, rfl⟩ := uncons_layout hcs
    obtain ⟨space, colon, behind, hspace, hcolon, hbehind, rfl⟩ := uncons_layout hrest
    obtain ⟨before, text, end_, hbefore, htext, hend, rfl⟩ := spells_of_layout field.2 hbehind
    obtain ⟨after, mark, last, hafter, hmark, hlast, rfl⟩ := uncons_layout hend
    cases hcolon
    cases hquoted with
    | text hkey =>
        exact ⟨_, mark, last, .mk hgap hkey hspace (.mk hbefore htext hafter), hmark, hlast, by simp⟩
  cases more with
  | nil =>
      rw [fieldLexemes, List.cons_append, List.cons_append, List.append_assoc] at h
      obtain ⟨text, close, rest, htext, hclose, hrest, rfl⟩ := hfield h
      cases hclose
      exact ⟨_, rest, .last htext, hrest, by simp⟩
  | cons next more =>
      rw [fieldLexemes_cons _ (List.cons_ne_nil next more), List.cons_append, List.cons_append,
        List.append_assoc] at h
      obtain ⟨text, comma, rest, htext, hcomma, hrest, rfl⟩ := hfield h
      cases hcomma
      obtain ⟨others, last, hothers, hlast, rfl⟩ := spellsFields_of_layout next more hrest
      exact ⟨_, last, .more htext hothers, hlast, by simp⟩
termination_by sizeOf (field :: more)

end

/-- A text is read as a document just when it is written as it. -/
theorem ofText?_eq_some_iff
    {s : String}
    {d : Document} :
    ofText? s = some d ↔ Written s d := by
  constructor
  · intro h
    obtain ⟨tokens, hscan, htokens⟩ := Option.bind_eq_some_iff.mp h
    have hlayout := Token.layout_of_scan hscan
    rw [eq_lexemes_of_ofTokens? htokens, ← List.append_nil d.lexemes] at hlayout
    obtain ⟨before, text, after, hbefore, htext, hafter, hs⟩ := spells_of_layout d hlayout
    cases hafter with
    | nil hgap =>
        rw [Written, hs]
        exact .mk hbefore htext hgap
  · exact ofText?_of_written

/-- No text is that of two documents. -/
theorem Written.unique
    {s : String}
    {d e : Document}
    (hd : Written s d)
    (he : Written s e) :
    d = e :=
  Option.some.inj ((ofText?_of_written hd).symm.trans (ofText?_of_written he))

end Document
end Json
end LifecycleTelemetry
