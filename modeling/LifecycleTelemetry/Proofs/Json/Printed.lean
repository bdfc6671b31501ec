import LifecycleTelemetry.Proofs.Json.Lexemes

/-!
# Printed values are documents

A value is printed as the text of one document, with the same keys in the same order, and the reader
finds that document in it. The proof goes by way of the lexemes: those of
the document are what the text splits into, and they lead through the states of the reader to the
document again.
-/

namespace LifecycleTelemetry
namespace Json

/-! ## The lexemes of a document -/

namespace Document

mutual

/-- The lexemes of a document. -/
def lexemes : Document → List Token
  | .null => [.null]
  | .bool b => [.bool b]
  | .numeral n => [.numeral n]
  | .text pieces => [.text pieces]
  | .array items => .openArray :: itemLexemes items
  | .object fields => .openObject :: fieldLexemes fields

/-- The lexemes of the items of an array, with the closing bracket. -/
def itemLexemes : List Document → List Token
  | [] => [.closeArray]
  | [last] => lexemes last ++ [.closeArray]
  | item :: rest => lexemes item ++ .comma :: itemLexemes rest

/-- The lexemes of the fields of an object, with the closing brace. -/
def fieldLexemes : List (List Piece × Document) → List Token
  | [] => [.closeObject]
  | [(key, last)] => .text key :: .colon :: (lexemes last ++ [.closeObject])
  | (key, field) :: rest => .text key :: .colon :: (lexemes field ++ .comma :: fieldLexemes rest)

end

/-- A document does not start with a closing bracket, so that it is read as the first item of an array
just as it is read anywhere. -/
theorem run?_firstItem
    (stack : List Frame)
    (d : Document)
    (rest : List Token) :
    run? stack .firstItem (d.lexemes ++ rest) = run? stack .value (d.lexemes ++ rest) := by
  cases d <;> simp [lexemes, run?, step?]

mutual

/-- Where a value may stand, the lexemes of a document are read as that document. -/
theorem run?_lexemes
    (stack : List Frame)
    (d : Document)
    (rest : List Token) :
    run? stack .value (d.lexemes ++ rest) = run? stack (.after d) rest := by
  cases d with
  | null => rfl
  | bool b => rfl
  | numeral n => rfl
  | text pieces => rfl
  | array items =>
      cases items with
      | nil => rfl
      | cons item more =>
          have hopen :
              run? stack .value (lexemes (.array (item :: more)) ++ rest)
                = run? (.array [] :: stack) .firstItem (itemLexemes (item :: more) ++ rest) := by
            rfl
          have hfirst :
              run? (.array [] :: stack) .firstItem (itemLexemes (item :: more) ++ rest)
                = run? (.array [] :: stack) .value (itemLexemes (item :: more) ++ rest) := by
            cases more with
            | nil =>
                simp only [itemLexemes, List.append_assoc]
                exact run?_firstItem _ item _
            | cons next more =>
                simp only [itemLexemes, List.append_assoc]
                exact run?_firstItem _ item _
          rw [hopen, hfirst]
          exact run?_itemLexemes stack [] item more rest
  | object fields =>
      cases fields with
      | nil => rfl
      | cons field more =>
          have hopen :
              run? stack .value (lexemes (.object (field :: more)) ++ rest)
                = run? stack (.field []) (fieldLexemes (field :: more) ++ rest) := by
            obtain ⟨key, d⟩ := field
            cases more <;> rfl
          rw [hopen]
          exact run?_fieldLexemes stack [] field more rest
termination_by sizeOf d

/-- The items of an array are read behind those before them, up to its end. -/
theorem run?_itemLexemes
    (stack : List Frame)
    (before : List Document)
    (item : Document)
    (more : List Document)
    (rest : List Token) :
    run? (.array before :: stack) .value (itemLexemes (item :: more) ++ rest)
      = run? stack (.after (.array (before.reverse ++ item :: more))) rest := by
  cases more with
  | nil =>
      rw [itemLexemes, List.append_assoc, run?_lexemes]
      simp [run?, step?]
  | cons next more =>
      rw [itemLexemes, List.append_assoc, run?_lexemes, List.cons_append]
      have hcomma :
          run? (.array before :: stack) (.after item)
              (.comma :: (itemLexemes (next :: more) ++ rest))
            = run? (.array (item :: before) :: stack) .value
                (itemLexemes (next :: more) ++ rest) := by
        rfl
      rw [hcomma, run?_itemLexemes stack (item :: before) next more rest]
      simp
      exact List.cons_ne_nil next more
termination_by sizeOf (item :: more)

/-- The fields of an object are read behind those before them, up to its end. -/
theorem run?_fieldLexemes
    (stack : List Frame)
    (before : List (List Piece × Document))
    (field : List Piece × Document)
    (more : List (List Piece × Document))
    (rest : List Token) :
    run? stack (.field before) (fieldLexemes (field :: more) ++ rest)
      = run? stack (.after (.object (before.reverse ++ field :: more))) rest := by
  obtain ⟨key, d⟩ := field
  have hkey :
      ∀ tail : List Token,
        run? stack (.field before) (.text key :: .colon :: tail)
          = run? (.object before key :: stack) .value tail := by
    intro tail
    rfl
  cases more with
  | nil =>
      rw [fieldLexemes, List.cons_append, List.cons_append, hkey, List.append_assoc, run?_lexemes]
      simp [run?, step?]
  | cons next more =>
      rw [fieldLexemes, List.cons_append, List.cons_append, hkey, List.append_assoc, run?_lexemes,
        List.cons_append]
      have hcomma :
          run? (.object before key :: stack) (.after d)
              (.comma :: (fieldLexemes (next :: more) ++ rest))
            = run? stack (.field ((key, d) :: before)) (fieldLexemes (next :: more) ++ rest) := by
        rfl
      rw [hcomma, run?_fieldLexemes stack ((key, d) :: before) next more rest]
      simp
      exact List.cons_ne_nil next more
termination_by sizeOf (field :: more)

end

/-- The lexemes of a document are read as that document. -/
theorem ofTokens?_lexemes
    (d : Document) :
    ofTokens? d.lexemes = some d := by
  have hrun := run?_lexemes [] d []
  rwa [List.append_nil] at hrun

end Document

/-! ## The document of a value -/

mutual

/-- The document as which a value is written. -/
def document : Json → Document
  | .null => .null
  | .bool b => .bool b
  | .number n => .numeral n.numeral
  | .string s => .text (Piece.ofText s)
  | .array items => .array (itemDocuments items)
  | .object fields => .object (fieldDocuments fields)

/-- The documents as which the items of an array are written. -/
def itemDocuments : List Json → List Document
  | [] => []
  | item :: rest => document item :: itemDocuments rest

/-- The keys and documents as which the fields of an object are written. -/
def fieldDocuments : List (String × Json) → List (List Piece × Document)
  | [] => []
  | (key, value) :: rest => (Piece.ofText key, document value) :: fieldDocuments rest

end

theorem fieldDocuments_eq_map
    (fields : List (String × Json)) :
    fieldDocuments fields = fields.map fun field => (Piece.ofText field.1, field.2.document) := by
  induction fields with
  | nil => rfl
  | cons field rest ih => rw [fieldDocuments, ih, List.map_cons]

open Token (Scans ScansBefore)

mutual

/-- The text of a value splits into the lexemes of its document. -/
theorem scans_prettyList
    (depth : Nat)
    (v : Json) :
    ScansBefore (v.prettyList depth) v.document.lexemes := by
  cases v with
  | null =>
      exact Token.scans_null.before
  | bool b =>
      exact (Token.scans_boolText b).before
  | number n =>
      exact Token.scans_number n
  | string s =>
      exact (Token.scans_quoted s).before
  | array items =>
      have hopen : Scans ['['] [.openArray] := Token.scans_punctuation (by decide) rfl
      cases items with
      | nil => exact (hopen.append (Token.scans_punctuation (by decide) rfl)).before
      | cons item more => exact (hopen.append (scans_prettyItems depth item more)).before
  | object fields =>
      have hopen : Scans ['\x7b'] [.openObject] := Token.scans_punctuation (by decide) rfl
      cases fields with
      | nil => exact (hopen.append (Token.scans_punctuation (by decide) rfl)).before
      | cons field more => exact (hopen.append (scans_prettyFields depth field more)).before
termination_by sizeOf v

/-- The text of the items of an array splits into the lexemes of their documents. -/
theorem scans_prettyItems
    (depth : Nat)
    (item : Json)
    (more : List Json) :
    Scans (prettyItems depth (item :: more)) (Document.itemLexemes (itemDocuments (item :: more))) := by
  have hitem := scans_prettyList (depth + 1) item
  have hclose : Scans [']'] [.closeArray] := Token.scans_punctuation (by decide) rfl
  have hcomma : Scans [','] [.comma] := Token.scans_punctuation (by decide) rfl
  have hline := Token.scans_newline
  cases more with
  | nil =>
      have hend := hitem.append ((hline depth).append hclose) (by decide)
      simpa [prettyItems, itemDocuments, Document.itemLexemes, newline] using
        (hline (depth + 1)).append hend
  | cons next more =>
      have hrest := hcomma.append (scans_prettyItems depth next more)
      have hend := hitem.append hrest (by decide)
      simpa [prettyItems, itemDocuments, Document.itemLexemes] using (hline (depth + 1)).append hend
termination_by sizeOf (item :: more)

/-- The text of the fields of an object splits into the lexemes of their keys and documents. -/
theorem scans_prettyFields
    (depth : Nat)
    (field : String × Json)
    (more : List (String × Json)) :
    Scans (prettyFields depth (field :: more))
      (Document.fieldLexemes (fieldDocuments (field :: more))) := by
  have hsize : sizeOf field.2 < sizeOf field := by
    cases field
    simp only [Prod.mk.sizeOf_spec]
    omega
  have hvalue := scans_prettyList (depth + 1) field.2
  have hclose : Scans ['\x7d'] [.closeObject] := Token.scans_punctuation (by decide) rfl
  have hcomma : Scans [','] [.comma] := Token.scans_punctuation (by decide) rfl
  have hline := Token.scans_newline
  have hkey :
      Scans (newline (depth + 1) ++ (Text.quoted field.1 ++ ([':'] ++ [' '])))
        ([] ++ ([.text (Piece.ofText field.1)] ++ ([.colon] ++ []))) :=
    (hline (depth + 1)).append ((Token.scans_quoted field.1).append
      ((Token.scans_punctuation (by decide) rfl).append (Token.scans_gap (by decide))))
  cases more with
  | nil =>
      have hend := hvalue.append ((hline depth).append hclose) (by decide)
      simpa [prettyFields, fieldDocuments, Document.fieldLexemes, newline] using hkey.append hend
  | cons next more =>
      have hrest := hcomma.append (scans_prettyFields depth next more)
      have hend := hvalue.append hrest (by decide)
      simpa [prettyFields, fieldDocuments, Document.fieldLexemes] using hkey.append hend
termination_by sizeOf (field :: more)

end

/-- The text of a value is read as its document. -/
theorem ofText?_pretty
    (v : Json) :
    Document.ofText? v.pretty = some v.document := by
  have hscan := scans_prettyList 0 v [] (by simp [Token.Breaks])
  rw [List.append_nil, Token.scan_nil] at hscan
  simp only [Document.ofText?, pretty, String.toList_ofList, hscan]
  simp [Document.ofTokens?_lexemes]

end Json
end LifecycleTelemetry
