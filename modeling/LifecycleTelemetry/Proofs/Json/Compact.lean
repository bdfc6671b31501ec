import LifecycleTelemetry.Proofs.Json.Meaning
import LifecycleTelemetry.Proofs.Json.Recognition
import LifecycleTelemetry.Proofs.Json.Reread

/-!
# Compact texts

The compact text of a value is one that the grammar derives, without a gap anywhere. The document that it
is derived for denotes the value again, as long as the fields of every object are in order and all numbers
are integers, however deep the value is nested.
-/

namespace LifecycleTelemetry
namespace Json

open Decimal (digitChar)
open Document (Spells Padded SpellsItems SpellsField SpellsFields Written)

/-! ## The parts of a compact text -/

theorem spells_number
    (x : Number) :
    Numeral.Spells x.text x.numeral := by
  have hspelled := Numeral.Spells.mk (proper_numeral x) (Token.spells_exponentText x.numeral.exponent)
  rw [← text_numeral, Numeral.text, Numeral.body]
  cases hnegative : x.numeral.negative with
  | true => simpa [hnegative] using hspelled
  | false => simpa [hnegative] using hspelled

/-- What is written between quotation marks is spelled. -/
theorem spells_escaped
    (s : String) :
    Piece.Spells (s.toList.flatMap Text.escapeChar) (Piece.ofText s) := by
  obtain ⟨cs, hcs, hspelled⟩ := spells_of_scanText (Token.scanText_quoted s [])
  rwa [List.append_cancel_right hcs]

theorem padded_of_spells
    {cs : List Char}
    {d : Document}
    (h : Spells cs d) :
    Padded cs d := by
  have hnone : Gap [] := List.forall_mem_nil _
  have hpadded := Padded.mk hnone h hnone
  rwa [List.nil_append, List.append_nil] at hpadded

theorem spellsField_quoted
    {cs : List Char}
    {d : Document}
    (key : String)
    (h : Spells cs d) :
    SpellsField (Text.quoted key ++ ':' :: cs) (Piece.ofText key, d) := by
  have hnone : Gap [] := List.forall_mem_nil _
  have hfield := SpellsField.mk hnone (spells_escaped key) hnone (padded_of_spells h)
  simpa [Text.quoted] using hfield

/-! ## The whole text -/

mutual

/-- The compact text of a value is that of its document. -/
theorem spells_compactList
    (v : Json) :
    Spells v.compactList v.document := by
  cases v with
  | null => exact .null
  | bool b =>
      cases b with
      | true => exact .true
      | false => exact .false
  | number x => exact .numeral (spells_number x)
  | string s => exact .text (spells_escaped s)
  | array items =>
      cases items with
      | nil => exact .noItems (List.forall_mem_nil _)
      | cons item more =>
          obtain ⟨cs, hcs, hitems⟩ := spells_compactItems item more
          rw [compactList, hcs]
          exact .items hitems
  | object fields =>
      cases fields with
      | nil => exact .noFields (List.forall_mem_nil _)
      | cons field more =>
          obtain ⟨cs, hcs, hfields⟩ := spells_compactFields field more
          rw [compactList, hcs]
          exact .fields hfields
termination_by sizeOf v

theorem spells_compactItems
    (item : Json)
    (more : List Json) :
    ∃ cs : List Char, compactItems (item :: more) = cs ++ [']'] ∧
      SpellsItems cs (itemDocuments (item :: more)) := by
  have hitem := padded_of_spells (spells_compactList item)
  cases more with
  | nil => exact ⟨_, rfl, .last hitem⟩
  | cons next more =>
      obtain ⟨cs, hcs, hmore⟩ := spells_compactItems next more
      refine ⟨item.compactList ++ ',' :: cs, ?_, .more hitem hmore⟩
      rw [compactItems, hcs, List.append_assoc, List.cons_append]
      exact List.cons_ne_nil next more
termination_by sizeOf (item :: more)

theorem spells_compactFields
    (field : String × Json)
    (more : List (String × Json)) :
    ∃ cs : List Char, compactFields (field :: more) = cs ++ ['\x7d'] ∧
      SpellsFields cs (fieldDocuments (field :: more)) := by
  have hsize : sizeOf field.2 < sizeOf field := by
    cases field
    simp only [Prod.mk.sizeOf_spec]
    omega
  have hfield := spellsField_quoted field.1 (spells_compactList field.2)
  cases more with
  | nil => exact ⟨_, by simp [compactFields], .last hfield⟩
  | cons next more =>
      obtain ⟨cs, hcs, hmore⟩ := spells_compactFields next more
      refine ⟨(Text.quoted field.1 ++ ':' :: field.2.compactList) ++ ',' :: cs, ?_,
        .more hfield hmore⟩
      rw [compactFields, hcs]
      · simp
      · exact List.cons_ne_nil next more
termination_by sizeOf (field :: more)

end

/-- The compact text of a value is one text of the interchange format. -/
theorem written_compact
    (v : Json) :
    Written v.compact v.document := by
  rw [Written, compact, String.toList_ofList]
  exact padded_of_spells (spells_compactList v)

/-! ## What it denotes -/

theorem denotes_ofText
    (s : String) :
    Piece.Denotes (Piece.ofText s) s.toList :=
  Piece.text?_eq_some_iff.mp (Piece.text?_ofText s)

theorem denotes_integer
    (i : Integer64) :
    (Json.number (.integer i)).document.Denotes (.number (.integer i)) :=
  .numeral (Numeral.number?_eq_some_iff.mp (Number.number?_numeral_integer i))

/-- The document of a value whose objects are in order and whose numbers are integers denotes it. -/
theorem denotes_document
    {v : Json}
    (hordered : v.Ordered)
    (hintegral : v.Integral) :
    v.document.Denotes v := by
  have hread := Document.value?_document
    (readable_of_integral (Nat.le_refl v.nesting) hordered hintegral)
  rw [reread_of_integral v hintegral] at hread
  exact (v.document.value?_eq_some_iff.mp hread).1

/-- Fields may be written in any order. -/
theorem denoteFields_fieldDocuments
    {entries : Fields}
    (h : ∀ entry ∈ entries, entry.2.document.Denotes entry.2) :
    Document.DenoteFields (fieldDocuments entries) entries := by
  induction entries with
  | nil => exact .nil
  | cons entry rest ih =>
      obtain ⟨hentry, hrest⟩ := List.forall_mem_cons.mp h
      exact .cons (denotes_ofText entry.1) hentry (ih hrest)

end Json
end LifecycleTelemetry
