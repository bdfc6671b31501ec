import LifecycleTelemetry.Proofs.Text.Digits
import Mathlib.Data.List.Basic
import Mathlib.Data.List.TakeWhile

/-!
# What is left of a padded text

A value that people type counts without the blanks around it, and not at all if there is nothing else in
it. `IsCore` says by the characters alone what is left of a text: there are only blanks before and after
it, and it starts and ends with a character that is not blank. A text has at most one core; trimming finds
it where there is one, and leaves nothing where there is none.
-/

namespace LifecycleTelemetry
namespace Text

/-! ## Lists of characters -/

/-- All of some characters are blank. -/
def Blanks (cs : List Char) : Prop :=
  ∀ c ∈ cs, isBlank c = true

section Lists

variable {cs before rest : List Char}

/-- What is dropped are blanks. -/
theorem exists_blanks_dropBlanks
    (cs : List Char) :
    ∃ before, Blanks before ∧ cs = before ++ dropBlanks cs :=
  ⟨cs.takeWhile isBlank, List.all_eq_true.mp List.all_takeWhile,
    List.takeWhile_append_dropWhile.symm⟩

theorem dropBlanks_append
    (h : Blanks before) :
    dropBlanks (before ++ rest) = dropBlanks rest :=
  List.dropWhile_append_of_pos h

theorem dropBlanks_of_head
    (h : ∃ c ∈ cs.head?, isBlank c = false) :
    dropBlanks cs = cs := by
  cases cs with
  | nil =>
      rfl
  | cons c rest =>
      obtain ⟨_, ⟨rfl⟩, hc⟩ := h
      exact dropBlanks_cons rest hc

theorem dropBlanks_eq_nil_iff :
    dropBlanks cs = [] ↔ Blanks cs :=
  List.dropWhile_eq_nil_iff

/-- Whatever is left of characters starts with one that is not blank. -/
theorem head_dropBlanks
    (h : dropBlanks cs ≠ []) :
    ∃ c ∈ (dropBlanks cs).head?, isBlank c = false :=
  ⟨_, List.head?_eq_some_head h, List.head_dropWhile_not isBlank h⟩

theorem Blanks.reverse
    (h : Blanks cs) :
    Blanks cs.reverse :=
  fun c hc => h c (List.mem_reverse.mp hc)

/-- Trimming takes blanks away, first before and then after. -/
theorem exists_blanks_trimList
    (cs : List Char) :
    ∃ before after, Blanks before ∧ Blanks after ∧ dropBlanks cs = trimList cs ++ after ∧
      cs = before ++ trimList cs ++ after := by
  obtain ⟨before, hbefore, hcs⟩ := exists_blanks_dropBlanks cs
  obtain ⟨after, hafter, hrest⟩ := exists_blanks_dropBlanks (dropBlanks cs).reverse
  have hdropped : dropBlanks cs = trimList cs ++ after.reverse := by
    rw [trimList, ← List.reverse_append, ← hrest, List.reverse_reverse]
  refine ⟨before, after.reverse, hbefore, hafter.reverse, hdropped, ?_⟩
  rw [List.append_assoc, ← hdropped]
  exact hcs

theorem trimList_eq_nil_iff :
    trimList cs = [] ↔ Blanks cs := by
  rw [trimList, List.reverse_eq_nil_iff, dropBlanks_eq_nil_iff]
  constructor
  · intro h
    obtain ⟨before, hbefore, hcs⟩ := exists_blanks_dropBlanks cs
    rw [hcs]
    intro c hc
    rcases List.mem_append.mp hc with hc | hc
    · exact hbefore c hc
    · exact h c (List.mem_reverse.mpr hc)
  · intro h
    rw [dropBlanks_eq_nil_iff.mpr h]
    exact fun c hc => nomatch hc

/-- What trimming leaves starts with a character that is not blank, -/
theorem head_trimList
    (h : trimList cs ≠ []) :
    ∃ c ∈ (trimList cs).head?, isBlank c = false := by
  obtain ⟨-, after, -, -, hdropped, -⟩ := exists_blanks_trimList cs
  have hne : dropBlanks cs ≠ [] := by
    rw [hdropped]
    exact List.append_ne_nil_of_left_ne_nil h after
  have hhead := head_dropBlanks hne
  rw [hdropped, List.head?_append_of_ne_nil _ h] at hhead
  exact hhead

/-- and ends with one. -/
theorem getLast_trimList
    (h : trimList cs ≠ []) :
    ∃ c ∈ (trimList cs).getLast?, isBlank c = false := by
  rw [trimList, List.getLast?_reverse]
  exact head_dropBlanks fun hnil => h (congrArg List.reverse hnil)

/-- Where characters that start and end with others stand between blanks, they are what is left. -/
theorem trimList_between
    {before core after : List Char}
    (hbefore : Blanks before)
    (hafter : Blanks after)
    (hfirst : ∃ c ∈ core.head?, isBlank c = false)
    (hlast : ∃ c ∈ core.getLast?, isBlank c = false) :
    trimList (before ++ core ++ after) = core := by
  have hne : core ≠ [] := by
    rintro rfl
    obtain ⟨c, hc, -⟩ := hfirst
    cases hc
  have hstart : dropBlanks (before ++ core ++ after) = core ++ after := by
    rw [List.append_assoc, dropBlanks_append hbefore]
    refine dropBlanks_of_head ?_
    rw [List.head?_append_of_ne_nil _ hne]
    exact hfirst
  have hend : dropBlanks (core ++ after).reverse = core.reverse := by
    rw [List.reverse_append, dropBlanks_append hafter.reverse]
    refine dropBlanks_of_head ?_
    rw [List.head?_reverse]
    exact hlast
  rw [trimList, hstart, hend, List.reverse_reverse]

end Lists

/-! ## Texts -/

/-- There are only blanks around a text in another one, and it starts and ends with something else. -/
structure IsCore (s core : String) : Prop where
  padded : ∃ before after, Blanks before ∧ Blanks after ∧ s.toList = before ++ core.toList ++ after
  first : ∃ c ∈ core.toList.head?, isBlank c = false
  last : ∃ c ∈ core.toList.getLast?, isBlank c = false

/-- What is left of a value that may not be there. -/
inductive Leaves : Option String → Option String → Prop where
  | missing : Leaves none none
  | blank {s : String} (h : Blanks s.toList) : Leaves (some s) none
  | core {s core : String} (h : IsCore s core) : Leaves (some s) (some core)

/-- A text without the blanks around it, if anything is left of it. -/
def core? (s : String) : Option String :=
  let trimmed := trim s
  if trimmed.isEmpty then none else some trimmed

section Texts

variable {s core : String}

theorem core?_eq :
    core? s = if trimList s.toList = [] then none else some (trim s) := by
  have hempty : (trim s).isEmpty = true ↔ trimList s.toList = [] := by
    rw [String.isEmpty_iff, trim, String.ofList_eq_empty_iff]
  simp only [core?, hempty]

theorem core?_eq_none_iff :
    core? s = none ↔ Blanks s.toList := by
  rw [core?_eq, ← trimList_eq_nil_iff]
  split
  · simp [*]
  · simp [*]

theorem IsCore.trim_eq
    (h : IsCore s core) :
    trim s = core := by
  obtain ⟨before, after, hbefore, hafter, hs⟩ := h.padded
  rw [trim, hs, trimList_between hbefore hafter h.first h.last, String.ofList_toList]

/-- Trimming finds the core of a text. -/
theorem core?_eq_some_iff :
    core? s = some core ↔ IsCore s core := by
  rw [core?_eq]
  constructor
  · intro h
    split at h
    · cases h
    · rename_i hne
      cases h
      obtain ⟨before, after, hbefore, hafter, -, hs⟩ := exists_blanks_trimList s.toList
      have hcore : (trim s).toList = trimList s.toList := String.toList_ofList
      constructor
      · refine ⟨before, after, hbefore, hafter, ?_⟩
        rw [hcore]
        exact hs
      · rw [hcore]
        exact head_trimList hne
      · rw [hcore]
        exact getLast_trimList hne
  · intro h
    obtain ⟨before, after, hbefore, hafter, hs⟩ := h.padded
    have hlist := trimList_between hbefore hafter h.first h.last
    rw [if_neg, h.trim_eq]
    rw [hs, hlist]
    intro hnil
    obtain ⟨c, hc, -⟩ := h.first
    rw [hnil] at hc
    cases hc

/-- Nothing stands around a core any more. -/
theorem IsCore.self
    (h : IsCore s core) :
    IsCore core core :=
  ⟨⟨[], [], List.forall_mem_nil _, List.forall_mem_nil _, (List.append_nil _).symm⟩, h.first,
    h.last⟩

theorem bind_core?_eq_iff
    {value left : Option String} :
    value.bind core? = left ↔ Leaves value left := by
  constructor
  · rintro rfl
    cases value with
    | none =>
        exact .missing
    | some s =>
        rw [Option.bind_some]
        cases hcore : core? s with
        | none =>
            exact .blank (core?_eq_none_iff.mp hcore)
        | some core =>
            exact .core (core?_eq_some_iff.mp hcore)
  · intro h
    cases h with
    | missing =>
        rfl
    | blank h =>
        rw [Option.bind_some, core?_eq_none_iff]
        exact h
    | core h =>
        rw [Option.bind_some, core?_eq_some_iff]
        exact h

end Texts

end Text
end LifecycleTelemetry
