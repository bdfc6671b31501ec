import LifecycleTelemetry.Event.ErrorInfo
import LifecycleTelemetry.Proofs.Failure.Causes

/-!
# What a description tells

A failure is described by what it says itself and, where something lies behind it, by a stack: the message,
and below it every cause in its place in the chain. A single cause stands four columns in; several ones are
numbered from 0 and stand seven columns in. A text of several lines keeps its lines, all of them at the column
of its first one.

The stack is compared with this picture line by line. Everything about lines comes from one equation, that a
line break divides the lines of what is before it from the lines of what is behind it.
-/

namespace LifecycleTelemetry
namespace Failure

/-! ## Lines -/

/-- The lines of a text. -/
def lines (cs : List Char) : List (List Char) :=
  cs.splitOn '\n'

/-- Lines with a label in front of the first one, and the others as far in. -/
def labelled (label : List Char) (columns : Nat) : List (List Char) → List (List Char)
  | [] => []
  | first :: rest => (label ++ first) :: rest.map (List.replicate columns ' ' ++ ·)

/-- What stands in front of a cause: its number at the end of five columns if there are several, and else
four blanks. -/
def label (several : Bool) (n : Nat) : List Char :=
  if several then List.leftpad 5 ' ' (Nat.toDigits 10 n) ++ [':', ' '] else List.replicate 4 ' '

/-- The lines by which a cause is shown, whose place in the chain is counted from 0. -/
def shown (several : Bool) (entry : String × Nat) : List (List Char) :=
  labelled (label several entry.2) (if several then 7 else 4) (lines entry.1.toList)

theorem lines_append_break
    (before behind : List Char) :
    lines (before ++ '\n' :: behind) = lines before ++ lines behind :=
  List.splitOn_append_cons_self before behind

@[simp]
theorem lines_nil :
    lines [] = [[]] :=
  rfl

@[simp]
theorem lines_break
    (cs : List Char) :
    lines ('\n' :: cs) = [] :: lines cs :=
  lines_append_break [] cs

theorem lines_cons
    {c : Char}
    (h : c ≠ '\n')
    (cs : List Char) :
    lines (c :: cs) = (lines cs).modifyHead (c :: ·) := by
  rw [lines, List.splitOn_eq_splitOnP, List.splitOnP_cons_eq_if_modifyHead, if_neg (by simpa using h)]
  rfl

/-- What is put in front of a text, without a line break, belongs to its first line. -/
theorem lines_append_of_not_mem
    {label : List Char}
    (h : '\n' ∉ label)
    (cs : List Char) :
    lines (label ++ cs) = (lines cs).modifyHead (label ++ ·) := by
  induction label with
  | nil =>
      cases hlines : lines cs with
      | nil => simp [hlines]
      | cons first rest => simp [hlines]
  | cons c label ih =>
      obtain ⟨hc, hlabel⟩ : '\n' ≠ c ∧ '\n' ∉ label := by simpa using h
      rw [List.cons_append, lines_cons (Ne.symm hc), ih hlabel, List.modifyHead_modifyHead]
      rfl

/-- Pieces that each begin a new line keep their lines. -/
theorem lines_append_flatMap
    (cs : List Char)
    (pieces : List (List Char)) :
    lines (cs ++ pieces.flatMap ('\n' :: ·)) = lines cs ++ pieces.flatMap lines := by
  induction pieces generalizing cs with
  | nil =>
      simp
  | cons piece pieces ih =>
      rw [List.flatMap_cons, List.cons_append, lines_append_break, ih, List.flatMap_cons]

theorem lines_of_not_mem
    {cs : List Char}
    (h : '\n' ∉ cs) :
    lines cs = [cs] := by
  simpa using lines_append_of_not_mem h []

theorem labelled_replicate
    (columns : Nat)
    (ls : List (List Char)) :
    labelled (List.replicate columns ' ') columns ls = ls.map (List.replicate columns ' ' ++ ·) := by
  cases ls <;> rfl

theorem labelled_modifyHead
    (label : List Char)
    (columns : Nat)
    (c : Char)
    (ls : List (List Char)) :
    labelled label columns (ls.modifyHead (c :: ·)) = labelled (label ++ [c]) columns ls := by
  cases ls with
  | nil => rfl
  | cons first rest => simp [labelled]

/-- Behind a label, the further lines of a hanging text are as far in as they hang. -/
theorem lines_append_hanging
    {label : List Char}
    (h : '\n' ∉ label)
    (columns : Nat)
    (cs : List Char) :
    lines (label ++ hanging columns cs) = labelled label columns (lines cs) := by
  induction cs generalizing label with
  | nil =>
      simp [hanging, lines_of_not_mem h, labelled]
  | cons c cs ih =>
      by_cases hc : c = '\n'
      · subst hc
        have hblanks : '\n' ∉ List.replicate columns ' ' := by simp
        have hsplit := lines_append_break label (List.replicate columns ' ' ++ hanging columns cs)
        rw [hanging, hsplit, ih hblanks, labelled_replicate, lines_of_not_mem h]
        simp [labelled]
      · have hlabel : '\n' ∉ label ++ [c] := by simp [h, Ne.symm hc]
        have hhanging : hanging columns (c :: cs) = c :: hanging columns cs := by
          rw [hanging]
          exact hc
        rw [hhanging, List.append_cons, ih hlabel, lines_cons hc, labelled_modifyHead]

/-! ## The stack -/

theorem not_mem_label
    (several : Bool)
    (n : Nat) :
    '\n' ∉ label several n := by
  have hdigits : '\n' ∉ Nat.toDigits 10 n := fun hmem => by
    have hdigit : ('\n').isDigit = true := Nat.isDigit_of_mem_toDigits (by decide) (by decide) hmem
    cases hdigit
  cases several with
  | false => simp [label]
  | true => simp [label, List.leftpad, hdigits]

/-- A cause behind its label. -/
def piece (several : Bool) (entry : String × Nat) : List Char :=
  label several entry.2 ++ hanging (if several then 7 else 4) entry.1.toList

theorem lines_piece
    (several : Bool)
    (entry : String × Nat) :
    lines (piece several entry) = shown several entry :=
  lines_append_hanging (not_mem_label several entry.2) _ _

theorem causeLine_eq_piece
    (text : String)
    (n : Nat) :
    causeLine text = '\n' :: piece false (text, n) :=
  rfl

theorem numberedLine_eq_piece
    (entry : String × Nat) :
    numberedLine entry = '\n' :: piece true entry := by
  simp [numberedLine, piece, label, ordinal, List.leftpad]

/-- Whatever the number of causes, each begins a new line, below an empty line and the heading. -/
theorem causeLines_eq_flatMap
    {texts : List String}
    (h : texts ≠ []) :
    causeLines texts =
      ([] :: "Caused by:".toList :: texts.zipIdx.map (piece (2 ≤ texts.length))).flatMap ('\n' :: ·) := by
  have hheading : "\n\nCaused by:".toList = '\n' :: '\n' :: "Caused by:".toList := rfl
  rw [List.flatMap_cons, List.flatMap_cons, List.flatMap_map]
  match texts, h with
  | [text], _ =>
      have hcauses : causeLines [text] = "\n\nCaused by:".toList ++ causeLine text := rfl
      rw [hcauses, hheading, causeLine_eq_piece text 0]
      generalize "Caused by:".toList = heading
      simp
  | first :: second :: rest, _ =>
      have hcauses : causeLines (first :: second :: rest) =
          "\n\nCaused by:".toList ++ (first :: second :: rest).zipIdx.flatMap numberedLine := rfl
      have hseveral : decide (2 ≤ (first :: second :: rest).length) = true := by simp
      rw [hcauses, hheading, hseveral, funext numberedLine_eq_piece]
      generalize "Caused by:".toList = heading
      simp

theorem toList_report
    {f : Failure}
    {causes : List Failure}
    (h : f.HasCauses causes) :
    f.report.toList = f.ownText.toList ++ causeLines (causes.map ownText) := by
  simp [report, h.chain_eq]

/-- The lines of a stack are those of the message, and then those of the causes. -/
theorem lines_report
    {f : Failure}
    {causes : List Failure}
    (h : f.HasCauses causes)
    (hcauses : causes ≠ []) :
    lines f.report.toList =
      lines f.ownText.toList ++ [] :: "Caused by:".toList ::
        (causes.map ownText).zipIdx.flatMap (shown (2 ≤ causes.length)) := by
  have htexts : causes.map ownText ≠ [] := by simpa using hcauses
  have hheading : lines "Caused by:".toList = ["Caused by:".toList] := lines_of_not_mem (by decide)
  rw [toList_report h, causeLines_eq_flatMap htexts, lines_append_flatMap, List.flatMap_cons,
    List.flatMap_cons, List.flatMap_map, funext (lines_piece _), hheading, List.length_map]
  rfl

end Failure

namespace ErrorInfo

open Failure (HasCauses lines shown)

/-- A description of a failure by what it says and by what its causes say. -/
structure Describes (info : ErrorInfo) (f : Failure) (causes : List Failure) : Prop where
  /-- The message is what the failure says itself. -/
  message : info.message = some f.ownText
  /-- There is a stack exactly if the failure has a cause. -/
  stack : info.stack.isSome = true ↔ causes ≠ []
  /-- The stack begins with the message, -/
  begins : ∀ stack ∈ info.stack, f.ownText.toList <+: stack.toList
  /-- and below it shows what each cause says, in the order of the chain, numbered if there are at least
  two. -/
  shows : ∀ stack ∈ info.stack,
    lines stack.toList =
      lines f.ownText.toList ++ [] :: "Caused by:".toList ::
        (causes.map Failure.ownText).zipIdx.flatMap (shown (2 ≤ causes.length))

theorem stack_ofFailure
    {f : Failure}
    {causes : List Failure}
    (h : f.HasCauses causes) :
    (ofFailure f).stack = if causes = [] then none else some f.report := by
  cases causes with
  | nil => simp [ofFailure, h.chain_eq]
  | cons cause causes => simp [ofFailure, h.chain_eq]

theorem describes_ofFailure
    {f : Failure}
    {causes : List Failure}
    (h : f.HasCauses causes) :
    Describes (ofFailure f) f causes := by
  have hstack := stack_ofFailure h
  by_cases hcauses : causes = []
  · rw [if_pos hcauses] at hstack
    exact
      { message := congrArg some f.text_eq_ownText
        stack := by simp [hstack, hcauses]
        begins := by simp [hstack]
        shows := by simp [hstack] }
  · rw [if_neg hcauses] at hstack
    have hreport : ∀ stack ∈ (ofFailure f).stack, stack = f.report := by
      rw [hstack]
      exact fun stack hmem => (Option.mem_some.mp hmem).symm
    refine
      { message := congrArg some f.text_eq_ownText
        stack := by simp [hstack, hcauses]
        begins := fun stack hmem => ?_
        shows := fun stack hmem => hreport stack hmem ▸ Failure.lines_report h hcauses }
    rw [hreport stack hmem, Failure.toList_report h]
    exact List.prefix_append _ _

/-- Failures with the same chain are described alike. -/
theorem ofFailure_congr
    {f g : Failure}
    (h : f.chain = g.chain) :
    ofFailure f = ofFailure g := by
  simp only [ofFailure, Failure.text, Failure.report, h]

/-- Every failure is described by what it says and what its causes say. Transparent parts make no difference
to its description, wherever they stand; so it may be put into the library's error type and be taken out any
number of times, as may a cancellation that has been converted into that type. -/
theorem ofFailure_transparent
    (f : Failure)
    (c : Failure.Cancellation)
    (n : Nat) :
    (∃ causes, f.HasCauses causes ∧ (∀ others, f.HasCauses others → others = causes) ∧
      f.chain = f.ownText :: causes.map Failure.ownText ∧ Describes (ofFailure f) f causes) ∧
      ofFailure (Failure.passedOn^[n] f) = ofFailure f ∧
      ofFailure (Failure.passedOn^[n] (.library (.cancelled c))) = ofFailure (.cancelled c) ∧
      ∀ g : Failure, g.bared = f.bared → ofFailure g = ofFailure f := by
  obtain ⟨causes, hcauses⟩ := f.exists_hasCauses
  have htransparent : ∀ g h : Failure, g.bared = h.bared → ofFailure g = ofFailure h :=
    fun g h hbared => ofFailure_congr (Failure.chain_eq_of_bared_eq hbared)
  refine ⟨⟨causes, hcauses, fun others hothers => hothers.unique hcauses, hcauses.chain_eq,
      describes_ofFailure hcauses⟩,
    htransparent _ f (f.bared_iterate_passedOn n), htransparent _ _ ?_, fun g => htransparent g f⟩
  exact Failure.bared_iterate_passedOn _ n

example :
    ofFailure (((Failure.config (.serialize "bad\nkey")).withText "saving").passedOn) =
      ⟨some "saving", some ("saving\n\nCaused by:\n    0: failed to serialize config: bad\n" ++
        "       key\n    1: bad\n       key")⟩ := by
  decide +kernel

end ErrorInfo
end LifecycleTelemetry
