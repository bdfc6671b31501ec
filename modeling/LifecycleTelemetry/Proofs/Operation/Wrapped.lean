import LifecycleTelemetry.Proofs.Operation.Verdict

/-!
# Failures with contexts around them

On its way out of an operation a failure may get any number of contexts, texts as well as marks of a
cancellation. `Outermost` says which mark counts: the one around which there are only texts. It may stand in
the middle of the contexts, or be the cause itself.

The program looks for a mark from the outside, one context at a time. `cancellation?_eq_or` does the
induction over the contexts, once and for any failure inside; all else is read off it. The main result is
`classified_of_isCause`.
-/

namespace LifecycleTelemetry
namespace Failure

/-! ## Marks among contexts -/

/-- The mark that a context is, if it is one. -/
def Context.mark? : Context → Option Cancellation
  | .text _ => none
  | .cancelled c => some c

/-- Whether a failure is a cause, with nothing said around it, and of a type other than the library's own. -/
def isCause : Failure → Bool
  | .library _ => false
  | .context _ _ => false
  | _ => true

/-- The mark that counts in a cause with contexts around it, of which the last is the outermost: the
outermost one of the contexts, or else the cause. -/
inductive Outermost (cause : Failure) : List Context → Cancellation → Prop where
  | around
      (inner : List Context)
      (c : Cancellation)
      (texts : List String) :
      Outermost cause (inner ++ .cancelled c :: texts.map .text) c
  | cause
      {c : Cancellation}
      (texts : List String)
      (hcause : cause = .cancelled c) :
      Outermost cause (texts.map .text) c

theorem mark?_eq_some_iff
    (context : Context)
    (c : Cancellation) :
    context.mark? = some c ↔ context = .cancelled c := by
  cases context with
  | text s =>
      simp [Context.mark?]
  | cancelled own =>
      simp [Context.mark?]

/-- Contexts none of which is a mark are texts. -/
theorem exists_texts
    {contexts : List Context}
    (h : ∀ context ∈ contexts, context.mark? = none) :
    ∃ texts : List String, contexts = texts.map .text := by
  induction contexts with
  | nil =>
      exact ⟨[], rfl⟩
  | cons first rest ih =>
      obtain ⟨hfirst, hrest⟩ := List.forall_mem_cons.mp h
      obtain ⟨texts, rfl⟩ := ih hrest
      cases first with
      | text s =>
          exact ⟨s :: texts, rfl⟩
      | cancelled c =>
          cases hfirst

theorem findSome?_mark?_texts
    (texts : List String) :
    (texts.map Context.text).findSome? Context.mark? = none :=
  List.findSome?_eq_none_iff.mpr fun context hcontext => by
    obtain ⟨s, -, rfl⟩ := List.mem_map.mp hcontext
    rfl

theorem findSome?_mark?_reverse_texts
    (texts : List String) :
    (texts.map Context.text).reverse.findSome? Context.mark? = none := by
  rw [← List.map_reverse]
  exact findSome?_mark?_texts texts.reverse

/-! ## Looking for the mark -/

/-- A context that is a mark hides the one inside, and a text does not. -/
theorem cancellation?_context
    (outer : Context)
    (inner : Failure) :
    (Failure.context outer inner).cancellation? = outer.mark?.or inner.cancellation? := by
  cases outer with
  | text s =>
      rfl
  | cancelled c =>
      rfl

/-- The contexts are searched from the outermost on, and then what they stand around. -/
theorem cancellation?_eq_or
    (f : Failure)
    (contexts : List Context) :
    (f.withContexts contexts).cancellation? =
      (contexts.reverse.findSome? Context.mark?).or f.cancellation? := by
  induction contexts generalizing f with
  | nil =>
      rfl
  | cons first rest ih =>
      have hrest : (f.withContexts (first :: rest)).cancellation? =
          (rest.reverse.findSome? Context.mark?).or (Failure.context first f).cancellation? :=
        ih (.context first f)
      have hfirst : [first].findSome? Context.mark? = first.mark? := by
        cases first <;> rfl
      rw [hrest, cancellation?_context, List.reverse_cons, List.findSome?_append, hfirst,
        Option.or_assoc]

/-- A cause is a mark exactly when one is found in it. -/
theorem cancellation?_of_isCause
    {cause : Failure}
    (hcause : cause.isCause = true)
    (c : Cancellation) :
    cause.cancellation? = some c ↔ cause = .cancelled c := by
  cases cause with
  | library e =>
      cases hcause
  | context outer inner =>
      cases hcause
  | _ =>
      simp [cancellation?]

/-- What is found is the mark that counts. -/
theorem cancellation?_iff_outermost
    {cause : Failure}
    (hcause : cause.isCause = true)
    (contexts : List Context)
    (c : Cancellation) :
    (cause.withContexts contexts).cancellation? = some c ↔ Outermost cause contexts c := by
  rw [cancellation?_eq_or, Option.or_eq_some_iff]
  constructor
  · rintro (hcontext | ⟨hnone, hown⟩)
    · obtain ⟨outer, context, inner, hsplit, hmark, houter⟩ := List.findSome?_eq_some_iff.mp hcontext
      obtain rfl := (mark?_eq_some_iff context c).mp hmark
      obtain ⟨texts, rfl⟩ := exists_texts houter
      have hcontexts : contexts = inner.reverse ++ .cancelled c :: texts.reverse.map .text := by
        rw [← List.reverse_reverse contexts, hsplit]
        simp
      rw [hcontexts]
      exact .around inner.reverse c texts.reverse
    · have hunmarked := List.findSome?_eq_none_iff.mp hnone
      obtain ⟨texts, rfl⟩ := exists_texts fun context hmem =>
        hunmarked context (List.mem_reverse.mpr hmem)
      exact .cause texts ((cancellation?_of_isCause hcause c).mp hown)
  · intro h
    cases h with
    | around inner c texts =>
        left
        rw [List.reverse_append, List.reverse_cons, List.findSome?_append, List.findSome?_append,
          findSome?_mark?_reverse_texts]
        rfl
    | cause texts hown =>
        right
        exact ⟨findSome?_mark?_reverse_texts texts, (cancellation?_of_isCause hcause c).mpr hown⟩

/-- There is a mark that counts exactly when the cause is one or there is one around it. -/
theorem isCancellation_withContexts
    {cause : Failure}
    (hcause : cause.isCause = true)
    (contexts : List Context) :
    (cause.withContexts contexts).isCancellation = true ↔
      (∃ c, cause = .cancelled c) ∨ ∃ c, .cancelled c ∈ contexts := by
  rw [isCancellation, cancellation?_eq_or, Option.isSome_or, Bool.or_eq_true, or_comm]
  refine or_congr ?_ ?_
  · rw [Option.isSome_iff_exists]
    exact exists_congr fun c => cancellation?_of_isCause hcause c
  · rw [List.findSome?_isSome_iff]
    constructor
    · rintro ⟨context, hmem, hmark⟩
      obtain ⟨c, hc⟩ := Option.isSome_iff_exists.mp hmark
      exact ⟨c, (mark?_eq_some_iff context c).mp hc ▸ List.mem_reverse.mp hmem⟩
    · rintro ⟨c, hmem⟩
      exact ⟨.cancelled c, List.mem_reverse.mpr hmem, rfl⟩

/-- Texts may be added anywhere among the contexts of any failure. -/
theorem cancellation?_withContexts_texts
    (f : Failure)
    (before after : List Context)
    (texts : List String) :
    (f.withContexts (before ++ texts.map .text ++ after)).cancellation? =
      (f.withContexts (before ++ after)).cancellation? := by
  simp only [cancellation?_eq_or, List.reverse_append, List.findSome?_append,
    findSome?_mark?_reverse_texts, Option.none_or]

end Failure

/-! ## The classification -/

open Failure (Context Cancellation Outermost)

namespace World

/-- How a cause with contexts around it is classified, by itself and as the failure of an operation. -/
structure Classified (cause : Failure) (contexts : List Context) : Prop where
  /-- It is a cancellation exactly when the cause is a mark or one of the contexts is. -/
  isCancellation : (cause.withContexts contexts).isCancellation = true ↔
    (∃ c, cause = .cancelled c) ∨ ∃ c, .cancelled c ∈ contexts
  /-- The mark that is found is the outermost one. -/
  mark : ∀ c, (cause.withContexts contexts).cancellation? = some c ↔ Outermost cause contexts c
  /-- An operation that fails with it is reported as cancelled, with the signal of the outermost mark. -/
  cancelled : ∀ (w : World) (id number body : Nat) (strand : Strand) (call : Call) (c : Cancellation),
    w.strands[id]? = some strand → strand.status = .racing number →
    w.calls[number]? = some call → call.phase = .racing body →
    w.outcome? body = some (.err (cause.withContexts contexts)) → Outermost cause contexts c →
    Verdict w id number strand call (.failure (cause.withContexts contexts)) (.cancelled c.signal)
      (.err (cause.withContexts contexts))
  /-- Without a mark anywhere it is reported as failed. -/
  errored : ∀ (w : World) (id number body : Nat) (strand : Strand) (call : Call),
    w.strands[id]? = some strand → strand.status = .racing number →
    w.calls[number]? = some call → call.phase = .racing body →
    w.outcome? body = some (.err (cause.withContexts contexts)) →
    (∀ c, cause ≠ .cancelled c) → (∀ c, .cancelled c ∉ contexts) →
    Verdict w id number strand call (.failure (cause.withContexts contexts))
      (.errored (ErrorInfo.ofFailure (cause.withContexts contexts)))
      (.err (cause.withContexts contexts))
  /-- Further texts, wherever they are added, make no difference to the mark that is found. -/
  texts : ∀ (before after : List Context) (texts : List String), contexts = before ++ after →
    (cause.withContexts (before ++ texts.map .text ++ after)).isCancellation =
        (cause.withContexts contexts).isCancellation ∧
      (cause.withContexts (before ++ texts.map .text ++ after)).cancellation? =
        (cause.withContexts contexts).cancellation?
  /-- A mark that is put around it makes it a cancellation with the signal of this mark. -/
  marked : ∀ c, (cause.withContexts (contexts ++ [.cancelled c])).isCancellation = true ∧
    (Settlement.failure (cause.withContexts (contexts ++ [.cancelled c]))).ending =
      .cancelled c.signal

/-- So it is with every cause and all contexts around it. -/
theorem classified_of_isCause
    {cause : Failure}
    (hcause : cause.isCause = true)
    (contexts : List Context) :
    Classified cause contexts where
  isCancellation := Failure.isCancellation_withContexts hcause contexts
  mark := Failure.cancellation?_iff_outermost hcause contexts
  cancelled := by
    intro w id number body strand call c hstrand hracing hcall hphase hended houtermost
    have hsettled := settlement?_of_ended hphase hended
    have hverdict := verdict_of_settlement? hstrand hracing hcall hsettled
    have hmark := (Failure.cancellation?_iff_outermost hcause contexts c).mpr houtermost
    have hending : (Settlement.failure (cause.withContexts contexts)).ending = .cancelled c.signal := by
      simp [Settlement.ending, hmark]
    exact hending ▸ hverdict
  errored := by
    intro w id number body strand call hstrand hracing hcall hphase hended hunmarked hcontexts
    have hsettled := settlement?_of_ended hphase hended
    have hverdict := verdict_of_settlement? hstrand hracing hcall hsettled
    have hnone : (cause.withContexts contexts).cancellation? = none := by
      refine Option.not_isSome_iff_eq_none.mp fun hsome => ?_
      rcases (Failure.isCancellation_withContexts hcause contexts).mp hsome with ⟨c, hc⟩ | ⟨c, hc⟩
      · exact hunmarked c hc
      · exact hcontexts c hc
    have hending : (Settlement.failure (cause.withContexts contexts)).ending =
        .errored (ErrorInfo.ofFailure (cause.withContexts contexts)) := by
      simp [Settlement.ending, hnone]
    exact hending ▸ hverdict
  texts := by
    rintro before after texts rfl
    have hsame := Failure.cancellation?_withContexts_texts cause before after texts
    exact ⟨congrArg Option.isSome hsame, hsame⟩
  marked := by
    intro c
    have hmark : (cause.withContexts (contexts ++ [.cancelled c])).cancellation? = some c :=
      (Failure.cancellation?_iff_outermost hcause _ c).mpr (.around contexts c [])
    simp [Failure.isCancellation, Settlement.ending, hmark]

/-- For instance, a plain message with two marks among texts around it, in a program whose operation fails
with it. -/
theorem classified_plainRun :
    let contexts : List Context := [.text "inner", .cancelled ⟨some "SIGTERM"⟩, .text "between",
      .cancelled ⟨some "SIGINT"⟩, .text "outer"]
    let w := plainRun [] [.instrument none (.session []) []
      [.fail ((Failure.message "broken").withContexts contexts)] false none]
      [.advance 0, .advance 1, .advance 0]
    (w.reports 0).map (fun report => (report.stage, Json.Fields.get? "signal" report.message.properties)) =
        [(.started, none), (.cancelled, some (.string "SIGINT"))] ∧
      (Failure.message "broken").isCause = true ∧ Classified (.message "broken") contexts := by
  intro contexts w
  exact ⟨by decide +kernel, rfl, classified_of_isCause rfl contexts⟩

end World
end LifecycleTelemetry
