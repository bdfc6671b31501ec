import LifecycleTelemetry.Proofs.Operation.Attribution
import LifecycleTelemetry.Proofs.Operation.Straight
import Mathlib.Data.List.Nodup

/-!
# Contributing in bulk

Instead of one property at a time a whole map of them can be contributed. The keys of a map are different,
and contributions under different keys do not get in each other's way. So in the extent of a call it comes
to the same as to contribute the fields of the map one by one, in whatever order.

Whether there is a call to contribute to is only asked for each field by itself. Outside of every extent a
map with a field in it panics therefore as a single property does, but the empty map is not refused. The
main result is `bulk_of_evolves`; it says of both halves exactly when they hold.
-/

namespace LifecycleTelemetry

open Json (Fields)

/-! ## Contributions under different keys -/

namespace Json
namespace Fields

theorem lt_or_gt_of_ne
    {key other : String}
    (h : key ≠ other) :
    key < other ∨ other < key := by
  by_cases hless : key < other
  · exact Or.inl hless
  · refine Or.inr (Decidable.byContradiction fun hgreater => h ?_)
    exact String.le_antisymm (String.not_lt.mp hgreater) (String.not_lt.mp hless)

/-- Fields with different keys can be inserted in either order. -/
theorem insert_comm
    {key other : String}
    (value its : Json)
    (h : key ≠ other)
    (fields : Fields) :
    insert key value (insert other its fields) = insert other its (insert key value fields) := by
  have hasymm := @String.lt_asymm
  have htrans := @String.lt_trans
  rcases lt_or_gt_of_ne h with hless | hless
  · induction fields with
    | nil => grind [insert]
    | cons field rest ih => grind [insert]
  · induction fields with
    | nil => grind [insert]
    | cons field rest ih => grind [insert]

theorem nodup_of_sorted
    {fields : Fields}
    (h : Sorted fields) :
    (fields.map Prod.fst).Nodup :=
  List.pairwise_map.mpr (h.imp fun hless => String.ne_of_lt hless)

end Fields
end Json

/-- The contributions that the fields of a map are to one ending. -/
def Contribution.ofFields (stage : TerminalStage) (data : Fields) : List Contribution :=
  data.map fun field => ⟨stage, field.1, field.2⟩

namespace Contributions

theorem add_comm
    {key other : String}
    (value its : Json)
    (h : key ≠ other)
    (c : Contributions)
    (stage : TerminalStage) :
    (c.add stage key value).add stage other its = (c.add stage other its).add stage key value := by
  cases stage with
  | _ =>
      simp only [add, withBag, bag]
      rw [Fields.insert_comm value its h]

/-- The fields of a map can be contributed in any order. -/
theorem addEach_perm
    {stage : TerminalStage}
    {data order : Fields}
    (hperm : order.Perm data)
    (hkeys : (data.map Prod.fst).Nodup)
    (c : Contributions) :
    c.addEach (Contribution.ofFields stage order) = c.addEach (Contribution.ofFields stage data) := by
  have horder : (order.map Prod.fst).Nodup := (hperm.map Prod.fst).nodup_iff.mpr hkeys
  simp only [addEach, Contribution.ofFields, List.foldl_map]
  refine hperm.foldl_eq' (fun field hfield other hother c => ?_) c
  by_cases hsame : field = other
  · rw [hsame]
  · have hkey : field.1 ≠ other.1 := fun heq =>
      hsame (List.inj_on_of_nodup_map horder hfield hother heq)
    exact add_comm field.2 other.2 hkey c stage

/-- The fields of a map are inserted into one bag, and the other bags are left alone. -/
theorem bag_addEach_ofFields
    (c : Contributions)
    (stage other : TerminalStage)
    (data : Fields) :
    (c.addEach (Contribution.ofFields stage data)).bag other =
      if other = stage then Fields.insertAll (c.bag stage) data else c.bag other := by
  induction data generalizing c with
  | nil =>
      split
      · next hsame =>
          rw [hsame]
          rfl
      · rfl
  | cons field rest ih =>
      refine (ih (c.add stage field.1 field.2)).trans ?_
      rw [bag_add, if_pos rfl, bag_add]
      split
      · rfl
      · rfl

end Contributions

/-- The fields of a map are received in the same way in whatever order. -/
theorem Call.receive_perm
    {stage : TerminalStage}
    {data order : Fields}
    (hsorted : Fields.Sorted data)
    (hperm : order.Perm data) :
    receive (Contribution.ofFields stage order) = receive (Contribution.ofFields stage data) := by
  funext c
  rw [receive, receive, Contributions.addEach_perm hperm (Fields.nodup_of_sorted hsorted)]

namespace World

/-! ## One by one -/

/-- The actions that contribute the fields of a map one by one. -/
def singly (stage : TerminalStage) (data : Fields) : List Action :=
  data.map fun field => .contribute .free stage field.1 field.2

/-- The world in which a strand has other steps before it. -/
def withRest (w : World) (id : Nat) (rest : Script) : World :=
  w.withStrand id fun strand => { strand with rest }

section Singly

variable {id n : Nat}

/-- A strand in the extent of a call that contributes fields one by one gives them all to the call. -/
theorem calls_moves_singly
    {w : World}
    {strand : Strand}
    {stage : TerminalStage}
    {data : Fields}
    {rest : Script}
    (hstrand : w.strands[id]? = some strand)
    (hready : strand.status = .ready)
    (hscope : strand.scope = some n)
    (hrest : strand.rest = (singly stage data).map .act ++ rest) :
    (w.moves (List.replicate data.length (.advance id))).calls =
      w.calls.modify n (Call.receive (Contribution.ofFields stage data)) := by
  induction data generalizing w strand with
  | nil =>
      exact (List.modify_id n w.calls).symm
  | cons field data ih =>
      let action : Action := .contribute .free stage field.1 field.2
      let later := (singly stage data).map Step.act ++ rest
      have hturn : w.advance id = (w.pass id later).act strand.list (some n) action := by
        rw [← hscope]
        exact w.advance_of_acting hstrand hready hrest
      have hgiven := (acts_act (w.pass id later) strand.list (some n) action).calls
      have hnow : (w.advance id).strands[id]? =
          some { strand with index := strand.index + 1, rest := later } := by
        rw [hturn, strands_act _ _ _ rfl]
        simp [pass, withStrand, hstrand]
      have hlater := ih hnow hready hscope rfl
      rw [List.length_cons, List.replicate_succ]
      refine hlater.trans ?_
      rw [hturn, hgiven]
      exact List.modify_modify_eq _ _ _ _

/-- So does the code that builds its operation. -/
theorem build_singly
    (w : World)
    (list : String)
    (n : Nat)
    (stage : TerminalStage)
    (data : Fields) :
    (w.build list n ((singly stage data).map .act)).1 = none ∧
      (w.build list n ((singly stage data).map .act)).2.calls =
        w.calls.modify n (Call.receive (Contribution.ofFields stage data)) := by
  induction data generalizing w with
  | nil =>
      exact ⟨rfl, (List.modify_id n w.calls).symm⟩
  | cons field data ih =>
      let action : Action := .contribute .free stage field.1 field.2
      have hgiven := (acts_act w list (some n) action).calls
      obtain ⟨hnone, hlater⟩ := ih (w.act list (some n) action)
      refine ⟨hnone, hlater.trans ?_⟩
      rw [hgiven]
      exact List.modify_modify_eq _ _ _ _

end Singly

/-! ## In bulk -/

/-- What it comes to when a map of properties is contributed. -/
structure Bulk (first w : World) : Prop where
  /-- In the extent of a call it is the same as if the strand had contributed the fields one by one, in
  whatever order. -/
  same : ∀ id strand stage data order rest n,
    w.strands[id]? = some strand → strand.status = .ready →
    strand.rest = .act (.contributeAll stage data) :: rest → Within first w n strand →
    Fields.Sorted data → order.Perm data →
    (w.advance id).calls =
        ((w.withRest id ((singly stage order).map .act ++ rest)).moves
          (List.replicate order.length (.advance id))).calls ∧
      (w.advance id).history.head? = some ⟨w.clock, .recorded strand.list .contributeAll .done⟩
  /-- So it is for the code that builds the operation of a call. -/
  built : ∀ (u : World) (list : String) (n : Nat) (stage : TerminalStage) (data order : Fields),
    Fields.Sorted data → order.Perm data →
    let bulk := u.build list n [.act (.contributeAll stage data)]
    let single := u.build list n ((singly stage order).map .act)
    bulk.1 = none ∧ single.1 = none ∧ bulk.2.calls = single.2.calls ∧
      bulk.2.history.head? = some ⟨u.clock, .recorded list .contributeAll .done⟩
  /-- What has been contributed under a key of the map is overwritten. What has been contributed under
  another key, or to another ending, is kept, and so is all that belongs to another call. -/
  merged : ∀ id strand stage data rest n call,
    w.strands[id]? = some strand → strand.status = .ready →
    strand.rest = .act (.contributeAll stage data) :: rest → Within first w n strand →
    Fields.Sorted data → w.calls[n]? = some call →
    ∃ given, (w.advance id).calls = w.calls.set n { call with contributions := given } ∧
      (∀ key, Fields.get? key (given.bag stage) =
        (Fields.get? key data).or (Fields.get? key (call.contributions.bag stage))) ∧
      ∀ other, other ≠ stage → given.bag other = call.contributions.bag other
  /-- Outside of every extent it changes no call, and it panics exactly when there is a field in the
  map. -/
  refused : ∀ id strand stage data rest,
    w.strands[id]? = some strand → strand.status = .ready →
    strand.rest = .act (.contributeAll stage data) :: rest →
    (∀ n, ¬ Within first w n strand) →
    (w.advance id).calls = w.calls ∧
      ((w.advance id).history.head? =
          some ⟨w.clock, .recorded strand.list .contributeAll (.panicked accessorPanic)⟩ ↔
        data ≠ [])

section Bulk

variable (w : World) (list : String) (n : Nat) (stage : TerminalStage) (data : Fields)

/-- In an extent a map is given to the call as a whole, and nothing is refused. -/
theorem act_contributeAll_some :
    (w.act list (some n) (.contributeAll stage data)).calls =
        w.calls.modify n (Call.receive (Contribution.ofFields stage data)) ∧
      (w.act list (some n) (.contributeAll stage data)).history.head? =
        some ⟨w.clock, .recorded list .contributeAll .done⟩ := by
  simp only [act, contributeAll?_some]
  exact ⟨rfl, rfl⟩

/-- Where there is no call, the first field is refused, if there is one. -/
theorem act_contributeAll_none :
    (w.act list none (.contributeAll stage data)).calls = w.calls ∧
      (w.act list none (.contributeAll stage data)).history.head? =
        some ⟨w.clock, .recorded list .contributeAll
          (if data = [] then .done else .panicked accessorPanic)⟩ := by
  simp only [act, contributeAll?_none]
  by_cases hdata : data = []
  · simp [hdata, record, note]
  · simp [hdata, record, note]

end Bulk

/-- Whatever a program does and in whatever order, to contribute a map of properties comes to the same as
to contribute them one by one, and where that cannot be it panics unless the map is empty. -/
theorem bulk_of_evolves
    {reporter : Reporter}
    {hasRuntime : Bool}
    {stamps : Nat → Int}
    {source : InterruptSource}
    {plans : List DeliveryPlan}
    {w : World}
    (h : Evolves (World.start reporter hasRuntime stamps source plans) w) :
    Bulk (World.start reporter hasRuntime stamps source plans) w where
  same := by
    intro id strand stage data order rest n hstrand hready hrest hwithin hsorted hperm
    have hscope := (scope_iff_within h (unstarted_start _ _ _ _ _) hstrand).mpr hwithin
    obtain ⟨hgiven, hdone⟩ := (w.pass id rest).act_contributeAll_some strand.list n stage data
    have hrather : (w.withRest id ((singly stage order).map .act ++ rest)).strands[id]? =
        some { strand with rest := (singly stage order).map .act ++ rest } := by
      simp [withRest, withStrand, hstrand]
    rw [calls_moves_singly hrather hready hscope rfl, Call.receive_perm hsorted hperm,
      w.advance_of_acting hstrand hready hrest, hscope]
    exact ⟨hgiven, hdone⟩
  built := by
    intro u list n stage data order hsorted hperm
    obtain ⟨hgiven, hdone⟩ := u.act_contributeAll_some list n stage data
    obtain ⟨hnone, hsingle⟩ := u.build_singly list n stage order
    rw [Call.receive_perm hsorted hperm] at hsingle
    exact ⟨rfl, hnone, hgiven.trans hsingle.symm, hdone⟩
  merged := by
    intro id strand stage data rest n call hstrand hready hrest hwithin hsorted hcall
    have hscope := (scope_iff_within h (unstarted_start _ _ _ _ _) hstrand).mpr hwithin
    obtain ⟨hgiven, -⟩ := (w.pass id rest).act_contributeAll_some strand.list n stage data
    have hbag := call.contributions.bag_addEach_ofFields stage
    refine ⟨call.contributions.addEach (Contribution.ofFields stage data), ?_, ?_, ?_⟩
    · rw [w.advance_of_acting hstrand hready hrest, hscope, hgiven]
      have hset := List.modify_eq_set_getElem? (Call.receive (Contribution.ofFields stage data)) n w.calls
      rw [hcall] at hset
      exact hset
    · intro key
      rw [hbag, if_pos rfl, Fields.get?_insertAll, Fields.ofList_of_sorted hsorted]
    · intro other hother
      rw [hbag, if_neg hother]
  refused := by
    intro id strand stage data rest hstrand hready hrest houtside
    have hscope := scope_of_outside h (unstarted_start _ _ _ _ _) hstrand houtside
    obtain ⟨hkept, hfound⟩ := (w.pass id rest).act_contributeAll_none strand.list stage data
    rw [w.advance_of_acting hstrand hready hrest, hscope]
    refine ⟨hkept, ?_⟩
    rw [hfound]
    by_cases hdata : data = []
    · simp [hdata]
    · simp [hdata, pass, withStrand]

/-- For instance, when an operation has set one of the keys of a map before. -/
theorem bulk_plainRun :
    let data : Fields := [("k", .bool true), ("l", .null)]
    let body : Script :=
      [.act (.contribute .free .completed "k" .null), .act (.contributeAll .completed data)]
    let w := plainRun [] [.instrument none (.session []) [] body false none] [.advance 0, .advance 1]
    w.calls.map (fun call => call.contributions.completed) = [[("k", .null)]] ∧
      (w.advance 1).calls.map (fun call => call.contributions.completed) = [data] ∧
      Bulk (World.start plainReporter true plainStamps .channel []) w :=
  ⟨by decide +kernel, by decide +kernel, bulk_of_evolves (evolves_plainRun _ _ _)⟩

/-- Where there is no operation, the empty map is contributed as if there were one. -/
theorem empty_bulk_unrefused :
    let first := World.start plainReporter true plainStamps .channel []
    let w := plainRun [] [.act (.contributeAll .completed [])] []
    w.calls = [] ∧
      (w.advance 0).history.head? = some ⟨0, .recorded "top" .contributeAll .done⟩ ∧
      ¬ ∀ (id : Nat) (strand : Strand) (stage : TerminalStage) (data : Fields) (rest : Script),
        w.strands[id]? = some strand → strand.status = .ready →
        strand.rest = .act (.contributeAll stage data) :: rest →
        (∀ n, ¬ Within first w n strand) →
        (w.advance id).history.head? =
          some ⟨w.clock, .recorded strand.list .contributeAll (.panicked accessorPanic)⟩ := by
  intro first w
  refine ⟨rfl, rfl, fun hall => ?_⟩
  have hevolves : Evolves first w := evolves_plainRun _ _ _
  let strand : Strand := ⟨0, "top", 0, [.act (.contributeAll .completed [])], none, .ready⟩
  have houtside : ∀ n, ¬ Within first w n strand := by
    intro n hwithin
    have hstrand : w.strands[0]? = some strand := rfl
    have hscope := (scope_iff_within hevolves (unstarted_start _ _ _ _ _) hstrand).mpr hwithin
    cases hscope
  have hclaimed := hall 0 strand .completed [] [] rfl rfl rfl houtside
  cases hclaimed

end World
end LifecycleTelemetry
