import LifecycleTelemetry.Proofs.Json.Fields
import LifecycleTelemetry.Proofs.Operation.Extent
import LifecycleTelemetry.Proofs.Operation.ReportsOnce

/-!
# Contributions reach the event they belong to

Whatever code may set for the ending of a call, the event of that ending carries exactly the map of
what the code in the call's own extent has set for the stage of the ending, as long as the race had not
been decided. Of several values for one key the last one is in the map.

`Gathers` follows a world on its way and collects what is set in the extent of a call, going by the
task of the operation and the part that builds it alone. It does not look at the call that a strand
carries along with it, by which contributions find their way in the program. `Attributed` says that
both come to the same.
-/

namespace LifecycleTelemetry

open Json (Fields)

/-! ## Maps of what has been set -/

/-- The value that has been set last for a key, of those for one ending. -/
def latest? (given : List Contribution) (stage : TerminalStage) (key : String) : Option Json :=
  ((given.filter fun g => g.stage = stage ∧ g.key = key).getLast?).map Contribution.value

/-- The fields are the map of what has been set for an ending. -/
structure LastWritten (fields : Fields) (given : List Contribution) (stage : TerminalStage) : Prop
    where
  sorted : Fields.Sorted fields
  value : ∀ key, Fields.get? key fields = latest? given stage key

theorem latest?_cons
    (g : Contribution)
    (rest : List Contribution)
    (stage : TerminalStage)
    (key : String) :
    latest? (g :: rest) stage key =
      (latest? rest stage key).or
        (if g.stage = stage ∧ g.key = key then some g.value else none) := by
  unfold latest?
  by_cases h : g.stage = stage ∧ g.key = key
  · simp only [List.filter_cons, h, and_self, decide_true, if_true, List.getLast?_cons]
    cases (rest.filter fun g => g.stage = stage ∧ g.key = key).getLast? <;> rfl
  · simp [h]

/-- What is added one after the other comes before what has been there. -/
theorem get?_addEach
    (c : Contributions)
    (given : List Contribution)
    (stage : TerminalStage)
    (key : String) :
    Fields.get? key ((c.addEach given).bag stage) =
      (latest? given stage key).or (Fields.get? key (c.bag stage)) := by
  induction given generalizing c with
  | nil =>
      rfl
  | cons g rest ih =>
      have hadd : Fields.get? key ((c.add g.stage g.key g.value).bag stage) =
          (if g.stage = stage ∧ g.key = key then some g.value else none).or
            (Fields.get? key (c.bag stage)) := by
        rw [Contributions.bag_add]
        by_cases hstage : stage = g.stage
        · rw [if_pos hstage, Fields.get?_insert, ← hstage]
          by_cases hkey : key = g.key
          · simp [hkey]
          · have hne : ¬ g.key = key := fun h => hkey h.symm
            simp [hkey, hne]
        · have hne : ¬ g.stage = stage := fun h => hstage h.symm
          simp [hstage, hne]
      have hrest := ih (c.add g.stage g.key g.value)
      rw [hadd, ← Option.or_assoc, ← latest?_cons] at hrest
      exact hrest

theorem sorted_addEach
    (c : Contributions)
    (given : List Contribution)
    (h : ∀ stage, Fields.Sorted (c.bag stage))
    (stage : TerminalStage) :
    Fields.Sorted ((c.addEach given).bag stage) := by
  induction given generalizing c with
  | nil =>
      exact h stage
  | cons g rest ih =>
      refine ih (c.add g.stage g.key g.value) fun other => ?_
      rw [Contributions.bag_add]
      split
      · exact Fields.sorted_insert _ _ (h g.stage)
      · exact h other

/-- What has been added one after the other is the map of what has been set. -/
theorem lastWritten_addEach
    (given : List Contribution)
    (stage : TerminalStage) :
    LastWritten ((Contributions.none.addEach given).bag stage) given stage := by
  have hnone : ∀ stage, Contributions.none.bag stage = [] := by
    intro stage
    cases stage <;> rfl
  refine ⟨sorted_addEach _ given (fun other => ?_) stage, fun key => ?_⟩
  · rw [hnone]
    exact List.Pairwise.nil
  · rw [get?_addEach, hnone]
    exact Option.or_none

namespace World

/-! ## What is set on the way -/

/-- `first` may become `w`, and on the way `given` is set in the extent of a call. -/
inductive Gathers (n : Nat) (first : World) : World → List Contribution → Prop where
  | refl : Gathers n first first []
  | move
      {v : World}
      {given : List Contribution}
      (m : Move)
      (h : Gathers n first v given) :
      Gathers n first (v.move m) (given ++ v.setBy n m)
  | script
      {v : World}
      {given : List Contribution}
      (s : Script)
      (h : Gathers n first v given)
      (hover : (v.outcome? 0).isSome) :
      Gathers n first (v.beginScript s) given
  | rouse
      {v : World}
      {given : List Contribution}
      (woken : List TaskId)
      (h : Gathers n first v given) :
      Gathers n first { v with woken } given
  | mark
      {v : World}
      {given : List Contribution}
      (pending listeners : Nat)
      (h : Gathers n first v given) :
      Gathers n first (v.note (.scriptEnded pending listeners)) given

section Gathers

variable {n : Nat} {first w : World} {given : List Contribution}

theorem Evolves.gathers
    (h : Evolves first w)
    (n : Nat) :
    ∃ given, Gathers n first w given := by
  induction h with
  | refl =>
      exact ⟨_, .refl⟩
  | move m _ ih =>
      obtain ⟨given, hgiven⟩ := ih
      exact ⟨_, .move m hgiven⟩
  | script s _ hover ih =>
      obtain ⟨given, hgiven⟩ := ih
      exact ⟨given, .script s hgiven hover⟩
  | rouse woken _ ih =>
      obtain ⟨given, hgiven⟩ := ih
      exact ⟨given, .rouse woken hgiven⟩
  | mark pending listeners _ ih =>
      obtain ⟨given, hgiven⟩ := ih
      exact ⟨given, .mark pending listeners hgiven⟩

theorem Gathers.evolves
    (h : Gathers n first w given) :
    Evolves first w := by
  induction h with
  | refl =>
      exact .refl
  | move m _ ih =>
      exact .move m ih
  | script s _ hover ih =>
      exact .script s ih hover
  | rouse woken _ ih =>
      exact .rouse woken ih
  | mark pending listeners _ ih =>
      exact .mark pending listeners ih

/-- What holds at first, and is kept by every change that carries on what is set, holds on the
whole way. -/
theorem Gathers.induct
    {P : World → List Contribution → Prop}
    (h : Gathers n first w given)
    (hfirst : Extents first)
    (hstart : P first [])
    (hstep : ∀ (u after : World) (before : List Contribution) (set : Nat → List Contribution),
      Gathers n first u before → Evolves u after → Extents u → Extents after → Change u after →
        Carries u set after → P u before → P after (before ++ set n)) :
    P w given := by
  have hcarried : Extents w ∧ P w given := by
    induction h with
    | refl =>
        exact ⟨hfirst, hstart⟩
    | @move u before m h ih =>
        have hcarries := carries_move ih.1 m
        have hafter := ih.1.carries hcarries
        exact ⟨hafter,
          hstep _ _ _ _ h (.move m .refl) ih.1 hafter (change_move _ m) hcarries ih.2⟩
    | @script u before s h hover ih =>
        have hcarries : Carries u (fun _ => []) (u.beginScript s) :=
          (apart_withStrand u 0 (fun strand => { strand with index := 0, rest := s, status := .ready })
            fun _ => rfl).carries fun _ => rfl
        have hafter := ih.1.carries hcarries
        refine ⟨hafter, ?_⟩
        simpa using
          hstep _ _ _ _ h (.script s .refl hover) ih.1 hafter (.script s hover) hcarries ih.2
    | @rouse u before woken h ih =>
        have hcarries : Carries u (fun _ => []) { u with woken } :=
          Apart.carries ⟨rfl, rfl, rfl, rfl⟩ fun _ => rfl
        have hafter := ih.1.carries hcarries
        have hchange : Change u { u with woken } := .background (background_rouse u _ _ woken)
        refine ⟨hafter, ?_⟩
        simpa using hstep _ _ _ _ h (.rouse woken .refl) ih.1 hafter hchange hcarries ih.2
    | @mark u before pending listeners h ih =>
        have hcarries : Carries u (fun _ => []) (u.note (.scriptEnded pending listeners)) :=
          (apart_note u _).carries fun _ => rfl
        have hafter := ih.1.carries hcarries
        have hchange := Change.background (background_note u (.scriptEnded pending listeners)
          fun _ _ => rfl)
        refine ⟨hafter, ?_⟩
        simpa using hstep _ _ _ _ h (.mark _ _ .refl) ih.1 hafter hchange hcarries ih.2
  exact hcarried.2

/-- No call has been made yet, and no strand carries one along. -/
structure Unstarted (w : World) : Prop where
  extents : Extents w
  calls : w.calls = []
  nowhere : ∀ id task n : Nat, w.places[id]? ≠ some (task, some n)

/-- So it is in a world in which nothing has happened. -/
theorem unstarted_start
    (reporter : Reporter)
    (hasRuntime : Bool)
    (stamps : Nat → Int)
    (source : InterruptSource)
    (plans : List DeliveryPlan) :
    Unstarted (World.start reporter hasRuntime stamps source plans) := by
  have honly : ∀ (id task : Nat) (scope : Option Nat),
      (World.start reporter hasRuntime stamps source plans).places[id]? = some (task, scope) →
        id = 0 ∧ task = 0 ∧ scope = none := by
    intro id task scope h
    cases id with
    | zero =>
        cases h
        exact ⟨rfl, rfl, rfl⟩
    | succ id =>
        cases h
  have hnowhere : ∀ id task n : Nat,
      (World.start reporter hasRuntime stamps source plans).places[id]? ≠ some (task, some n) := by
    intro id task n h
    obtain ⟨-, -, hscope⟩ := honly id task (some n) h
    cases hscope
  refine ⟨⟨?_, nofun, fun task n h => (hnowhere task task n h).elim⟩, rfl, hnowhere⟩
  intro id task scope h
  obtain ⟨rfl, rfl, -⟩ := honly id task scope h
  exact h

theorem Gathers.extents
    (h : Gathers n first w given)
    (hfirst : Extents first) :
    Extents w :=
  h.induct (P := fun w _ => Extents w) hfirst hfirst fun _ _ _ _ _ _ _ hafter _ _ _ => hafter

theorem Gathers.contributed
    (h : Gathers n first w given)
    (hfirst : Unstarted first) :
    Contributed w n given := by
  have hstart : Contributed first n [] := by
    unfold Contributed
    rw [hfirst.calls]
    rfl
  exact h.induct (P := fun w given => Contributed w n given) hfirst.extents hstart
    fun _ _ _ _ _ _ _ _ _ hcarries hu => hu.carries hcarries

end Gathers

/-! ## Extents on the way -/

/-- A strand runs in the extent of a call: its task is that of the operation, or has been while the
call was being raced. -/
def Within (first w : World) (n : Nat) (strand : Strand) : Prop :=
  ∃ u, Evolves first u ∧ Evolves u w ∧ u.operation? n = some strand.task

section Within

variable {first w : World}

/-- Strands stay where they are. -/
theorem Evolves.places
    (h : Evolves first w)
    (hfirst : Extents first)
    {id : Nat}
    {place : Nat × Option Nat}
    (hplace : first.places[id]? = some place) :
    w.places[id]? = some place := by
  obtain ⟨given, hgiven⟩ := h.gathers 0
  exact hgiven.induct (P := fun w _ => w.places[id]? = some place) hfirst hplace
    fun _ _ _ _ _ _ _ _ _ hcarries hu => hcarries.grows.getElem? hu

/-- A task that carries a call along with it has been its operation. -/
theorem Evolves.raced
    (h : Evolves first w)
    (hfirst : Unstarted first)
    {task n : Nat}
    (hplace : w.places[task]? = some (task, some n)) :
    ∃ u, Evolves first u ∧ Evolves u w ∧ u.operation? n = some task := by
  obtain ⟨given, hgiven⟩ := h.gathers 0
  refine hgiven.induct
    (P := fun w _ => w.places[task]? = some (task, some n) →
      ∃ u, Evolves first u ∧ Evolves u w ∧ u.operation? n = some task)
    hfirst.extents (fun h => (hfirst.nowhere task task n h).elim) ?_ hplace
  intro u after before set hpast hstep hu _ _ hcarries ih hafter
  rcases hcarries.grows.new hafter with hold | ⟨hnew, hmem | ⟨-, htask, hscope⟩⟩
  · obtain ⟨v, hv, hlater, hraced⟩ := ih hold
    exact ⟨v, hv, hlater.trans hstep, hraced⟩
  · obtain ⟨of, hof⟩ := List.getElem?_of_mem hmem
    have hroot := hu.rooted of task (some n) hof
    exact absurd (List.getElem?_eq_some_iff.mp hroot).1 (Nat.not_lt_of_le hnew)
  · obtain ⟨-, hraced⟩ := hscope n rfl
    exact ⟨after, hpast.evolves.trans hstep, .refl, htask ▸ hraced⟩

/-- A strand carries exactly the call along with it in whose extent it runs. -/
theorem scope_iff_within
    (h : Evolves first w)
    (hfirst : Unstarted first)
    {id n : Nat}
    {strand : Strand}
    (hstrand : w.strands[id]? = some strand) :
    strand.scope = some n ↔ Within first w n strand := by
  have hextents : ∀ {u}, Evolves first u → Extents u := by
    intro u hu
    obtain ⟨given, hgiven⟩ := hu.gathers 0
    exact hgiven.extents hfirst.extents
  have hroot := (hextents h).rooted id strand.task strand.scope (getElem?_places hstrand)
  constructor
  · intro hscope
    rw [hscope] at hroot
    exact h.raced hfirst hroot
  · rintro ⟨u, hu, hlater, hraced⟩
    have hplace := (hextents hu).raced n strand.task hraced
    have hsame := hroot.symm.trans (hlater.places (hextents hu) hplace)
    simpa using hsame

end Within

/-! ## What is reported -/

/-- The ending of a call is reported with what its code has set. -/
theorem Gathers.reports
    {n : Nat}
    {first w : World}
    {given : List Contribution}
    (h : Gathers n first w given)
    (hfirst : Unstarted first)
    (haccounted : Accounted first)
    {call : Call}
    {s : Settlement}
    (hcall : w.outlines[n]? = some call)
    (hphase : call.phase = .settled s) :
    ∃ stop, w.reports n =
      [w.startReport call,
        w.endReport call s ((Contributions.none.addEach given).bag s.ending.stage) stop] := by
  refine h.induct
    (P := fun w given => w.outlines[n]? = some call → ∃ stop, w.reports n =
      [w.startReport call,
        w.endReport call s ((Contributions.none.addEach given).bag s.ending.stage) stop])
    hfirst.extents ?_ ?_ hcall
  · intro hunmade
    simp [outlines, hfirst.calls] at hunmade
  · intro u after before set hpast hstep _ _ hchange hcarries ih hafter
    have hu := haccounted.evolves hpast.evolves
    have hendures := endures_of_change hchange
    -- What is set in a change is set for a call that is being raced before and after it.
    have hquiet : ∀ c, u.calls[n]? = some c → set n = [] := by
      intro c hc
      refine Decidable.byContradiction fun hset => ?_
      obtain ⟨hracing, d, hd, hsame⟩ := hcarries.set n c hc hset
      rw [getElem?_outlines hd] at hafter
      cases hafter
      have hsettled : d.phase = .settled s := hphase
      rw [← hsame, hsettled] at hracing
      cases hracing
    have hcause := callChange_of_change hu.owned hchange n
    cases hcause with
    | unchanged houtline hreports =>
        rw [houtline] at hafter
        obtain ⟨stop, hstop⟩ := ih hafter
        obtain ⟨c, hc, -⟩ : ∃ c, u.calls[n]? = some c ∧ c.outline = call := by
          rw [outlines, List.getElem?_map] at hafter
          exact Option.map_eq_some_iff.mp hafter
        refine ⟨stop, ?_⟩
        rw [hreports, hstop, hquiet c hc, List.append_nil]
        simp only [startReport, endReport, hendures.reportAt]
    | made _ _ _ hmade hbegins _ _ =>
        rw [hmade] at hafter
        cases hafter
        rcases hbegins with ⟨body, hracing⟩ | ⟨p, hcollapsed, -⟩
        · simp [hracing] at hphase
        · simp [hcollapsed] at hphase
    | @settled id strand before' s' _ _ hbefore hsettled heq hmade hreports =>
        rw [hmade] at hafter
        cases hafter
        cases hphase
        obtain ⟨body, hracing⟩ := racing_of_settlement? hsettled
        have hreported := hu.hasReported hbefore
        simp only [HasReported, hracing] at hreported
        have hgiven := hpast.contributed hfirst
        simp only [Contributed, hbefore] at hgiven
        refine ⟨u.clock, ?_⟩
        rw [hreports, if_pos hu.reporting, hreported, hquiet before' hbefore, List.append_nil,
          ← hgiven body hracing]
        simp only [startReport, endReport, hendures.reportAt]
        rfl
    | dropped _ _ hmade _ =>
        rw [hmade] at hafter
        cases hafter
        cases hphase

/-! ## Every contribution at its place -/

/-- What accessors come to, and in which events it shows what they have set. -/
structure Attributed (first w : World) : Prop where
  /-- On every way something has been set for every call, be it nothing at all. -/
  gathered : ∀ n, ∃ given, Gathers n first w given
  /-- The ending of a call is reported with exactly the map of what code in its extent has set for the
  stage of the ending while the race was undecided. -/
  carried : w.isReporting = true → ∀ n call s given,
    w.calls[n]? = some call → call.phase = .settled s → Gathers n first w given →
    ∃ stop contributed,
      w.reports n = [w.startReport call, w.endReport call s contributed stop] ∧
        LastWritten contributed given s.ending.stage
  /-- A call that ends in another way reports nothing of what has been set. -/
  unreported : w.isReporting = true → ∀ n call,
    w.calls[n]? = some call → (∀ s, call.phase ≠ .settled s) → w.reports n = [w.startReport call]
  /-- In the extent of a call every accessor contributes to this call and to no other. -/
  accepted : ∀ id strand accessor stage key value rest n,
    w.strands[id]? = some strand → strand.status = .ready →
    strand.rest = .act (.contribute accessor stage key value) :: rest → Within first w n strand →
    (w.advance id).calls = w.calls.modify n (Call.receive [⟨stage, key, value⟩]) ∧
      (w.advance id).history.head? =
        some ⟨w.clock, .recorded strand.list (.contribute accessor) .done⟩
  appended : ∀ id strand stage data rest n,
    w.strands[id]? = some strand → strand.status = .ready →
    strand.rest = .act (.contributeAll stage data) :: rest → Within first w n strand →
    (w.advance id).calls =
        w.calls.modify n (Call.receive (data.map fun field => ⟨stage, field.1, field.2⟩)) ∧
      (w.advance id).history.head? = some ⟨w.clock, .recorded strand.list .contributeAll .done⟩
  /-- Outside of every extent nothing is contributed: the attempt says so, the others panic. -/
  refused : ∀ id strand accessor stage key value rest,
    w.strands[id]? = some strand → strand.status = .ready →
    strand.rest = .act (.contribute accessor stage key value) :: rest →
    (∀ n, ¬ Within first w n strand) →
    (w.advance id).calls = w.calls ∧
      (w.advance id).history.head? =
        some ⟨w.clock, .recorded strand.list (.contribute accessor)
          (match accessor with
            | .attempt => .refused .noActiveOperation
            | _ => .panicked accessorPanic)⟩
  rejected : ∀ id strand stage data rest,
    w.strands[id]? = some strand → strand.status = .ready →
    strand.rest = .act (.contributeAll stage data) :: rest → data ≠ [] →
    (∀ n, ¬ Within first w n strand) →
    (w.advance id).calls = w.calls ∧
      (w.advance id).history.head? =
        some ⟨w.clock, .recorded strand.list .contributeAll (.panicked accessorPanic)⟩

section Attributed

variable {first w : World}

theorem advance_of_acting
    (w : World)
    {id : Nat}
    {strand : Strand}
    {a : Action}
    {rest : Script}
    (hstrand : w.strands[id]? = some strand)
    (hready : strand.status = .ready)
    (hrest : strand.rest = .act a :: rest) :
    w.advance id = (w.pass id rest).act strand.list strand.scope a := by
  rw [w.advance_of_ready id hstrand hready, stepForward, hrest]
  rfl

/-- Outside of every extent a strand carries no call along with it. -/
theorem scope_of_outside
    (h : Evolves first w)
    (hfirst : Unstarted first)
    {id : Nat}
    {strand : Strand}
    (hstrand : w.strands[id]? = some strand)
    (houtside : ∀ n, ¬ Within first w n strand) :
    strand.scope = none := by
  cases hscope : strand.scope with
  | none =>
      rfl
  | some n =>
      exact (houtside n ((scope_iff_within h hfirst hstrand).mp hscope)).elim

theorem Evolves.isReporting
    (h : Evolves first w) :
    w.isReporting = first.isReporting :=
  h.endures.isReporting

theorem attributed_of_accounted
    (h : Evolves first w)
    (hfirst : Unstarted first)
    (haccounted : w.isReporting = true → Accounted first) :
    Attributed first w where
  gathered := h.gathers
  carried := by
    intro hreporting n call s given hcall hphase hgiven
    obtain ⟨stop, hstop⟩ := hgiven.reports hfirst (haccounted hreporting) (getElem?_outlines hcall)
      hphase
    exact ⟨stop, _, hstop, lastWritten_addEach given s.ending.stage⟩
  unreported := by
    intro hreporting n call hcall hunsettled
    exact (((haccounted hreporting).evolves h).reportsOnce.otherwise n call hcall hunsettled).2
  accepted := by
    intro id strand accessor stage key value rest n hstrand hready hrest hwithin
    have hscope := (scope_iff_within h hfirst hstrand).mpr hwithin
    rw [w.advance_of_acting hstrand hready hrest, hscope]
    exact ⟨rfl, rfl⟩
  appended := by
    intro id strand stage data rest n hstrand hready hrest hwithin
    have hscope := (scope_iff_within h hfirst hstrand).mpr hwithin
    have hsome := (w.pass id rest).contributeAll?_isSome n stage data
    have hacts := (w.pass id rest).acts_act strand.list (some n) (.contributeAll stage data)
    have hclock := (quiet_act id (w.pass id rest) strand.list (some n)
      (.contributeAll stage data)).clock
    rw [w.advance_of_acting hstrand hready hrest, hscope]
    refine ⟨hacts.calls, ?_⟩
    obtain ⟨after, hafter⟩ := Option.isSome_iff_exists.mp hsome
    simp only [act, hafter] at hclock ⊢
    have hsame : after.clock = w.clock := hclock
    rw [← hsame]
    rfl
  refused := by
    intro id strand accessor stage key value rest hstrand hready hrest houtside
    have hscope := scope_of_outside h hfirst hstrand houtside
    rw [w.advance_of_acting hstrand hready hrest, hscope]
    cases accessor with
    | _ =>
        exact ⟨rfl, rfl⟩
  rejected := by
    intro id strand stage data rest hstrand hready hrest hdata houtside
    have hscope := scope_of_outside h hfirst hstrand houtside
    rw [w.advance_of_acting hstrand hready hrest, hscope]
    simp only [act, contributeAll?_none, hdata, if_false]
    exact ⟨rfl, rfl⟩

end Attributed

/-- Whatever a program does and in whatever order, contributions reach the event they belong to, and
no other. -/
theorem attributed_of_evolves
    {reporter : Reporter}
    {hasRuntime : Bool}
    {stamps : Nat → Int}
    {source : InterruptSource}
    {plans : List DeliveryPlan}
    {w : World}
    (h : Evolves (World.start reporter hasRuntime stamps source plans) w) :
    Attributed (World.start reporter hasRuntime stamps source plans) w := by
  refine attributed_of_accounted h (unstarted_start reporter hasRuntime stamps source plans) ?_
  intro hreporting
  rw [h.isReporting] at hreporting
  simp only [isReporting, start, Bool.and_eq_true] at hreporting
  obtain ⟨⟨henabled, htransport⟩, rfl⟩ := hreporting
  exact accounted_start henabled htransport stamps source plans

/-- For instance, when an operation sets a key twice, once while it is built, the one inside it sets the
same key, and a task that it spawns tries to. -/
theorem attributed_plainRun :
    let set (accessor : Accessor) (value : String) : Action :=
      .contribute accessor .completed "k" (.string value)
    let inner : Step :=
      .instrument none (.prompt "q" .null) [.act (set .free "inner")] [] false none
    let body : Script := [.act (set .reporter "outer"), .spawn none [.act (set .attempt "lost")] false,
      inner]
    let w := plainRun [] [.instrument none (.session []) [.act (set .free "first")] body false none]
      [.advance 0, .advance 1, .advance 1, .advance 2, .advance 1, .advance 3, .advance 1, .advance 1,
        .advance 0]
    (w.reports 0).map (fun r => Fields.get? "k" r.message.properties) = [none, some (.string "outer")] ∧
      (w.reports 1).map (fun r => Fields.get? "k" r.message.properties) = [none, some (.string "inner")] ∧
      Attributed (World.start plainReporter true plainStamps .channel []) w :=
  ⟨by decide +kernel, by decide +kernel, attributed_of_evolves (evolves_plainRun _ _ _)⟩

end World
end LifecycleTelemetry
