import LifecycleTelemetry.Operation.Move
import LifecycleTelemetry.Proofs.Operation.Stride

/-!
# The extents of calls

The extent of a call is the part that builds its operation, and the task that the operation runs as.
An operation inside of it has a task of its own, and so has a task that it spawns; the parts that it
runs side by side are strands of its own task. So while a call is being raced, the code that runs
directly in its operation is the code of the strands of that task.

A strand carries the number of the call it contributes to along with it. `Extents` says that this is
the call in whose extent it runs, and `Contributed` that such a call has got exactly what the code in
its extent has set, in the same order. `Carries` is what a move has to do with either.
-/

namespace LifecycleTelemetry

/-- The task of an operation that is being raced. -/
def CallPhase.body? : CallPhase → Option Nat
  | .racing body => some body
  | _ => none

namespace World

/-- The task of the operation of a call, while the call is being raced. -/
def operation? (w : World) (n : Nat) : Option Nat :=
  (w.calls[n]?).bind fun c => c.phase.body?

/-- What a step of a strand sets for a call: what code that runs directly in its operation sets, and
what the code that builds the operation does. -/
def setIn (w : World) (n : Nat) (strand : Strand) : Step → List Contribution
  | .act a => if w.operation? n = some strand.task then a.contributions else []
  | .instrument _ _ steps _ _ _ =>
      if n = w.calls.length then BuildStep.contributions steps else []
  | _ => []

/-- What is set for a call in a move. -/
def setBy (w : World) (n : Nat) : Move → List Contribution
  | .advance id =>
      ((w.strands[id]?).bind fun strand => strand.next?.map (w.setIn n strand)).getD []
  | _ => []

theorem operation?_eq_some
    {w : World}
    {n body : Nat} :
    w.operation? n = some body ↔ ∃ c, w.calls[n]? = some c ∧ c.phase = .racing body := by
  have hbody : ∀ phase : CallPhase, phase.body? = some body ↔ phase = .racing body := by
    intro phase
    cases phase <;> simp [CallPhase.body?]
  simp [operation?, Option.bind_eq_some_iff, hbody]

/-! ## The invariants -/

/-- Every strand carries the call of its task along with it, and the task of an operation that is
being raced carries the call that races it. -/
structure Extents (w : World) : Prop where
  rooted : ∀ (id task : Nat) (scope : Option Nat),
    w.places[id]? = some (task, scope) → w.places[task]? = some (task, scope)
  raced : ∀ n body, w.operation? n = some body → w.places[body]? = some (body, some n)
  owned : ∀ task n, w.places[task]? = some (task, some n) →
    n < w.calls.length ∧ ∀ body, w.operation? n = some body → body = task

/-- What a call that is being raced has got, when its code has set something. -/
def Contributed (w : World) (n : Nat) (given : List Contribution) : Prop :=
  match w.calls[n]? with
  | none => given = []
  | some c => ∀ body, c.phase = .racing body → c.contributions = Contributions.none.addEach given

/-- A strand contributes to a call that is being raced exactly when it runs directly in its
operation. -/
theorem Extents.scope_iff
    {w : World}
    (hw : Extents w)
    {id n body : Nat}
    {strand : Strand}
    (hstrand : w.strands[id]? = some strand)
    (hraced : w.operation? n = some body) :
    strand.scope = some n ↔ strand.task = body := by
  have hroot := hw.rooted id strand.task strand.scope (getElem?_places hstrand)
  constructor
  · intro hscope
    rw [hscope] at hroot
    exact ((hw.owned strand.task n hroot).2 body hraced).symm
  · rintro rfl
    have hplace := hroot.symm.trans (hw.raced n strand.task hraced)
    simpa using hplace

/-! ## What a move does to extents -/

/-- How the strands of a world grow in number: by branches of a strand, a task that is spawned, or the
task of the operation of a new call. -/
inductive Grows (w after : World) : Prop where
  | same
      (h : after.places = w.places)
  | branches
      {place : Nat × Option Nat}
      {added : List (Nat × Option Nat)}
      (hplace : place ∈ w.places)
      (hadded : ∀ other ∈ added, other = place)
      (h : after.places = w.places ++ added)
  | task
      (h : after.places = w.places ++ [(w.places.length, none)])
  | operation
      (hraced : after.operation? w.calls.length = some w.places.length)
      (h : after.places = w.places ++ [(w.places.length, some w.calls.length)])

/-- What a move does to the extents of calls and to what has been contributed in them. -/
structure Carries (w : World) (given : Nat → List Contribution) (after : World) : Prop where
  count : w.calls.length ≤ after.calls.length
  grows : Grows w after
  kept : ∀ (n : Nat) (c d : Call) (body : Nat),
    w.calls[n]? = some c → after.calls[n]? = some d → d.phase = .racing body →
    c.phase = .racing body ∧ d.contributions = c.contributions.addEach (given n)
  made : ∀ (n : Nat) (d : Call) (body : Nat),
    w.calls[n]? = none → after.calls[n]? = some d → d.phase = .racing body →
    after.places = w.places ++ [(body, some n)] ∧ body = w.places.length ∧
      d.contributions = Contributions.none.addEach (given n)
  unmade : ∀ n, after.calls[n]? = none → given n = []
  set : ∀ (n : Nat) (c : Call), w.calls[n]? = some c → given n ≠ [] →
    c.phase.body?.isSome ∧ ∃ d, after.calls[n]? = some d ∧ d.phase = c.phase

section Carries

variable {w after : World} {given : Nat → List Contribution}

theorem Grows.prefix
    (h : Grows w after) :
    w.places <+: after.places := by
  cases h with
  | same h =>
      exact h ▸ List.prefix_refl _
  | branches _ _ h =>
      exact h ▸ List.prefix_append _ _
  | task h =>
      exact h ▸ List.prefix_append _ _
  | operation _ h =>
      exact h ▸ List.prefix_append _ _

theorem Grows.getElem?
    (h : Grows w after)
    {id : Nat}
    {place : Nat × Option Nat}
    (hplace : w.places[id]? = some place) :
    after.places[id]? = some place := by
  obtain ⟨added, hadded⟩ := h.prefix
  have hid := (List.getElem?_eq_some_iff.mp hplace).1
  rw [← hadded, List.getElem?_append_left hid, hplace]

/-- A strand that is new is a branch, or has started a task of its own. -/
theorem Grows.new
    (h : Grows w after)
    {id task : Nat}
    {scope : Option Nat}
    (hplace : after.places[id]? = some (task, scope)) :
    w.places[id]? = some (task, scope) ∨
      w.places.length ≤ id ∧
        ((task, scope) ∈ w.places ∨ id = w.places.length ∧ task = w.places.length ∧
          ∀ n, scope = some n →
            n = w.calls.length ∧ after.operation? n = some w.places.length) := by
  have hlast : ∀ place : Nat × Option Nat, after.places = w.places ++ [place] →
      w.places[id]? = some (task, scope) ∨ id = w.places.length ∧ (task, scope) = place := by
    intro place heq
    rw [heq, List.getElem?_append] at hplace
    split at hplace
    · exact Or.inl hplace
    · next hid =>
        obtain ⟨hlength, hsame⟩ := List.getElem?_eq_some_iff.mp hplace
        simp only [List.length_singleton] at hlength
        refine Or.inr ⟨by omega, ?_⟩
        simpa using hsame.symm
  cases h with
  | same heq =>
      exact Or.inl (heq ▸ hplace)
  | @branches place added hmem hadded heq =>
      rw [heq, List.getElem?_append] at hplace
      split at hplace
      · exact Or.inl hplace
      · next hid =>
          have hsame := hadded _ (List.mem_of_getElem? hplace)
          exact Or.inr ⟨Nat.le_of_not_lt hid, Or.inl (hsame ▸ hmem)⟩
  | task heq =>
      rcases hlast _ heq with hold | ⟨hid, hsame⟩
      · exact Or.inl hold
      · cases hsame
        exact Or.inr ⟨Nat.le_of_eq hid.symm, Or.inr ⟨hid, rfl, nofun⟩⟩
  | operation hraced heq =>
      rcases hlast _ heq with hold | ⟨hid, hsame⟩
      · exact Or.inl hold
      · cases hsame
        refine Or.inr ⟨Nat.le_of_eq hid.symm, Or.inr ⟨hid, rfl, ?_⟩⟩
        rintro n ⟨⟩
        exact ⟨rfl, hraced⟩

/-- An operation that is being raced has been raced before, or is that of a new call. -/
theorem Carries.operation?
    (h : Carries w given after)
    {n body : Nat}
    (hraced : after.operation? n = some body) :
    w.operation? n = some body ∨
      w.calls[n]? = none ∧ after.places = w.places ++ [(body, some n)] ∧ body = w.places.length := by
  obtain ⟨d, hd, hphase⟩ := operation?_eq_some.mp hraced
  cases hc : w.calls[n]? with
  | none =>
      obtain ⟨hplaces, hbody, -⟩ := h.made n d body hc hd hphase
      exact Or.inr ⟨rfl, hplaces, hbody⟩
  | some c =>
      exact Or.inl (operation?_eq_some.mpr ⟨c, hc, (h.kept n c d body hc hd hphase).1⟩)

theorem Extents.carries
    (hw : Extents w)
    (h : Carries w given after) :
    Extents after where
  rooted := by
    intro id task scope hplace
    rcases h.grows.new hplace with hold | ⟨-, hmem | ⟨hid, htask, -⟩⟩
    · exact h.grows.getElem? (hw.rooted id task scope hold)
    · obtain ⟨of, hof⟩ := List.getElem?_of_mem hmem
      exact h.grows.getElem? (hw.rooted of task scope hof)
    · obtain rfl : id = task := hid.trans htask.symm
      exact hplace
  raced := by
    intro n body hraced
    rcases h.operation? hraced with hold | ⟨-, hplaces, hbody⟩
    · exact h.grows.getElem? (hw.raced n body hold)
    · rw [hplaces, hbody]
      exact List.getElem?_concat_length
  owned := by
    intro task n hplace
    rcases h.grows.new hplace with hold | ⟨hnew, hmem | ⟨-, htask, hscope⟩⟩
    · obtain ⟨hmade, hown⟩ := hw.owned task n hold
      refine ⟨Nat.lt_of_lt_of_le hmade h.count, fun body hraced => ?_⟩
      rcases h.operation? hraced with hbefore | ⟨hunmade, -, -⟩
      · exact hown body hbefore
      · exact absurd (List.getElem?_eq_none_iff.mp hunmade) (Nat.not_le_of_lt hmade)
    · -- A branch is not the first strand of its task, which was there before.
      obtain ⟨of, hof⟩ := List.getElem?_of_mem hmem
      have hroot := hw.rooted of task (some n) hof
      exact absurd (List.getElem?_eq_some_iff.mp hroot).1 (Nat.not_lt_of_le hnew)
    · obtain ⟨-, hraced⟩ := hscope n rfl
      obtain ⟨c, hc, -⟩ := operation?_eq_some.mp hraced
      refine ⟨(List.getElem?_eq_some_iff.mp hc).1, fun body hbody => ?_⟩
      rw [hraced] at hbody
      exact (Option.some.inj hbody).symm.trans htask.symm

theorem Contributed.carries
    {n : Nat}
    {before : List Contribution}
    (hw : Contributed w n before)
    (h : Carries w given after) :
    Contributed after n (before ++ given n) := by
  unfold Contributed at *
  cases hd : after.calls[n]? with
  | none =>
      have hunmade : w.calls[n]? = none :=
        List.getElem?_eq_none_iff.mpr
          (Nat.le_trans h.count (List.getElem?_eq_none_iff.mp hd))
      simp only [hunmade] at hw
      simp [hw, h.unmade n hd]
  | some d =>
      intro body hphase
      cases hc : w.calls[n]? with
      | none =>
          simp only [hc] at hw
          simpa [hw] using (h.made n d body hc hd hphase).2.2
      | some c =>
          simp only [hc] at hw
          obtain ⟨hracing, hgiven⟩ := h.kept n c d body hc hd hphase
          rw [hgiven, hw body hracing]
          simp [Contributions.addEach]

/-- Where nothing is set, it is enough that calls that are being raced have been so before. -/
theorem carries_of_kept
    (hcount : after.calls.length = w.calls.length)
    (hgrows : Grows w after)
    (hkept : ∀ (n : Nat) (d : Call) (body : Nat),
      after.calls[n]? = some d → d.phase = .racing body → w.calls[n]? = some d)
    (hgiven : ∀ n, given n = []) :
    Carries w given after := by
  refine ⟨Nat.le_of_eq hcount.symm, hgrows, ?_, ?_, fun n _ => hgiven n,
    fun n _ _ hset => (hset (hgiven n)).elim⟩
  · intro n c d body hc hd hphase
    have hsame := hkept n d body hd hphase
    rw [hc] at hsame
    cases hsame
    rw [hgiven]
    exact ⟨hphase, rfl⟩
  · intro n d body hc hd hphase
    rw [hkept n d body hd hphase] at hc
    cases hc

theorem Apart.carries
    (h : Apart w after)
    (hgiven : ∀ n, given n = []) :
    Carries w given after :=
  carries_of_kept (by rw [h.calls]) (.same h.places) (fun _ _ _ hd _ => h.calls ▸ hd) hgiven

theorem Apart.trans_carries
    {mid : World}
    (h₁ : Apart w mid)
    (h₂ : Carries mid given after) :
    Carries w given after := by
  obtain ⟨hcount, hgrows, hkept, hmade, hunmade, hset⟩ := h₂
  rw [h₁.calls] at hcount hkept hmade hset
  rw [h₁.places] at hmade
  refine ⟨hcount, ?_, hkept, hmade, hunmade, hset⟩
  cases hgrows with
  | same h =>
      exact .same (h.trans h₁.places)
  | branches hplace hadded h =>
      exact .branches (h₁.places ▸ hplace) hadded (h₁.places ▸ h)
  | task h =>
      exact .task (h₁.places ▸ h)
  | operation hraced h =>
      rw [h₁.calls, h₁.places] at hraced h
      exact .operation hraced h

/-- A new call has got what has been set while its operation was built. -/
theorem carries_of_new
    {call : Call}
    {set : List Contribution}
    (hcalls : after.calls = w.calls ++ [call])
    (hgrows : Grows w after)
    (hcall : ∀ body, call.phase = .racing body →
      after.places = w.places ++ [(body, some w.calls.length)] ∧ body = w.places.length ∧
        call.contributions = Contributions.none.addEach set)
    (hgiven : ∀ n, given n = if n = w.calls.length then set else []) :
    Carries w given after := by
  refine ⟨by simp [hcalls], hgrows, ?_, ?_, ?_, ?_⟩
  · intro n c d body hc hd hphase
    have hn := (List.getElem?_eq_some_iff.mp hc).1
    rw [hcalls, List.getElem?_append_left hn, hc] at hd
    cases hd
    rw [hgiven, if_neg (Nat.ne_of_lt hn)]
    exact ⟨hphase, rfl⟩
  · intro n d body hc hd hphase
    have hlast := (List.getElem?_eq_some_iff.mp hd).1
    rw [List.getElem?_eq_none_iff] at hc
    rw [hcalls, List.length_append, List.length_singleton] at hlast
    obtain rfl : n = w.calls.length := by omega
    rw [hcalls, List.getElem?_concat_length] at hd
    cases hd
    rw [hgiven, if_pos rfl]
    exact hcall body hphase
  · intro n hn
    rw [hcalls, List.getElem?_eq_none_iff, List.length_append, List.length_singleton] at hn
    rw [hgiven, if_neg (by omega)]
  · intro n c hc hset
    have hn := (List.getElem?_eq_some_iff.mp hc).1
    rw [hgiven, if_neg (Nat.ne_of_lt hn)] at hset
    exact (hset rfl).elim

/-- A call that is changed is no longer being raced. -/
theorem kept_modify
    {number : Nat}
    {change : Call → Call}
    (hcalls : after.calls = w.calls.modify number change)
    (hover : ∀ c, (change c).phase.body? = none)
    (n : Nat)
    (d : Call)
    (body : Nat)
    (hd : after.calls[n]? = some d)
    (hphase : d.phase = .racing body) :
    w.calls[n]? = some d := by
  rw [hcalls, List.getElem?_modify] at hd
  obtain ⟨c, hc, rfl⟩ := Option.map_eq_some_iff.mp hd
  by_cases hn : number = n
  · simp only [hn, if_true] at hphase
    have hracing := hover c
    rw [hphase] at hracing
    cases hracing
  · simpa [hn] using hc

end Carries

/-! ## Aborting a task -/

section Abortion

theorem kept_foldl_dropCall
    (calls : List Nat)
    (w : World) :
    let after := calls.foldl dropCall w
    after.calls.length = w.calls.length ∧ after.places = w.places ∧
      ∀ (n : Nat) (d : Call) (body : Nat),
        after.calls[n]? = some d → d.phase = .racing body → w.calls[n]? = some d := by
  induction calls generalizing w with
  | nil =>
      exact ⟨rfl, rfl, fun _ _ _ hd _ => hd⟩
  | cons number rest ih =>
      obtain ⟨hplaces, hcalls⟩ := w.calls_dropCall number
      obtain ⟨hlength, hsame, hkept⟩ := ih (w.dropCall number)
      refine ⟨hlength.trans (by simp [hcalls]), hsame.trans hplaces, ?_⟩
      intro n d body hd hphase
      exact kept_modify hcalls (fun _ => rfl) n d body (hkept n d body hd hphase) hphase

/-- The strands of a task that is aborted stay in their places. -/
theorem place_abortedIn
    (task : Nat)
    (strand : Strand) :
    (Strand.abortedIn task strand).place = strand.place := by
  unfold Strand.abortedIn
  split
  · rfl
  · split
    · rfl
    · rfl

theorem places_abortedIn
    (task : Nat)
    (strands : List Strand) :
    (strands.map (Strand.abortedIn task)).map Strand.place = strands.map Strand.place := by
  simp [Function.comp_def, place_abortedIn]

end Abortion

/-! ## Turns -/

section Turns

variable {w : World} {id : Nat} {strand : Strand}

theorem setBy_of_calm
    (hcalm : IsCalm w id)
    (n : Nat) :
    w.setBy n (.advance id) = [] := by
  cases hstrand : w.strands[id]? with
  | none =>
      simp [setBy, hstrand]
  | some strand =>
      cases hnext : strand.next? with
      | none =>
          simp [setBy, hstrand, hnext]
      | some step =>
          have hstep := hcalm strand step hstrand hnext
          have hset : w.setIn n strand step = [] := by
            cases step with
            | act a =>
                cases hstep
            | instrument name subject steps body propagate abandonAfter =>
                cases hstep
            | _ =>
                rfl
          simp [setBy, hstrand, hnext, hset]

theorem setBy_of_acting
    {a : Action}
    {rest : Script}
    (hstrand : w.strands[id]? = some strand)
    (hready : strand.status = .ready)
    (hrest : strand.rest = .act a :: rest)
    (n : Nat) :
    w.setBy n (.advance id) =
      if w.operation? n = some strand.task then a.contributions else [] := by
  simp [setBy, setIn, hstrand, Strand.next?, hready, hrest]

theorem setBy_of_opening
    {name : Option String}
    {subject : Subject}
    {steps : List BuildStep}
    {body rest : Script}
    {propagate : Bool}
    {abandonAfter : Option Nat}
    (hstrand : w.strands[id]? = some strand)
    (hready : strand.status = .ready)
    (hrest : strand.rest = .instrument name subject steps body propagate abandonAfter :: rest)
    (n : Nat) :
    w.setBy n (.advance id) = if n = w.calls.length then BuildStep.contributions steps else [] := by
  simp [setBy, setIn, hstrand, Strand.next?, hready, hrest]

/-- An action gives what it sets to the call in whose extent it is carried out. -/
theorem carries_act
    (hw : Extents w)
    {a : Action}
    {rest : Script}
    (hstrand : w.strands[id]? = some strand)
    (hready : strand.status = .ready)
    (hrest : strand.rest = .act a :: rest) :
    Carries w (fun n => w.setBy n (.advance id))
      ((w.pass id rest).act strand.list strand.scope a) := by
  have hacts := (w.pass id rest).acts_act strand.list strand.scope a
  have hplaces := hacts.places.trans (w.apart_pass id rest).places
  have hcalls : ∀ n, ((w.pass id rest).act strand.list strand.scope a).calls[n]? =
      (w.calls[n]?).map
        (Call.receive (if strand.scope = some n then a.contributions else [])) :=
    hacts.getElem?_calls
  have hgiven := setBy_of_acting hstrand hready hrest
  generalize (w.pass id rest).act strand.list strand.scope a = after at hplaces hcalls
  have hunmade : ∀ n : Nat, after.calls[n]? = none ↔ w.calls[n]? = none := by
    simp [hcalls]
  refine ⟨?_, .same hplaces, ?_, ?_, ?_, ?_⟩
  · have hend := (hunmade after.calls.length).mp (List.getElem?_eq_none (Nat.le_refl _))
    exact List.getElem?_eq_none_iff.mp hend
  · intro n c d body hc hd hphase
    rw [hcalls, hc] at hd
    cases hd
    have hraced := operation?_eq_some.mpr ⟨c, hc, hphase⟩
    have hwithin : w.operation? n = some strand.task ↔ strand.scope = some n := by
      rw [hraced, Option.some.injEq, hw.scope_iff hstrand hraced, eq_comm]
    refine ⟨hphase, ?_⟩
    simp only [hgiven, hwithin]
    rfl
  · intro n d body hc hd _
    rw [(hunmade n).mpr hc] at hd
    cases hd
  · intro n hn
    have hnone := (hunmade n).mp hn
    simp [hgiven, operation?, hnone]
  · intro n c hc hset
    have hraced : w.operation? n = some strand.task := by
      by_cases hin : w.operation? n = some strand.task
      · exact hin
      · simp [hgiven, hin] at hset
    refine ⟨?_, c.receive (if strand.scope = some n then a.contributions else []), ?_, rfl⟩
    · simp only [operation?, hc, Option.bind_some] at hraced
      rw [hraced]
      rfl
    · rw [hcalls, hc]
      rfl

/-- A new call whose operation has been built. -/
theorem calls_build
    (w : World)
    (id : Nat)
    (inner : String)
    (subject : Subject)
    (steps : List BuildStep)
    (propagate : Bool)
    (abandonAfter : Option Nat) :
    let built :=
      ((w.openCall id subject propagate abandonAfter).build inner w.calls.length
        (w.readied steps)).2
    built.places = w.places ∧ ∃ call, built.calls = w.calls ++ [call] ∧
      call.contributions = Contributions.none.addEach (BuildStep.contributions steps) := by
  intro built
  obtain ⟨hplaces, listener, hcalls⟩ := calls_openCall w id subject propagate abandonAfter
  have hacts := acts_build (w.openCall id subject propagate abandonAfter) inner w.calls.length steps
  rw [← build_readied _ w] at hacts
  have hgiven := hacts.calls
  simp only [hcalls, modify_length_append] at hgiven
  exact ⟨hacts.places.trans hplaces, _, hgiven, rfl⟩

theorem carries_instrument
    (w : World)
    (id : Nat)
    (list inner : String)
    (subject : Subject)
    (steps : List BuildStep)
    (body : Script)
    (propagate : Bool)
    (abandonAfter : Option Nat)
    {given : Nat → List Contribution}
    (hgiven : ∀ n, given n = if n = w.calls.length then BuildStep.contributions steps else []) :
    Carries w given
      (w.instrument id list inner subject steps body propagate abandonAfter) := by
  obtain ⟨hplaces, call, hcalls, hset⟩ :=
    calls_build w id inner subject steps propagate abandonAfter
  rw [instrument_eq]
  cases hbuilt : (w.openCall id subject propagate abandonAfter).build inner w.calls.length
    (w.readied steps) with
  | mk panic built =>
      simp only [hbuilt] at hplaces hcalls
      cases panic with
      | some p =>
          obtain ⟨hsame, hleft⟩ := calls_collapse built id list w.calls.length p propagate
          rw [hcalls, modify_length_append] at hleft
          exact carries_of_new hleft (.same (hsame.trans hplaces)) nofun hgiven
      | none =>
          obtain ⟨hspawned, hracing⟩ := calls_startRace built id inner w.calls.length body
          rw [hcalls, modify_length_append, hplaces] at hracing
          rw [hplaces] at hspawned
          have hraced : (built.startRace id inner w.calls.length body).operation? w.calls.length =
              some w.places.length :=
            operation?_eq_some.mpr ⟨_, by rw [hracing, List.getElem?_concat_length], rfl⟩
          refine carries_of_new hracing (.operation hraced hspawned) ?_ hgiven
          rintro _ ⟨⟩
          exact ⟨hspawned, rfl, hset⟩

theorem carries_advance
    (hw : Extents w)
    (id : Nat) :
    Carries w (fun n => w.setBy n (.advance id)) (w.advance id) := by
  have hstride := w.stride_advance id
  have hcalm := fun h : IsCalm w id => setBy_of_calm h
  generalize hafter : w.advance id = after at hstride
  cases hstride with
  | apart hcalm' h =>
      exact h.carries (hcalm hcalm')
  | acts hstrand hready hrest =>
      exact carries_act hw hstrand hready hrest
  | @adds strand added _ hstrand hcalm' h hadded =>
      have hgrows : Grows w after := by
        rcases hadded with hbranches | hspawned
        · have hmem := List.mem_of_getElem? (getElem?_places hstrand)
          exact .branches hmem hbranches h.places
        · refine .task (h.places.trans ?_)
          rw [hspawned, places, List.length_map]
      refine carries_of_kept (by rw [h.calls]) hgrows ?_ (hcalm hcalm')
      exact fun _ _ _ hd _ => h.calls ▸ hd
  | @opens strand name subject steps body rest propagate abandonAfter hstrand hready hrest =>
      have hset := setBy_of_opening hstrand hready hrest
      exact (w.apart_pass id rest).trans_carries (carries_instrument _ id _ _ _ _ _ _ _ hset)
  | @concludes strand number call s hstrand hracing _ _ =>
      obtain ⟨hplaces, hcalls⟩ := w.calls_conclude id strand.list number call s
      have hidle := w.isCalm_of_waiting id hstrand (by simp [Strand.next?, hracing])
      exact carries_of_kept (by simp [hcalls]) (.same hplaces) (kept_modify hcalls fun _ => rfl)
        (hcalm hidle)
  | @abandons strand number hstrand hracing =>
      obtain ⟨hplaces, hcalls⟩ := w.calls_dropCall number
      have hafter := w.apart_abandon id strand.list number
      have hidle := w.isCalm_of_waiting id hstrand (by simp [Strand.next?, hracing])
      rw [← hafter.calls] at hcalls
      exact carries_of_kept (by simp [hcalls]) (.same (hafter.places.trans hplaces))
        (kept_modify hcalls fun _ => rfl) (hcalm hidle)

theorem carries_move
    (hw : Extents w)
    (m : Move) :
    Carries w (fun n => w.setBy n m) (w.move m) := by
  cases m with
  | advance id =>
      exact carries_advance hw id
  | deliver id =>
      exact (w.apart_deliver id).carries fun _ => rfl
  | pass time =>
      exact carries_of_kept rfl (.same rfl) (fun _ _ _ hd _ => hd) fun _ => rfl
  | signal s =>
      exact carries_of_kept rfl (.same rfl) (fun _ _ _ hd _ => hd) fun _ => rfl
  | abort task =>
      obtain ⟨hlength, hplaces, hkept⟩ := kept_foldl_dropCall (w.racesOf task) w
      refine carries_of_kept hlength (.same ?_) hkept fun _ => rfl
      rw [← hplaces]
      exact places_abortedIn task _

end Turns
end World
end LifecycleTelemetry
