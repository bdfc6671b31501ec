import LifecycleTelemetry.Proofs.Operation.Frame

/-!
# The turns of a strand

`World.advance` has many cases, but only four kinds of turn do anything that other parts of a
program take note of: a strand makes a call, ends one, gives one up, or begins to drain. Every
other turn is quiet. The main result is `turn_advance`, and what a run preserves is shown by
these cases.

A strand is *held* where it is while it waits for the race of a call or for a drain, and for
good when it has been aborted. No quiet turn moves it, except that a drain goes on.
-/

namespace LifecycleTelemetry

/-- Whether a strand is held where it is: by a race, by a drain, or because it has been aborted. -/
def StrandStatus.isHeld : StrandStatus → Bool
  | .racing _ => true
  | .draining _ _ => true
  | .aborted => true
  | _ => false

namespace World

open Json (Fields)

/-! ## Quiet steps -/

section Steps

variable (id : Nat) (w : World)

theorem quiet_act
    (list : String)
    (scope : Option Nat)
    (a : Action) :
    Quiet id w (w.act list scope a) := by
  cases a with
  | contribute accessor stage key value =>
      simp only [act]
      cases h : w.contribute? scope stage key value with
      | none =>
          exact quiet_record id w _ _ _
      | some mid =>
          exact (quiet_contribute? id w h).trans (quiet_record id mid _ _ _)
  | contributeAll stage data =>
      simp only [act]
      cases h : w.contributeAll? scope stage data with
      | none =>
          exact quiet_record id w _ _ _
      | some mid =>
          exact (quiet_contributeAll? id w h).trans (quiet_record id mid _ _ _)
  | trigger s =>
      exact (quiet_trigger id w s).trans (quiet_record id _ _ _ _)
  | send name properties =>
      exact (quiet_send_program id w name properties).trans (quiet_record id _ _ _ _)
  | post event properties =>
      exact (quiet_post_program id w event properties).trans (quiet_record id _ _ _ _)
  | currentTitle =>
      exact quiet_record id w _ _ _
  | countListeners =>
      exact quiet_record id w _ _ _
  | countPending =>
      exact quiet_record id w _ _ _
  | describeReporter =>
      exact quiet_record id w _ _ _
  | isDelivered posted =>
      exact quiet_record id w _ _ _
  | log line =>
      exact quiet_note id w _ fun _ _ => rfl

theorem quiet_build
    (list : String)
    (call : Nat)
    (steps : List BuildStep) :
    Quiet id w (w.build list call steps).2 := by
  induction steps generalizing w with
  | nil =>
      exact .refl
  | cons step rest ih =>
      cases step with
      | panic p =>
          exact .refl
      | act a =>
          exact (quiet_act id w list (some call) a).trans (ih _)

theorem quiet_finish
    (o : Outcome) :
    Quiet id w (w.finish id o) := by
  unfold finish
  cases w.strands[id]? with
  | none =>
      exact .refl
  | some strand =>
      have hstatus := quiet_withStatus id w (.finished o) rfl
      simp only
      split
      · exact hstatus.trans (quiet_background id _ _ _ _)
      · exact hstatus

theorem quiet_passOn
    (texts : List String) :
    Quiet id w (w.passOn id texts) := by
  unfold passOn
  split
  · exact quiet_finish id w _
  · exact quiet_finish id w _
  · exact .refl

theorem quiet_hand
    (o : Outcome)
    (propagate : Bool) :
    Quiet id w (w.hand id o propagate) := by
  have hready := quiet_withStatus id w .ready rfl
  cases o with
  | ok v =>
      exact hready
  | err f =>
      simp only [hand]
      split
      · exact quiet_finish id w _
      · exact hready
  | panic p =>
      simp only [hand]
      split
      · exact quiet_finish id w _
      · exact hready

theorem quiet_handAll
    (outcomes : List Outcome)
    (propagate : Bool) :
    Quiet id w (w.handAll id outcomes propagate) := by
  unfold handAll
  split
  · exact quiet_hand id w _ _
  · exact quiet_withStatus id w .ready rfl

theorem quiet_complain
    (batch : List Nat) :
    Quiet id w (w.complain batch) := by
  unfold complain
  induction batch generalizing w with
  | nil =>
      exact .refl
  | cons delivery rest ih =>
      rw [List.foldl_cons]
      refine .trans ?_ (ih _)
      split
      · exact quiet_say id w _ _ _ _
      · exact .refl

theorem quiet_drain
    (list : String)
    (batch : List Nat)
    (recorded : Bool) :
    Quiet id w (w.drain id list batch recorded) := by
  have hcomplain := quiet_complain id w (batch.filter w.isDelivered)
  simp only [drain]
  refine hcomplain.trans ?_
  split
  · refine Quiet.trans ?_ (quiet_withStatus id _ .ready rfl)
    split
    · exact quiet_record id _ _ _ _
    · exact .refl
  · exact quiet_withStatus id _ _ rfl

theorem quiet_addBranches
    (of : Strand)
    (inner : String)
    (number : Nat)
    (branches : List Script) :
    Quiet id w (w.addBranches of inner number branches).2 := by
  induction branches generalizing w number with
  | nil =>
      exact .refl
  | cons branch rest ih =>
      exact (quiet_addStrand id w _ rfl).trans (ih _ _)

/-- A step that neither makes a call nor begins to drain. -/
def IsPlain : Step → Prop
  | .instrument .. => False
  | .drain _ => False
  | _ => True

theorem quiet_perform
    (strand : Strand)
    (step : Step)
    (hplain : IsPlain step) :
    Quiet id w (w.perform id strand step) := by
  cases step with
  | act a =>
      exact quiet_act id w _ _ a
  | succeed value =>
      exact quiet_finish id w _
  | fail f =>
      exact quiet_finish id w _
  | panic p =>
      exact quiet_finish id w _
  | hang =>
      exact quiet_withStatus id w .stuck rfl
  | sleep duration =>
      exact (quiet_background id w _ _ _).trans (quiet_withStatus id _ (.sleeping ..) rfl)
  | giveWay =>
      exact quiet_withStatus id w .gaveWay rfl
  | drain recorded =>
      exact hplain.elim
  | settle posted =>
      simp only [perform]
      split
      · exact quiet_withStatus id w (.settling _) rfl
      · exact quiet_record id w _ _ _
  | instrument name subject build body propagate abandonAfter =>
      exact hplain.elim
  | passOn texts =>
      exact quiet_passOn id w texts
  | parallel name branches propagate =>
      exact (quiet_addBranches id w strand _ 0 branches).trans
        (quiet_withStatus id _ (.joining _ propagate) rfl)
  | spawn name body wait =>
      have hspawn := quiet_spawnTask id w (innerName strand.list strand.index name) body none
      simp only [perform]
      by_cases hruntime : w.hasRuntime = true
      · simp only [hruntime, if_true]
        split
        · exact hspawn.trans (quiet_withStatus id _ (.awaiting _) rfl)
        · exact hspawn
      · simp only [hruntime]
        exact quiet_finish id w _

theorem quiet_pass
    (rest : Script) :
    Quiet id w (w.pass id rest) :=
  quiet_withStrand id w _ fun _ _ h => h

end Steps

/-! ## The kinds of turns -/

/-- What becomes of a world in a turn of one of its strands. -/
inductive Turn (w : World) (id : Nat) : World → Prop where
  | quiet
      {after : World}
      (h : Quiet id w after)
      (hheld : ∀ strand, w.strands[id]? = some strand → strand.status.isHeld = true → after = w) :
      Turn w id after
  | opens
      {strand : Strand}
      {name : Option String}
      {subject : Subject}
      {steps : List BuildStep}
      {body rest : Script}
      {propagate : Bool}
      {abandonAfter : Option Nat}
      (hstrand : w.strands[id]? = some strand)
      (hready : strand.status = .ready)
      (hrest : strand.rest =
        .instrument name subject steps body propagate abandonAfter :: rest) :
      Turn w id
        ((w.pass id rest).instrument id strand.list (innerName strand.list strand.index name)
          subject steps body propagate abandonAfter)
  | drains
      {strand : Strand}
      {recorded : Bool}
      {rest : Script}
      (hstrand : w.strands[id]? = some strand)
      (hready : strand.status = .ready)
      (hrest : strand.rest = .drain recorded :: rest) :
      Turn w id ((w.pass id rest).startDrain id recorded)
  | drainsOn
      {strand : Strand}
      {batch : List Nat}
      {recorded : Bool}
      (hstrand : w.strands[id]? = some strand)
      (hdraining : strand.status = .draining batch recorded) :
      Turn w id (w.drain id strand.list batch recorded)
  | concludes
      {strand : Strand}
      {number : Nat}
      {call : Call}
      {s : Settlement}
      (hstrand : w.strands[id]? = some strand)
      (hracing : strand.status = .racing number)
      (hcall : w.calls[number]? = some call)
      (hsettled : w.settlement? call = some s) :
      Turn w id (w.conclude id strand.list number call s)
  | abandons
      {strand : Strand}
      {number : Nat}
      {call : Call}
      (hstrand : w.strands[id]? = some strand)
      (hracing : strand.status = .racing number)
      (hcall : w.calls[number]? = some call)
      (hundecided : w.settlement? call = none)
      (hoverdue : w.isOverdue call = true) :
      Turn w id (w.abandon id strand.list number)

section Turns

variable (w : World) (id : Nat)

/-- The turn of a strand that is not held may be any quiet one. -/
theorem turn_of_quiet
    {strand : Strand}
    {after : World}
    (hstrand : w.strands[id]? = some strand)
    (hcalm : strand.status.isHeld = false)
    (h : Quiet id w after) :
    Turn w id after := by
  refine .quiet h ?_
  intro other hother hheld
  rw [hstrand] at hother
  cases hother
  simp [hcalm] at hheld

/-- A strand may always stay where it is. -/
theorem turn_refl :
    Turn w id w :=
  .quiet .refl fun _ _ _ => rfl

theorem turn_stepForward
    {strand : Strand}
    (hstrand : w.strands[id]? = some strand)
    (hready : strand.status = .ready) :
    Turn w id (w.stepForward id strand) := by
  have hcalm : strand.status.isHeld = false := by
    rw [hready]
    rfl
  unfold stepForward
  cases hrest : strand.rest with
  | nil =>
      exact w.turn_of_quiet id hstrand hcalm (quiet_finish id w _)
  | cons step rest =>
      cases step with
      | instrument name subject build body propagate abandonAfter =>
          exact .opens hstrand hready hrest
      | drain recorded =>
          exact .drains hstrand hready hrest
      | _ =>
          exact w.turn_of_quiet id hstrand hcalm
            ((quiet_pass id w rest).trans (quiet_perform id _ strand _ trivial))

theorem turn_decide
    {strand : Strand}
    {number : Nat}
    (hstrand : w.strands[id]? = some strand)
    (hracing : strand.status = .racing number) :
    Turn w id (w.decide id strand.list number) := by
  unfold decide
  cases hcall : w.calls[number]? with
  | none =>
      exact w.turn_refl id
  | some call =>
      simp only
      cases hsettled : w.settlement? call with
      | some s =>
          exact .concludes hstrand hracing hcall hsettled
      | none =>
          by_cases hoverdue : w.isOverdue call = true
          · simp only [hoverdue, if_true]
            exact .abandons hstrand hracing hcall hsettled hoverdue
          · simp only [hoverdue]
            exact w.turn_refl id

/-- Whatever a strand does in its turn is one of six things. -/
theorem turn_advance :
    Turn w id (w.advance id) := by
  unfold advance
  cases hstrand : w.strands[id]? with
  | none =>
      exact w.turn_refl id
  | some strand =>
      have hquiet : strand.status.isHeld = false → ∀ after, Quiet id w after → Turn w id after :=
        fun hcalm _ h => w.turn_of_quiet id hstrand hcalm h
      simp only
      split
      · cases hstatus : strand.status with
        | ready =>
            exact w.turn_stepForward id hstrand hstatus
        | racing call =>
            exact w.turn_decide id hstrand hstatus
        | sleeping deadline ticket =>
            exact hquiet (by rw [hstatus]; rfl) _ (quiet_withStatus id w .ready rfl)
        | gaveWay =>
            exact hquiet (by rw [hstatus]; rfl) _ (quiet_withStatus id w .ready rfl)
        | joining branches propagate =>
            simp only
            cases w.outcomes? branches with
            | none =>
                exact w.turn_refl id
            | some outcomes =>
                refine hquiet (by rw [hstatus]; rfl) _ ?_
                exact (quiet_record id w _ _ _).trans (quiet_handAll id _ outcomes propagate)
        | awaiting task =>
            have hrecorded (finding : Finding) :
                Turn w id ((w.record strand.list .spawn finding).withStatus id .ready) :=
              hquiet (by rw [hstatus]; rfl) _
                ((quiet_record id w _ _ _).trans (quiet_withStatus id _ .ready rfl))
            simp only
            cases w.outcome? task with
            | none =>
                exact hrecorded .abandoned
            | some o =>
                exact hrecorded (.outcome o)
        | draining batch recorded =>
            exact .drainsOn hstrand hstatus
        | settling delivery =>
            refine hquiet (by rw [hstatus]; rfl) _ ?_
            have hrecord := quiet_record id (w.complain [delivery]) strand.list .settle .done
            exact (quiet_complain id w [delivery]).trans
              (hrecord.trans (quiet_withStatus id _ .ready rfl))
        | stuck =>
            exact w.turn_refl id
        | finished o =>
            exact w.turn_refl id
        | aborted =>
            exact w.turn_refl id
      · exact w.turn_refl id

/-- A strand that is ready carries out its next step. -/
theorem advance_of_ready
    {strand : Strand}
    (hstrand : w.strands[id]? = some strand)
    (hready : strand.status = .ready) :
    w.advance id = w.stepForward id strand := by
  simp [advance, canAdvance, hstrand, hready]

/-- A strand that is about to make a call makes it. -/
theorem advance_of_opening
    {strand : Strand}
    {name : Option String}
    {subject : Subject}
    {steps : List BuildStep}
    {body rest : Script}
    {propagate : Bool}
    {abandonAfter : Option Nat}
    (hstrand : w.strands[id]? = some strand)
    (hready : strand.status = .ready)
    (hrest : strand.rest =
      .instrument name subject steps body propagate abandonAfter :: rest) :
    w.advance id =
      (w.pass id rest).instrument id strand.list (innerName strand.list strand.index name)
        subject steps body propagate abandonAfter := by
  rw [w.advance_of_ready id hstrand hready, stepForward, hrest]
  rfl

/-- A strand that is about to drain takes what waits to be drained. -/
theorem advance_of_draining
    {strand : Strand}
    {recorded : Bool}
    {rest : Script}
    (hstrand : w.strands[id]? = some strand)
    (hready : strand.status = .ready)
    (hrest : strand.rest = .drain recorded :: rest) :
    w.advance id = (w.pass id rest).startDrain id recorded := by
  rw [w.advance_of_ready id hstrand hready, stepForward, hrest]
  rfl

/-- A strand whose race has been decided ends the call. -/
theorem advance_of_decided
    {strand : Strand}
    {number : Nat}
    {call : Call}
    {s : Settlement}
    (hstrand : w.strands[id]? = some strand)
    (hracing : strand.status = .racing number)
    (hcall : w.calls[number]? = some call)
    (hsettled : w.settlement? call = some s) :
    w.advance id = w.conclude id strand.list number call s := by
  simp [advance, canAdvance, decide, hstrand, hracing, hcall, hsettled]

end Turns

/-- Only a call that is being raced can be decided. -/
theorem racing_of_settlement?
    {w : World}
    {call : Call}
    {s : Settlement}
    (h : w.settlement? call = some s) :
    ∃ body, call.phase = .racing body := by
  unfold settlement? at h
  cases hphase : call.phase with
  | racing body =>
      exact ⟨body, rfl⟩
  | _ =>
      simp [hphase] at h

end World
end LifecycleTelemetry
