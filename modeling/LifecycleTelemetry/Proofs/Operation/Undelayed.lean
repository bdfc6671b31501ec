import LifecycleTelemetry.Proofs.Operation.Timed
import LifecycleTelemetry.Proofs.Operation.Unobserved

/-!
# What is read off the clock does not depend on deliveries

The turn in which a call is made waits for no delivery, and neither does the one in which it is decided. What
is read off the clock in such a turn is the same whatever has become of the deliveries by then: that is
`moveReadings_bare`, and it holds of any program.

A program that waits for deliveries gets its turns at other times when they end at other times. One whose turns
are tactful does not, be it that it waits for deliveries later on. `readings_withoutDeliveries` lets it run under
any clock, twice, with deliveries that take their turns in any two ways, and finds the same readings.
-/

namespace LifecycleTelemetry

/-- Whether a move is the turn of a delivery. -/
def TimedMove.isDelivery : TimedMove → Bool
  | .deliver _ => true
  | _ => false

/-- Timed moves in which no delivery gets a turn, in the order of the others. -/
def withoutTimedDeliveries (ms : List TimedMove) : List TimedMove :=
  ms.filter fun m => !m.isDelivery

namespace World

/-- What a strand is about to do, without the tickets. -/
def Errand.bare : Errand → Errand
  | .opens strand name subject steps body propagate abandonAfter rest =>
      .opens strand.bare name subject steps body propagate abandonAfter rest
  | .decides strand number call s => .decides strand.bare number call.bare s
  | .other => .other

section Errands

variable (w : World) (id : Nat)

theorem errand_bare :
    w.bare.errand id = (w.errand id).bare := by
  unfold errand
  rw [bare_strands]
  cases w.strands[id]? with
  | none =>
      rfl
  | some strand =>
      obtain ⟨task, list, index, rest, scope, status⟩ := strand
      cases status with
      | ready =>
          cases rest with
          | nil =>
              rfl
          | cons step rest =>
              cases step <;> rfl
      | racing number =>
          simp only [Option.map_some, Strand.bare, StrandStatus.bare, bare_calls]
          cases w.calls[number]? with
          | none =>
              rfl
          | some call =>
              simp only [Option.map_some, settlement?_bare]
              cases w.settlement? call with
              | none =>
                  rfl
              | some s =>
                  rfl
      | _ =>
          rfl

/-- The clock shows the same after parts that do not touch it, wherever they are carried out. -/
theorem clock_through
    {parts : List (World → World)}
    (hparts : Timeless parts)
    (times : List Nat)
    {w v : World}
    (h : w.clock = v.clock) :
    (through parts times w).clock = (through parts times v).clock := by
  induction parts generalizing times w v with
  | nil =>
      exact h
  | cons part rest ih =>
      obtain ⟨hpart, hrest⟩ := List.forall_mem_cons.mp hparts
      cases times with
      | nil =>
          exact ih hrest [] ((hpart w).trans (h.trans (hpart v).symm))
      | cons time times =>
          exact ih hrest times rfl

/-- What is read in a move can be told from what a program can notice. -/
theorem moveReadings_bare
    (m : TimedMove) :
    w.bare.moveReadings m = w.moveReadings m := by
  cases m with
  | turn id times =>
      simp only [moveReadings, turnReadings, errand_bare]
      cases w.errand id with
      | opens strand name subject steps body propagate abandonAfter rest =>
          simp only [Errand.bare, bare_calls_length]
          rfl
      | decides strand number call s =>
          have hclock := clock_through (timeless_leavingParts number s) times (alike_bare w).clock
          simp only [Errand.bare, hclock]
      | other =>
          rfl
  | _ =>
      rfl

end Errands

/-- So worlds that are alike to their programs have the same readings. -/
theorem Alike.moveReadings
    {w v : World}
    (h : Alike w v)
    (m : TimedMove) :
    w.moveReadings m = v.moveReadings m := by
  rw [← moveReadings_bare w, h.bare, moveReadings_bare v]

/-! ## Discreet programs under a clock -/

section Blind

variable {p : Prop}

theorem blind_showing
    (time : Nat) :
    Blind p fun w => w.showing time :=
  ⟨fun w => { alike_bare w with clock := rfl }, fun _ _ hw => hw⟩

theorem blind_through
    {parts : List (World → World)}
    (hparts : ∀ part ∈ parts, Blind p part)
    (times : List Nat) :
    Blind p fun w => through parts times w := by
  induction parts generalizing times with
  | nil =>
      exact blind_of_hidden fun _ => .refl
  | cons part rest ih =>
      obtain ⟨hpart, hrest⟩ := List.forall_mem_cons.mp hparts
      cases times with
      | nil =>
          exact hpart.comp (ih hrest [])
      | cons time times =>
          exact (hpart.comp (blind_showing time)).comp (ih hrest times)

theorem blind_buildParts
    (inner : String)
    (call : Nat)
    {steps : List BuildStep}
    (hsteps : steps.all BuildStep.isDiscreet = true) :
    ∀ part ∈ buildParts inner call steps, Blind p part := by
  induction steps with
  | nil =>
      exact nofun
  | cons step rest ih =>
      simp only [List.all_cons, Bool.and_eq_true] at hsteps
      cases step with
      | panic p =>
          exact nofun
      | act a =>
          exact List.forall_mem_cons.mpr
            ⟨blind_act inner (some call) hsteps.1, ih hsteps.2⟩

theorem blind_openingParts
    (id : Nat)
    (list inner : String)
    (call : Nat)
    (subject : Subject)
    {steps : List BuildStep}
    (hsteps : steps.all BuildStep.isDiscreet = true)
    {body : Script}
    (hbody : p → areDiscreet body = true)
    (propagate : Bool)
    (abandonAfter : Option Nat) :
    ∀ part ∈ openingParts id list inner call subject steps body propagate abandonAfter,
      Blind p part := by
  have hlast := blind_afterBuild id list inner call hbody propagate (BuildStep.panic? steps)
  refine List.forall_mem_append.mpr ⟨List.forall_mem_append.mpr ⟨?_,
    blind_buildParts inner call hsteps⟩, List.forall_mem_singleton.mpr hlast⟩
  refine List.forall_mem_cons.mpr ⟨blind_addCall id subject propagate abandonAfter,
    List.forall_mem_cons.mpr ⟨?_, List.forall_mem_singleton.mpr (blind_listenFor call)⟩⟩
  exact blind_of_hidden fun w => w.alike_report call ⟨subject, .started⟩

theorem blind_leavingParts
    (number : Nat)
    (s : Settlement) :
    ∀ part ∈ leavingParts number s, Blind p part :=
  List.forall_mem_cons.mpr ⟨blind_of_hidden fun w => w.alike_announce s,
    List.forall_mem_singleton.mpr (blind_release number)⟩

theorem blind_closingParts
    (id : Nat)
    (list : String)
    (number : Nat)
    (call : Call)
    (s : Settlement)
    (reading : Nat) :
    ∀ part ∈ closingParts id list number call s reading, Blind p part :=
  List.forall_mem_cons.mpr ⟨blind_withCall number _ fun _ => rfl, List.forall_mem_cons.mpr
    ⟨blind_of_hidden fun w => w.alike_report number (endingOf call s reading),
      List.forall_mem_cons.mpr ⟨blind_record list .instrument (.outcome s.outcome),
        List.forall_mem_singleton.mpr (blind_hand id s.outcome call.propagate)⟩⟩⟩

/-- The parts that build an operation ask nothing about the reporter when its steps do not. -/
theorem all_isDiscreet_readied
    (w : World)
    {steps : List BuildStep}
    (hsteps : steps.all BuildStep.isDiscreet = true) :
    (w.readied steps).all BuildStep.isDiscreet = true := by
  unfold readied
  split
  · exact hsteps
  · simp only [List.all_append, hsteps]
    rfl

/-- A tactful turn under a clock is blind. -/
theorem blindAt_timedTurn
    {w : World}
    {id : Nat}
    (htactful : w.isTactful id = true)
    (hw : p → IsDiscreet w)
    (times : List Nat) :
    BlindAt p w fun w => w.timedTurn id times := by
  have hminds := w.minds_errand id
  constructor
  unfold timedTurn
  rw [errand_bare]
  generalize w.errand id = errand at hminds
  cases hminds with
  | @opens strand name subject steps body rest propagate abandonAfter hstrand hready hrest =>
      have hsteps : steps.all BuildStep.isDiscreet = true := by
        simpa [isTactful, hstrand, Strand.isTactful, Strand.next?, hready, hrest,
          StrandStatus.isDiscreet, Step.isTactful] using htactful
      have hlater : p → areDiscreet body = true ∧ areDiscreet rest = true := by
        intro hp
        have hdiscreet := hw hp strand (List.mem_of_getElem? hstrand)
        simp only [Strand.isDiscreet, hrest, areDiscreet, Step.isDiscreet, Bool.and_eq_true] at hdiscreet
        exact ⟨hdiscreet.1.1.2, hdiscreet.1.2⟩
      refine ⟨_, (blind_pass id fun hp => (hlater hp).2).comp (blind_through
        (blind_openingParts id strand.list (innerName strand.list strand.index name) w.calls.length
          subject (w.all_isDiscreet_readied hsteps) (fun hp => (hlater hp).1) propagate abandonAfter)
        times), .refl, ?_⟩
      simp only [Errand.bare, bare_calls_length]
      exact .refl
  | @decides strand number call s hstrand hracing hcall hsettled =>
      have hclock := clock_through (timeless_leavingParts number s) times (alike_bare w).clock
      refine ⟨_, (blind_through (blind_leavingParts number s) times).comp
        (blind_through (blind_closingParts id strand.list number call s
          (through (leavingParts number s) times w).clock)
          (times.drop (leavingParts number s).length)), .refl, ?_⟩
      simp only [Errand.bare, ← hclock]
      exact .refl
  | other hopens hdecides =>
      exact (blindAt_advance htactful hw).same

end Blind

/-! ## Tactful runs -/

/-- Whether a move is tactful, that is, asks nothing about the reporter and waits for no delivery. Only turns of
strands may be otherwise. -/
def isTactfulMove (w : World) : TimedMove → Bool
  | .turn id _ => w.isTactful id
  | _ => true

/-- Whether all of some moves are tactful, the first of the list first. -/
def areTactful (w : World) : List TimedMove → Bool
  | [] => true
  | m :: rest => w.isTactfulMove m && (w.timedMove m).areTactful rest

section Tactful

variable {p : Prop} {w v : World}

theorem Alike.isTactfulMove
    (h : Alike w v)
    (m : TimedMove) :
    w.isTactfulMove m = v.isTactfulMove m := by
  cases m with
  | turn id times =>
      exact (w.isTactful_bare id).symm.trans (h.bare ▸ v.isTactful_bare id)
  | _ =>
      rfl

theorem blindAt_timedMove
    {m : TimedMove}
    (htactful : w.isTactfulMove m = true)
    (hw : p → IsDiscreet w) :
    BlindAt p w fun w => w.timedMove m := by
  cases m with
  | turn id times =>
      exact blindAt_timedTurn htactful hw times
  | deliver delivery =>
      exact (blind_of_hidden fun w => w.alike_deliver delivery).blindAt w
  | set time =>
      exact (blind_showing time).blindAt w
  | signal s =>
      exact (blind_trigger s).blindAt w
  | abort task =>
      exact (blind_abort task).blindAt w

/-- Worlds that are alike stay so in a tactful move. -/
theorem Alike.timedMove
    (h : Alike w v)
    {m : TimedMove}
    (htactful : w.isTactfulMove m = true) :
    Alike (w.timedMove m) (v.timedMove m) :=
  (blindAt_timedMove (p := False) htactful nofun).congr
    (blindAt_timedMove (p := False) (h.isTactfulMove m ▸ htactful) nofun) h

theorem IsDiscreet.timedMove
    (hw : IsDiscreet w)
    (m : TimedMove) :
    IsDiscreet (w.timedMove m) := by
  have htactful : w.isTactfulMove m = true := by
    cases m with
    | turn id times =>
        exact hw.isTactful id
    | _ =>
        rfl
  exact (blindAt_timedMove (p := True) htactful fun _ => hw).discreet trivial hw

/-- Every run of a discreet program is tactful. -/
theorem IsDiscreet.areTactful
    (hw : IsDiscreet w)
    (ms : List TimedMove) :
    w.areTactful ms = true := by
  induction ms generalizing w with
  | nil =>
      rfl
  | cons m rest ih =>
      rw [World.areTactful, ih (hw.timedMove m), Bool.and_true]
      cases m with
      | turn id times =>
          exact hw.isTactful id
      | _ =>
          rfl

/-! ## Two runs -/

/-- In worlds that are alike the same tactful moves are read alike, and are tactful in both. -/
theorem Alike.readings
    (h : Alike w v)
    {ms : List TimedMove}
    (htactful : w.areTactful ms = true) :
    w.readings ms = v.readings ms ∧ v.areTactful ms = true := by
  induction ms generalizing w v with
  | nil =>
      exact ⟨rfl, rfl⟩
  | cons m rest ih =>
      rw [World.areTactful, Bool.and_eq_true] at htactful
      obtain ⟨hreadings, hother⟩ := ih (h.timedMove htactful.1) htactful.2
      simp only [World.readings, World.areTactful, Bool.and_eq_true]
      rw [h.moveReadings m, hreadings]
      exact ⟨rfl, h.isTactfulMove m ▸ htactful.1, hother⟩

theorem Alike.areTactful
    (h : Alike w v)
    (ms : List TimedMove) :
    w.areTactful ms = v.areTactful ms :=
  Bool.eq_iff_iff.mpr ⟨fun hms => (h.readings hms).2, fun hms => (h.symm.readings hms).2⟩

/-- Whether deliveries get turns makes no difference to whether a run is tactful, -/
theorem areTactful_withoutDeliveries
    (w : World)
    (ms : List TimedMove) :
    w.areTactful (withoutTimedDeliveries ms) = w.areTactful ms := by
  induction ms generalizing w with
  | nil =>
      rfl
  | cons m rest ih =>
      cases m with
      | deliver delivery =>
          exact ((w.alike_deliver delivery).areTactful _).trans (ih (w.deliver delivery))
      | turn id times =>
          exact congrArg (w.isTactful id && ·) (ih (w.timedTurn id times))
      | _ =>
          exact congrArg (true && ·) (ih (w.timedMove _))

/-- and none to what is read off the clock in one that is. -/
theorem readings_withoutDeliveries
    {ms : List TimedMove}
    (htactful : w.areTactful ms = true) :
    w.readings ms = w.readings (withoutTimedDeliveries ms) := by
  induction ms generalizing w with
  | nil =>
      rfl
  | cons m rest ih =>
      rw [World.areTactful, Bool.and_eq_true] at htactful
      have hrest := ih htactful.2
      cases m with
      | deliver delivery =>
          -- The rest is read in the world after the delivery's turn, and alike in the one before it.
          have hlater := (areTactful_withoutDeliveries (w.deliver delivery) rest).trans htactful.2
          exact hrest.trans ((w.alike_deliver delivery).symm.readings hlater).1
      | turn id times =>
          exact congrArg (w.turnReadings id times ++ ·) hrest
      | _ =>
          exact hrest

/-- Two runs from worlds that are alike have the same readings, if one of them is tactful and they differ only
in the turns that deliveries get. -/
theorem readings_of_alike
    (h : Alike w v)
    {ms others : List TimedMove}
    (htactful : w.areTactful ms = true)
    (hsame : withoutTimedDeliveries ms = withoutTimedDeliveries others) :
    w.readings ms = v.readings others := by
  have hown : w.areTactful (withoutTimedDeliveries others) = true :=
    hsame ▸ (areTactful_withoutDeliveries w ms).trans htactful
  obtain ⟨hreadings, hother⟩ := h.readings hown
  rw [readings_withoutDeliveries htactful, hsame, hreadings]
  exact (readings_withoutDeliveries ((areTactful_withoutDeliveries v others).symm.trans hother)).symm

end Tactful
end World
end LifecycleTelemetry
