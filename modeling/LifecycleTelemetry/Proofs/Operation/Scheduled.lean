import LifecycleTelemetry.Operation.Rehearsal
import LifecycleTelemetry.Proofs.Operation.Evolution

/-!
# Schedules and rehearsals are evolutions

A schedule decides who has the next turn and when the clock moves. It does nothing else:
whatever it makes of a world, the world may become, and without a further script. What holds of
everything that a world may become therefore holds of every rehearsal, as long as no script is
begun before the one before it has ended.
-/

namespace LifecycleTelemetry
namespace Schedule

/-! ## Turns -/

section Turns

variable (w : World)

theorem proceeds_welcome
    (id : Nat) :
    w.Proceeds (welcome w id) := by
  unfold welcome
  split
  · exact .move (.advance id) .refl
  · exact .refl

/-- A turn is a number of steps of the strand and of those it waits for. -/
theorem proceeds_turn
    (fuel id : Nat) :
    w.Proceeds (turn fuel id w) := by
  induction fuel generalizing id w with
  | zero =>
      exact .refl
  | succ fuel ih =>
      have hbranches : ∀ (branches : List Nat) (v : World), v.Proceeds
          (branches.foldl (fun v branch => turn fuel branch (welcome v branch)) v) := by
        intro branches
        induction branches with
        | nil =>
            exact fun _ => .refl
        | cons branch rest ihrest =>
            intro v
            rw [List.foldl_cons]
            exact (proceeds_welcome v branch).trans
              ((ih (welcome v branch) branch).trans (ihrest _))
      simp only [turn]
      split
      · exact (hbranches (branchesOf w id) w).trans
          ((World.Proceeds.move (.advance id) .refl).trans (ih _ id))
      · exact hbranches (branchesOf w id) w

theorem proceeds_moveTo
    (time : Nat) :
    w.Proceeds (moveTo w time) :=
  .rouse _ (.move (.pass time) .refl)

end Turns

/-! ## Queues -/

section Queues

variable (s : Schedule)

theorem world_enqueue
    (t : TaskId) :
    (s.enqueue t).world = s.world := by
  unfold enqueue
  split
  · rfl
  · split
    · rfl
    · rfl

theorem world_foldl_enqueue
    (ts : List TaskId) :
    (ts.foldl enqueue s).world = s.world := by
  induction ts generalizing s with
  | nil =>
      rfl
  | cons t rest ih =>
      rw [List.foldl_cons, ih, world_enqueue]

theorem proceeds_gather :
    s.world.Proceeds s.gather.world := by
  rw [gather, world_foldl_enqueue]
  exact .rouse [] .refl

theorem proceeds_gatherAfter
    (current : TaskId) :
    s.world.Proceeds (s.gatherAfter current).world := by
  rw [gatherAfter, world_foldl_enqueue]
  exact .rouse [] .refl

theorem world_setAside
    (current : TaskId) :
    (s.setAside current).world = s.world := by
  unfold setAside
  cases current with
  | strand task =>
      simp only
      split
      · rfl
      · rfl
  | delivery id =>
      rfl

theorem proceeds_poll
    (fuel : Nat)
    (t : TaskId) :
    s.world.Proceeds (poll fuel s t).world := by
  have hafter := fun s' : Schedule => proceeds_gatherAfter (s'.setAside t) t
  simp only [world_setAside] at hafter
  cases t with
  | strand task =>
      have hturn := (proceeds_welcome s.world task).trans
        (proceeds_turn (welcome s.world task) fuel task)
      exact hturn.trans (hafter { s with world := turn fuel task (welcome s.world task) })
  | delivery id =>
      have hturn : s.world.Proceeds (s.world.deliver id) := .move (.deliver id) .refl
      exact hturn.trans (hafter { s with world := s.world.deliver id })

end Queues

/-! ## Runs -/

section Runs

variable {fuel : Nat} {limit : Option Nat}

theorem proceeds_step?
    {s after : Schedule}
    (h : step? fuel limit s = some after) :
    s.world.Proceeds after.world := by
  unfold step? at h
  split at h
  · cases h
  · split at h
    · cases h
      exact proceeds_poll { s with mainWoken := false, mainNext := false } fuel .main
    · split at h
      · next t queue _ =>
          cases h
          exact proceeds_poll { s with queue, mainNext := false } fuel t
      · split at h
        · cases h
          exact .refl
        · split at h
          · split at h
            · next time _ =>
                split at h
                · cases h
                · cases h
                  have hmoved := proceeds_moveTo s.world time
                  exact hmoved.trans (proceeds_gather { s with world := moveTo s.world time })
            · cases h
          · cases h
            rw [world_foldl_enqueue]
            exact .refl

/-- Whatever a schedule makes of a world, the world may become. -/
theorem proceeds_run
    (limit : Option Nat)
    (fuel : Nat)
    (s : Schedule) :
    s.world.Proceeds (run limit fuel s).world := by
  induction fuel generalizing s with
  | zero =>
      exact .refl
  | succ fuel ih =>
      rw [run]
      cases hstep : step? fuel limit s with
      | none =>
          exact .refl
      | some after =>
          exact (proceeds_step? hstep).trans (ih after)

/-- It carries out a script of the main task in this way. -/
theorem proceeds_runMain
    (s : Schedule)
    (limit : Option Nat)
    (script : Script) :
    (s.world.beginScript script).Proceeds (s.runMain limit script).world :=
  proceeds_run limit (enough s.world script)
    { s with world := s.world.beginScript script, mainWoken := true, mainNext := true }

/-- The script may be the next one after one that has ended. -/
theorem evolves_runMain
    (s : Schedule)
    (limit : Option Nat)
    (script : Script)
    (hover : s.isOver = true) :
    s.world.Evolves (s.runMain limit script).world :=
  (World.Evolves.script script .refl hover).trans (proceeds_runMain s limit script).evolves

theorem evolves_resume
    (s : Schedule) :
    s.world.Evolves s.resume.world :=
  ((proceeds_gather s).trans (proceeds_run none _ _)).evolves

end Runs
end Schedule

namespace Rehearsal

open Schedule

/-- What a script has left behind goes on as the world may. -/
theorem evolves_settleDown
    (s : Schedule)
    (drain : Bool)
    (hover : s.isOver = true) :
    s.world.Evolves (settleDown s drain).world := by
  let marked := s.world.note (.scriptEnded s.world.pending.length s.world.channel.active)
  have hmarked : s.world.Evolves marked := .mark _ _ .refl
  exact hmarked.trans (evolves_runMain { s with world := marked } none _ hover)

/-- A rehearsal whose script has ended is something that the world may become. -/
theorem evolves_ofScript
    (w : World)
    (drain : Bool)
    (script : Script)
    (hover : (w.outcome? 0).isSome)
    (hended : (ofScript w drain script).outcome.isSome) :
    w.Evolves (ofScript w drain script).world := by
  have hscript := evolves_runMain (Schedule.start w) none script hover
  simp only [ofScript]
  split
  · exact hscript.trans (evolves_settleDown _ drain hended)
  · exact hscript

theorem evolves_abortAll
    (w : World) :
    w.Evolves (abortAll w) := by
  have hfold : ∀ (tasks : List Nat) (v : World), v.Evolves (tasks.foldl World.abort v) := by
    intro tasks
    induction tasks with
    | nil =>
        exact fun _ => .refl
    | cons task rest ih =>
        intro v
        exact (World.Evolves.move (.abort task) .refl).trans (ih (v.abort task))
  exact hfold _ w

/-- So is any aborted rehearsal. -/
theorem evolves_aborted
    (w : World)
    (script : Script)
    (hover : (w.outcome? 0).isSome) :
    w.Evolves (aborted w script).world := by
  let s := (Schedule.start w).runMain (some patience) script
  have hscript : w.Evolves s.world := evolves_runMain (Schedule.start w) _ script hover
  have hresume := evolves_resume { s with world := abortAll s.world }
  exact hscript.trans ((evolves_abortAll s.world).trans hresume)

end Rehearsal
end LifecycleTelemetry
