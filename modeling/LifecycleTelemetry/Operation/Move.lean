import LifecycleTelemetry.Operation.Advance

/-!
# Moves

Everything that can happen to a world from outside of its code: one of its strands or deliveries is
given a turn, time passes, a signal comes, or a task is aborted. A world and a list of moves determine
what becomes of it, so that a statement about all lists of moves is one about every order in which the
parts of a program can take their turns.
-/

namespace LifecycleTelemetry

/-- Something that happens to a world. -/
inductive Move where
  | advance (strand : Nat)
  | deliver (delivery : Nat)
  | pass (time : Nat)
  | signal (s : Signal)
  | abort (task : Nat)
deriving DecidableEq

namespace World

/-- The world after a move. -/
def move (w : World) : Move → World
  | .advance strand => w.advance strand
  | .deliver delivery => w.deliver delivery
  | .pass time => w.moveClock time
  | .signal s => (w.trigger s).2
  | .abort task => w.abort task

/-- The world after moves, the first of the list first. -/
def moves (w : World) (ms : List Move) : World :=
  ms.foldl move w

/-- Moves can be made in two parts. -/
theorem moves_append
    (w : World)
    (before after : List Move) :
    w.moves (before ++ after) = (w.moves before).moves after := by
  simp [moves]

/-- Time does not go back. -/
theorem clock_le_moveClock
    (w : World)
    (time : Nat) :
    w.clock ≤ (w.moveClock time).clock :=
  Nat.le_max_left w.clock time

end World
end LifecycleTelemetry
