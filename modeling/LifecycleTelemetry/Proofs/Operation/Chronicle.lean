import LifecycleTelemetry.Proofs.Operation.Evolution

/-!
# Chronicles

What comes about on the way of a world, put down move by move. What is put down in a move is up to the
reader: it may be the signals that are raised, or the deliveries that are made and taken. Only moves are
worth telling; the beginning of a script and the order of turns are not.
-/

namespace LifecycleTelemetry
namespace World

variable {α : Type}

/-- `first` may become `w`, and on the way there is that much to tell, the first thing first. -/
inductive Chronicle (worth : World → Move → List α) (first : World) : World → List α → Prop where
  | refl : Chronicle worth first first []
  | move
      {v : World}
      {told : List α}
      (m : Move)
      (h : Chronicle worth first v told) :
      Chronicle worth first (v.move m) (told ++ worth v m)
  | script
      {v : World}
      {told : List α}
      (s : Script)
      (h : Chronicle worth first v told)
      (hover : (v.outcome? 0).isSome) :
      Chronicle worth first (v.beginScript s) told
  | rouse
      {v : World}
      {told : List α}
      (woken : List TaskId)
      (h : Chronicle worth first v told) :
      Chronicle worth first { v with woken } told
  | mark
      {v : World}
      {told : List α}
      (pending listeners : Nat)
      (h : Chronicle worth first v told) :
      Chronicle worth first (v.note (.scriptEnded pending listeners)) told

variable {worth : World → Move → List α} {first w : World} {told : List α}

theorem Chronicle.evolves
    (h : Chronicle worth first w told) :
    Evolves first w := by
  induction h with
  | refl =>
      exact .refl
  | move m _ ih =>
      exact .move m ih
  | script s _ hover ih =>
      exact .script s ih hover
  | rouse woken _ ih =>
      exact .rouse woken ih
  | mark pending listeners _ ih =>
      exact .mark pending listeners ih

/-- There is something to tell of every way, be it nothing at all. -/
theorem Evolves.chronicle
    (h : Evolves first w)
    (worth : World → Move → List α) :
    ∃ told, Chronicle worth first w told := by
  induction h with
  | refl =>
      exact ⟨_, .refl⟩
  | move m _ ih =>
      obtain ⟨told, htold⟩ := ih
      exact ⟨_, .move m htold⟩
  | script s _ hover ih =>
      obtain ⟨told, htold⟩ := ih
      exact ⟨told, .script s htold hover⟩
  | rouse woken _ ih =>
      obtain ⟨told, htold⟩ := ih
      exact ⟨told, .rouse woken htold⟩
  | mark pending listeners _ ih =>
      obtain ⟨told, htold⟩ := ih
      exact ⟨told, .mark pending listeners htold⟩

/-- What is told of the moves of a list made one after the other. -/
def toldOf (worth : World → Move → List α) (w : World) : List Move → List α
  | [] => []
  | m :: rest => worth w m ++ toldOf worth (w.move m) rest

theorem Chronicle.moves
    (h : Chronicle worth first w told)
    (ms : List Move) :
    Chronicle worth first (w.moves ms) (told ++ toldOf worth w ms) := by
  induction ms generalizing w told with
  | nil =>
      rw [toldOf, List.append_nil]
      exact h
  | cons m rest ih =>
      have hrest := ih (h.move m)
      rw [List.append_assoc] at hrest
      exact hrest

end World
end LifecycleTelemetry
