import LifecycleTelemetry.Interrupt.Channel
import Mathlib.Data.List.Basic

/-!
# What waits at one place of a channel

The listeners of a channel do not get in each other's way. What waits for one of them changes when a
signal is raised, in the same manner for all, and is gone when that listener is removed. So after any
number of signals the last eight of them wait for it, the oldest first, and the signal that it would get
is the oldest of these.
-/

namespace LifecycleTelemetry
namespace Channel

/-- Of signals that are raised one after the other without being noticed, the one that is noticed first:
the oldest of those that are kept. -/
def oldestKept (signals : List Signal) : Option Signal :=
  signals[signals.length - capacity]?

/-- What waits for a listener, if it is on the channel. -/
def waiting? (c : Channel) (id : Nat) : Option (List Signal) :=
  (c.receivers.find? fun r => r.id == id).map Receiver.unread

/-! ## Keeping the last signals -/

theorem head?_keepLast
    (signals : List Signal) :
    (keepLast signals).head? = oldestKept signals :=
  List.head?_drop

theorem oldestKept_eq_none_iff
    (signals : List Signal) :
    oldestKept signals = none ↔ signals = [] := by
  rw [oldestKept, List.getElem?_eq_none_iff]
  constructor
  · intro h
    refine List.eq_nil_of_length_eq_zero ?_
    simp only [capacity] at h
    omega
  · rintro rfl
    exact Nat.zero_le _

/-- As long as all signals are kept, the oldest of them is the first one. -/
theorem oldestKept_of_length_le
    {signals : List Signal}
    (h : signals.length ≤ capacity) :
    oldestKept signals = signals.head? := by
  rw [oldestKept, Nat.sub_eq_zero_of_le h, List.head?_eq_getElem?]

/-- What was not kept before is not kept later either. -/
theorem keepLast_keepLast_append
    (before after : List Signal) :
    keepLast (keepLast before ++ after) = keepLast (before ++ after) := by
  simp only [keepLast, List.drop_append, List.drop_drop, List.length_append, List.length_drop]
  congr 2
  · omega
  · omega

/-! ## One place -/

section Places

variable (c : Channel)

theorem first?_eq_bind
    (id : Nat) :
    c.first? id = (c.waiting? id).bind List.head? := by
  simp only [first?, waiting?]
  cases c.receivers.find? fun r => r.id == id with
  | _ =>
      rfl

theorem waiting?_trigger
    (s : Signal)
    (id : Nat) :
    (c.trigger s).waiting? id = (c.waiting? id).map fun unread => keepLast (unread ++ [s]) := by
  have hsame : (fun x : Receiver => x.id == id) ∘
      (fun x : Receiver => { x with unread := keepLast (x.unread ++ [s]) }) =
        fun x : Receiver => x.id == id :=
    rfl
  simp only [waiting?, trigger, List.find?_map, hsame, Option.map_map]
  rfl

/-- Signals that are raised one after the other wait behind those that have waited before. -/
theorem waiting?_foldl_trigger
    (signals : List Signal)
    {id : Nat}
    {before : List Signal}
    (h : c.waiting? id = some (keepLast before)) :
    (signals.foldl trigger c).waiting? id = some (keepLast (before ++ signals)) := by
  induction signals generalizing c before with
  | nil =>
      rw [List.append_nil]
      exact h
  | cons s rest ih =>
      have hnext : (c.trigger s).waiting? id = some (keepLast (before ++ [s])) := by
        rw [waiting?_trigger, h, Option.map_some, keepLast_keepLast_append]
      rw [List.foldl_cons, ih (c.trigger s) hnext, List.append_assoc]
      rfl

theorem waiting?_drop
    {id other : Nat}
    (hne : other ≠ id) :
    (c.drop id).waiting? other = c.waiting? other := by
  simp only [waiting?, drop, List.find?_filter]
  congr 2
  funext r
  by_cases hr : r.id = other
  · simp [hr, hne]
  · simp [hr]

theorem waiting?_listen
    {id : Nat}
    (hne : id ≠ c.nextId) :
    c.listen.2.waiting? id = c.waiting? id := by
  have hnew : ((⟨c.nextId, []⟩ : Receiver).id == id) = false := by
    simpa using fun h : c.nextId = id => hne h.symm
  simp only [waiting?, listen, List.find?_append, List.find?_cons, hnew, List.find?_nil,
    Option.or_none]

/-- Nothing waits for a new listener. -/
theorem waiting?_listen_self
    (hfresh : ∀ r ∈ c.receivers, r.id ≠ c.nextId) :
    c.listen.2.waiting? c.nextId = some [] := by
  have hnone : c.receivers.find? (fun r => r.id == c.nextId) = none :=
    List.find?_eq_none.mpr fun r hr => by simpa using hfresh r hr
  simp [waiting?, listen, List.find?_append, hnone]

end Places
end Channel
end LifecycleTelemetry
