import LifecycleTelemetry.Interrupt.Signal

/-!
# Interrupt channels

A channel hands each signal to every listener installed at that time. What a listener has not taken
yet waits for it; of more than eight waiting signals the oldest are lost. A listener takes a single
signal and is then gone from the channel.
-/

namespace LifecycleTelemetry

/-- A listener on a channel, with the signals that wait for it, the oldest first. -/
structure Receiver where
  id : Nat
  unread : List Signal
deriving DecidableEq

/-- A channel with its listeners in the order of their installation. -/
structure Channel where
  receivers : List Receiver
  nextId : Nat
deriving DecidableEq

namespace Channel

/-- The number of signals that can wait for a listener. -/
def capacity : Nat := 8

/-- A channel that nobody listens to. -/
def new : Channel :=
  ⟨[], 0⟩

/-- The last elements of a list, at most as many as can wait. -/
def keepLast (signals : List Signal) : List Signal :=
  signals.drop (signals.length - capacity)

/-- Installs a listener. -/
def listen (c : Channel) : Nat × Channel :=
  (c.nextId, { receivers := c.receivers ++ [⟨c.nextId, []⟩], nextId := c.nextId + 1 })

/-- The number of listeners. -/
def active (c : Channel) : Nat :=
  c.receivers.length

/-- Hands a signal to every listener. -/
def trigger (c : Channel) (s : Signal) : Channel :=
  { c with receivers := c.receivers.map fun r => { r with unread := keepLast (r.unread ++ [s]) } }

/-- Removes a listener. -/
def drop (c : Channel) (id : Nat) : Channel :=
  { c with receivers := c.receivers.filter fun r => r.id != id }

/-- The oldest signal that waits for a listener. -/
def first? (c : Channel) (id : Nat) : Option Signal :=
  (c.receivers.find? fun r => r.id == id).bind fun r => r.unread.head?

end Channel
end LifecycleTelemetry
