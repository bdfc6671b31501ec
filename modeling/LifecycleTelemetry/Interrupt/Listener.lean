import LifecycleTelemetry.Interrupt.Channel

/-!
# Interrupt listeners

An operation listens for interrupts while it runs. Where they come from is up to a source: a channel,
a source that fires by itself a fixed time after one starts to listen, one that never fires, one that
can no longer deliver anything, and one on which listening fails.

A listener fires at most once. It is *armed* until it has fired or has found out that its source is
at an end, and an unarmed listener stays silent for ever.
-/

namespace LifecycleTelemetry

/-- Where interrupts come from. -/
inductive InterruptSource where
  | channel
  | failing
  | inert
  | closed
  | timed (after : Nat) (signal : Signal)
deriving DecidableEq

/-- The name of a source. -/
def InterruptSource.name : InterruptSource → String
  | .channel => "channel"
  | _ => "scripted"

/-- An installed listener: on a channel, with a time at which it fires, at the end of its source
without having noticed, or unarmed. -/
inductive Listener where
  | receiver (id : Nat)
  | timed (deadline : Nat) (signal : Signal)
  | closed
  | unarmed
deriving DecidableEq

namespace InterruptSource

/-- Installs a listener at a time. There is none where listening fails. -/
def listen? (source : InterruptSource) (now : Nat) (c : Channel) : Option (Listener × Channel) :=
  match source with
  | .channel => let (id, c) := c.listen; some (.receiver id, c)
  | .failing => none
  | .inert => some (.unarmed, c)
  | .closed => some (.closed, c)
  | .timed after signal => some (.timed (now + after) signal, c)

end InterruptSource

namespace Listener

/-- Whether a listener may still fire, as far as it knows. -/
def isArmed : Listener → Bool
  | .unarmed => false
  | _ => true

/-- A listener in diagnostic output. -/
def diagnostic (l : Listener) : String :=
  "InterruptListener \x7b armed: " ++ (if l.isArmed then "true" else "false") ++ " \x7d"

/-- The signal by which a listener fires at a time. -/
def signal? (l : Listener) (now : Nat) (c : Channel) : Option Signal :=
  match l with
  | .receiver id => c.first? id
  | .timed deadline signal => if deadline ≤ now then some signal else none
  | .closed => none
  | .unarmed => none

/-- Takes a listener away. -/
def release (l : Listener) (c : Channel) : Channel :=
  match l with
  | .receiver id => c.drop id
  | _ => c

/-- Asks a listener for its signal. One that fires is unarmed and gone from its channel; one whose
source is at an end notices. When the source of a channel has been closed, its listeners still get the
signals that wait for them. -/
def poll (l : Listener) (now : Nat) (sourceClosed : Bool) (c : Channel) :
    Option Signal × Listener × Channel :=
  match l.signal? now c with
  | some s => (some s, .unarmed, l.release c)
  | none =>
      match l with
      | .receiver _ => if sourceClosed then (none, .unarmed, l.release c) else (none, l, c)
      | .closed => (none, .unarmed, c)
      | l => (none, l, c)

/-- Waits for the signal of a listener, for at most a time. Nothing but the clock moves while one
waits, so the listener is asked at once, and again when it fires by itself in time. -/
def await (l : Listener) (now timeout : Nat) (sourceClosed : Bool) (c : Channel) :
    Option Signal × Listener × Channel × Nat :=
  match l.poll now sourceClosed c with
  | (some s, l, c) => (some s, l, c, now)
  | (none, .timed deadline signal, c) =>
      if deadline ≤ now + timeout then (some signal, .unarmed, c, deadline)
      else (none, .timed deadline signal, c, now + timeout)
  | (none, l, c) => (none, l, c, now + timeout)

/-- An unarmed listener stays silent. -/
@[simp]
theorem poll_unarmed
    (now : Nat)
    (sourceClosed : Bool)
    (c : Channel) :
    poll .unarmed now sourceClosed c = (none, .unarmed, c) :=
  rfl

end Listener
end LifecycleTelemetry
