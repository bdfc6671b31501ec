import LifecycleTelemetry.Interrupt.Channel

/-!
# Signals of the process

A process reacts to signals in the default way, which ends it, until something listens for the first
time. From then on the signals go to whoever listens; one that nobody listens to ends the process with
the exit status by which a shell would report it.
-/

namespace LifecycleTelemetry

/-- How a process handles signals: whether it has ever listened, and to whom signals go. -/
structure Dispatcher where
  isInstalled : Bool
  channel : Channel
deriving DecidableEq

/-- What a signal does to a process. -/
inductive SignalEffect where
  | delivered (d : Dispatcher)
  | killed (s : Signal)
  | exited (status : Nat)
deriving DecidableEq

namespace Dispatcher

/-- A process that has never listened. -/
def new : Dispatcher :=
  ⟨false, .new⟩

/-- Installs a listener. -/
def listen (d : Dispatcher) : Nat × Dispatcher :=
  let (id, channel) := d.channel.listen
  (id, ⟨true, channel⟩)

/-- Releases a listener. -/
def release (d : Dispatcher) (id : Nat) : Dispatcher :=
  { d with channel := d.channel.drop id }

/-- What a signal does. -/
def receive (d : Dispatcher) (s : Signal) : SignalEffect :=
  if !d.isInstalled then .killed s
  else if d.channel.active = 0 then .exited s.exitCode
  else .delivered { d with channel := d.channel.trigger s }

end Dispatcher
end LifecycleTelemetry
