import LifecycleTelemetry.Interrupt.Audience
import LifecycleTelemetry.Interrupt.Dispatcher

/-!
# Processes that signals may end

What becomes of a process when a signal of the system comes: it goes on, and whoever listens has been
handed the signal, or it is ended. The listeners of a process are an audience whose channel only the
dispatcher has a handle on, and the dispatcher is there as soon as there has been a listener.
-/

namespace LifecycleTelemetry

/-- What has become of a process: it runs, or it has been ended by a signal, either in the default way or
with an exit status. -/
inductive Fate (α : Type) where
  | running (state : α)
  | killed (s : Signal)
  | exited (status : Nat)
deriving DecidableEq

/-- What a signal makes of a process that goes on in a certain way when the signal is delivered. -/
def SignalEffect.fate {α : Type} (onward : Dispatcher → α) : SignalEffect → Fate α
  | .delivered d => .running (onward d)
  | .killed s => .killed s
  | .exited status => .exited status

namespace Audience

/-- The dispatcher of the process that has the listeners. -/
def dispatcher (a : Audience) : Dispatcher :=
  ⟨!a.seats.isEmpty, a.channel⟩

/-- What a signal of the system makes of the process. -/
def receive (a : Audience) (s : Signal) : Fate Audience :=
  (a.dispatcher.receive s).fate fun d => { a.use (.trigger s) with channel := d.channel }

end Audience
end LifecycleTelemetry
