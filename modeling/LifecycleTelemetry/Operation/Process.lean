import LifecycleTelemetry.Interrupt.Process
import LifecycleTelemetry.Operation.Move

/-!
# Signals of the system

What a signal of the system makes of a world whose calls listen to such signals. Listening for the first
time installs the dispatcher, once for the whole process, so that it may be there before the first call of
a world is made.
-/

namespace LifecycleTelemetry
namespace World

/-- The dispatcher of the process, which may have listened before the world began. -/
def dispatcher (w : World) (earlier : Bool) : Dispatcher :=
  ⟨earlier || !w.calls.isEmpty, w.channel⟩

/-- What a signal of the system makes of the process. -/
def receive (earlier : Bool) (w : World) (s : Signal) : Fate World :=
  ((w.dispatcher earlier).receive s).fate fun d => { (w.trigger s).2 with channel := d.channel }

end World
end LifecycleTelemetry
