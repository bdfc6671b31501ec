import LifecycleTelemetry.Operation.Schedule

/-!
# Rehearsals

A rehearsal runs a script from beginning to end. What the script has left behind is then given another
hour, so that operations nobody waits for any more can go on, and in the end the deliveries are
drained. What has been seen by then, and how the script ended, is the result.

In an aborted rehearsal the tasks of the script are aborted once nothing can go on within a time that
no one waits through.
-/

namespace LifecycleTelemetry

/-- What a rehearsal came to: how the script ended, if it did, and the world it left behind. -/
structure Rehearsal where
  outcome : Option Outcome
  world : World

namespace Rehearsal

/-- The time that operations are given after the end of the script. -/
def aftermath : Nat := 3600000000000

/-- Lets what the script has left behind go on, and drains the deliveries if that is wanted. -/
def settleDown (s : Schedule) (drain : Bool) : Schedule :=
  let world := s.world.note (.scriptEnded s.world.pending.length s.world.channel.active)
  { s with world }.runMain none
    (.sleep aftermath :: if drain then [.drain false] else [])

/-- Runs a script. Without a runtime there is nothing to wait for afterwards. -/
def ofScript (w : World) (drain : Bool) (script : Script) : Rehearsal :=
  let s := (Schedule.start w).runMain none script
  let finished := if w.hasRuntime then settleDown s drain else s
  ⟨s.outcome?, finished.world⟩

/-- The time within which the script of an aborted rehearsal has to come to rest. -/
def patience : Nat := 1000000000

/-- Aborts all tasks but the main one. -/
def abortAll (w : World) : World :=
  (List.range w.strands.length).tail.foldl World.abort w

/-- Runs a script and aborts its tasks once they wait for something that does not come soon. -/
def aborted (w : World) (script : Script) : Rehearsal :=
  let s := (Schedule.start w).runMain (some patience) script
  let s := { s with world := abortAll s.world }.resume
  ⟨s.outcome?, s.world⟩

/-- Everything that has been seen, in the order of time. -/
def entries (r : Rehearsal) : List Entry :=
  r.world.history.reverse

end Rehearsal
end LifecycleTelemetry
