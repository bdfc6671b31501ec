import LifecycleTelemetry.Operation.Schedule
import LifecycleTelemetry.Session.ExitStatus

/-!
# Sessions

A session runs a command as an instrumented operation. Of the command only the program and the number
of its arguments are reported, never the arguments. A program that ends by itself contributes its exit
code to whichever ending is reported. The session is over when all its deliveries are; what it comes
to is what the operation came to.
-/

namespace LifecycleTelemetry

open Failure (SystemError)
open Json (Fields)

/-- What starting the program of a command comes to: it cannot be started, or it runs for a time,
raises interrupts right away, and ends. -/
inductive ChildRun where
  | refused (fault : SystemError)
  | ran (interrupts : List Signal) (duration : Nat) (status : ExitStatus)
deriving DecidableEq

namespace Session

/-- What is reported of a command. -/
def arguments (projectName : Option String) (command : List String) : Fields :=
  let ofProject : Fields := (projectName.map fun name => ("projectName", Json.string name)).toList
  let ofCommand : Fields := match command with
    | [] => []
    | program :: rest => [("program", .string program), ("argCount", Json.ofNat rest.length)]
  Fields.ofList (ofProject ++ ofCommand)

/-- The steps that contribute an exit code to the endings that a program can bring about. -/
def exitCodeSteps (status : ExitStatus) : Script :=
  match status.code? with
  | some code =>
      [.act (.contribute .free .completed "exitCode" (Json.ofNat code)),
       .act (.contribute .free .errored "exitCode" (Json.ofNat code))]
  | none => []

/-- The log line about a program that was successful. -/
def finishedLine (program : String) : LogLine :=
  ⟨.info, .session, "session command finished", [("program", .string program)]⟩

/-- The failure of a program that ended in another way. -/
def exitFailure (program : String) (status : ExitStatus) : Failure :=
  .message (program ++ " exited with " ++ status.text)

/-- The failure of a program that could not be started. -/
def startFailure (program : String) (fault : SystemError) : Failure :=
  (Failure.system fault).withText ("failed to start " ++ program)

/-- The last steps of a program that has ended. -/
def endingSteps (program : String) (status : ExitStatus) : Script :=
  if status.isSuccess then [.act (.log (finishedLine program)), .succeed .null]
  else [.fail (exitFailure program status)]

/-- What running a command does. -/
def work (command : List String) (child : ChildRun) : Script :=
  match command with
  | [] => [.fail (.message "no command given")]
  | program :: _ =>
      match child with
      | .refused fault => [.fail (startFailure program fault)]
      | .ran interrupts duration status =>
          interrupts.map (fun s => Step.act (.trigger s)) ++ [.sleep duration] ++
            exitCodeSteps status ++ endingSteps program status

/-- The script of a session: the command as an instrumented operation, then the deliveries. -/
def script (projectName : Option String) (command : List String) (child : ChildRun) : Script :=
  [.instrument none (.session (arguments projectName command)) [] (work command child) false none,
   .drain false]

/-- The world after a session that starts in a given world. -/
def run (w : World) (projectName : Option String) (command : List String) (child : ChildRun) :
    World :=
  ((Schedule.start w).runMain none (script projectName command child)).world

/-- What the operation of a session came to. -/
def outcome? (w : World) : Option Outcome :=
  match w.calls.map Call.phase with
  | .settled s :: _ => some s.outcome
  | .collapsed p :: _ => some (.panic p)
  | _ => none

/-- What is reported of a command does not depend on the arguments of its program, but for their
number. -/
theorem arguments_congr
    (projectName : Option String)
    (program : String)
    {xs ys : List String}
    (h : xs.length = ys.length) :
    arguments projectName (program :: xs) = arguments projectName (program :: ys) := by
  simp [arguments, h]

end Session
end LifecycleTelemetry
