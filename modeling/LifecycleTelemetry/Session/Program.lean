import LifecycleTelemetry.CommandLine.Request
import LifecycleTelemetry.Config.Location
import LifecycleTelemetry.Session.Basic

/-!
# The program

What the program does with a request: it finds the metrics file, and either carries out a command
about the permission or runs a session. Before the first session that reports anything, the user is
told. The result is what has been printed, how the program has ended, and the host as it is left
behind.

What is printed may find no taker: the disk is full, or nobody reads it any more. The program then panics
where it prints. A session whose notice cannot be printed is not even begun.
-/

namespace LifecycleTelemetry

open CommandLine (Request)
open Failure (SystemError)

/-- What becomes of what the program prints: it is taken, or all of it is refused. -/
inductive StandardOutput where
  | takes
  | refuses (fault : SystemError)
deriving DecidableEq

namespace StandardOutput

/-- What can be seen of a text that is printed. -/
def seen (text : String) : StandardOutput → String
  | .takes => text
  | .refuses _ => ""

/-- The panic of a program that prints. An output that is not open for writing is passed over in
silence. -/
def panic? : StandardOutput → Option String
  | .takes => none
  | .refuses (.os 9) => none
  | .refuses fault => some ("failed printing to stdout: " ++ fault.message)

end StandardOutput

/-- What the program depends on besides the host: the source key that it was built with, its output, what
running a command comes to, where interrupts come from, what becomes of deliveries, and the dates that
payloads get. -/
structure Outside where
  builtInKey : Option String
  output : StandardOutput
  child : ChildRun
  source : InterruptSource
  plans : List DeliveryPlan
  stamps : Nat → Int

/-- How the program ends. -/
inductive Conclusion where
  | done
  | failed (f : Failure)
  | panicked (text : String)
deriving DecidableEq

/-- What a request came to. A session leaves a world behind. -/
structure Completion where
  printed : String
  conclusion : Conclusion
  host : Host
  session : Option World

namespace Completion

/-- The failure that the program has ended with, if it was one. -/
def failure (c : Completion) : Option Failure :=
  match c.conclusion with
  | .failed f => some f
  | _ => none

/-- The exit status of the program. -/
def exitStatus (c : Completion) : Nat :=
  match c.conclusion with
  | .done => 0
  | .failed _ => 1
  | .panicked _ => 101

/-- What the program says about its failure or its panic. -/
def complaint? (c : Completion) : Option String :=
  match c.conclusion with
  | .done => none
  | .failed f => some ("Error: " ++ f.report)
  | .panicked text => some text

/-- Everything that has been seen in the session, in the order of time. -/
def entries (c : Completion) : List Entry :=
  match c.session with
  | some w => w.history.reverse
  | none => []

/-- The log of the program. -/
def log (c : Completion) : List LogLine :=
  c.host.log ++ c.entries.filterMap fun e =>
    match e.what with
    | .logged line => some line
    | _ => none

/-- What has been handed to the transport. -/
def payloads (c : Completion) : List Payload :=
  c.entries.filterMap fun e =>
    match e.what with
    | .handedOver _ p => some p
    | _ => none

end Completion

namespace Program

/-- Whether the user is told that the program reports: before the first session, if it does. -/
def announces (r : Reporter) : Bool :=
  r.enabled && r.ambient.isFirstUsage

/-- What is printed before a session. -/
def notice (r : Reporter) : String :=
  if announces r then firstUsageNotice ++ "\n\n" else ""

/-- The panic in which a session ends before it has begun: that of printing the notice, if there is one to
be printed. -/
def noticePanic? (r : Reporter) (output : StandardOutput) : Option String :=
  if announces r then output.panic? else none

/-- How a program ends whose session came to an outcome. -/
def conclusionOf : Option Outcome → Conclusion
  | some (.err f) => .failed f
  | some (.panic p) => .panicked (p.text?.getD "")
  | some (.ok _) => .done
  | none => .done

/-- Carries out a command about the permission. -/
def changePermission (s : StoreState) (output : StandardOutput) (command : PermissionCommand) :
    Completion :=
  match command.run s with
  | (.ok report, s) =>
      let conclusion := output.panic?.elim .done .panicked
      ⟨output.seen (report.text ++ "\n"), conclusion, s.host, none⟩
  | (.error e, s) => ⟨"", .failed (.config e), s.host, none⟩

/-- Who reports a session. The metrics file is completed at the same time. -/
def reporterOf (s : StoreState) (outside : Outside) : Reporter × StoreState :=
  Reporter.ofStore (Collector.ofEnvironment outside.builtInKey s.host.environment) s

/-- The world before a session. -/
def worldOf (reporter : Reporter) (outside : Outside) : World :=
  World.start reporter true outside.stamps outside.source outside.plans

/-- Runs a session. -/
def runSession (s : StoreState) (outside : Outside) (projectName : Option String)
    (command : List String) : Completion :=
  let (reporter, s) := reporterOf s outside
  match noticePanic? reporter outside.output with
  | some text => ⟨"", .panicked text, s.host, none⟩
  | none =>
      let world := Session.run (worldOf reporter outside) projectName command outside.child
      ⟨outside.output.seen (notice reporter), conclusionOf (Session.outcome? world), s.host, some world⟩

/-- Carries out a request. -/
def carryOut (request : Request) (outside : Outside) (host : Host) : Completion :=
  match Location.metricsFile? host.accountHome host.environment with
  | none => ⟨"", .failed (.config .noDirectory), host, none⟩
  | some path =>
      let s : StoreState := ⟨MetricsStore.new path, host⟩
      match request with
      | .permission command => changePermission s outside.output command
      | .run projectName command => runSession s outside projectName command

/-- The least urgent level of log lines that are shown. -/
def chosenLevel (env : Environment) : LogLevel :=
  ((Environment.text? env "C3_LOG").bind fun text => LogLevel.ofText? (Text.trim text)).getD .warn

/-- The lines of the log that are shown. -/
def shown (env : Environment) (log : List LogLine) : List LogLine :=
  log.filter fun line => line.level.shownAt (chosenLevel env)

end Program
end LifecycleTelemetry
