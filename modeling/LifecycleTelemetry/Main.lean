import Std.Time.DateTime.Timestamp
import LifecycleTelemetry.Session.Program
import LifecycleTelemetry.Text.Identifier

/-!
# The command line

Reads what the program depends on, lets it carry out its request, and puts what came of it into the
world: the metrics file, what is printed, the log and the exit status. Only the metrics file is looked
at, so the tree of files that the program sees holds nothing else.

No programs can be started and no collector can be reached from here. A session therefore fails as if
the system knew no way to start programs, and its deliveries fail.
-/

namespace LifecycleTelemetry

/-- The variables that the program looks at. -/
def knownVariables : List String :=
  ["C3_TELEMETRY_ENDPOINT", "SPARROW_SOURCE_KEY", "C3_TELEMETRY_DISABLED",
    "C3_METRICS_CONFIG_PATH", "C3_LOG", "XDG_CONFIG_HOME", "HOME"]

/-- The environment as far as the program looks at it. -/
def readEnvironment : IO Environment :=
  knownVariables.foldlM
    (fun env name => do
      match ← IO.getEnv name with
      | some value => return Environment.set env name (.text value)
      | none => return env)
    []

/-- The tree of a metrics file. A file that exists and cannot be read counts as a directory. -/
def readFiles (path : String) : IO FileTree := do
  let inParents (t : FileTree) : FileTree := match Path.parent? path with
    | some parent => (t.makeDirectories parent).1
    | none => t
  try
    let bytes ← IO.FS.readBinFile path
    return ((inParents .empty).write path (.ofBytes bytes.toList)).1
  catch
    | .noFileOrDirectory .. => return .empty
    | _ => return (FileTree.empty.makeDirectories path).1

/-- The present moment. -/
def readClock : IO Calendar.Instant := do
  let now ← Std.Time.Timestamp.now
  let nanos : Int := now.toNanosecondsSinceUnixEpoch.val
  let seconds := nanos.fdiv 1000000000
  let moment := Calendar.Instant.ofUnix? seconds (nanos - seconds * 1000000000).toNat
  return moment.getD .epoch

/-- The kind of system, as far as it can be found out. -/
def readArchitecture : IO String := do
  try
    let text ← IO.FS.readFile "/proc/sys/kernel/arch"
    return Text.trim text
  catch _ => return "x86_64"

/-- The machine that the program runs on. A request needs two identifiers at most. The home that goes with the
account cannot be found out from here. -/
def readHost : IO Host := do
  let environment ← readEnvironment
  let accountHome : Option String := none
  let path := Location.metricsFile? accountHome environment
  let files ← (path.map readFiles).getD (pure .empty)
  let identifiers ← (List.range 2).mapM fun _ => do
    let bytes ← IO.getRandomBytes 16
    return Text.identifier bytes.toList
  return {
    files
    environment
    accountHome
    now := ← readClock
    platform := "linux"
    arch := ← readArchitecture
    identifier := fun n => identifiers.getD n ""
    drawn := 0
    log := [] }

/-- Writes the metrics file if it has changed. -/
def keepFile (before after : FileTree) (path : String) : IO Unit := do
  match before.readText path, after.readText path with
  | was, .ok text =>
      if was.toOption ≠ some text then
        match Path.parent? path with
        | some parent => if !parent.isEmpty then IO.FS.createDirAll parent
        | none => pure ()
        IO.FS.writeFile path text
  | _, _ => pure ()

/-- What is said about a file that could not be written after all, and the exit status. -/
def complainOfFile (request : CommandLine.Request) (path reason : String) : IO UInt32 := do
  let failure : Failure := .config (.write path (.custom reason))
  match request with
  | .permission _ =>
      IO.eprintln ("Error: " ++ failure.report)
      return 1
  | .run _ _ =>
      IO.eprintln ("WARN " ++ LogSource.store.name ++ ": " ++ failure.text)
      return 0

/-- Shows what came of a request. -/
def present (environment : Environment) (completion : Completion) : IO UInt32 := do
  IO.print completion.printed
  for line in Program.shown environment completion.log do
    IO.eprintln (line.heading ++ ": " ++ line.message)
  match completion.complaint? with
  | some complaint => IO.eprintln complaint
  | none => pure ()
  return completion.exitStatus.toUInt32

/-- Carries out a request on this machine. -/
def perform (request : CommandLine.Request) : IO UInt32 := do
  let host ← readHost
  let date := host.now.nanoseconds / 1000000
  let outside : Outside :=
    { builtInKey := none
      output := .takes
      child := .refused (.os 38)
      source := .inert
      plans := [⟨none, .fail⟩]
      stamps := fun _ => date }
  let completion := Program.carryOut request outside host
  let kept : UInt32 ← match Location.metricsFile? host.accountHome host.environment with
    | some path =>
        try
          keepFile host.files completion.host.files path
          pure 0
        catch e => complainOfFile request path (toString e)
    | none => pure 0
  if kept = 0 then present host.environment completion else return kept

end LifecycleTelemetry

open LifecycleTelemetry in
/-- Runs the program. -/
def main (words : List String) : IO UInt32 := do
  match CommandLine.Request.ofWords words with
  | .ok request => perform request
  | .error refusal =>
      match refusal.answer? with
      | some answer => IO.print answer
      | none => IO.eprintln ("error: " ++ refusal.message)
      return refusal.exitStatus.toUInt32
