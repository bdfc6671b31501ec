import LifecycleTelemetry.Json.Value

/-!
# Log lines

What the library says about its own work. A line has a level, the part of the library it comes from,
a message and fields. Lines below the chosen level are not shown.
-/

namespace LifecycleTelemetry

/-- How much attention a log line asks for. -/
inductive LogLevel where
  | error
  | warn
  | info
  | debug
  | trace
deriving DecidableEq

namespace LogLevel

/-- The name of a level in a log line. -/
def name : LogLevel → String
  | .error => "ERROR"
  | .warn => "WARN"
  | .info => "INFO"
  | .debug => "DEBUG"
  | .trace => "TRACE"

/-- The place of a level, from the most urgent on. -/
def rank : LogLevel → Nat
  | .error => 1
  | .warn => 2
  | .info => 3
  | .debug => 4
  | .trace => 5

/-- All levels, the most urgent first. -/
def all : List LogLevel :=
  [.error, .warn, .info, .debug, .trace]

/-- The number that a text of digits is, with or without a plus sign. -/
def place? (s : String) : Option Nat :=
  let digits := match s.toList with
    | '+' :: rest => rest
    | cs => cs
  if !digits.isEmpty && digits.all Char.isDigit then
    some (digits.foldl (fun n c => n * 10 + (c.toNat - 0x30)) 0)
  else none

/-- The level of a name in any case, or of its place. -/
def ofText? (s : String) : Option LogLevel :=
  all.find? fun level => level.name == s.toUpper || place? s == some level.rank

/-- Whether lines of a level are shown when another is chosen. -/
def shownAt (level chosen : LogLevel) : Bool :=
  level.rank ≤ chosen.rank

end LogLevel

/-- The part of the library that a log line comes from. -/
inductive LogSource where
  | store
  | reporter
  | delivery
  | dispatcher
  | session
deriving DecidableEq

/-- The name of a part of the library in the log. -/
def LogSource.name : LogSource → String
  | .store => "c3_telemetry::config::store"
  | .reporter => "c3_telemetry::telemetry::reporter"
  | .delivery => "c3_telemetry::telemetry::delivery"
  | .dispatcher => "c3_telemetry::telemetry::interrupt::os_dispatch"
  | .session => "c3_telemetry::app::dispatch"

/-- A line of the log. -/
structure LogLine where
  level : LogLevel
  source : LogSource
  message : String
  fields : Json.Fields
deriving DecidableEq

/-- A line as the log shows its origin: level and part of the library. -/
def LogLine.heading (line : LogLine) : String :=
  line.level.name ++ " " ++ line.source.name

end LifecycleTelemetry
