import LifecycleTelemetry.Failure.SystemError

/-!
# Failures

The ways in which an operation can fail. A failure is a cause with any number of contexts around it;
a context is a text, or the mark of a cancellation. Among the causes are those of this library:
configuration errors, telemetry errors and cancellations stand either by themselves or inside the
library's own error type, which can also hold a whole failure.

A cancellation means that the user called the operation off. It may name the signal that did it.
-/

namespace LifecycleTelemetry
namespace Failure

/-- The mark of an operation that was called off, and the signal that did it. -/
structure Cancellation where
  signal : Option String
deriving DecidableEq

/-- The text of a cancellation. -/
def Cancellation.message (c : Cancellation) : String :=
  match c.signal with
  | some signal => "operation cancelled (" ++ signal ++ ")"
  | none => "operation cancelled"

/-- Failures of the metrics file. -/
inductive ConfigError where
  | noDirectory
  | createDirectory (path : String) (source : SystemError)
  | write (path : String) (source : SystemError)
  | serialize (text : String)
deriving DecidableEq

namespace ConfigError

/-- The text of a failure of the metrics file. -/
def message : ConfigError → String
  | .noDirectory => "could not determine the user configuration directory"
  | .createDirectory path source =>
      "failed to create config directory " ++ path ++ ": " ++ source.message
  | .write path source => "failed to write config file " ++ path ++ ": " ++ source.message
  | .serialize text => "failed to serialize config: " ++ text

/-- The text of what lies behind a failure of the metrics file. -/
def source? : ConfigError → Option String
  | .noDirectory => none
  | .createDirectory _ source => some source.message
  | .write _ source => some source.message
  | .serialize text => some text

end ConfigError

/-- Failures of the reporting itself. -/
inductive TelemetryError where
  | delivery (endpoint text : String)
  | noActiveOperation
deriving DecidableEq

/-- The text of a failure of the reporting. -/
def TelemetryError.message : TelemetryError → String
  | .delivery endpoint text => "delivery to " ++ endpoint ++ " failed: " ++ text
  | .noActiveOperation => "no instrumented operation is active on this task"

/-- Something said around a failure: a text, or the mark of a cancellation. -/
inductive Context where
  | text (s : String)
  | cancelled (c : Cancellation)
deriving DecidableEq

/-- The text of a context. -/
def Context.message : Context → String
  | .text s => s
  | .cancelled c => c.message

end Failure

open Failure

mutual

/-- What went wrong, with what has been said around it. -/
inductive Failure where
  | message (text : String)
  | cancelled (c : Cancellation)
  | config (e : ConfigError)
  | telemetry (e : TelemetryError)
  | system (e : SystemError)
  | library (e : LibraryError)
  | context (outer : Context) (inner : Failure)

/-- The library's own type of errors. -/
inductive LibraryError where
  | config (e : ConfigError)
  | telemetry (e : TelemetryError)
  | cancelled (c : Cancellation)
  | other (inner : Failure)

end

deriving instance DecidableEq for Failure, LibraryError

namespace Failure

/-- A failure with one more text around it. -/
def withText (f : Failure) (text : String) : Failure :=
  .context (.text text) f

/-- A failure with one more context for each in the list, the last outermost. -/
def withContexts (f : Failure) (contexts : List Context) : Failure :=
  contexts.foldl (fun inner outer => .context outer inner) f

/-- The failure of an operation that was called off. -/
def ofSignal (signal : Option String) : Failure :=
  .cancelled ⟨signal⟩

end Failure

/-- The library's error for a failure. Errors of the library keep their kind when nothing has been
said around them, and any other failure is held as a whole. -/
def LibraryError.ofFailure : Failure → LibraryError
  | .config e => .config e
  | .telemetry e => .telemetry e
  | .cancelled c => .cancelled c
  | f => .other f

end LifecycleTelemetry
