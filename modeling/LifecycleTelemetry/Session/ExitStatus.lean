/-!
# Exit statuses

How a program ended: by itself with a code, or by a signal, which may have left an image of its memory
behind. The text of a status names the signals that have a name, and says so of the image.
-/

namespace LifecycleTelemetry

/-- How a program ended. -/
inductive ExitStatus where
  | exited (code : Nat)
  | killed (signal : Nat) (dumped : Bool)
deriving DecidableEq

namespace ExitStatus

/-- The names of the signals from the first on. -/
def signalNames : List String :=
  ["SIGHUP", "SIGINT", "SIGQUIT", "SIGILL", "SIGTRAP", "SIGABRT", "SIGBUS", "SIGFPE", "SIGKILL",
    "SIGUSR1", "SIGSEGV", "SIGUSR2", "SIGPIPE", "SIGALRM", "SIGTERM", "SIGSTKFLT", "SIGCHLD",
    "SIGCONT", "SIGSTOP", "SIGTSTP", "SIGTTIN", "SIGTTOU", "SIGURG", "SIGXCPU", "SIGXFSZ",
    "SIGVTALRM", "SIGPROF", "SIGWINCH", "SIGIO", "SIGPWR", "SIGSYS"]

/-- The name of a signal, if it has one. -/
def signalName? : Nat → Option String
  | 0 => none
  | n + 1 => signalNames[n]?

/-- The code with which a program ended by itself. -/
def code? : ExitStatus → Option Nat
  | .exited code => some code
  | .killed _ _ => none

/-- The signal by which a program was ended. -/
def signal? : ExitStatus → Option Nat
  | .exited _ => none
  | .killed signal _ => some signal

/-- Whether a program did what it was to do. -/
def isSuccess (s : ExitStatus) : Bool :=
  s.code? == some 0

/-- A status in words. -/
def text : ExitStatus → String
  | .exited code => "exit status: " ++ toString code
  | .killed signal dumped =>
      "signal: " ++ toString signal ++
        (match signalName? signal with
          | some name => " (" ++ name ++ ")"
          | none => "") ++
        (if dumped then " (core dumped)" else "")

end ExitStatus
end LifecycleTelemetry
