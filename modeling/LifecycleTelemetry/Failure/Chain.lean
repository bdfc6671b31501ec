import LifecycleTelemetry.Failure.Basic

/-!
# The chain of causes

A failure has a chain of texts: what was said last, what that was said about, and so on to the first
cause. The library's error type adds a link where it puts a word of its own in front, and none where
it only passes on what it holds.

A failure is a cancellation when its cause is the mark of one, or one of its contexts is; of several
marks the outermost counts. What the library's error type holds is not looked into.
-/

namespace LifecycleTelemetry

mutual

/-- The texts of a failure, the outermost first. -/
def Failure.chain : Failure → List String
  | .message text => [text]
  | .cancelled c => [c.message]
  | .config e => e.message :: e.source?.toList
  | .telemetry e => [e.message]
  | .system e => [e.message]
  | .library e => LibraryError.chain e
  | .context outer inner => outer.message :: Failure.chain inner

/-- The texts of the library's error, the outermost first. -/
def LibraryError.chain : LibraryError → List String
  | .config e => ("config: " ++ e.message) :: e.message :: e.source?.toList
  | .telemetry e => ["telemetry: " ++ e.message, e.message]
  | .cancelled c => [c.message]
  | .other inner => Failure.chain inner

end

namespace Failure

/-- The outermost text of a failure. -/
def text (f : Failure) : String :=
  f.chain.headD ""

/-- The mark of a cancellation that counts. -/
def cancellation? : Failure → Option Cancellation
  | .cancelled c => some c
  | .context (.cancelled c) _ => some c
  | .context (.text _) inner => cancellation? inner
  | _ => none

/-- Whether a failure is a cancellation. -/
def isCancellation (f : Failure) : Bool :=
  f.cancellation?.isSome

/-- A text in which every line break is followed by the given blanks. -/
def hanging (blanks : Nat) : List Char → List Char
  | [] => []
  | '\n' :: rest => '\n' :: (List.replicate blanks ' ' ++ hanging blanks rest)
  | c :: rest => c :: hanging blanks rest

/-- A number at the end of five columns. -/
def ordinal (n : Nat) : List Char :=
  let digits := Nat.toDigits 10 n
  List.replicate (5 - digits.length) ' ' ++ digits

/-- A single cause, four columns in. -/
def causeLine (cause : String) : List Char :=
  '\n' :: (List.replicate 4 ' ' ++ hanging 4 cause.toList)

/-- A cause among several, seven columns in behind its number. -/
def numberedLine (entry : String × Nat) : List Char :=
  '\n' :: (ordinal entry.2 ++ ':' :: ' ' :: hanging 7 entry.1.toList)

/-- The causes below a text, numbered when there are at least two. -/
def causeLines : List String → List Char
  | [] => []
  | [cause] => "\n\nCaused by:".toList ++ causeLine cause
  | causes => "\n\nCaused by:".toList ++ causes.zipIdx.flatMap numberedLine

/-- The whole chain of a failure as one text of several lines. -/
def report (f : Failure) : String :=
  match f.chain with
  | [] => ""
  | outermost :: causes => outermost ++ String.ofList (causeLines causes)

/-- No failure is without a text. -/
theorem chain_ne_nil
    (f : Failure) :
    f.chain ≠ [] := by
  induction f using Failure.rec (motive_2 := fun e => LibraryError.chain e ≠ []) with
  | library e ih => simpa [Failure.chain] using ih
  | other inner ih => simpa [LibraryError.chain] using ih
  | _ => simp [Failure.chain, LibraryError.chain]

/-- A text around a failure changes nothing about its being a cancellation. -/
@[simp]
theorem cancellation?_withText
    (f : Failure)
    (text : String) :
    (f.withText text).cancellation? = f.cancellation? :=
  rfl

end Failure
end LifecycleTelemetry
