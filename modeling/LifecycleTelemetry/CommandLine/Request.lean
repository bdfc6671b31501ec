import LifecycleTelemetry.CommandLine.Topic

/-!
# Requests on the command line

A command line asks for one thing: a command about the permission, or a command to run as a session.
Reading stops at the first word that settles the matter. Words in front of a session's command may be
options of the program; from the first word that cannot be one, everything belongs to the command and
is kept as it stands, words that look like options included.
-/

namespace LifecycleTelemetry
namespace CommandLine

/-- What a command line asks for. -/
inductive Request where
  | permission (c : PermissionCommand)
  | run (projectName : Option String) (command : List String)
deriving DecidableEq

/-- Why a command line is not carried out. Asking for help or for the version is the harmless case. -/
inductive Refusal where
  | help (t : Topic)
  | version
  | commandMissing
  | commandUnknown
  | argumentUnknown
  | argumentMissing
  | argumentRepeated
  | valueMissing
  | valueUnexpected
deriving DecidableEq

namespace Refusal

/-- What is printed when nothing is wrong. -/
def answer? : Refusal → Option String
  | .help t => some t.page.text
  | .version => some versionText
  | _ => none

/-- What is said about a mistake. -/
def message : Refusal → String
  | .help _ => ""
  | .version => ""
  | .commandMissing => "a command is missing"
  | .commandUnknown => "there is no such command"
  | .argumentUnknown => "unexpected argument"
  | .argumentMissing => "the command to run is missing"
  | .argumentRepeated => "the project is named more than once"
  | .valueMissing => "the name of the project is missing"
  | .valueUnexpected => "unexpected value for an option"

/-- The exit status: zero for an answer, two for a mistake. -/
def exitStatus (r : Refusal) : Nat :=
  if r.answer?.isSome then 0 else 2

end Refusal

/-- How a word of the command line looks: the separator, a long option, short options or none of them. -/
inductive Word where
  | separator
  | long (name : List Char) (value : Option (List Char))
  | short (letters : List Char)
  | plain
deriving DecidableEq

/-- A long option up to its equals sign, and what follows it. -/
def Word.longParts (letters : List Char) : Word :=
  match letters.dropWhile (· != '=') with
  | _ :: value => .long (letters.takeWhile (· != '=')) (some value)
  | [] => .long letters none

/-- The look of a word. One dash alone is a plain word. -/
def Word.ofText (s : String) : Word :=
  match s.toList with
  | ['-', '-'] => .separator
  | '-' :: '-' :: letters => Word.longParts letters
  | '-' :: c :: letters => .short (c :: letters)
  | _ => .plain

/-- The long option that asks for help. -/
def helpName : List Char :=
  "help".toList

/-- The long option that asks for the version. -/
def versionName : List Char :=
  "version".toList

/-- The long option that names the project. -/
def projectName : List Char :=
  "project-name".toList

/-- The answer to an option of a topic that is no command to run: help everywhere, the version for the
program as a whole, and nothing else. -/
def optionRefusal (t : Topic) : Word → Refusal
  | .long name value =>
      if name = helpName ∨ (name = versionName ∧ t = .group .program) then
        if value.isSome then .valueUnexpected
        else if name = helpName then .help t else .version
      else .argumentUnknown
  | .short ('h' :: _) => .help t
  | .short ('V' :: _) => if t = .group .program then .version else .argumentUnknown
  | _ => .argumentUnknown

/-- Walks down the tree of commands from a topic. -/
def Topic.walk (t : Topic) (words : List String) : Except Refusal Topic :=
  words.foldlM (fun t word => (t.below? word).elim (.error .commandUnknown) .ok) t

/-- Reads what follows a command about the permission, which is nothing. -/
def permissionRequest (c : PermissionCommand) : List String → Except Refusal Request
  | [] => .ok (.permission c)
  | word :: rest =>
      if Word.ofText word = .separator ∧ rest = [] then .ok (.permission c)
      else .error (optionRefusal (.permission c) (Word.ofText word))

/-- Whether short options ask for help and for nothing else. -/
def onlyHelp (letters : List Char) : Bool :=
  letters.all (· == 'h')

/-- Whether a word can be the value of an option that stands in front of it: any word but the
separator and the options of a session. -/
def refusalAsValue? (word : String) : Option Refusal :=
  match Word.ofText word with
  | .separator => some .valueMissing
  | .long name value =>
      if name = helpName then some (if value.isSome then .valueUnexpected else .valueMissing)
      else if name = projectName then some .valueMissing
      else none
  | .short letters => if onlyHelp letters then some .valueMissing else none
  | .plain => none

/-- Whether a word is the long option for help with a value, which is a mistake before anything that
came earlier is looked at. -/
def isHelpWithValue (word : String) : Bool :=
  match Word.ofText word with
  | .long name (some _) => name == helpName
  | _ => false

/-- The mistake in naming the project twice. -/
def repeatedProject (rest : List String) : Refusal :=
  if rest.head?.any isHelpWithValue then .valueUnexpected else .argumentRepeated

/-- Reads a session: options of the program first, then the command. -/
def runRequest (project : Option String) : List String → Except Refusal Request
  | [] => .error .argumentMissing
  | word :: rest =>
      match Word.ofText word with
      | .separator => if rest = [] then .error .argumentMissing else .ok (.run project rest)
      | .long name value =>
          if name = helpName then .error (if value.isSome then .valueUnexpected else .help .run)
          else if name = projectName then
            match value, rest with
            | some value, rest =>
                if project.isSome then .error .argumentRepeated
                else runRequest (some (String.ofList value)) rest
            | none, [] => .error .valueMissing
            | none, value :: rest =>
                match refusalAsValue? value with
                | some refusal => .error refusal
                | none =>
                    if project.isSome then .error (repeatedProject rest)
                    else runRequest (some value) rest
          else .ok (.run project (word :: rest))
      | .short letters =>
          if onlyHelp letters then .error (.help .run) else .ok (.run project (word :: rest))
      | .plain => .ok (.run project (word :: rest))

/-- What is wrong after a separator where a command has to stand. -/
def separatorRefusal (g : CommandGroup) : List String → Refusal
  | [] => .commandMissing
  | word :: _ => if (g.member? word).isSome then .argumentUnknown else .commandUnknown

/-- Reads the words below a topic. -/
def requestAt : Topic → List String → Except Refusal Request
  | .permission c, words => permissionRequest c words
  | .run, words => runRequest none words
  | .help g, words => (Topic.walk (.group g) words).bind fun t => .error (.help t)
  | .group _, [] => .error .commandMissing
  | .group g, word :: rest =>
      match Word.ofText word with
      | .separator => .error (separatorRefusal g rest)
      | .plain =>
          match g.member? word with
          | some t => requestAt t rest
          | none => .error .commandUnknown
      | word => .error (optionRefusal (.group g) word)

/-- Reads a command line without the name of the program. -/
def Request.ofWords (words : List String) : Except Refusal Request :=
  requestAt (.group .program) words

/-- What follows the separator is the command, whatever it looks like. -/
theorem runRequest_separator
    (project : Option String)
    {rest : List String}
    (h : rest ≠ []) :
    runRequest project ("--" :: rest) = .ok (.run project rest) := by
  have look : Word.ofText "--" = .separator := by decide
  simp [runRequest, look, h]

end CommandLine
end LifecycleTelemetry
