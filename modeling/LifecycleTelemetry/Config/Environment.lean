import LifecycleTelemetry.Text.Blank

/-!
# The environment of a process

Environment variables hold bytes. Most of them are text; one that is not counts as unset wherever a
text is wanted. The same holds of files, so that `Content` serves for both.
-/

namespace LifecycleTelemetry

/-- What a file or an environment variable holds: a text, or bytes that are not the encoding of
one. -/
inductive Content where
  | text (s : String)
  | undecodable (bytes : List UInt8)
deriving DecidableEq

namespace Content

/-- The content that a list of bytes is. -/
def ofBytes (bytes : List UInt8) : Content :=
  match String.fromUTF8? ⟨bytes.toArray⟩ with
  | some s => .text s
  | none => .undecodable bytes

/-- The bytes that a content is. -/
def bytes : Content → List UInt8
  | .text s => s.toUTF8.toList
  | .undecodable bytes => bytes

/-- The start of a content: so many bytes of it at most, and never all. -/
def cut (c : Content) (most : Nat) : Content :=
  ofBytes (c.bytes.dropLast.take most)

/-- The text that a content is. -/
def text? : Content → Option String
  | .text s => some s
  | .undecodable _ => none

end Content

/-- The variables that are set, each once. -/
abbrev Environment := List (String × Content)

namespace Environment

/-- What a variable holds, if it is set. -/
def get? (env : Environment) (name : String) : Option Content :=
  (env.find? fun entry => entry.1 == name).map (·.2)

/-- The environment with a variable unset. -/
def unset (env : Environment) (name : String) : Environment :=
  env.filter fun entry => entry.1 != name

/-- The environment with a variable set. -/
def set (env : Environment) (name : String) (value : Content) : Environment :=
  (name, value) :: unset env name

/-- The text of a variable, if it is set to one. -/
def text? (env : Environment) (name : String) : Option String :=
  (get? env name).bind Content.text?

/-- The text of a variable without the blanks around it, if anything is left of it. -/
def trimmed? (env : Environment) (name : String) : Option String :=
  (text? env name).bind fun s =>
    let trimmed := Text.trim s
    if trimmed.isEmpty then none else some trimmed

end Environment
end LifecycleTelemetry
