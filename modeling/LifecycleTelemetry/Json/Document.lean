import LifecycleTelemetry.Json.Token

/-!
# Documents

A document is the syntax tree of a text before anything in it is given a meaning: the fields of an
object stand in the order of the text, a key may occur several times, and numerals and quoted texts
are kept as they are written. Building it puts no limit on nesting; the open brackets are kept on an
explicit stack.

`Document.ofTokens?` accepts exactly one value and nothing after it.
-/

namespace LifecycleTelemetry
namespace Json

/-- The syntax tree of a text. -/
inductive Document where
  | null
  | bool (b : Bool)
  | numeral (n : Numeral)
  | text (pieces : List Piece)
  | array (items : List Document)
  | object (fields : List (List Piece × Document))

namespace Document

/-- An open bracket: the items or fields before the place where the text stands, the last first,
and in an object the key whose value is being read. -/
inductive Frame where
  | array (before : List Document)
  | object (before : List (List Piece × Document)) (key : List Piece)

/-- What the text has to go on with: a value; the first item of an array or its end; the first
field of an object or its end; a further field; the colon after a key; or whatever may follow a
value that is complete. -/
inductive Expected where
  | value
  | firstItem
  | firstField
  | field (before : List (List Piece × Document))
  | colon (before : List (List Piece × Document)) (key : List Piece)
  | after (done : Document)

/-- The value that a lexeme is by itself. -/
def ofToken? : Token → Option Document
  | .null => some .null
  | .bool b => some (.bool b)
  | .numeral n => some (.numeral n)
  | .text pieces => some (.text pieces)
  | _ => none

/-- The state after a lexeme where a value has to start. -/
def begin? (stack : List Frame) : Token → Option (List Frame × Expected)
  | .openArray => some (.array [] :: stack, .firstItem)
  | .openObject => some (stack, .firstField)
  | token => (ofToken? token).map fun done => (stack, .after done)

/-- The state after one more lexeme, if it may stand there. -/
def step? (stack : List Frame) : Expected → Token → Option (List Frame × Expected)
  | .value, token => begin? stack token
  | .firstItem, .closeArray =>
      match stack with
      | .array before :: outer => some (outer, .after (.array before.reverse))
      | _ => none
  | .firstItem, token => begin? stack token
  | .firstField, .closeObject => some (stack, .after (.object []))
  | .firstField, .text key => some (stack, .colon [] key)
  | .firstField, _ => none
  | .field before, .text key => some (stack, .colon before key)
  | .field _, _ => none
  | .colon before key, .colon => some (.object before key :: stack, .value)
  | .colon _ _, _ => none
  | .after done, token =>
      match stack, token with
      | .array before :: outer, .comma => some (.array (done :: before) :: outer, .value)
      | .array before :: outer, .closeArray =>
          some (outer, .after (.array (done :: before).reverse))
      | .object before key :: outer, .comma => some (outer, .field ((key, done) :: before))
      | .object before key :: outer, .closeObject =>
          some (outer, .after (.object ((key, done) :: before).reverse))
      | _, _ => none

/-- Reads lexemes from a state to the end of the text, where one value must be complete. -/
def run? (stack : List Frame) (expected : Expected) : List Token → Option Document
  | [] =>
      match stack, expected with
      | [], .after done => some done
      | _, _ => none
  | token :: rest =>
      match step? stack expected token with
      | some (stack, expected) => run? stack expected rest
      | none => none

/-- The document that a list of lexemes is. -/
def ofTokens? (tokens : List Token) : Option Document :=
  run? [] .value tokens

/-- The document that a text is. -/
def ofText? (s : String) : Option Document := do
  ofTokens? (← Token.scan s.toList)

end Document
end Json
end LifecycleTelemetry
