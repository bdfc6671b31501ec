import LifecycleTelemetry.Calendar.Moment
import LifecycleTelemetry.Json.Printer
import LifecycleTelemetry.Json.Reader

/-!
# The metrics record

What the metrics file remembers: whether the user allows reporting and since when, the identity of
the device, that of the user, and whatever other programs keep in the same file.

A record is written as one object with the fields that are known by name first and the others after
them. It is read all or nothing: a text that is not exactly such an object, a known field that occurs
twice or has a value of another kind, or a value anywhere that cannot be read, and the text is no
record at all. A null is as good as an absent field. Of the values of further fields inside the
permission only the syntax matters.
-/

namespace LifecycleTelemetry

open Calendar (Moment)
open Json (Document Fields Piece)

/-- Whether the user allows reporting, and the moment at which that last changed. -/
structure Permission where
  enabled : Bool
  date : Moment
deriving DecidableEq

/-- What the metrics file remembers. -/
structure MetricsRecord where
  permission : Option Permission
  deviceId : Option String
  userId : Option String
  extra : Fields
deriving DecidableEq

namespace Permission

/-- A permission as an object. -/
def json (p : Permission) : Json :=
  .object [("enabled", .bool p.enabled), ("date", .string p.date.text)]

/-- The only value of a key, if the key occurs once. -/
def only? (key : String) (entries : List (String × Document)) : Option Document :=
  match entries.filter fun entry => entry.1 == key with
  | [entry] => some entry.2
  | _ => none

/-- The permission that a truth value and a date are. -/
def ofParts? : Document → Document → Option Permission
  | .bool enabled, .text pieces => do
      return ⟨enabled, ← Moment.ofText? (← Piece.text? pieces)⟩
  | _, _ => none

/-- The keys of an object as texts, with what stands under them. -/
def keyed? (fields : List (List Piece × Document)) : Option (List (String × Document)) :=
  fields.mapM fun field => (Piece.text? field.1).map fun key => (key, field.2)

/-- The permission that a document is: an object with one truth value and one date, or just these two
in an array. -/
def ofDocument? : Document → Option Permission
  | .object fields => do
      let entries ← keyed? fields
      ofParts? (← only? "enabled" entries) (← only? "date" entries)
  | .array [enabled, date] => ofParts? enabled date
  | _ => none

end Permission

namespace MetricsRecord

/-- The record of a file that is not there. -/
def empty : MetricsRecord :=
  ⟨none, none, none, []⟩

/-- The fields of a record in the order in which they are written. -/
def members (r : MetricsRecord) : List (String × Json) :=
  (r.permission.map fun p => ("permission", p.json)).toList ++
    (r.deviceId.map fun s => ("deviceId", Json.string s)).toList ++
    (r.userId.map fun s => ("userId", Json.string s)).toList ++ r.extra

/-- The text of a record. -/
def text (r : MetricsRecord) : String :=
  (Json.object r.members).pretty

/-- What a field that may be absent or null holds; nothing at all when it cannot be read. -/
def optionally? {α : Type} (read : Document → Option α) : Document → Option (Option α)
  | .null => some none
  | d => (read d).map some

/-- The text that a document is. -/
def textOf? : Document → Option String
  | .text pieces => Piece.text? pieces
  | _ => none

/-- What a known field holds; nothing at all when it occurs twice or cannot be read. -/
def known? {α : Type} (read : Document → Option α) (key : String)
    (entries : List (String × Document)) : Option (Option α) :=
  match entries.filter fun entry => entry.1 == key with
  | [] => some none
  | [entry] => optionally? read entry.2
  | _ => none

/-- Whether a key is that of a known field. -/
def isKnown (key : String) : Bool :=
  key == "permission" || key == "deviceId" || key == "userId"

/-- The record that a document is. -/
def ofDocument? : Document → Option MetricsRecord
  | .object fields => do
      let entries ← Permission.keyed? fields
      let permission ← known? Permission.ofDocument? "permission" entries
      let deviceId ← known? textOf? "deviceId" entries
      let userId ← known? textOf? "userId" entries
      let others ← (entries.filter fun entry => !isKnown entry.1).mapM fun entry =>
        (entry.2.value? (Json.nestingLimit - 1)).map fun value => (entry.1, value)
      return ⟨permission, deviceId, userId, Fields.ofList others⟩
  | _ => none

/-- The record that a text is. -/
def ofText? (s : String) : Option MetricsRecord := do
  ofDocument? (← Document.ofText? s)

/-- Whether reporting is allowed: it is, as long as nobody has said otherwise. -/
def allowsReporting (r : MetricsRecord) : Bool :=
  match r.permission with
  | some p => p.enabled
  | none => true

end MetricsRecord
end LifecycleTelemetry
