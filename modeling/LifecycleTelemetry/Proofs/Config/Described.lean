import LifecycleTelemetry.Proofs.Config.Attempts
import LifecycleTelemetry.Proofs.Json.Meaning
import LifecycleTelemetry.Proofs.Json.Recognition

/-!
# What a metrics file says

Which contents of the metrics file say what, as a relation: a content that is the encoding of a text, the
text being written as an object, in which no known field occurs twice and each holds what it may hold, and
whose other fields all have values. Of a further field inside the permission no value is wanted.

The main result is `reads_whole`. If the content says something then just this is read, and otherwise the
record that is read is empty: nothing of a file is used unless all of it is.
-/

namespace LifecycleTelemetry

open Calendar (Moment)
open Json (Document Fields Piece)

/-- The keys of fields as texts, each with the document under it. -/
inductive Json.Document.Keyed : List (List Piece × Document) → List (String × Document) → Prop where
  | nil : Keyed [] []
  | cons {pieces : List Piece} {key : String} {d : Document}
      {fields : List (List Piece × Document)} {entries : List (String × Document)} :
      Piece.Denotes pieces key.toList → Keyed fields entries →
        Keyed ((pieces, d) :: fields) ((key, d) :: entries)

namespace Permission

/-- A truth value and a date, which are a permission. -/
inductive Parts : Document → Document → Permission → Prop where
  | mk {enabled : Bool} {pieces : List Piece} {s : String} {date : Moment} :
      Piece.Denotes pieces s.toList → Moment.ofText? s = some date →
        Parts (.bool enabled) (.text pieces) ⟨enabled, date⟩

/-- The permission that a document says: an object with one truth value and one date among whatever else,
or just these two in an array. -/
inductive Says : Document → Permission → Prop where
  | object {fields : List (List Piece × Document)} {entries : List (String × Document)}
      {enabled date : Document} {p : Permission} :
      Document.Keyed fields entries → Fields.Once entries "enabled" enabled →
        Fields.Once entries "date" date → Parts enabled date p → Says (.object fields) p
  | array {enabled date : Document} {p : Permission} :
      Parts enabled date p → Says (.array [enabled, date]) p

end Permission

namespace MetricsRecord

/-- What a field says that may be absent or null, and that occurs once if at all. -/
inductive Optional {α : Type} (Says : Document → α → Prop) (entries : List (String × Document))
    (key : String) : Option α → Prop where
  | absent : Fields.Absent entries key → Optional Says entries key none
  | null : Fields.Once entries key .null → Optional Says entries key none
  | present {d : Document} {a : α} :
      Fields.Once entries key d → Says d a → Optional Says entries key (some a)

/-- The values of all fields but the known ones. The object around them counts towards the limit. -/
inductive Others : List (String × Document) → Fields → Prop where
  | nil : Others [] []
  | known {key : String} {d : Document} {entries : List (String × Document)} {others : Fields} :
      key ∈ ["permission", "deviceId", "userId"] → Others entries others →
        Others ((key, d) :: entries) others
  | other {key : String} {d : Document} {v : Json} {entries : List (String × Document)}
      {others : Fields} :
      key ∉ ["permission", "deviceId", "userId"] → d.Denotes v → d.depth < Json.nestingLimit →
        Others entries others → Others ((key, d) :: entries) ((key, v) :: others)

/-- The record that a document says. -/
inductive Says : Document → MetricsRecord → Prop where
  | object {fields : List (List Piece × Document)} {entries : List (String × Document)}
      {others : Fields} {r : MetricsRecord} :
      Document.Keyed fields entries →
        Optional Permission.Says entries "permission" r.permission →
        Optional (fun d s => d.Denotes (.string s)) entries "deviceId" r.deviceId →
        Optional (fun d s => d.Denotes (.string s)) entries "userId" r.userId →
        Others entries others → Fields.Gather others r.extra → Says (.object fields) r

/-- The record that the bytes of a file say. -/
def SaidBy (bytes : List UInt8) (r : MetricsRecord) : Prop :=
  ∃ (text : String) (d : Document), text.toUTF8 = ⟨bytes.toArray⟩ ∧ d.Written text ∧ Says d r

end MetricsRecord

/-- Of a file either all is read, or nothing. -/
structure StoreState.ReadsWhole (s : StoreState) : Prop where
  all : ∀ (bytes : List UInt8) (r : MetricsRecord),
    s.file? = some (.ofBytes bytes) → r.SaidBy bytes → s.read.1 = r
  nothing : ∀ bytes : List UInt8,
    s.file? = some (.ofBytes bytes) → (∀ r : MetricsRecord, ¬r.SaidBy bytes) →
      s.read.1 = MetricsRecord.empty
  absent : s.file? = none → s.read.1 = MetricsRecord.empty

/-! ## Permissions -/

namespace Permission

theorem keyed?_eq_some_iff
    {fields : List (List Piece × Document)}
    {entries : List (String × Document)} :
    keyed? fields = some entries ↔ Document.Keyed fields entries := by
  induction fields generalizing entries with
  | nil =>
      constructor
      · intro h
        cases h
        exact .nil
      · rintro ⟨⟩
        rfl
  | cons field rest ih =>
      obtain ⟨pieces, d⟩ := field
      have hcons : keyed? ((pieces, d) :: rest) =
          (Piece.text? pieces).bind fun key => (keyed? rest).map ((key, d) :: ·) := by
        simp only [keyed?, List.mapM_cons]
        cases Piece.text? pieces with
        | none => rfl
        | some key =>
            cases rest.mapM fun field => (Piece.text? field.1).map fun key => (key, field.2) <;> rfl
      rw [hcons, Option.bind_eq_some_iff]
      constructor
      · rintro ⟨key, hkey, hmore⟩
        obtain ⟨more, hrest, rfl⟩ := Option.map_eq_some_iff.mp hmore
        exact .cons (Piece.text?_eq_some_iff.mp hkey) (ih.mp hrest)
      · intro h
        cases h with
        | cons hkey hrest =>
            exact ⟨_, Piece.text?_eq_some_iff.mpr hkey, by rw [ih.mpr hrest, Option.map_some]⟩

theorem only?_eq_some_iff
    {key : String}
    {entries : List (String × Document)}
    {d : Document} :
    only? key entries = some d ↔ Fields.Once entries key d := by
  rw [Fields.once_iff]
  unfold only?
  constructor
  · intro h
    split at h
    · next entry hentry =>
        cases h
        have hkey : entry.1 = key := by
          have hmem : entry ∈ entries.filter fun entry => entry.1 == key := by simp [hentry]
          simpa using (List.mem_filter.mp hmem).2
        rw [hentry, ← hkey]
    · cases h
  · intro h
    rw [h]

theorem ofParts?_eq_some_iff
    {enabled date : Document}
    {p : Permission} :
    ofParts? enabled date = some p ↔ Parts enabled date p := by
  constructor
  · intro h
    unfold ofParts? at h
    split at h
    · obtain ⟨s, hs, hmore⟩ := Option.bind_eq_some_iff.mp h
      obtain ⟨date, hmoment, hpure⟩ := Option.bind_eq_some_iff.mp hmore
      cases hpure
      exact .mk (Piece.text?_eq_some_iff.mp hs) hmoment
    · cases h
  · rintro ⟨hs, hmoment⟩
    simp [ofParts?, Piece.text?_eq_some_iff.mpr hs, hmoment]

/-- A permission is read just when a document says it. -/
theorem ofDocument?_eq_some_iff
    {d : Document}
    {p : Permission} :
    ofDocument? d = some p ↔ Says d p := by
  constructor
  · intro h
    unfold ofDocument? at h
    split at h
    · obtain ⟨entries, hentries, h⟩ := Option.bind_eq_some_iff.mp h
      obtain ⟨enabled, henabled, h⟩ := Option.bind_eq_some_iff.mp h
      obtain ⟨date, hdate, hparts⟩ := Option.bind_eq_some_iff.mp h
      exact .object (keyed?_eq_some_iff.mp hentries) (only?_eq_some_iff.mp henabled)
        (only?_eq_some_iff.mp hdate) (ofParts?_eq_some_iff.mp hparts)
    · exact .array (ofParts?_eq_some_iff.mp h)
    · cases h
  · rintro (⟨hentries, henabled, hdate, hparts⟩ | hparts)
    · simp [ofDocument?, keyed?_eq_some_iff.mpr hentries, only?_eq_some_iff.mpr henabled,
        only?_eq_some_iff.mpr hdate, ofParts?_eq_some_iff.mpr hparts]
    · exact ofParts?_eq_some_iff.mpr hparts

end Permission

/-! ## Records -/

namespace MetricsRecord

theorem textOf?_eq_some_iff
    {d : Document}
    {s : String} :
    textOf? d = some s ↔ d.Denotes (.string s) := by
  constructor
  · intro h
    unfold textOf? at h
    split at h
    · exact .text (Piece.text?_eq_some_iff.mp h)
    · cases h
  · intro h
    cases h with
    | text hs => exact Piece.text?_eq_some_iff.mpr hs

/-- A field that may be absent is read just when the entries say what it holds. -/
theorem known?_eq_some_iff
    {α : Type}
    {read : Document → Option α}
    {Says : Document → α → Prop}
    (hread : ∀ (d : Document) (a : α), read d = some a ↔ Says d a)
    (hnull : ∀ a : α, ¬Says .null a)
    {key : String}
    {entries : List (String × Document)}
    {found : Option α} :
    known? read key entries = some found ↔ Optional Says entries key found := by
  constructor
  · intro h
    unfold known? at h
    split at h
    · next hnone =>
        cases h
        exact .absent (Fields.absent_iff.mpr hnone)
    · next entry hentry =>
        have hkey : entry.1 = key := by
          have hmem : entry ∈ entries.filter fun entry => entry.1 == key := by simp [hentry]
          simpa using (List.mem_filter.mp hmem).2
        have honce : Fields.Once entries key entry.2 := Fields.once_iff.mpr (by rw [hentry, ← hkey])
        unfold optionally? at h
        split at h
        · next hvalue =>
            cases h
            exact .null (hvalue ▸ honce)
        · obtain ⟨a, ha, rfl⟩ := Option.map_eq_some_iff.mp h
          exact .present honce ((hread entry.2 a).mp ha)
    · cases h
  · intro h
    unfold known?
    cases h with
    | absent h => rw [Fields.absent_iff.mp h]
    | null h =>
        rw [Fields.once_iff.mp h]
        rfl
    | @present d a h ha =>
        have hvalue := (hread d a).mpr ha
        rw [Fields.once_iff.mp h]
        cases d with
        | null => exact absurd ha (hnull a)
        | _ => simp [optionally?, hvalue]

theorem isKnown_iff
    {key : String} :
    isKnown key = true ↔ key ∈ ["permission", "deviceId", "userId"] := by
  simp [isKnown, or_assoc]

/-- The other fields are read just when all of them have values. -/
theorem others_iff
    {entries : List (String × Document)}
    {others : Fields} :
    (entries.filter fun entry => !isKnown entry.1).mapM (fun entry =>
        (entry.2.value? (Json.nestingLimit - 1)).map fun value => (entry.1, value)) = some others
      ↔ Others entries others := by
  induction entries generalizing others with
  | nil =>
      constructor
      · intro h
        cases h
        exact .nil
      · rintro ⟨⟩
        rfl
  | cons entry rest ih =>
      obtain ⟨key, d⟩ := entry
      by_cases hkey : isKnown key = true
      · rw [List.filter_cons_of_neg (by simp [hkey]), ih]
        constructor
        · exact .known (isKnown_iff.mp hkey)
        · intro h
          cases h with
          | known _ hrest => exact hrest
          | other hforeign _ _ _ => exact absurd (isKnown_iff.mp hkey) hforeign
      · rw [List.filter_cons_of_pos (by simp [hkey]), List.mapM_cons]
        constructor
        · intro h
          obtain ⟨first, hfirst, h⟩ := Option.bind_eq_some_iff.mp h
          obtain ⟨more, hmore, h⟩ := Option.bind_eq_some_iff.mp h
          obtain ⟨v, hv, rfl⟩ := Option.map_eq_some_iff.mp hfirst
          cases h
          obtain ⟨hdenotes, hdepth⟩ := d.value?_eq_some_iff.mp hv
          exact .other (fun hmem => hkey (isKnown_iff.mpr hmem)) hdenotes
            (Nat.lt_of_le_of_lt hdepth (by decide)) (ih.mp hmore)
        · intro h
          cases h with
          | known hmem _ => exact absurd (isKnown_iff.mpr hmem) hkey
          | other _ hdenotes hdepth hrest =>
              have hv := d.value?_eq_some_iff.mpr ⟨hdenotes, Nat.le_sub_one_of_lt hdepth⟩
              have hmore := ih.mpr hrest
              simp [hv, hmore]

/-- A record is read just when a document says it. -/
theorem ofDocument?_eq_some_iff
    {d : Document}
    {r : MetricsRecord} :
    ofDocument? d = some r ↔ Says d r := by
  have hpermission := @known?_eq_some_iff _ Permission.ofDocument? Permission.Says
    (fun _ _ => Permission.ofDocument?_eq_some_iff) (fun _ h => nomatch h)
  have htext := @known?_eq_some_iff _ textOf? (fun d s => d.Denotes (.string s))
    (fun _ _ => textOf?_eq_some_iff) (fun _ h => nomatch h)
  constructor
  · intro h
    unfold ofDocument? at h
    split at h
    · obtain ⟨entries, hentries, h⟩ := Option.bind_eq_some_iff.mp h
      obtain ⟨permission, hp, h⟩ := Option.bind_eq_some_iff.mp h
      obtain ⟨deviceId, hdevice, h⟩ := Option.bind_eq_some_iff.mp h
      obtain ⟨userId, huser, h⟩ := Option.bind_eq_some_iff.mp h
      obtain ⟨others, hothers, h⟩ := Option.bind_eq_some_iff.mp h
      cases h
      exact .object (Permission.keyed?_eq_some_iff.mp hentries) (hpermission.mp hp)
        (htext.mp hdevice) (htext.mp huser) (others_iff.mp hothers) (Fields.gather_iff.mpr rfl)
    · cases h
  · rintro ⟨hentries, hp, hdevice, huser, hothers, hextra⟩
    have hread := others_iff.mpr hothers
    simp only [ofDocument?, Permission.keyed?_eq_some_iff.mpr hentries, hpermission.mpr hp,
      htext.mpr hdevice, htext.mpr huser, hread, Option.bind_eq_bind, Option.bind_some,
      ← Fields.gather_iff.mp hextra]
    rfl

theorem ofText?_eq_some_iff
    {text : String}
    {r : MetricsRecord} :
    ofText? text = some r ↔ ∃ d : Document, d.Written text ∧ Says d r := by
  simp [ofText?, Option.bind_eq_some_iff, Document.ofText?_eq_some_iff, ofDocument?_eq_some_iff]

end MetricsRecord

/-! ## Files -/

/-- Bytes are the content of a text just when they are its encoding. -/
theorem Content.ofBytes_eq_text_iff
    {bytes : List UInt8}
    {text : String} :
    Content.ofBytes bytes = .text text ↔ text.toUTF8 = ⟨bytes.toArray⟩ := by
  unfold ofBytes String.fromUTF8?
  constructor
  · intro h
    split at h
    · next s hs =>
        cases h
        obtain ⟨hvalid, hdecoded⟩ := Option.dite_none_right_eq_some.mp hs
        rw [← Option.some.inj hdecoded]
        rfl
    · cases h
  · intro h
    have hvalid : text.toUTF8.IsValidUTF8 := text.isValidUTF8
    rw [← h, dif_pos hvalid]
    rfl

namespace StoreState

theorem reading_iff
    {s : StoreState}
    {bytes : List UInt8}
    (h : s.file? = some (.ofBytes bytes))
    (r : MetricsRecord) :
    s.reading = .record r ↔ r.SaidBy bytes := by
  simp only [reading_eq_record_iff, h, Option.some.injEq, Content.ofBytes_eq_text_iff,
    MetricsRecord.ofText?_eq_some_iff, MetricsRecord.SaidBy, exists_and_left]

theorem orEmpty_of_forall_ne
    {found : Reading}
    (h : ∀ r : MetricsRecord, found ≠ .record r) :
    found.orEmpty = MetricsRecord.empty := by
  cases found with
  | record r => exact absurd rfl (h r)
  | _ => rfl

/-- What is read of a file is what all of it says, or the record is empty. -/
theorem reads_whole
    (s : StoreState) :
    s.ReadsWhole := by
  refine ⟨fun bytes r hfile hr => ?_, fun bytes hfile hnone => ?_, fun hfile => ?_⟩
  · rw [read_fst, (reading_iff hfile r).mpr hr]
    rfl
  · rw [read_fst]
    exact orEmpty_of_forall_ne fun r hr => hnone r ((reading_iff hfile r).mp hr)
  · rw [read_fst]
    refine orEmpty_of_forall_ne fun r hr => ?_
    obtain ⟨text, htext, -⟩ := reading_eq_record_iff.mp hr
    rw [hfile] at htext
    cases htext

end StoreState
end LifecycleTelemetry
