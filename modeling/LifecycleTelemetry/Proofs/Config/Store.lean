import LifecycleTelemetry.Config.Store
import LifecycleTelemetry.Proofs.Config.Reachable
import LifecycleTelemetry.Proofs.Config.Record

/-!
# Writing and reading the metrics file

A store is writable when every record can be written and is then what the file holds. One write is enough to
know it, if what is written there is kept; and so is a record that has been read, if writing does not break
off. After a write the store is writable still. What has been written is what the next one reads, but for
numbers.

`StoreState.Mirrors` says that a record at hand is what the file is good for. Each operation of the store
makes of it the record that it is meant to make, `StoreState.Leads` counting the writes and the
identifiers that this takes.
-/

namespace LifecycleTelemetry

/-! ## What operations make of a record -/

namespace MetricsRecord

/-- Whether a record has no identity of the device, or an empty one. -/
def lacksDeviceId (r : MetricsRecord) : Bool :=
  r.deviceId.all String.isEmpty

/-- How much of what a reporter needs is missing in a record. -/
def missing (r : MetricsRecord) : Nat :=
  r.lacksDeviceId.toNat + r.permission.isNone.toNat

/-- The record with an identity of the device, a fresh one if need be. -/
def identified (r : MetricsRecord) (fresh : String) : MetricsRecord :=
  if r.lacksDeviceId then { r with deviceId := some fresh } else r

/-- The record with a permission: where there is none, reporting is allowed from now on. -/
def permitted (r : MetricsRecord) (now : Calendar.Instant) : MetricsRecord :=
  if r.permission.isNone then { r with permission := some ⟨true, now⟩ } else r

/-- Whether the permission of a record says this. -/
def states (r : MetricsRecord) (enabled : Bool) : Bool :=
  r.permission.any fun p => p.enabled == enabled

/-- The record with a permission that says this, from now on if it has not said so before. -/
def decided (r : MetricsRecord) (enabled : Bool) (now : Calendar.Instant) : MetricsRecord :=
  if r.states enabled then r else { r with permission := some ⟨enabled, now⟩ }

section Record

variable {r : MetricsRecord} {enabled : Bool}

@[simp]
theorem permission_reread
    (r : MetricsRecord) :
    r.reread.permission = r.permission :=
  rfl

@[simp]
theorem deviceId_reread
    (r : MetricsRecord) :
    r.reread.deviceId = r.deviceId :=
  rfl

/-- An identity that is made takes nothing away. -/
theorem identified_frame
    (r : MetricsRecord)
    (fresh : String) :
    (r.identified fresh).permission = r.permission ∧ (r.identified fresh).userId = r.userId ∧
      (r.identified fresh).extra = r.extra := by
  unfold identified
  split
  · exact ⟨rfl, rfl, rfl⟩
  · exact ⟨rfl, rfl, rfl⟩

/-- Nor does a permission that is made. -/
theorem permitted_frame
    (r : MetricsRecord)
    (now : Calendar.Instant) :
    (r.permitted now).deviceId = r.deviceId ∧ (r.permitted now).userId = r.userId ∧
      (r.permitted now).extra = r.extra := by
  unfold permitted
  split
  · exact ⟨rfl, rfl, rfl⟩
  · exact ⟨rfl, rfl, rfl⟩

/-- Nor does a permission that is set. -/
theorem decided_frame
    (r : MetricsRecord)
    (enabled : Bool)
    (now : Calendar.Instant) :
    (r.decided enabled now).deviceId = r.deviceId ∧ (r.decided enabled now).userId = r.userId ∧
      (r.decided enabled now).extra = r.extra := by
  unfold decided
  split
  · exact ⟨rfl, rfl, rfl⟩
  · exact ⟨rfl, rfl, rfl⟩

theorem states_decided
    (r : MetricsRecord)
    (enabled : Bool)
    (now : Calendar.Instant) :
    (r.decided enabled now).states enabled = true := by
  unfold decided
  split
  · assumption
  · simp [states]

theorem states_iff :
    r.states enabled = true ↔ ∃ p : Permission, r.permission = some p ∧ p.enabled = enabled := by
  cases hp : r.permission <;> simp [states, hp]

/-- An identity that is not lacking is one that is not empty. -/
theorem exists_deviceId
    (h : r.lacksDeviceId = false) :
    ∃ id : String, r.deviceId = some id ∧ id.isEmpty = false := by
  cases hid : r.deviceId with
  | none => simp [lacksDeviceId, hid] at h
  | some id => exact ⟨id, rfl, by simpa [lacksDeviceId, hid] using h⟩

/-- A permission that is set is there, and says what was wanted. -/
theorem permission_decided
    (r : MetricsRecord)
    (enabled : Bool)
    (now : Calendar.Instant) :
    ∃ p : Permission, (r.decided enabled now).permission = some p ∧ p.enabled = enabled :=
  states_iff.mp (r.states_decided enabled now)

theorem storable_of_extra
    {other : MetricsRecord}
    (h : r.Storable)
    (hsettled : ∀ p ∈ other.permission, p.date.IsSettled)
    (hextra : other.extra = r.extra) :
    other.Storable :=
  ⟨hsettled, hextra ▸ h.foreign, hextra ▸ h.readable⟩

/-- What can be stored still can be with an identity. -/
theorem Storable.identified
    (h : r.Storable)
    (fresh : String) :
    (r.identified fresh).Storable := by
  obtain ⟨hpermission, -, hextra⟩ := r.identified_frame fresh
  exact storable_of_extra h (hpermission ▸ h.settled) hextra

/-- A permission that is made is dated by a clock. -/
theorem Storable.permitted
    (h : r.Storable)
    (now : Calendar.Instant) :
    (r.permitted now).Storable := by
  refine storable_of_extra h ?_ (r.permitted_frame now).2.2
  cases hp : r.permission with
  | some p => simpa [MetricsRecord.permitted, hp] using h.settled p hp
  | none => simpa [MetricsRecord.permitted, hp] using now.isSettled

/-- And so is one that is set. -/
theorem Storable.decided
    (h : r.Storable)
    (enabled : Bool)
    (now : Calendar.Instant) :
    (r.decided enabled now).Storable := by
  refine storable_of_extra h ?_ (r.decided_frame enabled now).2.2
  cases hstates : r.states enabled with
  | true => simpa [MetricsRecord.decided, hstates] using h.settled
  | false => simpa [MetricsRecord.decided, hstates] using now.isSettled

theorem identified_reread
    (r : MetricsRecord)
    (fresh : String) :
    (r.identified fresh).reread = r.reread.identified fresh := by
  unfold identified lacksDeviceId
  rw [deviceId_reread]
  split
  · rfl
  · rfl

theorem permitted_reread
    (r : MetricsRecord)
    (now : Calendar.Instant) :
    (r.permitted now).reread = r.reread.permitted now := by
  unfold permitted
  rw [permission_reread]
  split
  · rfl
  · rfl

theorem missing_congr
    {other : MetricsRecord}
    (hpermission : other.permission = r.permission)
    (hid : other.deviceId = r.deviceId) :
    other.missing = r.missing := by
  rw [missing, missing, lacksDeviceId, lacksDeviceId, hpermission, hid]

/-- Nothing is missing in a record in which everything has been made. -/
theorem missing_of_made
    {fresh : String}
    (h : fresh ≠ "")
    (r : MetricsRecord)
    (now : Calendar.Instant) :
    ((r.identified fresh).permitted now).missing = 0 := by
  have hidentified : (r.identified fresh).lacksDeviceId = false := by
    cases hlacks : r.lacksDeviceId with
    | true =>
        rw [identified, if_pos hlacks]
        simp [lacksDeviceId, h]
    | false => simp [identified, hlacks]
  have hpermitted : ((r.identified fresh).permitted now).permission.isNone = false := by
    cases hp : (r.identified fresh).permission with
    | none => simp [permitted, hp]
    | some p => simp [permitted, hp]
  rw [missing, lacksDeviceId, ((r.identified fresh).permitted_frame now).1, ← lacksDeviceId,
    hidentified, hpermitted]
  rfl

end Record

end MetricsRecord

/-! ## A machine that is shared -/

/-- A machine on which another tool has left its data in the metrics file. -/
def sharedHost : Host where
  files := FileTree.empty.put ["metrics.json"]
    (.file (.text "\x7b\"sibling\": [1, null], \"userId\": \"user\"\x7d"))
  environment := []
  accountHome := none
  now := .epoch
  platform := "platform"
  arch := "arch"
  identifier := fun n => if n = 0 then "first" else "later"
  drawn := 0
  log := []

/-- The record that the other tool has left. -/
def sharedRecord : MetricsRecord :=
  { MetricsRecord.empty with
    userId := some "user"
    extra := [("sibling", .array [.number (.integer (.clamp 1)), .null])] }

theorem reading_sharedHost :
    Reading.ofFile sharedHost.files "metrics.json" = .record sharedRecord := by
  decide +kernel

theorem identifier_sharedHost
    (n : Nat) :
    sharedHost.identifier n ≠ "" := by
  simp only [sharedHost]
  split
  · decide
  · decide

theorem integral_sharedRecord :
    (Json.object sharedRecord.extra).Integral := by
  simp [Json.Integral, sharedRecord, Json.Number.IsIntegral.integer]

namespace StoreState

variable {s t : StoreState} {r : MetricsRecord}

/-- Every record can be written, and is then what the file holds. -/
def Writable (s : StoreState) : Prop :=
  ∀ r : MetricsRecord, (s.write r).1 = .ok () ∧
    (s.write r).2.host.files.read s.store.path = .ok (.text r.text)

/-- Nothing is written in vain: what is written without an error is what the file then holds. It is not so
where the path leads to a device, or to a file that cannot be read. -/
def Faithful (s : StoreState) : Prop :=
  ∀ r : MetricsRecord, (s.write r).1 = .ok () →
    (s.write r).2.host.files.read s.store.path = .ok (.text r.text)

/-- Where records are written: in a tree with the directory of the file, at a location. -/
structure Site (s : StoreState) (files : FileTree) (location : List String) : Prop where
  made : s.makeParent = (files, .ok ())
  writable : files.readOnly = false
  whole : files.jam = none
  target : files.Target s.store.path location
  plain : files.Plain location

/-! ## Writing -/

theorem makeParent_congr
    (hfiles : t.host.files = s.host.files)
    (hpath : t.store.path = s.store.path) :
    t.makeParent = s.makeParent := by
  simp only [makeParent, hfiles, hpath]

theorem openFile_congr
    (hfiles : t.host.files = s.host.files)
    (hpath : t.store.path = s.store.path) :
    t.openFile = s.openFile := by
  simp only [openFile, makeParent_congr hfiles hpath, hpath]

/-- What comes of writing depends on the file, and not on who writes. -/
theorem write_congr
    (hfiles : t.host.files = s.host.files)
    (hpath : t.store.path = s.store.path)
    (r : MetricsRecord) :
    (t.write r).1 = (s.write r).1 ∧ (t.write r).2.host.files = (s.write r).2.host.files := by
  unfold write
  rw [openFile_congr hfiles hpath, hpath]
  split
  · exact ⟨rfl, rfl⟩
  · split
    · exact ⟨rfl, rfl⟩
    · exact ⟨rfl, rfl⟩

/-- The file is opened in the tree with its directory, at the place that its path leads to there. -/
theorem openFile_eq_ok_iff
    (s : StoreState)
    (files : FileTree)
    (location : List String) :
    s.openFile = (files, .ok location) ↔
      s.makeParent = (files, .ok ()) ∧ files.Target s.store.path location ∧
        (files.readOnly = false ∨ files.node? location = some .void) := by
  rw [← FileTree.openFile_eq_ok_iff]
  unfold openFile
  split
  · rename_i made e hparent
    simp [hparent]
  · rename_i made hparent
    rw [hparent]
    split
    · rename_i fault hfault
      constructor
      · intro h
        cases h
      · rintro ⟨h, hopen⟩
        cases h
        rw [hfault] at hopen
        cases hopen
    · rename_i found hfound
      constructor
      · intro h
        cases h
        exact ⟨rfl, hfound⟩
      · rintro ⟨h, hopen⟩
        cases h
        rw [hfound] at hopen
        cases hopen
        rfl

namespace Site

variable {files : FileTree} {location : List String}

theorem opened
    (h : s.Site files location) :
    s.openFile = (files, .ok location) :=
  (openFile_eq_ok_iff s files location).mpr ⟨h.made, h.target, .inl h.writable⟩

theorem congr
    (h : s.Site files location)
    (hfiles : t.host.files = s.host.files)
    (hpath : t.store.path = s.store.path) :
    t.Site files location :=
  { h with
    made := (makeParent_congr hfiles hpath).trans h.made
    target := hpath ▸ h.target }

/-- What writing a record does. -/
theorem write
    (h : s.Site files location)
    (r : MetricsRecord) :
    s.write r = (.ok (),
      StoreState.say
        { store := { s.store with writes := s.store.writes + 1 }
          host := { s.host with files := files.put location (.file (.text r.text)) } }
        .debug "metrics config written") := by
  unfold StoreState.write
  rw [h.opened]
  simp only [FileTree.fill_of_plain h.plain h.whole]

end Site

/-- A record that has been opened and filled in has been written. -/
theorem write_of_opened
    {files : FileTree}
    {location : List String}
    (h : s.openFile = (files, .ok location))
    (r : MetricsRecord) :
    (s.write r).1 = (files.fill location (.text r.text)).2.mapError (.write s.store.path) ∧
      (s.write r).2.host.files = (files.fill location (.text r.text)).1 := by
  unfold write
  rw [h]
  simp only
  split
  · rename_i hfilled
    rw [hfilled]
    exact ⟨rfl, rfl⟩
  · rename_i hfilled
    rw [hfilled]
    exact ⟨rfl, rfl⟩

/-- What is written without an error, and to a file, has not broken off. -/
theorem whole_of_write
    {files : FileTree}
    {location : List String}
    (hopened : s.openFile = (files, .ok location))
    (hvoid : files.node? location ≠ some .void)
    (hok : (s.write r).1 = .ok ()) :
    files.jam = none := by
  have hresult := (write_of_opened hopened r).1
  cases hjam : files.jam with
  | none => rfl
  | some jam =>
      rw [FileTree.fill_of_jammed hvoid hjam, hok] at hresult
      cases hresult

/-- What is written without an error has found a file that could be opened. -/
theorem opened_of_write
    (h : (s.write r).1 = .ok ()) :
    ∃ (files : FileTree) (location : List String), s.openFile = (files, .ok location) := by
  cases hopened : s.openFile with
  | mk files result =>
      cases result with
      | ok location => exact ⟨files, location, rfl⟩
      | error e =>
          rw [write, hopened] at h
          cases h

theorem text_ne_empty
    (r : MetricsRecord) :
    r.text ≠ "" := by
  intro h
  have hchars : r.text.toList = [] := by rw [h]; rfl
  unfold MetricsRecord.text Json.pretty at hchars
  rw [String.toList_ofList] at hchars
  cases hmembers : r.members with
  | nil =>
      rw [hmembers] at hchars
      cases hchars
  | cons field rest =>
      rw [hmembers] at hchars
      cases hchars

/-- A record that is written and kept shows where all records are written. -/
theorem exists_site
    (hok : (s.write r).1 = .ok ())
    (hkept : (s.write r).2.host.files.read s.store.path = .ok (.text r.text)) :
    ∃ (files : FileTree) (location : List String), s.Site files location := by
  obtain ⟨files, location, hopened⟩ := opened_of_write hok
  obtain ⟨hmade, htarget, hwritable⟩ := (openFile_eq_ok_iff s files location).mp hopened
  rw [(write_of_opened hopened r).2] at hkept
  have hvoid : files.node? location ≠ some .void := by
    intro hvoid
    have hsame : (files.fill location (.text r.text)).1 = files := by
      rw [FileTree.fill, hvoid]
    have hlocate := htarget.locate (by simp [hvoid])
    rw [hsame, FileTree.read, hlocate] at hkept
    simp only [bind, Except.bind, hvoid, Except.ok.injEq, Content.text.injEq] at hkept
    exact text_ne_empty r hkept.symm
  have hwhole : files.jam = none := whole_of_write hopened hvoid hok
  have hsealed : ∀ content : Content, files.node? location ≠ some (.sealed content) := by
    intro content hsealed
    have hput : (files.fill location (.text r.text)).1
        = files.put location (.sealed (.text r.text)) := by
      rw [FileTree.fill, hsealed]
      simp only [FileTree.fill.keep, hwhole]
    have hnode := htarget.node?_put (.sealed (.text r.text))
    have hthere : (files.put location (.sealed (.text r.text))).Target s.store.path location :=
      htarget.put (by simp)
    have hlocate := hthere.locate (by simp [hnode])
    rw [hput, FileTree.read, hlocate] at hkept
    simp only [bind, Except.bind, hnode] at hkept
    cases hkept
  exact ⟨files, location, hmade, hwritable.resolve_right hvoid, hwhole, htarget, hvoid, hsealed⟩

/-- A store is writable where there is a site for its records. -/
theorem writable_iff :
    s.Writable ↔ ∃ (files : FileTree) (location : List String), s.Site files location := by
  constructor
  · exact fun h => exists_site (h .empty).1 (h .empty).2
  · rintro ⟨files, location, h⟩ r
    rw [h.write r]
    exact ⟨rfl, h.target.read _⟩

/-- One write that is kept shows that all are. -/
theorem writable_of_kept
    (hok : (s.write r).1 = .ok ())
    (hkept : (s.write r).2.host.files.read s.store.path = .ok (.text r.text)) :
    s.Writable :=
  writable_iff.mpr (exists_site hok hkept)

theorem Faithful.writable
    (h : s.Faithful)
    (hok : (s.write r).1 = .ok ()) :
    s.Writable :=
  writable_of_kept hok (h r hok)

theorem Writable.faithful
    (h : s.Writable) :
    s.Faithful :=
  fun r _ => (h r).2

theorem Faithful.congr
    (h : s.Faithful)
    (hfiles : t.host.files = s.host.files)
    (hpath : t.store.path = s.store.path) :
    t.Faithful := by
  intro r hok
  obtain ⟨hresult, hwritten⟩ := write_congr hfiles hpath r
  rw [hwritten, hpath]
  exact h r (hresult ▸ hok)

theorem Writable.congr
    (h : s.Writable)
    (hfiles : t.host.files = s.host.files)
    (hpath : t.store.path = s.store.path) :
    t.Writable := by
  obtain ⟨files, location, hsite⟩ := writable_iff.mp h
  exact writable_iff.mpr ⟨files, location, hsite.congr hfiles hpath⟩

/-- The directory of the metrics file, once it has been made, stays there. -/
theorem makeParent_of_extends
    {files u : FileTree}
    (hparent : s.makeParent = (files, .ok ()))
    (hgrown : files.Extends u)
    (hpath : t.store.path = s.store.path)
    (hfiles : t.host.files = u) :
    t.makeParent = (u, .ok ()) := by
  unfold makeParent at hparent ⊢
  rw [hpath, hfiles]
  split
  · rfl
  rename_i parent hsome
  rw [hsome] at hparent
  simp only at hparent
  split
  · rfl
  rename_i hempty
  rw [if_neg hempty] at hparent
  split at hparent
  · rename_i made hmade
    cases hparent
    have hdirectory := FileTree.isDirectory_of_makeDirectories (by simpa using hempty) hmade
    rw [FileTree.makeDirectories_of_isDirectory (hgrown.isDirectory hdirectory)]
  · cases hparent

/-- A store that has been written can be written again. -/
theorem Writable.write
    (h : s.Writable)
    (r : MetricsRecord) :
    (s.write r).2.Writable := by
  obtain ⟨files, location, hsite⟩ := writable_iff.mp h
  rw [hsite.write r]
  have hnode := hsite.target.node?_put (.file (.text r.text))
  exact writable_iff.mpr ⟨_, location,
    { made := makeParent_of_extends hsite.made (hsite.target.extends_put _) rfl rfl
      writable := hsite.writable
      whole := hsite.whole
      target := hsite.target.put (by simp)
      plain := ⟨by simp [hnode], by simp [hnode]⟩ }⟩

/-- What has been written is read again. -/
theorem Writable.reading_write
    (h : s.Writable)
    (hstorable : r.Storable) :
    (s.write r).2.reading = .record r.reread := by
  have hpath : (s.write r).2.store.path = s.store.path := by
    obtain ⟨files, location, hsite⟩ := writable_iff.mp h
    rw [hsite.write r]
    rfl
  have htext : (s.write r).2.host.files.readText s.store.path = .ok r.text := by
    rw [FileTree.readText, (h r).2]
    rfl
  rw [reading, hpath]
  simp only [Reading.ofFile, htext, MetricsRecord.ofText?_text hstorable]

/-- Nothing is complained about that has been written. -/
theorem keep_of_written
    (h : (s.write r).1 = .ok ())
    (complaint : String) :
    s.keep r complaint = (s.write r).2 := by
  unfold keep
  cases hwrite : s.write r with
  | mk result after =>
      rw [hwrite] at h
      cases h
      rfl

/-! ## Reading -/

/-- Whatever the file is good for can be stored. -/
theorem storable_orEmpty
    (s : StoreState) :
    s.reading.orEmpty.Storable := by
  unfold reading Reading.ofFile
  split
  · split
    · exact MetricsRecord.storable_of_ofText? ‹_›
    · exact MetricsRecord.storable_empty
  · split
    · exact MetricsRecord.storable_empty
    · exact MetricsRecord.storable_empty

/-- Where there is a file, its directory is there too. -/
theorem makeParent_of_read
    {content : Content}
    (h : s.host.files.read s.store.path = .ok content) :
    s.makeParent = (s.host.files, .ok ()) := by
  obtain ⟨location, hlocate, hnode⟩ := FileTree.locate_of_read h
  have hfile : s.host.files.node? location ≠ some .directory := by
    rcases hnode with hfile | ⟨hvoid, -⟩
    · simp [hfile]
    · simp [hvoid]
  have htarget := FileTree.target_of_locate hlocate hfile
  unfold makeParent
  split
  · rfl
  rename_i parent hsome
  split
  · rfl
  rename_i hempty
  have hdirectory := FileTree.isDirectory_of_parent? htarget hsome (by simpa using hempty)
  rw [FileTree.makeDirectories_of_isDirectory hdirectory]

/-- A file that is there can be opened, unless the tree can only be read. -/
theorem opened_of_read
    {content : Content}
    (hopen : s.host.files.readOnly = false)
    (h : s.host.files.read s.store.path = .ok content) :
    ∃ location : List String, s.openFile = (s.host.files, .ok location) := by
  obtain ⟨location, hlocate, hnode⟩ := FileTree.locate_of_read h
  have hfile : s.host.files.node? location ≠ some .directory := by
    rcases hnode with hfile | ⟨hvoid, -⟩
    · simp [hfile]
    · simp [hvoid]
  exact ⟨location, (openFile_eq_ok_iff s _ _).mpr
    ⟨makeParent_of_read h, FileTree.target_of_locate hlocate hfile, .inl hopen⟩⟩

theorem read_of_reading
    (h : s.reading = .record r) :
    ∃ text : String, s.host.files.read s.store.path = .ok (.text text) ∧
      MetricsRecord.ofText? text = some r := by
  unfold reading Reading.ofFile FileTree.readText at h
  cases hcontent : s.host.files.read s.store.path with
  | error fault =>
      simp only [hcontent, bind, Except.bind] at h
      split at h
      · cases h
      · cases h
  | ok content =>
      simp only [hcontent, bind, Except.bind] at h
      cases content with
      | undecodable bytes =>
          simp only at h
          split at h
          · cases h
          · cases h
      | text text =>
          simp only at h
          split at h
          · cases h
            exact ⟨text, rfl, ‹_›⟩
          · cases h

/-- What a device gives is no record. -/
theorem node?_of_reading
    (h : s.reading = .record r) :
    ∃ (location : List String) (text : String), s.host.files.locate s.store.path = .ok location ∧
      s.host.files.node? location = some (.file (.text text)) := by
  obtain ⟨text, hread, hrecord⟩ := read_of_reading h
  obtain ⟨location, hlocate, hfile | ⟨-, hempty⟩⟩ := FileTree.locate_of_read hread
  · exact ⟨location, text, hlocate, hfile⟩
  · cases hempty
    have hnone : MetricsRecord.ofText? "" = none := by decide +kernel
    rw [hnone] at hrecord
    cases hrecord

/-- A record that has been read can be written over, unless the tree can only be read or writing breaks
off. -/
theorem writable_of_reading
    (hopen : s.host.files.readOnly = false)
    (hwhole : s.host.files.jam = none)
    (h : s.reading = .record r) :
    s.Writable := by
  obtain ⟨text, hread, -⟩ := read_of_reading h
  obtain ⟨location, found, hlocate, hfile⟩ := node?_of_reading h
  exact writable_iff.mpr ⟨_, location,
    { made := makeParent_of_read hread
      writable := hopen
      whole := hwhole
      target := FileTree.target_of_locate hlocate (by simp [hfile])
      plain := ⟨by simp [hfile], by simp [hfile]⟩ }⟩

theorem writable_sharedHost :
    Writable ⟨.new "metrics.json", sharedHost⟩ :=
  writable_of_reading rfl rfl reading_sharedHost

theorem reading_congr
    (hfiles : t.host.files = s.host.files)
    (hpath : t.store.path = s.store.path) :
    t.reading = s.reading := by
  rw [reading, hfiles, hpath]
  rfl

/-! ## Steps -/

/-- One state comes from another by a number of writes and of identifiers drawn. Where the file is and
what the machine is like stays as it is, and so do the files unless they are written; then there is a
record in the file. -/
structure Leads (s t : StoreState) (writes draws : Nat) : Prop where
  path : t.store.path = s.store.path
  environment : t.host.environment = s.host.environment
  now : t.host.now = s.host.now
  identifier : t.host.identifier = s.host.identifier
  written : t.store.writes = s.store.writes + writes
  drawn : t.host.drawn = s.host.drawn + draws
  files : writes = 0 → t.host.files = s.host.files
  record : writes ≠ 0 → ∃ r : MetricsRecord, t.reading = .record r

namespace Leads

variable {u : StoreState} {writes draws moreWrites moreDraws : Nat}

theorem refl
    (s : StoreState) :
    s.Leads s 0 0 where
  path := rfl
  environment := rfl
  now := rfl
  identifier := rfl
  written := rfl
  drawn := rfl
  files := fun _ => rfl
  record := fun h => absurd rfl h

theorem trans
    (h₁ : s.Leads t writes draws)
    (h₂ : t.Leads u moreWrites moreDraws) :
    s.Leads u (writes + moreWrites) (draws + moreDraws) where
  path := h₂.path.trans h₁.path
  environment := h₂.environment.trans h₁.environment
  now := h₂.now.trans h₁.now
  identifier := h₂.identifier.trans h₁.identifier
  written := by
    rw [h₂.written, h₁.written]
    omega
  drawn := by
    rw [h₂.drawn, h₁.drawn]
    omega
  files := fun hnone => (h₂.files (by omega)).trans (h₁.files (by omega))
  record := fun hsome => by
    rcases Nat.eq_zero_or_pos moreWrites with hlater | hlater
    · obtain ⟨r, hr⟩ := h₁.record (by omega)
      exact ⟨r, (reading_congr (h₂.files hlater) h₂.path).trans hr⟩
    · exact h₂.record (by omega)

/-- A file in which there is a record never ceases to hold one. -/
theorem isRecord
    (h : s.Leads t writes draws)
    (hrecord : ∃ r : MetricsRecord, s.reading = .record r) :
    ∃ r : MetricsRecord, t.reading = .record r := by
  rcases Nat.eq_zero_or_pos writes with hnone | hsome
  · rw [reading_congr (h.files hnone) h.path]
    exact hrecord
  · exact h.record (Nat.pos_iff_ne_zero.mp hsome)

end Leads

theorem leads_read
    (s : StoreState) :
    s.Leads s.read.2 0 0 := by
  unfold read
  split
  · exact .refl s
  · exact { Leads.refl s with }
  · exact { Leads.refl s with }
  · exact .refl s

theorem leads_write
    (h : s.Writable)
    (hstorable : r.Storable) :
    s.Leads (s.write r).2 1 0 := by
  have hreading := h.reading_write hstorable
  obtain ⟨files, location, hsite⟩ := writable_iff.mp h
  rw [hsite.write r] at hreading ⊢
  exact
    { path := rfl
      environment := rfl
      now := rfl
      identifier := rfl
      written := rfl
      drawn := rfl
      files := fun h => absurd h (by decide)
      record := fun _ => ⟨_, hreading⟩ }

/-! ## The round trip -/

/-- Whoever reads the file next, by whatever store and in whatever environment, is given this record. -/
def Holds (files : FileTree) (path : String) (r : MetricsRecord) : Prop :=
  ∀ t : StoreState, t.host.files = files → t.store.path = path →
    t.reading = .record r ∧ t.read.1 = r

/-- A record without other numbers than integers is read as it has been written. -/
theorem holds_of_write
    (hfaithful : s.Faithful)
    (hstorable : r.Storable)
    (hintegral : (Json.object r.extra).Integral)
    (hwritten : (s.write r).1 = .ok ()) :
    Holds (s.write r).2.host.files s.store.path r := by
  have hwritable := hfaithful.writable hwritten
  have hreading := hwritable.reading_write hstorable
  rw [MetricsRecord.reread_of_integral hintegral] at hreading
  intro t hfiles hpath
  have hsame : t.reading = .record r := by
    rw [reading_congr hfiles (hpath.trans (leads_write hwritable hstorable).path.symm)]
    exact hreading
  refine ⟨hsame, ?_⟩
  rw [read_fst, hsame]
  rfl

/-- Where nothing is written in vain, a record that has been written is read as it is, to the nanosecond and
to the last character, if its date is settled, its further fields are none of the known ones, its objects
have each key once, its numbers are integers, and the reader follows its brackets: it gives up at the 128th
that is open. And whatever a file is read as, it is read as once more when that has been written, if its
numbers are integers. -/
theorem holds_of_write_of_integral
    {s : StoreState}
    (hfaithful : s.Faithful) :
    (∀ r : MetricsRecord,
      (∀ p ∈ r.permission, p.date.IsSettled) →
      (∀ field ∈ r.extra, MetricsRecord.isKnown field.1 = false) →
      (Json.object r.extra).Ordered →
      (Json.object r.extra).nesting ≤ Json.nestingLimit →
      (Json.object r.extra).Integral →
      (s.write r).1 = .ok () →
        Holds (s.write r).2.host.files s.store.path r) ∧
      ((Json.object s.read.1.extra).Integral →
        (s.read.2.write s.read.1).1 = .ok () →
          Holds (s.read.2.write s.read.1).2.host.files s.store.path s.read.1) := by
  refine ⟨fun r hsettled hforeign hordered hnesting hintegral => ?_, fun hintegral hwritten => ?_⟩
  · exact holds_of_write hfaithful
      (MetricsRecord.storable_of_integral hsettled hforeign hnesting hordered hintegral) hintegral
  · have hstorable : s.read.1.Storable := by
      rw [read_fst]
      exact s.storable_orEmpty
    have hstep := s.leads_read
    rw [← hstep.path]
    exact holds_of_write (hfaithful.congr (hstep.files rfl) hstep.path) hstorable hintegral hwritten

/-- For instance, a record with the extreme integers, an empty key and a moment in a sixty-first second,
and what another tool has left. -/
theorem holds_of_write_sharedHost :
    let s : StoreState := ⟨.new "metrics.json", sharedHost⟩
    let date : Calendar.Moment :=
      ⟨.epoch, 23, 59, 59, 1999999999, by decide, by decide, by decide, by decide⟩
    let r : MetricsRecord :=
      { permission := some ⟨false, date⟩
        deviceId := some ""
        userId := none
        extra := [("list", .array [.number (.integer (.clamp (-9223372036854775808))),
          .number (.integer (.clamp 18446744073709551615)),
          .object [("", .string "\x00\"\\\u2028")]])] }
    s.Faithful ∧ Holds (s.write r).2.host.files "metrics.json" r ∧
      Holds (s.read.2.write sharedRecord).2.host.files "metrics.json" sharedRecord := by
  intro s date r
  have hread : s.read.1 = sharedRecord := by
    rw [read_fst]
    exact congrArg Reading.orEmpty reading_sharedHost
  have hfaithful : s.Faithful := writable_sharedHost.faithful
  obtain ⟨hany, hagain⟩ := holds_of_write_of_integral hfaithful
  rw [hread] at hagain
  refine ⟨hfaithful, hany r ?_ (by decide) ?_ (by decide) ?_ (writable_sharedHost r).1, hagain ?_ ?_⟩
  · simp [r, Calendar.Moment.IsSettled, date]
  · simp [Json.Ordered, r, Json.Fields.Sorted]
  · simp [Json.Integral, r, Json.Number.IsIntegral.integer]
  · exact integral_sharedRecord
  · exact (writable_sharedHost.congr (s.leads_read.files rfl) s.leads_read.path sharedRecord).1

/-- A record with a second that has lasted longer, but not in the end of a minute, is written without an
error and read with the next second. And what is written to a device, or to a file that cannot be read, is
not read at all. -/
theorem written_unheld :
    let s : StoreState := ⟨.new "metrics.json", sharedHost⟩
    let date : Calendar.Moment :=
      ⟨.epoch, 12, 30, 4, 1333333333, by decide, by decide, by decide, by decide⟩
    let r : MetricsRecord := { MetricsRecord.empty with permission := some ⟨true, date⟩ }
    let on (node : FileNode) : StoreState :=
      ⟨.new "metrics.json", { sharedHost with files := FileTree.empty.put ["metrics.json"] node }⟩
    let device := on .void
    let closed := on (.sealed (.text ""))
    ((s.write r).1 = .ok () ∧ ¬Holds (s.write r).2.host.files "metrics.json" r) ∧
      ((device.write sharedRecord).1 = .ok () ∧
        ¬Holds (device.write sharedRecord).2.host.files "metrics.json" sharedRecord) ∧
        ((closed.write sharedRecord).1 = .ok () ∧
          ¬Holds (closed.write sharedRecord).2.host.files "metrics.json" sharedRecord) := by
  intro s date r on device closed
  refine ⟨⟨by decide +kernel, fun h => ?_⟩, ⟨by decide +kernel, fun h => ?_⟩,
    ⟨by decide +kernel, fun h => ?_⟩⟩
  · have hread : (s.write r).2.read.1 ≠ r := by decide +kernel
    exact hread (h _ rfl (by decide +kernel)).2
  · have hread : (device.write sharedRecord).2.read.1 ≠ sharedRecord := by decide +kernel
    exact hread (h _ rfl (by decide +kernel)).2
  · have hread : (closed.write sharedRecord).2.read.1 ≠ sharedRecord := by decide +kernel
    exact hread (h _ rfl (by decide +kernel)).2

/-! ## The record at hand -/

/-- The store is writable, and the record can be stored and is what the file is good for, but for the
numbers in it. -/
structure Mirrors (s : StoreState) (r : MetricsRecord) : Prop where
  writable : s.Writable
  storable : r.Storable
  reading : s.reading.orEmpty = r ∨ s.reading.orEmpty = r.reread

/-- What the file is good for is mirrored by itself. -/
theorem Writable.mirrors
    (h : s.Writable) :
    s.Mirrors s.reading.orEmpty :=
  ⟨h, s.storable_orEmpty, Or.inl rfl⟩

theorem Mirrors.congr
    (h : s.Mirrors r)
    (hfiles : t.host.files = s.host.files)
    (hpath : t.store.path = s.store.path) :
    t.Mirrors r := by
  refine ⟨h.writable.congr hfiles hpath, h.storable, ?_⟩
  rw [reading_congr hfiles hpath]
  exact h.reading

/-- But for numbers, the record at hand is what the file is good for. -/
theorem Mirrors.fields
    (h : s.Mirrors r) :
    s.reading.orEmpty.permission = r.permission ∧ s.reading.orEmpty.deviceId = r.deviceId ∧
      s.reading.orEmpty.userId = r.userId := by
  rcases h.reading with hsame | hagain
  · rw [hsame]
    exact ⟨rfl, rfl, rfl⟩
  · rw [hagain]
    exact ⟨rfl, rfl, rfl⟩

theorem mirrors_write
    (h : s.Writable)
    (hstorable : r.Storable) :
    (s.write r).2.Mirrors r ∧ (s.write r).2.Mirrors r.reread := by
  have hreading : (s.write r).2.reading.orEmpty = r.reread := by
    rw [h.reading_write hstorable]
    rfl
  exact ⟨⟨h.write r, hstorable, Or.inr hreading⟩, ⟨h.write r, hstorable.reread, Or.inl hreading⟩⟩

/-- What is made of a record at hand and written is what is made of the record in the file. -/
theorem Mirrors.write
    (h : s.Mirrors r)
    (change : MetricsRecord → MetricsRecord)
    (hstorable : (change r).Storable)
    (hagain : (change r).reread = change r.reread)
    (hfiles : t.host.files = s.host.files)
    (hpath : t.store.path = s.store.path) :
    (t.write (change r)).2.Mirrors (change r) ∧
      (t.write (change r)).2.Mirrors (change s.reading.orEmpty) ∧
        t.Leads (t.write (change r)).2 1 0 := by
  have hwritable := h.writable.congr hfiles hpath
  obtain ⟨hheld, hfile⟩ := mirrors_write hwritable hstorable
  refine ⟨hheld, ?_, leads_write hwritable hstorable⟩
  rcases h.reading with hsame | hreread
  · rw [hsame]
    exact hheld
  · rw [hreread, ← hagain]
    exact hfile

/-! ## What operations do -/

/-- An identity that the record has is the answer. -/
theorem deviceId_of_held
    {id : String}
    (s : StoreState)
    (h : r.deviceId = some id)
    (hid : id.isEmpty = false) :
    s.deviceId r = (id, r, s) := by
  simp [StoreState.deviceId, h, hid]

/-- One that it lacks is made and written. -/
theorem deviceId_of_lacking
    (s : StoreState)
    (h : r.lacksDeviceId = true) :
    s.deviceId r = (s.host.draw.1, r.identified s.host.draw.1,
      StoreState.keep ⟨s.store, s.host.draw.2⟩ (r.identified s.host.draw.1)
        "failed to persist device id") := by
  have hmade : r.identified s.host.draw.1 = { r with deviceId := some s.host.draw.1 } := by
    simp [MetricsRecord.identified, h]
  rw [hmade]
  unfold StoreState.deviceId
  cases hid : r.deviceId with
  | none => rfl
  | some id =>
      have hempty : id.isEmpty = true := by simpa [MetricsRecord.lacksDeviceId, hid] using h
      simp only [hempty, if_true]

/-- A permission that the record has is the answer. -/
theorem permission_of_held
    {p : Permission}
    (s : StoreState)
    (h : r.permission = some p) :
    s.permission r = (p, r, s) := by
  simp [StoreState.permission, h]

/-- One that it lacks is made and written. -/
theorem permission_of_lacking
    (s : StoreState)
    (h : r.permission = none) :
    s.permission r = (⟨true, s.host.now⟩, r.permitted s.host.now,
      s.keep (r.permitted s.host.now) "failed to persist default telemetry permission") := by
  simp [StoreState.permission, MetricsRecord.permitted, h]

/-- Nothing is written of a permission that the file has already. -/
theorem setPermission_of_states
    {enabled : Bool}
    (h : s.reading.orEmpty.states enabled = true) :
    s.setPermission enabled = (.ok false, s.read.2) := by
  obtain ⟨p, hp, hsame⟩ := MetricsRecord.states_iff.mp h
  unfold StoreState.setPermission
  simp only [read_fst, hp, hsame, if_true]

/-- Another one is written, beside what is in the file. -/
theorem setPermission_of_other
    {enabled : Bool}
    (h : s.reading.orEmpty.states enabled = false) :
    s.setPermission enabled =
      ((s.read.2.write (s.reading.orEmpty.decided enabled s.host.now)).1.map fun _ => true,
        (s.read.2.write (s.reading.orEmpty.decided enabled s.host.now)).2) := by
  have hmade : s.reading.orEmpty.decided enabled s.host.now
      = { s.reading.orEmpty with permission := some ⟨enabled, s.read.2.host.now⟩ } := by
    simp [MetricsRecord.decided, h, s.leads_read.now]
  have hchange : s.setPermission enabled
      = setPermission.change enabled s.read.2 s.reading.orEmpty := by
    unfold StoreState.setPermission
    simp only [read_fst]
    cases hp : s.reading.orEmpty.permission with
    | none => rfl
    | some p =>
        have hother : ¬p.enabled = enabled := by simpa [MetricsRecord.states, hp] using h
        simp only [hother, if_false]
  rw [hchange, hmade, setPermission.change]
  split <;> rename_i hwrite <;> rw [hwrite] <;> rfl

/-- Asking for the identity of the device makes one if the record lacks it. -/
theorem Mirrors.deviceId
    (h : s.Mirrors r) :
    (s.deviceId r).2.1 = r.identified s.host.draw.1 ∧
      (r.identified s.host.draw.1).deviceId = some (s.deviceId r).1 ∧
        (s.deviceId r).2.2.Mirrors (r.identified s.host.draw.1) ∧
          (s.deviceId r).2.2.Mirrors (s.reading.orEmpty.identified s.host.draw.1) ∧
            s.Leads (s.deviceId r).2.2 r.lacksDeviceId.toNat r.lacksDeviceId.toNat := by
  cases hlacks : r.lacksDeviceId with
  | false =>
      obtain ⟨id, hid, hempty⟩ := MetricsRecord.exists_deviceId hlacks
      have hfile : s.reading.orEmpty.lacksDeviceId = false := by
        rw [MetricsRecord.lacksDeviceId, h.fields.2.1]
        exact hlacks
      rw [s.deviceId_of_held hid hempty, MetricsRecord.identified, MetricsRecord.identified, hlacks,
        hfile]
      exact ⟨rfl, hid, h, h.writable.mirrors, .refl s⟩
  | true =>
      let drawn : StoreState := ⟨s.store, s.host.draw.2⟩
      have hwritable : drawn.Writable := h.writable.congr rfl rfl
      have hdraw : s.Leads drawn 0 1 := { Leads.refl s with drawn := rfl }
      obtain ⟨hheld, hfile, hwrite⟩ := h.write (t := drawn) (·.identified s.host.draw.1)
        (h.storable.identified s.host.draw.1) (r.identified_reread s.host.draw.1) rfl rfl
      rw [s.deviceId_of_lacking hlacks, keep_of_written (hwritable _).1]
      exact ⟨rfl, by simp [MetricsRecord.identified, hlacks], hheld, hfile, hdraw.trans hwrite⟩

/-- Asking for the permission makes one if the record lacks it. -/
theorem Mirrors.permission
    (h : s.Mirrors r) :
    (s.permission r).2.1 = r.permitted s.host.now ∧
      (r.permitted s.host.now).permission = some (s.permission r).1 ∧
        (s.permission r).2.2.Mirrors (r.permitted s.host.now) ∧
          (s.permission r).2.2.Mirrors (s.reading.orEmpty.permitted s.host.now) ∧
            s.Leads (s.permission r).2.2 r.permission.isNone.toNat 0 := by
  cases hp : r.permission with
  | some p =>
      rw [s.permission_of_held hp, MetricsRecord.permitted, MetricsRecord.permitted, h.fields.1, hp]
      exact ⟨rfl, hp, h, h.writable.mirrors, .refl s⟩
  | none =>
      obtain ⟨hheld, hfile, hwrite⟩ := h.write (·.permitted s.host.now)
        (h.storable.permitted s.host.now) (r.permitted_reread s.host.now) rfl rfl
      rw [s.permission_of_lacking hp, keep_of_written (h.writable _).1]
      exact ⟨rfl, by simp [MetricsRecord.permitted, hp], hheld, hfile, hwrite⟩

/-- Setting the permission succeeds, and writes it unless the file says so already. -/
theorem Writable.setPermission
    (h : s.Writable)
    (enabled : Bool) :
    (s.setPermission enabled).1 = .ok (!s.reading.orEmpty.states enabled) ∧
      (s.setPermission enabled).2.Mirrors (s.reading.orEmpty.decided enabled s.host.now) ∧
        s.Leads (s.setPermission enabled).2 (!s.reading.orEmpty.states enabled).toNat 0 := by
  have hstep := s.leads_read
  have hmirrors : s.read.2.Mirrors s.reading.orEmpty :=
    h.mirrors.congr (hstep.files rfl) hstep.path
  cases hstates : s.reading.orEmpty.states enabled with
  | true =>
      rw [setPermission_of_states hstates, MetricsRecord.decided, hstates]
      exact ⟨rfl, hmirrors, hstep⟩
  | false =>
      have hstorable := hmirrors.storable.decided enabled s.host.now
      rw [setPermission_of_other hstates, (hmirrors.writable _).1]
      exact ⟨rfl, (mirrors_write hmirrors.writable hstorable).1,
        hstep.trans (leads_write hmirrors.writable hstorable)⟩

end StoreState
end LifecycleTelemetry
