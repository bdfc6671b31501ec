import LifecycleTelemetry.Proofs.Config.Store
import LifecycleTelemetry.Proofs.Config.Unmade

/-!
# Attempts to write

A write can fail at two points. Where the file cannot be opened, it is left as it was, or its absence, and so
is the count of writes; at most some directories on the way to it have been made. It fails then whatever was
to be written, and so does the next one: a store whose file cannot be opened stays so until somebody else
changes the files. Where writing breaks off later on, the file has been emptied by then.

An operation of the store comes to a few attempts to write, one after the other, and does nothing else to
the files: `StoreState.Attempts` says which. So the writes that are counted are the attempts that succeed,
and what holds of one attempt carries over to all operations.
-/

namespace LifecycleTelemetry

open Failure (ConfigError SystemError)

namespace StoreState

variable {s t u : StoreState} {r : MetricsRecord} {e : ConfigError}

/-! ## The same place -/

/-- The file is where it was, and the machine as it was but for files, log and identifiers drawn. -/
structure SamePlace (s t : StoreState) : Prop where
  path : t.store.path = s.store.path
  environment : t.host.environment = s.host.environment
  now : t.host.now = s.host.now
  identifier : t.host.identifier = s.host.identifier

theorem SamePlace.refl
    (s : StoreState) :
    s.SamePlace s :=
  ⟨rfl, rfl, rfl, rfl⟩

theorem SamePlace.trans
    (h₁ : s.SamePlace t)
    (h₂ : t.SamePlace u) :
    s.SamePlace u where
  path := h₂.path.trans h₁.path
  environment := h₂.environment.trans h₁.environment
  now := h₂.now.trans h₁.now
  identifier := h₂.identifier.trans h₁.identifier

theorem samePlace_write
    (s : StoreState)
    (r : MetricsRecord) :
    s.SamePlace (s.write r).2 := by
  unfold write
  split
  · exact ⟨rfl, rfl, rfl, rfl⟩
  · split
    · exact ⟨rfl, rfl, rfl, rfl⟩
    · exact ⟨rfl, rfl, rfl, rfl⟩

/-! ## The file of a store -/

/-- What the file of a store holds, if there is a file. -/
def file? (s : StoreState) : Option Content :=
  (s.host.files.read s.store.path).toOption

theorem file?_congr
    (hfiles : t.host.files = s.host.files)
    (hpath : t.store.path = s.store.path) :
    t.file? = s.file? := by
  rw [file?, hfiles, hpath]
  rfl

theorem file?_eq_some_iff
    {content : Content} :
    s.file? = some content ↔ s.host.files.read s.store.path = .ok content := by
  unfold file?
  cases s.host.files.read s.store.path with
  | ok found => simp [Except.toOption]
  | error fault => simp [Except.toOption]

/-- A record is read where the file holds the text of one. -/
theorem reading_eq_record_iff :
    s.reading = .record r ↔
      ∃ text : String, s.file? = some (.text text) ∧ MetricsRecord.ofText? text = some r := by
  simp only [file?_eq_some_iff]
  unfold reading Reading.ofFile FileTree.readText
  cases hcontent : s.host.files.read s.store.path with
  | error fault =>
      simp only [bind, Except.bind, reduceCtorEq, false_and, exists_false, iff_false]
      split <;> simp
  | ok content =>
      cases content with
      | undecodable bytes =>
          simp only [bind, Except.bind, Except.ok.injEq, reduceCtorEq, false_and, exists_false,
            iff_false]
          split <;> simp
      | text text =>
          simp only [bind, Except.bind, Except.ok.injEq, Content.text.injEq, exists_eq_left']
          cases MetricsRecord.ofText? text <;> simp

theorem reading_record_congr
    (h : t.file? = s.file?) :
    t.reading = .record r ↔ s.reading = .record r := by
  rw [reading_eq_record_iff, reading_eq_record_iff, h]

/-- What the file is good for is told by what it holds. -/
theorem orEmpty_reading_of_file?
    (h : t.file? = s.file?) :
    t.reading.orEmpty = s.reading.orEmpty := by
  cases ht : t.reading with
  | record r => rw [(reading_record_congr h).mp ht]
  | _ =>
      cases hs : s.reading with
      | record r => exact absurd ((reading_record_congr h).mpr hs) (by simp [ht])
      | _ => rfl

/-! ## Attempts that fail -/

/-- The file can be opened to be written. -/
def Opens (s : StoreState) : Prop :=
  ∃ (files : FileTree) (location : List String), s.openFile = (files, .ok location)

/-- The file cannot be opened, so that no record can be written. -/
def Barred (s : StoreState) : Prop :=
  ∃ e : ConfigError, s.openFile.2 = .error e

theorem barred_iff :
    s.Barred ↔ ¬s.Opens := by
  unfold Barred Opens
  cases s.openFile with
  | mk files result =>
      cases result with
      | ok location => simp
      | error e => simp

/-- A file that cannot be opened is not opened by another one who wants to. -/
theorem Barred.congr
    (h : s.Barred)
    (hfiles : t.host.files = s.host.files)
    (hpath : t.store.path = s.store.path) :
    t.Barred := by
  obtain ⟨e, he⟩ := h
  exact ⟨e, by rw [openFile_congr hfiles hpath, he]⟩

theorem files_openFile
    (s : StoreState) :
    s.openFile.1 = s.makeParent.1 := by
  unfold openFile
  split
  · rename_i hparent
    rw [hparent]
  · rename_i hparent
    rw [hparent]
    split
    · rfl
    · rfl

/-- What is left of an attempt to write a file that cannot be opened is the directories that it has made. -/
theorem write_of_barred
    (h : s.openFile.2 = .error e)
    (r : MetricsRecord) :
    s.write r = (.error e, { s with host := { s.host with files := s.makeParent.1 } }) := by
  rw [← s.files_openFile, write]
  cases hopened : s.openFile with
  | mk files result =>
      rw [hopened] at h
      cases h
      rfl

/-- Making the directory of the file comes to making some directories. -/
theorem exists_makeAll
    (s : StoreState) :
    ∃ paths : List String, s.makeParent.1 = (s.host.files.makeAll paths).1 := by
  unfold makeParent
  split
  · exact ⟨[], rfl⟩
  rename_i parent _
  split
  · exact ⟨[], rfl⟩
  refine ⟨Path.ancestors parent, ?_⟩
  rw [← FileTree.makeDirectories]
  split
  · rename_i hmade
    rw [hmade]
  · rename_i hmade
    rw [hmade]

/-- So it leaves all files as they are. -/
theorem widened_makeParent
    (s : StoreState) :
    s.host.files.Widened s.makeParent.1 := by
  obtain ⟨paths, hmade⟩ := s.exists_makeAll
  rw [hmade]
  exact FileTree.widened_makeAll s.host.files paths

theorem makeParent_of_readOnly
    (h : s.host.files.readOnly = true) :
    s.makeParent.1 = s.host.files := by
  obtain ⟨paths, hmade⟩ := s.exists_makeAll
  rw [hmade]
  exact FileTree.makeAll_of_readOnly h paths

theorem jam_openFile
    (s : StoreState) :
    s.openFile.1.jam = s.host.files.jam := by
  rw [files_openFile]
  exact s.widened_makeParent.jam

/-- Where the directory of the file could not be made, trying once more does not help. -/
theorem makeParent_of_error
    {files : FileTree}
    (h : s.makeParent = (files, .error e))
    (hfiles : t.host.files = files)
    (hpath : t.store.path = s.store.path) :
    t.makeParent.2 ≠ .ok () := by
  unfold makeParent at h
  split at h
  · cases h
  rename_i parent hparent
  split at h
  · cases h
  rename_i hempty
  split at h
  · cases h
  rename_i fault hunmade
  cases h
  obtain ⟨-, hnever⟩ := FileTree.unmade_of_makeAll hunmade
  unfold makeParent
  rw [hpath, hparent, hfiles]
  simp only [hempty, Bool.false_eq_true, if_false]
  split
  · rename_i again hmade
    exact absurd hmade (hnever again)
  · simp

/-- A file that cannot be opened is not made so by trying. -/
theorem Barred.write
    (h : s.Barred)
    (r : MetricsRecord) :
    (s.write r).2.Barred := by
  obtain ⟨e, he⟩ := h
  rw [write_of_barred he r, barred_iff]
  simp only
  rintro ⟨files, location, hopened⟩
  obtain ⟨hmade, hopen⟩ := (openFile_eq_ok_iff _ files location).mp hopened
  cases hparent : s.makeParent with
  | mk made result =>
      rw [hparent] at hmade
      let after : StoreState := { s with host := { s.host with files := made } }
      cases result with
      | error e => exact makeParent_of_error (t := after) hparent rfl rfl (by rw [hmade])
      | ok result =>
          have hagain : after.makeParent = (made, .ok ()) :=
            makeParent_of_extends hparent ⟨fun _ h => h, fun _ h => h⟩ rfl rfl
          obtain rfl : made = files := congrArg Prod.fst (hagain.symm.trans hmade)
          rw [(openFile_eq_ok_iff s made location).mpr ⟨hparent, hopen⟩] at he
          cases he

/-- An attempt that fails so leaves the file as it is, or its absence. -/
theorem Barred.file?_write
    (h : s.Barred)
    (r : MetricsRecord) :
    (s.write r).2.file? = s.file? := by
  have hstill := barred_iff.mp (h.write r)
  obtain ⟨e, he⟩ := h
  have hnever : ¬s.Opens := barred_iff.mp ⟨e, he⟩
  rw [write_of_barred he r] at hstill ⊢
  simp only at hstill ⊢
  cases hopen : s.host.files.readOnly with
  | true => exact file?_congr (makeParent_of_readOnly hopen) rfl
  | false =>
      -- in a tree that can be changed, there is no file where none can be opened
      have hnone : s.file? = none := by
        cases hfile : s.file? with
        | none => rfl
        | some content =>
            obtain ⟨location, hopened⟩ := opened_of_read hopen (file?_eq_some_iff.mp hfile)
            exact absurd ⟨_, location, hopened⟩ hnever
      have hafter : s.makeParent.1.readOnly = false := by
        rw [s.widened_makeParent.readOnly, hopen]
      rw [hnone]
      generalize hmade : { s with host := { s.host with files := s.makeParent.1 } } = after at hstill ⊢
      cases hfile : after.file? with
      | none => rfl
      | some content =>
          have hfiles : after.host.files.readOnly = false := by rw [← hmade]; exact hafter
          obtain ⟨location, hopened⟩ := opened_of_read hfiles (file?_eq_some_iff.mp hfile)
          exact absurd ⟨_, location, hopened⟩ hstill

/-! ## Attempts that find a file -/

/-- A file that has been opened can be opened again, at the same location. -/
theorem openFile_write
    {files : FileTree}
    {location : List String}
    (h : s.openFile = (files, .ok location))
    (r : MetricsRecord) :
    (s.write r).2.openFile = ((s.write r).2.host.files, .ok location) := by
  obtain ⟨hmade, htarget, hwritable⟩ := (openFile_eq_ok_iff s files location).mp h
  have hpath := (samePlace_write s r).path
  have hfiles := (write_of_opened h r).2
  have hsame : files.Extends files := ⟨fun _ h => h, fun _ h => h⟩
  rw [openFile_eq_ok_iff, hpath, hfiles]
  rcases hwritable with hwritable | hvoid
  · rcases files.exists_put_of_fill location (.text r.text) with hkept | ⟨node, hnode, hput⟩
    · rw [hkept] at hfiles ⊢
      exact ⟨makeParent_of_extends hmade hsame hpath hfiles, htarget, .inl hwritable⟩
    · rw [hput] at hfiles ⊢
      exact ⟨makeParent_of_extends hmade (htarget.extends_put node) hpath hfiles, htarget.put hnode,
        .inl hwritable⟩
  · have hkept : (files.fill location (.text r.text)).1 = files := by
      rw [FileTree.fill, hvoid]
    rw [hkept] at hfiles ⊢
    exact ⟨makeParent_of_extends hmade hsame hpath hfiles, htarget, .inr hvoid⟩

theorem Opens.congr
    (h : s.Opens)
    (hfiles : t.host.files = s.host.files)
    (hpath : t.store.path = s.store.path) :
    t.Opens := by
  obtain ⟨files, location, hopened⟩ := h
  exact ⟨files, location, (openFile_congr hfiles hpath).trans hopened⟩

theorem Opens.write
    (h : s.Opens)
    (r : MetricsRecord) :
    (s.write r).2.Opens := by
  obtain ⟨files, location, hopened⟩ := h
  exact ⟨_, location, openFile_write hopened r⟩

/-- An attempt does not change how writing breaks off. -/
theorem jam_write
    (s : StoreState)
    (r : MetricsRecord) :
    (s.write r).2.host.files.jam = s.host.files.jam := by
  have hmade := s.jam_openFile
  cases hopened : s.openFile with
  | mk files result =>
      rw [hopened] at hmade
      cases result with
      | error e =>
          rw [write, hopened]
          exact hmade
      | ok location =>
          rw [(write_of_opened hopened r).2]
          rcases files.exists_put_of_fill location (.text r.text) with hkept | ⟨node, -, hput⟩
          · rw [hkept]
            exact hmade
          · rw [hput]
            exact hmade

/-- An attempt that succeeds where nothing is written in vain leaves the text of the record in the file. -/
theorem file?_write_of_faithful
    (h : s.Faithful)
    (hok : (s.write r).1 = .ok ()) :
    (s.write r).2.file? = some (.text r.text) := by
  rw [file?_eq_some_iff, (samePlace_write s r).path]
  exact h r hok

/-! ## What is kept -/

/-- What the file of a store has been given, whether or not it can be read, if there is a file. -/
def kept? (s : StoreState) : Option Content :=
  match s.host.files.locate s.store.path with
  | .error _ => none
  | .ok location =>
      match s.host.files.node? location with
      | some (.file content) => some content
      | some (.sealed content) => some content
      | _ => none

/-- What is written goes to a device. -/
def OnDevice (s : StoreState) : Prop :=
  ∃ (files : FileTree) (location : List String),
    s.openFile = (files, .ok location) ∧ files.node? location = some .void

/-- What has been written is kept, but for what has gone to a device. -/
theorem kept?_write
    (hok : (s.write r).1 = .ok ())
    (hdevice : ¬s.OnDevice) :
    (s.write r).2.kept? = some (.text r.text) := by
  obtain ⟨files, location, hopened⟩ := opened_of_write hok
  have hfiles := (write_of_opened hopened r).2
  obtain ⟨-, htarget, -⟩ := (openFile_eq_ok_iff s files location).mp hopened
  have hvoid : files.node? location ≠ some .void := fun h => hdevice ⟨files, location, hopened, h⟩
  have hwhole : files.jam = none := whole_of_write hopened hvoid hok
  obtain ⟨node, hnode, hfilled⟩ : ∃ node : FileNode,
      (node = .file (.text r.text) ∨ node = .sealed (.text r.text)) ∧
        (files.fill location (.text r.text)).1 = files.put location node := by
    unfold FileTree.fill
    split
    · rename_i h
      exact absurd h hvoid
    · rw [FileTree.fill.keep, hwhole]
      exact ⟨_, .inr rfl, rfl⟩
    · rw [FileTree.fill.keep, hwhole]
      exact ⟨_, .inl rfl, rfl⟩
  have hthere := htarget.node?_put node
  have hfile : node ≠ .directory := by
    rcases hnode with rfl | rfl
    · simp
    · simp
  have hlocate := (htarget.put hfile).locate (by simp [hthere])
  rw [kept?, hfiles, hfilled, (samePlace_write s r).path, hlocate]
  simp only [hthere]
  rcases hnode with rfl | rfl
  · rfl
  · rfl

/-- An attempt that fails is not told of in the log. -/
theorem log_write_of_error
    (h : (s.write r).1 = .error e) :
    (s.write r).2.host.log = s.host.log := by
  unfold write at h ⊢
  split
  · rfl
  · split
    · rfl
    · simp_all

/-! ## Files that are not read -/

/-- What is written goes to a device, or to a file that cannot be read. -/
def Sunk (s : StoreState) : Prop :=
  ∃ (files : FileTree) (location : List String),
    s.openFile = (files, .ok location) ∧ ¬files.Plain location

theorem Sunk.congr
    (h : s.Sunk)
    (hfiles : t.host.files = s.host.files)
    (hpath : t.store.path = s.store.path) :
    t.Sunk := by
  obtain ⟨files, location, hopened, hplain⟩ := h
  exact ⟨files, location, (openFile_congr hfiles hpath).trans hopened, hplain⟩

/-- Writing there succeeds, unless it breaks off, and it is still so afterwards. -/
theorem Sunk.write
    (h : s.Sunk)
    (hwhole : s.host.files.jam = none)
    (r : MetricsRecord) :
    (s.write r).1 = .ok () ∧ (s.write r).2.Sunk := by
  obtain ⟨files, location, hopened, hplain⟩ := h
  obtain ⟨-, htarget, -⟩ := (openFile_eq_ok_iff s files location).mp hopened
  have hjam : files.jam = none := by
    have hmade := s.jam_openFile
    rw [hopened] at hmade
    exact hmade.trans hwhole
  obtain ⟨hresult, hfiles⟩ := write_of_opened hopened r
  obtain ⟨hfilled, hstill⟩ :=
    FileTree.fill_of_not_plain hplain hjam htarget.ne_nil (.text r.text)
  refine ⟨?_, _, location, openFile_write hopened r, ?_⟩
  · rw [hresult, hfilled]
    rfl
  · rw [hfiles]
    exact hstill

/-- No record is read there. -/
theorem Sunk.reading_ne
    (h : s.Sunk)
    (r : MetricsRecord) :
    s.reading ≠ .record r := by
  intro hreading
  obtain ⟨files, location, hopened, hplain⟩ := h
  obtain ⟨hmade, htarget, -⟩ := (openFile_eq_ok_iff s files location).mp hopened
  obtain ⟨text, hread, -⟩ := read_of_reading hreading
  obtain ⟨found, content, hlocate, hnode⟩ := node?_of_reading hreading
  rw [makeParent_of_read hread] at hmade
  cases hmade
  have hfound := FileTree.target_of_locate hlocate (by simp [hnode])
  rw [hfound.unique htarget] at hnode
  exact hplain ⟨by simp [hnode], by simp [hnode]⟩

theorem Sunk.orEmpty_reading
    (h : s.Sunk) :
    s.reading.orEmpty = .empty := by
  cases hreading : s.reading with
  | record r => exact absurd hreading (h.reading_ne r)
  | _ => rfl

/-- Where writing does not break off, the file can be written and read, or it cannot be opened, or what is
written is not read. -/
theorem writable_or_barred_or_sunk
    (hwhole : s.host.files.jam = none) :
    s.Writable ∨ s.Barred ∨ s.Sunk := by
  by_cases hopens : s.Opens
  · obtain ⟨files, location, hopened⟩ := hopens
    by_cases hplain : files.Plain location
    · obtain ⟨hmade, htarget, hwritable⟩ := (openFile_eq_ok_iff s files location).mp hopened
      have hjam : files.jam = none := by
        have hkept := s.jam_openFile
        rw [hopened] at hkept
        exact hkept.trans hwhole
      exact .inl (writable_iff.mpr ⟨files, location, hmade, hwritable.resolve_right hplain.void, hjam,
        htarget, hplain⟩)
    · exact .inr (.inr ⟨files, location, hopened, hplain⟩)
  · exact .inr (.inl (barred_iff.mpr hopens))

/-- So nothing is written in vain just if the path leads neither to a device nor to a file that cannot be
read. -/
theorem faithful_iff
    (hwhole : s.host.files.jam = none) :
    s.Faithful ↔ ¬s.Sunk := by
  constructor
  · intro hfaithful hsunk
    obtain ⟨hok, hstill⟩ := hsunk.write hwhole .empty
    exact hstill.reading_ne _ ((hfaithful.writable hok).reading_write MetricsRecord.storable_empty)
  · intro hread
    rcases writable_or_barred_or_sunk hwhole with hwritable | ⟨e, hbarred⟩ | hsunk
    · exact hwritable.faithful
    · intro r hok
      rw [write_of_barred hbarred r] at hok
      cases hok
    · exact absurd hsunk hread

/-- Then the file can be written unless it cannot be opened. -/
theorem Faithful.writable_or_barred
    (h : s.Faithful)
    (hwhole : s.host.files.jam = none) :
    s.Writable ∨ s.Barred := by
  rcases writable_or_barred_or_sunk hwhole with hwritable | hbarred | hsunk
  · exact .inl hwritable
  · exact .inr hbarred
  · exact absurd hsunk ((faithful_iff hwhole).mp h)

end StoreState

/-! ## Attempts -/

/-- A write that is attempted: in which state, and of which record. -/
structure Attempt where
  state : StoreState
  record : MetricsRecord

namespace Attempt

/-- What comes of an attempt. -/
def result (a : Attempt) : Except ConfigError Unit :=
  (a.state.write a.record).1

/-- The state in which an attempt leaves the store. -/
def after (a : Attempt) : StoreState :=
  (a.state.write a.record).2

/-- Whether an attempt succeeds. -/
def succeeds (a : Attempt) : Bool :=
  a.result.isOk

/-- An attempt counts if it succeeds. -/
theorem writes_after
    (a : Attempt) :
    a.after.store.writes = a.state.store.writes + a.succeeds.toNat := by
  unfold after succeeds result StoreState.write
  split
  · rfl
  · split
    · rfl
    · rfl

end Attempt

namespace StoreState

variable {s t u : StoreState} {r : MetricsRecord}

/-- Nothing is different but the log, and how many identifiers have been drawn. -/
structure Quiet (s t : StoreState) : Prop extends SamePlace s t where
  writes : t.store.writes = s.store.writes
  files : t.host.files = s.host.files

theorem Quiet.refl
    (s : StoreState) :
    s.Quiet s :=
  ⟨.refl s, rfl, rfl⟩

theorem Quiet.trans
    (h₁ : s.Quiet t)
    (h₂ : t.Quiet u) :
    s.Quiet u :=
  ⟨h₁.toSamePlace.trans h₂.toSamePlace, h₂.writes.trans h₁.writes, h₂.files.trans h₁.files⟩

theorem quiet_read
    (s : StoreState) :
    s.Quiet s.read.2 := by
  unfold read
  split
  · exact .refl s
  · exact { Quiet.refl s with }
  · exact { Quiet.refl s with }
  · exact .refl s

/-- One state comes from another by some attempts to write and by nothing else that concerns the files. -/
inductive Attempts : StoreState → List Attempt → StoreState → Prop
  | none
      {s t : StoreState}
      (quiet : s.Quiet t) :
      Attempts s [] t
  | attempt
      {s t : StoreState}
      {a : Attempt}
      {rest : List Attempt}
      (quiet : s.Quiet a.state)
      (later : Attempts a.after rest t) :
      Attempts s (a :: rest) t

namespace Attempts

variable {as bs : List Attempt}

theorem quietly
    (h : Attempts t as u)
    (hquiet : s.Quiet t) :
    Attempts s as u := by
  cases h with
  | none quiet => exact .none (hquiet.trans quiet)
  | attempt quiet later => exact .attempt (hquiet.trans quiet) later

theorem append
    (h₁ : Attempts s as t)
    (h₂ : Attempts t bs u) :
    Attempts s (as ++ bs) u := by
  induction h₁ with
  | none quiet => exact h₂.quietly quiet
  | attempt quiet later ih => exact .attempt quiet (ih h₂)

/-- The writes that are counted are the attempts that have succeeded. -/
theorem writes
    (h : Attempts s as t) :
    t.store.writes = s.store.writes + as.countP Attempt.succeeds := by
  induction h with
  | none quiet => rw [quiet.writes, List.countP_nil, Nat.add_zero]
  | @attempt s t a rest quiet later ih =>
      rw [ih, a.writes_after, quiet.writes, List.countP_cons]
      cases a.succeeds with
      | true =>
          simp only [Bool.toNat_true, if_true]
          omega
      | false => simp

theorem samePlace
    (h : Attempts s as t) :
    s.SamePlace t := by
  induction h with
  | none quiet => exact quiet.toSamePlace
  | @attempt s t a rest quiet later ih =>
      exact (quiet.toSamePlace.trans (samePlace_write a.state a.record)).trans ih

/-- What holds of a file and stays true when it is written holds in all attempts and after them. -/
theorem preserve
    {P : StoreState → Prop}
    (hcongr : ∀ ⦃s t : StoreState⦄, P s → t.host.files = s.host.files →
      t.store.path = s.store.path → P t)
    (hwrite : ∀ ⦃s : StoreState⦄, P s → ∀ r : MetricsRecord, P (s.write r).2)
    (h : Attempts s as t)
    (hs : P s) :
    (∀ a ∈ as, P a.state) ∧ P t := by
  induction h with
  | none quiet => exact ⟨by simp, hcongr hs quiet.files quiet.path⟩
  | @attempt s t a rest quiet later ih =>
      have hfound : P a.state := hcongr hs quiet.files quiet.path
      obtain ⟨hrest, hlast⟩ := ih (hwrite hfound a.record)
      exact ⟨List.forall_mem_cons.mpr ⟨hfound, hrest⟩, hlast⟩

/-- A store that can be written can be written still. -/
theorem writable
    (h : Attempts s as t)
    (hwritable : s.Writable) :
    t.Writable :=
  (h.preserve (fun _ _ hs hfiles hpath => hs.congr hfiles hpath) (fun _ hs r => hs.write r)
    hwritable).2

/-- Attempts do not change how writing breaks off. -/
theorem jam
    (h : Attempts s as t) :
    t.host.files.jam = s.host.files.jam :=
  (h.preserve (P := fun u => u.host.files.jam = s.host.files.jam)
    (fun _ _ hs hfiles _ => by rw [hfiles, hs]) (fun u hs r => (u.jam_write r).trans hs) rfl).2

/-- Where what is written is not read, it is still so afterwards. -/
theorem sunk
    (h : Attempts s as t)
    (hsunk : s.Sunk)
    (hwhole : s.host.files.jam = .none) :
    t.Sunk :=
  (h.preserve (P := fun u => u.Sunk ∧ u.host.files.jam = .none)
    (fun _ _ hs hfiles hpath => ⟨hs.1.congr hfiles hpath, by rw [hfiles, hs.2]⟩)
    (fun u hs r => ⟨(hs.1.write hs.2 r).2, (u.jam_write r).trans hs.2⟩) ⟨hsunk, hwhole⟩).2.1

/-- If one attempt finds a file that cannot be opened, it has been so from the beginning. -/
theorem barred_of_mem
    {a : Attempt}
    (h : Attempts s as t)
    (ha : a ∈ as)
    (hbarred : a.state.Barred) :
    s.Barred := by
  by_contra hopens
  rw [barred_iff, not_not] at hopens
  have hall := (h.preserve (fun _ _ hs hfiles hpath => hs.congr hfiles hpath)
    (fun _ hs r => hs.write r) hopens).1
  exact barred_iff.mp hbarred (hall a ha)

/-- In a file that cannot be opened no attempt succeeds, all files are left as they are, and it stays so. -/
theorem vain
    (h : Attempts s as t)
    (hbarred : s.Barred) :
    (∀ a ∈ as, a.succeeds = false) ∧ t.file? = s.file? ∧ s.host.files.Widened t.host.files ∧
      t.Barred := by
  induction h with
  | none quiet =>
      refine ⟨by simp, file?_congr quiet.files quiet.path, ?_, hbarred.congr quiet.files quiet.path⟩
      rw [quiet.files]
      exact .refl _
  | @attempt s t a rest quiet later ih =>
      have hfound : a.state.Barred := hbarred.congr quiet.files quiet.path
      have ⟨e, hfailed⟩ := hfound
      obtain ⟨hrest, hfile, hwidened, hlast⟩ := ih (hfound.write a.record)
      have hmade : a.state.host.files.Widened a.after.host.files := by
        rw [Attempt.after, write_of_barred hfailed]
        exact widened_makeParent a.state
      refine ⟨List.forall_mem_cons.mpr ⟨?_, hrest⟩, ?_, ?_, hlast⟩
      · rw [Attempt.succeeds, Attempt.result, write_of_barred hfailed]
        rfl
      · rw [hfile, Attempt.after, hfound.file?_write a.record]
        exact file?_congr quiet.files quiet.path
      · rw [← quiet.files]
        exact hmade.trans hwidened

end Attempts
end StoreState
end LifecycleTelemetry
