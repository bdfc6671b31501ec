import LifecycleTelemetry.Config.FileTree

/-!
# Writing into a tree

Making directories and writing files never takes anything away that a path could lead through: a tree
only grows, up to the content of files. What could be followed before can therefore be followed
afterwards, and leads to the same place.

From this follows what a program relies on that keeps its data in a file. Whether a file can be opened to be
written does not depend on what is to be written. A plain file of a tree that is not jammed then holds just
what has been written, and it can be written again.
-/

namespace LifecycleTelemetry

open Failure (SystemError)

namespace Path

theorem ancestors_eq_cons
    (path : String) :
    ∃ before : List String, ancestors path = path :: before := by
  unfold ancestors
  cases path.length with
  | zero =>
      exact ⟨[], rfl⟩
  | succ fuel =>
      unfold ancestors.go
      split
      · exact ⟨_, rfl⟩
      · exact ⟨[], rfl⟩

theorem split_ne_nil
    (begun cs : List Char) :
    components.split begun cs ≠ [] := by
  fun_induction components.split begun cs with
  | case1 => simp
  | case2 => simp
  | case3 _ _ _ _ ih => exact ih

/-- Only a separator at the end leaves an empty component behind it. -/
theorem getLast?_split
    {begun cs : List Char}
    (hend : cs.getLast? ≠ some '/')
    (hbegun : cs = [] → begun ≠ []) :
    (components.split begun cs).getLast? ≠ some [] := by
  fun_induction components.split begun cs with
  | case1 begun =>
      simpa using hbegun rfl
  | case2 begun rest ih =>
      cases rest with
      | nil => simp at hend
      | cons c rest =>
          rw [List.getLast?_cons, List.getLast?_eq_some_getLast (split_ne_nil [] (c :: rest)),
            Option.getD_some, ← List.getLast?_eq_some_getLast]
          exact ih (by simpa using hend) (by simp)
  | case3 begun c rest _ ih =>
      apply ih
      · cases rest with
        | nil => simp
        | cons d rest => simpa using hend
      · simp

end Path

namespace FileTree

/-! ## Growing -/

/-- A tree in which everything of another one is still there, and its directories are directories. -/
structure Extends (t u : FileTree) : Prop where
  directory : ∀ l : List String, t.node? l = some .directory → u.node? l = some .directory
  occupied : ∀ l : List String, (t.node? l).isSome = true → (u.node? l).isSome = true

theorem extends_put
    (t : FileTree)
    {location : List String}
    {node : FileNode}
    (hroot : location ≠ [])
    (hnode : t.node? location = some .directory → node = .directory) :
    t.Extends (t.put location node) := by
  constructor
  · intro l hl
    rw [node?_put t location l node hroot]
    split
    · rename_i hsame
      rw [hnode (hsame ▸ hl)]
    · exact hl
  · intro l hl
    rw [node?_put t location l node hroot]
    split
    · rfl
    · exact hl

/-- One step of a walk, along a name that is one. -/
theorem walk_name
    {t : FileTree}
    {location : List String}
    {name : String}
    (rest : List String)
    (hdir : t.node? location = some .directory)
    (hdots : isDots name = false)
    (hlength : ¬ longestName < name.utf8ByteSize)
    (hthere : (t.node? (location ++ [name])).isSome = true) :
    t.walk location (name :: rest) = t.walk (location ++ [name]) rest := by
  obtain ⟨node, hnode⟩ := Option.isSome_iff_exists.mp hthere
  simp only [isDots, Bool.or_eq_false_iff, beq_eq_false_iff_ne] at hdots
  simp [walk, hdir, hdots.1.1, hdots.1.2, hdots.2, hlength, hnode]

theorem walk_blanks
    {t : FileTree}
    {location : List String}
    (hdir : t.node? location = some .directory)
    (count : Nat) :
    t.walk location (List.replicate count "") = .ok location := by
  induction count with
  | zero =>
      rfl
  | succ count ih =>
      simpa [List.replicate_succ, walk, hdir] using ih

theorem walk_append
    (t : FileTree)
    (location : List String)
    (before after : List String) :
    t.walk location (before ++ after) =
      (t.walk location before).bind fun middle => t.walk middle after := by
  induction before generalizing location with
  | nil =>
      rfl
  | cons name before ih =>
      simp only [List.cons_append, walk]
      repeat' split
      all_goals first
        | exact ih _
        | rfl

/-- Where a walk has led it leads in every tree that extends the one it was taken in. -/
theorem Extends.walk
    {t u : FileTree}
    (h : t.Extends u)
    {location target : List String}
    {names : List String}
    (hwalk : t.walk location names = .ok target) :
    u.walk location names = .ok target := by
  induction names generalizing location with
  | nil =>
      exact hwalk
  | cons name names ih =>
      simp only [FileTree.walk] at hwalk ⊢
      split at hwalk
      · rename_i hdir
        rw [h.directory location hdir]
        simp only
        split
        · rw [if_pos ‹_›] at hwalk
          exact ih hwalk
        rw [if_neg ‹_›] at hwalk
        split
        · rw [if_pos ‹_›] at hwalk
          exact ih hwalk
        rw [if_neg ‹_›] at hwalk
        split
        · rw [if_pos ‹_›] at hwalk
          cases hwalk
        rw [if_neg ‹_›] at hwalk
        split at hwalk
        · rename_i hnode
          obtain ⟨node, hnode⟩ :=
            Option.isSome_iff_exists.mp (h.occupied (location ++ [name]) (by simp [hnode]))
          rw [hnode]
          exact ih hwalk
        · cases hwalk
      · cases hwalk

theorem directoryOf_eq_ok_iff
    (t : FileTree)
    (names location : List String) :
    t.directoryOf names = .ok location ↔
      t.walk [] names = .ok location ∧ t.node? location = some .directory := by
  unfold directoryOf
  cases hwalk : t.walk [] names with
  | error fault => simp [bind, Except.bind]
  | ok middle =>
      simp only [bind, Except.bind, Except.ok.injEq]
      constructor
      · intro h
        split at h
        · cases h
          exact ⟨rfl, ‹_›⟩
        · cases h
      · rintro ⟨rfl, hdir⟩
        rw [hdir]

theorem Extends.directoryOf
    {t u : FileTree}
    (h : t.Extends u)
    {names location : List String}
    (hdir : t.directoryOf names = .ok location) :
    u.directoryOf names = .ok location := by
  rw [directoryOf_eq_ok_iff] at hdir ⊢
  exact ⟨h.walk hdir.1, h.directory location hdir.2⟩

theorem isDirectory_iff
    (t : FileTree)
    (path : String) :
    t.isDirectory path = true ↔
      pathFault? path = none ∧
        ∃ location : List String,
          t.walk [] (Path.components path) = .ok location ∧
            t.node? location = some .directory := by
  unfold isDirectory locate
  cases hfault : pathFault? path with
  | some fault => simp
  | none =>
      cases hwalk : t.walk [] (Path.components path) with
      | error fault => simp
      | ok location => simp

theorem Extends.isDirectory
    {t u : FileTree}
    (h : t.Extends u)
    {path : String}
    (hdir : t.isDirectory path = true) :
    u.isDirectory path = true := by
  rw [isDirectory_iff] at hdir ⊢
  obtain ⟨hfault, location, hwalk, hnode⟩ := hdir
  exact ⟨hfault, location, h.walk hwalk, h.directory location hnode⟩

/-! ## The last name of a path -/

/-- A list of names, taken apart at the last one that is not empty. -/
theorem eq_append_blanks
    {names : List String}
    (hne : names ≠ []) :
    ∃ count : Nat,
      names = (names.reverse.dropWhile (· == "")).tail.reverse ++
        (names.reverse.dropWhile (· == "")).headD "" :: List.replicate count "" := by
  have hblanks :
      names.reverse.takeWhile (· == "")
        = List.replicate (names.reverse.takeWhile (· == "")).length "" := by
    rw [List.eq_replicate_iff]
    exact ⟨rfl, fun name hname => by
      simpa using List.all_eq_true.mp List.all_takeWhile name hname⟩
  have hnames :
      names = (names.reverse.dropWhile (· == "")).reverse ++
        List.replicate (names.reverse.takeWhile (· == "")).length "" := by
    calc names = (names.reverse.takeWhile (· == "") ++ names.reverse.dropWhile (· == "")).reverse := by
          rw [List.takeWhile_append_dropWhile, List.reverse_reverse]
      _ = _ := by
          rw [List.reverse_append, hblanks, List.reverse_replicate, List.length_replicate]
  generalize names.reverse.dropWhile (· == "") = kept at hnames
  generalize (names.reverse.takeWhile (· == "")).length = count at hnames
  cases kept with
  | nil =>
      cases count with
      | zero => exact absurd hnames hne
      | succ count => exact ⟨count, by simpa [List.replicate_succ] using hnames⟩
  | cons name kept => exact ⟨count, by simpa using hnames⟩

/-- Behind the last name of a path there is nothing but empty components. -/
theorem components_eq
    (path : String) :
    ∃ count : Nat,
      Path.components path =
        (splitLast path).1 ++ (splitLast path).2 :: List.replicate count "" :=
  eq_append_blanks (by simp [Path.components, Path.split_ne_nil])

/-- A path that ends with a name ends there. -/
theorem components_of_name
    {path : String}
    (hname : isDots (splitLast path).2 = false)
    (hend : Path.endsWithSeparator path = false) :
    Path.components path = (splitLast path).1 ++ [(splitLast path).2] := by
  obtain ⟨count, hcomponents⟩ := components_eq path
  cases count with
  | zero => exact hcomponents
  | succ count =>
      exfalso
      have hlast : (Path.components path).getLast? = some "" := by
        rw [hcomponents, List.replicate_succ', ← List.cons_append, ← List.append_assoc,
          List.getLast?_concat]
      have hempty : (Path.components.split [] path.toList).getLast? = some [] := by
        simpa [Path.components, List.getLast?_map] using hlast
      refine Path.getLast?_split ?_ ?_ hempty
      · simpa [Path.endsWithSeparator] using hend
      · intro hnil
        -- an empty path has the empty name, which is no name
        have hpath : path = "" := by simpa using hnil
        subst hpath
        exact absurd hname (by decide)

/-! ## Making directories -/

/-- A path that leads somewhere cannot be made a directory. -/
theorem makeDirectory_of_isDirectory
    {t : FileTree}
    {path : String}
    (h : t.isDirectory path = true) :
    t.makeDirectory path = .error .alreadyExists := by
  obtain ⟨hfault, location, hwalk, hnode⟩ := (isDirectory_iff t path).mp h
  obtain ⟨count, hcomponents⟩ := components_eq path
  rw [hcomponents, walk_append] at hwalk
  unfold makeDirectory
  rw [hfault]
  cases hbefore : t.walk [] (splitLast path).1 with
  | error fault =>
      rw [hbefore] at hwalk
      cases hwalk
  | ok middle =>
      rw [hbefore] at hwalk
      simp only [Except.bind, walk] at hwalk
      split at hwalk
      · rename_i hdir
        have hdirectory : t.directoryOf (splitLast path).1 = .ok middle :=
          (directoryOf_eq_ok_iff t _ middle).mpr ⟨hbefore, hdir⟩
        simp only [hdirectory, bind, Except.bind]
        split
        · rfl
        rename_i hdots
        simp only [isDots, Bool.or_eq_true, beq_iff_eq, not_or] at hdots
        simp only [hdots.1.1, hdots.1.2, hdots.2, or_self, if_false] at hwalk
        split at hwalk
        · cases hwalk
        rw [if_neg ‹_›]
        split at hwalk
        · simp [*]
        · cases hwalk
      · cases hwalk

theorem isDirectory_of_makeDirectory
    {t u : FileTree}
    {path : String}
    (h : t.makeDirectory path = .ok u) :
    u.isDirectory path = true := by
  unfold makeDirectory at h
  split at h
  · cases h
  rename_i hfault
  simp only [bind, Except.bind] at h
  split at h
  · cases h
  rename_i middle hdirectory
  split at h
  · cases h
  rename_i hdots
  split at h
  · cases h
  rename_i hlength
  split at h
  · cases h
  rename_i hfree
  split at h
  · cases h
  have hput :
      ∀ l : List String, (t.put (middle ++ [(splitLast path).2]) .directory).node? l =
        if l = middle ++ [(splitLast path).2] then some .directory else t.node? l :=
    fun l => node?_put t _ l .directory (by simp)
  cases h
  have hgrown : t.Extends (t.put (middle ++ [(splitLast path).2]) .directory) :=
    extends_put t (by simp) (fun _ => rfl)
  have hnew :
      (t.put (middle ++ [(splitLast path).2]) .directory).node? (middle ++ [(splitLast path).2])
        = some .directory := by
    rw [hput, if_pos rfl]
  obtain ⟨hwalk, hdir⟩ := (directoryOf_eq_ok_iff t _ middle).mp hdirectory
  obtain ⟨count, hcomponents⟩ := components_eq path
  refine (isDirectory_iff _ path).mpr ⟨hfault, middle ++ [(splitLast path).2], ?_, hnew⟩
  rw [hcomponents, walk_append, hgrown.walk hwalk]
  show walk _ middle _ = _
  rw [walk_name _ (hgrown.directory middle hdir) (by simpa using hdots) hlength (by simp [hnew])]
  exact walk_blanks hnew count

/-- A directory that has been made, with those before it if need be, is there. -/
theorem isDirectory_of_makeAll
    {t u : FileTree}
    {path : String}
    {before : List String}
    (hpath : path.isEmpty = false)
    (h : t.makeAll (path :: before) = (u, .ok ())) :
    u.isDirectory path = true := by
  rw [makeAll, hpath] at h
  simp only [Bool.false_eq_true, if_false] at h
  split at h
  · cases h
    exact isDirectory_of_makeDirectory ‹_›
  split at h
  · split at h
    · cases h
    split at h
    · cases h
      exact isDirectory_of_makeDirectory ‹_›
    split at h
    · cases h
      assumption
    · cases h
  split at h
  · cases h
    assumption
  · cases h

/-- A directory that is there already will do. -/
theorem makeAll_of_isDirectory
    {t : FileTree}
    {path : String}
    (h : t.isDirectory path = true)
    (before : List String) :
    t.makeAll (path :: before) = (t, .ok ()) := by
  rw [makeAll, makeDirectory_of_isDirectory h]
  have hother : SystemError.alreadyExists ≠ SystemError.notFound := by decide
  simp only [if_neg hother, h, if_true, ite_self]

/-- Directories that have been made are there. -/
theorem isDirectory_of_makeDirectories
    {t u : FileTree}
    {path : String}
    (hpath : path.isEmpty = false)
    (h : t.makeDirectories path = (u, .ok ())) :
    u.isDirectory path = true := by
  obtain ⟨before, hancestors⟩ := Path.ancestors_eq_cons path
  rw [makeDirectories, hancestors] at h
  exact isDirectory_of_makeAll hpath h

theorem makeDirectories_of_isDirectory
    {t : FileTree}
    {path : String}
    (h : t.isDirectory path = true) :
    t.makeDirectories path = (t, .ok ()) := by
  obtain ⟨before, hancestors⟩ := Path.ancestors_eq_cons path
  rw [makeDirectories, hancestors]
  exact makeAll_of_isDirectory h before

/-! ## Writing -/

/-- Where the file of a path is or may be put. -/
structure Target (t : FileTree) (path : String) (location : List String) : Prop where
  fault : pathFault? path = none
  name : isDots (splitLast path).2 = false
  ending : Path.endsWithSeparator path = false
  length : ¬ longestName < (splitLast path).2.utf8ByteSize
  free : t.node? location ≠ some .directory
  parent : ∃ middle : List String,
    t.directoryOf (splitLast path).1 = .ok middle ∧ location = middle ++ [(splitLast path).2]

/-- A file can be opened exactly where it may be put, unless the tree can only be read; a device can be
opened all the same. -/
theorem openFile_eq_ok_iff
    (t : FileTree)
    (path : String)
    (location : List String) :
    t.openFile path = .ok location ↔
      t.Target path location ∧ (t.readOnly = false ∨ t.node? location = some .void) := by
  unfold openFile
  constructor
  · intro h
    split at h
    · cases h
    rename_i hfault
    simp only [bind, Except.bind] at h
    split at h
    · cases h
    rename_i middle hdirectory
    split at h
    · cases h
    rename_i hplain
    simp only [not_or, Bool.not_eq_true] at hplain
    split at h
    · cases h
    rename_i hlength
    have htarget : ∀ {l : List String}, l = middle ++ [(splitLast path).2] →
        t.node? l ≠ some .directory → t.Target path l := fun hlocation hfree =>
      ⟨hfault, hplain.1, hplain.2, hlength, hfree, middle, hdirectory, hlocation⟩
    split at h
    · cases h
    · rename_i hvoid
      cases h
      exact ⟨htarget rfl (by simp [hvoid]), .inr hvoid⟩
    · rename_i hfree _
      split at h
      · cases h
      rename_i hwrite
      cases h
      exact ⟨htarget rfl hfree, .inl (by simpa using hwrite)⟩
  · rintro ⟨⟨hfault, hname, hend, hlength, hfree, middle, hdirectory, rfl⟩, hwrite⟩
    simp only [hfault, hdirectory, bind, Except.bind, hname, hend, Bool.false_eq_true, or_self, if_false,
      if_neg hlength]
    split
    · rename_i hdir
      exact absurd hdir hfree
    · rfl
    · rename_i hother
      rcases hwrite with hopen | hvoid
      · rw [hopen, if_neg Bool.false_ne_true]
      · exact absurd hvoid hother

namespace Target

variable {t : FileTree} {path : String} {location : List String}

theorem ne_nil
    (h : t.Target path location) :
    location ≠ [] := by
  obtain ⟨middle, -, rfl⟩ := h.parent
  simp

/-- The file of a path has one place. -/
theorem unique
    {other : List String}
    (h : t.Target path location)
    (hother : t.Target path other) :
    location = other := by
  obtain ⟨middle, hdirectory, rfl⟩ := h.parent
  obtain ⟨found, hfound, rfl⟩ := hother.parent
  rw [hdirectory] at hfound
  cases hfound
  rfl

/-- Writing a file leaves everything to be followed that could be. -/
theorem extends_put
    (h : t.Target path location)
    (node : FileNode) :
    t.Extends (t.put location node) :=
  FileTree.extends_put t h.ne_nil fun hdir => absurd hdir h.free

theorem node?_put
    (h : t.Target path location)
    (node : FileNode) :
    (t.put location node).node? location = some node := by
  rw [FileTree.node?_put t location location _ h.ne_nil, if_pos rfl]

/-- A file that has been written can be written again. -/
theorem put
    (h : t.Target path location)
    {node : FileNode}
    (hnode : node ≠ .directory) :
    (t.put location node).Target path location := by
  obtain ⟨middle, hdirectory, hlocation⟩ := h.parent
  refine { h with
    free := by simpa [h.node?_put node] using hnode
    parent := ⟨middle, (h.extends_put node).directoryOf hdirectory, hlocation⟩ }

/-- A path leads to what stands where its file may be put. -/
theorem locate
    (h : t.Target path location)
    (hthere : (t.node? location).isSome = true) :
    t.locate path = .ok location := by
  obtain ⟨middle, hdirectory, rfl⟩ := h.parent
  obtain ⟨hwalk, hdir⟩ := (directoryOf_eq_ok_iff _ _ middle).mp hdirectory
  unfold FileTree.locate
  rw [h.fault]
  simp only
  rw [components_of_name h.name h.ending, walk_append, hwalk]
  show walk _ middle _ = _
  rw [walk_name [] hdir h.name h.length hthere]
  rfl

/-- A file that has been put there is read. -/
theorem read
    (h : t.Target path location)
    (content : Content) :
    (t.put location (.file content)).read path = .ok content := by
  have hnode := h.node?_put (.file content)
  have htarget : (t.put location (.file content)).Target path location := h.put (by simp)
  have hlocate := htarget.locate (by simp [hnode])
  simp [FileTree.read, hlocate, bind, Except.bind, hnode]

end Target

/-! ## Plain files -/

/-- What stands at a location, if anything does, is neither a sealed file nor a device. -/
structure Plain (t : FileTree) (location : List String) : Prop where
  void : t.node? location ≠ some .void
  sealed : ∀ content : Content, t.node? location ≠ some (.sealed content)

section Fill

variable {t : FileTree} {location : List String}

/-- A plain file holds what it is given. -/
theorem fill_of_plain
    (hplain : t.Plain location)
    (hjam : t.jam = none)
    (content : Content) :
    t.fill location content = (t.put location (.file content), .ok ()) := by
  unfold fill
  split
  · rename_i hvoid
    exact absurd hvoid hplain.void
  · rename_i old hsealed
    exact absurd hsealed (hplain.sealed old)
  · rw [fill.keep, hjam]

/-- Where nothing jams, a file that is not plain does not become so. -/
theorem fill_of_not_plain
    (hplain : ¬t.Plain location)
    (hjam : t.jam = none)
    (hroot : location ≠ [])
    (content : Content) :
    (t.fill location content).2 = .ok () ∧ ¬(t.fill location content).1.Plain location := by
  unfold fill
  split
  · exact ⟨rfl, hplain⟩
  · rw [fill.keep, hjam]
    refine ⟨rfl, fun h => h.sealed content ?_⟩
    rw [node?_put t location location _ hroot, if_pos rfl]
  · rename_i hvoid hsealed
    exact absurd ⟨hvoid, hsealed⟩ hplain

/-- Writing fails where it breaks off, but for devices. -/
theorem fill_of_jammed
    {jam : Jam}
    (hvoid : t.node? location ≠ some .void)
    (hjam : t.jam = some jam)
    (content : Content) :
    (t.fill location content).2 = .error jam.fault := by
  unfold fill
  split
  · rename_i h
    exact absurd h hvoid
  · rw [fill.keep, hjam]
  · rw [fill.keep, hjam]

/-- What is given to a file changes nothing else of the tree. -/
theorem exists_put_of_fill
    (t : FileTree)
    (location : List String)
    (content : Content) :
    (t.fill location content).1 = t ∨
      ∃ node : FileNode, node ≠ .directory ∧ (t.fill location content).1 = t.put location node := by
  unfold fill
  split
  · exact .inl rfl
  · unfold fill.keep
    split
    · exact .inr ⟨_, by simp, rfl⟩
    · exact .inr ⟨_, by simp, rfl⟩
  · unfold fill.keep
    split
    · exact .inr ⟨_, by simp, rfl⟩
    · exact .inr ⟨_, by simp, rfl⟩

end Fill

end FileTree
end LifecycleTelemetry
