import LifecycleTelemetry.Proofs.Config.FileTree

/-!
# A file that can be read can be written

A path that leads to a file ends with a name, and what stands before the name leads to a directory. The
parent of the path is the same directory by a shorter text: nothing is left out of it but separators
and components that say nothing. A program that makes the parent of a file before writing it therefore
never fails to make it when the file is there, and only in a tree that can only be read does it fail to
open the file.

The same holds of the parent of a directory, whether it is there or can be made.
-/

namespace LifecycleTelemetry

open Failure (SystemError)

namespace Path

/-- The texts between the separators of a list of characters. -/
def names (cs : List Char) : List String :=
  (components.split [] cs).map String.ofList

theorem split_append
    (begun before after : List Char) :
    components.split begun (before ++ '/' :: after)
      = components.split begun before ++ components.split [] after := by
  induction before generalizing begun with
  | nil =>
      rfl
  | cons c before ih =>
      by_cases hc : c = '/'
      · subst hc
        simp [components.split, ih]
      · rw [List.cons_append, components.split.eq_3 _ _ _ hc, components.split.eq_3 _ _ _ hc, ih]

theorem names_append
    (before after : List Char) :
    names (before ++ '/' :: after) = names before ++ names after := by
  rw [names, split_append, List.map_append]
  rfl

theorem split_of_not_mem
    {cs : List Char}
    (begun : List Char)
    (h : '/' ∉ cs) :
    components.split begun cs = [begun.reverse ++ cs] := by
  induction cs generalizing begun with
  | nil =>
      simp [components.split]
  | cons c cs ih =>
      have hc : c ≠ '/' := fun hslash => h (hslash ▸ List.mem_cons_self)
      rw [components.split.eq_3 begun c cs hc, ih _ fun hmem => h (List.mem_cons_of_mem _ hmem)]
      simp

/-- A text without separators is a single name. -/
theorem names_of_not_mem
    {cs : List Char}
    (h : '/' ∉ cs) :
    names cs = [String.ofList cs] := by
  rw [names, split_of_not_mem [] h]
  rfl

/-- The empty name comes last where a separator does. -/
theorem getLast?_components
    {path : String}
    (h : endsWithSeparator path = true) :
    (components path).getLast? = some "" := by
  obtain ⟨before, hpath⟩ := List.getLast?_eq_some_iff.mp (beq_iff_eq.mp h)
  have hcomponents : components path = names before ++ [""] := by
    show names path.toList = _
    rw [hpath, names_append]
    rfl
  rw [hcomponents, List.getLast?_concat]

/-- Only the end of a reversed path is kept. -/
theorem stripReversed_suffix
    (cs : List Char) :
    stripReversed cs <:+ cs := by
  fun_induction stripReversed cs with
  | case1 => exact List.suffix_rfl
  | case2 rest _ ih => exact ih.trans (List.suffix_cons _ _)
  | case3 rest ih => exact ih.trans (List.suffix_cons _ _)
  | case4 rest => exact List.suffix_rfl

/-- At the end of a name there is nothing to leave out. -/
theorem stripReversed_of_name
    {last : List Char}
    (before : List Char)
    (hslash : '/' ∉ last)
    (hempty : last ≠ [])
    (hdot : last ≠ ['.']) :
    stripReversed (last ++ before) = last ++ before := by
  obtain ⟨c, more, rfl⟩ := List.exists_cons_of_ne_nil hempty
  have hc : c ≠ '/' := fun hsame => hslash (hsame ▸ List.mem_cons_self)
  rw [List.cons_append, stripReversed]
  · intro hcons
    exact hc (List.cons.inj hcons).1
  · intro rest hcons
    exact hc (List.cons.inj hcons).1
  · intro rest hcons
    obtain ⟨rfl, hrest⟩ := List.cons.inj hcons
    cases more with
    | nil => exact hdot rfl
    | cons d more =>
        obtain ⟨rfl, -⟩ := List.cons.inj hrest
        exact hslash (List.mem_cons_of_mem _ List.mem_cons_self)

/-- Separators at the end of a path are left out. -/
theorem stripReversed_of_separators
    {last : List Char}
    (before : List Char)
    (hslash : '/' ∉ last)
    (hempty : last ≠ [])
    (hdot : last ≠ ['.'])
    (count : Nat) :
    stripReversed (List.replicate count '/' ++ (last ++ before)) = last ++ before := by
  induction count with
  | zero =>
      exact stripReversed_of_name before hslash hempty hdot
  | succ count ih =>
      have hmore : List.replicate count '/' ++ (last ++ before) ≠ [] := by simp [hempty]
      rw [List.replicate_succ, List.cons_append, stripReversed.eq_2 _ fun hnil => hmore hnil]
      exact ih

/-- What stands before the last name of a path, when it has one. -/
theorem parent?_of_name
    {path : String}
    {last : List Char}
    {count : Nat}
    (before : List Char)
    (hslash : '/' ∉ last)
    (hempty : last ≠ [])
    (hdot : last ≠ ['.'])
    (hpath : path.toList.reverse = List.replicate count '/' ++ (last.reverse ++ before))
    (hbefore : before = [] ∨ before.head? = some '/') :
    parent? path = some (String.ofList (stripReversed before).reverse) := by
  have hslash' : '/' ∉ last.reverse := by simpa using hslash
  have hempty' : last.reverse ≠ [] := by simpa using hempty
  have hdot' : last.reverse ≠ ['.'] := fun h => hdot (List.reverse_eq_iff.mp h)
  have hstrip := stripReversed_of_separators before hslash' hempty' hdot' count
  have hrest : (last.reverse ++ before).dropWhile (· != '/') = before := by
    have hall : ∀ c ∈ last.reverse, (c != '/') = true := fun c hc => by
      simpa using fun hsame : c = '/' => hslash' (hsame ▸ hc)
    rw [List.dropWhile_append_of_pos hall]
    rcases hbefore with rfl | hhead
    · rfl
    · obtain ⟨more, rfl⟩ := List.head?_eq_some_iff.mp hhead
      rfl
  rw [parent?, hpath, hstrip]
  split
  · rename_i hnil
    exact absurd (List.append_eq_nil_iff.mp hnil).1 hempty'
  · rename_i hroot
    exfalso
    obtain ⟨c, more, hcons⟩ := List.exists_cons_of_ne_nil hempty'
    rw [hcons, List.cons_append] at hroot
    rw [hcons, (List.cons.inj hroot).1] at hslash'
    exact hslash' List.mem_cons_self
  · rw [hrest]

/-- A text is a single name, or it ends with a separator and a name. -/
theorem eq_name_or_concat_name
    (cs : List Char) :
    ∃ last : List Char, '/' ∉ last ∧
      (cs = last ∨ ∃ before : List Char, cs = before ++ '/' :: last) := by
  induction cs with
  | nil =>
      exact ⟨[], List.not_mem_nil, Or.inl rfl⟩
  | cons c cs ih =>
      obtain ⟨last, hslash, rfl | ⟨before, rfl⟩⟩ := ih
      · by_cases hc : c = '/'
        · exact ⟨cs, hslash, Or.inr ⟨[], by rw [hc]; rfl⟩⟩
        · refine ⟨c :: cs, fun hmem => ?_, Or.inl rfl⟩
          rcases List.mem_cons.mp hmem with hsame | hmore
          · exact hc hsame.symm
          · exact hslash hmore
      · exact ⟨last, hslash, Or.inr ⟨c :: before, rfl⟩⟩

/-- A text whose last names are empty ends with as many separators. -/
theorem eq_of_names
    (cs : List Char)
    {before : List String}
    {name : String}
    {count : Nat}
    (h : names cs = before ++ name :: List.replicate count "") :
    ∃ last : List Char, '/' ∉ last ∧ String.ofList last = name ∧
      (cs = last ++ List.replicate count '/' ∧ before = [] ∨
        ∃ front : List Char, cs = front ++ '/' :: (last ++ List.replicate count '/') ∧
          names front = before) := by
  induction count generalizing cs with
  | zero =>
      obtain ⟨last, hslash, rfl | ⟨front, rfl⟩⟩ := eq_name_or_concat_name cs
      · rw [names_of_not_mem hslash] at h
        obtain ⟨hbefore, hname⟩ := List.append_inj' (show [] ++ [String.ofList cs] = before ++ [name] from h) rfl
        exact ⟨cs, hslash, (List.cons.inj hname).1, Or.inl ⟨by simp, hbefore.symm⟩⟩
      · rw [names_append, names_of_not_mem hslash] at h
        obtain ⟨hbefore, hname⟩ := List.append_inj' h rfl
        exact ⟨last, hslash, (List.cons.inj hname).1, Or.inr ⟨front, by simp, hbefore⟩⟩
  | succ count ih =>
      have hblanks : before ++ name :: List.replicate (count + 1) ""
          = (before ++ name :: List.replicate count "") ++ [""] := by
        rw [List.replicate_succ', List.append_assoc, List.cons_append]
      rw [hblanks] at h
      obtain ⟨last, hslash, rfl | ⟨front, rfl⟩⟩ := eq_name_or_concat_name cs
      · rw [names_of_not_mem hslash] at h
        have hlength : 1 = before.length + (count + 1 + 1) := by simpa using congrArg List.length h
        omega
      · rw [names_append, names_of_not_mem hslash] at h
        obtain ⟨hfront, hname⟩ := List.append_inj' h rfl
        have hempty : last = [] := by simpa using hname
        subst hempty
        obtain ⟨name', hslash', hname', ⟨rfl, hbefore⟩ | ⟨more, rfl, hbefore⟩⟩ := ih _ hfront
        · exact ⟨name', hslash', hname', Or.inl ⟨by simp [List.replicate_succ'], hbefore⟩⟩
        · exact ⟨name', hslash', hname', Or.inr ⟨more, by simp [List.replicate_succ'], hbefore⟩⟩

end Path

namespace FileTree

variable {t : FileTree}

/-! ## Walks and directories -/

/-- Everything before a location is a directory. -/
def Rooted (t : FileTree) (location : List String) : Prop :=
  ∀ n : Nat, n < location.length → t.node? (location.take n) = some .directory

theorem rooted_nil
    (t : FileTree) :
    t.Rooted [] :=
  fun _ h => absurd h (Nat.not_lt_zero _)

theorem Rooted.dropLast
    {location : List String}
    (h : t.Rooted location) :
    t.Rooted location.dropLast ∧ t.node? location.dropLast = some .directory := by
  rw [List.dropLast_eq_take]
  constructor
  · intro n hn
    rw [List.length_take] at hn
    rw [List.take_take, Nat.min_eq_left (by omega)]
    exact h n (by omega)
  · cases location with
    | nil => rfl
    | cons name rest => exact h _ (by simp)

theorem Rooted.concat
    {location : List String}
    (h : t.Rooted location)
    (hdir : t.node? location = some .directory)
    (name : String) :
    t.Rooted (location ++ [name]) := by
  intro n hn
  rw [List.length_append, List.length_singleton] at hn
  rw [List.take_append_of_le_length (by omega)]
  rcases Nat.lt_or_eq_of_le (Nat.le_of_lt_succ hn) with hless | rfl
  · exact h n hless
  · rw [List.take_length]
    exact hdir

/-- A walk comes to where everything before is a directory. -/
theorem Rooted.walk
    {location target : List String}
    {names : List String}
    (h : t.Rooted location)
    (hwalk : t.walk location names = .ok target) :
    t.Rooted target := by
  fun_induction t.walk location names with
  | case1 location =>
      cases hwalk
      exact h
  | case2 location name rest hdir hstay ih =>
      exact ih h hwalk
  | case3 location rest hdir hstay ih =>
      exact ih h.dropLast.1 hwalk
  | case4 location name rest hdir hstay hback hlong =>
      cases hwalk
  | case5 location name rest hdir hstay hback hshort node hnode ih =>
      exact ih (h.concat hdir name) hwalk
  | case6 =>
      cases hwalk
  | case7 =>
      cases hwalk

/-- What says nothing at the end of a path leads nowhere else. -/
theorem walk_stripReversed
    {location : List String}
    {cs : List Char}
    (hdir : t.node? location = some .directory)
    (hwalk : t.walk [] (Path.names cs.reverse) = .ok location) :
    t.walk [] (Path.names (Path.stripReversed cs).reverse) = .ok location := by
  have hstay :
      ∀ (before : List String) (name : String), name = "" ∨ name = "." →
        t.walk [] (before ++ [name]) = .ok location → t.walk [] before = .ok location := by
    intro before name hname hwhole
    rw [walk_append] at hwhole
    cases hbefore : t.walk [] before with
    | error fault =>
        rw [hbefore] at hwhole
        cases hwhole
    | ok middle =>
        rw [hbefore] at hwhole
        simp only [Except.bind, walk] at hwhole
        split at hwhole
        · rw [if_pos hname] at hwhole
          exact hwhole
        · cases hwhole
  fun_induction Path.stripReversed cs with
  | case1 =>
      exact hwalk
  | case2 rest hmore ih =>
      rw [List.reverse_cons, Path.names_append] at hwalk
      exact ih (hstay _ "" (Or.inl rfl) hwalk)
  | case3 rest ih =>
      have hsplit : ('.' :: '/' :: rest).reverse = rest.reverse ++ '/' :: ['.'] := by simp
      rw [hsplit, Path.names_append] at hwalk
      have hbefore := hstay _ "." (Or.inr rfl) hwalk
      refine ih ?_
      rw [List.reverse_cons, Path.names_append, walk_append, hbefore]
      exact walk_blanks hdir 1
  | case4 rest =>
      exact hwalk

/-! ## Reading and writing -/

/-- What can be read is what a file holds, or it is nothing. -/
theorem locate_of_read
    {path : String}
    {content : Content}
    (h : t.read path = .ok content) :
    ∃ location : List String, t.locate path = .ok location ∧
      (t.node? location = some (.file content) ∨
        t.node? location = some .void ∧ content = .text "") := by
  unfold FileTree.read at h
  cases hlocate : t.locate path with
  | error fault =>
      rw [hlocate] at h
      cases h
  | ok location =>
      simp only [hlocate, bind, Except.bind] at h
      refine ⟨location, rfl, ?_⟩
      split at h
      · cases h
        exact .inl ‹_›
      · cases h
      · cases h
        exact .inr ⟨‹_›, rfl⟩
      · cases h
      · cases h

/-- The name of a file is one, and nothing stands behind it. -/
theorem walk_to_file
    {middle location : List String}
    {name : String}
    {count : Nat}
    (hrooted : t.Rooted middle)
    (hwalk : t.walk middle (name :: List.replicate count "") = .ok location)
    (hfile : t.node? location ≠ some .directory) :
    t.node? middle = some .directory ∧ isDots name = false ∧
      ¬ longestName < name.utf8ByteSize ∧ count = 0 ∧ location = middle ++ [name] := by
  have hstays : ∀ l : List String, t.node? l = some .directory →
      t.walk l (List.replicate count "") = .ok location → False := by
    intro l hdir hblanks
    rw [walk_blanks hdir] at hblanks
    cases hblanks
    exact hfile hdir
  rw [walk] at hwalk
  split at hwalk
  · rename_i hdir
    split at hwalk
    · exact (hstays middle hdir hwalk).elim
    rename_i hstay
    split at hwalk
    · exact (hstays _ hrooted.dropLast.2 hwalk).elim
    rename_i hback
    split at hwalk
    · cases hwalk
    rename_i hlength
    split at hwalk
    · have hdots : isDots name = false := by
        simp only [not_or] at hstay
        simp [isDots, hstay.1, hstay.2, hback]
      cases count with
      | zero =>
          cases hwalk
          exact ⟨hdir, hdots, hlength, rfl, rfl⟩
      | succ count =>
          have hlast := hwalk
          rw [List.replicate_succ, walk] at hlast
          split at hlast
          · rename_i hdirectory
            exact (hstays _ hdirectory hwalk).elim
          · cases hlast
    · cases hwalk
  · cases hwalk

/-- What a path leads to, unless it is a directory, stands where the file of the path may be put. -/
theorem target_of_locate
    {path : String}
    {location : List String}
    (h : t.locate path = .ok location)
    (hfile : t.node? location ≠ some .directory) :
    t.Target path location := by
  unfold locate at h
  cases hfault : pathFault? path with
  | some fault =>
      rw [hfault] at h
      cases h
  | none =>
      rw [hfault] at h
      have hwalk : t.walk [] (Path.components path) = .ok location := h
      obtain ⟨count, hcomponents⟩ := components_eq path
      rw [hcomponents, walk_append] at hwalk
      cases hbefore : t.walk [] (splitLast path).1 with
      | error fault =>
          rw [hbefore] at hwalk
          cases hwalk
      | ok middle =>
          rw [hbefore] at hwalk
          obtain ⟨hdir, hname, hlength, rfl, rfl⟩ :=
            walk_to_file ((rooted_nil t).walk hbefore) hwalk hfile
          refine ⟨hfault, hname, ?_, hlength, hfile, middle, ?_, rfl⟩
          · cases hend : Path.endsWithSeparator path with
            | false => rfl
            | true =>
                have hlast := Path.getLast?_components hend
                rw [hcomponents, List.getLast?_append] at hlast
                have hempty : (splitLast path).2 = "" := by simpa using hlast
                rw [hempty] at hname
                exact absurd hname (by decide)
          · exact (directoryOf_eq_ok_iff t _ middle).mpr ⟨hbefore, hdir⟩

/-- The start of a path that has no fault has none either. -/
theorem pathFault?_of_start
    {path parent : String}
    (hstart : parent.toList <+: path.toList)
    (hempty : parent.isEmpty = false)
    (h : pathFault? path = none) :
    pathFault? parent = none := by
  obtain ⟨rest, hrest⟩ := hstart
  have hpath : path = parent ++ String.ofList rest := by
    rw [← String.toList_inj, String.toList_append, String.toList_ofList, hrest]
  unfold pathFault? at h ⊢
  split at h
  · cases h
  rename_i hnul
  split at h
  · cases h
  rename_i hlong
  have hnul' : ¬parent.toList.contains '\x00' = true := by
    simp only [List.contains_iff_mem] at hnul ⊢
    exact fun hmem => hnul (hrest ▸ List.mem_append_left rest hmem)
  have hsize : parent.utf8ByteSize ≤ path.utf8ByteSize := by
    rw [hpath, String.utf8ByteSize_append]
    exact Nat.le_add_right _ _
  rw [if_neg hnul', if_neg (by omega), hempty]
  rfl

/-! ## Parents -/

/-- A path that ends with a proper name, up to separators, is that name, or a separator stands before the
name and before it the names before the last one. -/
theorem exists_last
    {path : String}
    (h : isDots (splitLast path).2 = false) :
    ∃ (last : List Char) (count : Nat), '/' ∉ last ∧ last ≠ [] ∧ last ≠ ['.'] ∧
      (path.toList = last ++ List.replicate count '/' ∨
        ∃ before : List Char, path.toList = before ++ '/' :: (last ++ List.replicate count '/') ∧
          Path.names before = (splitLast path).1) := by
  obtain ⟨count, hcomponents⟩ := components_eq path
  obtain ⟨last, hslash, hname, hpath⟩ := Path.eq_of_names path.toList hcomponents
  rw [← hname] at h
  refine ⟨last, count, hslash, ?_, ?_, hpath.imp And.left id⟩
  · rintro rfl
    exact absurd h (by decide)
  · rintro rfl
    exact absurd h (by decide)

/-- What stands before a separator in a path, where it leads to a directory, leads there also without
what says nothing. -/
theorem isDirectory_of_front
    {path : String}
    {front rest : List Char}
    {middle : List String}
    (hpath : path.toList = front ++ '/' :: rest)
    (hfault : pathFault? path = none)
    (hwalk : t.walk [] (Path.names front) = .ok middle)
    (hdir : t.node? middle = some .directory)
    (hempty : (String.ofList (Path.stripReversed ('/' :: front.reverse)).reverse).isEmpty = false) :
    t.isDirectory (String.ofList (Path.stripReversed ('/' :: front.reverse)).reverse) = true := by
  have hslashed : t.walk [] (Path.names ('/' :: front.reverse).reverse) = .ok middle := by
    rw [List.reverse_cons, List.reverse_reverse, Path.names_append, walk_append, hwalk]
    exact walk_blanks hdir 1
  have hstart : (Path.stripReversed ('/' :: front.reverse)).reverse <+: path.toList := by
    have hsuffix := Path.stripReversed_suffix ('/' :: front.reverse)
    have hshort : ('/' :: front.reverse).reverse <+: path.toList := ⟨rest, by simp [hpath]⟩
    exact (List.reverse_prefix.mpr hsuffix).trans hshort
  refine (isDirectory_iff t _).mpr ⟨pathFault?_of_start ?_ hempty hfault, middle, ?_, hdir⟩
  · rw [String.toList_ofList]
    exact hstart
  · show t.walk [] (Path.names (String.ofList _).toList) = _
    rw [String.toList_ofList]
    exact walk_stripReversed hdir hslashed

/-- Where the names before the last one lead to a directory, so does the parent, unless it is empty. -/
theorem isDirectory_of_directoryOf
    {path parent : String}
    {middle : List String}
    (hfault : pathFault? path = none)
    (hname : isDots (splitLast path).2 = false)
    (hdirectory : t.directoryOf (splitLast path).1 = .ok middle)
    (hparent : Path.parent? path = some parent)
    (hempty : parent.isEmpty = false) :
    t.isDirectory parent = true := by
  obtain ⟨hwalk, hdir⟩ := (directoryOf_eq_ok_iff t _ middle).mp hdirectory
  obtain ⟨last, count, hslash, hnonempty, hdot, hpath | ⟨before, hpath, hbefore⟩⟩ :=
    exists_last hname
  · -- the parent of a single name is empty
    have hreverse : path.toList.reverse = List.replicate count '/' ++ (last.reverse ++ []) := by
      simp [hpath]
    have hsome := Path.parent?_of_name [] hslash hnonempty hdot hreverse (Or.inl rfl)
    rw [hsome] at hparent
    cases hparent
    rw [Path.stripReversed] at hempty
    · cases hempty
    · simp
    · simp
    · simp
  · have hreverse : path.toList.reverse
        = List.replicate count '/' ++ (last.reverse ++ '/' :: before.reverse) := by
      simp [hpath]
    have hsome := Path.parent?_of_name _ hslash hnonempty hdot hreverse (Or.inr rfl)
    rw [hsome] at hparent
    cases hparent
    exact isDirectory_of_front hpath hfault (hbefore ▸ hwalk) hdir hempty

/-- The parent of a file that may be put somewhere is a directory, unless it is empty. -/
theorem isDirectory_of_parent?
    {path parent : String}
    {location : List String}
    (h : t.Target path location)
    (hparent : Path.parent? path = some parent)
    (hempty : parent.isEmpty = false) :
    t.isDirectory parent = true := by
  obtain ⟨middle, hdirectory, -⟩ := h.parent
  exact isDirectory_of_directoryOf h.fault h.name hdirectory hparent hempty

/-- The parent of a directory that can be made is one. -/
theorem isDirectory_parent?_of_makeDirectory
    {u : FileTree}
    {path parent : String}
    (h : t.makeDirectory path = .ok u)
    (hparent : Path.parent? path = some parent)
    (hempty : parent.isEmpty = false) :
    t.isDirectory parent = true := by
  unfold makeDirectory at h
  split at h
  · cases h
  rename_i hfault
  simp only [bind, Except.bind] at h
  split at h
  · cases h
  rename_i middle hdirectory
  split at h
  · cases h
  rename_i hdots
  exact isDirectory_of_directoryOf hfault (by simpa using hdots) hdirectory hparent hempty

/-- The parent of a directory is one. -/
theorem isDirectory_parent?
    {path parent : String}
    (h : t.isDirectory path = true)
    (hparent : Path.parent? path = some parent)
    (hempty : parent.isEmpty = false) :
    t.isDirectory parent = true := by
  obtain ⟨hfault, location, hwalk, hdir⟩ := (isDirectory_iff t path).mp h
  have hstripped :
      t.walk [] (Path.names (Path.stripReversed path.toList.reverse).reverse) = .ok location :=
    walk_stripReversed hdir (by rw [List.reverse_reverse]; exact hwalk)
  obtain ⟨ending, hending⟩ := Path.stripReversed_suffix path.toList.reverse
  unfold Path.parent? at hparent
  generalize Path.stripReversed path.toList.reverse = kept at *
  split at hparent
  · cases hparent
  · cases hparent
  have hkept := kept.takeWhile_append_dropWhile (p := (· != '/'))
  have hlast : '/' ∉ (kept.takeWhile (· != '/')).reverse := by
    intro hmem
    have hbefore := List.all_eq_true.mp List.all_takeWhile _ (List.mem_reverse.mp hmem)
    exact absurd hbefore (by decide)
  generalize kept.takeWhile (· != '/') = last at *
  cases hrest : kept.dropWhile (· != '/') with
  | nil =>
      -- the parent of a single name is empty
      rw [hrest] at hparent
      cases hparent
      rw [Path.stripReversed] at hempty
      · cases hempty
      · simp
      · simp
      · simp
  | cons c more =>
      have hc : c = '/' := by
        have hhead := List.head?_dropWhile_not (· != '/') kept
        rw [hrest] at hhead
        simpa using hhead
      subst hc
      rw [hrest] at hparent hkept
      cases hparent
      have hnames : kept.reverse = more.reverse ++ '/' :: last.reverse := by simp [← hkept]
      have hpath : path.toList = more.reverse ++ '/' :: (last.reverse ++ ending.reverse) := by
        rw [← List.reverse_reverse path.toList, ← hending, List.reverse_append, hnames]
        simp
      rw [hnames, Path.names_append, Path.names_of_not_mem hlast, walk_append] at hstripped
      cases hfront : t.walk [] (Path.names more.reverse) with
      | error fault =>
          rw [hfront] at hstripped
          cases hstripped
      | ok middle =>
          rw [hfront] at hstripped
          simp only [Except.bind, walk] at hstripped
          split at hstripped
          · rename_i hmiddle
            have hfull := isDirectory_of_front hpath hfault hfront hmiddle
            rw [List.reverse_reverse] at hfull
            exact hfull hempty
          · cases hstripped

end FileTree
end LifecycleTelemetry
