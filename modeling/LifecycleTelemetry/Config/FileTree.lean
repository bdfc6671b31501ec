import LifecycleTelemetry.Config.Environment
import LifecycleTelemetry.Config.Path
import LifecycleTelemetry.Failure.SystemError

/-!
# File trees

The files that a process can see, as a map from locations to files and directories. A location is the
list of names that lead to it from the directory in which the process works. A path is walked name by
name: every name but the last must be that of a directory, `.` stays where it is and `..` goes back.
The working directory itself has nothing above it.

A file can be read and written, or it is sealed: then it can be written and not read. In place of a file
there can be a device that takes everything and keeps nothing.

A tree may be read-only, as on a medium that is: it can be followed and read, and nothing in it can be
made, written or removed. Or it may be jammed, as on a medium that is full: a file can still be opened to be
written, which empties it, but the writing breaks off.

The rules for what goes wrong, and for which of two mistakes is reported, are those of the system: a
path is looked at from its start, and the first name that cannot be followed decides. That a tree is
read-only comes last.
-/

namespace LifecycleTelemetry

open Failure (SystemError)

/-- What can stand at a location: among others, a file that can only be written, and a device that keeps
nothing of what is written to it. -/
inductive FileNode where
  | directory
  | file (content : Content)
  | sealed (content : Content)
  | void
deriving DecidableEq

/-- How writing breaks off: how many bytes are kept of what is written, and what is said of it. -/
structure Jam where
  bytes : Nat
  fault : SystemError
deriving DecidableEq

/-- The files and directories below the working directory, whether they can only be read, and how writing to
them breaks off, if it does. -/
structure FileTree where
  nodes : List (List String × FileNode)
  readOnly : Bool
  jam : Option Jam
deriving DecidableEq

namespace FileTree

/-- A tree with nothing in it. -/
def empty : FileTree :=
  ⟨[], false, none⟩

/-- What stands at a location; the working directory always does. -/
def node? (t : FileTree) (location : List String) : Option FileNode :=
  if location.isEmpty then some .directory
  else (t.nodes.find? fun entry => entry.1 == location).map (·.2)

/-- The tree with something at a location in place of whatever stood there. -/
def put (t : FileTree) (location : List String) (node : FileNode) : FileTree :=
  { t with nodes := t.nodes.filter (fun entry => entry.1 != location) ++ [(location, node)] }

/-- The tree without what stands at a location. -/
def erase (t : FileTree) (location : List String) : FileTree :=
  { t with nodes := t.nodes.filter fun entry => entry.1 != location }

/-- The greatest number of bytes of a name. -/
def longestName : Nat := 255

/-- The number of bytes from which on a path is too long. -/
def longestPath : Nat := 4096

/-- What is wrong with a path before any of it is followed. -/
def pathFault? (path : String) : Option SystemError :=
  if path.toList.contains '\x00' then some .nulInName
  else if longestPath ≤ path.utf8ByteSize then some .nameTooLong
  else if path.isEmpty then some .notFound
  else none

/-- The location that names lead to from a location. -/
def walk (t : FileTree) (location : List String) : List String → Except SystemError (List String)
  | [] => .ok location
  | name :: rest =>
      match t.node? location with
      | some .directory =>
          if name = "" ∨ name = "." then walk t location rest
          else if name = ".." then walk t location.dropLast rest
          else if longestName < name.utf8ByteSize then .error .nameTooLong
          else
            match t.node? (location ++ [name]) with
            | some _ => walk t (location ++ [name]) rest
            | none => .error .notFound
      | _ => .error .notADirectory

/-- The location that a path leads to. -/
def locate (t : FileTree) (path : String) : Except SystemError (List String) :=
  match pathFault? path with
  | some fault => .error fault
  | none => t.walk [] (Path.components path)

/-- Whether a path leads to something. -/
def contains (t : FileTree) (path : String) : Bool :=
  match t.locate path with
  | .ok _ => true
  | .error _ => false

/-- Whether a path leads to a directory. -/
def isDirectory (t : FileTree) (path : String) : Bool :=
  match t.locate path with
  | .ok location => t.node? location == some .directory
  | .error _ => false

/-- What the file holds that a path leads to. -/
def read (t : FileTree) (path : String) : Except SystemError Content := do
  match t.node? (← t.locate path) with
  | some (.file content) => .ok content
  | some (.sealed _) => .error .permissionDenied
  | some .void => .ok (.text "")
  | some .directory => .error .isADirectory
  | none => .error .notFound

/-- The text of the file that a path leads to. -/
def readText (t : FileTree) (path : String) : Except SystemError String := do
  match ← t.read path with
  | .text s => .ok s
  | .undecodable _ => .error .undecodable

/-- The names of a path before its last one, and the last one. -/
def splitLast (path : String) : List String × String :=
  let names := (Path.components path).reverse.dropWhile (· == "")
  (names.tail.reverse, names.headD "")

/-- The directory at the end of names, which may be a place for something new. -/
def directoryOf (t : FileTree) (names : List String) : Except SystemError (List String) := do
  let location ← t.walk [] names
  match t.node? location with
  | some .directory => .ok location
  | _ => .error .notADirectory

/-- Whether a name stands for a directory by itself. -/
def isDots (name : String) : Bool :=
  name == "" || name == "." || name == ".."

/-- The tree with a directory of the given path, whose last name must be new. -/
def makeDirectory (t : FileTree) (path : String) : Except SystemError FileTree :=
  match pathFault? path with
  | some fault => .error fault
  | none => do
      let (before, name) := splitLast path
      let location ← t.directoryOf before
      if isDots name then .error .alreadyExists
      else if longestName < name.utf8ByteSize then .error .nameTooLong
      else if (t.node? (location ++ [name])).isSome then .error .alreadyExists
      else if t.readOnly then .error .readOnly
      else .ok (t.put (location ++ [name]) .directory)

/-- Makes the directory of the first path, after those of the paths that stand before it if it cannot
be made yet. A directory that is there already will do. -/
def makeAll (t : FileTree) : List String → FileTree × Except SystemError Unit
  | [] => (t, .ok ())
  | path :: before =>
      if path.isEmpty then (t, .ok ())
      else
        match t.makeDirectory path with
        | .ok t => (t, .ok ())
        | .error fault =>
            if fault = .notFound then
              match makeAll t before with
              | (t, .error fault) => (t, .error fault)
              | (t, .ok ()) =>
                  match t.makeDirectory path with
                  | .ok t => (t, .ok ())
                  | .error fault =>
                      if t.isDirectory path then (t, .ok ()) else (t, .error fault)
            else if t.isDirectory path then (t, .ok ())
            else (t, .error fault)

/-- Makes the directory of a path and all those before it that are missing. Directories that have
been made stay even when a later one cannot be made. -/
def makeDirectories (t : FileTree) (path : String) : FileTree × Except SystemError Unit :=
  t.makeAll (Path.ancestors path)

/-- Opens the file of a path to be written, which may be a new one: where it is. -/
def openFile (t : FileTree) (path : String) : Except SystemError (List String) :=
  match pathFault? path with
  | some fault => .error fault
  | none => do
      let (before, name) := splitLast path
      let location ← t.directoryOf before
      if isDots name ∨ Path.endsWithSeparator path then .error .isADirectory
      else if longestName < name.utf8ByteSize then .error .nameTooLong
      else
        match t.node? (location ++ [name]) with
        | some .directory => .error .isADirectory
        | some .void => .ok (location ++ [name])
        | _ => if t.readOnly then .error .readOnly else .ok (location ++ [name])

/-- Gives a content to the file at a location in place of what it holds. Where writing breaks off, the start
of the content is all that the file holds then. -/
def fill (t : FileTree) (location : List String) (content : Content) :
    FileTree × Except SystemError Unit :=
  match t.node? location with
  | some .void => (t, .ok ())
  | some (.sealed _) => keep .sealed
  | _ => keep .file
where
  /-- Keeps as much of the content as there is room for, in a file of some kind. -/
  keep (kind : Content → FileNode) : FileTree × Except SystemError Unit :=
    match t.jam with
    | none => (t.put location (kind content), .ok ())
    | some jam => (t.put location (kind (content.cut jam.bytes)), .error jam.fault)

/-- Writes the file of a path, so that it holds the given content and nothing else. -/
def write (t : FileTree) (path : String) (content : Content) : FileTree × Except SystemError Unit :=
  match t.openFile path with
  | .error fault => (t, .error fault)
  | .ok location => t.fill location content

/-- The tree without the file that a path leads to, if it does lead to one that can be removed. -/
def removeFile? (t : FileTree) (path : String) : Option FileTree :=
  match t.locate path with
  | .ok location =>
      match t.node? location with
      | some .directory => none
      | none => none
      | some _ => if t.readOnly then none else some (t.erase location)
  | .error _ => none

/-- The path of each file from the working directory, with what it holds. -/
def files (t : FileTree) : List (String × Content) :=
  t.nodes.filterMap fun entry =>
    match entry.2 with
    | .file content => some ("/".intercalate entry.1, content)
    | .sealed content => some ("/".intercalate entry.1, content)
    | .void => none
    | .directory => none

/-- What has been put at a location stands there, and nothing else has changed. -/
theorem node?_put
    (t : FileTree)
    (location other : List String)
    (node : FileNode)
    (h : location ≠ []) :
    (t.put location node).node? other =
      if other = location then some node else t.node? other := by
  by_cases hroot : other = []
  · subst hroot
    simp [node?, Ne.symm h]
  · have hfind :
        ∀ nodes : List (List String × FileNode), other ≠ location →
          (nodes.filter fun entry => entry.1 != location).find? (fun entry => entry.1 == other)
            = nodes.find? fun entry => entry.1 == other := by
      intro nodes hne
      induction nodes with
      | nil => rfl
      | cons entry rest ih =>
          by_cases hentry : entry.1 = location
          · have hskip : (entry.1 == other) = false := by
              simpa [hentry] using Ne.symm hne
            simp only [List.filter_cons, hentry, bne_self_eq_false, Bool.false_eq_true, if_false]
            rw [ih, List.find?_cons, hskip]
          · have hkeep : (entry.1 != location) = true := by simpa using hentry
            simp only [List.filter_cons, hkeep, if_true, List.find?_cons]
            rw [ih]
    by_cases hsame : other = location
    · subst hsame
      have hnone :
          (t.nodes.filter fun entry => entry.1 != other).find? (fun entry => entry.1 == other)
            = none := by
        simp [List.find?_eq_none]
      simp [node?, put, hroot, List.find?_append, hnone]
    · have hlast : (location == other) = false := by simpa using Ne.symm hsame
      simp [node?, put, hroot, hsame, List.find?_append, hfind t.nodes hsame, hlast]

end FileTree
end LifecycleTelemetry
