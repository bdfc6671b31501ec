/-!
# Paths

Paths as texts, with `/` between their components. Repeated separators, a separator at the end and
components `.` after the first say nothing, so that `a/./b//` has the components of `a/b`; a path that
starts with a separator is absolute.
-/

namespace LifecycleTelemetry
namespace Path

/-- Whether a path starts at the root. -/
def isAbsolute (path : String) : Bool :=
  path.toList.head? == some '/'

/-- A path followed by one more component. -/
def join (path component : String) : String :=
  if path.isEmpty ∨ path.toList.getLast? = some '/' then path ++ component
  else path ++ "/" ++ component

/-- A path, read from its end, without what says nothing there. -/
def stripReversed : List Char → List Char
  | ['/'] => ['/']
  | '/' :: rest => stripReversed rest
  | '.' :: '/' :: rest => stripReversed ('/' :: rest)
  | rest => rest
termination_by cs => cs.length

/-- What stands before the last component of a path; nothing for the root and the empty path. -/
def parent? (path : String) : Option String :=
  match stripReversed path.toList.reverse with
  | [] => none
  | ['/'] => none
  | trimmed =>
      let before := trimmed.dropWhile (· != '/')
      some (String.ofList (stripReversed before).reverse)

/-- A path and the paths before its last component, the one before its last two, and so on. -/
def ancestors (path : String) : List String :=
  go path.length path
where
  /-- The ancestors of a path of at most the given length. -/
  go : Nat → String → List String
    | 0, path => [path]
    | fuel + 1, path =>
        match parent? path with
        | some parent => path :: go fuel parent
        | none => [path]

/-- The texts between the separators of a path. -/
def components (path : String) : List String :=
  (split [] path.toList).map String.ofList
where
  /-- Splits at the separators, with the component that has been begun, reversed. -/
  split (begun : List Char) : List Char → List (List Char)
    | [] => [begun.reverse]
    | '/' :: rest => begun.reverse :: split [] rest
    | c :: rest => split (c :: begun) rest

/-- Whether a path ends with a separator. -/
def endsWithSeparator (path : String) : Bool :=
  path.toList.getLast? == some '/'

end Path
end LifecycleTelemetry
