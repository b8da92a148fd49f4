import ReviewDiff.Text.Cut

/-!
# File paths as text

A path is kept as it was written; its `components` are what it means.  Repeated
separators, a trailing separator and `.` in the middle mean nothing, while `..` is
a component like any other.
-/

namespace ReviewDiff.Path

/-- A component of a path.  The current directory counts only at the start of a
relative path, and `..` is a name. -/
inductive Component where
  | root
  | current
  | name (text : String)
  deriving DecidableEq, Repr

def isAbsolute (path : String) : Bool :=
  Text.startsWith "/" path

def components (path : String) : List Component :=
  let pieces := Text.split '/' path
  let names := (pieces.filter fun piece => piece ≠ "" && piece ≠ ".").map Component.name
  if isAbsolute path then .root :: names
  else if pieces.head? = some "." then .current :: names
  else names

/-- A path seen from a directory.  An absolute path stays as it is. -/
def join (directory path : String) : String :=
  if isAbsolute path then path
  else if directory = "" || Text.endsWith "/" directory then directory ++ path
  else directory ++ "/" ++ path

/-- Whether a path lies in a directory or is the directory, component by
component. -/
def isWithin (directory path : String) : Bool :=
  (components directory).isPrefixOf (components path)

def depth (path : String) : Nat :=
  (components path).length

def ofComponents : List Component → String
  | [] => ""
  | .root :: names => "/" ++ ofComponents names
  | .current :: rest => "./" ++ ofComponents rest
  | [.name text] => text
  | .name text :: rest => text ++ "/" ++ ofComponents rest

/-- The directory that holds what a path names; the root and the empty path have
none. -/
def parent? (path : String) : Option String :=
  match (components path).reverse with
  | [] | .root :: _ => none
  | _ :: rest => some (ofComponents rest.reverse)

end ReviewDiff.Path
