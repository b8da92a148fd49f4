import ReviewDiff.Host.Errno
import ReviewDiff.Text.Cut
import ReviewDiff.Text.Utf8

/-!
# Files and directories as a value

A `FileTree` answers questions about files the way an operating system does, error
numbers included.  A path is walked name by name: what is walked through has to be
a directory, and `..` leads back to the directory above.
-/

namespace ReviewDiff.Host

inductive Node where
  | directory
  | file (contents : Bytes)
  deriving DecidableEq, Repr

/-- Files and directories, each with the names that lead to it from the root. -/
structure FileTree where
  nodes : List (List String × Node)
  deriving DecidableEq, Repr

namespace FileTree

def empty : FileTree := ⟨[]⟩

def node? (tree : FileTree) (names : List String) : Option Node :=
  if names.isEmpty then some .directory else tree.nodes.lookup names

def put (tree : FileTree) (names : List String) (node : Node) : FileTree :=
  ⟨(names, node) :: tree.nodes.filter (·.1 ≠ names)⟩

def erase (tree : FileTree) (names : List String) : FileTree :=
  ⟨tree.nodes.filter (·.1 ≠ names)⟩

/-! ## Walking a path -/

/-- How many bytes a name may have. -/
def maxNameLength : Nat := 255

def step (names : List String) (piece : String) : List String :=
  if piece = "" || piece = "." then names
  else if piece = ".." then names.dropLast
  else names ++ [piece]

/-- Walks the pieces of a path that have to be there, from the end of the given
names. -/
def walk (tree : FileTree) (names : List String) : List String → Except Fault (List String)
  | [] => .ok names
  | piece :: rest =>
      match tree.node? names with
      | some .directory =>
          if maxNameLength < piece.utf8ByteSize then .error (.os nameTooLong)
          else if (tree.node? (step names piece)).isSome then walk tree (step names piece) rest
          else .error (.os notFound)
      | some (.file _) => .error (.os notADirectory)
      | none => .error (.os notFound)

def pieces (path : String) : Except Fault (List String) :=
  if path = "" then .error (.os notFound)
  else if Text.contains "\x00" path then .error .nulInPath
  else .ok (Text.split '/' path)

/-- The names that lead to what a path denotes, which has to be there. -/
def locate (tree : FileTree) (path : String) : Except Fault (List String) := do
  tree.walk [] (← pieces path)

def isDirectory (tree : FileTree) (path : String) : Bool :=
  match tree.locate path with
  | .ok names => tree.node? names = some .directory
  | .error _ => false

/-- Where something new can be put: the names of the directory that a path leads
to, and the last piece. -/
def locateParent (tree : FileTree) (path : String) : Except Fault (List String × String) := do
  let all ← pieces path
  let names ← tree.walk [] all.dropLast
  let last := all.getLast?.getD ""
  match tree.node? names with
  | some .directory =>
      if maxNameLength < last.utf8ByteSize then .error (.os nameTooLong) else .ok (names, last)
  | some (.file _) => .error (.os notADirectory)
  | none => .error (.os notFound)

/-! ## Files -/

def read (tree : FileTree) (path : String) : Except Fault Bytes := do
  match tree.node? (← tree.locate path) with
  | some (.file contents) => .ok contents
  | some .directory => .error (.os isADirectory)
  | none => .error (.os notFound)

/-- Puts a file with the given content at a path, in the place of a file that is
there. -/
def write (tree : FileTree) (path : String) (contents : Bytes) : Except Fault FileTree := do
  match tree.locate path with
  | .ok names =>
      match tree.node? names with
      | some (.file _) => .ok (tree.put names (.file contents))
      | _ => .error (.os isADirectory)
  | .error fault =>
      if fault ≠ .os notFound then .error fault
      else if Text.endsWith "/" path then
        let _ ← tree.locateParent ((path.dropEndWhile '/').toString)
        .error (.os isADirectory)
      else
        let (names, last) ← tree.locateParent path
        .ok (tree.put (names ++ [last]) (.file contents))

def remove (tree : FileTree) (path : String) : Except Fault FileTree := do
  let names ← tree.locate path
  match tree.node? names with
  | some (.file _) => .ok (tree.erase names)
  | _ => .error (.os isADirectory)

/-! ## Directories -/

/-- Makes a directory inside one that is there. -/
def createDirectory (tree : FileTree) (path : String) : Except Fault FileTree := do
  match tree.locate path with
  | .ok _ => .error (.os alreadyExists)
  | .error fault =>
      if fault = .os notFound then
        let (names, last) ← tree.locateParent ((path.dropEndWhile '/').toString)
        .ok (tree.put (names ++ [last]) .directory)
      else .error fault

/-- Makes the directory at the end of the given pieces and those above it, unless
they are there.  The pieces are in reverse. -/
def createChain (tree : FileTree) : List String → Except Fault FileTree
  | [] => .ok tree
  | last :: above =>
      let path := "/" ++ String.intercalate "/" (last :: above).reverse
      match tree.createDirectory path with
      | .ok larger => .ok larger
      | .error fault =>
          if fault = .os notFound then do
            let larger ← createChain tree above
            match larger.createDirectory path with
            | .ok largest => .ok largest
            | .error fault => if larger.isDirectory path then .ok larger else .error fault
          else if tree.isDirectory path then .ok tree
          else .error fault

/-- Makes a directory and those above it, unless they are there.  The directory
above a single name has an empty path, and is there. -/
def createDirectories (tree : FileTree) (path : String) : Except Fault FileTree :=
  if path = "" then .ok tree
  else do
    createChain tree ((← pieces path).filter fun piece => piece ≠ "" && piece ≠ ".").reverse

end FileTree

end ReviewDiff.Host
