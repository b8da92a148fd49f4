import ReviewDiff.Text.Cut
import ReviewDiff.Text.Number
import ReviewDiff.Text.Utf8

/-!
# Headers for empty files

A patch program can neither create nor delete an empty file, so a diff carries a
header line `==== <depot path>#<revision> ==<mark>== <target> ====` instead.
`specialHeader` writes such a line and `EmptyFile.readHeaders` finds those that
add (`A`) or delete (`D`) a file.  The header of a pure move has the mark `MV` and
is not one of them.
-/

namespace ReviewDiff.Patch

/-- A header line with the blank line that follows it. -/
def specialHeader (path : String) (revision : Nat) (mark target : String) : String :=
  "==== " ++ path ++ "#" ++ toString revision ++ " ==" ++ mark ++ "== " ++ target ++
    " ====\n\n"

namespace EmptyFile

inductive Operation where
  | added
  | deleted
  deriving DecidableEq, Repr

def Operation.reversed : Operation → Operation
  | .added => .deleted
  | .deleted => .added

def Operation.mark : Operation → String
  | .added => "A"
  | .deleted => "D"

structure Header where
  depotPath : String
  revision : Nat
  operation : Operation
  localPath : String
  deriving DecidableEq, Repr

def Header.render (header : Header) : String :=
  specialHeader header.depotPath header.revision header.operation.mark header.localPath

/-! ## Reading -/

def readName? (bytes : Bytes) : Option String :=
  if bytes.isEmpty then none else Utf8.decode? bytes

/-- A revision number from its bytes: ASCII digits only. -/
def readRevision? (bytes : Bytes) : Option Nat :=
  match Utf8.decode? bytes with
  | some text => Text.readDigits? Text.max64 text.toList
  | none => none

/-- The operation and the remaining bytes after the mark that follows a revision.
-/
def readMark? (bytes : Bytes) : Option (Operation × Bytes) :=
  match (Utf8.encode " ==A== ").isPrefixOf? bytes with
  | some rest => some (.added, rest)
  | none => ((Utf8.encode " ==D== ").isPrefixOf? bytes).map (.deleted, ·)

def beforeEnding? (ending bytes : Bytes) : Option Bytes :=
  (ending.reverse.isPrefixOf? bytes.reverse).map List.reverse

/-- The header that a line is, if it is one.  The depot path ends at the first `#`
and the local path at the ending of the line. -/
def readHeader? (line : Bytes) : Option Header := do
  let rest ← (Utf8.encode "==== ").isPrefixOf? line
  let (depot, afterDepot) := rest.span (· ≠ 35)
  let depotPath ← readName? depot
  let (digits, afterRevision) := (afterDepot.drop 1).span (· ≠ 32)
  let revision ← readRevision? digits
  let (operation, target) ← readMark? afterRevision
  let localPath ← readName? (← beforeEnding? (Utf8.encode " ====") target)
  return { depotPath, revision, operation, localPath }

def readHeaders (patch : Bytes) : List Header :=
  (patch.splitOn 10).filterMap readHeader?

end EmptyFile

end ReviewDiff.Patch
