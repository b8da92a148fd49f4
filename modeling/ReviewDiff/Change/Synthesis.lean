import ReviewDiff.Change.DiffResult
import ReviewDiff.Change.Plan
import ReviewDiff.LineDiff.Unified
import ReviewDiff.Patch.EmptyFile
import ReviewDiff.Revision

/-!
# Diffs from snapshots

Some servers cannot print a diff that a patch program reads.  `synthesize` makes
one from the content of every file before and after a range.  Each part of the
plan becomes a `Fragment`, and the diff is the fragments written one after the
other:

* files whose content changed get a unified diff, or one line when either side is
  binary;
* an empty file that is created or removed gets a header, because no hunk can
  describe it;
* a move gets a header when the content stays the same, and otherwise two lines
  that name both ends and the diff.

Content that cannot be fetched counts as empty.
-/

namespace ReviewDiff.Change

/-- The mark of a move that leaves the content alone. -/
def movedMark : String := "MV"

def movePreamble (source dest : String) : String :=
  "Moved from: " ++ source ++ "\nMoved to: " ++ dest ++ "\n"

def binaryMarker (oldLabel newPath : String) : String :=
  "Binary files " ++ oldLabel ++ " and " ++ newPath ++ " differ\n"

def sniffLength : Nat := 8000

/-- Whether content is binary: a NUL byte stands near its start. -/
def isBinary (content : Bytes) : Bool :=
  (content.take sniffLength).contains 0

/-! ## Fragments -/

inductive Difference where
  | text (diff : LineDiff.UnifiedDiff)
  | binary (oldLabel newPath : String)

inductive Fragment where
  | nothing
  | emptyFile (header : Patch.EmptyFile.Header)
  | moved (source : String) (revision : Nat) (dest : String)
  | changed (difference : Difference)
  | movedAndChanged (source dest : String) (difference : Difference)

def Difference.render : Difference → Bytes
  | .text diff => diff.render
  | .binary oldLabel newPath => Utf8.encode (binaryMarker oldLabel newPath)

def Fragment.render : Fragment → Bytes
  | .nothing => []
  | .emptyFile header => Utf8.encode header.render
  | .moved source revision dest =>
      Utf8.encode (Patch.specialHeader source revision movedMark dest)
  | .changed difference => difference.render
  | .movedAndChanged source dest difference =>
      Utf8.encode (movePreamble source dest) ++ difference.render

def revisionLabel (path : String) (revision : Nat) : String :=
  path ++ "#" ++ toString revision

/-- The difference between two contents, if they differ. -/
def difference? (stamp oldPath oldLabel newPath : String) (old new : Bytes) :
    Option Difference :=
  if old = new then none
  else if isBinary old || isBinary new then some (.binary oldLabel newPath)
  else
    (LineDiff.unifiedDiff? old new
      (oldPath ++ "\t" ++ oldLabel) (newPath ++ "\t" ++ stamp)).map .text

/-- The fragment of a file with known contents; `localName` is its name in the
working copy. -/
def fileFragment
    (stamp : String) (change : FileChange) (old new : Bytes) (localName : String) : Fragment :=
  let oldRevision := change.old.getD 0
  if old.isEmpty && new.isEmpty then
    match change.kind.unpaired with
    | .add => .emptyFile ⟨change.path, change.revision, .added, localName⟩
    | .delete => .emptyFile ⟨change.path, oldRevision, .deleted, localName⟩
    | _ => .nothing
  else
    match
      difference? stamp change.path (revisionLabel change.path oldRevision) change.path old new
    with
    | some difference => .changed difference
    | none => .nothing

def moveFragment (stamp : String) (link : MoveLink) (old new : Bytes) : Fragment :=
  let oldRevision := link.source.old.getD 0
  let source := link.source.path
  let dest := link.dest.path
  match difference? stamp source (revisionLabel source oldRevision) dest old new with
  | some difference => .movedAndChanged source dest difference
  | none => .moved source oldRevision dest

/-! ## Asking for contents -/

/-- The content of a file, empty when there is none or it cannot be fetched. -/
def fetch (path : String) : Option Version → Snapshots.Query Bytes
  | none => return []
  | some version => do
      match ← Snapshots.ask (.content path version) with
      | .ok content => return content
      | .error _ => return []

def localName (path : String) : Snapshots.Query String := do
  match ← Snapshots.ask (.localPath path) with
  | .ok (some name) => return name
  | _ => return path

def needsLocalName (change : FileChange) (old new : Bytes) : Bool :=
  old.isEmpty && new.isEmpty && (change.kind.unpaired = .add || change.kind.unpaired = .delete)

def Part.fragment (stamp : String) : Part → Snapshots.Query Fragment
  | .single change => do
      let old ← fetch change.path (change.old.map .numbered)
      let new ← fetch change.path change.new
      if needsLocalName change old new then
        return fileFragment stamp change old new (← localName change.path)
      else return fileFragment stamp change old new change.path
  | .move link => do
      let old ← fetch link.source.path (link.source.old.map .numbered)
      let new ← fetch link.dest.path link.dest.new
      return moveFragment stamp link old new

def fragmentsOf (stamp : String) : List Part → Snapshots.Query (List Fragment)
  | [] => return []
  | part :: rest => do
      let fragment ← part.fragment stamp
      let fragments ← fragmentsOf stamp rest
      return fragment :: fragments

/-- Whether the records of a range are of opened files. -/
def isInFlight (range : RevisionRange) : Bool :=
  match range.tip with
  | .pending _ => true
  | _ => false

def fragments
    (stamp : String) (range : RevisionRange) (records : List ChangedFile)
    (detectMoves : Bool) :
    Snapshots.Query (List Fragment) := do
  let parts ← plan (collapse (isInFlight range) records) detectMoves
  fragmentsOf stamp parts

/-- The diff of a range from the records of the files that it touches, if contents
can be fetched into a scratch directory. -/
def synthesize
    (stamp : String) (range : RevisionRange) (records : List ChangedFile)
    (detectMoves : Bool) :
    Snapshots.Query DiffResult := do
  let found ← fragments stamp range records detectMoves
  return { diff := found.flatMap Fragment.render, commitId := range.commitId }

/-- The diff of a range with its scratch directory, which is made when the parts
are known.  Without one the diff fails and no content is fetched. -/
def synthesizeIn
    {I : Interface} (serve : (request : Snapshots.Request) → Program I request.Answer)
    (scratch : Program I (Except Host.Fault Unit)) (stamp : String) (range : RevisionRange)
    (records : List ChangedFile) (detectMoves : Bool) :
    Attempt I DiffResult := do
  let parts ← Attempt.ofProgram
    ((plan (collapse (isInFlight range) records) detectMoves).interpret serve)
  Attempt.ofOutcome .io scratch
  let found ← Attempt.ofProgram ((fragmentsOf stamp parts).interpret serve)
  return { diff := found.flatMap Fragment.render, commitId := range.commitId }

end ReviewDiff.Change
