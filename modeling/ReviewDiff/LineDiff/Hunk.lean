import ReviewDiff.LineDiff.Line
import ReviewDiff.LineDiff.Slide

/-!
# Hunks: the changes of a script with the unchanged lines around them

`segments` unites the operations between two kept runs into one change, deletions
before insertions.  `clusters` cuts the segments wherever so many lines are kept
that the context of two changes does not touch.  A cluster becomes a `Hunk`: a
range of lines on either side and the tagged lines themselves.
-/

namespace ReviewDiff.LineDiff

def contextLines : Nat := 3

/-! ## Segments -/

/-- A maximal run of kept items, or of changed ones, with the recorded number of
items before it on either side. -/
structure Segment where
  kept : Bool
  old : Nat
  oldLength : Nat
  new : Nat
  newLength : Nat
  deriving DecidableEq, Repr

/-- What has been gathered of the segment under way. -/
inductive Pending where
  | nothing
  | kept (op : Op)
  | changed (deleted inserted : Option Op)

/-- The segment that has been gathered, if any.  Where one side is untouched, its
position is the one recorded with the changed side. -/
def Pending.segment : Pending → List Segment
  | .nothing => []
  | .kept op => [⟨true, op.old, op.length, op.new, op.length⟩]
  | .changed (some d) (some i) => [⟨false, d.old, d.length, i.new, i.length⟩]
  | .changed (some d) none => [⟨false, d.old, d.length, d.new, 0⟩]
  | .changed none (some i) => [⟨false, i.old, 0, i.new, i.length⟩]
  | .changed none none => []

/-- A run made longer by another one; the first position stays. -/
def joinRun (run : Option Op) (op : Op) : Op :=
  match run with
  | some first => first.growRight op.length
  | none => op

def segmentsFrom : Pending → List Op → List Segment
  | pending, [] => pending.segment
  | pending, op :: rest =>
      match op.kind, pending with
      | .keep, .kept first => segmentsFrom (.kept (first.growRight op.length)) rest
      | .keep, _ => pending.segment ++ segmentsFrom (.kept op) rest
      | .delete, .changed deleted inserted =>
          segmentsFrom (.changed (some (joinRun deleted op)) inserted) rest
      | .delete, _ => pending.segment ++ segmentsFrom (.changed (some op) none) rest
      | .insert, .changed deleted inserted =>
          segmentsFrom (.changed deleted (some (joinRun inserted op))) rest
      | .insert, _ => pending.segment ++ segmentsFrom (.changed none (some op)) rest

def segments (ops : List Op) : List Segment :=
  segmentsFrom .nothing ops

/-! ## Clusters -/

namespace Segment

/-- The last items of a kept segment, at most `count` of them. -/
def last (count : Nat) (segment : Segment) : Segment :=
  let dropped := segment.oldLength - count
  { segment with
    old := segment.old + dropped, oldLength := segment.oldLength - dropped
    new := segment.new + dropped, newLength := segment.newLength - dropped }

def first (count : Nat) (segment : Segment) : Segment :=
  { segment with
    oldLength := min segment.oldLength count
    newLength := min segment.newLength count }

end Segment

/-- Shortens a kept segment at the start to the context of the first change. -/
def trimStart (context : Nat) : List Segment → List Segment
  | segment :: rest => (if segment.kept then segment.last context else segment) :: rest
  | [] => []

def trimEnd (context : Nat) : List Segment → List Segment
  | [] => []
  | [segment] => [if segment.kept then segment.first context else segment]
  | segment :: rest => segment :: trimEnd context rest

/-- Cuts a list of segments inside every kept run longer than twice the context.
`current` is the cluster under way, in reverse.  A last cluster that changes
nothing is left out. -/
def clustersFrom (context : Nat) (current : List Segment) : List Segment → List (List Segment)
  | [] =>
      match current with
      | [] => []
      | [segment] => if segment.kept then [] else [[segment]]
      | _ => [current.reverse]
  | segment :: rest =>
      if segment.kept && 2 * context < segment.oldLength then
        (segment.first context :: current).reverse ::
          clustersFrom context [segment.last context] rest
      else clustersFrom context (segment :: current) rest

/-- The changes of a script with their context, cut where the contexts do not
touch. -/
def clusters (context : Nat) (parts : List Segment) : List (List Segment) :=
  clustersFrom context [] (trimEnd context (trimStart context parts))

/-! ## Hunks -/

inductive Tag where
  | context
  | removed
  | added
  deriving DecidableEq, Repr

structure TaggedLine where
  tag : Tag
  line : Line
  deriving DecidableEq, Repr

/-- A range of lines: the number of lines before it and up to its end. -/
structure LineRange where
  start : Nat
  stop : Nat
  deriving DecidableEq, Repr

def LineRange.length (range : LineRange) : Nat := range.stop - range.start

structure Hunk where
  oldRange : LineRange
  newRange : LineRange
  lines : List TaggedLine
  deriving DecidableEq, Repr

/-- The lines of a segment: a kept one gives context, a changed one its old lines
and then its new ones. -/
def Segment.lines (old new : List Line) (segment : Segment) : List TaggedLine :=
  let oldLines := (old.drop segment.old).take segment.oldLength
  if segment.kept then oldLines.map (⟨.context, ·⟩)
  else
    let newLines := (new.drop segment.new).take segment.newLength
    oldLines.map (⟨.removed, ·⟩) ++ newLines.map (⟨.added, ·⟩)

/-- The hunk of a cluster.  Its ranges lead from the start of the first segment to
the end of the last. -/
def Hunk.ofCluster (old new : List Line) (cluster : List Segment) : Option Hunk :=
  match cluster.head?, cluster.getLast? with
  | some first, some last =>
      some
        { oldRange := ⟨first.old, last.old + last.oldLength⟩
          newRange := ⟨first.new, last.new + last.newLength⟩
          lines := cluster.flatMap (·.lines old new) }
  | _, _ => none

def hunksOfLines (old new : List Line) : List Hunk :=
  (clusters contextLines (segments (settle old new (script old new)))).filterMap
    (Hunk.ofCluster old new)

def hunks (old new : Bytes) : List Hunk :=
  hunksOfLines (splitLines old) (splitLines new)

namespace Hunk

def oldLines (hunk : Hunk) : List Line :=
  (hunk.lines.filter (·.tag ≠ .added)).map (·.line)

def newLines (hunk : Hunk) : List Line :=
  (hunk.lines.filter (·.tag ≠ .removed)).map (·.line)

end Hunk

end ReviewDiff.LineDiff
