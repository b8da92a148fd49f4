import ReviewDiff.LineDiff.Hunk

/-!
# The unified format

A diff starts with the labels of the two sides.  Each hunk follows with a header
that gives its ranges and with its lines, tagged by a blank, a minus or a plus.  A
range of one line is written as its number; any other as the number of its first
line and its length, where an empty range names the line before it.  A line
without an ending is followed by a note.
-/

namespace ReviewDiff.LineDiff

structure UnifiedDiff where
  oldLabel : String
  newLabel : String
  hunks : List Hunk

/-! ## Writing -/

/-- The range as a hunk header shows it. -/
def LineRange.render (range : LineRange) : String :=
  if range.length = 1 then toString (range.start + 1)
  else if range.length = 0 then s!"{range.start},0"
  else s!"{range.start + 1},{range.length}"

def Hunk.header (hunk : Hunk) : String :=
  "@@ -" ++ hunk.oldRange.render ++ " +" ++ hunk.newRange.render ++ " @@"

def Tag.sign : Tag → UInt8
  | .context => 32
  | .removed => 45
  | .added => 43

def missingEndingNote : String := "\\ No newline at end of file"

/-- A tagged line as it is written. -/
def TaggedLine.render (tagged : TaggedLine) : Bytes :=
  tagged.tag.sign :: tagged.line ++
    if isTerminated tagged.line then []
    else lineFeed :: Utf8.encode missingEndingNote ++ [lineFeed]

def Hunk.render (hunk : Hunk) : Bytes :=
  Utf8.encode hunk.header ++ lineFeed :: hunk.lines.flatMap TaggedLine.render

def UnifiedDiff.render (diff : UnifiedDiff) : Bytes :=
  Utf8.encode ("--- " ++ diff.oldLabel ++ "\n+++ " ++ diff.newLabel ++ "\n") ++
    diff.hunks.flatMap Hunk.render

/-- The diff between two contents, if they differ. -/
def unifiedDiff? (old new : Bytes) (oldLabel newLabel : String) : Option UnifiedDiff :=
  match hunks old new with
  | [] => none
  | found => some ⟨oldLabel, newLabel, found⟩

def fileDiff (old new : Bytes) (oldLabel newLabel : String) : Option Bytes :=
  (unifiedDiff? old new oldLabel newLabel).map UnifiedDiff.render

end ReviewDiff.LineDiff
