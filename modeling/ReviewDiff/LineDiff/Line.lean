import ReviewDiff.Text.Utf8

/-!
# Lines of file content

Content is bytes.  A line ends after a line feed, after a carriage return and line
feed, or after a carriage return that no line feed follows; the ending belongs to
the line.  `splitLines` loses nothing: the lines concatenate to the content.
-/

namespace ReviewDiff.LineDiff

/-- A line of file content with its ending, if it has one. -/
abbrev Line := Bytes

def lineFeed : UInt8 := 10

def carriageReturn : UInt8 := 13

/-- Whether a line ends after `byte` when `rest` follows. -/
def endsLine (byte : UInt8) (rest : Bytes) : Bool :=
  byte == lineFeed || (byte == carriageReturn && rest.head? != some lineFeed)

/-- Puts a byte in front of the first line. -/
def extendFirst (byte : UInt8) : List Line → List Line
  | [] => [[byte]]
  | line :: rest => (byte :: line) :: rest

def splitLines : Bytes → List Line
  | [] => []
  | byte :: rest =>
      if endsLine byte rest then [byte] :: splitLines rest
      else extendFirst byte (splitLines rest)

def isTerminated (line : Line) : Bool :=
  line.getLast? == some lineFeed || line.getLast? == some carriageReturn

/-! ## Laws -/

@[simp]
theorem flatten_extendFirst (byte : UInt8) (lines : List Line) :
    (extendFirst byte lines).flatten = byte :: lines.flatten := by
  cases lines with
  | nil => rfl
  | cons line lines => rfl

@[simp]
theorem flatten_splitLines (content : Bytes) :
    (splitLines content).flatten = content := by
  induction content with
  | nil => rfl
  | cons byte rest inductionHypothesis =>
      rw [splitLines]
      by_cases ends : endsLine byte rest = true
      · rw [if_pos ends, List.flatten_cons, inductionHypothesis, List.singleton_append]
      · rw [if_neg ends, flatten_extendFirst, inductionHypothesis]

theorem splitLines_injective {a b : Bytes} (same : splitLines a = splitLines b) : a = b := by
  calc
    a = (splitLines a).flatten := (flatten_splitLines a).symm
    _ = (splitLines b).flatten := congrArg List.flatten same
    _ = b := flatten_splitLines b

end ReviewDiff.LineDiff
