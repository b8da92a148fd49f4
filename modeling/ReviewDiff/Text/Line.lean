/-!
# The lines of a text

A line ends at a line feed; a carriage return right before the line feed belongs
to the ending.  The last line needs no ending, and an empty text has no lines.
-/

namespace ReviewDiff.Text

/-- A line without the carriage return that may precede its line feed. -/
def dropCarriageReturn (line : List Char) : List Char :=
  if line.getLast? = some '\r' then line.dropLast else line

/-- The lines of a text, given the characters of the current line so far in
reverse. -/
def linesFrom (current : List Char) : List Char → List (List Char)
  | [] => if current.isEmpty then [] else [current.reverse]
  | c :: rest =>
      if c = '\n' then dropCarriageReturn current.reverse :: linesFrom [] rest
      else linesFrom (c :: current) rest

def lines (text : String) : List String :=
  (linesFrom [] text.toList).map String.ofList

end ReviewDiff.Text
