import ReviewDiff.Text.Blank
import ReviewDiff.Text.Cut
import ReviewDiff.Text.Line

/-!
# Tagged output

A Perforce command can print its results as lines `... key value`.  A record ends
where a key comes a second time; nothing else marks the end.  A line without the
tag continues the value before it, which is how a description of several lines is
printed.  Blanks at the end of a value do not count.

`Record.readAll` reads tagged output and `Record.printAll` writes it.
-/

namespace ReviewDiff.Perforce

/-- A tagged record: its fields in the order in which they were printed. -/
structure Record where
  fields : List (String × String)
  deriving DecidableEq, Repr

namespace Record

def get? (record : Record) (key : String) : Option String :=
  record.fields.lookup key

def has (record : Record) (key : String) : Bool :=
  record.fields.any (·.1 = key)

/-- The values of the keys `name0`, `name1`, … from index `i` on, as long as they
are there. -/
def indexedFrom (record : Record) (name : String) : (fuel i : Nat) → List String
  | 0, _ => []
  | fuel + 1, i =>
      match record.get? (name ++ toString i) with
      | some value => value :: indexedFrom record name fuel (i + 1)
      | none => []

/-- The values of the keys `name0`, `name1`, … as long as they are there.  A
record has no more of them than fields. -/
def indexed (record : Record) (name : String) : List String :=
  record.indexedFrom name record.fields.length 0

/-! ## Reading -/

def tag : String := "... "

def ofGathered (gathered : List (String × String)) : Record :=
  ⟨(gathered.map fun (key, value) => (key, Text.trimEnd value)).reverse⟩

def readField (text : String) : String × String :=
  (Text.cut? " " text).getD (text, "")

/-- Reads lines; `gathered` holds the fields of the record under way in reverse.
-/
def readLines (gathered : List (String × String)) : List String → List Record
  | [] => if gathered.isEmpty then [] else [ofGathered gathered]
  | line :: rest =>
      match Text.after? tag line with
      | some text =>
          let (key, value) := readField text
          if gathered.any (·.1 = key) then ofGathered gathered :: readLines [(key, value)] rest
          else readLines ((key, value) :: gathered) rest
      | none =>
          match gathered with
          | [] => readLines [] rest
          | (key, value) :: others => readLines ((key, value ++ "\n" ++ line) :: others) rest

def readAll (output : String) : List Record :=
  readLines [] (Text.lines output)

/-! ## Writing -/

def printField (field : String × String) : String :=
  tag ++ field.1 ++ " " ++ field.2 ++ "\n"

/-- A record as it is printed, with a blank line after it. -/
def print (record : Record) : String :=
  String.join (record.fields.map printField) ++ "\n"

def printAll (records : List Record) : String :=
  String.join (records.map print)

end Record

end ReviewDiff.Perforce
