import ReviewDiff.Text.Utf8

/-!
# Places in a text, counted in bytes and as line and column
-/

namespace ReviewDiff.Text

def byteLength (text : List Char) : Nat :=
  text.foldr (fun c length => c.utf8Size + length) 0

/-- A place as a reader is told it: the line from 1, and the number of bytes of
the line before the place. -/
structure Position where
  line : Nat
  column : Nat
  deriving DecidableEq, Repr

def Position.after (bytes : Bytes) : Position where
  line := bytes.count 10 + 1
  column := (bytes.reverse.takeWhile (· ≠ 10)).length

/-- The position behind the first `index` bytes of a text. -/
def Position.ofIndex (text : String) (index : Nat) : Position :=
  .after ((Utf8.encode text).take index)

end ReviewDiff.Text
