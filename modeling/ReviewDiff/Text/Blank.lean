/-!
# Blank characters and trimming

`isBlank` is Unicode's `White_Space` property, so a no-break space is blank and a
zero-width space is not.
-/

namespace ReviewDiff.Text

/-- The code points with the `White_Space` property, as inclusive ranges in
increasing order. -/
def blankRanges : List (Nat × Nat) :=
  [(0x09, 0x0D), (0x20, 0x20), (0x85, 0x85), (0xA0, 0xA0), (0x1680, 0x1680),
    (0x2000, 0x200A), (0x2028, 0x2029), (0x202F, 0x202F), (0x205F, 0x205F), (0x3000, 0x3000)]

def isBlank (c : Char) : Bool :=
  blankRanges.any fun (low, high) => low ≤ c.toNat && c.toNat ≤ high

def dropBlank (text : List Char) : List Char :=
  text.dropWhile isBlank

/-- The characters up to the last one that is not blank. -/
def dropBlankEnd (text : List Char) : List Char :=
  (dropBlank text.reverse).reverse

def trimEnd (text : String) : String :=
  String.ofList (dropBlankEnd text.toList)

def trim (text : String) : String :=
  String.ofList (dropBlankEnd (dropBlank text.toList))

end ReviewDiff.Text
