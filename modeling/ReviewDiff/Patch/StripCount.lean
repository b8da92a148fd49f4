import ReviewDiff.Text.Cut

/-!
# Leading path components that a patch program strips

A diff names its files relative to one directory and may be applied in another.
`stripCount?` derives how many leading components have to go, and `strip` takes
them off the way `patch -p` does: a component is a run of characters other than a
slash together with all slashes that follow it.
-/

namespace ReviewDiff.Patch

/-- The number of components of `basePath`, when `baseDir` begins with it. -/
def stripCount? (basePath baseDir : String) : Option Nat :=
  if basePath ≠ "" && Text.startsWith basePath baseDir then
    some (basePath.toList.count '/' + 1)
  else none

/-- What follows the first component, if a slash ends it. -/
def dropComponent? (path : List Char) : Option (List Char) :=
  match path.dropWhile (· ≠ '/') with
  | [] => none
  | slashes => some (slashes.dropWhile (· = '/'))

def stripComponents : Nat → List Char → List Char
  | 0, path => path
  | count + 1, path =>
      match dropComponent? path with
      | some rest => stripComponents count rest
      | none => path

/-- A path without its first `count` components; the last component always stays.
-/
def strip (path : String) (count : Nat) : String :=
  String.ofList (stripComponents count path.toList)

end ReviewDiff.Patch
