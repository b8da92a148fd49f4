/-!
# Cutting a text at a mark

The functions on `List Char` do the work; the ones on `String` are their public
face.  A mark is found at its first occurrence.
-/

namespace ReviewDiff.Text

/-! ## Marks in character lists -/

/-- What stands before and after the first occurrence of a mark. -/
def cutList? (mark : List Char) : List Char → Option (List Char × List Char)
  | [] => if mark.isEmpty then some ([], []) else none
  | c :: rest =>
      match mark.isPrefixOf? (c :: rest) with
      | some after => some ([], after)
      | none => (cutList? mark rest).map fun (before, after) => (c :: before, after)

/-! ## Marks in texts -/

/-- What follows a leading mark. -/
def after? (mark text : String) : Option String :=
  (mark.toList.isPrefixOf? text.toList).map String.ofList

def startsWith (mark text : String) : Bool :=
  mark.toList.isPrefixOf text.toList

def endsWith (mark text : String) : Bool :=
  mark.toList.isSuffixOf text.toList

def cut? (mark text : String) : Option (String × String) :=
  (cutList? mark.toList text.toList).map fun (before, after) =>
    (String.ofList before, String.ofList after)

def contains (mark text : String) : Bool :=
  (cutList? mark.toList text.toList).isSome

/-- The parts of a text between the occurrences of a character. -/
def split (separator : Char) (text : String) : List String :=
  (text.toList.splitOn separator).map String.ofList

def replaceChar (old new : Char) (text : String) : String :=
  String.ofList (text.toList.map fun c => if c = old then new else c)

/-! ## Laws -/

theorem eq_append_of_isPrefixOf?
    {mark text after : List Char}
    (found : mark.isPrefixOf? text = some after) :
    text = mark ++ after := by
  induction mark generalizing text with
  | nil => exact Option.some.inj found
  | cons m mark inductionHypothesis =>
      cases text with
      | nil => cases found
      | cons c text =>
          change (if m == c then mark.isPrefixOf? text else none) = some after at found
          by_cases same : m == c
          · rw [if_pos same] at found
            rw [List.cons_append, ← inductionHypothesis found, beq_iff_eq.mp same]
          · rw [if_neg same] at found
            cases found

theorem cutList?_eq_append
    {mark text before after : List Char}
    (found : cutList? mark text = some (before, after)) :
    text = before ++ mark ++ after := by
  induction text generalizing before with
  | nil =>
      cases mark with
      | nil =>
          cases found
          rfl
      | cons m mark => cases found
  | cons c rest inductionHypothesis =>
      rw [cutList?] at found
      cases matched : mark.isPrefixOf? (c :: rest) with
      | some remainder =>
          rw [matched] at found
          obtain ⟨rfl, rfl⟩ := Prod.mk.inj (Option.some.inj found)
          exact eq_append_of_isPrefixOf? matched
      | none =>
          rw [matched] at found
          obtain ⟨⟨start, finish⟩, inner, same⟩ := Option.map_eq_some_iff.mp found
          obtain ⟨rfl, rfl⟩ := Prod.mk.inj same
          rw [inductionHypothesis inner]
          rfl

end ReviewDiff.Text
