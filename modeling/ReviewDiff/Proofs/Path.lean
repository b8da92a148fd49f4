import Mathlib.Data.List.Basic
import ReviewDiff.Path
import ReviewDiff.Proofs.Text.Line

/-!
# Directories and texts

A path whose text goes on behind the text of a directory lies in that directory,
unless it goes on with the last name of the directory.  For paths that are
spelled plainly a path that lies in a directory goes on behind its text, too.
-/

namespace ReviewDiff.Path

/-! ## Pieces -/

section Pieces

variable {text rest : List Char} {c : Char}

theorem splitOn_append_of_notMem (absent : c ∉ text) (rest : List Char) :
    (text ++ rest).splitOn c = (rest.splitOn c).modifyHead (text ++ ·) := by
  induction text with
  | nil => cases shape : rest.splitOn c <;> simp [shape]
  | cons d text inductionHypothesis =>
      rw [List.mem_cons, not_or] at absent
      rw [List.cons_append, List.splitOn, List.splitOnP_cons_eq_if_modifyHead,
        if_neg (by simpa using Ne.symm absent.1), ← List.splitOn,
        inductionHypothesis absent.2, List.modifyHead_modifyHead]
      rfl

/-- A piece that goes on is a longer piece. -/
theorem exists_splitOn_of_goesOn
    (absent : c ∉ text) (goesOn : rest ≠ []) (inside : rest.head? ≠ some c) :
    ∃ first more, (text ++ rest).splitOn c = (text ++ first) :: more ∧ first ≠ [] := by
  obtain ⟨d, rest, rfl⟩ := List.exists_cons_of_ne_nil goesOn
  have different : d ≠ c := fun same => inside (congrArg some same)
  obtain ⟨first, more, shape⟩ := List.exists_cons_of_ne_nil (List.splitOn_ne_nil c rest)
  refine ⟨d :: first, more, ?_, List.cons_ne_nil d first⟩
  rw [splitOn_append_of_notMem absent, List.splitOn, List.splitOnP_cons_eq_if_modifyHead,
    if_neg (by simpa using different), ← List.splitOn, shape]
  rfl

theorem exists_last_of_mem (member : c ∈ text) :
    ∃ front last, text = front ++ c :: last ∧ c ∉ last := by
  obtain ⟨last, front, shape, absent⟩ :=
    List.eq_append_cons_of_mem (List.mem_reverse.mpr member)
  refine ⟨front.reverse, last.reverse, ?_, mt List.mem_reverse.mp absent⟩
  rw [← List.reverse_reverse text, shape, List.reverse_append, List.reverse_cons,
    List.append_assoc, List.singleton_append]

end Pieces

/-! ## Components -/

/-- The names among the pieces of a path. -/
def names (pieces : List String) : List Component :=
  (pieces.filter fun piece => piece ≠ "" && piece ≠ ".").map Component.name

/-- What stands in front of the names of a path. -/
def start (path : String) : List Component :=
  if isAbsolute path then [.root]
  else if (Text.split '/' path).head? = some "." then [.current]
  else []

theorem components_eq (path : String) :
    components path = start path ++ names (Text.split '/' path) := by
  unfold components start names
  by_cases absolute : isAbsolute path = true
  · rw [if_pos absolute, if_pos absolute]
    rfl
  · rw [if_neg absolute, if_neg absolute]
    by_cases current : (Text.split '/' path).head? = some "."
    · simp only [current, if_true]
      rfl
    · simp only [current, if_false]
      rfl

theorem isAbsolute_iff {path : String} :
    isAbsolute path = true ↔ path.toList.head? = some '/' := by
  rw [isAbsolute, Text.startsWith, List.isPrefixOf_iff_prefix]
  cases path.toList with
  | nil => decide
  | cons c rest =>
      change ['/'] <+: c :: rest ↔ _
      simp [List.cons_prefix_cons, eq_comm]

theorem names_append (front back : List String) :
    names (front ++ back) = names front ++ names back := by
  rw [names, List.filter_append, List.map_append, ← names, ← names]

theorem names_cons_of_name
    {piece : String} (nonempty : piece ≠ "") (other : piece ≠ ".") (rest : List String) :
    names (piece :: rest) = .name piece :: names rest := by
  rw [names, List.filter_cons_of_pos (by simp [nonempty, other]), List.map_cons, ← names]

theorem split_append_slash (front back : String) :
    Text.split '/' (front ++ "/" ++ back) =
      Text.split '/' front ++ Text.split '/' back := by
  have shape : (front ++ "/" ++ back).toList = front.toList ++ '/' :: back.toList := by
    rw [String.toList_append, String.toList_append, List.append_assoc]
    rfl
  rw [Text.split, shape, List.splitOn, List.splitOnP_append_cons _ _ (by decide),
    List.map_append]
  rfl

theorem split_ne_nil (path : String) : Text.split '/' path ≠ [] :=
  mt List.map_eq_nil_iff.mp (List.splitOn_ne_nil '/' path.toList)

theorem isAbsolute_append {path : String} (nonempty : path ≠ "") (rest : String) :
    isAbsolute (path ++ rest) = isAbsolute path := by
  have characters : path.toList ≠ [] := mt String.toList_eq_nil_iff.mp nonempty
  rw [Bool.eq_iff_iff, isAbsolute_iff, isAbsolute_iff, String.toList_append,
    List.head?_append_of_ne_nil _ characters]

theorem split_slash (front : String) :
    Text.split '/' (front ++ "/") = Text.split '/' front ++ [""] := by
  rw [← String.append_empty (s := front ++ "/")]
  exact split_append_slash front ""

theorem start_append_slash (front back : String) :
    start (front ++ "/" ++ back) = start (front ++ "/") := by
  have nonempty : front ++ "/" ≠ "" := by simp
  rw [start, start, isAbsolute_append nonempty, split_append_slash, split_slash,
    List.head?_append_of_ne_nil _ (split_ne_nil front),
    List.head?_append_of_ne_nil _ (split_ne_nil front)]

/-- What follows a slash adds its names. -/
theorem components_append_slash (front back : String) :
    components (front ++ "/" ++ back) =
      components (front ++ "/") ++ names (Text.split '/' back) := by
  rw [components_eq, components_eq, start_append_slash, split_append_slash, split_slash,
    names_append, names_append, List.append_assoc, List.append_assoc]
  rfl

theorem components_slash {path : String} (nonempty : path ≠ "") :
    components (path ++ "/") = components path := by
  rw [components_eq, components_eq, start, start, isAbsolute_append nonempty, split_slash,
    List.head?_append_of_ne_nil _ (split_ne_nil path), names_append]
  exact congrArg _ (List.append_nil _)

/-! ## Paths in a directory -/

theorem isWithin_iff {directory path : String} :
    isWithin directory path = true ↔ components directory <+: components path := by
  rw [isWithin, List.isPrefixOf_iff_prefix]

theorem append_ne_dot
    {piece first : String} (nonempty : piece ≠ "") (goesOn : first ≠ "") :
    piece ++ first ≠ "." := by
  intro same
  have length := congrArg String.length same
  have pieceLength : piece.length ≠ 0 := mt String.length_eq_zero_iff.mp nonempty
  have firstLength : first.length ≠ 0 := mt String.length_eq_zero_iff.mp goesOn
  rw [String.length_append] at length
  change piece.length + first.length = 1 at length
  omega

theorem exists_split_of_goesOn
    {piece rest : String} (whole : '/' ∉ piece.toList) (nonempty : piece ≠ "")
    (goesOn : rest ≠ "") (inside : Text.startsWith "/" rest = false) :
    ∃ first more, Text.split '/' (piece ++ rest) = (piece ++ first) :: more ∧
      first ≠ "" ∧
        names (Text.split '/' (piece ++ rest)) = .name (piece ++ first) :: names more := by
  have characters : rest.toList ≠ [] := mt String.toList_eq_nil_iff.mp goesOn
  have noSlash : rest.toList.head? ≠ some '/' := by
    rw [Ne, ← isAbsolute_iff, isAbsolute, inside]
    exact Bool.false_ne_true
  obtain ⟨first, more, shape, longer⟩ := exists_splitOn_of_goesOn whole characters noSlash
  have pieces :
      Text.split '/' (piece ++ rest) =
        (piece ++ String.ofList first) :: more.map String.ofList := by
    rw [Text.split, String.toList_append, shape, List.map_cons, String.ofList_append,
      String.ofList_toList]
  have firstNonempty : String.ofList first ≠ "" := by
    rw [Ne, String.ofList_eq_empty_iff]
    exact longer
  refine ⟨String.ofList first, more.map String.ofList, pieces, firstNonempty, ?_⟩
  rw [pieces]
  apply names_cons_of_name
  · simp [nonempty]
  · exact append_ne_dot nonempty firstNonempty

theorem not_prefix_of_longer
    {piece first : String} (longer : first ≠ "") (rest : List Component) :
    ¬ [Component.name piece] <+: Component.name (piece ++ first) :: rest := by
  rw [List.cons_prefix_cons, Component.name.injEq]
  rintro ⟨same, -⟩
  have characters := congrArg String.toList same
  rw [String.toList_append, List.self_eq_append_right] at characters
  exact longer (String.toList_eq_nil_iff.mp characters)

theorem exists_last_piece {path : String} (member : '/' ∈ path.toList) :
    ∃ front piece, path = front ++ "/" ++ piece ∧ '/' ∉ piece.toList := by
  obtain ⟨front, last, shape, whole⟩ := exists_last_of_mem member
  refine ⟨String.ofList front, String.ofList last, ?_, by rwa [String.toList_ofList]⟩
  apply String.toList_injective
  simp only [String.toList_append, String.toList_ofList, shape]
  exact List.append_cons front '/' last

theorem split_of_whole {piece : String} (whole : '/' ∉ piece.toList) :
    Text.split '/' piece = [piece] := by
  rw [Text.split, List.splitOn_eq_singleton whole, List.map_singleton, String.ofList_toList]

theorem start_of_whole
    {piece : String} (whole : '/' ∉ piece.toList) (nonempty : piece ≠ "") (rest : String)
    (other : (Text.split '/' (piece ++ rest)).head? ≠ some ".") :
    start (piece ++ rest) = [] := by
  have relative : ¬ isAbsolute (piece ++ rest) = true := by
    rw [isAbsolute_append nonempty, isAbsolute_iff]
    exact fun first => whole (List.mem_of_head? first)
  rw [start, if_neg relative, if_neg other]

/-- The last name of a directory is not the longer name with which a path goes
on. -/
theorem not_isWithin_of_goesOn
    {directory rest : String} (nonempty : directory ≠ "") (goesOn : rest ≠ "")
    (inside : Text.startsWith "/" rest = false)
    (named : Text.endsWith "/" directory = false)
    (undotted : Text.endsWith "/." directory = false) :
    ¬ isWithin directory (directory ++ rest) = true := by
  rw [isWithin_iff]
  by_cases member : '/' ∈ directory.toList
  · obtain ⟨front, piece, rfl, whole⟩ := exists_last_piece member
    have pieceNonempty : piece ≠ "" := by
      rintro rfl
      rw [String.append_empty, Text.endsWith_iff.mpr ⟨front, rfl⟩] at named
      exact Bool.noConfusion named
    have pieceOther : piece ≠ "." := by
      rintro rfl
      have dotted : Text.endsWith "/." (front ++ "/" ++ ".") = true :=
        Text.endsWith_iff.mpr ⟨front, String.append_assoc⟩
      rw [dotted] at undotted
      exact Bool.noConfusion undotted
    obtain ⟨first, more, -, longer, pieces⟩ :=
      exists_split_of_goesOn whole pieceNonempty goesOn inside
    have behind : front ++ "/" ++ piece ++ rest = front ++ "/" ++ (piece ++ rest) :=
      String.append_assoc
    rw [behind, components_append_slash, components_append_slash, pieces,
      split_of_whole whole, names_cons_of_name pieceNonempty pieceOther,
      List.prefix_append_right_inj]
    exact not_prefix_of_longer longer (names more)
  · obtain ⟨first, more, shape, longer, pieces⟩ :=
      exists_split_of_goesOn member nonempty goesOn inside
    have other : (Text.split '/' (directory ++ rest)).head? ≠ some "." := by
      rw [shape, List.head?_cons, Ne, Option.some.injEq]
      exact append_ne_dot nonempty longer
    rw [components_eq (directory ++ rest), start_of_whole member nonempty rest other, pieces,
      List.nil_append]
    by_cases current : directory = "."
    · have alone : components directory = [.current] := by
        rw [current]
        decide
      rw [alone, List.cons_prefix_cons]
      exact fun same => Component.noConfusion same.1
    · have bare : start (directory ++ "") = [] := by
        apply start_of_whole member nonempty
        rw [String.append_empty, split_of_whole member, List.head?_cons, Ne, Option.some.injEq]
        exact current
      rw [String.append_empty] at bare
      rw [components_eq, bare, split_of_whole member, names_cons_of_name nonempty current]
      exact not_prefix_of_longer longer (names more)

/-- A path that goes on behind the text of a directory lies in it, unless it goes
on with the last name of the directory. -/
theorem isWithin_append_iff
    {directory : String} (nonempty : directory ≠ "") (rest : String) :
    isWithin directory (directory ++ rest) = true ↔
      rest = "" ∨ Text.startsWith "/" rest = true ∨
        Text.endsWith "/" directory = true ∨ Text.endsWith "/." directory = true := by
  constructor
  · intro within
    by_contra outside
    rw [not_or, not_or, not_or, Bool.not_eq_true, Bool.not_eq_true, Bool.not_eq_true]
      at outside
    exact not_isWithin_of_goesOn nonempty outside.1 outside.2.1 outside.2.2.1 outside.2.2.2
      within
  · rw [isWithin_iff, Text.startsWith_iff, Text.endsWith_iff, Text.endsWith_iff]
    rintro (rfl | ⟨rest, rfl⟩ | ⟨front, rfl⟩ | ⟨front, rfl⟩)
    · simp only [String.append_empty, List.prefix_refl]
    · rw [← String.append_assoc, components_append_slash, components_slash nonempty]
      exact List.prefix_append _ _
    · rw [components_append_slash]
      exact List.prefix_append _ _
    · have dotted : front ++ "/." = front ++ "/" ++ "." := by
        rw [String.append_assoc]
        rfl
      have noNames : names (Text.split '/' ".") = [] := by decide
      rw [dotted, components_append_slash, noNames, List.append_nil,
        String.append_assoc, components_append_slash]
      exact List.prefix_append _ _

/-! ## Plainly spelled paths -/

theorem ofComponents_prefix {front path : List Component} (within : front <+: path) :
    (ofComponents front).toList <+: (ofComponents path).toList := by
  obtain ⟨rest, rfl⟩ := within
  fun_induction ofComponents front with
  | case1 => exact List.nil_prefix
  | case2 names inductionHypothesis =>
      rw [List.cons_append, ofComponents, String.toList_append, String.toList_append]
      exact (List.prefix_append_right_inj _).mpr inductionHypothesis
  | case3 front inductionHypothesis =>
      rw [List.cons_append, ofComponents, String.toList_append, String.toList_append]
      exact (List.prefix_append_right_inj _).mpr inductionHypothesis
  | case4 text =>
      cases rest with
      | nil => exact List.prefix_refl _
      | cons component rest =>
          rw [List.singleton_append, ofComponents, String.toList_append,
            String.toList_append, List.append_assoc]
          · exact List.prefix_append _ _
          · exact List.cons_ne_nil component rest
  | case5 text front goesOn inductionHypothesis =>
      rw [List.cons_append, ofComponents, String.toList_append, String.toList_append,
        String.toList_append, String.toList_append]
      · exact (List.prefix_append_right_inj _).mpr inductionHypothesis
      · exact List.append_ne_nil_of_left_ne_nil goesOn rest

/-- Among paths that are spelled plainly, a path that lies in a directory goes
on behind its text. -/
theorem startsWith_of_isWithin
    {directory path : String} (plain : ofComponents (components directory) = directory)
    (plainPath : ofComponents (components path) = path)
    (within : isWithin directory path = true) :
    Text.startsWith directory path = true := by
  have texts := ofComponents_prefix (isWithin_iff.mp within)
  rw [plain, plainPath] at texts
  exact List.isPrefixOf_iff_prefix.mpr texts

end ReviewDiff.Path
