import Mathlib.Data.List.Basic
import ReviewDiff.Text.Blank
import ReviewDiff.Text.Cut
import ReviewDiff.Text.Line

/-!
# Lines that were put together

A text without carriage returns is read back as the parts between its line
feeds.  A mark is found again behind a text in which it does not begin, and
trimming takes off what was put behind the last visible character.
-/

namespace ReviewDiff.Text

/-! ## Parts -/

/-- What separates the parts of a list stands in none of them. -/
theorem notMem_of_mem_splitOn
    {α : Type} [BEq α] [LawfulBEq α] {separator : α} {whole part : List α}
    (member : part ∈ whole.splitOn separator) : separator ∉ part := by
  induction whole generalizing part with
  | nil =>
      rw [List.splitOn_nil, List.mem_singleton] at member
      rw [member]
      exact List.not_mem_nil
  | cons first rest inductionHypothesis =>
      rw [List.splitOn_cons_eq_if_modifyHead] at member
      split at member
      · rcases List.mem_cons.mp member with rfl | later
        · exact List.not_mem_nil
        · exact inductionHypothesis later
      · rename_i different
        obtain ⟨head, more, shape⟩ :=
          List.exists_cons_of_ne_nil (List.splitOn_ne_nil separator rest)
        rw [shape] at member inductionHypothesis
        rcases List.mem_cons.mp member with rfl | later
        · rw [List.mem_cons, not_or]
          exact ⟨fun same => different (beq_iff_eq.mpr same.symm),
            inductionHypothesis List.mem_cons_self⟩
        · exact inductionHypothesis (List.mem_cons_of_mem head later)

/-! ## Lines -/

theorem linesFrom_append_of_notMem
    (current : List Char) {front : List Char} (absent : '\n' ∉ front)
    (rest : List Char) :
    linesFrom current (front ++ rest) = linesFrom (front.reverse ++ current) rest := by
  induction front generalizing current with
  | nil => rfl
  | cons c front inductionHypothesis =>
      rw [List.mem_cons, not_or] at absent
      rw [List.cons_append, linesFrom, if_neg (Ne.symm absent.1),
        inductionHypothesis (c :: current) absent.2, List.reverse_cons,
        List.append_assoc, List.singleton_append]

theorem dropCarriageReturn_reverse
    {current : List Char} (unended : current.head? ≠ some '\r') :
    dropCarriageReturn current.reverse = current.reverse := by
  rw [dropCarriageReturn, List.getLast?_reverse, if_neg unended]

theorem dropCarriageReturn_of_notMem {line : List Char} (clean : '\r' ∉ line) :
    dropCarriageReturn line = line := by
  rw [dropCarriageReturn, if_neg fun last => clean (List.mem_of_getLast? last)]

theorem dropCarriageReturn_append
    {front : List Char} (unended : front.getLast? ≠ some '\r') (line : List Char) :
    dropCarriageReturn (front ++ line) = front ++ dropCarriageReturn line := by
  cases line with
  | nil =>
      rw [List.append_nil, dropCarriageReturn, if_neg unended]
      exact (List.append_nil front).symm
  | cons c line =>
      have nonempty : c :: line ≠ [] := List.cons_ne_nil c line
      rw [dropCarriageReturn, dropCarriageReturn, List.getLast?_append_of_ne_nil _ nonempty,
        List.dropLast_append_of_ne_nil nonempty]
      split <;> rfl

theorem mem_of_mem_dropCarriageReturn
    {line : List Char} {c : Char} (member : c ∈ dropCarriageReturn line) : c ∈ line := by
  rw [dropCarriageReturn] at member
  split at member
  · exact (List.dropLast_sublist line).subset member
  · exact member

/-- What stands between the line feeds of a text are its lines; the first one
goes on from the line under way. -/
theorem linesFrom_append_lineFeed
    {current text : List Char} (unended : current.head? ≠ some '\r')
    (clean : '\r' ∉ text) (rest : List Char) :
    linesFrom current (text ++ '\n' :: rest) =
      (text.splitOn '\n').modifyHead (current.reverse ++ ·) ++ linesFrom [] rest := by
  induction text generalizing current with
  | nil =>
      rw [List.nil_append, linesFrom, if_pos rfl, dropCarriageReturn_reverse unended,
        List.splitOn_nil, List.modifyHead_cons, List.append_nil]
      rfl
  | cons c text inductionHypothesis =>
      rw [List.mem_cons, not_or] at clean
      rw [List.cons_append, linesFrom, List.splitOn, List.splitOnP_cons_eq_if_modifyHead,
        ← List.splitOn]
      by_cases ends : c = '\n'
      · have none : ([] : List Char).head? ≠ some '\r' := nofun
        have same : (text.splitOn '\n').modifyHead ([].reverse ++ ·) = text.splitOn '\n' := by
          cases text.splitOn '\n' <;> rfl
        rw [if_pos ends, if_pos (beq_iff_eq.mpr ends), dropCarriageReturn_reverse unended,
          inductionHypothesis none clean.2, same, List.modifyHead_cons, List.append_nil,
          List.cons_append]
      · have goesOn : (c :: current).head? ≠ some '\r' :=
          fun same => clean.1 (Option.some.inj same).symm
        rw [if_neg ends, if_neg (by simpa using ends), inductionHypothesis goesOn clean.2,
          List.modifyHead_modifyHead]
        congr 2
        funext line
        rw [Function.comp_apply, List.reverse_cons, List.append_assoc,
          List.singleton_append]

/-- Putting line feeds between the lines of a text gives the text back. -/
theorem intercalate_split (text : String) :
    String.intercalate "\n" (split '\n' text) = text := by
  apply String.toList_injective
  rw [String.toList_intercalate, split, List.map_map]
  have same : String.toList ∘ String.ofList = id := by
    funext line
    exact String.toList_ofList
  rw [same, List.map_id]
  exact List.intercalate_splitOn '\n'

theorem exists_split (text : String) :
    ∃ first more, split '\n' text = first :: more := by
  apply List.exists_cons_of_ne_nil
  exact mt List.map_eq_nil_iff.mp (List.splitOn_ne_nil '\n' text.toList)

/-! ## Marks -/

theorem startsWith_iff {mark text : String} :
    startsWith mark text = true ↔ ∃ rest, text = mark ++ rest := by
  rw [startsWith, List.isPrefixOf_iff_prefix]
  constructor
  · rintro ⟨rest, shape⟩
    refine ⟨String.ofList rest, String.toList_injective ?_⟩
    rw [String.toList_append, String.toList_ofList, shape]
  · rintro ⟨rest, rfl⟩
    rw [String.toList_append]
    exact List.prefix_append mark.toList rest.toList

theorem endsWith_iff {mark text : String} :
    endsWith mark text = true ↔ ∃ front, text = front ++ mark := by
  rw [endsWith, List.isSuffixOf_iff_suffix]
  constructor
  · rintro ⟨front, shape⟩
    refine ⟨String.ofList front, String.toList_injective ?_⟩
    rw [String.toList_append, String.toList_ofList, shape]
  · rintro ⟨front, rfl⟩
    rw [String.toList_append]
    exact List.suffix_append front.toList mark.toList

theorem after?_append (mark rest : String) : after? mark (mark ++ rest) = some rest := by
  have found : mark.toList.isPrefixOf? (mark ++ rest).toList = some rest.toList :=
    List.isPrefixOf?_eq_some_iff_append_eq.mpr String.toList_append.symm
  rw [after?, found, Option.map_some, String.ofList_toList]

theorem after?_eq_none {mark text : String} (absent : startsWith mark text = false) :
    after? mark text = none := by
  rw [after?, Option.map_eq_none_iff, ← Option.isNone_iff_eq_none,
    ← Option.not_isSome, List.isSome_isPrefixOf?_eq_isPrefixOf]
  exact congrArg not absent

theorem cutList?_append
    {before : List Char} {c : Char} (absent : c ∉ before) (after : List Char) :
    cutList? [c] (before ++ c :: after) = some (before, after) := by
  induction before with
  | nil =>
      have found : [c].isPrefixOf? (c :: after) = some after :=
        List.isPrefixOf?_eq_some_iff_append_eq.mpr rfl
      rw [List.nil_append, cutList?, found]
  | cons d before inductionHypothesis =>
      rw [List.mem_cons, not_or] at absent
      have notHere : [c].isPrefixOf? (d :: (before ++ c :: after)) = none := by
        rw [List.isPrefixOf?, if_neg (by simpa using absent.1)]
      rw [List.cons_append, cutList?, notHere]
      simp only [inductionHypothesis absent.2, Option.map_some]

/-! ## Trimming -/

theorem dropBlankEnd_of_visible
    {text : List Char} (visible : ∀ c ∈ text.getLast?, isBlank c = false) :
    dropBlankEnd text = text := by
  rw [← List.head?_reverse] at visible
  have kept : text.reverse.dropWhile isBlank = text.reverse := by
    cases shape : text.reverse with
    | nil => rfl
    | cons c rest =>
        rw [shape] at visible
        exact List.dropWhile_cons_of_neg (by simp [visible c rfl])
  rw [dropBlankEnd, dropBlank, kept, List.reverse_reverse]

theorem dropBlankEnd_append_blank
    (text : List Char) {c : Char} (blank : isBlank c = true) :
    dropBlankEnd (text ++ [c]) = dropBlankEnd text := by
  rw [dropBlankEnd, List.reverse_concat, dropBlank, List.dropWhile_cons_of_pos blank]
  rfl

theorem dropBlankEnd_dropCarriageReturn (line : List Char) :
    dropBlankEnd (dropCarriageReturn line) = dropBlankEnd line := by
  rw [dropCarriageReturn]
  split
  · rename_i ended
    have whole := List.dropLast_append_getLast? '\r' ended
    conv => rhs; rw [← whole]
    exact (dropBlankEnd_append_blank line.dropLast (by decide)).symm
  · rfl

end ReviewDiff.Text
