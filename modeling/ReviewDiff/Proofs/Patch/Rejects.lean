import Mathlib.Data.List.Basic
import ReviewDiff.Patch.Apply
import ReviewDiff.Proofs.Text.Digits

/-!
# Reject files in the output of a patch program

The rejects of a file are reported by a pattern: a mark, a name and `.rej` at
the end of a line.  Looking for it from left to right in the whole output finds
the same names as reading the output line by line.

* `rejectedFile?_eq_some_iff` says what a line reports.
* `captures_iff` says that the pattern finds the reports of the lines.
-/

namespace ReviewDiff

/-! ## Marks that stand first -/

namespace Text

variable {mark text before after : List Char}

theorem exists_cutList?_of_infix (member : mark <:+: text) :
    ∃ before after, cutList? mark text = some (before, after) := by
  induction text with
  | nil =>
      obtain rfl := List.infix_nil.mp member
      exact ⟨[], [], rfl⟩
  | cons c text inductionHypothesis =>
      cases here : mark.isPrefixOf? (c :: text) with
      | some after => exact ⟨[], after, by rw [cutList?, here]⟩
      | none =>
          have later : mark <:+: text := by
            refine (List.infix_cons_iff.mp member).resolve_left ?_
            rintro ⟨after, shape⟩
            rw [List.isPrefixOf?_eq_some_iff_append_eq.mpr shape] at here
            cases here
          obtain ⟨before, after, found⟩ := inductionHypothesis later
          exact ⟨c :: before, after, by rw [cutList?, here, found]; rfl⟩

/-- A mark is found where it stands first. -/
theorem length_before_le
    (found : cutList? mark text = some (before, after))
    {earlier later : List Char} (other : text = earlier ++ mark ++ later) :
    before.length ≤ earlier.length := by
  induction text generalizing before earlier with
  | nil =>
      have nothing : before = [] := by
        have shape := cutList?_eq_append found
        rw [List.append_assoc, eq_comm, List.append_eq_nil_iff] at shape
        exact shape.1
      rw [nothing]
      exact Nat.zero_le _
  | cons c text inductionHypothesis =>
      cases here : mark.isPrefixOf? (c :: text) with
      | some rest =>
          rw [cutList?, here] at found
          obtain ⟨rfl, -⟩ := Prod.mk.inj (Option.some.inj found)
          exact Nat.zero_le _
      | none =>
          rw [cutList?, here] at found
          obtain ⟨⟨front, back⟩, inner, same⟩ := Option.map_eq_some_iff.mp found
          obtain ⟨rfl, rfl⟩ := Prod.mk.inj same
          cases earlier with
          | nil =>
              rw [List.nil_append] at other
              rw [List.isPrefixOf?_eq_some_iff_append_eq.mpr other.symm] at here
              cases here
          | cons d earlier =>
              rw [List.cons_append, List.cons_append, List.cons.injEq] at other
              exact Nat.succ_le_succ (inductionHypothesis inner other.2)

end Text

namespace Patch

/-! ## What a line reports -/

/-- The name stands between the first mark of the line and `.rej` at its end. -/
def Reports (line : List Char) (name : String) : Prop :=
  name ≠ "" ∧
    ∃ before,
      line = before ++ rejectMark.toList ++ (name.toList ++ ".rej".toList) ∧
        ∀ earlier later, line = earlier ++ rejectMark.toList ++ later →
          before.length ≤ earlier.length

theorem rejectedFile?_of_cut
    {line before after : List Char}
    (cut : Text.cutList? rejectMark.toList line = some (before, after)) {name : String} :
    rejectedFile? line = some name ↔
      name ≠ "" ∧ after = name.toList ++ ".rej".toList := by
  have ending :
      ∀ start, ".rej".toList.reverse.isPrefixOf? after.reverse = some start ↔
        after = start.reverse ++ ".rej".toList := by
    intro start
    rw [List.isPrefixOf?_eq_some_iff_append_eq, ← List.reverse_inj, List.reverse_append,
      List.reverse_reverse, List.reverse_reverse, eq_comm]
  simp only [rejectedFile?, cut]
  cases shape : ".rej".toList.reverse.isPrefixOf? after.reverse with
  | none =>
      refine iff_of_false nofun ?_
      rintro ⟨-, ended⟩
      rw [(ending name.toList.reverse).mpr (by rwa [List.reverse_reverse])] at shape
      exact nomatch shape
  | some start =>
      obtain rfl := (ending start).mp shape
      cases start with
      | nil =>
          refine iff_of_false nofun ?_
          rintro ⟨nonempty, ended⟩
          rw [List.append_left_inj] at ended
          exact nonempty (String.toList_eq_nil_iff.mp ended.symm)
      | cons c rest =>
          change some (String.ofList (c :: rest).reverse) = some name ↔ _
          rw [Option.some.injEq, List.append_left_inj]
          constructor
          · rintro rfl
            rw [String.toList_ofList]
            exact ⟨by simp, rfl⟩
          · rintro ⟨-, same⟩
            rw [same, String.ofList_toList]

/-- A line reports the name between its first mark and its end. -/
theorem rejectedFile?_eq_some_iff {line : List Char} {name : String} :
    rejectedFile? line = some name ↔ Reports line name := by
  cases cut : Text.cutList? rejectMark.toList line with
  | none =>
      refine iff_of_false (by rw [rejectedFile?, cut]; nofun) ?_
      rintro ⟨-, before, shape, -⟩
      obtain ⟨front, back, found⟩ :=
        Text.exists_cutList?_of_infix ⟨before, name.toList ++ ".rej".toList, shape.symm⟩
      rw [cut] at found
      exact nomatch found
  | some parts =>
      obtain ⟨before, after⟩ := parts
      have shape := Text.cutList?_eq_append cut
      rw [rejectedFile?_of_cut cut]
      refine and_congr_right fun _ => ?_
      constructor
      · rintro rfl
        exact ⟨before, shape, fun earlier later other => Text.length_before_le cut other⟩
      · rintro ⟨front, frontShape, first⟩
        have sameLength : before.length = front.length :=
          Nat.le_antisymm (Text.length_before_le cut frontShape) (first before after shape)
        rw [frontShape, List.append_assoc, List.append_assoc] at shape
        have behind := (List.append_inj shape sameLength.symm).2
        exact (List.append_cancel_left behind).symm

/-- One name for every line that reports one, in the order of the lines. -/
inductive Listed : List (List Char) → List String → Prop where
  | nil : Listed [] []
  | named {line : List Char} {lines : List (List Char)} {name : String}
      {names : List String} (reports : Reports line name) (others : Listed lines names) :
      Listed (line :: lines) (name :: names)
  | silent {line : List Char} {lines : List (List Char)} {names : List String}
      (nothing : ∀ name, ¬ Reports line name) (others : Listed lines names) :
      Listed (line :: lines) names

theorem listed_lines (lines : List (List Char)) :
    Listed lines (lines.filterMap rejectedFile?) := by
  induction lines with
  | nil => exact .nil
  | cons line lines inductionHypothesis =>
      cases reported : rejectedFile? line with
      | some name =>
          rw [List.filterMap_cons_some reported]
          exact .named (rejectedFile?_eq_some_iff.mp reported) inductionHypothesis
      | none =>
          rw [List.filterMap_cons_none reported]
          refine .silent (fun name reports => ?_) inductionHypothesis
          rw [rejectedFile?_eq_some_iff.mpr reports] at reported
          exact nomatch reported

theorem listed_reportedRejects (output : String) :
    Listed (output.toList.splitOn '\n') (reportedRejects output) :=
  listed_lines _

/-! ## The pattern in a text -/

/-- The pattern fits the start of a text: a mark, a name within the line and
`.rej` at the end of the line. -/
structure Matches (text name rest : List Char) : Prop where
  shape : text = rejectMark.toList ++ (name ++ ".rej".toList) ++ rest
  nonempty : name ≠ []
  inLine : '\n' ∉ name
  ended : ∀ c ∈ rest.head?, c = '\n'

/-- Names that are found in a text from left to right; the search goes on behind
a match. -/
inductive Captures : List Char → List String → Prop where
  | finished : Captures [] []
  | matched {text name rest : List Char} {names : List String}
      (fits : Matches text name rest) (others : Captures rest names) :
      Captures text (String.ofList name :: names)
  | skipped {c : Char} {text : List Char} {names : List String}
      (nothing : ∀ name rest, ¬ Matches (c :: text) name rest)
      (others : Captures text names) :
      Captures (c :: text) names

theorem lineFeed_notMem_matched {name : List Char} (inLine : '\n' ∉ name) :
    '\n' ∉ rejectMark.toList ++ (name ++ ".rej".toList) := by
  have inMark : '\n' ∉ rejectMark.toList := by decide
  have inEnd : '\n' ∉ ".rej".toList := by decide
  rw [List.mem_append, List.mem_append, not_or, not_or]
  exact ⟨inMark, inLine, inEnd⟩

/-- The pattern fits in one way at most, so it does not matter which one it
prefers. -/
theorem Matches.unique
    {text name name' rest rest' : List Char} (first : Matches text name rest)
    (second : Matches text name' rest') :
    name = name' ∧ rest = rest' := by
  obtain ⟨names, rests⟩ :=
    Text.append_end_inj (lineFeed_notMem_matched first.inLine)
      (lineFeed_notMem_matched second.inLine) first.ended second.ended
      (first.shape.symm.trans second.shape)
  exact ⟨List.append_cancel_right (List.append_cancel_left names), rests⟩

theorem Captures.unique
    {text : List Char} {names names' : List String} (first : Captures text names)
    (second : Captures text names') :
    names = names' := by
  induction first generalizing names' with
  | finished =>
      cases second with
      | finished => rfl
      | matched fits others => exact absurd fits.shape (by simp [rejectMark])
  | matched fits others inductionHypothesis =>
      cases second with
      | finished => exact absurd fits.shape (by simp [rejectMark])
      | matched fits' others' =>
          obtain ⟨rfl, rfl⟩ := fits.unique fits'
          rw [inductionHypothesis others']
      | skipped nothing others' => exact absurd fits (nothing _ _)
  | skipped nothing others inductionHypothesis =>
      cases second with
      | matched fits others' => exact absurd fits (nothing _ _)
      | skipped nothing' others' => exact inductionHypothesis others'

/-! ## Lines in a text -/

section Line

variable {line tail : List Char} (whole : '\n' ∉ line) (ended : ∀ c ∈ tail.head?, c = '\n')

include whole ended

/-- At the start of a line the pattern fits the whole line. -/
theorem matches_line_iff {name rest : List Char} :
    Matches (line ++ tail) name rest ↔
      line = rejectMark.toList ++ (name ++ ".rej".toList) ∧ name ≠ [] ∧ rest = tail := by
  constructor
  · intro fits
    obtain ⟨shape, same⟩ :=
      Text.append_end_inj whole (lineFeed_notMem_matched fits.inLine) ended fits.ended
        fits.shape
    exact ⟨shape, fits.nonempty, same.symm⟩
  · rintro ⟨rfl, nonempty, rfl⟩
    refine ⟨rfl, nonempty, ?_, ended⟩
    rw [List.mem_append, List.mem_append, not_or, not_or] at whole
    exact whole.2.1

end Line

theorem rejectedFile?_of_shape
    {line name : List Char} (shape : line = rejectMark.toList ++ (name ++ ".rej".toList))
    (nonempty : name ≠ []) :
    rejectedFile? line = some (String.ofList name) := by
  rw [rejectedFile?_eq_some_iff]
  refine ⟨mt String.ofList_eq_empty_iff.mp nonempty, [], ?_, fun _ _ _ => Nat.zero_le _⟩
  rw [String.toList_ofList, List.nil_append, shape]

/-- Where the pattern does not fit, nothing is lost by going on. -/
theorem rejectedFile?_cons
    {c : Char} {line : List Char}
    (nothing :
      ∀ name, c :: line = rejectMark.toList ++ (name ++ ".rej".toList) → name = []) :
    rejectedFile? (c :: line) = rejectedFile? line := by
  cases here : rejectMark.toList.isPrefixOf? (c :: line) with
  | none =>
      cases cut : Text.cutList? rejectMark.toList line with
      | none => simp only [rejectedFile?, Text.cutList?, here, cut, Option.map_none]
      | some parts => simp only [rejectedFile?, Text.cutList?, here, cut, Option.map_some]
  | some after =>
      have shape := List.isPrefixOf?_eq_some_iff_append_eq.mp here
      have cut : Text.cutList? rejectMark.toList (c :: line) = some ([], after) := by
        rw [Text.cutList?, here]
      have unreported : rejectedFile? (c :: line) = none := by
        rw [Option.eq_none_iff_forall_ne_some]
        intro name reported
        obtain ⟨nonempty, rfl⟩ := (rejectedFile?_of_cut cut).mp reported
        exact nonempty (String.toList_eq_nil_iff.mp (nothing _ shape.symm))
      rw [unreported, eq_comm, Option.eq_none_iff_forall_ne_some]
      intro name reported
      obtain ⟨-, before, lineShape, -⟩ := rejectedFile?_eq_some_iff.mp reported
      have lengths := congrArg List.length shape
      have lineLength := congrArg List.length lineShape
      have markLength : rejectMark.toList.length = 33 := by decide
      have endLength : ".rej".toList.length = 4 := by decide
      simp only [List.length_append, List.length_cons, markLength, endLength]
        at lengths lineLength
      have afterEnds : after <:+ c :: line := ⟨rejectMark.toList, shape⟩
      have endEnds : ".rej".toList <:+ c :: line := by
        rw [lineShape]
        exact ⟨c :: (before ++ rejectMark.toList ++ name.toList), by simp⟩
      obtain ⟨start, rfl⟩ :=
        List.suffix_of_suffix_length_le endEnds afterEnds (by omega)
      obtain rfl := nothing start shape.symm
      rw [List.nil_append, endLength] at lengths
      omega

theorem captures_line
    {line tail : List Char} (whole : '\n' ∉ line) (ended : ∀ c ∈ tail.head?, c = '\n')
    {names : List String} (others : Captures tail names) :
    Captures (line ++ tail) ((rejectedFile? line).toList ++ names) := by
  induction line with
  | nil => exact others
  | cons c line inductionHypothesis =>
      have wholeBehind : '\n' ∉ line := fun member => whole (List.mem_cons_of_mem c member)
      by_cases fits : ∃ name rest, Matches (c :: line ++ tail) name rest
      · obtain ⟨name, rest, fits⟩ := fits
        obtain ⟨shape, nonempty, rfl⟩ := (matches_line_iff whole ended).mp fits
        rw [rejectedFile?_of_shape shape nonempty]
        exact .matched fits others
      · have nothing :
            ∀ name, c :: line = rejectMark.toList ++ (name ++ ".rej".toList) → name = [] := by
          intro name shape
          by_contra nonempty
          exact fits ⟨name, tail, (matches_line_iff whole ended).mpr ⟨shape, nonempty, rfl⟩⟩
        rw [rejectedFile?_cons nothing]
        exact .skipped (fun name rest here => fits ⟨name, rest, here⟩)
          (inductionHypothesis wholeBehind)

theorem captures_lineFeed
    {text : List Char} {names : List String} (others : Captures text names) :
    Captures ('\n' :: text) names := by
  refine .skipped ?_ others
  intro name rest fits
  have first := congrArg List.head? fits.shape
  exact absurd first (by simp [rejectMark])

theorem filterMap_rejectedFile?_cons (line : List Char) (lines : List (List Char)) :
    (line :: lines).filterMap rejectedFile? =
      (rejectedFile? line).toList ++ lines.filterMap rejectedFile? := by
  rw [List.filterMap_cons]
  cases rejectedFile? line <;> rfl

theorem captures_lines (text : List Char) :
    Captures text ((text.splitOn '\n').filterMap rejectedFile?) := by
  induction length : text.length using Nat.strongRecOn generalizing text with
  | ind bound inductionHypothesis =>
      by_cases member : '\n' ∈ text
      · obtain ⟨line, rest, rfl, whole⟩ := List.eq_append_cons_of_mem member
        have shorter : rest.length < bound := by
          rw [← length, List.length_append, List.length_cons]
          omega
        have others := captures_lineFeed (inductionHypothesis _ shorter rest rfl)
        have lines : (line ++ '\n' :: rest).splitOn '\n' = line :: rest.splitOn '\n' := by
          rw [List.splitOn, List.splitOnP_append_cons _ _ (by decide), ← List.splitOn,
            ← List.splitOn, List.splitOn_eq_singleton whole, List.singleton_append]
        rw [lines, filterMap_rejectedFile?_cons]
        exact captures_line whole (by simp) others
      · have captures :
            Captures (text ++ []) ((rejectedFile? text).toList ++ []) :=
          captures_line member (by simp) .finished
        rw [List.append_nil] at captures
        rw [List.splitOn_eq_singleton member, filterMap_rejectedFile?_cons]
        exact captures

/-- The pattern finds what the lines report. -/
theorem captures_iff {output : String} {names : List String} :
    Captures output.toList names ↔ names = reportedRejects output := by
  constructor
  · exact fun captures => captures.unique (captures_lines output.toList)
  · rintro rfl
    exact captures_lines output.toList

end Patch

end ReviewDiff
