import ReviewDiff.Proofs.Glob
import ReviewDiff.Proofs.Perforce.Filter

/-!
# Texts that leave files out

A caller tells by texts which files are to be left out.  The texts are made
comparable with the names of files, and a pattern is made of each of them.  A
text that is no pattern stands for itself: it leaves out the file that has it as
its path in the depot or in the workspace.

* `any_accepts_ofText` is about one text and one file.
* `selection_goes_by_texts` says how a selection ends, whatever Perforce answers.
-/

namespace ReviewDiff.Perforce

open Change

/-! ## One file -/

/-- Whether a text leaves out the file with this path in the depot and this place
in the workspace: as a pattern that fits one of the two or, if it is no pattern, as
one of the two. -/
def leavesOut (text path : String) (place : Option String) : Bool :=
  match Glob.Pattern.read? text with
  | some pattern => (path :: place.toList).any pattern.accepts
  | none => path = text || place = some text

theorem any_accepts_of_unreadable
    {text : String} (unreadable : Glob.Pattern.read? text = none) (names : List String) :
    names.any (Glob.Pattern.ofText text).accepts = true ↔ text ∈ names := by
  have literal := Glob.ofText_accepts_of_unreadable unreadable
  rw [List.any_eq_true]
  simp only [literal, exists_eq_right]

/-- The pattern made of a text fits a name of a file if and only if the text
leaves the file out. -/
theorem any_accepts_ofText (text path : String) (place : Option String) :
    (path :: place.toList).any (Glob.Pattern.ofText text).accepts =
      leavesOut text path place := by
  unfold leavesOut
  cases read : Glob.Pattern.read? text with
  | some pattern => rw [Glob.ofText_of_read? read]
  | none =>
      rw [Bool.eq_iff_iff, any_accepts_of_unreadable read, List.mem_cons, Option.mem_toList,
        eq_comm, Bool.or_eq_true, decide_eq_true_eq, decide_eq_true_eq]

example :
    leavesOut "/ws/[x" "//d/a" (some "/ws/[x") = true ∧
      leavesOut "/ws/[x" "//d/a" (some "/ws/x") = false := by
  constructor <;> cbv

/-- Patterns made of texts take away the files that one of the texts leaves out. -/
theorem keeps_ofTexts (wanted texts : List String) (path : String) (place : Option String) :
    (Filter.mk wanted (texts.map Glob.Pattern.ofText)).keeps (path :: place.toList) =
      ((wanted.isEmpty || (path :: place.toList).any (wanted.contains ·)) &&
        !texts.any (leavesOut · path place)) := by
  have swapped :
      ((path :: place.toList).any fun name =>
          (texts.map Glob.Pattern.ofText).any (·.accepts name)) =
        texts.any (leavesOut · path place) := by
    simp only [← any_accepts_ofText, List.any_map]
    rw [Bool.eq_iff_iff]
    simp only [List.any_eq_true]
    constructor
    · rintro ⟨name, known, text, listed, fits⟩
      exact ⟨text, listed, name, known, fits⟩
    · rintro ⟨text, listed, name, known, fits⟩
      exact ⟨name, known, text, listed, fits⟩
  unfold Filter.keeps
  rw [swapped]

/-! ## Selections -/

section Selections

variable (serve : (q : surroundings.Request) → surroundings.Answer q)

/-- Whether the caller wants to see a file: it is named, or no file is. -/
def Workspace.wants
    (workspace : Workspace) (options : DiffOptions) (file : ChangedFile) :
    Bool :=
  options.includeFiles.isEmpty ||
    (namesOf serve file).any ((options.includeFiles.map workspace.normalizeName).contains ·)

/-- A pattern can be made of every text.  A selection fails if the texts cannot
be made comparable or if a file cannot be placed.  Otherwise it drops the files
that the caller does not want and those that one of the texts leaves out. -/
theorem selection_goes_by_texts
    (workspace : Workspace) (options : DiffOptions) (files : List ChangedFile) :
    (∀ texts : List String,
        texts.mapM Glob.Pattern.ofText? = some (texts.map Glob.Pattern.ofText)) ∧
      (workspace.select options files).run.result serve =
        if options.includeFiles.isEmpty && options.excludePatterns.isEmpty then .ok files
        else
          ((workspace.normalizePatterns options.excludePatterns).run.result serve).bind
            fun texts =>
              match firstFailure serve files with
              | some failure => .error (.perforce failure)
              | none =>
                  .ok (files.filter fun file =>
                    workspace.wants serve options file &&
                      !texts.any (leavesOut · file.path (placeOf serve file.path))) := by
  refine ⟨Glob.mapM_ofText?, ?_⟩
  cases filtered : options.includeFiles.isEmpty && options.excludePatterns.isEmpty with
  | true =>
      rw [Workspace.select, if_pos filtered]
      rfl
  | false =>
      rw [result_select_of_filtered filtered, if_neg Bool.false_ne_true]
      refine congrArg (Except.bind _) (funext fun texts => ?_)
      cases firstFailure serve files with
      | some failure => rfl
      | none =>
          refine congrArg Except.ok (List.filter_congr fun file _ => ?_)
          rw [namesOf, keeps_ofTexts, List.isEmpty_map]
          rfl

end Selections

end ReviewDiff.Perforce
