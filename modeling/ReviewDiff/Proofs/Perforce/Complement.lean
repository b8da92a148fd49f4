import ReviewDiff.Proofs.Glob
import ReviewDiff.Proofs.Perforce.Filter
import ReviewDiff.Proofs.Text.Line

/-!
# A name that is shown or left out

A name that the caller wants to see is compared as a text, a name that is to be
left out as a pattern.  Both are seen from the working directory, so the two
comparisons agree unless the name of that directory makes a pattern.

* `result_select_only` and `result_select_allBut` give the outcome of both.
* `complementary_iff` says when each one selects what the other one drops.
-/

namespace ReviewDiff.Perforce

open Change

/-! ## One name -/

/-- Only the files with the name are wanted. -/
def onlyNamed (name : String) : DiffOptions where
  includeFiles := [name]

/-- All files are wanted but those with the name. -/
def allButNamed (name : String) : DiffOptions where
  excludePatterns := [name]

/-- The name selects a part of any files when it is wanted and the other part
when it is not, or both selections fail alike. -/
def Complementary (workspace : Workspace) (name : String) : Prop :=
  ∀ (serve : (q : surroundings.Request) → surroundings.Answer q) (files : List ChangedFile),
    (∃ failure,
      (workspace.select (onlyNamed name) files).run.result serve = .error failure ∧
        (workspace.select (allButNamed name) files).run.result serve = .error failure) ∨
    ∃ shown : ChangedFile → Bool,
      (workspace.select (onlyNamed name) files).run.result serve = .ok (files.filter shown) ∧
        (workspace.select (allButNamed name) files).run.result serve =
          .ok (files.filter fun file => !shown file)

theorem keeps_only (name : String) (names : List String) :
    (Filter.mk [name] []).keeps names = names.contains name := by
  have single : ∀ text, [name].contains text = (text == name) := fun text => by
    rw [List.contains_cons, List.contains_nil, Bool.or_false]
  have nothing : (names.any fun _ => false) = false := by simp
  unfold Filter.keeps
  simp only [List.isEmpty_cons, Bool.false_or, single, List.any_nil, nothing, Bool.not_false,
    Bool.and_true, List.any_beq']

theorem keeps_allBut (pattern : Glob.Pattern) (names : List String) :
    (Filter.mk [] [pattern]).keeps names = !names.any pattern.accepts := by
  unfold Filter.keeps
  simp only [List.isEmpty_nil, Bool.true_or, Bool.true_and, List.any_cons, List.any_nil,
    Bool.or_false]

theorem eq_of_filter_singleton
    {α : Type} {first second : α → Bool} {item : α}
    (same : [item].filter first = [item].filter second) :
    first item = second item := by
  rw [Bool.eq_iff_iff]
  have members : item ∈ [item].filter first ↔ item ∈ [item].filter second := by rw [same]
  rwa [List.mem_filter, List.mem_filter, and_iff_right (List.mem_singleton_self item),
    and_iff_right (List.mem_singleton_self item)] at members

section Name

variable {serve : (q : surroundings.Request) → surroundings.Answer q} {workspace : Workspace}
  {name : String}

theorem result_select_only (files : List ChangedFile) :
    (workspace.select (onlyNamed name) files).run.result serve =
      match firstFailure serve files with
      | some failure => .error (.perforce failure)
      | none =>
          .ok (files.filter fun file =>
            (namesOf serve file).contains (workspace.normalizeName name)) := by
  have normalized :
      (workspace.normalizePatterns (onlyNamed name).excludePatterns).run.result serve =
        .ok [] :=
    rfl
  rw [result_select_of_filtered rfl, normalized, Except.bind]
  cases firstFailure serve files with
  | some failure => rfl
  | none => exact congrArg Except.ok (List.filter_congr fun file _ => keeps_only _ _)

variable (placed : isDepotPath name = true ∨ Text.startsWith "/" name = false)

include placed

theorem normalizePattern_eq_normalizeName (root : String) :
    workspace.normalizePattern root name = workspace.normalizeName name := by
  unfold Workspace.normalizePattern Workspace.normalizeName
  by_cases depot : isDepotPath name = true
  · rw [if_pos depot, if_pos depot]
  · have relative := placed.resolve_left depot
    rw [if_neg depot, if_neg depot, Text.after?_eq_none relative]

theorem isRootRelative_eq_false : isRootRelative name = false := by
  unfold isRootRelative
  rcases placed with depot | relative
  · rw [depot, Bool.not_true, Bool.and_false]
  · rw [relative, Bool.false_and]

theorem result_normalizePatterns_named :
    (workspace.normalizePatterns [name]).run.result serve =
      .ok [workspace.normalizeName name] := by
  unfold Workspace.normalizePatterns
  simp only [List.any_cons, List.any_nil, isRootRelative_eq_false placed, Bool.or_false,
    Bool.false_eq_true, if_false, List.map_cons, List.map_nil]
  exact congrArg (fun text => Except.ok [text])
    (normalizePattern_eq_normalizeName placed ((none : Option String).getD "/"))

theorem result_select_allBut (files : List ChangedFile) :
    (workspace.select (allButNamed name) files).run.result serve =
      match firstFailure serve files with
      | some failure => .error (.perforce failure)
      | none =>
          .ok (files.filter fun file =>
            !(namesOf serve file).any
              (Glob.Pattern.ofText (workspace.normalizeName name)).accepts) := by
  have normalized :
      (workspace.normalizePatterns (allButNamed name).excludePatterns).run.result serve =
        .ok [workspace.normalizeName name] :=
    result_normalizePatterns_named placed
  rw [result_select_of_filtered rfl, normalized, Except.bind]
  cases firstFailure serve files with
  | some failure => rfl
  | none => exact congrArg Except.ok (List.filter_congr fun file _ => keeps_allBut _ _)

/-- Wanting a name and leaving it out divide the files, if the pattern that the
name makes stands for itself. -/
theorem complementary_of_literal
    (literal :
      ∀ text, (Glob.Pattern.ofText (workspace.normalizeName name)).accepts text = true ↔
        text = workspace.normalizeName name) :
    Complementary workspace name := by
  intro serve files
  rw [result_select_only, result_select_allBut placed]
  cases firstFailure serve files with
  | some failure => exact .inl ⟨_, rfl, rfl⟩
  | none =>
      refine .inr ⟨_, rfl, congrArg Except.ok (List.filter_congr fun file _ => ?_)⟩
      have sameTest :
          (Glob.Pattern.ofText (workspace.normalizeName name)).accepts =
            fun text => text == workspace.normalizeName name := by
        funext text
        rw [Bool.eq_iff_iff, literal, beq_iff_eq]
      rw [sameTest, List.any_beq']

end Name

/-! ## Directories whose names are patterns -/

/-- A server that maps no file into the workspace. -/
def placeless : (q : surroundings.Request) → surroundings.Answer q
  | .inl (.localPath _) => .ok none
  | .inl _ => .error (.notFound "")
  | .inr (.discard _) => ()
  | .inr .now => ⟨2024, 1, 2, 3, 4, 5⟩
  | .inr (.run ..) => .error (.os Host.notFound)
  | .inr (.contents _) => .error (.os Host.notFound)
  | .inr (.createFile _) => .error (.os Host.notFound)
  | .inr (.createDirectories _) => .error (.os Host.notFound)
  | .inr (.writeTemporary _) => .error (.os Host.notFound)
  | .inr .temporaryPath => .error (.os Host.notFound)
  | .inr .temporaryDirectory => .ok ()

theorem literal_of_complementary
    {workspace : Workspace} {name : String}
    (placed : isDepotPath name = true ∨ Text.startsWith "/" name = false)
    (complementary : Complementary workspace name) (text : String) :
    (Glob.Pattern.ofText (workspace.normalizeName name)).accepts text = true ↔
      text = workspace.normalizeName name := by
  have outcome := complementary placeless [⟨text, 1, .add, ""⟩]
  have placeable : firstFailure placeless [⟨text, 1, .add, ""⟩] = none := rfl
  have named : namesOf placeless ⟨text, 1, .add, ""⟩ = [text] := rfl
  rw [result_select_only, result_select_allBut placed, placeable] at outcome
  rcases outcome with ⟨failure, failed, -⟩ | ⟨shown, kept, others⟩
  · exact nomatch failed
  · have isShown := eq_of_filter_singleton (Except.ok.inj kept)
    have isDropped := eq_of_filter_singleton (Except.ok.inj others)
    rw [named] at isShown isDropped
    rw [← isShown, List.any_cons, List.any_nil, Bool.or_false, Bool.not_inj_iff] at isDropped
    rw [isDropped, List.contains_iff_mem, List.mem_singleton, eq_comm]

/-- The name of the directory is a part of the pattern, unless the name is that
of a file in the depot. -/
theorem plain_normalizeName_iff
    {workspace : Workspace} {name : String} (plain : ∀ c ∈ name.toList, ¬ Glob.Special c)
    (placed : isDepotPath name = true ∨ Text.startsWith "/" name = false) :
    (∀ c ∈ (workspace.normalizeName name).toList, ¬ Glob.Special c) ↔
      isDepotPath name = true ∨ ∀ c ∈ workspace.directory.toList, ¬ Glob.Special c := by
  unfold Workspace.normalizeName
  by_cases depot : isDepotPath name = true
  · rw [if_pos depot]
    exact iff_of_true plain (.inl depot)
  · rw [if_neg depot, or_iff_right depot]
    have relative : Path.isAbsolute name = false := placed.resolve_left depot
    have slash : ∀ c ∈ "/".toList, ¬ Glob.Special c := by simp [Glob.Special]
    rw [Path.join, if_neg (Bool.eq_false_iff.mp relative)]
    split
    · rw [String.toList_append, List.forall_mem_append, and_iff_left plain]
    · rw [String.toList_append, String.toList_append, List.forall_mem_append,
        List.forall_mem_append, and_iff_left plain, and_iff_left slash]

/-- Wanting a name and leaving it out divide any files, if the name is that of a
file in the depot, if its directory has no special characters or if the path to
it is no pattern, and only then. -/
theorem complementary_iff
    {workspace : Workspace} {name : String} (plain : ∀ c ∈ name.toList, ¬ Glob.Special c)
    (placed : isDepotPath name = true ∨ Text.startsWith "/" name = false) :
    Complementary workspace name ↔
      isDepotPath name = true ∨ (∀ c ∈ workspace.directory.toList, ¬ Glob.Special c) ∨
        Glob.Pattern.read? (Path.join workspace.directory name) = none := by
  have literal :
      Complementary workspace name ↔
        ∀ text, (Glob.Pattern.ofText (workspace.normalizeName name)).accepts text = true ↔
          text = workspace.normalizeName name :=
    ⟨literal_of_complementary placed, complementary_of_literal placed⟩
  rw [literal, Glob.literal_iff, plain_normalizeName_iff plain placed]
  by_cases depot : isDepotPath name = true
  · exact iff_of_true (.inr (.inl depot)) (.inl depot)
  · rw [Workspace.normalizeName, if_neg depot, or_iff_right depot, or_iff_right depot,
      or_comm]

theorem complementary_in_open_bracket :
    (∀ c ∈ "src/a.c".toList, ¬ Glob.Special c) ∧ Text.startsWith "/" "src/a.c" = false ∧
      Complementary ⟨"/ws/[x", "patch"⟩ "src/a.c" := by
  have plain : ∀ c ∈ "src/a.c".toList, ¬ Glob.Special c := by simp [Glob.Special]
  have relative : Text.startsWith "/" "src/a.c" = false := by decide
  have above : ∀ c ∈ "/ws/".toList, ¬ Glob.Special c := by simp [Glob.Special]
  have isOpen : Glob.readTokens? none ("/ws/".toList ++ '[' :: "x/src/a.c".toList) = none :=
    Glob.readTokens?_of_open above rfl none
  have unreadable : Glob.Pattern.read? (Path.join "/ws/[x" "src/a.c") = none :=
    congrArg (Option.map Glob.Pattern.mk) isOpen
  refine ⟨plain, relative, ?_⟩
  exact (complementary_iff plain (.inr relative)).mpr (.inr (.inr unreadable))

/-- A mapping with a file in a directory that is called `[x]` and a file in one
that the pattern `[x]` fits. -/
def bracketed : (q : surroundings.Request) → surroundings.Answer q
  | .inl (.localPath path) =>
      .ok
        (if path = "//d/a" then some "/ws/[x]/f"
        else if path = "//d/b" then some "/ws/x/f"
        else none)
  | q => placeless q

/-- In the directory `[x]` the name `f` neither shows the file in `x` nor leaves
out the file in `[x]`. -/
theorem not_complementary_in_brackets :
    (Workspace.select ⟨"/ws/[x]", "patch"⟩ (onlyNamed "f")
        [⟨"//d/a", 1, .add, "7"⟩, ⟨"//d/b", 1, .add, "7"⟩]).run.result bracketed =
      .ok [⟨"//d/a", 1, .add, "7"⟩] ∧
    (Workspace.select ⟨"/ws/[x]", "patch"⟩ (allButNamed "f")
        [⟨"//d/a", 1, .add, "7"⟩, ⟨"//d/b", 1, .add, "7"⟩]).run.result bracketed =
      .ok [⟨"//d/a", 1, .add, "7"⟩] := by
  have relative : Text.startsWith "/" "f" = false := by decide
  have placeable :
      firstFailure bracketed [⟨"//d/a", 1, .add, "7"⟩, ⟨"//d/b", 1, .add, "7"⟩] = none := by
    decide
  have compared : Workspace.normalizeName ⟨"/ws/[x]", "patch"⟩ "f" = "/ws/[x]/f" := by decide
  have pattern :
      Glob.Pattern.ofText "/ws/[x]/f" =
        ⟨"/ws/".toList.map .char ++ .among [.one 'x'] :: "/f".toList.map .char⟩ := by
    have read :
        Glob.Pattern.read? "/ws/[x]/f" =
          some ⟨"/ws/".toList.map .char ++ .among [.one 'x'] :: "/f".toList.map .char⟩ := by
      cbv
    rw [Glob.Pattern.ofText, read]
    rfl
  rw [result_select_only, result_select_allBut (.inr relative), placeable, compared, pattern]
  exact ⟨congrArg Except.ok (by decide), congrArg Except.ok (by decide)⟩

end ReviewDiff.Perforce
