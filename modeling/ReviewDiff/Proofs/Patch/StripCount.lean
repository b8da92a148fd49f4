import ReviewDiff.Patch.StripCount
import ReviewDiff.Proofs.Path

/-!
# Stripping the base of a diff

A count is derived from the text of the base: it is the number of its slashes
and one more, and the directory has to begin with that text.  It takes off the
base exactly if every component of the base ends in a single slash.  The count
means that the directory lies in the base exactly if the directory does not go
on with the last name of the base.
-/

namespace ReviewDiff.Patch

/-! ## The first component -/

theorem dropComponent?_slash (path : List Char) :
    dropComponent? ('/' :: path) = some (path.dropWhile (· = '/')) := by
  rw [dropComponent?, List.dropWhile_cons_of_neg (by decide)]
  exact congrArg some (List.dropWhile_cons_of_pos (by decide))

theorem dropComponent?_cons {c : Char} (other : c ≠ '/') (path : List Char) :
    dropComponent? (c :: path) = dropComponent? path := by
  rw [dropComponent?, List.dropWhile_cons_of_pos (by simpa using other), ← dropComponent?]

theorem dropComponent?_eq_none_iff {path : List Char} :
    dropComponent? path = none ↔ '/' ∉ path := by
  induction path with
  | nil => decide
  | cons c path inductionHypothesis =>
      by_cases slash : c = '/'
      · rw [slash, dropComponent?_slash]
        simp
      · rw [dropComponent?_cons slash, inductionHypothesis, List.mem_cons, not_or]
        exact (and_iff_right (Ne.symm slash)).symm

theorem length_lt_of_dropComponent?
    {path rest : List Char} (dropped : dropComponent? path = some rest) :
    rest.length < path.length := by
  induction path with
  | nil => exact nomatch dropped
  | cons c path inductionHypothesis =>
      by_cases slash : c = '/'
      · rw [slash, dropComponent?_slash, Option.some.injEq] at dropped
        rw [← dropped, List.length_cons]
        exact Nat.lt_succ_of_le (List.dropWhile_sublist _).length_le
      · rw [dropComponent?_cons slash] at dropped
        exact Nat.lt_succ_of_lt (inductionHypothesis dropped)

/-! ## Several components -/

theorem stripComponents_of_none
    {path : List Char} (last : dropComponent? path = none) (count : Nat) :
    stripComponents count path = path := by
  cases count with
  | zero => rfl
  | succ count => rw [stripComponents, last]

theorem stripComponents_of_some
    {path rest : List Char} (dropped : dropComponent? path = some rest) (count : Nat) :
    stripComponents (count + 1) path = stripComponents count rest := by
  rw [stripComponents, dropped]

theorem length_stripComponents_le (count : Nat) (path : List Char) :
    (stripComponents count path).length ≤ path.length := by
  induction count generalizing path with
  | zero => exact Nat.le_refl _
  | succ count inductionHypothesis =>
      cases dropped : dropComponent? path with
      | none => exact Nat.le_of_eq (congrArg List.length (stripComponents_of_none dropped _))
      | some rest =>
          rw [stripComponents_of_some dropped]
          exact Nat.le_trans (inductionHypothesis rest)
            (Nat.le_of_lt (length_lt_of_dropComponent? dropped))

/-- Components are stripped one after the other. -/
theorem stripComponents_add (first second : Nat) (path : List Char) :
    stripComponents (first + second) path =
      stripComponents second (stripComponents first path) := by
  induction first generalizing path with
  | zero => rw [Nat.zero_add, stripComponents]
  | succ first inductionHypothesis =>
      cases dropped : dropComponent? path with
      | none => simp only [stripComponents_of_none dropped]
      | some rest =>
          rw [Nat.succ_add, stripComponents_of_some dropped,
            stripComponents_of_some dropped, inductionHypothesis]

/-- A path stays whole if nothing is stripped or it has one component only. -/
theorem stripComponents_eq_self_iff {count : Nat} {path : List Char} :
    stripComponents count path = path ↔ count = 0 ∨ '/' ∉ path := by
  rw [← dropComponent?_eq_none_iff]
  constructor
  · intro whole
    cases count with
    | zero => exact Or.inl rfl
    | succ count =>
        cases dropped : dropComponent? path with
        | none => exact Or.inr rfl
        | some rest =>
            rw [stripComponents_of_some dropped] at whole
            have shorter := length_stripComponents_le count rest
            rw [whole] at shorter
            exact absurd shorter (Nat.not_le_of_lt (length_lt_of_dropComponent? dropped))
  · rintro (rfl | last)
    · rfl
    · exact stripComponents_of_none last count

/-! ## Bases -/

/-- How many slashes of a text stand right behind another one. -/
def doubledSlashes : List Char → Nat
  | '/' :: '/' :: rest => doubledSlashes ('/' :: rest) + 1
  | _ :: rest => doubledSlashes rest
  | [] => 0

theorem doubledSlashes_slash_slash (rest : List Char) :
    doubledSlashes ('/' :: '/' :: rest) = doubledSlashes ('/' :: rest) + 1 := by
  rw [doubledSlashes]

theorem doubledSlashes_cons
    {c : Char} {rest : List Char} (single : c = '/' → rest.head? ≠ some '/') :
    doubledSlashes (c :: rest) = doubledSlashes rest := by
  rw [doubledSlashes]
  rintro more rfl rfl
  exact single rfl rfl

theorem doubledSlashes_eq_zero_iff {text : List Char} :
    doubledSlashes text = 0 ↔ ¬ ['/', '/'] <:+: text := by
  fun_induction doubledSlashes text with
  | case1 rest inductionHypothesis =>
      have doubled : ['/', '/'] <:+: '/' :: '/' :: rest :=
        (List.prefix_append ['/', '/'] rest).isInfix
      simp [doubled]
  | case2 c rest single inductionHypothesis =>
      have notHere : ¬ ['/', '/'] <+: c :: rest := by
        rintro ⟨more, shape⟩
        obtain ⟨rfl, rfl⟩ := List.cons.inj shape
        exact single more rfl rfl
      rw [inductionHypothesis, List.infix_cons_iff, not_or]
      exact (and_iff_right notHere).symm
  | case3 => decide

theorem stripComponents_slash_slash (count : Nat) (path : List Char) :
    stripComponents (count + 1) ('/' :: '/' :: path) =
      stripComponents (count + 1) ('/' :: path) := by
  rw [stripComponents_of_some (dropComponent?_slash _),
    stripComponents_of_some (dropComponent?_slash _), List.dropWhile_cons_of_pos (by decide)]

theorem stripComponents_name
    {c : Char} (other : c ≠ '/') {path : List Char} (member : '/' ∈ path) (count : Nat) :
    stripComponents (count + 1) (c :: path) = stripComponents (count + 1) path := by
  cases dropped : dropComponent? path with
  | none => exact absurd member (dropComponent?_eq_none_iff.mp dropped)
  | some rest =>
      have same : dropComponent? (c :: path) = some rest := by
        rw [dropComponent?_cons other, dropped]
      rw [stripComponents_of_some same, stripComponents_of_some dropped]

theorem dropWhile_of_relative {path : List Char} (relative : path.head? ≠ some '/') :
    path.dropWhile (· = '/') = path := by
  cases path with
  | nil => rfl
  | cons c path =>
      have other : c ≠ '/' := fun same => relative (congrArg some same)
      exact List.dropWhile_cons_of_neg (by simpa using other)

/-- As many components as a base has slashes take off the base, and one more for
every slash behind another one. -/
theorem stripComponents_base
    {base : List Char} (ended : ∀ c ∈ base.getLast?, c = '/')
    {file : List Char} (relative : file.head? ≠ some '/') :
    stripComponents (base.count '/') (base ++ file) =
      stripComponents (doubledSlashes base) file := by
  induction base with
  | nil => rfl
  | cons c base inductionHypothesis =>
      have endedBehind : ∀ d ∈ base.getLast?, d = '/' := by
        intro d last
        apply ended
        rw [List.getLast?_cons, Option.mem_def.mp last]
        rfl
      have behind := inductionHypothesis endedBehind
      by_cases slash : c = '/'
      · subst slash
        rw [List.count_cons_self, List.cons_append]
        by_cases again : base.head? = some '/'
        · obtain ⟨more, rfl⟩ := List.head?_eq_some_iff.mp again
          rw [List.count_cons_self] at behind ⊢
          rw [List.cons_append, stripComponents_slash_slash, ← List.cons_append,
            stripComponents_add (more.count '/' + 1), behind, ← stripComponents_add,
            doubledSlashes_slash_slash]
        · have relativeBehind : (base ++ file).head? ≠ some '/' := by
            cases base with
            | nil => exact relative
            | cons d base => exact again
          rw [stripComponents_of_some (dropComponent?_slash _),
            dropWhile_of_relative relativeBehind, behind,
            doubledSlashes_cons fun _ => again]
      · have nonempty : base ≠ [] := by
          rintro rfl
          exact slash (ended c rfl)
        have member : '/' ∈ base := by
          rw [← endedBehind _ (List.getLast?_eq_some_getLast nonempty)]
          exact List.getLast_mem nonempty
        obtain ⟨count, counted⟩ :=
          Nat.exists_eq_add_one_of_ne_zero (Nat.ne_of_gt (List.count_pos_iff.mpr member))
        rw [counted] at behind
        rw [List.count_cons_of_ne slash, counted, List.cons_append,
          stripComponents_name slash (List.mem_append_left file member), behind,
          doubledSlashes_cons fun same => absurd same slash]

/-! ## The derived count -/

theorem stripCount?_eq_some_iff {basePath baseDir : String} {count : Nat} :
    stripCount? basePath baseDir = some count ↔
      (basePath ≠ "" ∧ Text.startsWith basePath baseDir = true) ∧
        basePath.toList.count '/' + 1 = count := by
  rw [stripCount?, Option.ite_none_right_eq_some, Bool.and_eq_true, decide_eq_true_eq,
    Option.some.injEq]

/-- The derived count takes off the base, unless a slash of the base stands
behind another one and the file has further components. -/
theorem strip_base_iff
    (basePath : String) {file : String} (relative : Text.startsWith "/" file = false) :
    strip (basePath ++ "/" ++ file) (basePath.toList.count '/' + 1) = file ↔
      ¬ ['/', '/'] <:+: (basePath ++ "/").toList ∨ '/' ∉ file.toList := by
  have shape : (basePath ++ "/").toList = basePath.toList ++ ['/'] := String.toList_append
  have counted : basePath.toList.count '/' + 1 = (basePath ++ "/").toList.count '/' := by
    rw [shape, List.count_append, List.count_singleton_self]
  have ended : ∀ c ∈ (basePath ++ "/").toList.getLast?, c = '/' := by
    rw [shape, List.getLast?_concat]
    rintro c ⟨⟩
    rfl
  have relativeFile : file.toList.head? ≠ some '/' := by
    rw [Ne, ← Path.isAbsolute_iff, Path.isAbsolute, relative]
    exact Bool.false_ne_true
  have whole : (basePath ++ "/" ++ file).toList = (basePath ++ "/").toList ++ file.toList :=
    String.toList_append
  rw [strip, counted, whole, stripComponents_base ended relativeFile,
    ← doubledSlashes_eq_zero_iff, ← stripComponents_eq_self_iff, ← String.toList_inj,
    String.toList_ofList]

/-- A count is derived for the directories in the base, and it takes off the
base. -/
structure Agrees (basePath baseDir : String) : Prop where
  derived :
    (∃ count, stripCount? basePath baseDir = some count) ↔
      basePath ≠ "" ∧ Path.isWithin basePath baseDir = true
  stripped :
    ∀ count, stripCount? basePath baseDir = some count →
      ∀ file, Text.startsWith "/" file = false →
        strip (basePath ++ "/" ++ file) count = file

/-- If the directory begins with the text of the base, it does not go on with
the last name of the base, and every component of the base ends in a single
slash. -/
def Apart (basePath baseDir : String) : Prop :=
  ∀ rest, baseDir = basePath ++ rest →
    (rest = "" ∨ Text.startsWith "/" rest = true ∨
        Text.endsWith "/." basePath = true) ∧
      ¬ ['/', '/'] <:+: (basePath ++ "/").toList

theorem agrees_of_apart
    {basePath baseDir : String} (nonempty : basePath ≠ "") (apart : Apart basePath baseDir)
    (begins :
      Path.isWithin basePath baseDir = true → Text.startsWith basePath baseDir = true) :
    Agrees basePath baseDir where
  derived := by
    constructor
    · rintro ⟨count, derived⟩
      obtain ⟨⟨-, starts⟩, -⟩ := stripCount?_eq_some_iff.mp derived
      obtain ⟨rest, rfl⟩ := Text.startsWith_iff.mp starts
      refine ⟨nonempty, (Path.isWithin_append_iff nonempty rest).mpr ?_⟩
      rcases (apart rest rfl).1 with whole | component | dotted
      · exact Or.inl whole
      · exact Or.inr (Or.inl component)
      · exact Or.inr (Or.inr (Or.inr dotted))
    · rintro ⟨-, within⟩
      exact ⟨_, stripCount?_eq_some_iff.mpr ⟨⟨nonempty, begins within⟩, rfl⟩⟩
  stripped := by
    intro count derived file relative
    obtain ⟨⟨-, starts⟩, rfl⟩ := stripCount?_eq_some_iff.mp derived
    obtain ⟨rest, rfl⟩ := Text.startsWith_iff.mp starts
    exact (strip_base_iff basePath relative).mpr (Or.inl (apart rest rfl).2)

theorem Agrees.apart
    {basePath baseDir : String} (agrees : Agrees basePath baseDir)
    (nonempty : basePath ≠ "") : Apart basePath baseDir := by
  rintro rest rfl
  have derived :=
    stripCount?_eq_some_iff.mpr
      ⟨⟨nonempty, Text.startsWith_iff.mpr ⟨rest, rfl⟩⟩, rfl⟩
  have single : ¬ ['/', '/'] <:+: (basePath ++ "/").toList := by
    have stripped := agrees.stripped _ derived "a/b" (by decide)
    exact ((strip_base_iff basePath (by decide)).mp stripped).resolve_right (by decide)
  refine ⟨?_, single⟩
  have within := (agrees.derived.mp ⟨_, derived⟩).2
  rcases (Path.isWithin_append_iff nonempty rest).mp within with
    whole | component | ended | dotted
  · exact Or.inl whole
  · exact Or.inr (Or.inl component)
  · obtain ⟨front, rfl⟩ := Text.endsWith_iff.mp ended
    refine absurd ⟨front.toList, [], ?_⟩ single
    simp
  · exact Or.inr (Or.inr dotted)

/-- Derived counts agree with the base exactly if directories are apart from it
and those in the base begin with its text.  Among paths that are spelled plainly
the latter goes without saying. -/
theorem agrees_iff (basePath baseDir : String) :
    (Agrees basePath baseDir ↔
        (basePath ≠ "" →
          Apart basePath baseDir ∧
            (Path.isWithin basePath baseDir = true →
              Text.startsWith basePath baseDir = true))) ∧
      (Path.ofComponents (Path.components basePath) = basePath →
        Path.ofComponents (Path.components baseDir) = baseDir →
          (Agrees basePath baseDir ↔ (basePath ≠ "" → Apart basePath baseDir))) := by
  have general :
      Agrees basePath baseDir ↔
        (basePath ≠ "" →
          Apart basePath baseDir ∧
            (Path.isWithin basePath baseDir = true →
              Text.startsWith basePath baseDir = true)) := by
    constructor
    · intro agrees nonempty
      refine ⟨agrees.apart nonempty, ?_⟩
      intro within
      obtain ⟨count, derived⟩ := agrees.derived.mpr ⟨nonempty, within⟩
      exact (stripCount?_eq_some_iff.mp derived).1.2
    · intro fits
      by_cases empty : basePath = ""
      · have underived : ∀ count, stripCount? basePath baseDir ≠ some count :=
          fun count derived => (stripCount?_eq_some_iff.mp derived).1.1 empty
        refine ⟨?_, fun count derived => absurd derived (underived count)⟩
        exact iff_of_false (not_exists.mpr underived) fun within => within.1 empty
      · exact agrees_of_apart empty (fits empty).1 (fits empty).2
  refine ⟨general, ?_⟩
  intro plain plainDir
  rw [general]
  exact
    forall_congr' fun _ =>
      and_iff_left fun within => Path.startsWith_of_isWithin plain plainDir within

/-- A directory next to the base counts as one in the base, and a doubled slash
counts as two components. -/
theorem not_agrees_beside_or_doubled :
    (stripCount? "/trunk" "/trunk2" = some 2 ∧
        Path.isWithin "/trunk" "/trunk2" = false ∧ ¬ Agrees "/trunk" "/trunk2") ∧
      stripCount? "a//b" "a//b/c" = some 3 ∧
        strip ("a//b" ++ "/" ++ "f/g") 3 = "g" ∧ ¬ Agrees "a//b" "a//b/c" := by
  have beside : stripCount? "/trunk" "/trunk2" = some 2 := by decide
  have outside : Path.isWithin "/trunk" "/trunk2" = false := by decide
  have doubled : stripCount? "a//b" "a//b/c" = some 3 := by decide
  have stripped : strip ("a//b" ++ "/" ++ "f/g") 3 = "g" := by decide
  refine ⟨⟨beside, outside, ?_⟩, doubled, stripped, ?_⟩
  · intro agrees
    rw [(agrees.derived.mp ⟨2, beside⟩).2] at outside
    exact Bool.noConfusion outside
  · intro agrees
    rw [agrees.stripped 3 doubled "f/g" (by decide)] at stripped
    exact absurd stripped (by decide)

end ReviewDiff.Patch
