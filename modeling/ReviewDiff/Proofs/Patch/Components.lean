import Mathlib.Data.List.DropRight
import ReviewDiff.Proofs.Patch.StripCount

/-!
# Components of a path

A path falls into components, each a name with all slashes that follow it, and
a last name behind them.  Components are stripped from the front, and the last
name stays.

* `removed_iff` says that stripping removes as many matches of the pattern
  "a name and slashes", from left to right, as the count says.
* `strip_takes_off_components` says what is left in terms of the components.
-/

namespace ReviewDiff.Patch

/-! ## Components -/

/-- A name, which may be empty, and one or more slashes behind it. -/
def IsComponent (text : List Char) : Prop :=
  ∃ name slashes, text = name ++ slashes ∧ '/' ∉ name ∧ slashes ≠ [] ∧
    ∀ c ∈ slashes, c = '/'

/-- The text begins with the component, which takes all slashes behind its name. -/
structure Leads (text component rest : List Char) : Prop where
  shape : text = component ++ rest
  isComponent : IsComponent component
  whole : rest.head? ≠ some '/'

/-- The path is the components one after the other and the last name. -/
inductive Splits : List Char → List (List Char) → List Char → Prop where
  | last {name : List Char} (single : '/' ∉ name) : Splits name [] name
  | component {path component rest : List Char} {components : List (List Char)}
      {last : List Char} (leads : Leads path component rest)
      (others : Splits rest components last) :
      Splits path (component :: components) last

theorem dropComponent?_of_leads
    {path component rest : List Char} (leads : Leads path component rest) :
    dropComponent? path = some rest := by
  obtain ⟨rfl, ⟨name, slashes, rfl, noSlash, nonempty, onlySlashes⟩, whole⟩ := leads
  have nameFits : ∀ c ∈ name, decide (c ≠ '/') = true := by
    intro c member
    exact decide_eq_true fun slash => noSlash (slash ▸ member)
  have slashesFit : ∀ c ∈ slashes, decide (c = '/') = true :=
    fun c member => decide_eq_true (onlySlashes c member)
  obtain ⟨first, more, rfl⟩ := List.exists_cons_of_ne_nil nonempty
  obtain rfl := onlySlashes first List.mem_cons_self
  rw [dropComponent?, List.append_assoc, List.dropWhile_append_of_pos nameFits,
    List.cons_append, List.dropWhile_cons_of_neg (by decide), ← List.cons_append]
  exact congrArg some
    ((List.dropWhile_append_of_pos slashesFit).trans (dropWhile_of_relative whole))

theorem exists_leads_of_dropComponent?
    {path rest : List Char} (dropped : dropComponent? path = some rest) :
    ∃ component, Leads path component rest := by
  have member : '/' ∈ path := by
    by_contra absent
    rw [dropComponent?_eq_none_iff.mpr absent] at dropped
    exact nomatch dropped
  obtain ⟨name, behind, rfl, noSlash⟩ := List.eq_append_cons_of_mem member
  let slashes := behind.takeWhile (· = '/')
  let back := behind.dropWhile (· = '/')
  have leads : Leads (name ++ '/' :: behind) (name ++ '/' :: slashes) back := by
    refine ⟨?_, ⟨name, '/' :: slashes, rfl, noSlash, List.cons_ne_nil _ _, ?_⟩, ?_⟩
    · rw [List.append_assoc, List.cons_append, List.takeWhile_append_dropWhile]
    · rw [List.forall_mem_cons]
      exact ⟨rfl, fun c inside => by simpa using List.mem_takeWhile_imp inside⟩
    · intro slash
      have stops := List.head?_dropWhile_not (· = '/') behind
      rw [show (behind.dropWhile (· = '/')).head? = some '/' from slash] at stops
      exact of_decide_eq_false stops rfl
  rw [dropComponent?_of_leads leads, Option.some.injEq] at dropped
  exact ⟨_, dropped ▸ leads⟩

theorem Leads.unique
    {path first second rest rest' : List Char} (leads : Leads path first rest)
    (leads' : Leads path second rest') :
    first = second ∧ rest = rest' := by
  have same := (dropComponent?_of_leads leads).symm.trans (dropComponent?_of_leads leads')
  obtain rfl := Option.some.inj same
  exact ⟨List.append_cancel_right (leads.shape.symm.trans leads'.shape), rfl⟩

theorem Leads.slash_mem {path component rest : List Char} (leads : Leads path component rest) :
    '/' ∈ path := by
  by_contra absent
  have dropped := dropComponent?_of_leads leads
  rw [dropComponent?_eq_none_iff.mpr absent] at dropped
  exact nomatch dropped

/-! ## Paths -/

theorem exists_splits (path : List Char) :
    ∃ components last, Splits path components last := by
  induction length : path.length using Nat.strongRecOn generalizing path with
  | ind bound inductionHypothesis =>
      cases dropped : dropComponent? path with
      | none => exact ⟨[], path, .last (dropComponent?_eq_none_iff.mp dropped)⟩
      | some rest =>
          have shorter := length_lt_of_dropComponent? dropped
          obtain ⟨components, last, others⟩ :=
            inductionHypothesis rest.length (length ▸ shorter) rest rfl
          obtain ⟨component, leads⟩ := exists_leads_of_dropComponent? dropped
          exact ⟨component :: components, last, .component leads others⟩

namespace Splits

variable {path last : List Char} {components : List (List Char)}

theorem unique
    (splits : Splits path components last) {others : List (List Char)} {otherLast : List Char}
    (splits' : Splits path others otherLast) :
    components = others ∧ last = otherLast := by
  induction splits generalizing others otherLast with
  | last single =>
      cases splits' with
      | last _ => exact ⟨rfl, rfl⟩
      | component leads _ => exact absurd leads.slash_mem single
  | component leads _ inductionHypothesis =>
      cases splits' with
      | last single => exact absurd leads.slash_mem single
      | component leads' behind =>
          obtain ⟨rfl, rfl⟩ := leads.unique leads'
          obtain ⟨rfl, rfl⟩ := inductionHypothesis behind
          exact ⟨rfl, rfl⟩

theorem rtakeWhile_append_of_isComponent
    {component : List Char} (isComponent : IsComponent component) (rest : List Char) :
    (component ++ rest).rtakeWhile (· ≠ '/') = rest.rtakeWhile (· ≠ '/') := by
  obtain ⟨name, slashes, rfl, -, nonempty, onlySlashes⟩ := isComponent
  have ends := onlySlashes _ (List.getLast_mem nonempty)
  have stops :
      (name ++ slashes).reverse.takeWhile (· ≠ '/') = [] := by
    rw [← List.dropLast_append_getLast nonempty, ends, List.reverse_append,
      List.reverse_concat]
    exact List.takeWhile_cons_of_neg (by decide)
  rw [List.rtakeWhile, List.reverse_append, List.takeWhile_append, stops, List.append_nil]
  split
  · rename_i whole
    rw [List.rtakeWhile, (List.takeWhile_sublist _).eq_of_length whole]
  · rfl

/-- The last name is what follows the last slash. -/
theorem last_eq (splits : Splits path components last) :
    last = path.rtakeWhile (· ≠ '/') := by
  induction splits with
  | last single =>
      refine (List.rtakeWhile_eq_self_iff.mpr fun c member => ?_).symm
      exact decide_eq_true fun slash => single (slash ▸ member)
  | component leads _ inductionHypothesis =>
      rw [leads.shape, rtakeWhile_append_of_isComponent leads.isComponent, inductionHypothesis]

theorem stripComponents_eq (splits : Splits path components last) (count : Nat) :
    stripComponents count path = (components.drop count).flatten ++ last := by
  induction splits generalizing count with
  | last single =>
      rw [stripComponents_of_none (dropComponent?_eq_none_iff.mpr single), List.drop_nil]
      rfl
  | component leads _ inductionHypothesis =>
      cases count with
      | zero =>
          have behind := inductionHypothesis 0
          rw [stripComponents, List.drop_zero] at behind
          rw [stripComponents, leads.shape, behind, List.drop_zero, List.flatten_cons,
            List.append_assoc]
      | succ count =>
          rw [stripComponents_of_some (dropComponent?_of_leads leads), inductionHypothesis,
            List.drop_succ_cons]

theorem stripComponents_suffix (splits : Splits path components last) (count : Nat) :
    stripComponents count path <:+ path := by
  have whole := splits.stripComponents_eq 0
  rw [stripComponents, List.drop_zero] at whole
  rw [splits.stripComponents_eq, whole]
  refine ⟨(components.take count).flatten, ?_⟩
  rw [← List.append_assoc, ← List.flatten_append, List.take_append_drop]

/-- A component takes its slashes with it. -/
theorem head?_stripComponents (splits : Splits path components last) (count : Nat) :
    (stripComponents (count + 1) path).head? ≠ some '/' := by
  induction splits generalizing count with
  | last single =>
      rw [stripComponents_of_none (dropComponent?_eq_none_iff.mpr single)]
      exact fun first => single (List.mem_of_head? first)
  | component leads _ inductionHypothesis =>
      rw [stripComponents_of_some (dropComponent?_of_leads leads)]
      cases count with
      | zero => exact leads.whole
      | succ count => exact inductionHypothesis count

end Splits

/-! ## Matches from left to right -/

/-- At most so many components are removed from a text, each of them where the
first one begins behind the one before.  What stands between them stays. -/
inductive Removed : Nat → List Char → List Char → Prop where
  | enough (text : List Char) : Removed 0 text text
  | finished (count : Nat) : Removed (count + 1) [] []
  | matched {count : Nat} {text component rest left : List Char}
      (leads : Leads text component rest) (others : Removed count rest left) :
      Removed (count + 1) text left
  | skipped {count : Nat} {c : Char} {text left : List Char}
      (nothing : ∀ component rest, ¬ Leads (c :: text) component rest)
      (others : Removed (count + 1) text left) :
      Removed (count + 1) (c :: text) (c :: left)

theorem removed_of_single {text : List Char} (single : '/' ∉ text) (count : Nat) :
    Removed (count + 1) text text := by
  induction text with
  | nil => exact .finished count
  | cons c text inductionHypothesis =>
      refine .skipped (fun component rest leads => single leads.slash_mem) ?_
      exact inductionHypothesis fun member => single (List.mem_cons_of_mem c member)

theorem removed_stripComponents (count : Nat) (path : List Char) :
    Removed count path (stripComponents count path) := by
  induction count generalizing path with
  | zero => exact .enough path
  | succ count inductionHypothesis =>
      cases dropped : dropComponent? path with
      | none =>
          rw [stripComponents_of_none dropped]
          exact removed_of_single (dropComponent?_eq_none_iff.mp dropped) count
      | some rest =>
          obtain ⟨component, leads⟩ := exists_leads_of_dropComponent? dropped
          rw [stripComponents_of_some dropped]
          exact .matched leads (inductionHypothesis rest)

/-- Where no component begins there is none further behind, so the matches stand
right behind one another and are the first components. -/
theorem removed_iff {count : Nat} {path left : List Char} :
    Removed count path left ↔ left = stripComponents count path := by
  constructor
  · intro removed
    induction removed with
    | enough text => rfl
    | finished count => rfl
    | matched leads _ inductionHypothesis =>
        rw [stripComponents_of_some (dropComponent?_of_leads leads), inductionHypothesis]
    | @skipped count c text left nothing _ inductionHypothesis =>
        have single : dropComponent? (c :: text) = none := by
          rw [Option.eq_none_iff_forall_ne_some]
          intro rest dropped
          obtain ⟨component, leads⟩ := exists_leads_of_dropComponent? dropped
          exact nothing component rest leads
        have singleBehind : dropComponent? text = none := by
          rw [dropComponent?_eq_none_iff] at single ⊢
          exact fun member => single (List.mem_cons_of_mem c member)
        rw [stripComponents_of_none single, inductionHypothesis,
          stripComponents_of_none singleBehind]
  · rintro rfl
    exact removed_stripComponents count path

/-! ## Stripping -/

theorem toList_strip (path : String) (count : Nat) :
    (strip path count).toList = stripComponents count path.toList :=
  String.toList_ofList

/-- Stripping takes off the first components, or all of them if there are fewer,
and leaves the last name.  What is left ends the path, begins with no slash unless
nothing was to be stripped, and can be stripped on.  It is what the bounded
removal of matches leaves, too. -/
theorem strip_takes_off_components (path : String) :
    (∃! components, Splits path.toList components (path.toList.rtakeWhile (· ≠ '/')) ∧
        ∀ count, (strip path count).toList =
          (components.drop count).flatten ++ path.toList.rtakeWhile (· ≠ '/')) ∧
      (∀ count, (strip path count).toList <:+ path.toList) ∧
      (∀ count, Text.startsWith "/" (strip path (count + 1)) = false) ∧
      (∀ first second, strip (strip path first) second = strip path (first + second)) ∧
      ∀ count left, Removed count path.toList left ↔ left = (strip path count).toList := by
  obtain ⟨components, last, splits⟩ := exists_splits path.toList
  obtain rfl := splits.last_eq
  refine ⟨⟨components, ⟨splits, ?_⟩, ?_⟩, ?_, ?_, ?_, ?_⟩
  · intro count
    rw [toList_strip, splits.stripComponents_eq]
  · rintro others ⟨splits', -⟩
    exact (splits'.unique splits).1
  · intro count
    rw [toList_strip]
    exact splits.stripComponents_suffix count
  · intro count
    have relative := splits.head?_stripComponents count
    rw [← toList_strip, Ne, ← Path.isAbsolute_iff] at relative
    exact Bool.eq_false_iff.mpr relative
  · intro first second
    rw [← String.toList_inj]
    simp only [toList_strip, stripComponents_add]
  · intro count left
    rw [toList_strip]
    exact removed_iff

example : strip "//depot//main/a" 2 = "main/a" := by decide

end ReviewDiff.Patch
