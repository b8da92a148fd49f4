import ReviewDiff.LineDiff.Script

/-!
# Settling the place of changes

Among repeated items a change can often slide: an insertion may move up through
the kept items before it when they end like the inserted items do, and down when
the items after it begin like them.  `settle` gives every change a fixed place.
Each one in turn is moved up as far as it goes and then down as far as it goes; on
its way it changes places with changes of the other kind and unites with changes
of its own kind.  Deletions are settled first, then insertions.  A deletion slides
past no kept item, it only joins the changes next to it.

Positions follow the slides.  When a deletion and an insertion change places
neither is renumbered, so the position of a run on the side that it does not touch
may lag behind; the headers of hunks print what is recorded here.
-/

namespace ReviewDiff.LineDiff

/-- A place in a script: the operations before it from near to far, the operation
there, and those after it. -/
structure Place where
  before : List Op
  focus : Op
  after : List Op

/-- Keeps `count` more items right after a place, `gap` being where they are if no
kept run follows. -/
def keepAfter (gap : Op) (count : Nat) : List Op → List Op
  | next :: rest =>
      if next.kind = .keep then next.growLeft count :: rest else gap :: next :: rest
  | [] => [gap]

/-- Keeps `count` more items right before a place, `gap` being where they are if
no kept run precedes. -/
def keepBefore (gap : Op) (count : Nat) : List Op → List Op
  | previous :: rest =>
      if previous.kind = .keep then previous.growRight count :: rest
      else gap :: previous :: rest
  | [] => [gap]

def consUnlessEmpty (op : Op) (ops : List Op) : List Op :=
  if op.length = 0 then ops else op :: ops

/-- How much there is to move through: every operation counts one more than its
items. -/
def weight : List Op → Nat
  | [] => 0
  | op :: ops => op.length + 1 + weight ops

@[simp]
theorem weight_nil : weight [] = 0 := rfl

@[simp]
theorem weight_cons (op : Op) (ops : List Op) :
    weight (op :: ops) = op.length + 1 + weight ops :=
  rfl

theorem weight_consUnlessEmpty_le (op : Op) (ops : List Op) :
    weight (consUnlessEmpty op ops) ≤ op.length + 1 + weight ops := by
  unfold consUnlessEmpty
  by_cases empty : op.length = 0
  · rw [if_pos empty]
    exact Nat.le_add_left _ _
  · exact Nat.le_of_eq (by rw [if_neg empty, weight_cons])

variable {α : Type} [DecidableEq α]

/-- How many of the kept items before a change end the change too, so that it may
slide up through them. -/
def slackUp (old new : List α) (kept change : Op) : Nat :=
  commonSuffix (kept.oldItems old) (change.newItems new)

/-- How many of the kept items after a change begin the change too, so that it may
slide down through them. -/
def slackDown (old new : List α) (kept change : Op) : Nat :=
  commonPrefix (kept.oldItems old) (change.newItems new)

theorem slackUp_le (old new : List α) (kept change : Op) :
    slackUp old new kept change ≤ kept.length :=
  Nat.le_trans (commonSuffix_le_length _ _) (kept.length_oldItems_le old)

theorem slackDown_le (old new : List α) (kept change : Op) :
    slackDown old new kept change ≤ kept.length :=
  Nat.le_trans (commonPrefix_le_length _ _) (kept.length_oldItems_le old)

/-- Moves the change at a place up as far as it goes. -/
def moveUp (old new : List α) (before : List Op) (focus : Op) (after : List Op) : Place :=
  match before with
  | [] => ⟨[], focus, after⟩
  | previous :: rest =>
      if focus.kind = .keep then ⟨previous :: rest, focus, after⟩
      else if previous.kind = .keep then
        let count := slackUp old new previous focus
        if 0 < count then
          let gap : Op := ⟨.keep, previous.oldEnd - count, focus.newEnd - count, count⟩
          moveUp old new (consUnlessEmpty (previous.dropRight count) rest)
            (focus.shiftLeft count) (keepAfter gap count after)
        else if previous.length = 0 then moveUp old new rest focus after
        else ⟨previous :: rest, focus, after⟩
      else if previous.kind = focus.kind then
        moveUp old new rest (previous.growRight focus.length) after
      else moveUp old new rest focus (previous :: after)
termination_by weight before
decreasing_by
  · have bound :=
      weight_consUnlessEmpty_le (previous.dropRight (slackUp old new previous focus)) rest
    have small := slackUp_le old new previous focus
    simp only [weight_cons, Op.dropRight] at *
    omega
  all_goals
    simp only [weight_cons]
    omega

def moveDown (old new : List α) (before : List Op) (focus : Op) (after : List Op) : Place :=
  match after with
  | [] => ⟨before, focus, []⟩
  | next :: rest =>
      if focus.kind = .keep then ⟨before, focus, next :: rest⟩
      else if next.kind = .keep then
        let count := slackDown old new next focus
        if 0 < count then
          let gap : Op := ⟨.keep, next.old, focus.new, count⟩
          moveDown old new (keepBefore gap count before) (focus.shiftRight count)
            (consUnlessEmpty (next.dropLeft count) rest)
        else if next.length = 0 then moveDown old new before focus rest
        else ⟨before, focus, next :: rest⟩
      else if next.kind = focus.kind then
        moveDown old new before (focus.growRight next.length) rest
      else moveDown old new (next :: before) focus rest
termination_by weight after
decreasing_by
  · have bound :=
      weight_consUnlessEmpty_le (next.dropLeft (slackDown old new next focus)) rest
    have small := slackDown_le old new next focus
    simp only [weight_cons, Op.dropLeft, Op.shiftRight] at *
    omega
  all_goals
    simp only [weight_cons]
    omega

def resettle (old new : List α) (before : List Op) (focus : Op) (after : List Op) : Place :=
  let top := moveUp old new before focus after
  moveDown old new top.before top.focus top.after

/-! ## Changes still to come -/

def countKind (kind : Kind) (ops : List Op) : Nat :=
  ops.countP (·.kind = kind)

theorem countKind_cons (kind : Kind) (op : Op) (ops : List Op) :
    countKind kind (op :: ops) = countKind kind ops + if op.kind = kind then 1 else 0 := by
  simp [countKind, List.countP_cons]

theorem countKind_cons_of_ne
    {kind : Kind} {op : Op} (different : op.kind ≠ kind) (ops : List Op) :
    countKind kind (op :: ops) = countKind kind ops := by
  rw [countKind_cons, if_neg different, Nat.add_zero]

theorem countKind_le_cons (kind : Kind) (op : Op) (ops : List Op) :
    countKind kind ops ≤ countKind kind (op :: ops) := by
  rw [countKind_cons]
  exact Nat.le_add_right _ _

theorem countKind_keepAfter
    {kind : Kind}
    (change : kind ≠ .keep)
    {gap : Op}
    (kept : gap.kind = .keep)
    (count : Nat)
    (ops : List Op) :
    countKind kind (keepAfter gap count ops) = countKind kind ops := by
  have other {op : Op} (kept : op.kind = .keep) : op.kind ≠ kind :=
    fun same => change (same.symm.trans kept)
  cases ops with
  | nil => exact countKind_cons_of_ne (other kept) []
  | cons next rest =>
      rw [keepAfter]
      by_cases keeps : next.kind = .keep
      · rw [if_pos keeps, countKind_cons_of_ne (other keeps)]
        have grown : (next.growLeft count).kind ≠ kind := other keeps
        exact countKind_cons_of_ne grown rest
      · rw [if_neg keeps]
        exact countKind_cons_of_ne (other kept) (next :: rest)

theorem countKind_consUnlessEmpty_le (kind : Kind) (op : Op) (ops : List Op) :
    countKind kind (consUnlessEmpty op ops) ≤ countKind kind (op :: ops) := by
  unfold consUnlessEmpty
  by_cases empty : op.length = 0
  · rw [if_pos empty]
    exact countKind_le_cons kind op ops
  · exact Nat.le_of_eq (by rw [if_neg empty])

theorem countKind_after_moveUp
    (old new : List α)
    {kind : Kind}
    (change : kind ≠ .keep)
    (before : List Op)
    (focus : Op)
    (same : focus.kind = kind)
    (after : List Op) :
    countKind kind (moveUp old new before focus after).after = countKind kind after := by
  fun_induction moveUp old new before focus after with
  | case1 => rfl
  | case2 => rfl
  | case3 focus after previous rest _ _ count _ gap inductionHypothesis =>
      rw [inductionHypothesis same]
      exact countKind_keepAfter change rfl count after
  | case4 focus after previous rest _ _ count _ _ inductionHypothesis =>
      exact inductionHypothesis same
  | case5 => rfl
  | case6 focus after previous rest _ _ united inductionHypothesis =>
      exact inductionHypothesis (united.trans same)
  | case7 focus after previous rest _ _ different inductionHypothesis =>
      rw [inductionHypothesis same]
      exact countKind_cons_of_ne (fun other => different (other.trans same.symm)) after

theorem countKind_after_moveDown_le
    (old new : List α)
    {kind : Kind}
    (before : List Op)
    (focus : Op)
    (after : List Op) :
    countKind kind (moveDown old new before focus after).after ≤ countKind kind after := by
  fun_induction moveDown old new before focus after with
  | case1 => exact Nat.le_refl _
  | case2 => exact Nat.le_refl _
  | case3 before focus next rest _ kept count _ gap inductionHypothesis =>
      calc
        _ ≤ countKind kind (consUnlessEmpty (next.dropLeft count) rest) := inductionHypothesis
        _ ≤ countKind kind (next.dropLeft count :: rest) :=
            countKind_consUnlessEmpty_le kind _ rest
        _ = countKind kind (next :: rest) := by
            rw [countKind_cons, countKind_cons]
            rfl
  | case4 before focus next rest _ _ count _ _ inductionHypothesis =>
      exact Nat.le_trans inductionHypothesis (countKind_le_cons kind next rest)
  | case5 => exact Nat.le_refl _
  | case6 before focus next rest _ _ _ inductionHypothesis =>
      exact Nat.le_trans inductionHypothesis (countKind_le_cons kind next rest)
  | case7 before focus next rest _ _ _ inductionHypothesis =>
      exact Nat.le_trans inductionHypothesis (countKind_le_cons kind next rest)

theorem countKind_after_resettle_le
    (old new : List α)
    {kind : Kind}
    (change : kind ≠ .keep)
    (before : List Op)
    (focus : Op)
    (same : focus.kind = kind)
    (after : List Op) :
    countKind kind (resettle old new before focus after).after ≤ countKind kind after := by
  unfold resettle
  calc
    _ ≤ countKind kind (moveUp old new before focus after).after :=
        countKind_after_moveDown_le old new _ _ _
    _ = countKind kind after :=
        countKind_after_moveUp old new change before focus same after

/-! ## Whole scripts -/

/-- Settles the changes of one kind that are still to come; `before` holds the
operations already passed. -/
def settleFrom
    (old new : List α) (kind : Kind) (change : kind ≠ .keep) (before after : List Op) :
    List Op :=
  match after with
  | [] => before.reverse
  | op :: rest =>
      if _ : op.kind = kind then
        let place := resettle old new before op rest
        settleFrom old new kind change (place.focus :: place.before) place.after
      else settleFrom old new kind change (op :: before) rest
termination_by (countKind kind after, after.length)
decreasing_by
  · rename_i same
    have bound := countKind_after_resettle_le old new change before op same rest
    apply Prod.Lex.left
    rw [countKind_cons, if_pos same]
    omega
  · rename_i different
    rw [countKind_cons_of_ne different]
    apply Prod.Lex.right
    exact Nat.lt_add_one rest.length

/-- The script with every change in its settled place. -/
def settle (old new : List α) (ops : List Op) : List Op :=
  settleFrom old new .insert (by decide) [] (settleFrom old new .delete (by decide) [] ops)

end ReviewDiff.LineDiff
