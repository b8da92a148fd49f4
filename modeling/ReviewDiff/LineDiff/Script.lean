import ReviewDiff.LineDiff.MiddleSnake

/-!
# Edit scripts by position

An operation keeps, deletes or inserts a run of items.  It names the place of the
run by the number of old and of new items before it.  `script` finds a shortest
script: it sets aside what both sides share at either end and splits the rest in
the middle of a shortest path.
-/

namespace ReviewDiff.LineDiff

inductive Kind where
  | keep
  | delete
  | insert
  deriving DecidableEq, Repr

/-- One step of an edit script: what happens to a run of items, with the recorded
number of items before it on either side. -/
structure Op where
  kind : Kind
  old : Nat
  new : Nat
  length : Nat
  deriving DecidableEq, Repr

namespace Op

/-- How many old items the operation covers. -/
def oldLength (op : Op) : Nat :=
  match op.kind with
  | .keep | .delete => op.length
  | .insert => 0

def newLength (op : Op) : Nat :=
  match op.kind with
  | .keep | .insert => op.length
  | .delete => 0

def oldEnd (op : Op) : Nat := op.old + op.oldLength

def newEnd (op : Op) : Nat := op.new + op.newLength

variable {α : Type}

def oldItems (op : Op) (old : List α) : List α := (old.drop op.old).take op.oldLength

def newItems (op : Op) (new : List α) : List α := (new.drop op.new).take op.newLength

theorem length_oldItems_le (op : Op) (old : List α) :
    (op.oldItems old).length ≤ op.length := by
  have covered : op.oldLength ≤ op.length := by
    unfold Op.oldLength
    cases op.kind with
    | keep => exact Nat.le_refl _
    | delete => exact Nat.le_refl _
    | insert => exact Nat.zero_le _
  simp only [Op.oldItems, List.length_take]
  omega

/-- The operation with its run moved towards the front. -/
def shiftLeft (op : Op) (count : Nat) :
    Op := { op with old := op.old - count, new := op.new - count }

def shiftRight (op : Op) (count : Nat) :
    Op := { op with old := op.old + count, new := op.new + count }

/-- The operation with more items at its front. -/
def growLeft (op : Op) (count : Nat) :
    Op := { op.shiftLeft count with length := op.length + count }

def growRight (op : Op) (count : Nat) : Op := { op with length := op.length + count }

def dropRight (op : Op) (count : Nat) : Op := { op with length := op.length - count }

def dropLeft (op : Op) (count : Nat) :
    Op := { op.shiftRight count with length := op.length - count }

end Op

/-- An operation, unless its run is empty. -/
def run (kind : Kind) (old new length : Nat) : List Op :=
  if length = 0 then [] else [⟨kind, old, new, length⟩]

variable {α : Type} [DecidableEq α]

/-- A shortest script from `old` to `new`, which `i` old and `j` new items
precede. -/
def scriptFrom (i j : Nat) (old new : List α) : List Op :=
  let front := commonPrefix old new
  let back := commonSuffix (old.drop front) (new.drop front)
  let a := (old.drop front).take (old.length - front - back)
  let b := (new.drop front).take (new.length - front - back)
  let i' := i + front
  let j' := j + front
  let replace := run .delete i' j' a.length ++ run .insert (i' + a.length) j' b.length
  let middle :=
    if a.isEmpty || b.isEmpty then replace
    else match middleSnake a b with
      | some (x, y) =>
          if _ : 0 < (a.take x).length + (b.take y).length ∧
              0 < (a.drop x).length + (b.drop y).length then
            scriptFrom i' j' (a.take x) (b.take y) ++
              scriptFrom (i' + x) (j' + y) (a.drop x) (b.drop y)
          else replace
      | none => replace
  run .keep i j front ++ middle ++ run .keep (i' + a.length) (j' + b.length) back
termination_by old.length + new.length
decreasing_by
  all_goals
    have shorterOld : a.length ≤ old.length := by
      simp only [a, List.length_take, List.length_drop]
      omega
    have shorterNew : b.length ≤ new.length := by
      simp only [b, List.length_take, List.length_drop]
      omega
    clear_value a b
    simp only [List.length_take, List.length_drop] at *
    omega

def script (old new : List α) : List Op :=
  scriptFrom 0 0 old new

end ReviewDiff.LineDiff
