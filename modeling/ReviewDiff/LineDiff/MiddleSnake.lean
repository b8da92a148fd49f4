/-!
# Where to split two sequences so that their shortest edit script splits too

Think of a grid with the old items across and the new items down.  A path from one
corner to the other moves right over a deleted item, down over an inserted one and
diagonally, at no cost, over an item that both sides share.  Diagonal `k` holds
the points whose column exceeds their row by `k`.

Two searches advance in turn, one from each corner.  After `d` rounds a search
knows for each of the diagonals `d, d - 2, …, -d` the furthest column that `d`
edits reach: this list of columns is its *front*. Where the two fronts meet lies
the middle of a shortest path, and `middleSnake` returns a point of it.  The
forward search looks for a meeting when the lengths differ by an odd number, the
backward search otherwise; diagonals are tried from `d` downwards.
-/

namespace ReviewDiff.LineDiff

variable {α : Type} [DecidableEq α]

/-- The number of leading items that two sequences share. -/
def commonPrefix : List α → List α → Nat
  | a :: as, b :: bs => if a = b then commonPrefix as bs + 1 else 0
  | _, _ => 0

def commonSuffix (old new : List α) : Nat :=
  commonPrefix old.reverse new.reverse

theorem commonPrefix_le_length (old new : List α) : commonPrefix old new ≤ old.length := by
  induction old generalizing new with
  | nil => exact Nat.zero_le _
  | cons a rest inductionHypothesis =>
      cases new with
      | nil => exact Nat.zero_le _
      | cons b others =>
          rw [commonPrefix]
          by_cases same : a = b
          · rw [if_pos same]
            exact Nat.succ_le_succ (inductionHypothesis others)
          · rw [if_neg same]
            exact Nat.zero_le _

theorem commonSuffix_le_length (old new : List α) : commonSuffix old new ≤ old.length := by
  rw [← List.length_reverse]
  exact commonPrefix_le_length old.reverse new.reverse

/-! ## Fronts -/

/-- Where the next round starts on the diagonals below one whose column is
`above`.  A diagonal is entered from the neighbour that reached further; on a tie
from the one below, by deleting an item. -/
def startsBelow (above : Nat) : List Nat → List Nat
  | [] => [above]
  | here :: rest => (if here < above then above else here + 1) :: startsBelow here rest

/-- The columns at which the next round starts, before shared items are passed. -/
def nextStarts : List Nat → List Nat
  | [] => [0]
  | first :: rest => (first + 1) :: startsBelow first rest

/-- One diagonal of a round: where it is entered and how far shared items lead
from there. -/
structure Reach where
  diagonal : Int
  start : Nat
  stop : Nat

def rowOf (column : Nat) (diagonal : Int) : Nat :=
  (column - diagonal).toNat

/-- Round `d` of a search, from the front of the round before it. -/
def reaches (old new : List α) (d : Nat) (front : List Nat) : List Reach :=
  (nextStarts front).mapIdx fun i start =>
    let diagonal : Int := d - 2 * i
    ⟨diagonal, start, start + commonPrefix (old.drop start) (new.drop (rowOf start diagonal))⟩

/-- The column that the front of round `d` has on a diagonal, if the round knows
the diagonal. -/
def columnOn (d : Nat) (front : List Nat) (diagonal : Int) : Option Nat :=
  if diagonal.natAbs ≤ d then front[((d - diagonal) / 2).toNat]? else none

/-- Whether a point meets or passes the front that comes from the other corner. -/
def meets (width : Nat) (difference : Int) (d : Nat) (front : List Nat) (reach : Reach) :
    Bool :=
  match columnOn d front (difference - reach.diagonal) with
  | some column => width ≤ reach.stop + column
  | none => false

/-! ## The search -/

/-- Rounds `d`, `d + 1`, … of both searches; `rounds` bounds their number. -/
def searchMiddle (old new oldBack newBack : List α) :
    (rounds d : Nat) → (forward backward : List Nat) →
    Option (Nat × Nat)
  | 0, _, _, _ => none
  | rounds + 1, d, forward, backward =>
      let width := old.length
      let height := new.length
      let difference : Int := width - height
      let odd := (width + height) % 2 == 1
      let ahead := reaches old new d forward
      match ahead.find? fun reach => odd && meets width difference (d - 1) backward reach with
      | some reach => some (reach.start, rowOf reach.start reach.diagonal)
      | none =>
          let front := ahead.map Reach.stop
          let behind := reaches oldBack newBack d backward
          match behind.find? fun reach => !odd && meets width difference d front reach with
          | some reach => some (width - reach.stop, height - rowOf reach.stop reach.diagonal)
          | none =>
              searchMiddle old new oldBack newBack rounds (d + 1) front (behind.map Reach.stop)

/-- A point in the middle of a shortest path: how many old and how many new items
lie before it. -/
def middleSnake (old new : List α) : Option (Nat × Nat) :=
  searchMiddle old new old.reverse new.reverse ((old.length + new.length + 1) / 2 + 1) 0 [] []

end ReviewDiff.LineDiff
