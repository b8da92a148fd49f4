import ReviewDiff.LineDiff.Hunk
import ReviewDiff.Proofs.LineDiff.Settle

/-!
# The path of segments and clusters

Segments cover the same path as the script that they are made from
(`covers_segments`).  A kept segment records both of its positions.  A changed
one records its position on every side where it covers something, which is at
least one side.

`Spaced` says that clusters of segments lead from one point to another with
runs of equal lines in between.  A kept segment that is shortened leaves such
a run.
-/

namespace ReviewDiff.LineDiff

variable {α : Type}

/-! ## Segments at a point -/

/-- The point behind a segment. -/
def Segment.past (point : Point) (segment : Segment) : Point :=
  (point.1 + segment.oldLength, point.2 + segment.newLength)

/-- A segment covers the items behind a point and records where it stands on
the sides that it touches. -/
def Segment.StandsAt
    (old new : List α) (point : Point) (segment : Segment) : Prop :=
  if segment.kept then
    segment.old = point.1 ∧ segment.new = point.2 ∧
      segment.newLength = segment.oldLength ∧
      SameRun old new point segment.oldLength
  else
    0 < segment.oldLength + segment.newLength ∧
      (0 < segment.oldLength →
        segment.old = point.1 ∧ segment.old + segment.oldLength ≤ old.length) ∧
      (0 < segment.newLength →
        segment.new = point.2 ∧ segment.new + segment.newLength ≤ new.length)

/-- The segments lead from one point to another. -/
abbrev Covers (old new : List α) : Point → List Segment → Point → Prop :=
  Chains (Segment.StandsAt old new) Segment.past

section Segments

variable {old new : List α} {point start middle finish : Point}

theorem standsAt_kept {segment : Segment} (kept : segment.kept = true) :
    segment.StandsAt old new point ↔
      segment.old = point.1 ∧ segment.new = point.2 ∧
        segment.newLength = segment.oldLength ∧
        SameRun old new point segment.oldLength := by
  simp only [Segment.StandsAt, kept, if_true]

theorem standsAt_changed {segment : Segment} (changed : segment.kept = false) :
    segment.StandsAt old new point ↔
      0 < segment.oldLength + segment.newLength ∧
        (0 < segment.oldLength →
          segment.old = point.1 ∧ segment.old + segment.oldLength ≤ old.length) ∧
        (0 < segment.newLength →
          segment.new = point.2 ∧ segment.new + segment.newLength ≤ new.length) := by
  simp [Segment.StandsAt, changed]

/-! ## Gathering operations -/

/-- One side of a change under way: nothing, or a run that records its
position on that side. -/
def RunSpans (recorded : Op → Nat) (bound start : Nat) :
    Option Op → Nat → Prop
  | none, finish => finish = start
  | some op, finish =>
      0 < op.length ∧ recorded op = start ∧ start + op.length ≤ bound ∧
        finish = start + op.length

/-- What has been gathered leads from one point to another. -/
def Pending.Spans
    (old new : List α) (start : Point) (pending : Pending) (finish : Point) :
    Prop :=
  match pending with
  | .nothing => start = finish
  | .kept op =>
      op.old = start.1 ∧ op.new = start.2 ∧ SameRun old new start op.length ∧
        finish = (start.1 + op.length, start.2 + op.length)
  | .changed deleted inserted =>
      RunSpans Op.old old.length start.1 deleted finish.1 ∧
        RunSpans Op.new new.length start.2 inserted finish.2

/-- An operation as the start of a segment. -/
def Pending.ofOp (op : Op) : Pending :=
  match op.kind with
  | .keep => .kept op
  | .delete => .changed (some op) none
  | .insert => .changed none (some op)

/-- What has been gathered, with an operation that belongs to the same segment. -/
def Pending.joined? (pending : Pending) (op : Op) : Option Pending :=
  match op.kind, pending with
  | .keep, .kept first => some (.kept (first.growRight op.length))
  | .delete, .changed deleted inserted =>
      some (.changed (some (joinRun deleted op)) inserted)
  | .insert, .changed deleted inserted =>
      some (.changed deleted (some (joinRun inserted op)))
  | _, _ => none

theorem segmentsFrom_cons (pending : Pending) (op : Op) (rest : List Op) :
    segmentsFrom pending (op :: rest) =
      match pending.joined? op with
      | some joined => segmentsFrom joined rest
      | none => pending.segment ++ segmentsFrom (.ofOp op) rest := by
  cases kind : op.kind with
  | keep => cases pending <;> simp [segmentsFrom, Pending.joined?, Pending.ofOp, kind]
  | delete => cases pending <;> simp [segmentsFrom, Pending.joined?, Pending.ofOp, kind]
  | insert => cases pending <;> simp [segmentsFrom, Pending.joined?, Pending.ofOp, kind]

theorem covers_changed
    {segment : Segment} (changed : segment.kept = false)
    (positive : 0 < segment.oldLength + segment.newLength)
    (oldSide :
      0 < segment.oldLength →
        segment.old = start.1 ∧ start.1 + segment.oldLength ≤ old.length)
    (newSide :
      0 < segment.newLength →
        segment.new = start.2 ∧ start.2 + segment.newLength ≤ new.length) :
    Covers old new start [segment]
      (start.1 + segment.oldLength, start.2 + segment.newLength) := by
  refine chains_singleton.mpr ⟨(standsAt_changed changed).mpr ⟨positive, ?_, ?_⟩, rfl⟩
  · intro deletes
    obtain ⟨records, bound⟩ := oldSide deletes
    exact ⟨records, records ▸ bound⟩
  · intro inserts
    obtain ⟨records, bound⟩ := newSide inserts
    exact ⟨records, records ▸ bound⟩

theorem covers_pending
    {pending : Pending} (spans : pending.Spans old new start finish) :
    Covers old new start pending.segment finish := by
  obtain ⟨i, j⟩ := start
  obtain ⟨i', j'⟩ := finish
  cases pending with
  | nothing => exact spans
  | kept op =>
      obtain ⟨oldStart, newStart, run, finish⟩ := spans
      rw [finish]
      exact chains_singleton.mpr
        ⟨(standsAt_kept rfl).mpr ⟨oldStart, newStart, rfl, run⟩, rfl⟩
  | changed deleted inserted =>
      obtain ⟨oldSide, newSide⟩ := spans
      cases deleted with
      | none =>
          obtain rfl : i' = i := oldSide
          cases inserted with
          | none =>
              obtain rfl : j' = j := newSide
              rfl
          | some insertion =>
              obtain ⟨positive, records, bound, rfl⟩ := newSide
              exact covers_changed rfl (Nat.add_pos_right 0 positive)
                (fun deletes => absurd deletes (Nat.lt_irrefl 0)) fun _ => ⟨records, bound⟩
      | some deletion =>
          obtain ⟨positive, records, bound, rfl⟩ := oldSide
          cases inserted with
          | none =>
              obtain rfl : j' = j := newSide
              exact covers_changed rfl (Nat.add_pos_left positive 0)
                (fun _ => ⟨records, bound⟩) fun inserts => absurd inserts (Nat.lt_irrefl 0)
          | some insertion =>
              obtain ⟨_, newRecords, newBound, rfl⟩ := newSide
              exact covers_changed rfl (Nat.add_pos_left positive insertion.length)
                (fun _ => ⟨records, bound⟩) fun _ => ⟨newRecords, newBound⟩

theorem runSpans_joinRun
    {recorded : Op → Nat} {bound start middle : Nat} {run : Option Op} {op : Op}
    (joined : ∀ first : Op, recorded (first.growRight op.length) = recorded first)
    (spans : RunSpans recorded bound start run middle)
    (positive : 0 < op.length) (stands : recorded op = middle)
    (inBound : middle + op.length ≤ bound) :
    RunSpans recorded bound start (some (joinRun run op)) (middle + op.length) := by
  cases run with
  | none =>
      simp only [RunSpans] at spans
      subst spans
      exact ⟨positive, stands, inBound, rfl⟩
  | some first =>
      obtain ⟨firstPositive, firstStart, _, rfl⟩ := spans
      refine ⟨?_, (joined first).trans firstStart, ?_, ?_⟩
      · exact Nat.add_pos_left firstPositive _
      · simp only [joinRun, Op.growRight]
        omega
      · simp only [joinRun, Op.growRight, Nat.add_assoc]

theorem spans_ofOp
    {op : Op} (stands : op.StandsAt old new start) :
    (Pending.ofOp op).Spans old new start (op.past start) := by
  unfold Pending.ofOp
  cases kind : op.kind with
  | keep =>
      obtain ⟨_, oldStart, newStart, run⟩ := (standsAt_keep kind).mp stands
      rw [past_keep kind]
      exact ⟨oldStart, newStart, run, rfl⟩
  | delete =>
      obtain ⟨positive, oldStart, oldBound⟩ := (standsAt_delete kind).mp stands
      rw [past_delete kind]
      exact ⟨⟨positive, oldStart, by omega, rfl⟩, rfl⟩
  | insert =>
      obtain ⟨positive, newStart, newBound⟩ := (standsAt_insert kind).mp stands
      rw [past_insert kind]
      exact ⟨rfl, positive, newStart, by omega, rfl⟩

theorem spans_joined
    {pending joined : Pending} {op : Op}
    (spans : pending.Spans old new start middle)
    (stands : op.StandsAt old new middle)
    (joins : pending.joined? op = some joined) :
    joined.Spans old new start (op.past middle) := by
  unfold Pending.joined? at joins
  cases kind : op.kind with
  | keep =>
      obtain ⟨_, _, _, run⟩ := (standsAt_keep kind).mp stands
      rw [kind] at joins
      rw [past_keep kind]
      cases pending with
      | kept first =>
          cases joins
          obtain ⟨firstOld, firstNew, firstRun, rfl⟩ := spans
          refine ⟨firstOld, firstNew, firstRun.join run, ?_⟩
          simp only [Op.growRight, Nat.add_assoc]
      | nothing | changed => cases joins
  | delete =>
      obtain ⟨positive, oldStart, oldBound⟩ := (standsAt_delete kind).mp stands
      rw [kind] at joins
      rw [past_delete kind]
      cases pending with
      | changed deleted inserted =>
          cases joins
          obtain ⟨oldSide, newSide⟩ := spans
          exact ⟨runSpans_joinRun (fun _ => rfl) oldSide positive oldStart (by omega), newSide⟩
      | nothing | kept => cases joins
  | insert =>
      obtain ⟨positive, newStart, newBound⟩ := (standsAt_insert kind).mp stands
      rw [kind] at joins
      rw [past_insert kind]
      cases pending with
      | changed deleted inserted =>
          cases joins
          obtain ⟨oldSide, newSide⟩ := spans
          exact ⟨oldSide, runSpans_joinRun (fun _ => rfl) newSide positive newStart (by omega)⟩
      | nothing | kept => cases joins

theorem covers_segmentsFrom
    {pending : Pending} {ops : List Op}
    (spans : pending.Spans old new start middle)
    (leads : Leads old new middle ops finish) :
    Covers old new start (segmentsFrom pending ops) finish := by
  induction ops generalizing pending start middle with
  | nil =>
      obtain rfl : middle = finish := leads
      exact covers_pending spans
  | cons op rest inductionHypothesis =>
      obtain ⟨stands, onward⟩ := leads
      rw [segmentsFrom_cons]
      cases joins : pending.joined? op with
      | some joined => exact inductionHypothesis (spans_joined spans stands joins) onward
      | none =>
          exact chains_append.mpr
            ⟨middle, covers_pending spans, inductionHypothesis (spans_ofOp stands) onward⟩

theorem covers_segments
    {ops : List Op} (leads : Leads old new start ops finish) :
    Covers old new start (segments ops) finish := by
  have spans : Pending.nothing.Spans old new start start := rfl
  exact covers_segmentsFrom spans leads

/-- The segments of a settled script lead from the start of both sequences to
the end of both. -/
theorem covers_script
    [DecidableEq α] (old new : List α) :
    Covers old new (0, 0) (segments (settle old new (script old new)))
      (old.length, new.length) :=
  covers_segments (leads_settle old new (leads_script old new))

end Segments

/-! ## Clusters -/

/-- Clusters, with runs of equal items before, between and after them, lead
from one point to another. -/
inductive Spaced (old new : List α) : Point → List (List Segment) → Point → Prop
  | done {start : Point} {count : Nat} :
      SameRun old new start count →
      Spaced old new start [] (start.1 + count, start.2 + count)
  | next {start middle finish : Point} {count : Nat}
      {cluster : List Segment} {rest : List (List Segment)} :
      SameRun old new start count →
      cluster ≠ [] →
      Covers old new (start.1 + count, start.2 + count) cluster middle →
      Spaced old new middle rest finish →
      Spaced old new start (cluster :: rest) finish

section Clusters

variable {old new : List α} {start middle finish : Point}
  {groups : List (List Segment)} {count : Nat}

theorem Spaced.prepend
    (run : SameRun old new start count)
    (spaced : Spaced old new (start.1 + count, start.2 + count) groups finish) :
    Spaced old new start groups finish := by
  cases spaced with
  | @done _ further back =>
      have joined := Spaced.done (run.join back)
      simpa only [Nat.add_assoc] using joined
  | @next _ _ _ further _ _ back nonempty covers rest =>
      refine Spaced.next (run.join back) nonempty ?_ rest
      simpa only [Nat.add_assoc] using covers

theorem Spaced.append
    (spaced : Spaced old new start groups middle)
    (run : SameRun old new middle count) :
    Spaced old new start groups (middle.1 + count, middle.2 + count) := by
  induction spaced with
  | done front =>
      have joined := Spaced.done (front.join run)
      simpa only [Nat.add_assoc] using joined
  | next front nonempty covers _ inductionHypothesis =>
      exact Spaced.next front nonempty covers (inductionHypothesis run)

/-- A whole cluster with nothing around it. -/
theorem Spaced.single
    {cluster : List Segment} (nonempty : cluster ≠ [])
    (covers : Covers old new start cluster finish) :
    Spaced old new start [cluster] finish :=
  Spaced.next (SameRun.zero old new start) nonempty covers
    (Spaced.done (SameRun.zero old new finish))

theorem standsAt_first
    {segment : Segment} (kept : segment.kept = true)
    (stands : segment.StandsAt old new start) (context : Nat) :
    (segment.first context).StandsAt old new start ∧
      (segment.first context).past start =
        (start.1 + min segment.oldLength context,
          start.2 + min segment.oldLength context) := by
  obtain ⟨oldStart, newStart, lengths, run⟩ := (standsAt_kept kept).mp stands
  have firstKept : (segment.first context).kept = true := kept
  rw [standsAt_kept firstKept]
  simp only [Segment.first, Segment.past, lengths]
  exact ⟨⟨oldStart, newStart, trivial, run.take (Nat.min_le_left _ _)⟩, trivial⟩

theorem standsAt_last
    {segment : Segment} (kept : segment.kept = true)
    (stands : segment.StandsAt old new start) (context : Nat) :
    (segment.last context).StandsAt old new
        (start.1 + (segment.oldLength - context),
          start.2 + (segment.oldLength - context)) ∧
      (segment.last context).past
          (start.1 + (segment.oldLength - context),
            start.2 + (segment.oldLength - context)) =
        segment.past start := by
  obtain ⟨oldStart, newStart, lengths, run⟩ := (standsAt_kept kept).mp stands
  have inside :
      segment.oldLength - context +
        (segment.oldLength - (segment.oldLength - context)) ≤
          segment.oldLength := by
    omega
  have lastKept : (segment.last context).kept = true := kept
  rw [standsAt_kept lastKept]
  simp only [Segment.last, Segment.past, lengths, oldStart, newStart]
  refine ⟨⟨trivial, trivial, trivial, run.sub _ inside⟩, ?_⟩
  simp only [Prod.mk.injEq]
  omega

/-- A run at the start of a kept segment. -/
theorem sameRun_kept
    {segment : Segment} (kept : segment.kept = true)
    (stands : segment.StandsAt old new start) {skipped : Nat}
    (inside : skipped ≤ segment.oldLength) :
    SameRun old new start skipped := by
  obtain ⟨_, _, _, run⟩ := (standsAt_kept kept).mp stands
  exact run.take inside

theorem covers_trimStart
    {parts : List Segment} (context : Nat)
    (covers : Covers old new start parts finish) :
    ∃ count, SameRun old new start count ∧
      Covers old new (start.1 + count, start.2 + count)
        (trimStart context parts) finish := by
  cases parts with
  | nil => exact ⟨0, SameRun.zero old new start, covers⟩
  | cons segment rest =>
      obtain ⟨stands, onward⟩ := covers
      simp only [trimStart]
      split
      · rename_i kept
        obtain ⟨shownStands, same⟩ := standsAt_last kept stands context
        refine ⟨segment.oldLength - context,
          sameRun_kept kept stands (Nat.sub_le _ _), shownStands, ?_⟩
        rwa [same]
      · exact ⟨0, SameRun.zero old new start, stands, onward⟩

theorem covers_trimEnd
    {parts : List Segment} (context : Nat)
    (covers : Covers old new start parts finish) :
    ∃ middle count, Covers old new start (trimEnd context parts) middle ∧
      SameRun old new middle count ∧
      finish = (middle.1 + count, middle.2 + count) := by
  induction parts generalizing start with
  | nil => exact ⟨finish, 0, covers, SameRun.zero old new finish, rfl⟩
  | cons segment rest inductionHypothesis =>
      obtain ⟨stands, onward⟩ := covers
      cases rest with
      | nil =>
          obtain rfl : segment.past start = finish := onward
          simp only [trimEnd]
          split
          · rename_i kept
            obtain ⟨shownStands, same⟩ := standsAt_first kept stands context
            obtain ⟨_, _, lengths, run⟩ := (standsAt_kept kept).mp stands
            refine ⟨_, segment.oldLength - min segment.oldLength context,
              ⟨shownStands, same⟩, run.sub _ (by omega), ?_⟩
            simp only [Segment.past, lengths, Prod.mk.injEq]
            omega
          · exact ⟨segment.past start, 0, ⟨stands, rfl⟩,
              SameRun.zero old new _, rfl⟩
      | cons next others =>
          obtain ⟨middle, count, trimmed, run, same⟩ :=
            inductionHypothesis onward
          exact ⟨middle, count, ⟨stands, trimmed⟩, run, same⟩

end Clusters

end ReviewDiff.LineDiff
