import Mathlib.Data.List.Induction
import Mathlib.Data.List.Nodup
import ReviewDiff.Change.Collapse

/-!
# Collapsing one record after another

Gathering a record keeps the place of a path that is known and puts a new path
at the end.  What settles of a span depends on its two ends alone.
-/

namespace ReviewDiff.Change

/-! ## Paths in the order in which they come first -/

theorem eraseDups_concat (items : List String) (item : String) :
    (items ++ [item]).eraseDups =
      if item ∈ items then items.eraseDups else items.eraseDups ++ [item] := by
  rw [List.eraseDups_append]
  by_cases seen : item ∈ items
  · have nothing : [item].removeAll items = [] :=
      List.filter_eq_nil_iff.mpr (by simpa using seen)
    rw [if_pos seen, nothing, List.eraseDups_nil, List.append_nil]
  · have everything : [item].removeAll items = [item] :=
      List.filter_eq_self.mpr (by simpa using seen)
    rw [if_neg seen, everything]
    rfl

theorem nodup_eraseDups (items : List String) : items.eraseDups.Nodup := by
  induction items using List.reverseRecOn with
  | nil => exact List.nodup_nil
  | append_singleton items item inductionHypothesis =>
      rw [eraseDups_concat]
      by_cases seen : item ∈ items
      · rwa [if_pos seen]
      · rw [if_neg seen]
        have unseen : item ∉ items.eraseDups :=
          fun member => seen (List.mem_eraseDups.mp member)
        exact List.nodup_append_comm.mp (List.nodup_cons.mpr ⟨unseen, inductionHypothesis⟩)

/-! ## Gathering -/

/-- The path that a span is about. -/
def Span.path (span : Span) : String :=
  span.first.path

/-- The last record of a span. -/
def Span.latest (span : Span) : ChangedFile :=
  span.last.getD span.first

theorem gather_cons (record : ChangedFile) (span : Span) (rest : List Span) :
    gather record (span :: rest) =
      if span.path = record.path then { span with last := some record } :: rest
      else span :: gather record rest :=
  rfl

/-- A record of a known path becomes the last one of its span. -/
theorem gather_of_mem
    {record : ChangedFile} {spans : List Span}
    (distinct : (spans.map Span.path).Nodup)
    (seen : record.path ∈ spans.map Span.path) :
    gather record spans =
      spans.map fun span =>
        if span.path = record.path then { span with last := some record } else span := by
  induction spans with
  | nil => exact absurd seen List.not_mem_nil
  | cons head rest inductionHypothesis =>
      rw [List.map_cons, List.nodup_cons] at distinct
      rw [gather_cons, List.map_cons]
      by_cases same : head.path = record.path
      · have untouched :
            ∀ span ∈ rest,
              (if span.path = record.path then { span with last := some record }
                else span) = span := by
          intro span inRest
          apply if_neg
          intro again
          apply distinct.1
          exact List.mem_map.mpr ⟨span, inRest, again.trans same.symm⟩
        rw [if_pos same, if_pos same, List.map_congr_left untouched, List.map_id']
      · rw [List.map_cons] at seen
        rcases List.mem_cons.mp seen with atHead | later
        · exact absurd atHead.symm same
        · rw [if_neg same, if_neg same, inductionHypothesis distinct.2 later]

/-- A record of a new path becomes a span at the end. -/
theorem gather_of_notMem
    {record : ChangedFile} {spans : List Span}
    (unseen : record.path ∉ spans.map Span.path) :
    gather record spans = spans ++ [⟨record, none⟩] := by
  induction spans with
  | nil => rfl
  | cons head rest inductionHypothesis =>
      rw [List.map_cons, List.mem_cons, not_or] at unseen
      rw [gather_cons, if_neg fun same => unseen.1 same.symm,
        inductionHypothesis unseen.2, List.cons_append]

theorem paths_gather_of_mem
    {record : ChangedFile} {spans : List Span}
    (seen : record.path ∈ spans.map Span.path) :
    (gather record spans).map Span.path = spans.map Span.path := by
  induction spans with
  | nil => exact absurd seen List.not_mem_nil
  | cons span rest inductionHypothesis =>
      rw [gather_cons]
      by_cases same : span.path = record.path
      · rw [if_pos same]
        rfl
      · rw [if_neg same, List.map_cons, List.map_cons]
        rcases List.mem_cons.mp seen with atHead | later
        · exact absurd atHead.symm same
        · rw [inductionHypothesis later]

theorem paths_gather_of_notMem
    {record : ChangedFile} {spans : List Span}
    (unseen : record.path ∉ spans.map Span.path) :
    (gather record spans).map Span.path = spans.map Span.path ++ [record.path] := by
  rw [gather_of_notMem unseen, List.map_append]
  rfl

/-- A gathered span is an earlier one, or an earlier one of the same path that
now ends with the record, or a new one. -/
theorem mem_gather
    {record : ChangedFile} {spans : List Span}
    (distinct : (spans.map Span.path).Nodup) {span : Span}
    (member : span ∈ gather record spans) :
    (span ∈ spans ∧ span.path ≠ record.path) ∨
      (∃ earlier ∈ spans,
        earlier.path = record.path ∧ span = { earlier with last := some record }) ∨
      record.path ∉ spans.map Span.path ∧ span = ⟨record, none⟩ := by
  by_cases seen : record.path ∈ spans.map Span.path
  · rw [gather_of_mem distinct seen] at member
    rcases List.mem_map.mp member with ⟨earlier, inSpans, rfl⟩
    by_cases same : earlier.path = record.path
    · rw [if_pos same]
      exact Or.inr (Or.inl ⟨earlier, inSpans, same, rfl⟩)
    · rw [if_neg same]
      exact Or.inl ⟨inSpans, same⟩
  · rw [gather_of_notMem seen] at member
    rcases List.mem_append.mp member with earlier | isNew
    · refine Or.inl ⟨earlier, ?_⟩
      intro same
      apply seen
      exact List.mem_map.mpr ⟨span, earlier, same⟩
    · exact Or.inr (Or.inr ⟨seen, List.mem_singleton.mp isNew⟩)

/-! ## What settles of a span -/

/-- A change in which half a move counts as what it does to its own path. -/
def FileChange.unpaired (change : FileChange) : FileChange :=
  { change with kind := change.kind.unpaired }

/-- What is known of a path whose ends are known: whether it is created by the
first record, whether it is removed by the last, and both sides. -/
def FileChange.ofEnds?
    (path : String) (creates removes : Bool)
    (old : Option Nat) (new : Option Version) (revision : Nat) :
    Option FileChange :=
  match creates, removes with
  | true, true => none
  | true, false => some ⟨path, .add, old, new, revision⟩
  | false, true => some ⟨path, .delete, old, new, revision⟩
  | false, false => some ⟨path, .edit, old, new, revision⟩

/-- A span with one record settles by the same rule as the others, since no
record both creates and removes a file. -/
theorem Span.settle_unpaired (inFlight : Bool) (span : Span) :
    (span.settle inFlight).map FileChange.unpaired =
      FileChange.ofEnds? span.path
        span.first.kind.creates span.latest.kind.removes
        (span.first.oldSide inFlight) (span.latest.newSide inFlight)
        span.latest.revision := by
  obtain ⟨first, last⟩ := span
  cases last with
  | none =>
      obtain ⟨path, revision, action, change⟩ := first
      cases action <;> rfl
  | some last =>
      cases creates : first.kind.creates <;> cases removes : last.kind.removes <;>
        simp only [settle, creates, removes, FileChange.ofEnds?, latest, path,
          Option.getD_some, Option.map_some, Option.map_none] <;>
        rfl

end ReviewDiff.Change
