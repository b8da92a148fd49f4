import ReviewDiff.Proofs.Change.Written

/-!
# Diffs of selected files

Leaving out all records of some paths leaves out what is written of these paths,
and nothing else: the records of a path are gathered by themselves, paths keep
their order, and without moves each path is written by itself.
-/

namespace ReviewDiff.Change

section Selection

variable {keeps : String → Bool}

theorem filter_gather_of_keeps
    {record : ChangedFile} (kept : keeps record.path = true) (spans : List Span) :
    (gather record spans).filter (keeps ·.path) =
      gather record (spans.filter (keeps ·.path)) := by
  induction spans with
  | nil => simp only [gather, List.filter_cons, Span.path, kept, if_true, List.filter_nil]
  | cons span rest inductionHypothesis =>
      by_cases same : span.first.path = record.path
      · have spanKept : keeps span.first.path = true := by rwa [same]
        simp only [gather, List.filter_cons, Span.path, same, kept, if_true]
      · simp only [gather, if_neg same, List.filter_cons, inductionHypothesis]
        by_cases spanKept : keeps span.path = true
        · simp only [spanKept, if_true, gather, if_neg same]
        · simp only [spanKept]
          rfl

theorem filter_gather_of_not_keeps
    {record : ChangedFile} (rejected : keeps record.path = false) (spans : List Span) :
    (gather record spans).filter (keeps ·.path) = spans.filter (keeps ·.path) := by
  induction spans with
  | nil =>
      simp only [gather, List.filter_cons, Span.path, rejected, Bool.false_eq_true, if_false,
        List.filter_nil]
  | cons span rest inductionHypothesis =>
      by_cases same : span.first.path = record.path
      · simp only [gather, List.filter_cons, Span.path, same, rejected, Bool.false_eq_true,
          if_true, if_false]
      · simp only [gather, if_neg same, List.filter_cons, inductionHypothesis]

theorem filter_foldl_gather (records : List ChangedFile) (spans : List Span) :
    (records.foldl (fun found record => gather record found) spans).filter
        (keeps ·.path) =
      (records.filter (keeps ·.path)).foldl (fun found record => gather record found)
        (spans.filter (keeps ·.path)) := by
  induction records generalizing spans with
  | nil => rfl
  | cons record rest inductionHypothesis =>
      rw [List.foldl_cons, inductionHypothesis, List.filter_cons]
      cases kept : keeps record.path with
      | true => rw [if_pos rfl, List.foldl_cons, filter_gather_of_keeps kept]
      | false => rw [if_neg Bool.false_ne_true, filter_gather_of_not_keeps kept]

/-- Selecting records by their paths selects changes by their paths. -/
theorem collapse_filter (inFlight : Bool) (records : List ChangedFile) :
    collapse inFlight (records.filter (keeps ·.path)) =
      (collapse inFlight records).filter (keeps ·.path) := by
  have selected :
      (records.foldl (fun found record => gather record found) []).filter (keeps ·.path) =
        (records.filter (keeps ·.path)).foldl (fun found record => gather record found) [] :=
    filter_foldl_gather records []
  rw [collapse, collapse, ← selected, List.filterMap_filter, List.filter_filterMap]
  refine List.filterMap_congr fun span _ => ?_
  cases settles : span.settle inFlight with
  | none =>
      split <;> rfl
  | some change =>
      have samePath : change.path = span.path := (Span.settle_eq_some settles).1
      rw [Option.filter_some, samePath]

end Selection

/-! ## Fragments -/

section Fragments

variable (serve : (q : Snapshots.interface.Request) → Snapshots.interface.Answer q)
  (stamp : String) (range : RevisionRange) (records : List ChangedFile)

/-- What is written of each path of a range, if moves are not looked for. -/
def writtenPaths : List (String × Bytes) :=
  (collapse (isInFlight range) records).map fun change =>
    (change.path, (Part.single change).written serve stamp)

theorem nodup_writtenPaths :
    ((writtenPaths serve stamp range records).map Prod.fst).Nodup := by
  rw [writtenPaths, List.map_map]
  exact nodup_paths_collapse

theorem writtenPaths_filter (keeps : String → Bool) :
    writtenPaths serve stamp range (records.filter (keeps ·.path)) =
      (writtenPaths serve stamp range records).filter (keeps ·.1) := by
  rw [writtenPaths, writtenPaths, collapse_filter, List.filter_map]
  rfl

/-- Without moves the diff is what is written of each path. -/
theorem result_synthesize_without_moves :
    (synthesize stamp range records false).result serve =
      { diff := (writtenPaths serve stamp range records).flatMap Prod.snd
        commitId := range.commitId } := by
  rw [result_synthesize, result_plan, if_neg Bool.false_ne_true, arrange_without_links,
    List.flatMap_map, writtenPaths, List.flatMap_map]

end Fragments

end ReviewDiff.Change
