import ReviewDiff.Change.Synthesis
import ReviewDiff.Proofs.Change.Collapse
import ReviewDiff.Proofs.Change.Moves
import ReviewDiff.Proofs.LineDiff.Layout
import ReviewDiff.Proofs.Text.Utf8

/-!
# What is written of a change

A file that is created has no content before the range, and one that is removed
none behind it.  So a created or removed file either has an empty content on
both sides, and is shown by a header, or its contents differ.  Differing
contents are always written down, and a move is written down in any case:
nothing is written only of a file on its own that is edited into what it was.
-/

namespace ReviewDiff.Change

/-! ## Sides of a collapsed change -/

/-- What is created has no old side, and what is removed no new one. -/
structure FileChange.Sided (change : FileChange) : Prop where
  created : change.kind.creates = true → change.old = none
  removed : change.kind.removes = true → change.new = none

theorem oldSide_of_creates
    {record : ChangedFile} (creates : record.kind.creates = true) (inFlight : Bool) :
    record.oldSide inFlight = none := by
  simp only [ChangedFile.oldSide, creates, Bool.not_true, Bool.and_false,
    Bool.false_eq_true, if_false]

theorem newSide_of_removes
    {record : ChangedFile} (removes : record.kind.removes = true) (inFlight : Bool) :
    record.newSide inFlight = none := by
  simp only [ChangedFile.newSide, removes, if_true]

theorem Span.sided_of_settle
    {inFlight : Bool} {span : Span} {change : FileChange}
    (settles : span.settle inFlight = some change) :
    change.Sided := by
  obtain ⟨first, last⟩ := span
  cases last with
  | none =>
      obtain rfl := Option.some.inj settles
      exact ⟨fun creates => oldSide_of_creates creates inFlight,
        fun removes => newSide_of_removes removes inFlight⟩
  | some last =>
      cases creates : first.kind.creates <;> cases removes : last.kind.removes <;>
        simp only [Span.settle, creates, removes, reduceCtorEq] at settles
      all_goals
        obtain rfl := Option.some.inj settles
      · exact ⟨fun created => Bool.noConfusion created,
          fun removed => Bool.noConfusion removed⟩
      · exact ⟨fun created => Bool.noConfusion created,
          fun _ => newSide_of_removes removes inFlight⟩
      · exact ⟨fun _ => oldSide_of_creates creates inFlight,
          fun removed => Bool.noConfusion removed⟩

section Collapse

variable {records : List ChangedFile} {inFlight : Bool}

theorem sided_of_mem_collapse
    {change : FileChange} (member : change ∈ collapse inFlight records) :
    change.Sided := by
  obtain ⟨span, _, settles⟩ := List.mem_filterMap.mp member
  exact Span.sided_of_settle settles

theorem nodup_paths_foldl
    {spans : List Span} (distinct : (spans.map Span.path).Nodup) :
    ((records.foldl (fun found record => gather record found) spans).map
      Span.path).Nodup := by
  induction records generalizing spans with
  | nil => exact distinct
  | cons record rest inductionHypothesis =>
      rw [List.foldl_cons]
      apply inductionHypothesis
      by_cases seen : record.path ∈ spans.map Span.path
      · rwa [paths_gather_of_mem seen]
      · rw [paths_gather_of_notMem seen]
        exact List.nodup_append_comm.mp (List.nodup_cons.mpr ⟨seen, distinct⟩)

/-- The changes of a collapsed range have distinct paths. -/
theorem nodup_paths_collapse :
    ((collapse inFlight records).map FileChange.path).Nodup := by
  have distinct :
      ((records.foldl (fun found record => gather record found) []).map
        Span.path).Nodup :=
    nodup_paths_foldl List.nodup_nil
  rw [collapse, List.map_filterMap]
  rw [List.nodup_iff_pairwise_ne, List.pairwise_map] at distinct
  rw [List.nodup_iff_pairwise_ne, List.pairwise_filterMap]
  refine distinct.imp ?_
  intro span other different path settles otherPath otherSettles same
  obtain ⟨change, found, rfl⟩ := Option.map_eq_some_iff.mp settles
  obtain ⟨otherChange, otherFound, rfl⟩ := Option.map_eq_some_iff.mp otherSettles
  rw [(Span.settle_eq_some found).1, (Span.settle_eq_some otherFound).1] at same
  exact different same

end Collapse

/-! ## Contents -/

section Contents

variable (serve : (q : Snapshots.interface.Request) → Snapshots.interface.Answer q)

/-- What the keeper of the files has of a version of a file.  There is nothing
in a version that does not exist, and nothing when it cannot be fetched. -/
def stored (path : String) : Option Version → Bytes
  | none => []
  | some version =>
      match serve (.content path version) with
      | .ok content => content
      | .error _ => []

/-- The content of a file before the range. -/
def FileChange.oldContent (change : FileChange) : Bytes :=
  stored serve change.path (change.old.map .numbered)

/-- The content of a file behind the range. -/
def FileChange.newContent (change : FileChange) : Bytes :=
  stored serve change.path change.new

@[simp]
theorem result_fetch (path : String) (version : Option Version) :
    (fetch path version).result serve = stored serve path version := by
  cases version with
  | none => rfl
  | some version =>
      have asked :
          (Snapshots.ask (.content path version)).result serve =
            serve (.content path version) :=
        rfl
      rw [fetch, Program.result_bind, asked, stored]
      cases serve (.content path version) <;> rfl

variable {serve}

theorem FileChange.Sided.oldContent_eq_nil
    {change : FileChange} (sided : change.Sided) (creates : change.kind.creates = true) :
    change.oldContent serve = [] := by
  rw [oldContent, sided.created creates]
  rfl

theorem FileChange.Sided.newContent_eq_nil
    {change : FileChange} (sided : change.Sided) (removes : change.kind.removes = true) :
    change.newContent serve = [] := by
  rw [newContent, sided.removed removes]
  rfl

end Contents

/-! ## Differences -/

theorem difference?_eq_none_iff
    {stamp oldPath oldLabel newPath : String} {old new : Bytes} :
    difference? stamp oldPath oldLabel newPath old new = none ↔ old = new := by
  rw [difference?]
  by_cases same : old = new
  · rw [if_pos same]
    exact iff_of_true rfl same
  · rw [if_neg same, LineDiff.unifiedDiff?_eq, if_neg same, Option.map_some]
    refine iff_of_false ?_ same
    split <;> nofun

theorem Difference.render_ne_nil (difference : Difference) : difference.render ≠ [] := by
  cases difference with
  | text diff =>
      have opening : Utf8.encode "--- " ≠ [] := Utf8.encode_ne_nil (by decide)
      simp only [render, LineDiff.UnifiedDiff.render, Utf8.encode_append]
      simp [opening]
  | binary oldLabel newPath =>
      have opening : Utf8.encode "Binary files " ≠ [] := Utf8.encode_ne_nil (by decide)
      simp only [render, binaryMarker, Utf8.encode_append]
      simp [opening]

theorem encode_specialHeader_ne_nil (path : String) (revision : Nat) (mark target : String) :
    Utf8.encode (Patch.specialHeader path revision mark target) ≠ [] := by
  have opening : Utf8.encode "==== " ≠ [] := Utf8.encode_ne_nil (by decide)
  simp only [Patch.specialHeader, Utf8.encode_append]
  simp [opening]

/-! ## Files and moves -/

theorem Kind.eq_edit_iff (kind : Kind) :
    kind = .edit ↔ kind.creates = false ∧ kind.removes = false := by
  cases kind <;> decide

/-- Of a file on its own nothing is written exactly when it is edited and its
content is the same. -/
theorem render_fileFragment_eq_nil_iff
    {change : FileChange} {old new : Bytes}
    (created : change.kind.creates = true → old = [])
    (removed : change.kind.removes = true → new = [])
    (stamp name : String) :
    (fileFragment stamp change old new name).render = [] ↔
      change.kind = .edit ∧ old = new := by
  have headerWritten : ∀ header, (Fragment.emptyFile header).render ≠ [] :=
    fun header => encode_specialHeader_ne_nil _ _ _ _
  by_cases bothEmpty : old = [] ∧ new = []
  · obtain ⟨rfl, rfl⟩ := bothEmpty
    rw [and_iff_left rfl]
    cases kind : change.kind <;>
      simp only [fileFragment, kind, Kind.unpaired, List.isEmpty_nil, Bool.and_self,
        if_true, headerWritten, reduceCtorEq]
    exact iff_of_true rfl trivial
  · have notEmpty : (old.isEmpty && new.isEmpty) = false := by
      rw [Bool.eq_false_iff, ne_eq, Bool.and_eq_true, List.isEmpty_iff, List.isEmpty_iff]
      exact bothEmpty
    simp only [fileFragment, notEmpty, Bool.false_eq_true, if_false]
    cases found :
        difference? stamp change.path (revisionLabel change.path (change.old.getD 0))
          change.path old new with
    | some difference =>
        have different : old ≠ new := by
          intro same
          rw [difference?_eq_none_iff.mpr same] at found
          cases found
        exact iff_of_false difference.render_ne_nil fun both => different both.2
    | none =>
        have same := difference?_eq_none_iff.mp found
        refine iff_of_true rfl ⟨(Kind.eq_edit_iff _).mpr ⟨?_, ?_⟩, same⟩
        · rw [Bool.eq_false_iff]
          intro creates
          exact bothEmpty ⟨created creates, same ▸ created creates⟩
        · rw [Bool.eq_false_iff]
          intro removes
          exact bothEmpty ⟨same ▸ removed removes, removed removes⟩

/-- What is written of a move opens with the names of its ends, unless only a
header is written. -/
theorem movePreamble_ne_header
    (source dest path target : String) (revision : Nat) (mark : String) (body : Bytes) :
    Utf8.encode (movePreamble source dest) ++ body ≠
      Utf8.encode (Patch.specialHeader path revision mark target) := by
  have preamble : Utf8.encode "Moved from: " = 77 :: (Utf8.encode "Moved from: ").tail := by
    decide
  have header : Utf8.encode "==== " = 61 :: (Utf8.encode "==== ").tail := by decide
  intro same
  simp only [movePreamble, Patch.specialHeader, Utf8.encode_append, List.append_assoc]
    at same
  rw [preamble, header] at same
  injection same with first
  exact absurd first (by decide)

/-- Of a move only a header is written exactly when the content stays the
same. -/
theorem render_moveFragment_eq_header_iff
    {link : MoveLink} {old new : Bytes} (stamp : String) :
    (moveFragment stamp link old new).render =
        Utf8.encode
          (Patch.specialHeader link.source.path (link.source.old.getD 0) movedMark
            link.dest.path) ↔
      old = new := by
  simp only [moveFragment]
  split
  · rename_i difference found
    have different : old ≠ new := by
      intro same
      rw [difference?_eq_none_iff.mpr same] at found
      cases found
    exact iff_of_false (movePreamble_ne_header _ _ _ _ _ _ _) different
  · rename_i none
    exact iff_of_true rfl (difference?_eq_none_iff.mp none)

theorem render_moveFragment_ne_nil
    (stamp : String) (link : MoveLink) (old new : Bytes) :
    (moveFragment stamp link old new).render ≠ [] := by
  have opening : Utf8.encode "Moved from: " ≠ [] := Utf8.encode_ne_nil (by decide)
  simp only [moveFragment]
  split
  · simp only [Fragment.render, movePreamble, Utf8.encode_append]
    simp [opening]
  · exact encode_specialHeader_ne_nil _ _ _ _

/-! ## Runs -/

section Runs

variable (serve : (q : Snapshots.interface.Request) → Snapshots.interface.Answer q)
  (stamp : String)

/-- What is written of a part. -/
def Part.written (part : Part) : Bytes :=
  ((part.fragment stamp).result serve).render

theorem result_fragment_single (change : FileChange) :
    ∃ name,
      ((Part.single change).fragment stamp).result serve =
        fileFragment stamp change (change.oldContent serve) (change.newContent serve)
          name := by
  rw [Part.fragment, Program.result_bind, Program.result_bind, result_fetch,
    result_fetch]
  split
  · rw [Program.result_bind]
    exact ⟨_, rfl⟩
  · exact ⟨change.path, rfl⟩

theorem result_fragment_move (link : MoveLink) :
    ((Part.move link).fragment stamp).result serve =
      moveFragment stamp link (link.source.oldContent serve)
        (link.dest.newContent serve) := by
  rw [Part.fragment, Program.result_bind, Program.result_bind, result_fetch,
    result_fetch]
  rfl

theorem result_fragmentsOf (parts : List Part) :
    (fragmentsOf stamp parts).result serve =
      parts.map fun part => (part.fragment stamp).result serve := by
  induction parts with
  | nil => rfl
  | cons part rest inductionHypothesis =>
      rw [fragmentsOf, Program.result_bind, Program.result_bind, inductionHypothesis,
        Program.result_pure, List.map_cons]

/-- The diff is what is written of the parts of the plan. -/
theorem result_synthesize
    (range : RevisionRange) (records : List ChangedFile) (detectMoves : Bool) :
    (synthesize stamp range records detectMoves).result serve =
      { diff :=
          ((plan (collapse (isInFlight range) records) detectMoves).result
            serve).flatMap (Part.written serve stamp)
        commitId := range.commitId } := by
  rw [synthesize, Program.result_bind, fragments, Program.result_bind,
    result_fragmentsOf, Program.result_pure, List.flatMap_map]
  rfl

variable {serve stamp}

/-- Every change is in one part of a plan. -/
theorem perm_changes_plan
    {changes : List FileChange} (distinct : (changes.map FileChange.path).Nodup)
    (detectMoves : Bool) :
    (((plan changes detectMoves).result serve).flatMap Part.changes).Perm changes := by
  have matching :
      Matching changes (if detectMoves then claimed serve changes else []) := by
    cases detectMoves with
    | true => exact matching_claimed serve distinct
    | false => exact matching_nil changes
  have shows := shows_arrange_all distinct matching
  rw [result_plan, List.perm_ext_iff_of_nodup shows.once (List.Nodup.of_map _ distinct)]
  intro change
  rw [shows.mem_iff, Pending, and_iff_left List.not_mem_nil]

theorem written_single_eq_nil_iff {change : FileChange} (sided : change.Sided) :
    (Part.single change).written serve stamp = [] ↔
      change.kind = .edit ∧ change.oldContent serve = change.newContent serve := by
  obtain ⟨name, shown⟩ := result_fragment_single serve stamp change
  rw [Part.written, shown]
  exact
    render_fileFragment_eq_nil_iff sided.oldContent_eq_nil sided.newContent_eq_nil stamp
      name

end Runs

/-- The diff of a range is what is written of the parts of its plan, and each
change of the range is in one part.  Nothing is written only of a part that is
one file on its own which is edited and whose content stays the same.  Of a move
only the header is written exactly when the content stays the same. -/
theorem synthesize_writes_every_change
    (serve : (q : Snapshots.interface.Request) → Snapshots.interface.Answer q)
    (stamp : String) (range : RevisionRange) (records : List ChangedFile)
    (detectMoves : Bool) :
    let changes := collapse (isInFlight range) records
    let parts := (plan changes detectMoves).result serve
    ((synthesize stamp range records detectMoves).result serve).diff =
        parts.flatMap (Part.written serve stamp) ∧
      (parts.flatMap Part.changes).Perm changes ∧
        (∀ part ∈ parts, ∀ change ∈ part.changes,
          part.written serve stamp = [] ↔
            part = .single change ∧ change.kind = .edit ∧
              change.oldContent serve = change.newContent serve) ∧
          ∀ link,
            (Part.move link).written serve stamp =
                Utf8.encode
                  (Patch.specialHeader link.source.path (link.source.old.getD 0)
                    movedMark link.dest.path) ↔
              link.source.oldContent serve = link.dest.newContent serve := by
  intro changes parts
  have partition : (parts.flatMap Part.changes).Perm changes :=
    perm_changes_plan nodup_paths_collapse detectMoves
  refine ⟨?_, partition, ?_, ?_⟩
  · rw [result_synthesize]
  · intro part inParts change inPart
    have inChanges : change ∈ changes :=
      partition.mem_iff.mp (List.mem_flatMap.mpr ⟨part, inParts, inPart⟩)
    cases part with
    | single only =>
        obtain rfl := List.mem_singleton.mp inPart
        rw [written_single_eq_nil_iff (sided_of_mem_collapse inChanges)]
        exact (and_iff_right rfl).symm
    | move link =>
        refine iff_of_false ?_ fun alone => Part.noConfusion alone.1
        rw [Part.written, result_fragment_move]
        exact render_moveFragment_ne_nil stamp link _ _
  · intro link
    rw [Part.written, result_fragment_move]
    exact render_moveFragment_eq_header_iff stamp

end ReviewDiff.Change
