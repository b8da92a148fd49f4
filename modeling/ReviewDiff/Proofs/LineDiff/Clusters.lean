import Mathlib.Data.List.Chain
import ReviewDiff.Proofs.LineDiff.Segments

/-!
# How segments fall apart into clusters

Kept and changed segments alternate.  Given that, `Cut` says how the trimmed
segments of a script fall apart into clusters: each cluster ends inside a kept
segment longer than twice the context, the next one begins further behind in
the same segment, and each of them changes something.  Segments that change
nothing give no cluster.

What else is known of clusters follows by induction on `Cut`: how they begin
and end, and that they leave out runs of kept lines only (`spaced_clusters`).
-/

namespace ReviewDiff.LineDiff

/-! ## Segments alternate -/

/-- One of two neighbouring segments changes something. -/
def Segment.Alternates (first second : Segment) : Prop :=
  first.kept = false ∨ second.kept = false

theorem Segment.Alternates.left
    {first second : Segment} (alternates : first.Alternates second)
    (kept : second.kept = true) : first.kept = false := by
  rcases alternates with changed | changed
  · exact changed
  · exact Bool.noConfusion (kept.symm.trans changed)

theorem Segment.Alternates.right
    {first second : Segment} (alternates : first.Alternates second)
    (kept : first.kept = true) : second.kept = false := by
  rcases alternates with changed | changed
  · exact Bool.noConfusion (kept.symm.trans changed)
  · exact changed

theorem changed_segment
    (deleted inserted : Option Op) :
    (Pending.changed deleted inserted).segment = [] ∧
        deleted = none ∧ inserted = none ∨
      ∃ segment, (Pending.changed deleted inserted).segment = [segment] ∧
        segment.kept = false := by
  cases deleted with
  | some deletion =>
      cases inserted with
      | some insertion => exact Or.inr ⟨_, rfl, rfl⟩
      | none => exact Or.inr ⟨_, rfl, rfl⟩
  | none =>
      cases inserted with
      | some insertion => exact Or.inr ⟨_, rfl, rfl⟩
      | none => exact Or.inl ⟨rfl, rfl, rfl⟩

theorem isChain_cons_changed
    {segment : Segment} {parts : List Segment} (changed : segment.kept = false)
    (chain : parts.IsChain Segment.Alternates) :
    (segment :: parts).IsChain Segment.Alternates :=
  List.isChain_cons.mpr ⟨fun _ _ => Or.inl changed, chain⟩

theorem head_changed_append
    {deleted inserted : Option Op} (begun : ¬(deleted = none ∧ inserted = none))
    (parts : List Segment) :
    ∀ first, ((Pending.changed deleted inserted).segment ++ parts).head? = some first →
      first.kept = false := by
  intro first found
  rcases changed_segment deleted inserted with ⟨_, none⟩ | ⟨segment, gathered, changed⟩
  · exact absurd none begun
  · rw [gathered] at found
    obtain rfl : segment = first := by simpa using found
    exact changed

/-- Once a change is under way, it comes first. -/
theorem head_segmentsFrom_changed
    (ops : List Op) {deleted inserted : Option Op}
    (begun : ¬(deleted = none ∧ inserted = none)) :
    ∀ first, (segmentsFrom (.changed deleted inserted) ops).head? = some first →
      first.kept = false := by
  induction ops generalizing deleted inserted with
  | nil =>
      rw [segmentsFrom, ← List.append_nil (Pending.segment _)]
      exact head_changed_append begun []
  | cons op rest inductionHypothesis =>
      intro first found
      cases kind : op.kind with
      | keep =>
          simp only [segmentsFrom, kind] at found
          exact head_changed_append begun _ first found
      | delete =>
          simp only [segmentsFrom, kind] at found
          exact inductionHypothesis (by simp) first found
      | insert =>
          simp only [segmentsFrom, kind] at found
          exact inductionHypothesis (by simp) first found

theorem isChain_pending (pending : Pending) :
    pending.segment.IsChain Segment.Alternates := by
  cases pending with
  | nothing => exact List.isChain_nil
  | kept op => exact List.isChain_singleton _
  | changed deleted inserted =>
      rcases changed_segment deleted inserted with
        ⟨gathered, _⟩ | ⟨segment, gathered, _⟩
      · rw [gathered]
        exact List.isChain_nil
      · rw [gathered]
        exact List.isChain_singleton segment

/-- Behind kept items only a change starts a new segment. -/
theorem head_segmentsFrom_ofOp
    {first op : Op} (apart : (Pending.kept first).joined? op = none) (rest : List Op) :
    ∀ next, (segmentsFrom (.ofOp op) rest).head? = some next → next.kept = false := by
  unfold Pending.joined? at apart
  unfold Pending.ofOp
  cases kind : op.kind with
  | keep =>
      rw [kind] at apart
      cases apart
  | delete => exact head_segmentsFrom_changed rest fun none => nomatch none.1
  | insert => exact head_segmentsFrom_changed rest fun none => nomatch none.2

theorem isChain_segmentsFrom
    (pending : Pending) (ops : List Op) :
    (segmentsFrom pending ops).IsChain Segment.Alternates := by
  induction ops generalizing pending with
  | nil => exact isChain_pending pending
  | cons op rest inductionHypothesis =>
      rw [segmentsFrom_cons]
      cases joins : pending.joined? op with
      | some joined => exact inductionHypothesis joined
      | none =>
          cases pending with
          | nothing => exact inductionHypothesis _
          | kept first =>
              refine List.isChain_cons.mpr ⟨?_, inductionHypothesis _⟩
              intro next found
              exact Or.inr (head_segmentsFrom_ofOp joins rest next found)
          | changed deleted inserted =>
              rcases changed_segment deleted inserted with
                ⟨gathered, _⟩ | ⟨segment, gathered, changed⟩
              · rw [gathered]
                exact inductionHypothesis _
              · rw [gathered]
                exact isChain_cons_changed changed (inductionHypothesis _)

/-- Whether segments alternate depends only on which of them are kept. -/
theorem isChain_of_map_kept
    {parts others : List Segment}
    (same : others.map Segment.kept = parts.map Segment.kept)
    (alternates : parts.IsChain Segment.Alternates) :
    others.IsChain Segment.Alternates := by
  have flags (list : List Segment) :
      (list.map Segment.kept).IsChain (fun first second => first = false ∨ second = false) ↔
        list.IsChain Segment.Alternates :=
    List.isChain_map Segment.kept
  rw [← flags, same, flags]
  exact alternates

theorem isChain_segments (ops : List Op) :
    (segments ops).IsChain Segment.Alternates :=
  isChain_segmentsFrom .nothing ops

/-! ## Cutting segments into clusters -/

/-- A kept segment that is too long to lie inside a cluster. -/
def Segment.Long (context : Nat) (segment : Segment) : Prop :=
  segment.kept = true ∧ 2 * context < segment.oldLength

/-- A cluster changes something, and no kept run in it is long. -/
structure Compact (context : Nat) (cluster : List Segment) : Prop where
  alternates : cluster.IsChain Segment.Alternates
  short : ∀ segment ∈ cluster, ¬segment.Long context
  changes : ∃ segment ∈ cluster, segment.kept = false

/-- How segments fall apart: into a single cluster, or into one that ends with
the first lines of a long segment and those of what follows, which begins with
the last lines of that segment. -/
inductive Cut (context : Nat) : List Segment → List (List Segment) → Prop
  | whole {cluster : List Segment} :
      Compact context cluster → Cut context cluster [cluster]
  | inside {front rest : List Segment} {long : Segment}
      {groups : List (List Segment)} :
      front ≠ [] → rest ≠ [] → long.Long context →
      Compact context (front ++ [long.first context]) →
      Cut context (long.last context :: rest) groups →
      Cut context (front ++ long :: rest)
        ((front ++ [long.first context]) :: groups)

section Cuts

variable {context : Nat} {parts : List Segment} {groups : List (List Segment)}

theorem Compact.ne_nil
    {cluster : List Segment} (compact : Compact context cluster) :
    cluster ≠ [] := by
  obtain ⟨segment, member, _⟩ := compact.changes
  exact List.ne_nil_of_mem member

theorem not_long_first (segment : Segment) :
    ¬(segment.first context).Long context := by
  simp only [Segment.Long, Segment.first]
  omega

theorem not_long_last (segment : Segment) :
    ¬(segment.last context).Long context := by
  simp only [Segment.Long, Segment.last]
  omega

/-- A cluster is closed by the first lines of a long segment. -/
theorem compact_concat_first
    {front : List Segment} {long : Segment}
    (alternates : (front ++ [long]).IsChain Segment.Alternates)
    (short : ∀ segment ∈ front, ¬segment.Long context)
    (changes : ∃ segment ∈ front, segment.kept = false) :
    Compact context (front ++ [long.first context]) where
  alternates := by
    have same :
        (front ++ [long.first context]).map Segment.kept =
          (front ++ [long]).map Segment.kept := by
      rw [List.map_append, List.map_append]
      rfl
    exact isChain_of_map_kept same alternates
  short := by
    intro segment member
    rcases List.mem_append.mp member with earlier | last
    · exact short segment earlier
    · rw [List.mem_singleton.mp last]
      exact not_long_first long
  changes := by
    obtain ⟨segment, member, changed⟩ := changes
    exact ⟨segment, List.mem_append_left _ member, changed⟩

theorem cut_whole
    {current : List Segment} (begun : current ≠ [])
    (compact : Compact context current.reverse) :
    Cut context current.reverse (clustersFrom context current []) := by
  match current with
  | [] => exact absurd rfl begun
  | [segment] =>
      obtain ⟨changed, member, changedKept⟩ := compact.changes
      obtain rfl := List.mem_singleton.mp member
      simp only [clustersFrom, changedKept, Bool.false_eq_true, if_false]
      exact Cut.whole compact
  | first :: second :: others => exact Cut.whole compact

section Long

variable {current rest : List Segment} {long : Segment}
  (alternates : (current.reverse ++ long :: rest).IsChain Segment.Alternates)
  (isLong : long.Long context)

include alternates isLong

/-- What stands right before a long segment is a change. -/
theorem compact_upTo_long
    (begun : current ≠ [])
    (short : ∀ segment ∈ current, ¬segment.Long context) :
    Compact context (current.reverse ++ [long.first context]) := by
  obtain ⟨nearest, others, rfl⟩ := List.exists_cons_of_ne_nil begun
  have meets : nearest.Alternates long :=
    (List.isChain_append.mp alternates).2.2 nearest (by simp) long rfl
  exact compact_concat_first (List.isChain_split.mp alternates).1
    (fun segment member => short segment (List.mem_reverse.mp member))
    ⟨nearest, by simp, meets.left isLong.1⟩

/-- What stands right behind a long segment is a change. -/
theorem exists_changed_behind_long (more : rest ≠ []) :
    ∃ segment ∈ rest, segment.kept = false := by
  obtain ⟨next, further, rfl⟩ := List.exists_cons_of_ne_nil more
  have meets := (List.isChain_cons_cons.mp (List.isChain_split.mp alternates).2).1
  exact ⟨next, List.mem_cons_self, meets.right isLong.1⟩

end Long

theorem cut_clustersFrom
    {current parts : List Segment} (begun : current ≠ [])
    (alternates : (current.reverse ++ parts).IsChain Segment.Alternates)
    (changes : ∃ segment ∈ current.reverse ++ parts, segment.kept = false)
    (short : ∀ segment ∈ current, ¬segment.Long context)
    (closed :
      ∀ segment, parts.getLast? = some segment → ¬segment.Long context) :
    Cut context (current.reverse ++ parts)
      (clustersFrom context current parts) := by
  induction parts generalizing current with
  | nil =>
      rw [List.append_nil] at alternates changes ⊢
      exact cut_whole begun
        ⟨alternates, fun segment member => short segment (List.mem_reverse.mp member),
          changes⟩
  | cons segment rest inductionHypothesis =>
      have restClosed : ∀ last, rest.getLast? = some last → ¬last.Long context := by
        intro last found
        apply closed last
        rw [List.getLast?_cons, found]
        rfl
      rw [clustersFrom]
      split
      · rename_i cut
        simp only [Bool.and_eq_true, decide_eq_true_eq] at cut
        have long : segment.Long context := cut
        have more : rest ≠ [] := by
          rintro rfl
          exact closed segment rfl long
        have fromLast : (segment.last context :: rest).IsChain Segment.Alternates :=
          isChain_of_map_kept (by rfl) (List.isChain_split.mp alternates).2
        obtain ⟨next, behind, nextChanged⟩ :=
          exists_changed_behind_long alternates long more
        have tail :
            Cut context ([segment.last context].reverse ++ rest)
              (clustersFrom context [segment.last context] rest) := by
          refine inductionHypothesis (List.cons_ne_nil _ _) fromLast
            ⟨next, List.mem_cons_of_mem _ behind, nextChanged⟩ ?_ restClosed
          intro other member
          rw [List.mem_singleton.mp member]
          exact not_long_last segment
        rw [List.reverse_cons]
        exact Cut.inside (mt List.reverse_eq_nil_iff.mp begun) more long
          (compact_upTo_long alternates long begun short) tail
      · rename_i uncut
        simp only [Bool.and_eq_true, decide_eq_true_eq] at uncut
        have shape :
            current.reverse ++ segment :: rest = (segment :: current).reverse ++ rest := by
          rw [List.reverse_cons, List.append_assoc, List.singleton_append]
        rw [shape] at alternates changes ⊢
        refine inductionHypothesis (List.cons_ne_nil _ _) alternates changes ?_ restClosed
        intro other member
        rcases List.mem_cons.mp member with rfl | earlier
        · exact uncut
        · exact short other earlier

/-- Every cluster changes something, and no kept run in it is long. -/
theorem Cut.compact
    (cut : Cut context parts groups) :
    ∀ cluster ∈ groups, Compact context cluster := by
  induction cut with
  | whole compact =>
      intro cluster member
      rw [List.mem_singleton.mp member]
      exact compact
  | inside _ _ _ compact _ inductionHypothesis =>
      intro cluster member
      rcases List.mem_cons.mp member with rfl | later
      · exact compact
      · exact inductionHypothesis cluster later

/-- The first cluster begins like the segments, and every other one with the
last lines of a long segment. -/
theorem Cut.heads
    (cut : Cut context parts groups) :
    ∃ first others, groups = first :: others ∧ first.head? = parts.head? ∧
      ∀ cluster ∈ others, ∃ long : Segment, long.Long context ∧
        cluster.head? = some (long.last context) := by
  induction cut with
  | @whole cluster _ =>
      exact ⟨cluster, [], rfl, rfl, fun _ member => absurd member List.not_mem_nil⟩
  | @inside front rest long groups nonempty _ isLong _ _ inductionHypothesis =>
      obtain ⟨first, others, rfl, firstHead, otherHeads⟩ := inductionHypothesis
      refine ⟨_, first :: others, rfl, ?_, ?_⟩
      · rw [List.head?_append_of_ne_nil _ nonempty, List.head?_append_of_ne_nil _ nonempty]
      · intro cluster member
        rcases List.mem_cons.mp member with rfl | later
        · exact ⟨long, isLong, firstHead⟩
        · exact otherHeads cluster later

/-- The last cluster ends like the segments, and every other one with the
first lines of a long segment. -/
theorem Cut.lasts
    (cut : Cut context parts groups) :
    ∃ others last, groups = others ++ [last] ∧ last.getLast? = parts.getLast? ∧
      ∀ cluster ∈ others, ∃ long : Segment, long.Long context ∧
        cluster.getLast? = some (long.first context) := by
  induction cut with
  | @whole cluster _ =>
      exact ⟨[], cluster, rfl, rfl, fun _ member => absurd member List.not_mem_nil⟩
  | @inside front rest long groups _ more isLong _ _ inductionHypothesis =>
      obtain ⟨others, last, rfl, lastEnd, otherEnds⟩ := inductionHypothesis
      refine ⟨_ :: others, last, rfl, ?_, ?_⟩
      · rw [lastEnd, List.getLast?_append_of_ne_nil _ (List.cons_ne_nil long rest),
          List.getLast?_cons_of_ne_nil more, List.getLast?_cons_of_ne_nil more]
      · intro cluster member
        rcases List.mem_cons.mp member with rfl | later
        · exact ⟨long, isLong, List.getLast?_concat⟩
        · exact otherEnds cluster later

/-! ## Trimming -/

/-- The segment before the first change, shortened to its context. -/
def Segment.opening (context : Nat) (segment : Segment) : Segment :=
  if segment.kept then segment.last context else segment

/-- The segment after the last change, shortened to its context. -/
def Segment.closing (context : Nat) (segment : Segment) : Segment :=
  if segment.kept then segment.first context else segment

theorem trimStart_cons
    (context : Nat) (segment : Segment) (rest : List Segment) :
    trimStart context (segment :: rest) = segment.opening context :: rest :=
  rfl

theorem trimEnd_concat
    (context : Nat) (front : List Segment) (segment : Segment) :
    trimEnd context (front ++ [segment]) = front ++ [segment.closing context] := by
  induction front with
  | nil => rfl
  | cons first rest inductionHypothesis =>
      obtain ⟨next, others, shape⟩ :=
        List.exists_cons_of_ne_nil (List.concat_ne_nil segment rest)
      rw [List.cons_append, List.cons_append, ← inductionHypothesis, shape]
      rfl

theorem trimmed_cons_concat
    (context : Nat) (first last : Segment) (middle : List Segment) :
    trimEnd context (trimStart context (first :: (middle ++ [last]))) =
      first.opening context :: (middle ++ [last.closing context]) :=
  trimEnd_concat context (first.opening context :: middle) last

theorem kept_opening (context : Nat) (segment : Segment) :
    (segment.opening context).kept = segment.kept := by
  unfold Segment.opening
  split <;> rfl

theorem kept_closing (context : Nat) (segment : Segment) :
    (segment.closing context).kept = segment.kept := by
  unfold Segment.closing
  split <;> rfl

theorem not_long_opening (segment : Segment) :
    ¬(segment.opening context).Long context := by
  unfold Segment.opening
  split
  · exact not_long_last segment
  · rename_i changed
    exact fun long => changed long.1

theorem not_long_closing (segment : Segment) :
    ¬(segment.closing context).Long context := by
  unfold Segment.closing
  split
  · exact not_long_first segment
  · rename_i changed
    exact fun long => changed long.1

theorem map_kept_trimEnd (context : Nat) (parts : List Segment) :
    (trimEnd context parts).map Segment.kept = parts.map Segment.kept := by
  rcases List.eq_nil_or_concat parts with rfl | ⟨front, segment, rfl⟩
  · rfl
  · rw [List.concat_eq_append, trimEnd_concat]
    simp only [List.map_append, List.map_cons, List.map_nil, kept_closing]

theorem map_kept_trimStart (context : Nat) (parts : List Segment) :
    (trimStart context parts).map Segment.kept = parts.map Segment.kept := by
  cases parts with
  | nil => rfl
  | cons segment rest =>
      rw [trimStart_cons, List.map_cons, List.map_cons, kept_opening]

theorem exists_changed_of_map_kept
    {parts others : List Segment}
    (same : others.map Segment.kept = parts.map Segment.kept)
    (changes : ∃ segment ∈ parts, segment.kept = false) :
    ∃ segment ∈ others, segment.kept = false := by
  rw [← List.mem_map] at changes ⊢
  rwa [same]

theorem cut_of_trimmed
    {first : Segment} {rest : List Segment}
    (alternates : (first :: rest).IsChain Segment.Alternates)
    (changes : ∃ segment ∈ first :: rest, segment.kept = false)
    (opened : ¬first.Long context)
    (closed :
      ∀ segment, rest.getLast? = some segment → ¬segment.Long context) :
    Cut context (first :: rest) (clustersFrom context [] (first :: rest)) := by
  have uncut :
      ¬(first.kept && decide (2 * context < first.oldLength)) = true := by
    simpa [Segment.Long] using opened
  have short : ∀ segment ∈ [first], ¬segment.Long context := by
    intro segment member
    rwa [List.mem_singleton.mp member]
  have begun : [first] ≠ [] := List.cons_ne_nil first []
  rw [clustersFrom, if_neg uncut]
  exact cut_clustersFrom begun alternates changes short closed

/-- Segments that change something are trimmed and then cut. -/
theorem cut_clusters
    (context : Nat) {parts : List Segment}
    (alternates : parts.IsChain Segment.Alternates)
    (changes : ∃ segment ∈ parts, segment.kept = false) :
    Cut context (trimEnd context (trimStart context parts)) (clusters context parts) := by
  have same :
      (trimEnd context (trimStart context parts)).map Segment.kept =
        parts.map Segment.kept := by
    rw [map_kept_trimEnd, map_kept_trimStart]
  have trimmedAlternates := isChain_of_map_kept same alternates
  have trimmedChanges := exists_changed_of_map_kept same changes
  rw [clusters]
  cases parts with
  | nil => exact absurd changes (by simp)
  | cons first rest =>
      rcases List.eq_nil_or_concat rest with rfl | ⟨middle, last, rfl⟩
      · refine cut_of_trimmed trimmedAlternates trimmedChanges ?_ (by simp)
        exact not_long_closing _
      · rw [List.concat_eq_append, trimmed_cons_concat]
          at trimmedAlternates trimmedChanges ⊢
        refine cut_of_trimmed trimmedAlternates trimmedChanges
          (not_long_opening first) ?_
        intro segment found
        obtain rfl : last.closing context = segment := by simpa using found
        exact not_long_closing last

theorem clusters_kept
    (context : Nat) {segment : Segment} (kept : segment.kept = true) :
    clusters context [segment] = [] := by
  have short :
      ¬2 * context < ((segment.last context).first context).oldLength := by
    simp only [Segment.first, Segment.last]
    omega
  have stillKept : (segment.last context).kept = true := kept
  have shownKept : ((segment.last context).first context).kept = true := kept
  simp [clusters, trimStart, trimEnd, clustersFrom, kept, stillKept, shownKept,
    short]

theorem single_of_unchanged
    {parts : List Segment} (alternates : parts.IsChain Segment.Alternates)
    (unchanged : ¬∃ segment ∈ parts, segment.kept = false) :
    parts = [] ∨ ∃ segment, parts = [segment] ∧ segment.kept = true := by
  have allKept : ∀ segment ∈ parts, segment.kept = true := by
    intro segment member
    cases kept : segment.kept with
    | true => rfl
    | false => exact absurd ⟨segment, member, kept⟩ unchanged
  match parts with
  | [] => exact Or.inl rfl
  | [segment] => exact Or.inr ⟨segment, rfl, allKept segment List.mem_cons_self⟩
  | first :: second :: others =>
      have changed :=
        (List.isChain_cons_cons.mp alternates).1.left (allKept second (by simp))
      exact absurd ⟨first, List.mem_cons_self, changed⟩ unchanged

theorem clusters_of_unchanged
    (context : Nat) {parts : List Segment}
    (alternates : parts.IsChain Segment.Alternates)
    (unchanged : ¬∃ segment ∈ parts, segment.kept = false) :
    clusters context parts = [] := by
  rcases single_of_unchanged alternates unchanged with none | ⟨segment, single, kept⟩
  · rw [none]
    rfl
  · rw [single]
    exact clusters_kept context kept

end Cuts

/-! ## Covering -/

section Covering

variable {α : Type} {old new : List α} {start finish : Point}
  {context : Nat} {parts : List Segment} {groups : List (List Segment)}

/-- The lines between the first and the last ones of a long segment are left
out. -/
theorem Cut.spaced
    (cut : Cut context parts groups)
    (covers : Covers old new start parts finish) :
    Spaced old new start groups finish := by
  induction cut generalizing start with
  | whole compact => exact Spaced.single compact.ne_nil covers
  | @inside front rest long groups _ _ isLong compact _ inductionHypothesis =>
      obtain ⟨kept, longer⟩ := isLong
      obtain ⟨middle, before, stands, onward⟩ := chains_append.mp covers
      obtain ⟨firstStands, firstPast⟩ := standsAt_first kept stands context
      obtain ⟨lastStands, lastPast⟩ := standsAt_last kept stands context
      have shown : min long.oldLength context = context := by omega
      rw [shown] at firstPast
      have cluster :
          Covers old new start (front ++ [long.first context])
            (middle.1 + context, middle.2 + context) :=
        chains_append.mpr
          ⟨middle, before, chains_singleton.mpr ⟨firstStands, firstPast⟩⟩
      rw [← lastPast] at onward
      have behind := inductionHypothesis ⟨lastStands, onward⟩
      obtain ⟨_, _, _, run⟩ := (standsAt_kept kept).mp stands
      have inside :
          context + (long.oldLength - context - context) ≤ long.oldLength := by
        omega
      have unshown := run.sub context inside
      have resume :
          context + (long.oldLength - context - context) =
            long.oldLength - context := by
        omega
      refine Spaced.next (SameRun.zero old new start) compact.ne_nil cluster ?_
      refine Spaced.prepend unshown ?_
      simpa only [Nat.add_assoc, resume] using behind

/-- Clusters leave out runs of equal lines and nothing else. -/
theorem spaced_clusters
    (context : Nat) (alternates : parts.IsChain Segment.Alternates)
    (covers : Covers old new start parts finish) :
    Spaced old new start (clusters context parts) finish := by
  by_cases changes : ∃ segment ∈ parts, segment.kept = false
  · have cut := cut_clusters context alternates changes
    obtain ⟨skipped, front, fromFirst⟩ := covers_trimStart context covers
    obtain ⟨middle, left, toLast, back, rfl⟩ := covers_trimEnd context fromFirst
    exact ((cut.spaced toLast).append back).prepend front
  · rw [clusters_of_unchanged context alternates changes]
    rcases single_of_unchanged alternates changes with rfl | ⟨segment, rfl, kept⟩
    · obtain rfl : start = finish := covers
      exact Spaced.done (SameRun.zero old new start)
    · obtain ⟨stands, rfl⟩ := chains_singleton.mp covers
      obtain ⟨_, _, lengths, run⟩ := (standsAt_kept kept).mp stands
      have done := Spaced.done run
      simpa only [Segment.past, lengths] using done

end Covering

end ReviewDiff.LineDiff
