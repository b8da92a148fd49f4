import ReviewDiff.Change.Plan
import ReviewDiff.Proofs.Program

/-!
# Where parts come from

Every change of a collapsed range takes its path and its old side from one
record of the range, and its new side and its revision from one record.  A
plan only arranges: each part is made of changes that were planned.
-/

namespace ReviewDiff.Change

/-! ## Collapsing -/

/-- The ends of a span are records. -/
def Span.Among (records : List ChangedFile) (span : Span) : Prop :=
  span.first ∈ records ∧ ∀ last, span.last = some last → last ∈ records

section Collapse

variable {records : List ChangedFile}

theorem among_gather
    {record : ChangedFile} (inRecords : record ∈ records) {spans : List Span}
    (among : ∀ span ∈ spans, span.Among records) :
    ∀ span ∈ gather record spans, span.Among records := by
  induction spans with
  | nil =>
      rw [gather, List.forall_mem_singleton]
      refine ⟨inRecords, ?_⟩
      intro last isLast
      cases isLast
  | cons span rest inductionHypothesis =>
      rw [List.forall_mem_cons] at among
      obtain ⟨⟨firstIn, lastIn⟩, restAmong⟩ := among
      by_cases same : span.first.path = record.path
      · rw [gather, if_pos same, List.forall_mem_cons]
        refine ⟨⟨firstIn, ?_⟩, restAmong⟩
        intro last isLast
        obtain rfl : record = last := Option.some.inj isLast
        exact inRecords
      · rw [gather, if_neg same, List.forall_mem_cons]
        exact ⟨⟨firstIn, lastIn⟩, inductionHypothesis restAmong⟩

theorem among_foldl
    {todo : List ChangedFile} (included : ∀ record ∈ todo, record ∈ records)
    {spans : List Span} (among : ∀ span ∈ spans, span.Among records) :
    ∀ span ∈ todo.foldl (fun found record => gather record found) spans,
      span.Among records := by
  induction todo generalizing spans with
  | nil => exact among
  | cons record rest inductionHypothesis =>
      rw [List.forall_mem_cons] at included
      exact inductionHypothesis included.2 (among_gather included.1 among)

/-- Both sides of a settled span come from its ends. -/
theorem Span.settle_eq_some
    {inFlight : Bool} {span : Span} {change : FileChange}
    (settles : span.settle inFlight = some change) :
    change.path = span.first.path ∧
      change.old = span.first.oldSide inFlight ∧
        change.new = (span.last.getD span.first).newSide inFlight ∧
          change.revision = (span.last.getD span.first).revision := by
  obtain ⟨first, last⟩ := span
  cases last with
  | none =>
      obtain rfl := Option.some.inj settles
      exact ⟨rfl, rfl, rfl, rfl⟩
  | some last =>
      simp only [Span.settle] at settles
      split at settles
      · cases settles
      all_goals
        obtain rfl := Option.some.inj settles
        exact ⟨rfl, rfl, rfl, rfl⟩

/-- A change takes its old side from one record and its new side from one. -/
theorem exists_records_of_mem_collapse
    {inFlight : Bool} {change : FileChange}
    (member : change ∈ collapse inFlight records) :
    ∃ first ∈ records, ∃ last ∈ records,
      change.path = first.path ∧ change.old = first.oldSide inFlight ∧
        change.new = last.newSide inFlight ∧ change.revision = last.revision := by
  obtain ⟨span, inSpans, settles⟩ := List.mem_filterMap.mp member
  obtain ⟨firstIn, lastIn⟩ :=
    among_foldl (fun _ inRecords => inRecords) (List.forall_mem_nil _) span inSpans
  refine ⟨span.first, firstIn, span.last.getD span.first, ?_,
    Span.settle_eq_some settles⟩
  cases ends : span.last with
  | none => exact firstIn
  | some last => exact lastIn last ends

end Collapse

/-! ## Arranging -/

/-- The changes that a part shows. -/
def Part.changes : Part → List FileChange
  | .single change => [change]
  | .move link => [link.source, link.dest]

/-- Both ends of a link are among the changes. -/
def MoveLink.Among (changes : List FileChange) (link : MoveLink) : Prop :=
  link.source ∈ changes ∧ link.dest ∈ changes

section Plan

variable {changes : List FileChange}
  {allowed : (q : Snapshots.Request) → q.Answer → Prop}

theorem among_link?
    {source : FileChange} (inChanges : source ∈ changes)
    (target : Except Failure (Option String)) :
    ∀ link ∈ (link? changes source target).toList, link.Among changes := by
  intro link member
  rw [Option.mem_toList] at member
  unfold link? at member
  split at member
  · obtain ⟨dest, found, rfl⟩ := Option.map_eq_some_iff.mp member
    exact ⟨inChanges, List.mem_of_find?_eq_some found⟩
  · cases member

theorem among_findLinks
    {todo : List FileChange} (included : ∀ change ∈ todo, change ∈ changes)
    {links : List MoveLink} (yields : (findLinks changes todo).Yields allowed links) :
    ∀ link ∈ links, link.Among changes := by
  induction todo generalizing links with
  | nil =>
      obtain rfl : links = [] := yields
      exact List.forall_mem_nil _
  | cons change rest inductionHypothesis =>
      rw [List.forall_mem_cons] at included
      rw [findLinks] at yields
      by_cases removed : change.kind = .moveDelete
      · rw [if_pos removed] at yields
        obtain ⟨target, _, yields⟩ := Program.yields_bind.mp yields
        obtain ⟨found, foundYields, rfl⟩ := Program.yields_bind.mp yields
        exact List.forall_mem_append.mpr
          ⟨among_link? included.1 target, inductionHypothesis included.2 foundYields⟩
      · rw [if_neg removed] at yields
        exact inductionHypothesis included.2 yields

theorem firstClaims_subset (taken : List String) (links : List MoveLink) :
    ∀ link ∈ firstClaims taken links, link ∈ links := by
  induction links generalizing taken with
  | nil => exact List.forall_mem_nil _
  | cons link rest inductionHypothesis =>
      intro found member
      rw [firstClaims] at member
      split at member
      · exact List.mem_cons_of_mem link (inductionHypothesis taken found member)
      · rcases List.mem_cons.mp member with rfl | later
        · exact List.mem_cons_self
        · exact List.mem_cons_of_mem link (inductionHypothesis _ found later)

theorem changes_of_mem_arrange
    {links : List MoveLink} (among : ∀ link ∈ links, link.Among changes)
    {todo : List FileChange} (included : ∀ change ∈ todo, change ∈ changes)
    (shown : List String) :
    ∀ part ∈ arrange links shown todo, ∀ change ∈ part.changes, change ∈ changes := by
  induction todo generalizing shown with
  | nil => exact List.forall_mem_nil _
  | cons first rest inductionHypothesis =>
      rw [List.forall_mem_cons] at included
      have later := inductionHypothesis included.2
      rw [arrange]
      split
      · exact later shown
      · split
        · rename_i link found
          obtain ⟨sourceIn, destIn⟩ := among link (List.mem_of_find?_eq_some found)
          rw [List.forall_mem_cons]
          refine ⟨?_, later _⟩
          rw [Part.changes, List.forall_mem_cons, List.forall_mem_singleton]
          exact ⟨sourceIn, destIn⟩
        · rw [List.forall_mem_cons]
          refine ⟨?_, later shown⟩
          rw [Part.changes, List.forall_mem_singleton]
          exact included.1

/-- A plan shows nothing but the changes that were planned. -/
theorem changes_of_mem_plan
    {detectMoves : Bool} {parts : List Part}
    (yields : (plan changes detectMoves).Yields allowed parts) :
    ∀ part ∈ parts, ∀ change ∈ part.changes, change ∈ changes := by
  have all : ∀ change ∈ changes, change ∈ changes := fun _ member => member
  unfold plan at yields
  cases detectMoves with
  | true =>
      rw [if_pos rfl] at yields
      obtain ⟨links, linksYield, rfl⟩ := Program.yields_bind.mp yields
      have among := among_findLinks all linksYield
      exact changes_of_mem_arrange
        (fun link member => among link (firstClaims_subset [] links link member)) all []
  | false =>
      rw [if_neg Bool.false_ne_true] at yields
      obtain rfl : parts = arrange [] [] changes := yields
      exact changes_of_mem_arrange (List.forall_mem_nil _) all []

end Plan

end ReviewDiff.Change
