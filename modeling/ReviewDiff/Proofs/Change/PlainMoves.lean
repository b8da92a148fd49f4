import ReviewDiff.Change.Synthesis
import ReviewDiff.Proofs.Change.Ends
import ReviewDiff.Proofs.Change.Moves

/-!
# Moves that are not looked for

A move that is not looked for is a removed and a created file.  Collapsing asks
of a kind only whether it creates or removes the file, and what is shown of a
file on its own is the same for half a move and for the plain kind.  So taking
the moves out of the records changes neither the questions to the keeper of the
files nor what comes of them.  Without moves in the records nothing is found
when moves are looked for.
-/

namespace ReviewDiff.Change

/-! ## Plain kinds -/

/-- The action that half a move has on its own path. -/
def FileAction.plain : FileAction → FileAction
  | .moveAdd => .add
  | .moveDelete => .delete
  | action => action

/-- The record without the knowledge of a move. -/
def ChangedFile.plain (record : ChangedFile) : ChangedFile :=
  { record with action := record.action.plain }

namespace Kind

@[simp]
theorem creates_unpaired (kind : Kind) : kind.unpaired.creates = kind.creates := by
  cases kind <;> rfl

@[simp]
theorem removes_unpaired (kind : Kind) : kind.unpaired.removes = kind.removes := by
  cases kind <;> rfl

@[simp]
theorem unpaired_unpaired (kind : Kind) : kind.unpaired.unpaired = kind.unpaired := by
  cases kind <;> rfl

theorem unpaired_ne_moveDelete (kind : Kind) : kind.unpaired ≠ .moveDelete := by
  cases kind <;> decide

end Kind

section Plain

variable (inFlight : Bool) (record : ChangedFile)

@[simp]
theorem ChangedFile.kind_plain : record.plain.kind = record.kind.unpaired := by
  obtain ⟨path, revision, action, change⟩ := record
  cases action <;> rfl

@[simp]
theorem ChangedFile.oldSide_plain :
    record.plain.oldSide inFlight = record.oldSide inFlight := by
  simp only [oldSide, kind_plain, Kind.creates_unpaired]
  rfl

@[simp]
theorem ChangedFile.newSide_plain :
    record.plain.newSide inFlight = record.newSide inFlight := by
  simp only [newSide, kind_plain, Kind.removes_unpaired]
  rfl

end Plain

/-! ## Collapsing plain records -/

theorem recordsOf_plain (path : String) (records : List ChangedFile) :
    recordsOf path (records.map ChangedFile.plain) =
      (recordsOf path records).map ChangedFile.plain := by
  rw [recordsOf, recordsOf, List.filter_map]
  rfl

theorem ofRecords?_plain (inFlight : Bool) (found : List ChangedFile) :
    FileChange.ofRecords? inFlight (found.map ChangedFile.plain) =
      (FileChange.ofRecords? inFlight found).map FileChange.unpaired := by
  match found with
  | [] => rfl
  | [only] =>
      simp only [List.map_cons, List.map_nil, FileChange.ofRecords?, Option.map_some,
        ChangedFile.kind_plain, ChangedFile.oldSide_plain, ChangedFile.newSide_plain]
      rfl
  | first :: second :: rest =>
      have last :
          (rest.map ChangedFile.plain).getLastD second.plain =
            (rest.getLastD second).plain := by
        rw [List.getLastD_eq_getLast?, List.getLastD_eq_getLast?, List.getLast?_map,
          Option.getD_map]
      simp only [List.map_cons, FileChange.ofRecords?, last, ChangedFile.kind_plain,
        ChangedFile.oldSide_plain, ChangedFile.newSide_plain, Kind.creates_unpaired,
        Kind.removes_unpaired]
      cases first.kind.creates <;> cases (rest.getLastD second).kind.removes <;> rfl

/-- Plain records collapse to the changes with plain kinds. -/
theorem collapse_plain (inFlight : Bool) (records : List ChangedFile) :
    collapse inFlight (records.map ChangedFile.plain) =
      (collapse inFlight records).map FileChange.unpaired := by
  have samePaths :
      (records.map ChangedFile.plain).map ChangedFile.path =
        records.map ChangedFile.path := by
    rw [List.map_map]
    rfl
  rw [collapse_eq_ofRecords, collapse_eq_ofRecords, samePaths, List.map_filterMap]
  apply List.filterMap_congr
  intro path _
  rw [recordsOf_plain, ofRecords?_plain]

/-! ## Plans without moves -/

theorem findLinks_of_unmoved
    (changes : List FileChange) {todo : List FileChange}
    (unmoved : ∀ change ∈ todo, change.kind ≠ .moveDelete) :
    findLinks changes todo = pure [] := by
  induction todo with
  | nil => rfl
  | cons change rest inductionHypothesis =>
      rw [List.forall_mem_cons] at unmoved
      rw [findLinks, if_neg unmoved.1, inductionHypothesis unmoved.2]

theorem plan_without_detection (changes : List FileChange) :
    plan changes false = pure (changes.map .single) := by
  rw [plan, if_neg Bool.false_ne_true, arrange_without_links]

/-- Where no file was moved away, the keeper of the files is asked nothing. -/
theorem plan_of_unmoved
    {changes : List FileChange} (unmoved : ∀ change ∈ changes, change.kind ≠ .moveDelete)
    (detectMoves : Bool) :
    plan changes detectMoves = pure (changes.map .single) := by
  cases detectMoves with
  | false => exact plan_without_detection changes
  | true =>
      rw [plan, if_pos rfl, findLinks_of_unmoved changes unmoved, ← arrange_without_links]
      rfl

/-! ## Files on their own -/

/-- Half a move is shown on its own like a file of the plain kind, with the same
questions. -/
theorem fragment_single_unpaired (stamp : String) (change : FileChange) :
    (Part.single change.unpaired).fragment stamp = (Part.single change).fragment stamp := by
  have sameKind : change.unpaired.kind.unpaired = change.kind.unpaired :=
    Kind.unpaired_unpaired change.kind
  have sameNeed : needsLocalName change.unpaired = needsLocalName change := by
    funext old new
    rw [needsLocalName, needsLocalName, sameKind]
  have sameFragment : fileFragment stamp change.unpaired = fileFragment stamp change := by
    funext old new name
    rw [fileFragment, fileFragment, sameKind]
    rfl
  rw [Part.fragment, Part.fragment, sameNeed, sameFragment]
  rfl

theorem fragmentsOf_map_unpaired (stamp : String) (changes : List FileChange) :
    fragmentsOf stamp ((changes.map FileChange.unpaired).map .single) =
      fragmentsOf stamp (changes.map .single) := by
  induction changes with
  | nil => rfl
  | cons change rest inductionHypothesis =>
      rw [List.map_cons, List.map_cons, List.map_cons, fragmentsOf, fragmentsOf,
        fragment_single_unpaired, inductionHypothesis]

theorem fragments_plain
    (stamp : String) (range : RevisionRange) (records : List ChangedFile)
    (detectMoves : Bool) :
    fragments stamp range (records.map ChangedFile.plain) detectMoves =
      fragments stamp range records false := by
  have unmoved :
      ∀ change ∈ (collapse (isInFlight range) records).map FileChange.unpaired,
        change.kind ≠ .moveDelete := by
    rw [List.forall_mem_map]
    intro change _
    exact change.kind.unpaired_ne_moveDelete
  rw [fragments, fragments, collapse_plain, plan_of_unmoved unmoved,
    plan_without_detection]
  exact fragmentsOf_map_unpaired stamp (collapse (isInFlight range) records)

/-- Without their moves the records lead, whether moves are looked for or not, to
the same questions in the same order and to the same diff as the records
themselves when moves are not looked for.  This holds whatever the answers are,
because it is the same program. -/
theorem synthesize_plain
    (stamp : String) (range : RevisionRange) (records : List ChangedFile)
    (detectMoves : Bool) :
    synthesize stamp range (records.map ChangedFile.plain) detectMoves =
      synthesize stamp range records false := by
  rw [synthesize, synthesize, fragments_plain]

end ReviewDiff.Change
