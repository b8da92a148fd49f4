import ReviewDiff.Proofs.Change.Collapse

/-!
# The ends of a path

Collapsing goes through the records one by one and updates the entries found so
far.  What it finds for a path depends on the records of that path alone, and of
these on the first and the last one:

* the paths stand in the order in which they come first;
* the old side is that of the first record, the new side and the revision are
  those of the last;
* a path with several records is left out exactly when the first of them
  creates the file and the last one removes it.
-/

namespace ReviewDiff.Change

/-- The records of a path, in order. -/
def recordsOf (path : String) (records : List ChangedFile) : List ChangedFile :=
  records.filter (·.path = path)

/-- What a range does to a file whose records it holds in this order. -/
def FileChange.ofRecords? (inFlight : Bool) : List ChangedFile → Option FileChange
  | [] => none
  | [only] =>
      some ⟨only.path, only.kind, only.oldSide inFlight, only.newSide inFlight,
        only.revision⟩
  | first :: second :: rest =>
      let last := rest.getLastD second
      if first.kind.creates ∧ last.kind.removes then none
      else
        let kind :=
          if first.kind.creates then Kind.add
          else if last.kind.removes then Kind.delete
          else Kind.edit
        some ⟨first.path, kind, first.oldSide inFlight, last.newSide inFlight,
          last.revision⟩

/-! ## Records of one path -/

section RecordsOf

variable {path : String} {records : List ChangedFile} {record : ChangedFile}

theorem recordsOf_ne_nil_iff :
    recordsOf path records ≠ [] ↔ path ∈ records.map ChangedFile.path := by
  rw [recordsOf, ne_eq, List.filter_eq_nil_iff, List.mem_map]
  simp

theorem path_of_mem_recordsOf (member : record ∈ recordsOf path records) :
    record.path = path :=
  of_decide_eq_true (List.mem_filter.mp member).2

theorem recordsOf_concat_self (records : List ChangedFile) (record : ChangedFile) :
    recordsOf record.path (records ++ [record]) =
      recordsOf record.path records ++ [record] := by
  rw [recordsOf, recordsOf, List.filter_append,
    List.filter_cons_of_pos (by simp), List.filter_nil]

theorem recordsOf_concat_of_ne
    (different : record.path ≠ path) (records : List ChangedFile) :
    recordsOf path (records ++ [record]) = recordsOf path records := by
  rw [recordsOf, recordsOf, List.filter_append,
    List.filter_cons_of_neg (by simpa using different), List.filter_nil,
    List.append_nil]

end RecordsOf

/-! ## Spans of one path -/

/-- The span of a path that has these records. -/
def Span.ofRecords? : List ChangedFile → Option Span
  | [] => none
  | first :: rest => some ⟨first, rest.getLast?⟩

theorem Span.ofRecords?_concat
    {found : List ChangedFile} (nonempty : found ≠ []) (record : ChangedFile) :
    Span.ofRecords? (found ++ [record]) =
      (Span.ofRecords? found).map fun span => { span with last := some record } := by
  cases found with
  | nil => exact absurd rfl nonempty
  | cons first rest =>
      rw [List.cons_append, ofRecords?, ofRecords?, List.getLast?_concat,
        Option.map_some]

theorem Span.path_of_ofRecords?
    {path : String} {records : List ChangedFile} {span : Span}
    (found : Span.ofRecords? (recordsOf path records) = some span) :
    span.path = path := by
  cases list : recordsOf path records with
  | nil =>
      rw [list] at found
      cases found
  | cons first rest =>
      rw [list, ofRecords?] at found
      have inFirst : first ∈ recordsOf path records := by
        rw [list]
        exact List.mem_cons_self
      rw [← Option.some.inj found]
      exact path_of_mem_recordsOf inFirst

/-- The spans of all paths, in the order in which paths come first. -/
def spansOf (records : List ChangedFile) : List Span :=
  (records.map ChangedFile.path).eraseDups.filterMap fun path =>
    Span.ofRecords? (recordsOf path records)

theorem paths_spansOf (records : List ChangedFile) :
    (spansOf records).map Span.path = (records.map ChangedFile.path).eraseDups := by
  have found :
      ∀ path ∈ (records.map ChangedFile.path).eraseDups,
        (Span.ofRecords? (recordsOf path records)).map Span.path = some path := by
    intro path member
    have nonempty := recordsOf_ne_nil_iff.mpr (List.mem_eraseDups.mp member)
    rcases List.exists_cons_of_ne_nil nonempty with ⟨first, rest, list⟩
    have span : Span.ofRecords? (recordsOf path records) = some ⟨first, rest.getLast?⟩ := by
      rw [list, Span.ofRecords?]
    rw [span, Option.map_some, Span.path_of_ofRecords? span]
  rw [spansOf, List.map_filterMap, List.filterMap_congr found, List.filterMap_some]

/-- One more record is gathered into the spans. -/
theorem spansOf_concat (records : List ChangedFile) (record : ChangedFile) :
    spansOf (records ++ [record]) = gather record (spansOf records) := by
  by_cases seen : record.path ∈ records.map ChangedFile.path
  · have distinct : ((spansOf records).map Span.path).Nodup := by
      rw [paths_spansOf]
      exact nodup_eraseDups _
    have known : record.path ∈ (spansOf records).map Span.path := by
      rwa [paths_spansOf, List.mem_eraseDups]
    rw [gather_of_mem distinct known, spansOf, spansOf, List.map_append,
      List.map_singleton, eraseDups_concat, if_pos seen, List.map_filterMap]
    apply List.filterMap_congr
    intro path _
    by_cases same : record.path = path
    · subst same
      rw [recordsOf_concat_self,
        Span.ofRecords?_concat (recordsOf_ne_nil_iff.mpr seen)]
      apply Option.map_congr
      intro span found
      rw [if_pos (Span.path_of_ofRecords? found)]
    · rw [recordsOf_concat_of_ne same]
      cases found : Span.ofRecords? (recordsOf path records) with
      | none => rfl
      | some span =>
          have other : span.path ≠ record.path := by
            rw [Span.path_of_ofRecords? found]
            exact Ne.symm same
          rw [Option.map_some, if_neg other]
  · have unknown : record.path ∉ (spansOf records).map Span.path := by
      rwa [paths_spansOf, List.mem_eraseDups]
    have nothing : recordsOf record.path records = [] := by
      by_contra nonempty
      exact seen (recordsOf_ne_nil_iff.mp nonempty)
    rw [gather_of_notMem unknown, spansOf, spansOf, List.map_append,
      List.map_singleton, eraseDups_concat, if_neg seen, List.filterMap_append]
    congr 1
    · apply List.filterMap_congr
      intro path member
      have different : record.path ≠ path := by
        intro same
        apply seen
        rw [same]
        exact List.mem_eraseDups.mp member
      rw [recordsOf_concat_of_ne different]
    · rw [List.filterMap_cons, recordsOf_concat_self, nothing]
      rfl

/-- Gathering all records finds the span of every path. -/
theorem foldl_gather_eq_spansOf (records : List ChangedFile) :
    records.foldl (fun spans record => gather record spans) [] = spansOf records := by
  induction records using List.reverseRecOn with
  | nil => rfl
  | append_singleton records record inductionHypothesis =>
      rw [List.foldl_concat, inductionHypothesis, spansOf_concat]

/-! ## What is left of a path -/

/-- What settles of the span of some records. -/
theorem bind_settle_ofRecords? (inFlight : Bool) (found : List ChangedFile) :
    (Span.ofRecords? found).bind (Span.settle inFlight) =
      FileChange.ofRecords? inFlight found := by
  match found with
  | [] => rfl
  | [only] => rfl
  | first :: second :: rest =>
      rw [Span.ofRecords?, List.getLast?_cons, Option.bind_some, FileChange.ofRecords?,
        ← List.getLastD_eq_getLast?]
      generalize rest.getLastD second = last
      cases creates : first.kind.creates <;> cases removes : last.kind.removes <;>
        simp [Span.settle, creates, removes]

/-- Records between the first and the last one make no difference. -/
theorem ofRecords?_append
    (inFlight : Bool) {front back : List ChangedFile} (record : ChangedFile)
    (before : front ≠ []) (behind : back ≠ []) :
    FileChange.ofRecords? inFlight (front ++ record :: back) =
      FileChange.ofRecords? inFlight (front ++ back) := by
  have sameSpan :
      Span.ofRecords? (front ++ record :: back) = Span.ofRecords? (front ++ back) := by
    cases front with
    | nil => exact absurd rfl before
    | cons first rest =>
        rw [List.cons_append, List.cons_append, Span.ofRecords?, Span.ofRecords?,
          List.getLast?_append_of_ne_nil _ (List.cons_ne_nil record back),
          List.getLast?_append_of_ne_nil _ behind, List.getLast?_cons_of_ne_nil behind]
  rw [← bind_settle_ofRecords?, sameSpan, bind_settle_ofRecords?]

theorem collapse_eq_ofRecords (inFlight : Bool) (records : List ChangedFile) :
    collapse inFlight records =
      (records.map ChangedFile.path).eraseDups.filterMap fun path =>
        FileChange.ofRecords? inFlight (recordsOf path records) := by
  rw [collapse, foldl_gather_eq_spansOf, spansOf, List.filterMap_filterMap]
  apply List.filterMap_congr
  intro path _
  exact bind_settle_ofRecords? inFlight _

/-- Without a path that comes earlier the paths come in the same order. -/
theorem eraseDups_append_cons
    {front : List String} {item : String} (seen : item ∈ front) (back : List String) :
    (front ++ item :: back).eraseDups = (front ++ back).eraseDups := by
  have removed : (item :: back).removeAll front = back.removeAll front :=
    List.filter_cons_of_neg (by simpa using seen)
  rw [List.eraseDups_append, List.eraseDups_append, removed]

theorem collapse_append_cons
    (inFlight : Bool) {front back : List ChangedFile} {record : ChangedFile}
    (before : record.path ∈ front.map ChangedFile.path)
    (behind : record.path ∈ back.map ChangedFile.path) :
    collapse inFlight (front ++ record :: back) = collapse inFlight (front ++ back) := by
  rw [collapse_eq_ofRecords, collapse_eq_ofRecords, List.map_append, List.map_append,
    List.map_cons, eraseDups_append_cons before]
  apply List.filterMap_congr
  intro path _
  rw [recordsOf, recordsOf, List.filter_append, List.filter_append]
  by_cases same : record.path = path
  · subst same
    rw [List.filter_cons_of_pos (by simp)]
    exact
      ofRecords?_append inFlight record (recordsOf_ne_nil_iff.mpr before)
        (recordsOf_ne_nil_iff.mpr behind)
  · rw [List.filter_cons_of_neg (by simpa using same)]

/-- Collapsing leaves one entry for each path, in the order in which paths come
first, and none for a path whose several records create the file first and
remove it last.  An entry is made from the first and the last record of its
path, and what comes between them may as well be missing. -/
theorem collapse_keeps_ends (inFlight : Bool) (records : List ChangedFile) :
    collapse inFlight records =
        ((records.map ChangedFile.path).eraseDups.filterMap fun path =>
          FileChange.ofRecords? inFlight (recordsOf path records)) ∧
      ∀ front record back, records = front ++ record :: back →
        record.path ∈ front.map ChangedFile.path →
        record.path ∈ back.map ChangedFile.path →
        collapse inFlight records = collapse inFlight (front ++ back) := by
  constructor
  · exact collapse_eq_ofRecords inFlight records
  · rintro front record back rfl before behind
    exact collapse_append_cons inFlight before behind

/-- A file that is created, removed and created again, one that is removed and
created again, one that comes and goes, and half a move. -/
def entangled : List ChangedFile :=
  [⟨"//d/a", 1, .add, "4"⟩, ⟨"//d/b", 7, .delete, "4"⟩,
    ⟨"//d/a", 2, .delete, "5"⟩, ⟨"//d/c", 1, .moveAdd, "5"⟩,
    ⟨"//d/a", 3, .add, "6"⟩, ⟨"//d/m", 2, .moveDelete, "6"⟩,
    ⟨"//d/c", 2, .delete, "7"⟩, ⟨"//d/b", 8, .add, "7"⟩]

theorem collapse_entangled :
    collapse false entangled =
        [⟨"//d/a", .add, none, some (.numbered 3), 3⟩,
          ⟨"//d/b", .edit, some 6, some (.numbered 8), 8⟩,
          ⟨"//d/m", .moveDelete, some 1, none, 2⟩] ∧
      collapse false entangled = collapse false (entangled.eraseIdx 2) := by
  obtain ⟨entries, middle⟩ := collapse_keeps_ends false entangled
  constructor
  · rw [entries]
    decide
  · exact
      middle (entangled.take 2) ⟨"//d/a", 2, .delete, "5"⟩ (entangled.drop 3) rfl
        (by decide) (by decide)

end ReviewDiff.Change
