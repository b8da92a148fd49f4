import Mathlib.Data.List.Nodup
import ReviewDiff.Perforce.Workspace
import ReviewDiff.Proofs.Change.Collapse

/-!
# Depots and their histories

A depot counts the revisions of every path and knows which files are there.
A submission adds one revision to each path that it touches.

Collapsing the records of a range of submissions never looks at a depot: it
keeps the old side of the first record of a path and the new side of the last
one.  The result is nevertheless the difference between the two states of the
depot at the ends of the range.
-/

namespace ReviewDiff.Perforce

open Change

/-! ## States of a depot -/

/-- The latest revision of a path, which is 0 before there is any, and whether
the file is there. -/
structure Head where
  revision : Nat
  present : Bool
  numbered : present = true → 0 < revision

/-- The actions that create a file. -/
def creatingActions : List String :=
  ["add", "branch", "import", "move/add"]

/-- The actions that change a file. -/
def changingActions : List String :=
  ["edit", "integrate"]

/-- The actions that remove a file. -/
def removingActions : List String :=
  ["delete", "move/delete"]

namespace Head

/-- The revision of the file, if it is there. -/
def current? (head : Head) : Option Nat :=
  if head.present then some head.revision else none

/-- A file is created where there is none, and changed or removed where there
is one.  Its revisions count up by one. -/
structure Admits (head : Head) (file : FileRecord) : Prop where
  revision : file.revision = head.revision + 1
  action :
    if head.present then file.action ∈ changingActions ++ removingActions
    else file.action ∈ creatingActions

instance (head : Head) (file : FileRecord) : Decidable (head.Admits file) :=
  decidable_of_iff
    (file.revision = head.revision + 1 ∧
      if head.present then file.action ∈ changingActions ++ removingActions
      else file.action ∈ creatingActions)
    ⟨fun both => ⟨both.1, both.2⟩, fun admits => ⟨admits.revision, admits.action⟩⟩

/-- The head after one more revision. -/
def next (head : Head) (action : String) : Head where
  revision := head.revision + 1
  present := action ∉ removingActions
  numbered _ := Nat.succ_pos head.revision

/-- What differs between two heads of a path. -/
def changeTo? (path : String) (old new : Head) : Option FileChange :=
  match old.current?, new.current? with
  | none, none => none
  | none, some revision =>
      some ⟨path, .add, none, some (.numbered revision), new.revision⟩
  | some revision, none =>
      some ⟨path, .delete, some revision, none, new.revision⟩
  | some before, some after =>
      some ⟨path, .edit, some before, some (.numbered after), new.revision⟩

theorem Admits.creates_eq
    {head : Head} {file : FileRecord} (admits : head.Admits file) :
    file.changedFile.kind.creates = !head.present := by
  have action := admits.action
  cases isPresent : head.present with
  | true =>
      simp only [isPresent, if_true] at action
      have rejects :
          ∀ name ∈ changingActions ++ removingActions,
            (Kind.ofAction (.ofName name)).creates = false := by
        decide
      exact rejects file.action action
  | false =>
      simp only [isPresent, Bool.false_eq_true, if_false] at action
      have accepts :
          ∀ name ∈ creatingActions,
            (Kind.ofAction (.ofName name)).creates = true := by
        decide
      exact accepts file.action action

theorem Admits.removes_eq
    {head : Head} {file : FileRecord} (admits : head.Admits file) :
    file.changedFile.kind.removes = !(head.next file.action).present := by
  have agrees :
      ∀ name ∈ creatingActions ++ (changingActions ++ removingActions),
        (Kind.ofAction (.ofName name)).removes =
          !decide (name ∉ removingActions) := by
    decide
  apply agrees
  have action := admits.action
  split at action
  · exact List.mem_append_right _ action
  · exact List.mem_append_left _ action

end Head

/-- A state of a depot: the head of every path. -/
abbrev Depot := String → Head

namespace Depot

/-- The depot before anything was submitted. -/
def initial : Depot :=
  fun _ => ⟨0, false, nofun⟩

/-- The depot after one more revision of a path. -/
def put (depot : Depot) (file : FileRecord) : Depot :=
  fun path =>
    if path = file.path then (depot path).next file.action else depot path

theorem put_self (depot : Depot) (file : FileRecord) :
    depot.put file file.path = (depot file.path).next file.action :=
  if_pos rfl

theorem put_of_ne
    (depot : Depot) {file : FileRecord} {path : String}
    (different : path ≠ file.path) :
    depot.put file path = depot path :=
  if_neg different

/-- Files that can be put into a depot one after the other. -/
def AdmitsAll : Depot → List FileRecord → Prop
  | _, [] => True
  | depot, file :: rest =>
      (depot file.path).Admits file ∧ (depot.put file).AdmitsAll rest

theorem admitsAll_append
    (depot : Depot) (front back : List FileRecord) :
    depot.AdmitsAll (front ++ back) ↔
      depot.AdmitsAll front ∧ (front.foldl put depot).AdmitsAll back := by
  induction front generalizing depot with
  | nil => exact (and_iff_right trivial).symm
  | cons file rest inductionHypothesis =>
      rw [List.cons_append, AdmitsAll, AdmitsAll, inductionHypothesis, and_assoc]
      rfl

/-- Files with distinct paths may be put in one after the other when each may
be put in first. -/
theorem admitsAll_of_distinct
    {depot : Depot} {files : List FileRecord}
    (distinct : (files.map FileRecord.path).Nodup)
    (admits : ∀ file ∈ files, (depot file.path).Admits file) :
    depot.AdmitsAll files := by
  induction files generalizing depot with
  | nil => trivial
  | cons file rest inductionHypothesis =>
      rw [List.map_cons, List.nodup_cons] at distinct
      rw [List.forall_mem_cons] at admits
      refine ⟨admits.1, inductionHypothesis distinct.2 ?_⟩
      intro other inRest
      have different : other.path ≠ file.path := by
        intro same
        apply distinct.1
        rw [← same]
        exact List.mem_map_of_mem inRest
      rw [put_of_ne depot different]
      exact admits.2 other inRest

end Depot

/-! ## Spans follow a depot -/

/-- The ends of a span tell the heads of its path before its first and after
its last record. -/
structure Tracks (start now : Depot) (span : Span) : Prop where
  opens : span.first.revision = (start span.path).revision + 1
  creates : span.first.kind.creates = !(start span.path).present
  closes : span.latest.revision = (now span.path).revision
  removes : span.latest.kind.removes = !(now span.path).present

theorem Tracks.oldSide_eq
    {start now : Depot} {span : Span} (tracks : Tracks start now span) :
    span.first.oldSide false = (start span.path).current? := by
  simp only [ChangedFile.oldSide, Head.current?, tracks.opens, tracks.creates,
    Bool.false_eq_true, if_false, Nat.add_sub_cancel, Bool.not_not]
  cases isPresent : (start span.path).present with
  | true =>
      have positive := (start span.path).numbered isPresent
      simp only [positive, decide_true, Bool.true_and]
  | false => simp only [Bool.and_false]

theorem Tracks.newSide_eq
    {start now : Depot} {span : Span} (tracks : Tracks start now span) :
    span.latest.newSide false = (now span.path).current?.map .numbered := by
  simp only [ChangedFile.newSide, Head.current?, tracks.closes, tracks.removes]
  cases (now span.path).present <;> rfl

/-- What settles of a span is the difference between the two heads. -/
theorem Tracks.settle_eq
    {start now : Depot} {span : Span} (tracks : Tracks start now span) :
    (span.settle false).map FileChange.unpaired =
      Head.changeTo? span.path (start span.path) (now span.path) := by
  rw [Span.settle_unpaired, tracks.oldSide_eq, tracks.newSide_eq, tracks.creates,
    tracks.removes, tracks.closes, Head.changeTo?, Head.current?, Head.current?]
  cases (start span.path).present <;> cases (now span.path).present <;> rfl

/-- The spans gathered from the files that led from one state to another. -/
structure Gathered
    (start now : Depot) (files : List FileRecord) (spans : List Span) : Prop where
  paths : spans.map Span.path = (files.map FileRecord.path).eraseDups
  distinct : (spans.map Span.path).Nodup
  untouched : ∀ path, path ∉ spans.map Span.path → now path = start path
  tracks : ∀ span ∈ spans, Tracks start now span

theorem gathered_nil (depot : Depot) : Gathered depot depot [] [] where
  paths := rfl
  distinct := List.nodup_nil
  untouched _ _ := rfl
  tracks := List.forall_mem_nil _

/-- A new span tells the heads around its only record. -/
theorem tracks_record
    {start now : Depot} {file : FileRecord}
    (admits : (now file.path).Admits file)
    (untouched : now file.path = start file.path) :
    Tracks start (now.put file) ⟨file.changedFile, none⟩ where
  opens := by
    change file.revision = (start file.path).revision + 1
    rw [← untouched]
    exact admits.revision
  creates := by
    change file.changedFile.kind.creates = !(start file.path).present
    rw [← untouched]
    exact admits.creates_eq
  closes := by
    change file.revision = (now.put file file.path).revision
    rw [Depot.put_self]
    exact admits.revision
  removes := by
    change file.changedFile.kind.removes = !(now.put file file.path).present
    rw [Depot.put_self]
    exact admits.removes_eq

/-- A record at the end of a span moves its last head on. -/
theorem Tracks.extend
    {start now : Depot} {span : Span} (tracks : Tracks start now span)
    {file : FileRecord} (admits : (now file.path).Admits file)
    (same : span.path = file.path) :
    Tracks start (now.put file) { span with last := some file.changedFile } where
  opens := tracks.opens
  creates := tracks.creates
  closes := by
    change file.revision = (now.put file span.path).revision
    rw [same, Depot.put_self]
    exact admits.revision
  removes := by
    change file.changedFile.kind.removes = !(now.put file span.path).present
    rw [same, Depot.put_self]
    exact admits.removes_eq

theorem Tracks.elsewhere
    {start now : Depot} {span : Span} (tracks : Tracks start now span)
    {file : FileRecord} (other : span.path ≠ file.path) :
    Tracks start (now.put file) span where
  opens := tracks.opens
  creates := tracks.creates
  closes := by
    rw [Depot.put_of_ne now other]
    exact tracks.closes
  removes := by
    rw [Depot.put_of_ne now other]
    exact tracks.removes

/-- One more file keeps the spans in step with the depot. -/
theorem Gathered.put
    {start now : Depot} {files : List FileRecord} {spans : List Span}
    (gathered : Gathered start now files spans)
    {file : FileRecord} (admits : (now file.path).Admits file) :
    Gathered start (now.put file) (files ++ [file])
      (gather file.changedFile spans) := by
  have known :
      file.path ∈ spans.map Span.path ↔
        file.path ∈ files.map FileRecord.path := by
    rw [gathered.paths, List.mem_eraseDups]
  have tracks :
      ∀ span ∈ gather file.changedFile spans, Tracks start (now.put file) span := by
    intro span member
    rcases mem_gather gathered.distinct member with
      ⟨inSpans, other⟩ | ⟨earlier, inSpans, same, rfl⟩ | ⟨absent, rfl⟩
    · exact (gathered.tracks span inSpans).elsewhere other
    · exact (gathered.tracks earlier inSpans).extend admits same
    · exact tracks_record admits (gathered.untouched file.path absent)
  by_cases seen : file.path ∈ spans.map Span.path
  · have paths := @paths_gather_of_mem file.changedFile spans seen
    refine ⟨?_, ?_, ?_, tracks⟩
    · rw [paths, List.map_append, List.map_singleton, eraseDups_concat,
        if_pos (known.mp seen), gathered.paths]
    · rw [paths]
      exact gathered.distinct
    · rw [paths]
      intro path absent
      have different : path ≠ file.path := by
        rintro rfl
        exact absent seen
      rw [Depot.put_of_ne now different]
      exact gathered.untouched path absent
  · have paths := @paths_gather_of_notMem file.changedFile spans seen
    refine ⟨?_, ?_, ?_, tracks⟩
    · rw [paths, List.map_append, List.map_singleton, eraseDups_concat,
        if_neg fun inFiles => seen (known.mpr inFiles), gathered.paths]
      rfl
    · rw [paths]
      exact List.nodup_append_comm.mpr (List.nodup_cons.mpr ⟨seen, gathered.distinct⟩)
    · rw [paths]
      intro path absent
      rw [List.mem_append, List.mem_singleton, not_or] at absent
      rw [Depot.put_of_ne now absent.2]
      exact gathered.untouched path absent.1

/-- The files of a run from one state to another. -/
theorem Gathered.foldl
    {start now : Depot} {files : List FileRecord} {spans : List Span}
    (gathered : Gathered start now files spans)
    {todo : List FileRecord} (admitted : now.AdmitsAll todo) :
    Gathered start (todo.foldl Depot.put now) (files ++ todo)
      (todo.foldl (fun found file => gather file.changedFile found) spans) := by
  induction todo generalizing now files spans with
  | nil =>
      rw [List.append_nil]
      exact gathered
  | cons file rest inductionHypothesis =>
      rw [List.append_cons]
      exact inductionHypothesis (gathered.put admitted.1) admitted.2

/-- Files put in one after the other collapse to the difference that they make. -/
theorem collapse_eq_changes
    {start : Depot} {files : List FileRecord} (admitted : start.AdmitsAll files) :
    (collapse false (files.map FileRecord.changedFile)).map FileChange.unpaired =
      (files.map FileRecord.path).eraseDups.filterMap fun path =>
        Head.changeTo? path (start path) (files.foldl Depot.put start path) := by
  have gathered := (gathered_nil start).foldl admitted
  rw [List.nil_append] at gathered
  rw [← gathered.paths, List.filterMap_map, collapse, List.foldl_map, List.map_filterMap]
  apply List.filterMap_congr
  intro span member
  exact (gathered.tracks span member).settle_eq

/-! ## Histories -/

/-- A submitted change: its number and its files, each with the revision that
it gets. -/
structure Submission where
  number : Nat
  files : List FileRecord
  distinct : (files.map FileRecord.path).Nodup

/-- The depot after a submission. -/
def Depot.submit (depot : Depot) (submission : Submission) : Depot :=
  submission.files.foldl put depot

/-- Submissions that a depot takes one after the other. -/
def Depot.AcceptsAll : Depot → List Submission → Prop
  | _, [] => True
  | depot, submission :: rest =>
      (∀ file ∈ submission.files, (depot file.path).Admits file) ∧
        (depot.submit submission).AcceptsAll rest

instance Depot.decidableAcceptsAll :
    (depot : Depot) → (submissions : List Submission) →
      Decidable (depot.AcceptsAll submissions)
  | _, [] => isTrue trivial
  | depot, submission :: rest =>
      have := decidableAcceptsAll (depot.submit submission) rest
      inferInstanceAs (Decidable (_ ∧ _))

/-- Everything that was ever submitted to a depot, oldest first. -/
structure History where
  submissions : List Submission
  ascending : submissions.Pairwise fun earlier later => earlier.number < later.number
  accepted : Depot.initial.AcceptsAll submissions

theorem Depot.admitsAll_flatMap
    {depot : Depot} {submissions : List Submission}
    (accepted : depot.AcceptsAll submissions) :
    depot.AdmitsAll (submissions.flatMap Submission.files) := by
  induction submissions generalizing depot with
  | nil => trivial
  | cons submission rest inductionHypothesis =>
      rw [List.flatMap_cons, admitsAll_append]
      exact ⟨admitsAll_of_distinct submission.distinct accepted.1,
        inductionHypothesis accepted.2⟩

theorem Depot.acceptsAll_append
    (depot : Depot) (front back : List Submission) :
    depot.AcceptsAll (front ++ back) ↔
      depot.AcceptsAll front ∧ (front.foldl submit depot).AcceptsAll back := by
  induction front generalizing depot with
  | nil => exact (and_iff_right trivial).symm
  | cons submission rest inductionHypothesis =>
      rw [List.cons_append, AcceptsAll, AcceptsAll, inductionHypothesis, and_assoc]
      rfl

/-- A list in ascending order is cut at a number by two filters. -/
theorem filter_append_filter
    {submissions : List Submission}
    (ascending :
      submissions.Pairwise fun earlier later => earlier.number < later.number)
    (number : Nat) :
    submissions.filter (fun submission => submission.number ≤ number) ++
        submissions.filter (fun submission => number < submission.number) =
      submissions := by
  induction submissions with
  | nil => rfl
  | cons submission rest inductionHypothesis =>
      rw [List.pairwise_cons] at ascending
      obtain ⟨first, restAscending⟩ := ascending
      by_cases before : submission.number ≤ number
      · have notBehind : ¬number < submission.number := Nat.not_lt.mpr before
        rw [List.filter_cons_of_pos (by simpa using before),
          List.filter_cons_of_neg (by simpa using before), List.cons_append,
          inductionHypothesis restAscending]
      · have behind : ∀ later ∈ submission :: rest, number < later.number := by
          rw [List.forall_mem_cons]
          have atHead := Nat.not_le.mp before
          exact ⟨atHead, fun later inRest => Nat.lt_trans atHead (first later inRest)⟩
        have none :
            (submission :: rest).filter (fun later => later.number ≤ number) = [] := by
          apply List.filter_eq_nil_iff.mpr
          intro later member
          simpa using behind later member
        have all :
            (submission :: rest).filter (fun later => number < later.number) =
              submission :: rest := by
          apply List.filter_eq_self.mpr
          intro later member
          simpa using behind later member
        rw [none, all, List.nil_append]

namespace History

/-- The state of the depot at a number. -/
def depotAt (history : History) (number : Nat) : Depot :=
  (history.submissions.filter fun submission => submission.number ≤ number).foldl
    Depot.submit Depot.initial

/-- The files of the submissions behind one number and up to another, oldest
first. -/
def filesBetween (history : History) (base tip : Nat) : List FileRecord :=
  (history.submissions.filter fun submission =>
    base < submission.number ∧ submission.number ≤ tip).flatMap Submission.files

/-- The files between two numbers lead from one state to the other. -/
theorem depotAt_eq_foldl
    (history : History) {base tip : Nat} (ordered : base ≤ tip) :
    (history.depotAt base).AdmitsAll (history.filesBetween base tip) ∧
      history.depotAt tip =
        (history.filesBetween base tip).foldl Depot.put (history.depotAt base) := by
  let upTo := fun number =>
    history.submissions.filter fun submission => submission.number ≤ number
  let between :=
    history.submissions.filter fun submission =>
      base < submission.number ∧ submission.number ≤ tip
  have accepted : Depot.initial.AcceptsAll (upTo tip) := by
    have whole := history.accepted
    rw [← filter_append_filter history.ascending tip, Depot.acceptsAll_append] at whole
    exact whole.1
  have cut : upTo tip = upTo base ++ between := by
    have ascending : (upTo tip).Pairwise fun earlier later => earlier.number < later.number :=
      history.ascending.filter _
    rw [← filter_append_filter ascending base, List.filter_filter, List.filter_filter]
    congr 1
    · apply List.filter_congr
      intro submission _
      rw [← Bool.decide_and]
      apply decide_eq_decide.mpr
      omega
    · apply List.filter_congr
      intro submission _
      rw [← Bool.decide_and]
  rw [cut, Depot.acceptsAll_append] at accepted
  refine ⟨Depot.admitsAll_flatMap accepted.2, ?_⟩
  change (upTo tip).foldl Depot.submit Depot.initial = _
  rw [cut, List.foldl_append, filesBetween, List.foldl_flatMap]
  rfl

end History

/-- Collapsing the records of the submissions between two numbers gives what
differs between the states of the depot there: every touched path that is there
on either side, once, in the order in which paths come first. -/
theorem collapse_filesBetween (history : History) (base tip : Nat) :
    (collapse false
          ((history.filesBetween base tip).map FileRecord.changedFile)).map
        FileChange.unpaired =
      ((history.filesBetween base tip).map FileRecord.path).eraseDups.filterMap
        fun path =>
          Head.changeTo? path (history.depotAt base path)
            (history.depotAt tip path) := by
  by_cases ordered : base ≤ tip
  · obtain ⟨admitted, reached⟩ := history.depotAt_eq_foldl ordered
    rw [reached]
    exact collapse_eq_changes admitted
  · have nothing : history.filesBetween base tip = [] := by
      have none :
          history.submissions.filter (fun submission =>
            base < submission.number ∧ submission.number ≤ tip) = [] := by
        apply List.filter_eq_nil_iff.mpr
        intro submission _ inside
        have bounds := of_decide_eq_true inside
        omega
      rw [History.filesBetween, none, List.flatMap_nil]
    rw [nothing]
    rfl

/-- A file that is removed and created again, one that is branched, edited and
moved away, and the target of that move, which is soon removed. -/
def comingsAndGoings : History where
  submissions :=
    [⟨3, [⟨"//d/a", 1, "add", "3"⟩, ⟨"//d/b", 1, "branch", "3"⟩], by decide⟩,
      ⟨5, [⟨"//d/b", 2, "integrate", "5"⟩, ⟨"//d/a", 2, "delete", "5"⟩], by decide⟩,
      ⟨8, [⟨"//d/c", 1, "move/add", "8"⟩, ⟨"//d/b", 3, "move/delete", "8"⟩,
        ⟨"//d/a", 3, "add", "8"⟩], by decide⟩,
      ⟨9, [⟨"//d/c", 2, "delete", "9"⟩], by decide⟩]
  ascending := by decide
  accepted := by decide

/-- Between the first and the last submission one file changes, one goes, and
the third leaves no trace. -/
theorem collapse_comingsAndGoings :
    (collapse false
          ((comingsAndGoings.filesBetween 3 9).map FileRecord.changedFile)).map
        FileChange.unpaired =
      [⟨"//d/b", .delete, some 1, none, 3⟩,
        ⟨"//d/a", .edit, some 1, some (.numbered 3), 3⟩] := by
  rw [collapse_filesBetween]
  decide

end ReviewDiff.Perforce
