import Mathlib.Data.List.Forall2
import Mathlib.Data.List.Nodup
import Mathlib.Data.List.Perm.Subperm
import ReviewDiff.Perforce.Connection
import ReviewDiff.Proofs.Text.Digits

/-!
# Numbered fields

The files of a described changelist are spread over three families of fields
that are numbered from zero.  A family is read up to the first number that is
missing, and a record has too few fields for the search to stop before that.
So file `i` is made of the three fields with the number `i`.

* `indexed_eq_iff` says what a family of numbered fields is read as.
* `describedFiles_eq_ok_iff` says which files a record describes.
-/

namespace ReviewDiff.Perforce

namespace Record

/-! ## One family of fields -/

section Family

variable {record : Record} {name : String} {fuel start : Nat} {values : List String}

/-- The values stand under consecutive numbers. -/
def Numbers (record : Record) (name : String) (start : Nat) (values : List String) : Prop :=
  ∀ i (inside : i < values.length),
    record.get? (name ++ toString (start + i)) = some values[i]

theorem numbers_cons_iff {value : String} :
    record.Numbers name start (value :: values) ↔
      record.get? (name ++ toString start) = some value ∧
        record.Numbers name (start + 1) values := by
  have next : ∀ i, start + (i + 1) = start + 1 + i := fun i => by omega
  constructor
  · intro numbers
    refine ⟨numbers 0 (Nat.zero_lt_succ _), fun i inside => ?_⟩
    rw [← next]
    exact numbers (i + 1) (Nat.succ_lt_succ inside)
  · intro both i inside
    cases i with
    | zero => exact both.1
    | succ i =>
        rw [next]
        exact both.2 i (Nat.lt_of_succ_lt_succ inside)

theorem numbers_nil : record.Numbers name start [] :=
  fun i inside => absurd inside (Nat.not_lt_zero i)

theorem numbers_indexedFrom
    :
    record.Numbers name start (record.indexedFrom name fuel start) := by
  induction fuel generalizing start with
  | zero => exact numbers_nil
  | succ fuel inductionHypothesis =>
      rw [indexedFrom]
      cases here : record.get? (name ++ toString start) with
      | some value => exact numbers_cons_iff.mpr ⟨here, inductionHypothesis⟩
      | none => exact numbers_nil

theorem indexedFrom_of_numbers
    (numbers : record.Numbers name start values)
    (missing : record.get? (name ++ toString (start + values.length)) = none)
    (enough : values.length ≤ fuel) :
    record.indexedFrom name fuel start = values := by
  induction values generalizing fuel start with
  | nil =>
      cases fuel with
      | zero => rfl
      | succ fuel =>
          change record.get? (name ++ toString start) = none at missing
          rw [indexedFrom, missing]
  | cons value values inductionHypothesis =>
      have positive : 0 < fuel := Nat.zero_lt_of_lt enough
      obtain ⟨fuel, rfl⟩ := Nat.exists_eq_succ_of_ne_zero (Nat.ne_of_gt positive)
      rw [numbers_cons_iff] at numbers
      rw [List.length_cons, Nat.add_comm values.length 1, ← Nat.add_assoc] at missing
      rw [indexedFrom, numbers.1]
      exact congrArg _ (inductionHypothesis numbers.2 missing (Nat.le_of_succ_le_succ enough))

/-- The search stops at a missing number or when it runs out of fuel. -/
theorem indexedFrom_stops :
    (record.indexedFrom name fuel start).length = fuel ∨
      record.get? (name ++ toString (start + (record.indexedFrom name fuel start).length)) =
        none := by
  induction fuel generalizing start with
  | zero => exact .inl rfl
  | succ fuel inductionHypothesis =>
      rw [indexedFrom]
      cases here : record.get? (name ++ toString start) with
      | none => exact .inr here
      | some value =>
          rcases @inductionHypothesis (start + 1) with full | missing
          · exact .inl (congrArg (· + 1) full)
          · refine .inr ?_
            rw [Nat.add_assoc, Nat.add_comm 1] at missing
            exact missing

theorem Numbers.get?_eq
    (numbers : record.Numbers name 0 values) {i : Nat} (inside : i < values.length) :
    record.get? (name ++ toString i) = some values[i] := by
  have here := numbers i inside
  rwa [Nat.zero_add] at here

theorem Numbers.exists_get?
    (numbers : record.Numbers name 0 values) :
    ∀ i < values.length, ∃ value, record.get? (name ++ toString i) = some value :=
  fun _ inside => ⟨_, numbers.get?_eq inside⟩

theorem numbers_indexed : record.Numbers name 0 (record.indexed name) :=
  numbers_indexedFrom

end Family

theorem mem_keys_of_get? {record : Record} {key value : String}
    (found : record.get? key = some value) : key ∈ record.fields.map Prod.fst := by
  obtain ⟨front, back, shape, -⟩ := List.lookup_eq_some_iff.mp found
  rw [shape, List.map_append]
  exact List.mem_append_right _ List.mem_cons_self

section Whole

variable {record : Record} {name : String}

/-- There are no more consecutive numbers than fields. -/
theorem le_length_of_numbered
    {n : Nat} (numbered : ∀ i < n, ∃ value, record.get? (name ++ toString i) = some value) :
    n ≤ record.fields.length := by
  have distinct : ((List.range n).map fun i => name ++ toString i).Nodup := by
    refine List.Nodup.map (fun i j same => ?_) List.nodup_range
    exact Text.toString_injective (String.append_right_inj name |>.mp same)
  have included :
      ((List.range n).map fun i => name ++ toString i) ⊆ record.fields.map Prod.fst := by
    intro key member
    obtain ⟨i, inside, rfl⟩ := List.mem_map.mp member
    obtain ⟨value, found⟩ := numbered i (List.mem_range.mp inside)
    exact mem_keys_of_get? found
  have lengths := (List.subperm_of_subset distinct included).length_le
  rwa [List.length_map, List.length_range, List.length_map] at lengths

/-- The search never runs out of fuel in front of a value. -/
theorem get?_length_indexed :
    record.get? (name ++ toString (record.indexed name).length) = none := by
  have stops :
      (record.indexed name).length = record.fields.length ∨
        record.get? (name ++ toString (0 + (record.indexed name).length)) = none :=
    indexedFrom_stops
  rw [Nat.zero_add] at stops
  rcases stops with full | missing
  · by_contra present
    obtain ⟨value, found⟩ := Option.ne_none_iff_exists'.mp present
    have numbered :
        ∀ i < (record.indexed name).length + 1,
          ∃ value, record.get? (name ++ toString i) = some value := by
      intro i inside
      rcases Nat.lt_succ_iff_lt_or_eq.mp inside with earlier | rfl
      · exact numbers_indexed.exists_get? i earlier
      · exact ⟨value, found⟩
    have bound := le_length_of_numbered numbered
    omega
  · exact missing

/-- The numbered values that are read are those in front of the first number
that is missing. -/
theorem indexed_eq_iff {values : List String} :
    record.indexed name = values ↔
      record.Numbers name 0 values ∧
        record.get? (name ++ toString values.length) = none := by
  constructor
  · rintro rfl
    exact ⟨numbers_indexed, get?_length_indexed⟩
  · intro both
    refine indexedFrom_of_numbers both.1 ?_ ?_
    · rw [Nat.zero_add]
      exact both.2
    · exact le_length_of_numbered both.1.exists_get?

theorem length_indexed_eq_iff {n : Nat} :
    (record.indexed name).length = n ↔
      (∀ i < n, ∃ value, record.get? (name ++ toString i) = some value) ∧
        record.get? (name ++ toString n) = none := by
  constructor
  · rintro rfl
    exact ⟨numbers_indexed.exists_get?, get?_length_indexed⟩
  · intro both
    have numbers :
        record.Numbers name 0
          ((List.range n).map fun i => (record.get? (name ++ toString i)).getD "") := by
      intro i inside
      rw [List.length_map, List.length_range] at inside
      obtain ⟨value, found⟩ := both.1 i inside
      rw [Nat.zero_add, List.getElem_map, List.getElem_range, found]
      rfl
    have all := indexed_eq_iff.mpr ⟨numbers, by simpa using both.2⟩
    rw [all, List.length_map, List.length_range]

end Whole

end Record

/-! ## Files of a described changelist -/

/-- The record has the fields of the file under a number. -/
structure Record.Lists (record : Record) (i : Nat) (file : FileRecord) : Prop where
  path : record.get? ("depotFile" ++ toString i) = some file.path
  action : record.get? ("action" ++ toString i) = some file.action
  revision :
    ∃ text, record.get? ("rev" ++ toString i) = some text ∧
      readRevision text = .ok file.revision
  change : file.change = (record.get? "change").getD ""

/-- The names of the numbered fields of a file. -/
def fieldNames : List String :=
  ["depotFile", "action", "rev"]

theorem mapM_eq_ok_iff
    {α β ε : Type} {f : α → Except ε β} {items : List α} {results : List β} :
    items.mapM f = .ok results ↔
      List.Forall₂ (fun item result => f item = .ok result) items results := by
  induction items generalizing results with
  | nil =>
      rw [List.mapM_nil, List.forall₂_nil_left_iff]
      exact ⟨fun same => (Except.ok.inj same).symm, fun same => congrArg Except.ok same.symm⟩
  | cons item items inductionHypothesis =>
      rw [List.mapM_cons, List.forall₂_cons_left_iff]
      constructor
      · intro succeeds
        cases here : f item with
        | error failure =>
            rw [here] at succeeds
            exact nomatch succeeds
        | ok result =>
            cases behind : items.mapM f with
            | error failure =>
                rw [here, behind] at succeeds
                exact nomatch succeeds
            | ok others =>
                rw [here, behind] at succeeds
                cases succeeds
                exact ⟨result, others, rfl, inductionHypothesis.mp behind, rfl⟩
      · rintro ⟨result, others, here, behind, rfl⟩
        rw [here, inductionHypothesis.mpr behind]
        rfl

theorem numberedFile_eq_ok_iff {path text action change : String} {file : FileRecord} :
    (do return { path, revision := ← readRevision text, action, change } :
        Except Failure FileRecord) = .ok file ↔
      file.path = path ∧ file.action = action ∧ readRevision text = .ok file.revision ∧
        file.change = change := by
  cases read : readRevision text with
  | error failure => exact iff_of_false nofun fun both => nomatch both.2.2.1
  | ok revision =>
      constructor
      · intro succeeds
        cases succeeds
        exact ⟨rfl, rfl, rfl, rfl⟩
      · rintro ⟨rfl, rfl, same, rfl⟩
        cases same
        rfl

theorem Record.Lists.exists_values {record : Record} {files : List FileRecord}
    (lists : ∀ i (inside : i < files.length), record.Lists i files[i]) {name : String}
    (known : name ∈ fieldNames) :
    ∀ i < files.length, ∃ value, record.get? (name ++ toString i) = some value := by
  intro i inside
  have here := lists i inside
  rcases List.mem_cons.mp known with rfl | known
  · exact ⟨_, here.path⟩
  rcases List.mem_cons.mp known with rfl | known
  · exact ⟨_, here.action⟩
  obtain rfl := List.mem_singleton.mp known
  obtain ⟨text, found, -⟩ := here.revision
  exact ⟨text, found⟩

/-- The file is made of a path, a revision and an action. -/
def IsMadeOf (change : String) (item : String × String × String) (file : FileRecord) : Prop :=
  file.path = item.1 ∧ file.action = item.2.2 ∧ readRevision item.2.1 = .ok file.revision ∧
    file.change = change

theorem describedFiles_eq_ok_iff_zip {record : Record} {files : List FileRecord} :
    describedFiles record = .ok files ↔
      (record.indexed "rev").length = (record.indexed "depotFile").length ∧
        (record.indexed "action").length = (record.indexed "depotFile").length ∧
          List.Forall₂ (IsMadeOf ((record.get? "change").getD ""))
            ((record.indexed "depotFile").zip
              ((record.indexed "rev").zip (record.indexed "action")))
            files := by
  unfold describedFiles
  by_cases matched :
      (record.indexed "rev").length = (record.indexed "depotFile").length ∧
        (record.indexed "action").length = (record.indexed "depotFile").length
  · have noMismatch :
        ¬ (decide ((record.indexed "rev").length ≠ (record.indexed "depotFile").length) ||
          decide ((record.indexed "action").length ≠ (record.indexed "depotFile").length)) =
            true := by
      simp [matched.1, matched.2]
    simp only [if_neg noMismatch]
    rw [mapM_eq_ok_iff, and_iff_right matched.1, and_iff_right matched.2]
    constructor
    · exact List.Forall₂.imp fun item file made => numberedFile_eq_ok_iff.mp made
    · exact List.Forall₂.imp fun item file made => numberedFile_eq_ok_iff.mpr made
  · have mismatch :
        (decide ((record.indexed "rev").length ≠ (record.indexed "depotFile").length) ||
          decide ((record.indexed "action").length ≠ (record.indexed "depotFile").length)) =
            true := by
      rw [Bool.or_eq_true, decide_eq_true_eq, decide_eq_true_eq, ← not_and_or]
      exact matched
    simp only [if_pos mismatch]
    exact iff_of_false nofun fun both => matched ⟨both.1, both.2.1⟩

theorem lists_of_describedFiles
    {record : Record} {files : List FileRecord}
    (described : describedFiles record = .ok files) :
    (∀ i (inside : i < files.length), record.Lists i files[i]) ∧
      ∀ name ∈ fieldNames, record.get? (name ++ toString files.length) = none := by
  rw [describedFiles_eq_ok_iff_zip, List.forall₂_iff_get] at described
  obtain ⟨revisions, actions, length, made⟩ := described
  rw [List.length_zip, List.length_zip, revisions, actions, Nat.min_self, Nat.min_self]
    at length
  have missing :
      ∀ name, (record.indexed name).length = files.length →
        record.get? (name ++ toString files.length) = none :=
    fun name same => same ▸ Record.get?_length_indexed
  refine ⟨fun i inside => ?_, ?_⟩
  · have inPaths : i < (record.indexed "depotFile").length := length ▸ inside
    have inActions : i < (record.indexed "action").length := actions ▸ inPaths
    have inRevisions : i < (record.indexed "rev").length := revisions ▸ inPaths
    have inZip :
        i < ((record.indexed "depotFile").zip
          ((record.indexed "rev").zip (record.indexed "action"))).length := by
      rw [List.length_zip, List.length_zip]
      omega
    have here := made i inZip inside
    simp only [List.get_eq_getElem, List.getElem_zip] at here
    obtain ⟨path, action, read, change⟩ := here
    refine ⟨?_, ?_, ⟨_, Record.numbers_indexed.get?_eq inRevisions, read⟩, change⟩
    · rw [path]
      exact Record.numbers_indexed.get?_eq inPaths
    · rw [action]
      exact Record.numbers_indexed.get?_eq inActions
  · rw [fieldNames, List.forall_mem_cons, List.forall_mem_cons, List.forall_mem_singleton]
    exact
      ⟨missing _ length, missing _ (actions.trans length),
        missing _ (revisions.trans length)⟩

theorem describedFiles_of_lists
    {record : Record} {files : List FileRecord}
    (lists : ∀ i (inside : i < files.length), record.Lists i files[i])
    (missing : ∀ name ∈ fieldNames, record.get? (name ++ toString files.length) = none) :
    describedFiles record = .ok files := by
  have lengths :
      ∀ name ∈ fieldNames, (record.indexed name).length = files.length :=
    fun name known =>
      Record.length_indexed_eq_iff.mpr
        ⟨Record.Lists.exists_values lists known, missing name known⟩
  rw [fieldNames, List.forall_mem_cons, List.forall_mem_cons, List.forall_mem_singleton]
    at lengths
  obtain ⟨paths, actions, revisions⟩ := lengths
  rw [describedFiles_eq_ok_iff_zip, List.forall₂_iff_get]
  refine ⟨revisions.trans paths.symm, actions.trans paths.symm, ?_, ?_⟩
  · rw [List.length_zip, List.length_zip, revisions, actions, paths, Nat.min_self,
      Nat.min_self]
  · intro i inZip inside
    have here := lists i inside
    obtain ⟨text, found, read⟩ := here.revision
    have revision :=
      Record.numbers_indexed.get?_eq (Nat.lt_of_lt_of_eq inside revisions.symm)
    have path := Record.numbers_indexed.get?_eq (Nat.lt_of_lt_of_eq inside paths.symm)
    have action := Record.numbers_indexed.get?_eq (Nat.lt_of_lt_of_eq inside actions.symm)
    rw [found, Option.some.injEq] at revision
    rw [here.path, Option.some.injEq] at path
    rw [here.action, Option.some.injEq] at action
    simp only [List.get_eq_getElem, List.getElem_zip]
    exact ⟨path, action, revision ▸ read, here.change⟩

/-- A record describes files if it has the fields of each of them under its
number, and no fields under the next number. -/
theorem describedFiles_eq_ok_iff {record : Record} {files : List FileRecord} :
    describedFiles record = .ok files ↔
      (∀ i (inside : i < files.length), record.Lists i files[i]) ∧
        ∀ name ∈ fieldNames, record.get? (name ++ toString files.length) = none :=
  ⟨lists_of_describedFiles, fun both => describedFiles_of_lists both.1 both.2⟩

end ReviewDiff.Perforce
