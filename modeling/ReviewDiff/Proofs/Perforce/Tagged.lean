import Mathlib.Data.List.TakeWhile
import ReviewDiff.Perforce.Tagged
import ReviewDiff.Proofs.Text.Line

/-!
# Tagged output read back

Nothing but a repeated key tells a reader of tagged output that a record is
over.  So the fields of a record that the one before it does not have, up to
the first one that it has, are lent to the record before.  Records whose first
key is always a repeated one lend nothing, and they are read back as they were
printed.
-/

namespace ReviewDiff.Perforce.Record

/-! ## What can be printed -/

/-- A field that tagged output can carry: the key is one word, and the value
neither ends in blank space nor has a further line that looks like a field. -/
structure Printable (field : String × String) : Prop where
  keyBlank : ' ' ∉ field.1.toList
  keyLine : '\n' ∉ field.1.toList
  clean : '\r' ∉ field.2.toList
  trimmed : ∀ c ∈ field.2.toList.getLast?, Text.isBlank c = false
  untagged :
    ∀ line ∈ (Text.split '\n' field.2).tail, Text.startsWith tag line = false

/-- Only the last character is looked at; the instance for statements about every
character would try them all. -/
instance (text : List Char) : Decidable (∀ c ∈ text.getLast?, Text.isBlank c = false) :=
  Option.decidableForallMem text.getLast?

instance (field : String × String) : Decidable (Printable field) :=
  decidable_of_iff
    (' ' ∉ field.1.toList ∧ '\n' ∉ field.1.toList ∧ '\r' ∉ field.2.toList ∧
      (∀ c ∈ field.2.toList.getLast?, Text.isBlank c = false) ∧
        ∀ line ∈ (Text.split '\n' field.2).tail, Text.startsWith tag line = false)
    ⟨fun ⟨blank, line, clean, trimmed, untagged⟩ =>
        ⟨blank, line, clean, trimmed, untagged⟩,
      fun ⟨blank, line, clean, trimmed, untagged⟩ =>
        ⟨blank, line, clean, trimmed, untagged⟩⟩

/-- A record that tagged output can carry. -/
structure Formed (record : Record) : Prop where
  nonempty : record.fields ≠ []
  distinct : (record.fields.map Prod.fst).Nodup
  printable : ∀ field ∈ record.fields, Printable field

instance (record : Record) : Decidable record.Formed :=
  decidable_of_iff
    (record.fields ≠ [] ∧ (record.fields.map Prod.fst).Nodup ∧
      ∀ field ∈ record.fields, Printable field)
    ⟨fun ⟨nonempty, distinct, printable⟩ => ⟨nonempty, distinct, printable⟩,
      fun ⟨nonempty, distinct, printable⟩ => ⟨nonempty, distinct, printable⟩⟩

/-- A field that can be told from its neighbours: the key is one word, and no
further line of the value looks like a field. -/
structure Separable (field : String × String) : Prop where
  keyBlank : ' ' ∉ field.1.toList
  untagged :
    ∀ line ∈ (Text.split '\n' field.2).tail, Text.startsWith tag line = false

/-- A field that is read back up to blank space at its end: the value is one
line, or it has no carriage return and no further line that looks like a
field. -/
structure Legible (field : String × String) : Prop where
  keyBlank : ' ' ∉ field.1.toList
  keyLine : '\n' ∉ field.1.toList
  plain :
    '\n' ∉ field.2.toList ∨
      ('\r' ∉ field.2.toList ∧
        ∀ line ∈ (Text.split '\n' field.2).tail, Text.startsWith tag line = false)

theorem Printable.separable {field : String × String} (printable : Printable field) :
    Separable field :=
  ⟨printable.keyBlank, printable.untagged⟩

theorem Printable.legible {field : String × String} (printable : Printable field) :
    Legible field :=
  ⟨printable.keyBlank, printable.keyLine, .inr ⟨printable.clean, printable.untagged⟩⟩

/-- A field without the carriage return that the end of its last line takes. -/
def unended (field : String × String) : String × String :=
  (field.1, String.ofList (Text.dropCarriageReturn field.2.toList))

theorem unended_of_clean {field : String × String} (clean : '\r' ∉ field.2.toList) :
    unended field = field := by
  rw [unended, Text.dropCarriageReturn_of_notMem clean, String.ofList_toList]

theorem Legible.separable {field : String × String} (legible : Legible field) :
    Separable (unended field) := by
  refine ⟨legible.keyBlank, ?_⟩
  rcases legible.plain with line | ⟨clean, untagged⟩
  · have whole : '\n' ∉ (unended field).2.toList := by
      rw [unended, String.toList_ofList]
      exact fun member => line (Text.mem_of_mem_dropCarriageReturn member)
    rw [Text.split, List.splitOn_eq_singleton whole]
    exact List.forall_mem_nil _
  · rwa [unended_of_clean clean]

/-! ## Lines of printed records -/

/-- A field as lines. -/
def fieldLines (field : String × String) : List String :=
  (Text.split '\n' field.2).modifyHead (tag ++ field.1 ++ " " ++ ·)

/-- A record as lines; the last one is blank. -/
def recordLines (record : Record) : List String :=
  record.fields.flatMap fieldLines ++ [""]

theorem toList_printField (field : String × String) (rest : List Char) :
    (printField field).toList ++ rest =
      (tag ++ field.1 ++ " ").toList ++ (field.2.toList ++ '\n' :: rest) := by
  rw [printField, String.toList_append, String.toList_append, List.append_assoc,
    List.append_assoc]
  rfl

theorem lineFeed_notMem_front {key : String} (keyLine : '\n' ∉ key.toList) :
    '\n' ∉ (tag ++ key ++ " ").toList := by
  have inTag : '\n' ∉ tag.toList := by decide
  have inBlank : '\n' ∉ " ".toList := by decide
  rw [String.toList_append, String.toList_append, List.mem_append, List.mem_append,
    not_or, not_or]
  exact ⟨⟨inTag, keyLine⟩, inBlank⟩

theorem getLast?_front (key : String) :
    (tag ++ key ++ " ").toList.getLast? ≠ some '\r' := by
  rw [String.toList_append, List.getLast?_append_of_ne_nil _ (by decide)]
  decide

theorem linesFrom_printField_of_clean
    {field : String × String} (keyLine : '\n' ∉ field.1.toList)
    (clean : '\r' ∉ field.2.toList) (rest : List Char) :
    (Text.linesFrom [] ((printField field).toList ++ rest)).map String.ofList =
      fieldLines field ++ (Text.linesFrom [] rest).map String.ofList := by
  have goesOn :
      ((tag ++ field.1 ++ " ").toList.reverse ++ []).head? ≠ some '\r' := by
    rw [List.append_nil, List.head?_reverse]
    exact getLast?_front field.1
  rw [toList_printField, Text.linesFrom_append_of_notMem [] (lineFeed_notMem_front keyLine),
    Text.linesFrom_append_lineFeed goesOn clean, List.map_append, fieldLines,
    Text.split, List.append_nil, List.reverse_reverse]
  congr 1
  cases field.2.toList.splitOn '\n' with
  | nil => rfl
  | cons first more =>
      simp only [List.modifyHead_cons, List.map_cons, String.ofList_append,
        String.ofList_toList]

theorem linesFrom_printField_of_line
    {field : String × String} (keyLine : '\n' ∉ field.1.toList)
    (line : '\n' ∉ field.2.toList) (rest : List Char) :
    (Text.linesFrom [] ((printField field).toList ++ rest)).map String.ofList =
      fieldLines (unended field) ++ (Text.linesFrom [] rest).map String.ofList := by
  have whole : '\n' ∉ (tag ++ field.1 ++ " ").toList ++ field.2.toList := by
    rw [List.mem_append, not_or]
    exact ⟨lineFeed_notMem_front keyLine, line⟩
  have heard : '\n' ∉ (unended field).2.toList := by
    rw [unended, String.toList_ofList]
    exact fun member => line (Text.mem_of_mem_dropCarriageReturn member)
  rw [toList_printField, ← List.append_assoc, Text.linesFrom_append_of_notMem [] whole,
    Text.linesFrom, if_pos rfl, List.append_nil, List.reverse_reverse,
    Text.dropCarriageReturn_append (getLast?_front field.1), List.map_cons,
    String.ofList_append, String.ofList_toList, fieldLines, Text.split,
    List.splitOn_eq_singleton heard]
  simp only [List.map_cons, List.map_nil, List.modifyHead_cons, unended, String.ofList_toList,
    List.singleton_append]

theorem linesFrom_printField
    {field : String × String} (legible : Legible field) (rest : List Char) :
    (Text.linesFrom [] ((printField field).toList ++ rest)).map String.ofList =
      fieldLines (unended field) ++ (Text.linesFrom [] rest).map String.ofList := by
  rcases legible.plain with line | ⟨clean, -⟩
  · exact linesFrom_printField_of_line legible.keyLine line rest
  · rw [unended_of_clean clean]
    exact linesFrom_printField_of_clean legible.keyLine clean rest

theorem linesFrom_printFields
    {fields : List (String × String)} (legible : ∀ field ∈ fields, Legible field)
    (rest : List Char) :
    (Text.linesFrom [] ((String.join (fields.map printField)).toList ++ rest)).map
        String.ofList =
      (fields.map unended).flatMap fieldLines ++
        (Text.linesFrom [] rest).map String.ofList := by
  rw [String.toList_join, List.flatMap_map]
  induction fields with
  | nil => rfl
  | cons field fields inductionHypothesis =>
      rw [List.forall_mem_cons] at legible
      rw [List.flatMap_cons, List.append_assoc, linesFrom_printField legible.1,
        inductionHypothesis legible.2, List.map_cons, List.flatMap_cons, List.append_assoc]

theorem lines_printAll
    {records : List Record}
    (legible : ∀ record ∈ records, ∀ field ∈ record.fields, Legible field) :
    Text.lines (printAll records) =
      records.flatMap fun record => recordLines ⟨record.fields.map unended⟩ := by
  rw [Text.lines, printAll, String.toList_join, List.flatMap_map]
  induction records with
  | nil => rfl
  | cons record rest inductionHypothesis =>
      rw [List.forall_mem_cons] at legible
      have shape :
          record.print.toList ++ rest.flatMap (fun other => other.print.toList) =
            (String.join (record.fields.map printField)).toList ++
              '\n' :: rest.flatMap (fun other => other.print.toList) := by
        rw [print, String.toList_append, List.append_assoc]
        rfl
      rw [List.flatMap_cons, shape, linesFrom_printFields legible.1, Text.linesFrom,
        if_pos rfl, List.map_cons, inductionHypothesis legible.2, List.flatMap_cons,
        recordLines, List.append_assoc]
      rfl

theorem map_unended_of_printable
    {fields : List (String × String)} (printable : ∀ field ∈ fields, Printable field) :
    fields.map unended = fields := by
  calc
    fields.map unended = fields.map id :=
      List.map_congr_left fun field member => unended_of_clean (printable field member).clean
    _ = fields := List.map_id fields

/-! ## Reading the lines of a record -/

theorem readField_append
    {key : String} (oneWord : ' ' ∉ key.toList) (value : String) :
    readField (key ++ " " ++ value) = (key, value) := by
  have shape : (key ++ " " ++ value).toList = key.toList ++ ' ' :: value.toList := by
    rw [String.toList_append, String.toList_append, List.append_assoc]
    rfl
  have found :
      Text.cutList? " ".toList (key ++ " " ++ value).toList =
        some (key.toList, value.toList) := by
    rw [shape]
    exact Text.cutList?_append oneWord value.toList
  rw [readField, Text.cut?, found]
  simp only [Option.map_some, Option.getD_some, String.ofList_toList]

/-- Lines without a tag go on with the last value. -/
theorem readLines_untagged
    (key value : String) (others : List (String × String)) {more : List String}
    (untagged : ∀ line ∈ more, Text.startsWith tag line = false)
    (rest : List String) :
    readLines ((key, value) :: others) (more ++ rest) =
      readLines ((key, String.intercalate "\n" (value :: more)) :: others) rest := by
  induction more generalizing value with
  | nil => rfl
  | cons line more inductionHypothesis =>
      rw [List.forall_mem_cons] at untagged
      rw [List.cons_append, readLines, Text.after?_eq_none untagged.1]
      exact inductionHypothesis (value ++ "\n" ++ line) untagged.2

theorem any_key_iff {gathered : List (String × String)} {key : String} :
    (gathered.any (·.1 = key)) = true ↔ key ∈ gathered.map Prod.fst := by
  rw [List.any_eq_true, List.mem_map]
  simp only [decide_eq_true_eq]

/-- What a field does to the record under way, once its further lines are
read. -/
theorem readLines_fieldLines
    {field : String × String} (separable : Separable field)
    (gathered : List (String × String)) (rest : List String) :
    readLines gathered (fieldLines field ++ rest) =
      if field.1 ∈ gathered.map Prod.fst then
        ofGathered gathered :: readLines [field] rest
      else readLines (field :: gathered) rest := by
  obtain ⟨key, value⟩ := field
  obtain ⟨first, more, shape⟩ := Text.exists_split value
  have untagged := separable.untagged
  have whole : String.intercalate "\n" (first :: more) = value := by
    rw [← shape]
    exact Text.intercalate_split value
  have lines : fieldLines (key, value) = (tag ++ (key ++ " " ++ first)) :: more := by
    simp only [fieldLines, shape, List.modifyHead_cons, String.append_assoc]
  rw [shape, List.tail_cons] at untagged
  rw [lines, List.cons_append, readLines.eq_def]
  simp only [Text.after?_append, readField_append separable.keyBlank, any_key_iff,
    readLines_untagged key first _ untagged, whole]

/-- Fields of new keys join the record under way. -/
theorem readLines_flatMap_fieldLines
    {fields : List (String × String)} (separable : ∀ field ∈ fields, Separable field)
    (distinct : (fields.map Prod.fst).Nodup)
    {gathered : List (String × String)}
    (unseen : ∀ field ∈ fields, field.1 ∉ gathered.map Prod.fst)
    (rest : List String) :
    readLines gathered (fields.flatMap fieldLines ++ rest) =
      readLines (fields.reverse ++ gathered) rest := by
  induction fields generalizing gathered with
  | nil => rfl
  | cons field fields inductionHypothesis =>
      rw [List.forall_mem_cons] at separable unseen
      rw [List.map_cons, List.nodup_cons] at distinct
      have stillUnseen :
          ∀ other ∈ fields, other.1 ∉ (field :: gathered).map Prod.fst := by
        intro other member
        rw [List.map_cons, List.mem_cons, not_or]
        refine ⟨?_, unseen.2 other member⟩
        intro same
        apply distinct.1
        rw [← same]
        exact List.mem_map_of_mem member
      rw [List.flatMap_cons, List.append_assoc, readLines_fieldLines separable.1,
        if_neg unseen.1, inductionHypothesis separable.2 distinct.2 stillUnseen,
        List.reverse_cons, List.append_assoc, List.singleton_append]

/-- The fields that were gathered when a blank line comes. -/
def beforeBlank : List (String × String) → List (String × String)
  | [] => []
  | (key, value) :: others => (key, value ++ "\n" ++ "") :: others

theorem readLines_blank
    (gathered : List (String × String)) (rest : List String) :
    readLines gathered ("" :: rest) = readLines (beforeBlank gathered) rest := by
  cases gathered <;> rfl

/-- Blank lines do not count. -/
theorem ofGathered_beforeBlank (gathered : List (String × String)) :
    ofGathered (beforeBlank gathered) = ofGathered gathered := by
  cases gathered with
  | nil => rfl
  | cons field others =>
      obtain ⟨key, value⟩ := field
      have trimmed : Text.trimEnd (value ++ "\n" ++ "") = Text.trimEnd value := by
        have shape : (value ++ "\n" ++ "").toList = value.toList ++ ['\n'] := by
          rw [String.toList_append, String.toList_append, List.append_assoc]
          rfl
        rw [Text.trimEnd, shape, Text.dropBlankEnd_append_blank value.toList (by decide)]
        rfl
      simp only [beforeBlank, ofGathered, List.map_cons, trimmed]

theorem Printable.trimEnd_eq
    {field : String × String} (printable : Printable field) :
    Text.trimEnd field.2 = field.2 := by
  rw [Text.trimEnd, Text.dropBlankEnd_of_visible printable.trimmed, String.ofList_toList]

theorem ofGathered_append
    {fields gathered current : List (String × String)}
    (printable : ∀ field ∈ fields, Printable field)
    (gathers : ofGathered gathered = ⟨current⟩) :
    ofGathered (fields.reverse ++ gathered) = ⟨current ++ fields⟩ := by
  have kept :
      fields.map (fun field => (field.1, Text.trimEnd field.2)) = fields := by
    calc
      fields.map (fun field => (field.1, Text.trimEnd field.2)) =
          fields.map fun field => field := by
        apply List.map_congr_left
        intro field member
        rw [(printable field member).trimEnd_eq]
      _ = fields := List.map_id fields
  rw [ofGathered, Record.mk.injEq] at gathers ⊢
  rw [List.map_append, List.reverse_append, gathers, List.map_reverse, List.reverse_reverse]
  exact congrArg (current ++ ·) kept

theorem mem_keys_iff
    {gathered current : List (String × String)}
    (gathers : ofGathered gathered = ⟨current⟩) {key : String} :
    key ∈ gathered.map Prod.fst ↔ key ∈ current.map Prod.fst := by
  rw [ofGathered, Record.mk.injEq] at gathers
  rw [← gathers, List.map_reverse, List.mem_reverse, List.map_map]
  rfl

/-! ## Which record gets a field -/

/-- The fields that a record lends to the record under way: those in front of
the first repeated key. -/
def lent (current : List (String × String)) (record : Record) :
    List (String × String) :=
  record.fields.takeWhile fun field => field.1 ∉ current.map Prod.fst

/-- The fields that a record keeps. -/
def kept (current : List (String × String)) (record : Record) :
    List (String × String) :=
  record.fields.dropWhile fun field => field.1 ∉ current.map Prod.fst

/-- Printed records as they are read, when `current` holds the fields of the
record under way. -/
def regroup (current : List (String × String)) : List Record → List Record
  | [] => if current = [] then [] else [⟨current⟩]
  | record :: rest =>
      if kept current record = [] then regroup (current ++ record.fields) rest
      else ⟨current ++ lent current record⟩ :: regroup (kept current record) rest

theorem lent_append_kept (current : List (String × String)) (record : Record) :
    lent current record ++ kept current record = record.fields :=
  List.takeWhile_append_dropWhile

theorem notMem_keys_of_mem_lent
    {current : List (String × String)} {record : Record}
    {field : String × String} (member : field ∈ lent current record) :
    field.1 ∉ current.map Prod.fst := by
  rw [lent] at member
  have passes := List.mem_takeWhile_imp member
  exact of_decide_eq_true passes

theorem mem_keys_of_kept
    {current fields : List (String × String)} {record : Record}
    {field : String × String} (shape : kept current record = field :: fields) :
    field.1 ∈ current.map Prod.fst := by
  have stops := List.head?_dropWhile_not
    (fun field => decide (field.1 ∉ current.map Prod.fst)) record.fields
  rw [kept] at shape
  rw [shape] at stops
  exact not_not.mp (of_decide_eq_false stops)

theorem lent_of_kept_nil
    {current : List (String × String)} {record : Record}
    (nothing : kept current record = []) :
    lent current record = record.fields := by
  have whole := lent_append_kept current record
  rwa [nothing, List.append_nil] at whole

/-- The first record keeps nothing back. -/
theorem regroup_first (first : Record) (rest : List Record) :
    regroup [] (first :: rest) = regroup first.fields rest := by
  have nothing : kept [] first = [] := List.dropWhile_eq_nil_iff.mpr (by simp)
  rw [regroup, if_pos nothing, List.nil_append]

section Step

variable {record : Record} (formed : record.Formed)
  {gathered current : List (String × String)} (gathers : ofGathered gathered = ⟨current⟩)

include formed

theorem Formed.lent_and_kept (current : List (String × String)) :
    ((lent current record).map Prod.fst).Nodup ∧
      ((kept current record).map Prod.fst).Nodup ∧
        (∀ field ∈ lent current record, Printable field) ∧
          ∀ field ∈ kept current record, Printable field := by
  obtain ⟨_, distinct, printable⟩ := formed
  rw [← lent_append_kept current record] at distinct printable
  rw [List.map_append, List.nodup_append] at distinct
  rw [List.forall_mem_append] at printable
  exact ⟨distinct.1, distinct.2.1, printable⟩

include gathers

/-- The fields in front of the first repeated key join the record under way. -/
theorem readLines_lent (rest : List String) :
    readLines gathered ((lent current record).flatMap fieldLines ++ rest) =
        readLines ((lent current record).reverse ++ gathered) rest ∧
      ofGathered ((lent current record).reverse ++ gathered) =
        ⟨current ++ lent current record⟩ := by
  obtain ⟨distinct, _, printable, _⟩ := formed.lent_and_kept current
  have unseen :
      ∀ field ∈ lent current record, field.1 ∉ gathered.map Prod.fst := by
    intro field member seen
    exact notMem_keys_of_mem_lent member ((mem_keys_iff gathers).mp seen)
  have separable : ∀ field ∈ lent current record, Separable field :=
    fun field member => (printable field member).separable
  exact ⟨readLines_flatMap_fieldLines separable distinct unseen rest,
    ofGathered_append printable gathers⟩

/-- A record without a repeated key goes on with the record under way. -/
theorem readLines_joined
    (nothing : kept current record = []) (rest : List String) :
    ∃ after, ofGathered after = ⟨current ++ record.fields⟩ ∧
      readLines gathered (recordLines record ++ rest) = readLines after rest := by
  obtain ⟨reads, borrowed⟩ := readLines_lent formed gathers ("" :: rest)
  rw [lent_of_kept_nil nothing] at reads borrowed
  refine ⟨beforeBlank (record.fields.reverse ++ gathered), ?_, ?_⟩
  · rw [ofGathered_beforeBlank, borrowed]
  · rw [recordLines, List.append_assoc, List.singleton_append, reads, readLines_blank]

/-- The first repeated key ends the record under way. -/
theorem readLines_closed
    (something : kept current record ≠ []) (rest : List String) :
    ∃ after, ofGathered after = ⟨kept current record⟩ ∧
      readLines gathered (recordLines record ++ rest) =
        ⟨current ++ lent current record⟩ :: readLines after rest := by
  obtain ⟨_, distinct, _, printable⟩ := formed.lent_and_kept current
  obtain ⟨field, fields, shape⟩ := List.exists_cons_of_ne_nil something
  have seen : field.1 ∈ ((lent current record).reverse ++ gathered).map Prod.fst := by
    rw [List.map_append, List.mem_append]
    exact Or.inr ((mem_keys_iff gathers).mpr (mem_keys_of_kept shape))
  rw [shape] at distinct printable ⊢
  rw [List.map_cons, List.nodup_cons] at distinct
  rw [List.forall_mem_cons] at printable
  have others : ∀ other ∈ fields, other.1 ∉ [field].map Prod.fst := by
    intro other member same
    apply distinct.1
    rw [← List.mem_singleton.mp same]
    exact List.mem_map_of_mem member
  have opened : ofGathered [field] = ⟨[] ++ [field]⟩ :=
    ofGathered_append (List.forall_mem_singleton.mpr printable.1) rfl
  obtain ⟨reads, borrowed⟩ :=
    readLines_lent formed gathers ((field :: fields).flatMap fieldLines ++ "" :: rest)
  have lines :
      recordLines record ++ rest =
        (lent current record).flatMap fieldLines ++
          ((field :: fields).flatMap fieldLines ++ "" :: rest) := by
    rw [recordLines, ← lent_append_kept current record, shape, List.flatMap_append,
      List.append_assoc, List.append_assoc, List.singleton_append]
  refine ⟨beforeBlank (fields.reverse ++ [field]), ?_, ?_⟩
  · rw [ofGathered_beforeBlank, ofGathered_append printable.2 opened]
    rfl
  · have separable : ∀ other ∈ fields, Separable other :=
      fun other member => (printable.2 other member).separable
    rw [lines, reads, List.flatMap_cons, List.append_assoc,
      readLines_fieldLines printable.1.separable, if_pos seen, borrowed,
      readLines_flatMap_fieldLines separable distinct.2 others, readLines_blank]

end Step

/-- The reader gives records back as regrouped ones. -/
theorem readLines_eq_regroup
    {records : List Record} (formed : ∀ record ∈ records, record.Formed)
    {gathered current : List (String × String)}
    (gathers : ofGathered gathered = ⟨current⟩) :
    readLines gathered (records.flatMap recordLines) = regroup current records := by
  induction records generalizing gathered current with
  | nil =>
      rw [List.flatMap_nil, readLines, regroup, ← gathers]
      rw [ofGathered, Record.mk.injEq] at gathers
      rw [← gathers]
      cases gathered <;> simp
  | cons record rest inductionHypothesis =>
      rw [List.forall_mem_cons] at formed
      rw [List.flatMap_cons, regroup]
      by_cases nothing : kept current record = []
      · obtain ⟨after, spells, reads⟩ :=
          readLines_joined formed.1 gathers nothing (rest.flatMap recordLines)
        rw [if_pos nothing, reads]
        exact inductionHypothesis formed.2 spells
      · obtain ⟨after, spells, reads⟩ :=
          readLines_closed formed.1 gathers nothing (rest.flatMap recordLines)
        rw [if_neg nothing, reads, inductionHypothesis formed.2 spells]

/-- Printed records are read as regrouped ones. -/
theorem readAll_eq_regroup
    {records : List Record} (formed : ∀ record ∈ records, record.Formed) :
    readAll (printAll records) = regroup [] records := by
  have legible : ∀ record ∈ records, ∀ field ∈ record.fields, Legible field :=
    fun record isRecord field isField =>
      ((formed record isRecord).printable field isField).legible
  have lines :
      (records.flatMap fun record => recordLines ⟨record.fields.map unended⟩) =
        records.flatMap recordLines :=
    List.flatMap_congr fun record member => by
      rw [map_unended_of_printable (formed record member).printable]
  rw [readAll, lines_printAll legible, lines]
  exact readLines_eq_regroup formed rfl

/-! ## One record -/

/-- A record without blank space at the ends of its values. -/
def trimmed (record : Record) : Record :=
  ⟨record.fields.map fun field => (field.1, Text.trimEnd field.2)⟩

theorem trimEnd_unended (field : String × String) :
    ((unended field).1, Text.trimEnd (unended field).2) = (field.1, Text.trimEnd field.2) := by
  simp only [unended, Text.trimEnd, String.toList_ofList, Text.dropBlankEnd_dropCarriageReturn]

/-- A record that stands alone is read back up to blank space. -/
theorem readAll_printAll_singleton
    {record : Record} (nonempty : record.fields ≠ [])
    (distinct : (record.fields.map Prod.fst).Nodup)
    (legible : ∀ field ∈ record.fields, Legible field) :
    readAll (printAll [record]) = [record.trimmed] := by
  have separable : ∀ field ∈ record.fields.map unended, Separable field := by
    intro field member
    obtain ⟨printed, isField, rfl⟩ := List.mem_map.mp member
    exact (legible printed isField).separable
  have sameKeys : (record.fields.map unended).map Prod.fst = record.fields.map Prod.fst := by
    rw [List.map_map]
    rfl
  have gathers :
      ofGathered (record.fields.map unended).reverse = record.trimmed := by
    rw [ofGathered, List.map_reverse, List.reverse_reverse, List.map_map, trimmed]
    exact congrArg Record.mk (List.map_congr_left fun field _ => trimEnd_unended field)
  have isOpen : (beforeBlank (record.fields.map unended).reverse).isEmpty = false := by
    cases shape : (record.fields.map unended).reverse with
    | nil =>
        rw [List.reverse_eq_nil_iff, List.map_eq_nil_iff] at shape
        exact absurd shape nonempty
    | cons field others => rfl
  rw [readAll, lines_printAll (List.forall_mem_singleton.mpr legible), List.flatMap_singleton,
    recordLines, readLines_flatMap_fieldLines separable (sameKeys.symm ▸ distinct)
      (fun _ _ => List.not_mem_nil), List.append_nil, readLines_blank, readLines, isOpen,
    ofGathered_beforeBlank, gathers]
  rfl

/-! ## Records that lend nothing -/

/-- The first key of a record also stands in the record before. -/
def Announces (before after : Record) : Prop :=
  ∀ field ∈ after.fields.head?, before.has field.1 = true

instance (before after : Record) : Decidable (Announces before after) :=
  inferInstanceAs (Decidable (∀ field ∈ after.fields.head?, before.has field.1 = true))

theorem regroup_of_announced
    {current : List (String × String)} (underWay : current ≠ [])
    {records : List Record} (nonempty : ∀ record ∈ records, record.fields ≠ [])
    (announced : (⟨current⟩ :: records).IsChain Announces) :
    regroup current records = ⟨current⟩ :: records := by
  induction records generalizing current with
  | nil => rw [regroup, if_neg underWay]
  | cons record rest inductionHypothesis =>
      rw [List.isChain_cons_cons] at announced
      rw [List.forall_mem_cons] at nonempty
      obtain ⟨fields⟩ := record
      obtain ⟨field, fields, rfl⟩ := List.exists_cons_of_ne_nil nonempty.1
      have seen : field.1 ∈ current.map Prod.fst :=
        any_key_iff.mp (announced.1 field rfl)
      have keeps : kept current ⟨field :: fields⟩ = field :: fields :=
        List.dropWhile_cons_of_neg (by simpa using seen)
      have lends : lent current ⟨field :: fields⟩ = [] :=
        List.takeWhile_cons_of_neg (by simpa using seen)
      rw [regroup, keeps, lends, if_neg (List.cons_ne_nil field fields), List.append_nil,
        inductionHypothesis (List.cons_ne_nil field fields) nonempty.2 announced.2]

/-- Records that can be printed and whose first keys are repeated ones are read
back as they were printed. -/
theorem readAll_printAll
    {records : List Record} (formed : ∀ record ∈ records, record.Formed)
    (announced : records.IsChain Announces) :
    readAll (printAll records) = records := by
  rw [readAll_eq_regroup formed]
  cases records with
  | nil => rfl
  | cons first rest =>
      rw [List.forall_mem_cons] at formed
      have nonempty : ∀ record ∈ rest, record.fields ≠ [] :=
        fun record member => (formed.2 record member).nonempty
      rw [regroup_first]
      exact regroup_of_announced formed.1.nonempty nonempty announced

/-- A changelist with a description of several lines, one with a description
that looks much like a field, and one without a user. -/
def describedChanges : List Record :=
  [⟨[("change", "12"), ("desc", "First line\n\nSecond  paragraph"), ("shelved", "")]⟩,
    ⟨[("desc", "... not a field\n ... nor this\n...nor this"), ("user", "ann")]⟩,
    ⟨[("user", ""), ("change", "13")]⟩]

theorem readAll_describedChanges :
    (∀ record ∈ describedChanges, record.Formed) ∧
      describedChanges.IsChain Announces ∧
        readAll (printAll describedChanges) = describedChanges := by
  have formed : ∀ record ∈ describedChanges, record.Formed := by decide
  have announced : describedChanges.IsChain Announces := by decide
  exact ⟨formed, announced, readAll_printAll formed announced⟩

end ReviewDiff.Perforce.Record
