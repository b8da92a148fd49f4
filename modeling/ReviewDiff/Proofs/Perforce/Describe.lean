import ReviewDiff.Proofs.Perforce.Mapping
import ReviewDiff.Proofs.Perforce.Numbered
import ReviewDiff.Proofs.Revision

/-!
# Described changelists

A changelist is described by one record: some fields about the changelist, then
three numbered fields for each file.  The files are read back in the order of
their numbers, however many there are and wherever their fields stand in the
record.  Whatever else a server prints, a file that is told of has its own three
fields in the first record.

* `describedFiles_printed` reads a printed changelist back.
* `describe_answers` says this of both commands that describe changelists.
-/

namespace ReviewDiff.Perforce

/-! ## A changelist as it is printed -/

/-- A file as it is printed: its revision is a number, or `none` before the
first one. -/
structure PrintedFile where
  path : String
  action : String
  revision : Nat
  revisionText : String

/-- A changelist as it is printed. -/
structure PrintedChange where
  change : String
  user : String
  status : String
  description : String
  files : List PrintedFile

/-- The fields of a file with a number. -/
def PrintedFile.fields (file : PrintedFile) (i : Nat) : List (String × String) :=
  [("depotFile" ++ toString i, file.path), ("action" ++ toString i, file.action),
    ("rev" ++ toString i, file.revisionText)]

/-- The fields of files that are numbered from a start. -/
def numberedFields (start : Nat) : List PrintedFile → List (String × String)
  | [] => []
  | file :: files => file.fields start ++ numberedFields (start + 1) files

/-- The fields that are not numbered. -/
def PrintedChange.heading (printed : PrintedChange) : List (String × String) :=
  [("change", printed.change), ("user", printed.user), ("status", printed.status),
    ("desc", printed.description)]

/-- All fields of a changelist. -/
def PrintedChange.fields (printed : PrintedChange) : List (String × String) :=
  printed.heading ++ numberedFields 0 printed.files

/-- The files that a changelist holds. -/
def PrintedChange.records (printed : PrintedChange) : List FileRecord :=
  printed.files.map fun file => ⟨file.path, file.revision, file.action, printed.change⟩

/-! ## What can be printed -/

/-- A value of one line that has no blank space at its end. -/
structure Plain (value : String) : Prop where
  line : '\n' ∉ value.toList
  visible : ∀ c ∈ value.toList.getLast?, Text.isBlank c = false

instance (value : String) : Decidable (Plain value) :=
  decidable_of_iff
    ('\n' ∉ value.toList ∧ ∀ c ∈ value.toList.getLast?, Text.isBlank c = false)
    ⟨fun both => ⟨both.1, both.2⟩, fun plain => ⟨plain.line, plain.visible⟩⟩

/-- A file that can be printed. -/
structure PrintedFile.Sound (file : PrintedFile) : Prop where
  path : Plain file.path
  action : Plain file.action
  fits : file.revision ≤ Text.max64
  spelled :
    file.revisionText = toString file.revision ∨
      (file.revisionText = "none" ∧ file.revision = 0)

instance (file : PrintedFile) : Decidable file.Sound :=
  decidable_of_iff
    (Plain file.path ∧ Plain file.action ∧ file.revision ≤ Text.max64 ∧
      (file.revisionText = toString file.revision ∨
        (file.revisionText = "none" ∧ file.revision = 0)))
    ⟨fun all => ⟨all.1, all.2.1, all.2.2.1, all.2.2.2⟩,
      fun sound => ⟨sound.path, sound.action, sound.fits, sound.spelled⟩⟩

/-- A changelist that can be printed. -/
structure PrintedChange.Sound (printed : PrintedChange) : Prop where
  change : Plain printed.change
  user : '\n' ∉ printed.user.toList
  status : '\n' ∉ printed.status.toList
  clean : '\r' ∉ printed.description.toList
  untagged :
    ∀ line ∈ (Text.split '\n' printed.description).tail,
      Text.startsWith Record.tag line = false
  files : ∀ file ∈ printed.files, file.Sound

theorem Plain.trimEnd_eq
    {value : String} (plain : Plain value) :
    Text.trimEnd value = value := by
  rw [Text.trimEnd, Text.dropBlankEnd_of_visible plain.visible, String.ofList_toList]

theorem isBlank_of_isDigit {c : Char} (digit : c.isDigit = true) : Text.isBlank c = false := by
  have bounds : 48 ≤ c.toNat ∧ c.toNat ≤ 57 := by
    simpa [Char.isDigit, UInt32.le_iff_toNat_le] using digit
  have beside : ∀ range ∈ Text.blankRanges, range.2 < 48 ∨ 57 < range.1 := by decide
  rw [Text.isBlank, List.any_eq_false]
  intro range member
  rw [Bool.and_eq_true, decide_eq_true_eq, decide_eq_true_eq]
  have apart := beside range member
  omega

theorem plain_toString (n : Nat) : Plain (toString n) := by
  refine ⟨Text.notMem_toString_of_not_isDigit (by decide) n, fun c last => ?_⟩
  exact isBlank_of_isDigit (Text.isDigit_of_mem_toString (List.mem_of_getLast? last))

theorem PrintedFile.Sound.plain_revisionText {file : PrintedFile} (sound : file.Sound) :
    Plain file.revisionText := by
  rcases sound.spelled with number | ⟨unborn, -⟩
  · rw [number]
    exact plain_toString file.revision
  · rw [unborn]
    exact ⟨by decide, by decide⟩

theorem PrintedFile.Sound.readRevision_eq {file : PrintedFile} (sound : file.Sound) :
    readRevision file.revisionText = .ok file.revision := by
  rcases sound.spelled with number | ⟨unborn, zero⟩
  · have digits : toString file.revision ≠ "none" := by
      intro same
      have letter : 'n' ∈ (toString file.revision).toList := by
        rw [same]
        decide
      exact Text.notMem_toString_of_not_isDigit (by decide) file.revision letter
    rw [number, readRevision, if_neg digits, Text.readNat64?,
      Text.readNat?_toString sound.fits]
  · rw [unborn, zero, readRevision, if_pos rfl]

/-! ## Keys -/

/-- The first characters of a key.  They tell the names of fields apart. -/
def initials (key : String) : List Char :=
  key.toList.take 3

theorem initials_numbered {name : String} (known : name ∈ fieldNames) (i : Nat) :
    initials (name ++ toString i) = initials name := by
  have long : 3 ≤ name.toList.length := by
    have all : ∀ name ∈ fieldNames, 3 ≤ name.toList.length := by decide
    exact all name known
  rw [initials, String.toList_append, List.take_append_of_le_length long]
  rfl

theorem numberedKey_inj
    {name other : String} (known : name ∈ fieldNames) (otherKnown : other ∈ fieldNames)
    {i j : Nat} (same : name ++ toString i = other ++ toString j) :
    name = other ∧ i = j := by
  have all :
      ∀ name ∈ fieldNames, ∀ other ∈ fieldNames,
        initials name = initials other → name = other := by
    decide
  have start := congrArg initials same
  rw [initials_numbered known, initials_numbered otherKnown] at start
  obtain rfl := all name known other otherKnown start
  exact ⟨rfl, Text.toString_injective ((String.append_right_inj name).mp same)⟩

theorem mem_keys_fields
    {file : PrintedFile} {i : Nat} {key : String}
    (member : key ∈ (file.fields i).map Prod.fst) :
    ∃ name ∈ fieldNames, key = name ++ toString i := by
  rcases List.mem_cons.mp member with same | member
  · exact ⟨"depotFile", by decide, same⟩
  rcases List.mem_cons.mp member with same | member
  · exact ⟨"action", by decide, same⟩
  exact ⟨"rev", by decide, List.mem_singleton.mp member⟩

theorem mem_keys_numberedFields
    {start : Nat} {files : List PrintedFile} {key : String}
    (member : key ∈ (numberedFields start files).map Prod.fst) :
    ∃ i < files.length, ∃ name ∈ fieldNames, key = name ++ toString (start + i) := by
  induction files generalizing start with
  | nil => exact absurd member List.not_mem_nil
  | cons file files inductionHypothesis =>
      rw [numberedFields, List.map_append, List.mem_append] at member
      rcases member with here | later
      · exact ⟨0, Nat.zero_lt_succ _, mem_keys_fields here⟩
      · obtain ⟨i, inside, name, known, same⟩ := inductionHypothesis later
        refine ⟨i + 1, Nat.succ_lt_succ inside, name, known, ?_⟩
        rw [same, Nat.add_assoc, Nat.add_comm 1 i]

theorem mem_numberedFields
    {start i : Nat} {files : List PrintedFile} (inside : i < files.length)
    {field : String × String} (member : field ∈ files[i].fields (start + i)) :
    field ∈ numberedFields start files := by
  induction files generalizing start i with
  | nil => exact absurd inside (Nat.not_lt_zero i)
  | cons file files inductionHypothesis =>
      rw [numberedFields, List.mem_append]
      cases i with
      | zero => exact .inl member
      | succ i =>
          refine .inr (inductionHypothesis (Nat.lt_of_succ_lt_succ inside) ?_)
          rw [Nat.add_assoc, Nat.add_comm 1 i]
          exact member

theorem nodup_keys_fields (file : PrintedFile) (i : Nat) :
    ((file.fields i).map Prod.fst).Nodup := by
  have different :
      ∀ name ∈ fieldNames, ∀ other ∈ fieldNames, name ≠ other →
        name ++ toString i ≠ other ++ toString i :=
    fun name known other otherKnown apart same =>
      apart (numberedKey_inj known otherKnown same).1
  simp only [PrintedFile.fields, List.map_cons, List.map_nil, List.nodup_cons, List.mem_cons,
    List.not_mem_nil, or_false, not_or, not_false_eq_true, List.nodup_nil, and_true]
  exact
    ⟨⟨different _ (by decide) _ (by decide) (by decide),
      different _ (by decide) _ (by decide) (by decide)⟩,
      different _ (by decide) _ (by decide) (by decide)⟩

theorem nodup_keys_numberedFields (start : Nat) (files : List PrintedFile) :
    ((numberedFields start files).map Prod.fst).Nodup := by
  induction files generalizing start with
  | nil => exact List.nodup_nil
  | cons file files inductionHypothesis =>
      rw [numberedFields, List.map_append, List.nodup_append]
      refine ⟨nodup_keys_fields file start, inductionHypothesis (start + 1), ?_⟩
      intro key here other later same
      obtain ⟨name, known, rfl⟩ := mem_keys_fields here
      obtain ⟨i, -, name', known', shape⟩ := mem_keys_numberedFields later
      have numbers := (numberedKey_inj known known' (same.trans shape)).2
      omega

/-! ## The record of a changelist -/

section Printed

variable {printed : PrintedChange}

theorem initials_heading {key : String} (member : key ∈ printed.heading.map Prod.fst)
    {name : String} (known : name ∈ fieldNames) (i : Nat) :
    key ≠ name ++ toString i := by
  have all :
      ∀ key ∈ ["change", "user", "status", "desc"], ∀ name ∈ fieldNames,
        initials key ≠ initials name := by
    decide
  intro same
  have start := congrArg initials same
  rw [initials_numbered known] at start
  exact all key member name known start

theorem nodup_keys : (printed.fields.map Prod.fst).Nodup := by
  have heading : (printed.heading.map Prod.fst).Nodup := by
    change ["change", "user", "status", "desc"].Nodup
    decide
  rw [PrintedChange.fields, List.map_append, List.nodup_append]
  refine ⟨heading, nodup_keys_numberedFields 0 printed.files, ?_⟩
  intro key here other later same
  obtain ⟨i, -, name, known, shape⟩ := mem_keys_numberedFields later
  exact initials_heading here known _ (same.trans shape)

/-- There are no fields behind those of the last file. -/
theorem numbered_notMem_keys {name : String} (known : name ∈ fieldNames) :
    name ++ toString printed.files.length ∉ printed.fields.map Prod.fst := by
  intro member
  rw [PrintedChange.fields, List.map_append, List.mem_append] at member
  rcases member with heading | numbered
  · exact initials_heading heading known _ rfl
  · obtain ⟨i, inside, name', known', shape⟩ := mem_keys_numberedFields numbered
    have numbers := (numberedKey_inj known known' shape).2
    omega

theorem legible_of_line
    {key value : String} (keyBlank : ' ' ∉ key.toList) (keyLine : '\n' ∉ key.toList)
    (line : '\n' ∉ value.toList) :
    Record.Legible (key, value) :=
  ⟨keyBlank, keyLine, .inl line⟩

theorem legible_numbered
    {name value : String} (known : name ∈ fieldNames) (line : '\n' ∉ value.toList) (i : Nat) :
    Record.Legible (name ++ toString i, value) := by
  have all : ∀ name ∈ fieldNames, ' ' ∉ name.toList ∧ '\n' ∉ name.toList := by decide
  have oneWord := all name known
  apply legible_of_line
  · rw [String.toList_append, List.mem_append, not_or]
    exact ⟨oneWord.1, Text.notMem_toString_of_not_isDigit (by decide) i⟩
  · rw [String.toList_append, List.mem_append, not_or]
    exact ⟨oneWord.2, Text.notMem_toString_of_not_isDigit (by decide) i⟩
  · exact line

theorem legible_numberedFields
    {files : List PrintedFile} (sound : ∀ file ∈ files, file.Sound) (start : Nat) :
    ∀ field ∈ numberedFields start files, Record.Legible field := by
  induction files generalizing start with
  | nil => exact List.forall_mem_nil _
  | cons file files inductionHypothesis =>
      rw [List.forall_mem_cons] at sound
      rw [numberedFields, List.forall_mem_append]
      refine ⟨?_, inductionHypothesis sound.2 (start + 1)⟩
      rw [PrintedFile.fields, List.forall_mem_cons, List.forall_mem_cons,
        List.forall_mem_singleton]
      exact
        ⟨legible_numbered (by decide) sound.1.path.line start,
          legible_numbered (by decide) sound.1.action.line start,
          legible_numbered (by decide) sound.1.plain_revisionText.line start⟩

theorem legible_fields (sound : printed.Sound) :
    ∀ field ∈ printed.fields, Record.Legible field := by
  rw [PrintedChange.fields, List.forall_mem_append]
  refine ⟨?_, legible_numberedFields sound.files 0⟩
  have descBlank : ' ' ∉ "desc".toList := by decide
  have descLine : '\n' ∉ "desc".toList := by decide
  rw [PrintedChange.heading, List.forall_mem_cons, List.forall_mem_cons, List.forall_mem_cons,
    List.forall_mem_singleton]
  exact
    ⟨legible_of_line (by decide) (by decide) sound.change.line,
      legible_of_line (by decide) (by decide) sound.user,
      legible_of_line (by decide) (by decide) sound.status,
      ⟨descBlank, descLine, .inr ⟨sound.clean, sound.untagged⟩⟩⟩

variable {record : Record} (shape : record.fields.Perm printed.fields)

theorem keys_trimmed : record.trimmed.fields.map Prod.fst = record.fields.map Prod.fst := by
  rw [Record.trimmed, List.map_map]
  rfl

include shape

theorem get?_trimmed {key value : String} (member : (key, value) ∈ printed.fields) :
    record.trimmed.get? key = some (Text.trimEnd value) := by
  have distinct : (record.trimmed.fields.map Prod.fst).Nodup := by
    rw [keys_trimmed, (shape.map Prod.fst).nodup_iff]
    exact nodup_keys
  exact lookup_of_mem distinct
    (List.mem_map_of_mem (f := fun field => (field.1, Text.trimEnd field.2))
      (shape.mem_iff.mpr member))

theorem get?_trimmed_eq_none {key : String} (absent : key ∉ printed.fields.map Prod.fst) :
    record.trimmed.get? key = none := by
  apply lookup_eq_none
  rw [keys_trimmed, (shape.map Prod.fst).mem_iff]
  exact absent

variable (sound : printed.Sound)

include sound

theorem lists_trimmed {i : Nat} (inside : i < printed.records.length) :
    record.trimmed.Lists i printed.records[i] := by
  have isFile : i < printed.files.length := by
    rwa [PrintedChange.records, List.length_map] at inside
  have fileSound : printed.files[i].Sound := sound.files _ (List.getElem_mem isFile)
  have found :
      ∀ field ∈ printed.files[i].fields i,
        record.trimmed.get? field.1 = some (Text.trimEnd field.2) := by
    intro field member
    refine get?_trimmed shape (List.mem_append_right _ (mem_numberedFields isFile ?_))
    rwa [Nat.zero_add]
  have change : record.trimmed.get? "change" = some (Text.trimEnd printed.change) :=
    get?_trimmed shape (List.mem_append_left _ List.mem_cons_self)
  rw [PrintedFile.fields, List.forall_mem_cons, List.forall_mem_cons,
    List.forall_mem_singleton,
    fileSound.path.trimEnd_eq, fileSound.action.trimEnd_eq,
    fileSound.plain_revisionText.trimEnd_eq] at found
  rw [sound.change.trimEnd_eq] at change
  simp only [PrintedChange.records, List.getElem_map]
  refine ⟨found.1, found.2.1, ⟨_, found.2.2, fileSound.readRevision_eq⟩, ?_⟩
  rw [change]
  rfl

/-- The record of a printed changelist describes its files. -/
theorem describedFiles_printed :
    describedFiles record.trimmed = .ok printed.records := by
  have length : printed.records.length = printed.files.length := List.length_map _
  rw [describedFiles_eq_ok_iff]
  refine ⟨fun i inside => lists_trimmed shape sound inside, fun name known => ?_⟩
  rw [length]
  exact get?_trimmed_eq_none shape (numbered_notMem_keys known)

/-- The record of a printed changelist is read back up to blank space. -/
theorem readAll_printed :
    Record.readAll (Record.printAll [record]) = [record.trimmed] := by
  apply Record.readAll_printAll_singleton
  · intro empty
    rw [empty] at shape
    exact absurd shape.nil_eq (List.cons_ne_nil _ _).symm
  · rw [(shape.map Prod.fst).nodup_iff]
    exact nodup_keys
  · exact fun field member => legible_fields sound field (shape.mem_iff.mp member)

end Printed

/-! ## Answers of the server -/

section Answers

variable {serve : (q : Host.interface.Request) → Host.interface.Answer q}
  {connection : Connection}

theorem ran_of_result_run {arguments : List String} {completed : Host.Completed}
    (succeeds : (connection.run arguments).run.result serve = .ok completed) :
    serve (.run connection.program (connection.options ++ arguments) connection.directory) =
      Except.ok completed := by
  obtain ⟨outcome, asked, handed⟩ := (Program.result_bindExcept_eq_ok_iff serve).mp succeeds
  have answered :
      serve (.run connection.program (connection.options ++ arguments) connection.directory) =
        outcome :=
    Except.ok.inj asked
  cases outcome with
  | error cause => exact nomatch handed
  | ok finished =>
      cases handed
      exact answered

theorem ran_of_result_output {arguments : List String} {text : String}
    (succeeds : (connection.output arguments).run.result serve = .ok text) :
    ∃ completed : Host.Completed,
      serve (.run connection.program (connection.options ++ arguments)
        connection.directory) = Except.ok completed ∧
        completed.succeeded = true ∧ text = Utf8.decodeLossy completed.stdout := by
  obtain ⟨completed, ran, judged⟩ := (Program.result_bindExcept_eq_ok_iff serve).mp succeeds
  refine ⟨completed, ran_of_result_run ran, ?_⟩
  split at judged
  · rename_i succeeded
    cases judged
    exact ⟨succeeded, rfl⟩
  · exact nomatch judged

theorem ran_of_result_records {arguments : List String} {records : List Record}
    (succeeds : (connection.records arguments).run.result serve = .ok records) :
    ∃ completed : Host.Completed,
      serve (.run connection.program (connection.options ++ "-ztag" :: arguments)
        connection.directory) = Except.ok completed ∧
        completed.succeeded = true ∧
          records = Record.readAll (Utf8.decodeLossy completed.stdout) := by
  obtain ⟨text, printed, same⟩ := (Program.result_bindExcept_eq_ok_iff serve).mp succeeds
  obtain ⟨completed, ran, succeeded, rfl⟩ := ran_of_result_output printed
  cases same
  exact ⟨completed, ran, succeeded, rfl⟩

/-- Files are told of if the command succeeds and the first record that it
prints describes them, and only then. -/
theorem result_describe_eq_ok_iff
    {arguments : List String} {what : String} {files : List FileRecord} :
    (connection.describe arguments what).run.result serve = .ok files ↔
      ∃ (completed : Host.Completed) (record : Record),
        serve (.run connection.program
          (connection.options ++ "-ztag" :: "describe" :: arguments)
          connection.directory) = Except.ok completed ∧
          completed.succeeded = true ∧
            (Record.readAll (Utf8.decodeLossy completed.stdout)).head? = some record ∧
              describedFiles record = .ok files := by
  unfold Connection.describe
  rw [Program.result_bindExcept_eq_ok_iff]
  constructor
  · intro succeeds
    obtain ⟨records, printed, described⟩ := succeeds
    obtain ⟨completed, ran, succeeded, rfl⟩ := ran_of_result_records printed
    split at described
    · rename_i record first
      exact ⟨completed, record, ran, succeeded, first, described⟩
    · exact nomatch described
  · intro printed
    obtain ⟨completed, record, ran, succeeded, first, described⟩ := printed
    refine ⟨_, result_records ran succeeded, ?_⟩
    rw [first]
    exact described

end Answers

/-- The answer tells of the files of a changelist, as the arguments have them
described.  A printed changelist is read back with all its files.  Whatever is
printed, a file that is told of has the fields with its number in the first
record, and there are no fields with the next number. -/
structure TellsFiles (connection : Connection) (arguments : List String)
    (answer : Program Host.interface (Except Failure (List FileRecord))) : Prop where
  complete :
    ∀ (serve : (q : Host.interface.Request) → Host.interface.Answer q)
      (completed : Host.Completed) (printed : PrintedChange) (record : Record),
      serve (.run connection.program
        (connection.options ++ "-ztag" :: "describe" :: arguments)
        connection.directory) = Except.ok completed →
      completed.succeeded = true → printed.Sound → record.fields.Perm printed.fields →
      completed.stdout = Utf8.encode (Record.printAll [record]) →
      answer.result serve = .ok printed.records
  paired :
    ∀ (serve : (q : Host.interface.Request) → Host.interface.Answer q)
      (files : List FileRecord), answer.result serve = .ok files →
      ∃ (completed : Host.Completed) (record : Record),
        serve (.run connection.program
          (connection.options ++ "-ztag" :: "describe" :: arguments)
          connection.directory) = Except.ok completed ∧
        (Record.readAll (Utf8.decodeLossy completed.stdout)).head? = some record ∧
        (∀ i (inside : i < files.length), record.Lists i files[i]) ∧
        ∀ name ∈ fieldNames, record.get? (name ++ toString files.length) = none

theorem tellsFiles_describe
    (connection : Connection) (arguments : List String) (what : String) :
    TellsFiles connection arguments (connection.describe arguments what).run where
  complete serve completed printed record ran succeeded sound shape stdout := by
    refine result_describe_eq_ok_iff.mpr ⟨completed, record.trimmed, ran, succeeded, ?_, ?_⟩
    · rw [stdout, Utf8.decodeLossy_encode, readAll_printed shape sound]
      rfl
    · exact describedFiles_printed shape sound
  paired serve files told := by
    obtain ⟨completed, record, ran, -, first, described⟩ := result_describe_eq_ok_iff.mp told
    exact ⟨completed, record, ran, first, describedFiles_eq_ok_iff.mp described⟩

/-- Both questions for the files of a changelist are answered with the files
that its record lists. -/
theorem describe_answers (connection : Connection) (id : String) :
    TellsFiles connection ["-s", id] (connection.serve (.describe id)) ∧
      TellsFiles connection ["-s", "-S", id] (connection.serve (.describeShelved id)) :=
  ⟨tellsFiles_describe connection _ _, tellsFiles_describe connection _ _⟩

/-- A changelist with more than ten files, the first one without a revision. -/
def elevenFiles : PrintedChange where
  change := "12"
  user := "ann "
  status := "submitted"
  description := "First line\n\n ... not a field"
  files :=
    [⟨"//d/a b", "add", 0, "none"⟩, ⟨"//d/b", "edit", 4, "4"⟩, ⟨"//d/c", "delete", 7, "7"⟩,
      ⟨"//d/d", "edit", 2, "2"⟩, ⟨"//d/e", "edit", 3, "3"⟩, ⟨"//d/f", "edit", 9, "9"⟩,
      ⟨"//d/g", "edit", 5, "5"⟩, ⟨"//d/h", "branch", 1, "1"⟩, ⟨"//d/i", "edit", 6, "6"⟩,
      ⟨"//d/j", "edit", 8, "8"⟩,
      ⟨"//d/k", "move/add", 18446744073709551615, "18446744073709551615"⟩]

theorem describe_elevenFiles :
    elevenFiles.Sound ∧
      (Connection.serve ⟨"p4", none, none, none, none⟩ (.describe "12")).result
          (printing (Record.printAll [⟨elevenFiles.fields⟩])) =
        .ok elevenFiles.records := by
  have files : ∀ file ∈ elevenFiles.files, file.Sound := by decide
  have sound : elevenFiles.Sound :=
    ⟨by decide, by decide, by decide, by decide, by decide, files⟩
  have told := (describe_answers ⟨"p4", none, none, none, none⟩ "12").1
  exact
    ⟨sound,
      told.complete (printing (Record.printAll [⟨elevenFiles.fields⟩])) _ elevenFiles
        ⟨elevenFiles.fields⟩ (printing_run _ "p4" _ none) rfl sound (List.Perm.refl _)
        (stdout_completedWith _)⟩

end ReviewDiff.Perforce
