import ReviewDiff.Perforce.Connection
import ReviewDiff.Proofs.Lookup
import ReviewDiff.Proofs.Perforce.Tagged
import ReviewDiff.Proofs.Program
import ReviewDiff.Proofs.Text.Utf8

/-!
# Where a file is mapped

A mapping that excludes a file carries a flag, and the place of a file is the
path of the first mapping without one.  The flag is sought in the records that
the reader gives back.  A flag that stands in front of every field that the
record before has, too, was lent to that record, so the mapping before counts
as excluded and the excluded one as mapped.
-/

namespace ReviewDiff.Perforce

namespace Record

/-- The mapping takes a file out of the workspace. -/
def Excluded (record : Record) : Prop :=
  record.has "unmap" = true

instance (record : Record) : Decidable record.Excluded :=
  inferInstanceAs (Decidable (_ = true))

/-! ## Keys that neighbours share -/

theorem has_iff {record : Record} {key : String} :
    record.has key = true ↔ key ∈ record.fields.map Prod.fst :=
  any_key_iff

theorem ne_nil_of_mem_keys
    {fields : List (String × String)} {key : String}
    (member : key ∈ fields.map Prod.fst) : fields ≠ [] := by
  rintro rfl
  exact List.not_mem_nil member

theorem keys_eq_append (current : List (String × String)) (record : Record) :
    record.fields.map Prod.fst =
      (lent current record).map Prod.fst ++ (kept current record).map Prod.fst := by
  rw [← List.map_append, lent_append_kept]

theorem notMem_keys_lent
    {current : List (String × String)} {key : String}
    (seen : key ∈ current.map Prod.fst) (record : Record) :
    key ∉ (lent current record).map Prod.fst := by
  intro member
  obtain ⟨field, isLent, rfl⟩ := List.mem_map.mp member
  exact notMem_keys_of_mem_lent isLent seen

/-- A repeated key is kept. -/
theorem mem_keys_kept
    {current : List (String × String)} {record : Record} {key : String}
    (seen : key ∈ current.map Prod.fst) (has : record.has key = true) :
    key ∈ (kept current record).map Prod.fst := by
  rw [has_iff, keys_eq_append current record, List.mem_append] at has
  exact has.resolve_left (notMem_keys_lent seen record)

theorem has_of_mem_keys_kept
    {current : List (String × String)} {record : Record} {key : String}
    (member : key ∈ (kept current record).map Prod.fst) :
    record.has key = true := by
  rw [has_iff, keys_eq_append current record, List.mem_append]
  exact Or.inr member

/-- With a repeated key in the next record, that record closes the one under
way. -/
theorem regroup_cons
    {current : List (String × String)} {record : Record} {key : String}
    (seen : key ∈ current.map Prod.fst) (has : record.has key = true)
    (rest : List Record) :
    regroup current (record :: rest) =
      ⟨current ++ lent current record⟩ :: regroup (kept current record) rest := by
  rw [regroup, if_neg (ne_nil_of_mem_keys (mem_keys_kept seen has))]

theorem regroup_nil
    {current : List (String × String)} {key : String}
    (seen : key ∈ current.map Prod.fst) : regroup current [] = [⟨current⟩] := by
  rw [regroup, if_neg (ne_nil_of_mem_keys seen)]

/-- A repeated key has its value in the fields that were kept. -/
theorem get?_kept
    {current : List (String × String)} {key : String}
    (seen : key ∈ current.map Prod.fst) (record : Record) :
    Record.get? ⟨kept current record⟩ key = record.get? key := by
  rw [get?, get?, ← lent_append_kept current record, List.lookup_append,
    lookup_eq_none (notMem_keys_lent seen record), Option.none_or]

theorem get?_getD_kept
    {current : List (String × String)} {key : String}
    (seen : key ∈ current.map Prod.fst) (record : Record) (other : Option Record) :
    (other.getD ⟨kept current record⟩).get? key = (other.getD record).get? key := by
  cases other with
  | none => exact get?_kept seen record
  | some other => rfl

/-- Fields that are lent do not change what is there already. -/
theorem get?_append_lent
    {current : List (String × String)} {key : String}
    (seen : key ∈ current.map Prod.fst) (record : Record) :
    Record.get? ⟨current ++ lent current record⟩ key = Record.get? ⟨current⟩ key := by
  rw [get?, get?, List.lookup_append, lookup_eq_none (notMem_keys_lent seen record),
    Option.or_none]

/-! ## The first mapping that is not an exclusion -/

theorem mappedPath_cons_of_excluded
    {record : Record} (excluded : record.Excluded) (rest : List Record) :
    mappedPath (record :: rest) = mappedPath rest := by
  rw [mappedPath, List.find?_cons_of_neg (by simpa [Excluded] using excluded),
    ← mappedPath]

theorem mappedPath_cons_of_not_excluded
    {record : Record} (mapped : ¬ record.Excluded) (rest : List Record) :
    mappedPath (record :: rest) = record.get? "path" := by
  rw [mappedPath, List.find?_cons_of_pos (by simpa [Excluded] using mapped)]
  rfl

theorem excluded_append_iff
    {current fields : List (String × String)} :
    Excluded ⟨current ++ fields⟩ ↔
      "unmap" ∈ current.map Prod.fst ∨ "unmap" ∈ fields.map Prod.fst := by
  rw [Excluded, has_iff, List.map_append, List.mem_append]

/-- The fields of the record under way behind records that share a key. -/
def underWay : List Record → List (String × String)
  | [] => []
  | first :: rest => rest.foldl kept first.fields

/-- The records that follow one another behind `current` and lend their
flag. -/
def lenders (current : List (String × String)) : List Record → List Record
  | [] => []
  | record :: rest =>
      if "unmap" ∈ (lent current record).map Prod.fst then
        record :: lenders (kept current record) rest
      else []

/-- Excluded mappings in front do not lend their flags, and they are left
out. -/
theorem mappedPath_regroup_append
    {current : List (String × String)}
    (placed : "path" ∈ current.map Prod.fst)
    (flagged : "unmap" ∈ current.map Prod.fst)
    {front : List Record} (located : ∀ record ∈ front, record.has "path" = true)
    (excluded : ∀ record ∈ front, record.Excluded)
    (rest : List Record) :
    mappedPath (regroup current (front ++ rest)) =
        mappedPath (regroup (front.foldl kept current) rest) ∧
      "path" ∈ (front.foldl kept current).map Prod.fst ∧
        "unmap" ∈ (front.foldl kept current).map Prod.fst := by
  induction front generalizing current with
  | nil => exact ⟨rfl, placed, flagged⟩
  | cons record front inductionHypothesis =>
      rw [List.forall_mem_cons] at located excluded
      have skipped : Excluded ⟨current ++ lent current record⟩ :=
        excluded_append_iff.mpr (Or.inl flagged)
      rw [List.cons_append, regroup_cons placed located.1,
        mappedPath_cons_of_excluded skipped, List.foldl_cons]
      exact inductionHypothesis (mem_keys_kept placed located.1)
        (mem_keys_kept flagged excluded.1) located.2 excluded.2

/-- The answer is sought at the last record that lent its flag. -/
theorem mappedPath_regroup
    {current : List (String × String)}
    (placed : "path" ∈ current.map Prod.fst)
    (unflagged : "unmap" ∉ current.map Prod.fst)
    {rest : List Record} (located : ∀ record ∈ rest, record.has "path" = true)
    (distinct : ∀ record ∈ rest, (record.fields.map Prod.fst).Nodup) :
    mappedPath (regroup current rest) =
      ((lenders current rest).getLast?.getD ⟨current⟩).get? "path" := by
  induction rest generalizing current with
  | nil =>
      have mapped : ¬ Excluded ⟨current⟩ := mt has_iff.mp unflagged
      rw [regroup_nil placed, mappedPath_cons_of_not_excluded mapped]
      rfl
  | cons record rest inductionHypothesis =>
      rw [List.forall_mem_cons] at located distinct
      rw [regroup_cons placed located.1, lenders]
      by_cases lends : "unmap" ∈ (lent current record).map Prod.fst
      · have skipped : Excluded ⟨current ++ lent current record⟩ :=
          excluded_append_iff.mpr (Or.inr lends)
        have keysApart := distinct.1
        rw [keys_eq_append current record] at keysApart
        have stillUnflagged : "unmap" ∉ (kept current record).map Prod.fst :=
          fun again => (List.nodup_append.mp keysApart).2.2 _ lends _ again rfl
        rw [mappedPath_cons_of_excluded skipped, if_pos lends, List.getLast?_cons,
          inductionHypothesis (mem_keys_kept placed located.1) stillUnflagged located.2
            distinct.2,
          Option.getD_some]
        exact get?_getD_kept placed record _
      · have mapped : ¬ Excluded ⟨current ++ lent current record⟩ :=
          mt excluded_append_iff.mp (not_or.mpr ⟨unflagged, lends⟩)
        rw [mappedPath_cons_of_not_excluded mapped, if_neg lends,
          get?_append_lent placed record]
        rfl

theorem excluded_of_mem_lenders
    {current : List (String × String)} {rest : List Record} {record : Record}
    (member : record ∈ lenders current rest) : record ∈ rest ∧ record.Excluded := by
  induction rest generalizing current with
  | nil => exact absurd member List.not_mem_nil
  | cons other rest inductionHypothesis =>
      rw [lenders] at member
      by_cases lends : "unmap" ∈ (lent current other).map Prod.fst
      · rw [if_pos lends, List.mem_cons] at member
        rcases member with rfl | later
        · refine ⟨List.mem_cons_self, ?_⟩
          rw [Excluded, has_iff, keys_eq_append current record, List.mem_append]
          exact Or.inl lends
        · obtain ⟨behind, excluded⟩ := inductionHypothesis later
          exact ⟨List.mem_cons_of_mem other behind, excluded⟩
      · rw [if_neg lends] at member
        exact absurd member List.not_mem_nil

/-- Nothing is found among excluded mappings only. -/
theorem mappedPath_of_excluded
    {records : List Record} (located : ∀ record ∈ records, record.has "path" = true)
    (excluded : ∀ record ∈ records, record.Excluded) :
    mappedPath (regroup [] records) = none := by
  cases records with
  | nil => rfl
  | cons first rest =>
      rw [List.forall_mem_cons] at located excluded
      obtain ⟨same, placed, flagged⟩ :=
        mappedPath_regroup_append (has_iff.mp located.1) (has_iff.mp excluded.1) located.2
          excluded.2 []
      rw [List.append_nil] at same
      rw [regroup_first, same, regroup_nil placed,
        mappedPath_cons_of_excluded (has_iff.mpr flagged)]
      rfl

/-- The answer is the path of the first mapping that is not an exclusion, or
of the last one behind it that lent its flag. -/
theorem mappedPath_of_mapped
    {front rest : List Record} {mapped : Record}
    (located : ∀ record ∈ front ++ mapped :: rest, record.has "path" = true)
    (distinct : ∀ record ∈ rest, (record.fields.map Prod.fst).Nodup)
    (excluded : ∀ record ∈ front, record.Excluded) (isMapped : ¬ mapped.Excluded) :
    mappedPath (regroup [] (front ++ mapped :: rest)) =
      ((lenders (underWay (front ++ [mapped])) rest).getLast?.getD mapped).get?
        "path" := by
  rw [List.forall_mem_append, List.forall_mem_cons] at located
  obtain ⟨frontLocated, mappedLocated, restLocated⟩ := located
  cases front with
  | nil =>
      rw [List.nil_append, regroup_first,
        mappedPath_regroup (has_iff.mp mappedLocated) (mt has_iff.mpr isMapped)
          restLocated distinct]
      rfl
  | cons first front =>
      rw [List.forall_mem_cons] at frontLocated excluded
      obtain ⟨same, placed, flagged⟩ :=
        mappedPath_regroup_append (has_iff.mp frontLocated.1) (has_iff.mp excluded.1)
          frontLocated.2 excluded.2 (mapped :: rest)
      have skipped :
          Excluded ⟨front.foldl kept first.fields ++
            lent (front.foldl kept first.fields) mapped⟩ :=
        excluded_append_iff.mpr (Or.inl flagged)
      have unflagged :
          "unmap" ∉ (kept (front.foldl kept first.fields) mapped).map Prod.fst :=
        mt has_of_mem_keys_kept isMapped
      have state :
          underWay (first :: front ++ [mapped]) =
            kept (front.foldl kept first.fields) mapped := by
        rw [List.cons_append, underWay, List.foldl_append, List.foldl_cons, List.foldl_nil]
      rw [List.cons_append, regroup_first, same, regroup_cons placed mappedLocated,
        mappedPath_cons_of_excluded skipped, state,
        mappedPath_regroup (mem_keys_kept placed mappedLocated) unflagged restLocated
          distinct]
      exact get?_getD_kept placed mapped _

end Record

/-! ## Asking for the place of a file -/

section Asking

variable {serve : (q : Host.interface.Request) → Host.interface.Answer q}
  {connection : Connection} {arguments : List String} {completed : Host.Completed}

theorem result_run
    (ran :
      serve (.run connection.program (connection.options ++ arguments)
        connection.directory) = Except.ok completed) :
    (connection.run arguments).run.result serve = .ok completed := by
  have answered :
      (ask (.run connection.program (connection.options ++ arguments)
        connection.directory)).run.result serve = .ok (.ok completed) :=
    congrArg Except.ok ran
  rw [Connection.run, Program.result_bindExcept, answered]
  rfl

theorem result_output
    (ran :
      serve (.run connection.program (connection.options ++ arguments)
        connection.directory) = Except.ok completed)
    (succeeded : completed.succeeded = true) :
    (connection.output arguments).run.result serve =
      .ok (Utf8.decodeLossy completed.stdout) := by
  rw [Connection.output, Program.result_bindExcept, result_run ran]
  simp only [succeeded, if_true]
  rfl

theorem result_records
    (ran :
      serve (.run connection.program (connection.options ++ "-ztag" :: arguments)
        connection.directory) = Except.ok completed)
    (succeeded : completed.succeeded = true) :
    (connection.records arguments).run.result serve =
      .ok (Record.readAll (Utf8.decodeLossy completed.stdout)) := by
  rw [Connection.records, Program.result_bindExcept, result_output ran succeeded]
  rfl

/-- The place of a file is sought in the records that are read back. -/
theorem result_localPath
    {path : String}
    (ran :
      serve (.run connection.program (connection.options ++ ["-ztag", "where", path])
        connection.directory) = Except.ok completed)
    (succeeded : completed.succeeded = true)
    {records : List Record} (formed : ∀ record ∈ records, record.Formed)
    (printed : completed.stdout = Utf8.encode (Record.printAll records)) :
    (connection.serve (.localPath path)).result serve =
      .ok (mappedPath (Record.regroup [] records)) := by
  have answered :=
    Program.result_bindExcept serve (connection.records ["where", path]) fun records =>
      pure (mappedPath records)
  rw [result_records ran succeeded, printed, Utf8.decodeLossy_encode,
    Record.readAll_eq_regroup formed] at answered
  exact answered

/-- A file that all mappings exclude has no place.  Otherwise its place is the
path of the first mapping that is not an exclusion, unless the mapping right
behind it lends its flag: then the last mapping of the run that lends its flags
is taken, and that is an excluded one. -/
theorem result_localPath_printed
    {path : String}
    (ran :
      serve (.run connection.program (connection.options ++ ["-ztag", "where", path])
        connection.directory) = Except.ok completed)
    (succeeded : completed.succeeded = true)
    {records : List Record} (formed : ∀ record ∈ records, record.Formed)
    (located : ∀ record ∈ records, record.has "path" = true)
    (printed : completed.stdout = Utf8.encode (Record.printAll records)) :
    ((∀ record ∈ records, record.Excluded) →
        (connection.serve (.localPath path)).result serve = .ok none) ∧
      ∀ front mapped rest, records = front ++ mapped :: rest →
        (∀ record ∈ front, record.Excluded) → ¬ mapped.Excluded →
          (Record.lenders (Record.underWay (front ++ [mapped])) rest = [] →
            (connection.serve (.localPath path)).result serve =
              .ok (mapped.get? "path")) ∧
          ∀ lender ∈ (Record.lenders (Record.underWay (front ++ [mapped])) rest).getLast?,
            lender ∈ rest ∧ lender.Excluded ∧
              (connection.serve (.localPath path)).result serve =
                .ok (lender.get? "path") := by
  rw [result_localPath ran succeeded formed printed]
  constructor
  · intro excluded
    exact congrArg Except.ok (Record.mappedPath_of_excluded located excluded)
  · rintro front mapped rest rfl excluded isMapped
    rw [List.forall_mem_append, List.forall_mem_cons] at formed
    have found :=
      Record.mappedPath_of_mapped located
        (fun record member => (formed.2.2 record member).distinct) excluded isMapped
    constructor
    · intro noLenders
      rw [found, noLenders]
      rfl
    · intro lender last
      obtain ⟨behind, lenderExcluded⟩ :=
        Record.excluded_of_mem_lenders (List.mem_of_getLast? last)
      refine ⟨behind, lenderExcluded, ?_⟩
      rw [found, Option.mem_def.mp last]
      rfl

end Asking

/-- What a program leaves behind that succeeds with an output. -/
def completedWith (output : String) : Host.Completed :=
  ⟨some 0, Utf8.encode output, []⟩

theorem stdout_completedWith
    (output : String) :
    (completedWith output).stdout = Utf8.encode output :=
  rfl

/-- A host on which every program succeeds with the same output. -/
def printing (output : String) : (request : Host.Request) → request.Answer
  | .run .. => .ok (completedWith output)
  | .contents _ => .error (.os Host.notFound)
  | .createFile _ => .error (.os Host.permissionDenied)
  | .createDirectories _ => .error (.os Host.permissionDenied)
  | .writeTemporary _ => .error (.os Host.permissionDenied)
  | .temporaryPath => .error (.os Host.permissionDenied)
  | .temporaryDirectory => .error (.os Host.permissionDenied)
  | .discard _ => ()
  | .now => ⟨1970, 1, 1, 0, 0, 0⟩

theorem printing_run
    (output program : String) (arguments : List String) (directory : Option String) :
    printing output (.run program arguments directory) = Except.ok (completedWith output) :=
  rfl

/-- A mapped file between two mappings that exclude it, with the flag in front
of the first one and at the end of the second one. -/
def remapped : List Record :=
  [⟨[("unmap", ""), ("depotFile", "//d/a"), ("clientFile", "//c/old"),
      ("path", "/ws/old")]⟩,
    ⟨[("depotFile", "//d/a"), ("clientFile", "//c/a"), ("path", "/ws/a")]⟩,
    ⟨[("depotFile", "//d/a"), ("clientFile", "//c/b"), ("path", "/ws/b"),
      ("unmap", "")]⟩]

theorem result_localPath_remapped :
    (∀ record ∈ remapped, record.Formed) ∧
      (∀ record ∈ remapped, record.has "path" = true) ∧
        (Connection.serve ⟨"p4", none, none, none, none⟩ (.localPath "//d/a")).result
            (printing (Record.printAll remapped)) =
          .ok (some "/ws/a") := by
  have formed : ∀ record ∈ remapped, record.Formed := by decide
  have located : ∀ record ∈ remapped, record.has "path" = true := by decide
  refine ⟨formed, located, ?_⟩
  have answers :=
    (@result_localPath_printed (printing (Record.printAll remapped))
      ⟨"p4", none, none, none, none⟩ (completedWith (Record.printAll remapped)) "//d/a"
      (printing_run (Record.printAll remapped) "p4" _ none) rfl remapped formed located
      (stdout_completedWith _)).2
  exact (answers [remapped[0]] remapped[1] [remapped[2]] rfl (by decide) (by decide)).1
    (by decide)

/-- A mapped file and a mapping behind it that excludes the file. -/
def unmapped : List Record :=
  [⟨[("depotFile", "//d/a"), ("clientFile", "//c/a"), ("path", "/ws/a")]⟩,
    ⟨[("unmap", ""), ("depotFile", "//d/a"), ("clientFile", "//c/old"),
      ("path", "/ws/old")]⟩]

/-- The flag of the second mapping counts for the first one. -/
theorem result_localPath_unmapped :
    (∀ record ∈ unmapped, record.Formed) ∧
      (unmapped.find? fun record => ¬ record.Excluded).bind (·.get? "path") =
          some "/ws/a" ∧
        (Connection.serve ⟨"p4", none, none, none, none⟩ (.localPath "//d/a")).result
            (printing (Record.printAll unmapped)) =
          .ok (some "/ws/old") := by
  have formed : ∀ record ∈ unmapped, record.Formed := by decide
  refine ⟨formed, by decide, ?_⟩
  have answered :
      (Connection.serve ⟨"p4", none, none, none, none⟩ (.localPath "//d/a")).result
          (printing (Record.printAll unmapped)) =
        .ok (mappedPath (Record.regroup [] unmapped)) :=
    result_localPath (printing_run (Record.printAll unmapped) "p4" _ none) rfl formed
      (stdout_completedWith _)
  have found : mappedPath (Record.regroup [] unmapped) = some "/ws/old" := by decide
  rwa [found] at answered

end ReviewDiff.Perforce
