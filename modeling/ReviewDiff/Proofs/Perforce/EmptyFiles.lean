import ReviewDiff.Proofs.Client.Bounds
import ReviewDiff.Proofs.Host.FileTree
import ReviewDiff.Proofs.Patch.Exchange
import ReviewDiff.Proofs.Perforce.Bounds
import ReviewDiff.Proofs.Perforce.Filter
import ReviewDiff.Proofs.Program.Course

/-!
# Headers for empty files, applied

The headers of a patch say which empty files are opened for add and which for
delete.  A client first makes the files that are to be added, in a tree that it
shares with Perforce, and then tells Perforce of both lists, each in one call.
-/

namespace ReviewDiff

/-! ## Empty files in a tree -/

namespace Host.FileTree

/-- The tree with empty files at the paths, made one after the other, each with
the directories above it. -/
def createEmptyFiles (files : FileTree) : List String → Except Fault FileTree
  | [] => .ok files
  | path :: rest =>
      (match Path.parent? path with
        | some parent => files.createDirectories parent
        | none => .ok files).bind fun inside =>
            (inside.write path []).bind fun larger => larger.createEmptyFiles rest

/-- Once the empty files are made, all of them are there and empty, and besides
them there are only new directories. -/
theorem createEmptyFiles_empties
    {files made : FileTree} {paths : List String}
    (created : files.createEmptyFiles paths = .ok made) :
    (∀ path ∈ paths, made.read path = .ok []) ∧
      Grows (fun names => ∃ path ∈ paths, made.locate path = .ok names) files made := by
  induction paths generalizing files with
  | nil =>
      obtain rfl := Except.ok.inj created
      exact ⟨List.forall_mem_nil _, Grows.refl files⟩
  | cons path rest inductionHypothesis =>
      rw [createEmptyFiles] at created
      obtain ⟨inside, isInside, created⟩ := bind_eq_ok_iff.mp created
      obtain ⟨larger, written, created⟩ := bind_eq_ok_iff.mp created
      have surrounds : Grows (fun _ => False) files inside := by
        split at isInside
        · exact grows_createDirectories isInside
        · cases isInside
          exact Grows.refl files
      obtain ⟨names, located, isEmpty, grows⟩ := exists_of_write_nil written
      obtain ⟨empties, later⟩ := inductionHypothesis created
      have reads : larger.read path = .ok [] := read_eq_ok_iff.mpr ⟨names, located, isEmpty⟩
      refine ⟨List.forall_mem_cons.mpr ⟨later.read reads, empties⟩, ?_⟩
      refine (surrounds.mono fun _ => False.elim).trans ?_
      refine (grows.mono ?_).trans (later.mono ?_)
      · rintro _ rfl
        exact ⟨path, List.mem_cons_self, later.locate located⟩
      · rintro found ⟨other, member, isThere⟩
        exact ⟨other, List.mem_cons_of_mem path member, isThere⟩

end Host.FileTree

namespace Perforce

open Host (FileTree)

/-- A file tree in which the client makes files and directories.  Perforce works
in the same tree, and it may answer in any way and change the tree. -/
def onFiles
    (perforce : Service.interface.Reaction FileTree)
    (host : Host.interface.Reaction FileTree) :
    surroundings.Reaction FileTree
  | .inl request, files => perforce request files
  | .inr (.createFile path), files =>
      match files.write path [] with
      | .ok larger => (.ok (), larger)
      | .error fault => (.error fault, files)
  | .inr (.createDirectories path), files =>
      match files.createDirectories path with
      | .ok larger => (.ok (), larger)
      | .error fault => (.error fault, files)
  | .inr request, files => host request files

/-- The request makes one of the paths or the directories above it. -/
def Creates (paths : List String) (request : surroundings.Request) : Prop :=
  ∃ path ∈ paths,
    request = .inr (.createFile path) ∨
      ∃ parent, Path.parent? path = some parent ∧ request = .inr (.createDirectories parent)

section Course

variable (perforce : Service.interface.Reaction FileTree)
  (host : Host.interface.Reaction FileTree) {files made : FileTree}

theorem course_createFile {path : String} (written : files.write path [] = .ok made) :
    (Attempt.ofOutcome .io (consultHost (.createFile path))).run.course
        (onFiles perforce host) files =
      ⟨[(.inr (.createFile path), files)], .ok (), made⟩ := by
  have answered :
      onFiles perforce host (.inr (.createFile path)) files = (.ok (), made) := by
    rw [onFiles, written]
  exact Attempt.course_ofOutcome_of_ok (Program.course_request_of_eq answered) .io

theorem course_createDirectories
    {path : String} (created : files.createDirectories path = .ok made) :
    (Attempt.ofOutcome .io (consultHost (.createDirectories path))).run.course
        (onFiles perforce host) files =
      ⟨[(.inr (.createDirectories path), files)], .ok (), made⟩ := by
  have answered :
      onFiles perforce host (.inr (.createDirectories path)) files = (.ok (), made) := by
    rw [onFiles, created]
  exact Attempt.course_ofOutcome_of_ok (Program.course_request_of_eq answered) .io

theorem course_createFiles
    {paths : List String} (created : files.createEmptyFiles paths = .ok made) :
    ∃ creations,
      (createFiles paths).run.course (onFiles perforce host) files =
          ⟨creations, .ok (), made⟩ ∧
        ∀ question ∈ creations, Creates paths question.1 := by
  induction paths generalizing files with
  | nil =>
      obtain rfl := Except.ok.inj created
      exact ⟨[], rfl, List.forall_mem_nil _⟩
  | cons path rest inductionHypothesis =>
      obtain ⟨inside, isInside, created⟩ := bind_eq_ok_iff.mp created
      obtain ⟨larger, written, created⟩ := bind_eq_ok_iff.mp created
      obtain ⟨later, laterRuns, laterCreates⟩ := inductionHypothesis created
      have laterAmong : ∀ question ∈ later, Creates (path :: rest) question.1 := by
        intro question member
        obtain ⟨other, among, creates⟩ := laterCreates question member
        exact ⟨other, List.mem_cons_of_mem path among, creates⟩
      have behind :
          (do
              let _ ← Attempt.ofOutcome .io (consultHost (.createFile path))
              createFiles rest : Query Unit).run.course (onFiles perforce host) inside =
            ⟨(.inr (.createFile path), inside) :: later, .ok (), made⟩ := by
        rw [Program.course_bindExcept_of_ok (course_createFile perforce host written),
          laterRuns]
        rfl
      have fileCreates : Creates (path :: rest) (.inr (.createFile path)) :=
        ⟨path, List.mem_cons_self, Or.inl rfl⟩
      cases isParent : Path.parent? path with
      | none =>
          rw [isParent] at isInside
          obtain rfl := Except.ok.inj isInside
          refine
            ⟨(.inr (.createFile path), files) :: later, ?_,
              List.forall_mem_cons.mpr ⟨fileCreates, laterAmong⟩⟩
          rw [createFiles, isParent]
          exact behind
      | some parent =>
          rw [isParent] at isInside
          have parentCreates : Creates (path :: rest) (.inr (.createDirectories parent)) :=
            ⟨path, List.mem_cons_self, Or.inr ⟨parent, isParent, rfl⟩⟩
          refine
            ⟨(.inr (.createDirectories parent), files) ::
                (.inr (.createFile path), inside) :: later, ?_,
              List.forall_mem_cons.mpr
                ⟨parentCreates, List.forall_mem_cons.mpr ⟨fileCreates, laterAmong⟩⟩⟩
          rw [createFiles, isParent]
          have parentMade := course_createDirectories perforce host isInside
          refine (Program.course_bindExcept_of_ok parentMade _).trans ?_
          exact congrArg (Course.behind [_]) behind

/-- The call that tells Perforce of files, if there are any, with the tree that
it finds. -/
def callFor
    (paths : List String) (request : Service.Request) (files : FileTree) :
    List (surroundings.Request × FileTree) :=
  if paths = [] then [] else [(.inl request, files)]

/-- The tree behind that call. -/
def filesBehind
    (perforce : Service.interface.Reaction FileTree) (paths : List String)
    (request : Service.Request) (files : FileTree) : FileTree :=
  if paths = [] then files else (perforce request files).2

/-- The call is made and Perforce succeeds. -/
def Taken
    (perforce : Service.interface.Reaction FileTree) (paths : List String)
    (request : Service.Request) (files : FileTree) : Prop :=
  paths ≠ [] ∧ ∃ result, (perforce request files).1 = .ok result

theorem course_announce (paths : List String) (request : Service.Request) :
    ∃ taken,
      (announce paths request).run.course (onFiles perforce host) files =
          ⟨callFor paths request files, .ok taken, filesBehind perforce paths request files⟩ ∧
        (taken = true ↔ Taken perforce paths request files) := by
  unfold announce callFor filesBehind
  by_cases none : paths = []
  · subst none
    exact ⟨false, rfl, iff_of_false Bool.false_ne_true fun taken => taken.1 rfl⟩
  have some : ¬ paths.isEmpty = true := by simpa using none
  rw [if_neg none, if_neg none, if_neg some]
  have told :
      (Attempt.ofProgram (consult request).outcome).run.course (onFiles perforce host) files =
        ⟨[(.inl request, files)], .ok (Except.mapError .perforce (perforce request files).1),
          (perforce request files).2⟩ := by
    refine (Program.course_lift _ files (consult request).run).trans ?_
    rw [course_consult]
    rfl
  rw [Program.course_bindExcept_of_ok told]
  cases answered : (perforce request files).1 with
  | ok result => exact ⟨true, rfl, iff_of_true rfl ⟨none, result, answered⟩⟩
  | error failure =>
      refine ⟨false, rfl, iff_of_false Bool.false_ne_true ?_⟩
      rintro ⟨_, result, same⟩
      exact nomatch answered.symm.trans same

end Course

/-! ## Paths -/

section Paths

variable (workspace : Workspace) (stripCount : Option Nat)

/-- The paths in the workspace of the headers for an operation, in the order of
the headers.  When a patch is reverted a header is for the opposite operation. -/
def Workspace.pathsFor
    (revert : Bool) (operation : Patch.EmptyFile.Operation) (patch : Bytes) : List String :=
  ((Patch.EmptyFile.readHeaders patch).filter fun header =>
    (if revert then header.operation.reversed else header.operation) = operation).map
      fun header =>
        Path.join workspace.directory (Patch.strip header.localPath (stripCount.getD 0))

theorem targets_eq_pathsFor
    (revert : Bool) (operation : Patch.EmptyFile.Operation) (patch : Bytes) :
    workspace.targets (stripCount.getD 0) revert operation patch =
      workspace.pathsFor stripCount revert operation patch := by
  rw [Workspace.targets, Workspace.pathsFor, List.filterMap_map, ← List.filterMap_eq_map,
    List.filterMap_filter]
  refine congrArg (List.filterMap · (Patch.EmptyFile.readHeaders patch))
    (funext fun header => ?_)
  by_cases same :
      (if revert then header.operation.reversed else header.operation) = operation <;>
    simp [Workspace.target, same]

theorem pathsFor_exchangeMarks
    (operation : Patch.EmptyFile.Operation) (patch : Bytes) :
    workspace.pathsFor stripCount false operation (Patch.EmptyFile.exchangeMarks patch) =
      workspace.pathsFor stripCount true operation patch := by
  rw [Workspace.pathsFor, Patch.EmptyFile.readHeaders_exchangeMarks, List.filter_map,
    List.map_map]
  rfl

end Paths

/-! ## Headers -/

/-- To revert a patch is to apply it with its marks exchanged. -/
theorem applyEmptyFiles_exchangeMarks
    (workspace : Workspace) (patch : Bytes) (stripCount : Option Nat) :
    workspace.applyEmptyFiles patch stripCount true =
      workspace.applyEmptyFiles (Patch.EmptyFile.exchangeMarks patch) stripCount false := by
  rw [Workspace.applyEmptyFiles, Workspace.applyEmptyFiles]
  simp only [targets_eq_pathsFor, pathsFor_exchangeMarks]

theorem course_applyEmptyFiles
    (perforce : Service.interface.Reaction FileTree) (host : Host.interface.Reaction FileTree)
    {workspace : Workspace} {patch : Bytes} {stripCount : Option Nat} {revert : Bool}
    {files made : FileTree} {added deleted : List String}
    (isAdded : added = workspace.pathsFor stripCount revert .added patch)
    (isDeleted : deleted = workspace.pathsFor stripCount revert .deleted patch)
    (created : files.createEmptyFiles added = .ok made) :
    ∃ creations addedAny deletedAny,
      (workspace.applyEmptyFiles patch stripCount revert).run.course (onFiles perforce host)
            files =
          ⟨creations ++
              (callFor added (.add added) made ++
                callFor deleted (.delete deleted)
                  (filesBehind perforce added (.add added) made)),
            .ok (addedAny || deletedAny),
            filesBehind perforce deleted (.delete deleted)
              (filesBehind perforce added (.add added) made)⟩ ∧
        (∀ question ∈ creations, Creates added question.1) ∧
          (addedAny = true ↔ Taken perforce added (.add added) made) ∧
            (deletedAny = true ↔
              Taken perforce deleted (.delete deleted)
                (filesBehind perforce added (.add added) made)) := by
  obtain ⟨creations, createdRun, creates⟩ := course_createFiles perforce host created
  obtain ⟨addedAny, addedRun, addedTaken⟩ := course_announce perforce host added (.add added)
  obtain ⟨deletedAny, deletedRun, deletedTaken⟩ :=
    course_announce perforce host deleted (.delete deleted)
  refine ⟨creations, addedAny, deletedAny, ?_, creates, addedTaken, deletedTaken⟩
  rw [Workspace.applyEmptyFiles, targets_eq_pathsFor, targets_eq_pathsFor, ← isAdded,
    ← isDeleted]
  refine (Program.course_bindExcept_of_ok createdRun _).trans ?_
  have told :
      (do
          let addedAny ← announce added (.add added)
          let deletedAny ← announce deleted (.delete deleted)
          return addedAny || deletedAny : Query Bool).run.course (onFiles perforce host) made =
        ⟨callFor added (.add added) made ++
            callFor deleted (.delete deleted) (filesBehind perforce added (.add added) made),
          .ok (addedAny || deletedAny),
          filesBehind perforce deleted (.delete deleted)
            (filesBehind perforce added (.add added) made)⟩ := by
    refine (Program.course_bindExcept_of_ok addedRun _).trans ?_
    rw [Program.course_bindExcept_of_ok deletedRun]
    simp [Course.behind]
  exact congrArg (Course.behind creations) told

/-- The headers of a patch are applied to a tree, with these paths to add and to
delete.  In the tree `made` all paths to add are there.

* First files and directories are made for the paths to add, and nothing else.
  Then Perforce is told of these paths in one call, and of the paths to delete in
  another one, each only if there are any, whatever it answers to the first.
* When Perforce is told, every path to add is an empty file, and besides these
  files and new directories the tree is what it was.
* The result is whether one of the calls was made and succeeded. -/
structure AppliesHeaders
    (perforce : Service.interface.Reaction FileTree)
    (course : Course surroundings FileTree (Except ReviewDiff.Failure Bool))
    (added deleted : List String) (files made : FileTree) : Prop where
  calls :
    ∃ creations,
      course.asked =
          creations ++
            (callFor added (.add added) made ++
              callFor deleted (.delete deleted)
                (filesBehind perforce added (.add added) made)) ∧
        ∀ question ∈ creations, Creates added question.1
  empties : ∀ path ∈ added, made.read path = .ok []
  frame : FileTree.Grows (fun names => ∃ path ∈ added, made.locate path = .ok names) files made
  result :
    ∃ applied, course.value = .ok applied ∧
      (applied = true ↔
        Taken perforce added (.add added) made ∨
          Taken perforce deleted (.delete deleted)
            (filesBehind perforce added (.add added) made))

/-- If all files to add can be made, a ready client applies the headers of a
patch: those whose operation is to add, or to delete if the patch is reverted,
and those for the other operation, in the order of the patch.  To revert a patch
is to apply the one in which the marks of all headers are exchanged. -/
theorem applies_headers
    {workspace : Workspace} {client : Client surroundings}
    (isBackend : client.backend = workspace.backend) (ready : client.lifecycle = .ready)
    (perforce : Service.interface.Reaction FileTree) (host : Host.interface.Reaction FileTree)
    (patch : Bytes) (stripCount : Option Nat) (revert : Bool) {files made : FileTree}
    (created :
      files.createEmptyFiles (workspace.pathsFor stripCount revert .added patch) = .ok made) :
    AppliesHeaders perforce
        ((client.perform (.applyEmptyFiles patch stripCount revert)).run.course
          (onFiles perforce host) files)
        (workspace.pathsFor stripCount revert .added patch)
        (workspace.pathsFor stripCount revert .deleted patch) files made ∧
      client.perform (.applyEmptyFiles patch stripCount true) =
        client.perform
          (.applyEmptyFiles (Patch.EmptyFile.exchangeMarks patch) stripCount false) := by
  have performed :
      ∀ patch revert,
        client.perform (.applyEmptyFiles patch stripCount revert) =
          workspace.applyEmptyFiles patch stripCount revert :=
    fun _ _ => Client.perform_of_ready isBackend ready rfl
  constructor
  · obtain ⟨creations, addedAny, deletedAny, course, creates, addedTaken, deletedTaken⟩ :=
      course_applyEmptyFiles perforce host rfl rfl created
    obtain ⟨empties, frame⟩ := FileTree.createEmptyFiles_empties created
    rw [performed]
    refine ⟨⟨creations, congrArg Course.asked course, creates⟩, empties, frame, ?_⟩
    refine ⟨addedAny || deletedAny, congrArg Course.value course, ?_⟩
    rw [Bool.or_eq_true, addedTaken, deletedTaken]
  · rw [performed, performed]
    exact applyEmptyFiles_exchangeMarks workspace patch stripCount

/-- A patch that adds an empty file and deletes another one. -/
def twoHeaders : Bytes :=
  Utf8.encode "==== //d/a#1 ==A== a ====\n\n==== //d/b#3 ==D== b ====\n\n"

/-- A workspace that holds the file to delete. -/
def fileToDelete : FileTree :=
  ⟨[(["ws"], .directory), (["ws", "b"], .file [])]⟩

/-- Perforce that refuses everything but to delete files. -/
def deletesOnly : Service.interface.Reaction FileTree
  | .delete _, files => (.ok (), files)
  | .add _, files => (.error (.notFound ""), files)
  | request, files => (threeFiles (.inl request), files)

/-- Perforce refuses to add the file, and it deletes the other one. -/
theorem applies_twoHeaders :
    ∃ made,
      fileToDelete.createEmptyFiles ["/ws/a"] = .ok made ∧
        AppliesHeaders deletesOnly
            ((readyClient.perform (.applyEmptyFiles twoHeaders none false)).run.course
              (onFiles deletesOnly fun request files => (threeFiles (.inr request), files))
              fileToDelete)
            ["/ws/a"] ["/ws/b"] fileToDelete made ∧
          ¬ Taken deletesOnly ["/ws/a"] (.add ["/ws/a"]) made ∧
            Taken deletesOnly ["/ws/b"] (.delete ["/ws/b"]) made := by
  have added :
      Workspace.pathsFor ⟨"/ws", "patch"⟩ none false .added twoHeaders = ["/ws/a"] := by
    cbv
  have deleted :
      Workspace.pathsFor ⟨"/ws", "patch"⟩ none false .deleted twoHeaders = ["/ws/b"] := by
    cbv
  obtain ⟨made, created⟩ :
      ∃ made, fileToDelete.createEmptyFiles ["/ws/a"] = .ok made :=
    ⟨⟨[(["ws", "a"], .file []), (["ws"], .directory), (["ws", "b"], .file [])]⟩, rfl⟩
  have isBackend : readyClient.backend = Workspace.backend ⟨"/ws", "patch"⟩ := rfl
  have ready : readyClient.lifecycle = .ready := rfl
  have applies :=
    (applies_headers isBackend ready deletesOnly
      (fun request files => (threeFiles (.inr request), files)) twoHeaders none false
      (by rw [added]; exact created)).1
  rw [added, deleted] at applies
  refine ⟨made, created, applies, ?_, ⟨by decide, (), rfl⟩⟩
  rintro ⟨_, result, succeeds⟩
  cases succeeds

end Perforce

end ReviewDiff
