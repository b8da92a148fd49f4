import ReviewDiff.Perforce.Workspace
import ReviewDiff.Proofs.Program.Course
import ReviewDiff.Proofs.Revision

/-!
# What the operations of a workspace ask

Operations of a workspace ask Perforce for everything but its program, and the
host for files and the time.  They fail because Perforce, a file or the
workspace fails them.  Only a range of another shape than the two that tokens
name is refused, so the diff of such a range is never refused.
-/

namespace ReviewDiff.Perforce

/-- What operations of a workspace ask.  They do not look for the Perforce
program, and the only program that they run themselves is told to reverse a
patch or to remove the files that it leaves empty. -/
def Routine : surroundings.Request → Prop
  | .inl .checkInstalled => False
  | .inr (.run _ arguments _) =>
      arguments.head? = some "-R" ∨ arguments.head? = some "-E"
  | .inl _ => True
  | .inr _ => True

/-! ## Questions -/

/-- Perforce may be asked anything, except for its program. -/
def Consults (asks : surroundings.Request → Prop) : Prop :=
  ∀ request, request ≠ .checkInstalled → asks (.inl request)

theorem consults_routine : Consults Routine := by
  intro request known
  cases request with
  | checkInstalled => exact absurd rfl known
  | _ => trivial

theorem course_consult
    {σ : Type} (react : surroundings.Reaction σ) (state : σ) (request : Service.Request) :
    (consult request).run.course react state =
      ⟨[(.inl request, state)],
        Except.mapError .perforce (react (.inl request) state).1,
        (react (.inl request) state).2⟩ :=
  Attempt.course_ofOutcome (I := surroundings) react state .perforce _

section Consulting

variable {asks : surroundings.Request → Prop}

theorem within_consultHost (request : Host.Request) (asked : asks (.inr request)) :
    (consultHost request).Within asks fun _ => True :=
  ⟨asked, fun _ => trivial⟩

variable (consults : Consults asks)

include consults

theorem within_consult
    (request : Service.Request) (known : request ≠ .checkInstalled) :
    (consult request).Within asks (fun _ => True) (¬ ·.AboutRevisions) :=
  Attempt.within_ofOutcome ⟨consults request known, fun _ => trivial⟩ fun _ => not_false

/-! ## The files of a range -/

theorem within_isShelved (change : String) :
    (isShelved change).Within asks (fun _ => True) (¬ ·.AboutRevisions) := by
  unfold isShelved
  split
  · exact Attempt.within_pure trivial
  · refine (within_consult consults (.change change) nofun).bind fun info _ => ?_
    split <;> exact Attempt.within_pure trivial

theorem within_describeAll (changes : List String) :
    (describeAll changes).Within asks (fun _ => True) (¬ ·.AboutRevisions) := by
  induction changes with
  | nil => exact Attempt.within_pure trivial
  | cons change rest inductionHypothesis =>
      refine (within_consult consults (.describe change) nofun).bind fun files _ => ?_
      exact inductionHypothesis.bind fun _ _ => Attempt.within_pure trivial

theorem within_submittedChanges
    {range : RevisionRange} {base tip : String}
    (isBase : range.base = .concrete base) (isTip : range.tip = .concrete tip) :
    (submittedChanges range base tip).Within asks (fun _ => True)
      (SparedBy range.Listable) := by
  have reads :
      range.Listable →
        ∃ first last, parseChange base = .ok first ∧ parseChange tip = .ok last := by
    rintro (pending | ⟨first, last, start, stop, isStart, isStop, startReads, stopReads⟩)
    · rw [RevisionRange.IsPending, isBase] at pending
      exact absurd pending.1 nofun
    · rw [isBase, RevisionId.concrete.injEq] at isStart
      rw [isTip, RevisionId.concrete.injEq] at isStop
      exact ⟨first, last, isStart ▸ startReads, isStop ▸ stopReads⟩
  unfold submittedChanges
  split
  · exact Attempt.within_pure trivial
  · refine (Attempt.within_ofExcept_eq ?_).bind fun first _ => ?_
    · intro failure fails listable
      obtain ⟨first, _, firstReads, _⟩ := reads listable
      rw [firstReads] at fails
      cases fails
    refine (Attempt.within_ofExcept_eq ?_).bind fun last _ => ?_
    · intro failure fails listable
      obtain ⟨_, last, _, lastReads⟩ := reads listable
      rw [lastReads] at fails
      cases fails
    exact (within_consult consults (.submittedChanges first last) nofun).sparedBy _

/-- The files of a range are listed, unless the range has another shape. -/
theorem within_filesOf (range : RevisionRange) :
    (filesOf range).Within asks (fun _ => True) (SparedBy range.Listable) := by
  unfold filesOf
  split
  · rename_i change _ _
    refine ((within_isShelved consults change).sparedBy _).bind fun shelved _ => ?_
    split
    · exact
        ((within_consult consults (.describeShelved change) nofun).sparedBy _).bind
          fun _ _ => Attempt.within_pure trivial
    · exact
        ((within_consult consults (.opened change) nofun).sparedBy _).bind
          fun _ _ => Attempt.within_pure trivial
  · rename_i base tip isBase isTip
    refine (within_submittedChanges consults isBase isTip).bind fun changes _ => ?_
    refine ((within_describeAll consults changes).sparedBy _).bind fun files _ => ?_
    exact Attempt.within_pure trivial
  · rename_i notPending notConcrete
    apply Attempt.within_throw
    rintro (⟨base, change, tip⟩ | ⟨_, _, start, stop, base, tip, _⟩) _
    · exact notPending change base tip
    · exact notConcrete start stop base tip

/-! ## Filters -/

theorem within_clientRoot :
    clientRoot.Within asks (fun _ => True) (¬ ·.AboutRevisions) :=
  (within_consult consults .info nofun).bind fun _ _ => Attempt.within_pure trivial

theorem within_normalizePatterns (workspace : Workspace) (patterns : List String) :
    (workspace.normalizePatterns patterns).Within asks (fun _ => True)
      (¬ ·.AboutRevisions) := by
  unfold Workspace.normalizePatterns
  split
  · exact (within_clientRoot consults).bind fun _ _ => Attempt.within_pure trivial
  · exact Attempt.within_pure trivial

theorem within_filter (filter : Filter) (files : List Change.ChangedFile) :
    (filter.select files).Within asks (fun _ => True) (¬ ·.AboutRevisions) := by
  induction files with
  | nil => exact Attempt.within_pure trivial
  | cons file rest inductionHypothesis =>
      refine (within_consult consults (.localPath file.path) nofun).bind fun _ _ => ?_
      exact inductionHypothesis.bind fun _ _ => Attempt.within_pure trivial

theorem within_select
    (workspace : Workspace) (options : DiffOptions) (files : List Change.ChangedFile) :
    (workspace.select options files).Within asks (fun _ => True)
      (¬ ·.AboutRevisions) := by
  unfold Workspace.select
  split
  · exact Attempt.within_pure trivial
  · refine
      (within_normalizePatterns consults workspace options.excludePatterns).bind fun _ _ => ?_
    exact within_filter consults _ files

/-! ## Contents -/

theorem within_printed (spec : String) :
    (printed spec).Within asks (fun _ => True) (¬ ·.AboutRevisions) := by
  refine (within_consult consults (.print spec) nofun).bind fun content _ => ?_
  split
  · exact Attempt.within_pure trivial
  · exact Attempt.within_throw not_false

/-- What the keeper of the files asks depends on how contents are fetched. -/
theorem within_keep_of_content
    {shelved : Bool} {request : Change.Snapshots.Request}
    (fetched : ∀ path version, request = .content path version →
      (content shelved path version).Within asks (fun _ => True) (¬ ·.AboutRevisions)) :
    (keep shelved request).Within asks fun _ => True := by
  cases request with
  | content path version => exact (fetched path version rfl).outcome
  | localPath path => exact (within_consult consults (.localPath path) nofun).outcome
  | moveTarget path =>
      have moved :
          Attempt.Within asks (fun _ => True) (¬ ·.AboutRevisions)
            (do return (← consult (.fileInfo path)).movedFile : Query (Option String)) :=
        (within_consult consults (.fileInfo path) nofun).bind fun _ _ =>
          Attempt.within_pure trivial
      exact moved.outcome

end Consulting

theorem within_workspaceContent (path : String) :
    (workspaceContent path).Within Routine (fun _ => True) (¬ ·.AboutRevisions) := by
  refine (within_consult consults_routine (.localPath path) nofun).bind fun place _ => ?_
  split
  · exact
      Attempt.within_ofOutcome (within_consultHost (.contents _) trivial) fun _ => not_false
  · exact Attempt.within_throw not_false

theorem within_content (shelved : Bool) (path : String) (version : Change.Version) :
    (content shelved path version).Within Routine (fun _ => True)
      (¬ ·.AboutRevisions) := by
  unfold content
  split
  · exact within_printed consults_routine _
  · split
    · exact within_printed consults_routine _
    · exact within_workspaceContent path

theorem within_keep (shelved : Bool) (request : Change.Snapshots.Request) :
    (keep shelved request).Within Routine fun _ => True :=
  within_keep_of_content consults_routine fun path version _ =>
    within_content shelved path version

/-! ## Operations -/

section Synthesis

variable {asks : surroundings.Request → Prop} (scratch : asks (.inr .temporaryDirectory))
  {shelved : Bool} {stamp : String} {range : RevisionRange}
  {records : List Change.ChangedFile} {detectMoves : Bool}

include scratch

/-- A diff asks what the keeper of the files asks for it, and for a scratch
directory. -/
theorem within_synthesizeIn
    {asked : Change.Snapshots.interface.Request → Prop}
    (kept : ∀ request, asked request → (keep shelved request).Within asks fun _ => True)
    (planned :
      (Change.plan (Change.collapse (Change.isInFlight range) records) detectMoves).Within
        asked
        fun parts => (Change.fragmentsOf stamp parts).Within asked fun _ => True) :
    (Change.synthesizeIn (keep shelved) (consultHost .temporaryDirectory) stamp range records
        detectMoves).Within asks (fun _ => True) (¬ ·.AboutRevisions) := by
  refine (Attempt.within_ofProgram (planned.interpret kept)).bind fun parts written => ?_
  have made :
      Attempt.Within asks (fun _ => True) (¬ ·.AboutRevisions)
        (Attempt.ofOutcome .io (consultHost .temporaryDirectory)) :=
    Attempt.within_ofOutcome (within_consultHost .temporaryDirectory scratch)
      fun _ => not_false
  refine made.bind fun _ _ => ?_
  exact
    (Attempt.within_ofProgram (written.interpret kept)).bind
      fun _ _ => Attempt.within_pure trivial

theorem within_synthesizeIn_of_forall
    (kept : ∀ request, (keep shelved request).Within asks fun _ => True) :
    (Change.synthesizeIn (keep shelved) (consultHost .temporaryDirectory) stamp range records
        detectMoves).Within asks (fun _ => True) (¬ ·.AboutRevisions) :=
  within_synthesizeIn scratch (fun request _ => kept request) <|
    (Program.within_anything _).mono (fun _ any => any) fun _ _ => Program.within_anything _

end Synthesis

/-- The diff of a range that tokens name is not refused. -/
theorem within_diff
    (workspace : Workspace) (capabilities : Option Capabilities) (range : RevisionRange)
    (options : DiffOptions) :
    (workspace.diff capabilities range options).Within Routine (fun _ => True)
      (SparedBy range.Listable) := by
  refine (within_filesOf consults_routine range).bind fun listed _ => ?_
  obtain ⟨files, shelved⟩ := listed
  refine
    ((within_select consults_routine workspace options files).sparedBy _).bind fun kept _ => ?_
  refine (Attempt.within_ofProgram (within_consultHost .now trivial)).bind fun time _ => ?_
  exact (within_synthesizeIn_of_forall trivial (within_keep shelved)).sparedBy _

theorem within_resolve (tokens : List String) :
    (RevisionRange.ofTokens statusOf tokens).Within Routine
      (RevisionRange.NamedBy tokens) fun _ => True := by
  apply RevisionRange.within_ofTokens
  intro change
  have asked :
      (statusOf change).Within Routine (fun _ => True) (¬ ·.AboutRevisions) :=
    (within_consult consults_routine (.change change) nofun).bind fun _ _ =>
      Attempt.within_pure trivial
  exact asked.anyEnd

theorem within_localPath (workspace : Workspace) :
    workspace.localPath.Within Routine (fun _ => True) (¬ ·.AboutRevisions) :=
  (within_clientRoot consults_routine).bind fun _ _ => Attempt.within_pure trivial

theorem within_repositoryInfo (workspace : Workspace) :
    workspace.repositoryInfo.Within Routine (fun _ => True) (¬ ·.AboutRevisions) := by
  refine (within_consult consults_routine .info nofun).bind fun info _ => ?_
  split <;> exact Attempt.within_pure trivial

theorem within_repositoryName :
    repositoryName.Within Routine (fun _ => True) (¬ ·.AboutRevisions) :=
  (within_consult consults_routine .counters nofun).bind fun _ _ => Attempt.within_pure trivial

theorem within_serverUrl :
    serverUrl.Within Routine (fun _ => True) (¬ ·.AboutRevisions) :=
  (within_consult consults_routine .counters nofun).bind fun _ _ => Attempt.within_pure trivial

theorem within_message (range : RevisionRange) :
    (message range).Within Routine (fun _ => True) (¬ ·.AboutRevisions) := by
  unfold message
  split
  · exact Attempt.within_pure trivial
  · exact (within_consult consults_routine (.change _) nofun).bind fun _ _ =>
      Attempt.within_pure trivial

theorem within_createFiles (paths : List String) :
    (createFiles paths).Within Routine (fun _ => True) (¬ ·.AboutRevisions) := by
  induction paths with
  | nil => exact Attempt.within_pure trivial
  | cons path rest inductionHypothesis =>
      have created :
          Attempt.Within Routine (fun _ => True) (¬ ·.AboutRevisions)
            (Attempt.ofOutcome .io (consultHost (.createFile path))) :=
        Attempt.within_ofOutcome (within_consultHost (.createFile path) trivial)
          fun _ => not_false
      have others := created.bind fun _ _ => inductionHypothesis
      unfold createFiles
      split
      · rename_i parent _
        have above :
            Attempt.Within Routine (fun _ => True) (¬ ·.AboutRevisions)
              (Attempt.ofOutcome .io (consultHost (.createDirectories parent))) :=
          Attempt.within_ofOutcome
            (within_consultHost (.createDirectories parent) trivial) fun _ => not_false
        exact above.bind fun _ _ => others
      · exact others

theorem within_announce
    (paths : List String) {request : Service.Request} (known : request ≠ .checkInstalled) :
    (announce paths request).Within Routine (fun _ => True) (¬ ·.AboutRevisions) := by
  unfold announce
  split
  · exact Attempt.within_pure trivial
  · have asked := (within_consult consults_routine request known).outcome
    refine (Attempt.within_ofProgram asked).bind fun outcome _ => ?_
    split <;> exact Attempt.within_pure trivial

theorem within_applyEmptyFiles
    (workspace : Workspace) (patch : Bytes) (stripCount : Option Nat) (revert : Bool) :
    (workspace.applyEmptyFiles patch stripCount revert).Within Routine (fun _ => True)
      (¬ ·.AboutRevisions) := by
  have announced :
      ∀ paths,
        (announce paths (.add paths)).Within Routine (fun _ => True)
            (¬ ·.AboutRevisions) ∧
          (announce paths (.delete paths)).Within Routine (fun _ => True)
            (¬ ·.AboutRevisions) :=
    fun paths => ⟨within_announce paths nofun, within_announce paths nofun⟩
  refine (within_createFiles _).bind fun _ _ => ?_
  refine (announced _).1.bind fun _ _ => ?_
  exact (announced _).2.bind fun _ _ => Attempt.within_pure trivial

/-- The operations of a workspace ask only what operations ask. -/
theorem within_provide
    (workspace : Workspace) (capabilities : Option Capabilities) (operation : Operation) :
    ∀ attempt ∈ workspace.provide capabilities operation,
      attempt.Within Routine (fun _ => True) fun _ => True := by
  cases operation with
  | pendingChanges => exact nofun
  | localPath => exact (within_localPath workspace).only
  | repositoryInfo => exact (within_repositoryInfo workspace).only
  | repositoryName => exact within_repositoryName.only
  | serverUrl => exact within_serverUrl.only
  | resolve tokens => exact (within_resolve tokens).only
  | diff range options => exact (within_diff workspace capabilities range options).only
  | message range => exact (within_message range).only
  | applyEmptyFiles patch stripCount revert =>
      exact (within_applyEmptyFiles workspace patch stripCount revert).only

end ReviewDiff.Perforce
