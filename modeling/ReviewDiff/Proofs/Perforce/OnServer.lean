import ReviewDiff.Proofs.Change.Submitted
import ReviewDiff.Proofs.Client.Bounds
import ReviewDiff.Proofs.Perforce.Bounds
import ReviewDiff.Proofs.Program.Course

/-!
# Diffs of what lies on the server

What is submitted or shelved is printed by the server.  The diff of such a range
asks Perforce, for the time and for a scratch directory, and it reads no file of
the workspace.  So it goes the same way in any two workspaces that Perforce
describes alike.
-/

namespace ReviewDiff.Perforce

open Change

/-- A question to Perforce, or the one for the time or for a scratch directory. -/
def Remote : surroundings.Request → Prop
  | .inl _ => True
  | .inr request => request = .now ∨ request = .temporaryDirectory

theorem consults_remote : Consults Remote :=
  fun _ _ => trivial

/-! ## Contents -/

/-- Contents are printed by the server if the changelist is shelved or nothing
pending is asked for. -/
theorem within_keep_remote
    {shelved : Bool} {request : Snapshots.interface.Request}
    (printable : shelved = true ∨ Snapshots.Settled request) :
    (keep shelved request).Within Remote fun _ => True := by
  apply within_keep_of_content consults_remote
  rintro path version rfl
  cases version with
  | numbered revision => exact within_printed consults_remote _
  | pending change =>
      obtain rfl : shelved = true := printable.resolve_right not_false
      exact within_printed consults_remote _

/-! ## Listed files -/

section Course

variable {σ : Type}

/-- What the range leads to lies on the server: its tip is submitted, or the
server knows it as a shelved changelist.  The default changelist cannot be
shelved. -/
def OnServer (react : surroundings.Reaction σ) (state : σ) (range : RevisionRange) :
    Prop :=
  (∃ id, range.tip = .concrete id) ∨
    ∃ change info, range.tip = .pending change ∧ change ≠ defaultChangelist ∧
      (react (.inl (.change change)) state).1 = .ok (some info) ∧
        info.status = .shelved

variable {react : surroundings.Reaction σ} {state : σ} {range : RevisionRange}

/-- Files that are listed of a range on the server have no pending content, or
their content is shelved. -/
theorem shelved_of_onServer
    (onServer : OnServer react state range) {files : List ChangedFile} {shelved : Bool}
    (listed : ((filesOf range).run.course react state).value = .ok (files, shelved)) :
    shelved = true ∨ isInFlight range = false := by
  rcases onServer with ⟨id, isTip⟩ | ⟨change, info, isTip, numbered, known, isShelf⟩
  · right
    rw [isInFlight, isTip]
  left
  unfold filesOf at listed
  split at listed
  · rename_i found _ foundTip
    obtain rfl : change = found := RevisionId.pending.inj (isTip.symm.trans foundTip)
    have shelf :
        ((Perforce.isShelved change).run.course react state).value = .ok true := by
      rw [Perforce.isShelved, if_neg numbered, Program.course_bindExcept, course_consult,
        known]
      exact congrArg (fun status => Except.ok (decide (status = ChangeStatus.shelved))) isShelf
    obtain ⟨isShelf, answered, listed⟩ :=
      (Program.course_bindExcept_eq_ok_iff react state).mp listed
    obtain rfl := Except.ok.inj (answered.symm.trans shelf)
    obtain ⟨shelf, _, listed⟩ := (Program.course_bindExcept_eq_ok_iff react _).mp listed
    exact (congrArg Prod.snd (Except.ok.inj listed)).symm
  · rename_i foundTip
    rw [isTip] at foundTip
    cases foundTip
  · cases listed

/-! ## Diffs -/

/-- The diff of what lies on the server asks nothing else. -/
theorem remote_of_asked
    (onServer : OnServer react state range) (workspace : Workspace)
    (capabilities : Option Capabilities) (options : DiffOptions) :
    ∀ question ∈
      ((workspace.diff capabilities range options).run.course react state).asked,
      Remote question.1 := by
  refine Program.forall_mem_course_bindExcept
    (Program.Within.of_course (within_filesOf consults_remote range)).1 ?_
  rintro ⟨files, shelved⟩ listed after
  have printable := shelved_of_onServer onServer listed
  have asked :
      ∀ kept stamp detectMoves,
        (synthesizeIn (keep shelved) (consultHost .temporaryDirectory) stamp range kept
            detectMoves).Within Remote (fun _ => True) (¬ ·.AboutRevisions) := by
    intro kept stamp detectMoves
    rcases printable with isShelf | submitted
    · exact within_synthesizeIn_of_forall (Or.inr rfl)
        fun _ => within_keep_remote (Or.inl isShelf)
    · exact
        within_synthesizeIn (Or.inr rfl) (fun _ settled => within_keep_remote (Or.inr settled))
          (within_plan_of_submitted submitted stamp kept detectMoves)
  have selected := within_select consults_remote workspace options files
  have timed : (consultHost .now).Within Remote fun _ => True :=
    within_consultHost .now (Or.inl rfl)
  have written :
      ∀ kept detectMoves,
        Attempt.Within Remote (fun _ => True) (¬ ·.AboutRevisions)
          (do
            let time ← Attempt.ofProgram (consultHost .now)
            synthesizeIn (keep shelved) (consultHost .temporaryDirectory) time.stamp range kept
              detectMoves) :=
    fun kept detectMoves =>
      (Attempt.within_ofProgram timed).bind fun time _ => asked kept time.stamp detectMoves
  exact (Program.Within.of_course (selected.bind fun kept _ => written kept _)).1

/-- The diff of what lies on the server goes the same way if Perforce and the clock
answer alike and a scratch directory can be made in both cases or in none,
whatever the files of the workspace hold. -/
theorem diff_ignores_workspace_files
    {other : surroundings.Reaction σ}
    (perforceAlike : ∀ request, other (.inl request) = react (.inl request))
    (timeAlike : other (.inr .now) = react (.inr .now))
    (scratchAlike : other (.inr .temporaryDirectory) = react (.inr .temporaryDirectory))
    {workspace : Workspace} {client : Client surroundings}
    (isBackend : client.backend = workspace.backend) (ready : client.lifecycle = .ready)
    (onServer : OnServer react state range) (options : DiffOptions) :
    (client.perform (.diff range options)).run.course other state =
      (client.perform (.diff range options)).run.course react state := by
  rw [Client.perform_of_ready isBackend ready rfl]
  apply Program.course_congr
  rintro ⟨request, found⟩ inCourse
  have remote := remote_of_asked onServer workspace client.capabilities options _ inCourse
  cases request with
  | inl request => exact perforceAlike request
  | inr request =>
      rcases remote with rfl | rfl
      · exact timeAlike
      · exact scratchAlike

end Course

/-- A shelved changelist that edits a file and adds an empty one, in a workspace
whose files all hold the same. -/
def shelvedEdit (held : Bytes) : (q : surroundings.Request) → surroundings.Answer q
  | .inl (.change id) => .ok (some ⟨id, .shelved, none, none, "review"⟩)
  | .inl (.describeShelved id) =>
      .ok [⟨"//d/a", 2, "edit", id⟩, ⟨"//d/b", 1, "add", id⟩]
  | .inl (.localPath path) => .ok (some ("/ws" ++ path))
  | .inl (.print spec) =>
      .ok (some (if Text.startsWith "//d/a" spec then Utf8.encode spec else []))
  | .inl _ => .error (.notFound "")
  | .inr (.contents _) => .ok held
  | .inr .now => ⟨2024, 1, 2, 3, 4, 5⟩
  | .inr (.discard _) => ()
  | .inr (.run ..) => .error (.os Host.notFound)
  | .inr (.createFile _) => .error (.os Host.notFound)
  | .inr (.createDirectories _) => .error (.os Host.notFound)
  | .inr (.writeTemporary _) => .error (.os Host.notFound)
  | .inr .temporaryPath => .error (.os Host.notFound)
  | .inr .temporaryDirectory => .ok ()

/-- Those answers, while the questions are counted. -/
def countingShelf (held : Bytes) : surroundings.Reaction Nat :=
  fun q asked => (shelvedEdit held q, asked + 1)

def shelvedRange : RevisionRange where
  base := .currentSync
  tip := .pending "9"
  commitId := some "9"

def workspaceClient : Client surroundings where
  backend := Workspace.backend ⟨"/ws", "patch"⟩
  lifecycle := .ready

/-- The files hold `1` in one workspace and `2` in the other one. -/
theorem diff_of_shelvedEdit :
    OnServer (countingShelf [49]) 0 shelvedRange ∧
      countingShelf [50] (.inr (.contents "/ws//d/a")) 0 ≠
          countingShelf [49] (.inr (.contents "/ws//d/a")) 0 ∧
        ∃ made : DiffResult,
          ((workspaceClient.perform (.diff shelvedRange {})).run.course
                (countingShelf [50]) 0).value = .ok made ∧
            (workspaceClient.perform (.diff shelvedRange {})).run.course
                (countingShelf [50]) 0 =
              (workspaceClient.perform (.diff shelvedRange {})).run.course
                (countingShelf [49]) 0 := by
  have onServer : OnServer (countingShelf [49]) 0 shelvedRange :=
    Or.inr ⟨"9", ⟨"9", .shelved, none, none, "review"⟩, rfl, by decide, rfl, rfl⟩
  have differs :
      countingShelf [50] (.inr (.contents "/ws//d/a")) 0 ≠
        countingShelf [49] (.inr (.contents "/ws//d/a")) 0 := by
    intro same
    have held : (Except.ok [50] : Except Host.Fault Bytes) = .ok [49] :=
      congrArg Prod.fst same
    exact absurd (Except.ok.inj held) (by decide)
  have perforceAlike :
      ∀ request,
        countingShelf [50] (.inl request) = countingShelf [49] (.inl request) := by
    intro request
    cases request <;> rfl
  have timeAlike : countingShelf [50] (.inr .now) = countingShelf [49] (.inr .now) := rfl
  have scratchAlike :
      countingShelf [50] (.inr .temporaryDirectory) =
        countingShelf [49] (.inr .temporaryDirectory) :=
    rfl
  have isBackend : workspaceClient.backend = Workspace.backend ⟨"/ws", "patch"⟩ := rfl
  have ready : workspaceClient.lifecycle = .ready := rfl
  exact ⟨onServer, differs, _, rfl,
    diff_ignores_workspace_files perforceAlike timeAlike scratchAlike isBackend ready
      onServer {}⟩

end ReviewDiff.Perforce
