import ReviewDiff.Client.Open
import ReviewDiff.Proofs.Client.Session
import ReviewDiff.Proofs.Git.Bounds
import ReviewDiff.Proofs.Perforce.Bounds
import ReviewDiff.Proofs.Perforce.Serve

/-!
# The life of the clients for Perforce and git

Both kinds of clients look for their tools by one question, which they ask for
nothing else, so whatever is called in whatever order, a client keeps to the
order of its life.
-/

namespace ReviewDiff

/-! ## How tools are looked for -/

namespace Perforce

theorem runs_checkTools
    {asked : List surroundings.Request} {found : Except ReviewDiff.Failure Unit}
    (runs : checkTools.outcome.Runs asked found) :
    asked = [.inl .checkInstalled] := by
  obtain ⟨answer, behind, rfl, runs⟩ := runs
  cases answer with
  | ok value =>
      obtain ⟨rfl, -⟩ := runs
      rfl
  | error failure =>
      obtain ⟨rfl, -⟩ := runs
      rfl

/-- A patch program is told at least to remove the files that it leaves empty. -/
theorem routine_of_asks
    {workspace : Workspace} {request : Patch.Request} {q : Host.Request}
    (asks : workspace.backend.applier.Asks request q) :
    Routine (.inr q) := by
  cases q with
  | run program arguments directory =>
      obtain ⟨-, -, file, rfl⟩ := asks
      unfold Patch.Applier.arguments
      cases request.revert with
      | true => exact Or.inl rfl
      | false => exact Or.inr rfl
  | _ => trivial

/-- Clients that ask a Perforce server and the host. -/
theorem searchesBy_backend (workspace : Workspace) :
    workspace.backend.SearchesBy (.inl .checkInstalled) where
  search _ _ runs := runs_checkTools runs
  provided := by
    intro capabilities operation attempt provided
    refine Program.Within.mono
      (within_provide workspace capabilities operation attempt provided) ?_ fun _ fits => fits
    rintro q routine rfl
    exact routine
  hosted := by
    intro request q asks
    exact ⟨nofun, fun _ => trivial⟩

theorem bridge_routine
    (connection : Connection) {q : surroundings.Request} (routine : Routine q) :
    (connection.bridge q).Within (· ≠ connection.probe) fun _ => True := by
  cases q with
  | inl request =>
      refine connection.within_serve ?_
      rintro rfl
      exact routine
  | inr request =>
      refine Program.within_request (I := Host.interface) ?_
      rintro rfl
      have head := connection.head_probe_arguments
      rcases routine with told | told <;> simp [told] at head

/-- Clients that run the Perforce program. -/
theorem searchesBy_interpret (workspace : Workspace) (connection : Connection) :
    (workspace.backend.interpret connection.bridge).SearchesBy connection.probe where
  search := by
    intro asked found runs
    obtain ⟨before, answer, behind, rfl, first, second⟩ :=
      Program.runs_bind.mp
        (runs : (connection.serve .checkInstalled >>= _).Runs asked found)
    obtain rfl := Connection.runs_checkInstalled first
    cases answer <;> (obtain ⟨rfl, -⟩ := second; rfl)
  provided capabilities operation :=
    Backend.within_interpret (within_provide workspace capabilities operation)
      fun _ routine => bridge_routine connection routine
  hosted := by
    intro request q asks
    have asked : (consultHost q).Within Routine fun _ => True :=
      within_consultHost q (routine_of_asks asks)
    exact asked.interpret fun _ routine => bridge_routine connection routine

end Perforce

namespace Git

theorem runs_checkTools
    {tree : WorkingTree} {asked : List Host.interface.Request} {found : Except Failure Unit}
    (runs : tree.checkTools.outcome.Runs asked found) :
    asked = [.run tree.program ["--version"] none] := by
  obtain ⟨answer, behind, rfl, runs⟩ := runs
  cases answer with
  | error fault =>
      obtain ⟨rfl, -⟩ := runs
      rfl
  | ok completed =>
      change
        (if completed.succeeded then pure ()
          else throw (.dependency "Git" completed.output) : Query Unit).run.Runs behind found
        at runs
      split at runs <;> (obtain ⟨rfl, -⟩ := runs; rfl)

/-- Clients that run git. -/
theorem searchesBy_backend (tree : WorkingTree) :
    tree.backend.SearchesBy (.run tree.program ["--version"] none) where
  search _ _ runs := runs_checkTools runs
  provided := by
    intro capabilities operation attempt provided
    refine Program.Within.mono (tree.within_provide operation attempt provided) ?_
      fun _ fits => fits
    rintro q routine rfl
    exact routine rfl
  hosted := by
    intro request q asks
    refine Program.within_request (I := Host.interface) ?_
    rintro rfl
    exact absurd asks.2.1 nofun

end Git

/-! ## Before a client is ready -/

/-- What a client for Perforce that is not ready replies.  Pending changes are
not provided, so that nothing guards them. -/
def Perforce.unreadyReply :
    (operation : Operation) → Except ReviewDiff.Failure operation.Result
  | .pendingChanges => .error (.notImplemented "Perforce" "has_pending_changes")
  | .localPath | .repositoryInfo | .repositoryName | .serverUrl | .resolve _ | .diff ..
  | .message _ | .applyEmptyFiles .. =>
      .error (.notSetUp "Perforce")

/-- What a client for git that is not ready replies.  The name of the repository
and the headers for empty files are not provided, so that nothing guards them. -/
def Git.unreadyReply : (operation : Operation) → Except Failure operation.Result
  | .repositoryName => .ok (none : Option String)
  | .applyEmptyFiles .. => .error (.notImplemented "Git" "apply_patch_for_empty_files")
  | .localPath | .repositoryInfo | .serverUrl | .pendingChanges | .resolve _ | .diff ..
  | .message _ =>
      .error (.notSetUp "Git")

namespace Client

section

variable {I : Interface} {client : Client I}

theorem perform_of_unready_perforce
    (named : client.backend.name = "Perforce")
    (lacking : ∀ operation,
      client.backend.provide client.capabilities operation = none ↔
        operation = .pendingChanges)
    (unready : client.lifecycle ≠ .ready)
    (operation : Operation) :
    client.perform operation = Attempt.ofExcept (Perforce.unreadyReply operation) := by
  have lacks := lacking operation
  cases operation with
  | pendingChanges =>
      unfold perform
      rw [lacks.mpr rfl, named]
      rfl
  | _ =>
      obtain ⟨attempt, provided⟩ := Option.ne_none_iff_exists'.mp (mt lacks.mp nofun)
      rw [perform_of_unready unready rfl provided, named]
      rfl

end

theorem perform_of_unready_workspace
    {workspace : Perforce.Workspace} {client : Client Perforce.surroundings}
    (isBackend : client.backend = workspace.backend)
    (unready : client.lifecycle ≠ .ready)
    (operation : Operation) :
    client.perform operation = Attempt.ofExcept (Perforce.unreadyReply operation) := by
  refine perform_of_unready_perforce (by rw [isBackend]; rfl) ?_ unready operation
  intro operation
  rw [isBackend]
  cases operation with
  | pendingChanges => exact ⟨fun _ => rfl, fun _ => rfl⟩
  | _ => exact ⟨nofun, nofun⟩

theorem perform_of_unready_connection
    {workspace : Perforce.Workspace} {connection : Perforce.Connection}
    {client : Client Host.interface}
    (isBackend : client.backend = workspace.backend.interpret connection.bridge)
    (unready : client.lifecycle ≠ .ready)
    (operation : Operation) :
    client.perform operation = Attempt.ofExcept (Perforce.unreadyReply operation) := by
  refine perform_of_unready_perforce (by rw [isBackend]; rfl) ?_ unready operation
  intro operation
  rw [isBackend]
  cases operation with
  | pendingChanges => exact ⟨fun _ => rfl, fun _ => rfl⟩
  | _ => exact ⟨nofun, nofun⟩

theorem perform_of_unready_tree
    {tree : Git.WorkingTree} {client : Client Host.interface}
    (isBackend : client.backend = tree.backend)
    (unready : client.lifecycle ≠ .ready)
    (operation : Operation) :
    client.perform operation = Attempt.ofExcept (Git.unreadyReply operation) := by
  have named : client.backend.name = "Git" := by
    rw [isBackend]
    rfl
  cases operation with
  | repositoryName =>
      unfold perform
      rw [isBackend]
      rfl
  | applyEmptyFiles patch stripCount revert =>
      unfold perform
      rw [isBackend]
      rfl
  | _ =>
      rw [perform_of_unready unready isBackend rfl, named]
      rfl

end Client

/-! ## Sessions -/

/-- Clients as they are opened, and how they look for their tools. -/
inductive Opened : {I : Interface} → Client I → I.Request → Prop where
  | workspace (workspace : Perforce.Workspace) :
      Opened { backend := workspace.backend } (.inl .checkInstalled)
  | connection (workspace : Perforce.Workspace) (connection : Perforce.Connection) :
      Opened { backend := workspace.backend.interpret connection.bridge } connection.probe
  | tree (tree : Git.WorkingTree) :
      Opened { backend := tree.backend } (.run tree.program ["--version"] none)

theorem Perforce.opened_openIn (config : Config) (directory : String) :
    Opened (Perforce.openIn config directory)
      (Perforce.Connection.ofConfig config directory).probe :=
  .connection _ _

theorem Git.opened_openIn (config : Config) (directory : String) :
    Opened (Git.openIn config directory) (.run config.git.executable ["--version"] none) :=
  .tree (WorkingTree.ofConfig config directory)

/-- Whatever is called in whatever order, and whatever is answered, an opened
client keeps to the order of its life. -/
theorem sessions_are_orderly
    {I : Interface} {client last : Client I} {probe : I.Request} {steps : List (Step I)}
    (opened : Opened client probe) (session : Session client steps last) :
    Orderly probe client steps last := by
  cases opened with
  | workspace workspace =>
      exact session.orderly (Perforce.searchesBy_backend workspace) rfl
  | connection workspace connection =>
      exact session.orderly (Perforce.searchesBy_interpret workspace connection) rfl
  | tree tree => exact session.orderly (Git.searchesBy_backend tree) rfl

/-- The root of a working tree is asked for before and after the client is set
up, and the tools are looked for once in between. -/
def settingUp : List (Step Host.interface) :=
  let fresh := Git.openIn {} "/ws"
  [⟨.perform .localPath, fresh, [], fresh, .error (.notSetUp "Git")⟩,
    ⟨.hasTools, fresh, [.run "git" ["--version"] none],
      { fresh with lifecycle := .available }, true⟩,
    ⟨.setUp, { fresh with lifecycle := .available }, [],
      { fresh with lifecycle := .ready }, .ok ()⟩,
    ⟨.perform .localPath, { fresh with lifecycle := .ready },
      [.run "git" ["rev-parse", "--show-toplevel"] (some "/ws")],
      { fresh with lifecycle := .ready }, .ok (some "/ws")⟩]

/-- A client without its tools is set up twice. -/
def lackingTools : List (Step Host.interface) :=
  let fresh := Git.openIn {} "/ws"
  let detail := "could not run 'git': No such file or directory (os error 2)"
  [⟨.setUp, fresh, [.run "git" ["--version"] none],
      { fresh with lifecycle := .missing detail }, .error (.dependency "Git" detail)⟩,
    ⟨.hasTools, { fresh with lifecycle := .missing detail }, [],
      { fresh with lifecycle := .missing detail }, false⟩,
    ⟨.setUp, { fresh with lifecycle := .missing detail }, [],
      { fresh with lifecycle := .missing detail }, .error (.dependency "Git" detail)⟩]

theorem settingUp_and_lackingTools_are_orderly :
    Opened (Git.openIn {} "/ws") (Host.Request.run "git" ["--version"] none) ∧
      (∃ last, Session (Git.openIn {} "/ws") settingUp last ∧
        Orderly (Host.Request.run "git" ["--version"] none) (Git.openIn {} "/ws")
          settingUp last) ∧
      ∃ last, Session (Git.openIn {} "/ws") lackingTools last ∧
        Orderly (Host.Request.run "git" ["--version"] none) (Git.openIn {} "/ws")
          lackingTools last := by
  have opened := Git.opened_openIn {} "/ws"
  refine ⟨opened, ?_, ?_⟩
  · have session : Session (Git.openIn {} "/ws") settingUp
        { Git.openIn {} "/ws" with lifecycle := .ready } := by
      refine .call ?_ ?_
      · exact ⟨rfl, rfl⟩
      refine .call ?_ ?_
      · exact ⟨.ok ⟨some 0, [], []⟩, [], rfl, rfl, rfl⟩
      refine .call ?_ ?_
      · exact ⟨rfl, rfl⟩
      refine .call ?_ (.nil _)
      exact ⟨.ok ⟨some 0, Utf8.encode "/ws\n", []⟩, [], rfl, rfl, rfl⟩
    exact ⟨_, session, sessions_are_orderly opened session⟩
  · have session : Session (Git.openIn {} "/ws") lackingTools
        { Git.openIn {} "/ws" with
          lifecycle :=
            .missing "could not run 'git': No such file or directory (os error 2)" } := by
      refine .call ?_ ?_
      · exact ⟨.error (.os Host.notFound), [], rfl, rfl, rfl⟩
      refine .call ?_ ?_
      · exact ⟨rfl, rfl⟩
      refine .call ?_ (.nil _)
      exact ⟨rfl, rfl⟩
    exact ⟨_, session, sessions_are_orderly opened session⟩

end ReviewDiff
