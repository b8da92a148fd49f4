import ReviewDiff.Proofs.Client.Bounds
import ReviewDiff.Proofs.Git.Bounds
import ReviewDiff.Proofs.Perforce.Bounds

/-!
# Ranges that a client names and diffs

The range that a client makes of tokens is one that it can diff.  Tokens are
resolved with one set of answers and the diff is made with another one, so the
range alone has to carry what the diff relies on: its shape.
-/

namespace ReviewDiff.Client

variable {I : Interface}

/-- In some run the client finds that the tokens name the range. -/
def Names (client : Client I) (tokens : List String) (range : RevisionRange) : Prop :=
  (client.perform (.resolve tokens)).run.Yields (fun _ _ => True) (.ok range)

/-- Whatever is wanted and whatever is answered, the client does not find fault
with the range when it is to make its diff. -/
def Accepts (client : Client I) (range : RevisionRange) : Prop :=
  ∀ options failure,
    (client.perform (.diff range options)).run.Yields (fun _ _ => True) (.error failure) →
      ¬ failure.AboutRevisions

/-- A shape that named ranges have and that keeps diffs from being refused is
what a client needs. -/
theorem accepts_of_names
    (asks : I.Request → Prop)
    {client : Client I} {shape : RevisionRange → Prop} {tokens : List String}
    {range : RevisionRange}
    (resolves :
      ∀ attempt ∈ client.backend.provide client.capabilities (.resolve tokens),
        attempt.Within asks shape fun _ => True)
    (diffs :
      shape range → ∀ options,
        ∀ attempt ∈ client.backend.provide client.capabilities (.diff range options),
          attempt.Within asks (fun _ => True) (¬ ·.AboutRevisions))
    (names : client.Names tokens range) :
    shape range ∧ client.Accepts range := by
  have shaped : shape range :=
    Program.Within.of_yields
      (client.within_perform (.resolve tokens) resolves nofun trivial trivial) names
  refine ⟨shaped, fun options failure fails => ?_⟩
  exact
    Program.Within.of_yields
      (client.within_perform (.diff range options) (diffs shaped options) nofun not_false
        not_false) fails

/-- A range that tokens name has one of the shapes that the client for it can
diff.  For Perforce it is a pending changelist against the synced state, or it
lies between two changelists with numbers in order, which are next to each other
if one token names it.  For git it starts at a commit and ends at a commit or in
the working tree, also if the base was moved to a parent branch. -/
theorem named_ranges_are_accepted :
    (∀ {J : Interface} (workspace : Perforce.Workspace)
        (serve : (q : Perforce.surroundings.Request) →
          Program J (Perforce.surroundings.Answer q))
        (client : Client J) (tokens : List String) (range : RevisionRange),
        client.backend = workspace.backend.interpret serve →
          client.Names tokens range → range.NamedBy tokens ∧ client.Accepts range) ∧
      ∀ (tree : Git.WorkingTree) (client : Client Host.interface) (tokens : List String)
        (range : RevisionRange),
        client.backend = tree.backend →
          client.Names tokens range → Git.Ranges range ∧ client.Accepts range := by
  constructor
  · intro J workspace serve client tokens range isBackend names
    have served :
        ∀ q, Perforce.Routine q → (serve q).Within (fun _ => True) fun _ => True :=
      fun q _ => Program.within_anything (serve q)
    refine accepts_of_names (fun _ => True) ?_ ?_ names
    · rw [isBackend]
      refine Backend.within_interpret ?_ served
      rintro _ ⟨⟩
      exact Perforce.within_resolve tokens
    · intro named options
      rw [isBackend]
      refine Backend.within_interpret ?_ served
      rintro _ ⟨⟩
      exact
        (Perforce.within_diff workspace client.capabilities range options).mono
          (fun _ fits => fits) fun _ spares => spares named.listable
  · intro tree client tokens range isBackend names
    refine accepts_of_names Git.Routine ?_ ?_ names
    · rw [isBackend]
      rintro _ ⟨⟩
      exact tree.within_resolve tokens
    · intro ranges options
      rw [isBackend]
      rintro _ ⟨⟩
      exact (tree.within_diff range options).mono (fun _ fits => fits)
        fun _ spares => spares ranges

/-- A client for a workspace that was set up. -/
def readyWorkspace : Client Perforce.surroundings where
  backend := (Perforce.Workspace.backend ⟨"/ws", "patch"⟩).interpret Program.request
  lifecycle := .ready

/-- A client for a branch of a working tree that was set up. -/
def readyBranch : Client Host.interface where
  backend := (Git.WorkingTree.mk "/ws" "git" (some "main") "patch").backend
  lifecycle := .ready

/-- What git prints for a commit. -/
def printedCommit (id : String) : Except Host.Fault Host.Completed :=
  .ok ⟨some 0, Utf8.encode (id ++ "\n"), []⟩

/-- A submitted changelist, and a token of a branch whose base is moved to the
parent branch. -/
theorem accepts_change_and_branch :
    (readyWorkspace.Names ["7"] ⟨.concrete "6", .concrete "7", none, some "7"⟩ ∧
        readyWorkspace.Accepts ⟨.concrete "6", .concrete "7", none, some "7"⟩) ∧
      (readyBranch.Names ["c2"]
          ⟨.concrete "c0", .concrete "c2", some (.concrete "c1"), some "c2"⟩ ∧
        readyBranch.Accepts
          ⟨.concrete "c0", .concrete "c2", some (.concrete "c1"), some "c2"⟩) := by
  have change :
      readyWorkspace.Names ["7"] ⟨.concrete "6", .concrete "7", none, some "7"⟩ :=
    ⟨.ok (some ⟨"7", .submitted, none, none, ""⟩), trivial, rfl⟩
  have branch :
      readyBranch.Names ["c2"]
        ⟨.concrete "c0", .concrete "c2", some (.concrete "c1"), some "c2"⟩ := by
    refine ⟨printedCommit "c2", trivial, ?_⟩
    refine ⟨printedCommit "c1", trivial, ?_⟩
    exact ⟨printedCommit "c0", trivial, rfl⟩
  refine ⟨⟨change, ?_⟩, branch, ?_⟩
  · exact (named_ranges_are_accepted.1 _ _ readyWorkspace ["7"] _ rfl change).2
  · exact (named_ranges_are_accepted.2 _ readyBranch ["c2"] _ rfl branch).2

end ReviewDiff.Client
