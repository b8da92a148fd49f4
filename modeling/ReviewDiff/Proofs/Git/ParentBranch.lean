import ReviewDiff.Proofs.Client.Bounds
import ReviewDiff.Proofs.Git.Bounds

/-!
# Ranges that are cut at a parent branch

With a parent branch the diff of a range starts at the commit of that branch,
and a second diff covers what lies between the base of the range and that
commit.  The two diffs meet at the commit, whatever tokens name the range.
-/

namespace ReviewDiff.Git

variable (serve : (q : Host.interface.Request) → Host.interface.Answer q)

/-! ## Comparisons -/

/-- The arguments for a comparison of the given ends: of two commits, or of one
commit with the working tree. -/
def comparison (options : DiffOptions) (ends : List String) : List String :=
  ["diff", "--no-color", "--no-ext-diff", "--full-index", "--ignore-submodules"] ++
    [if options.noRenames then "--no-renames" else "-M"] ++ options.extraArguments ++
    ends ++ ["--"] ++ options.includeFiles ++ options.excludePatterns.map (":(exclude)" ++ ·)

theorem diffArguments_eq_comparison
    (options : DiffOptions) (base : String) (tip : Option String) :
    diffArguments options base tip = comparison options (base :: tip.toList) := by
  simp [diffArguments, comparison]

namespace WorkingTree

variable (tree : WorkingTree)

/-- Runs git in the tree. -/
def running (arguments : List String) : Host.Request :=
  .run tree.program arguments (some tree.directory)

/-- What git printed, or how it failed. -/
def printed (arguments : List String) : Except Host.Fault Host.Completed → Except Failure Bytes
  | .ok completed =>
      if completed.succeeded then .ok completed.stdout
      else .error (.command (Host.commandLine tree.program arguments) completed.output)
  | .error fault =>
      .error (.command (Host.commandLine tree.program arguments) fault.message)

/-- What git prints when it compares the ends. -/
def compared (options : DiffOptions) (ends : List String) : Except Failure Bytes :=
  tree.printed (comparison options ends) (serve (tree.running (comparison options ends)))

theorem diffBetween_eq_ask
    (options : DiffOptions) (base : String) (tip : Option String) :
    (tree.diffBetween options base tip).run =
      Program.ask (I := Host.interface)
        (tree.running (comparison options (base :: tip.toList))) fun outcome =>
          .done (tree.printed (comparison options (base :: tip.toList)) outcome) := by
  rw [diffBetween, diffArguments_eq_comparison]
  refine congrArg (Program.ask (I := Host.interface) (tree.running _)) ?_
  funext outcome
  cases outcome with
  | error fault => rfl
  | ok completed =>
      rw [printed]
      change
        Program.andThen
            (if completed.succeeded = true then pure completed
              else throw (tree.failed (comparison options (base :: tip.toList))
                completed.output) : Query Host.Completed).run
            (ExceptT.bindCont fun completed => (pure completed.stdout : Query Bytes)) = _
      split <;> rfl

theorem result_diffBetween (options : DiffOptions) (base : String) (tip : Option String) :
    (tree.diffBetween options base tip).run.result serve =
      tree.compared serve options (base :: tip.toList) := by
  rw [diffBetween_eq_ask]
  rfl

theorem questions_diffBetween
    (options : DiffOptions) (base : String) (tip : Option String) :
    (tree.diffBetween options base tip).run.questions serve =
      [tree.running (comparison options (base :: tip.toList))] := by
  rw [diffBetween_eq_ask]
  rfl

/-! ## Diffs -/

section Ends

variable {range : RevisionRange} {commit : String}

theorem commitAt_tip (tip : IsCommit range.tip ∨ range.tip = .workingCopy) :
    commitAt range.tip = .ok range.tip.concrete? := by
  rcases tip with ⟨id, isTip⟩ | isTip <;> rw [isTip] <;> rfl

variable (base : range.base = .concrete commit)
  (tip : IsCommit range.tip ∨ range.tip = .workingCopy) (options : DiffOptions)

include base tip

theorem diff_of_base (parentBase : range.parentBase = none) :
    tree.diff range options =
      tree.diffBetween options commit range.tip.concrete? >>= fun diff =>
        pure { diff, commitId := range.commitId, baseCommitId := some commit } := by
  rw [diff, base, commitAt_tip tip, parentBase]
  rfl

theorem diff_of_parentBase
    {behind : String} (parentBase : range.parentBase = some (.concrete behind)) :
    tree.diff range options =
      tree.diffBetween options commit range.tip.concrete? >>= fun diff =>
        tree.diffBetween options behind (some commit) >>= fun parentDiff =>
          pure
            { diff, parentDiff := some parentDiff, commitId := range.commitId,
              baseCommitId := some commit } := by
  rw [diff, base, commitAt_tip tip, parentBase]
  refine congrArg (tree.diffBetween options commit range.tip.concrete? >>= ·) ?_
  funext diff
  refine ExceptT.ext ((Program.andThen_assoc _ _ _).trans ?_)
  refine congrArg (Program.andThen (tree.diffBetween options behind (some commit)).run) ?_
  funext outcome
  cases outcome <;> rfl

end Ends

/-- The client compares a commit with the tip of the range and, if that succeeds
and something lies behind the commit, what lies behind with the commit.  The
result holds what git printed, the second time as the parent diff, and the
commit as its base; a comparison that fails is the failure of the diff. -/
structure Compares
    (client : Client Host.interface) (range : RevisionRange) (options : DiffOptions)
    (commit : String) (behind : Option String) : Prop where
  questions :
    (client.perform (.diff range options)).run.questions serve =
      tree.running (comparison options (commit :: range.tip.concrete?.toList)) ::
        match behind, tree.compared serve options (commit :: range.tip.concrete?.toList) with
        | some base, .ok _ => [tree.running (comparison options [base, commit])]
        | _, _ => []
  result :
    (client.perform (.diff range options)).run.result serve =
      (tree.compared serve options (commit :: range.tip.concrete?.toList)).bind fun diff =>
        (behind.mapM fun base => tree.compared serve options [base, commit]).map
          fun parentDiff =>
            { diff, parentDiff, commitId := range.commitId, baseCommitId := some commit }

theorem compares_of_ends
    {client : Client Host.interface}
    (isBackend : client.backend = tree.backend) (ready : client.lifecycle = .ready)
    {range : RevisionRange} {commit : String} {behind : Option String}
    (isBase : range.base = .concrete commit)
    (isTip : IsCommit range.tip ∨ range.tip = .workingCopy)
    (parentBase : range.parentBase = behind.map .concrete) (options : DiffOptions) :
    tree.Compares serve client range options commit behind := by
  have performed :
      client.perform (.diff range options) = tree.diff range options :=
    Client.perform_of_ready isBackend ready rfl
  cases behind with
  | none =>
      rw [tree.diff_of_base isBase isTip options parentBase] at performed
      constructor
      · rw [performed]
        refine (Program.questions_bindExcept serve (tree.diffBetween ..) _).trans ?_
        rw [questions_diffBetween, result_diffBetween]
        cases tree.compared serve options (commit :: range.tip.concrete?.toList) <;> rfl
      · rw [performed]
        refine (Program.result_bindExcept serve (tree.diffBetween ..) _).trans ?_
        rw [result_diffBetween]
        cases tree.compared serve options (commit :: range.tip.concrete?.toList) <;> rfl
  | some base =>
      rw [tree.diff_of_parentBase isBase isTip options parentBase] at performed
      constructor
      · rw [performed]
        refine (Program.questions_bindExcept serve (tree.diffBetween ..) _).trans ?_
        rw [questions_diffBetween, result_diffBetween]
        cases tree.compared serve options (commit :: range.tip.concrete?.toList) with
        | error failure => rfl
        | ok diff =>
            refine congrArg (List.cons _) ?_
            refine (Program.questions_bindExcept serve (tree.diffBetween ..) _).trans ?_
            rw [questions_diffBetween, result_diffBetween, Option.toList_some]
            cases tree.compared serve options [base, commit] <;> rfl
      · rw [performed]
        refine (Program.result_bindExcept serve (tree.diffBetween ..) _).trans ?_
        rw [result_diffBetween]
        cases tree.compared serve options (commit :: range.tip.concrete?.toList) with
        | error failure => rfl
        | ok diff =>
            refine (Program.result_bindExcept serve (tree.diffBetween ..) _).trans ?_
            rw [result_diffBetween, Option.toList_some, Except.bind, Option.mapM_some]
            cases tree.compared serve options [base, commit] <;> rfl

/-! ## Ranges -/

theorem commit_withBranch (branch : Option String) (revision : String) :
    ({ tree with parentBranch := branch } : WorkingTree).commit revision =
      tree.commit revision := by
  have sameRun :
      ∀ arguments,
        ({ tree with parentBranch := branch } : WorkingTree).run arguments =
          tree.run arguments := by
    intro arguments
    refine ExceptT.ext
      (congrArg (Program.ask (I := Host.interface) (tree.running arguments)) ?_)
    funext outcome
    cases outcome <;> rfl
  rw [commit, sameRun, commit]

/-- What the parent branch is does not matter for the range that tokens name. -/
theorem rangeOf_withBranch (branch : Option String) (tokens : List String) :
    ({ tree with parentBranch := branch } : WorkingTree).rangeOf tokens =
      tree.rangeOf tokens := by
  unfold rangeOf between
  simp only [commit_withBranch]

theorem result_resolve_of_none
    (noBranch : tree.parentBranch = none) (tokens : List String) :
    (tree.resolve tokens).run.result serve = (tree.rangeOf tokens).run.result serve := by
  rw [resolve, Program.result_bindExcept, noBranch]
  cases (tree.rangeOf tokens).run.result serve <;> rfl

theorem result_resolve_of_some
    {branch : String} (isBranch : tree.parentBranch = some branch) (tokens : List String) :
    (tree.resolve tokens).run.result serve =
      ((tree.rangeOf tokens).run.result serve).bind fun range =>
        ((tree.commit branch).run.result serve).map (withParent range) := by
  rw [resolve, Program.result_bindExcept, isBranch]
  cases (tree.rangeOf tokens).run.result serve with
  | error failure => rfl
  | ok range =>
      refine (Program.result_bindExcept serve (tree.commit branch) _).trans ?_
      rw [Except.bind]
      cases (tree.commit branch).run.result serve <;> rfl

variable {serve} in
theorem ranges_of_result_rangeOf
    {tree : WorkingTree} {tokens : List String} {range : RevisionRange}
    (found : (tree.rangeOf tokens).run.result serve = .ok range) :
    Ranges range ∧ range.parentBase = none := by
  have yields :
      (tree.rangeOf tokens).run.Yields (fun _ _ => True)
        ((tree.rangeOf tokens).run.result serve) :=
    Program.yields_run (fun _ => trivial) _
  rw [found] at yields
  exact Program.Within.of_yields (tree.within_rangeOf tokens) yields

end WorkingTree

/-- A client with a parent branch resolves tokens to the range that a client
without one does, cut at the commit of the branch: the base moves to that
commit, and what lay before it becomes the base of the parent diff, unless the
commit is the base already.  Whatever git answers later and whatever the caller
wishes, the diff of that range compares the commit with the tip, and in the
second case the old base with the commit.  If the tokens or the branch cannot be
resolved, that is the failure. -/
theorem parentBranch_cuts_range
    {tree : WorkingTree} {branch : String} (isBranch : tree.parentBranch = some branch)
    {cutting plain : Client Host.interface}
    (isCutting : cutting.backend = tree.backend) (ready : cutting.lifecycle = .ready)
    (isPlain : plain.backend = ({ tree with parentBranch := none } : WorkingTree).backend)
    (plainReady : plain.lifecycle = .ready) (tokens : List String) :
    (∀ failure,
        (plain.perform (.resolve tokens)).run.result serve = .error failure →
          (cutting.perform (.resolve tokens)).run.result serve = .error failure) ∧
      ∀ range, (plain.perform (.resolve tokens)).run.result serve = .ok range →
        (∀ failure,
            (tree.commit branch).run.result serve = .error failure →
              (cutting.perform (.resolve tokens)).run.result serve = .error failure) ∧
          ∀ parent, (tree.commit branch).run.result serve = .ok parent →
            (range.base = .concrete parent →
                (cutting.perform (.resolve tokens)).run.result serve = .ok range ∧
                  ∀ later options, tree.Compares later cutting range options parent none) ∧
              (range.base ≠ .concrete parent →
                ∃ base cut,
                  range.base = .concrete base ∧
                    cut =
                      { base := .concrete parent, tip := range.tip,
                        parentBase := some (.concrete base), commitId := range.commitId } ∧
                    (cutting.perform (.resolve tokens)).run.result serve = .ok cut ∧
                    ∀ later options,
                      tree.Compares later cutting cut options parent (some base)) := by
  have plainResolved :
      (plain.perform (.resolve tokens)).run.result serve =
        (tree.rangeOf tokens).run.result serve := by
    rw [Client.perform_of_ready isPlain plainReady rfl]
    refine (WorkingTree.result_resolve_of_none serve _ rfl tokens).trans ?_
    rw [WorkingTree.rangeOf_withBranch]
  have resolved :
      (cutting.perform (.resolve tokens)).run.result serve =
        ((tree.rangeOf tokens).run.result serve).bind fun range =>
          ((tree.commit branch).run.result serve).map (withParent range) := by
    rw [Client.perform_of_ready isCutting ready rfl]
    exact tree.result_resolve_of_some serve isBranch tokens
  rw [plainResolved, resolved]
  refine ⟨fun failure unresolved => by rw [unresolved]; rfl, fun range found => ?_⟩
  obtain ⟨ranges, unparented⟩ := WorkingTree.ranges_of_result_rangeOf found
  obtain ⟨base, isBase⟩ := ranges.base
  rw [found]
  refine ⟨fun failure noCommit => by rw [noCommit]; rfl, fun parent isParent => ?_⟩
  rw [isParent]
  constructor
  · intro same
    refine ⟨congrArg Except.ok (if_pos same), fun later options => ?_⟩
    refine tree.compares_of_ends later isCutting ready same ranges.tip ?_ options
    exact unparented
  · intro apart
    refine ⟨base, _, isBase, rfl, ?_, fun later options => ?_⟩
    · rw [← isBase]
      exact congrArg Except.ok (if_neg apart)
    · refine tree.compares_of_ends later isCutting ready ?_ ?_ ?_ options
      · rfl
      · exact ranges.tip
      · rfl

/-- A history of three commits, of which `main` is the first one.  Of a comparison
git prints its own command. -/
def threeCommits : (q : Host.interface.Request) → Host.interface.Answer q
  | .run _ ["rev-parse", "--verify", "--quiet", "c2^\x7bcommit\x7d"] _ =>
      .ok ⟨some 0, Utf8.encode "c2\n", []⟩
  | .run _ ["rev-parse", "--verify", "--quiet", "c2^^\x7bcommit\x7d"] _ =>
      .ok ⟨some 0, Utf8.encode "c1\n", []⟩
  | .run _ ["rev-parse", "--verify", "--quiet", "main^\x7bcommit\x7d"] _ =>
      .ok ⟨some 0, Utf8.encode "c0\n", []⟩
  | .run program arguments _ =>
      .ok ⟨some 0, Utf8.encode (Host.commandLine program arguments), []⟩
  | .contents _ => .error (.os Host.notFound)
  | .createFile _ => .error (.os Host.notFound)
  | .createDirectories _ => .error (.os Host.notFound)
  | .writeTemporary _ => .error (.os Host.notFound)
  | .temporaryPath => .error (.os Host.notFound)
  | .temporaryDirectory => .error (.os Host.notFound)
  | .discard _ => ()
  | .now => ⟨2024, 1, 2, 3, 4, 5⟩

def branchedTree : WorkingTree where
  directory := "/ws"
  parentBranch := some "main"

def branchedClient : Client Host.interface where
  backend := branchedTree.backend
  lifecycle := .ready

def unbranchedClient : Client Host.interface where
  backend := ({ branchedTree with parentBranch := none } : WorkingTree).backend
  lifecycle := .ready

/-- The last commit is compared with the branch, and so is the commit before it. -/
theorem cuts_last_commit :
    ∃ cut : RevisionRange,
      (branchedClient.perform (.resolve ["c2"])).run.result threeCommits = .ok cut ∧
        cut = ⟨.concrete "c0", .concrete "c2", some (.concrete "c1"), some "c2"⟩ ∧
          branchedTree.Compares threeCommits branchedClient cut {} "c0" (some "c1") := by
  have isBranch : branchedTree.parentBranch = some "main" := rfl
  have isCutting : branchedClient.backend = branchedTree.backend := rfl
  have ready : branchedClient.lifecycle = .ready := rfl
  have plainReady : unbranchedClient.lifecycle = .ready := rfl
  have plainResolved :
      (unbranchedClient.perform (.resolve ["c2"])).run.result threeCommits =
        .ok (⟨.concrete "c1", .concrete "c2", none, some "c2"⟩ : RevisionRange) :=
    rfl
  have isParent : (branchedTree.commit "main").run.result threeCommits = .ok "c0" := rfl
  obtain ⟨_, cuts⟩ :=
    parentBranch_cuts_range threeCommits isBranch isCutting ready rfl plainReady ["c2"]
  obtain ⟨base, cut, isBase, rfl, resolved, compares⟩ :=
    ((cuts _ plainResolved).2 "c0" isParent).2 (by decide)
  obtain rfl : base = "c1" := (RevisionId.concrete.inj isBase).symm
  exact ⟨_, resolved, rfl, compares threeCommits {}⟩

end ReviewDiff.Git
