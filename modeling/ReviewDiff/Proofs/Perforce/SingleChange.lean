import ReviewDiff.Proofs.Client.Bounds
import ReviewDiff.Proofs.Perforce.Filter
import ReviewDiff.Proofs.Revision

/-!
# One submitted changelist

A submitted changelist can be named alone or as the end of a range that starts
at its predecessor.  Named alone, nothing but the changelist itself is looked
up; as a range, the changelists in it are listed first.  Both ways lead to the
same diff, and only the first one records it under the changelist.
-/

namespace ReviewDiff.Perforce

open Change

variable {serve : (q : surroundings.Request) → surroundings.Answer q}

/-! ## Resolution -/

/-- The server knows the changelist, and it is submitted. -/
def IsSubmitted
    (serve : (q : surroundings.Request) → surroundings.Answer q) (change : String) : Prop :=
  ∃ info : ChangeInfo,
    serve (.inl (.change change)) = .ok (some info) ∧ info.status = .submitted

theorem result_statusOf {change : String} (submitted : IsSubmitted serve change) :
    (RevisionRange.statusOf statusOf change).run.result serve = .ok .submitted := by
  obtain ⟨info, known, isSubmitted⟩ := submitted
  have found : (statusOf change).run.result serve = .ok (some .submitted) := by
    unfold statusOf
    rw [Program.result_bindExcept, result_consult, known, ← isSubmitted]
    rfl
  unfold RevisionRange.statusOf
  rw [Program.result_bindExcept, found]
  rfl

theorem result_requireSubmitted {change : String} (submitted : IsSubmitted serve change) :
    (RevisionRange.requireSubmitted statusOf change).run.result serve = .ok () := by
  unfold RevisionRange.requireSubmitted
  rw [Program.result_bindExcept, result_statusOf submitted]
  rfl

/-- What lies after one changelist, up to another. -/
def between (first last : Nat) : RevisionRange where
  base := .concrete (toString first)
  tip := .concrete (toString last)

/-- The changelist behind another one, known by its number. -/
def single (previous : Nat) : RevisionRange :=
  { between previous (previous + 1) with commitId := some (toString (previous + 1)) }

section Numbered

variable {previous : Nat} (fits : previous < Text.max64)

include fits

theorem result_ofTokens_single (submitted : IsSubmitted serve (toString (previous + 1))) :
    (RevisionRange.ofTokens statusOf [toString (previous + 1)]).run.result serve =
      .ok (single previous) := by
  rw [RevisionRange.ofTokens, RevisionRange.ofChange, Program.result_bindExcept,
    result_statusOf submitted]
  simp only [ChangeStatus.isPending, Bool.false_eq_true, if_false, parseChange_toString fits]
  rfl

theorem result_ofTokens_pair
    (baseSubmitted : IsSubmitted serve (toString previous))
    (submitted : IsSubmitted serve (toString (previous + 1))) :
    (RevisionRange.ofTokens statusOf
        [toString previous, toString (previous + 1)]).run.result serve =
      .ok (between previous (previous + 1)) := by
  have ordered : ¬ previous + 1 < previous := Nat.not_lt.mpr (Nat.le_succ previous)
  rw [RevisionRange.ofTokens, RevisionRange.ofChanges, Program.result_bindExcept,
    result_requireSubmitted baseSubmitted]
  simp only [Program.result_bindExcept, result_requireSubmitted submitted,
    parseChange_toString fits, parseChange_toString (Nat.le_of_lt fits),
    Attempt.result_ofExcept, Nat.succ_eq_add_one, ordered, if_false]
  rfl

/-! ## Files -/

theorem result_submittedChanges
    (listed :
      serve (.inl (.submittedChanges previous (previous + 1))) =
        .ok [toString (previous + 1)]) :
    (submittedChanges (between previous (previous + 1)) (toString previous)
        (toString (previous + 1))).run.result serve =
      .ok [toString (previous + 1)] := by
  have unnamed :
      ¬ (between previous (previous + 1)).commitId = some (toString (previous + 1)) :=
    nofun
  rw [submittedChanges, if_neg unnamed]
  refine
    (Program.result_bindExcept_eq_ok_iff serve).mpr
      ⟨previous, parseChange_toString (Nat.le_of_lt fits), ?_⟩
  refine
    (Program.result_bindExcept_eq_ok_iff serve).mpr
      ⟨previous + 1, parseChange_toString fits, ?_⟩
  exact (result_consult _).trans (congrArg (Except.mapError Failure.perforce) listed)

/-- The changelist that the server lists is the one that is looked up alone. -/
theorem result_filesOf_single
    (listed :
      serve (.inl (.submittedChanges previous (previous + 1))) =
        .ok [toString (previous + 1)]) :
    (filesOf (single previous)).run.result serve =
      (filesOf (between previous (previous + 1))).run.result serve := by
  have alone :
      (submittedChanges (single previous) (toString previous)
          (toString (previous + 1))).run.result serve =
        .ok [toString (previous + 1)] := by
    have named : (single previous).commitId = some (toString (previous + 1)) := rfl
    rw [submittedChanges, if_pos named]
    rfl
  refine (Program.result_bindExcept serve (submittedChanges (single previous) _ _) _).trans ?_
  refine Eq.trans ?_
    (Program.result_bindExcept serve
      (submittedChanges (between previous (previous + 1)) _ _) _).symm
  rw [alone, result_submittedChanges fits listed]

end Numbered

/-! ## Diffs -/

/-- Ranges with the same files, opened in both of them or in none, have the same
diff.  Each records it under its own identifier. -/
theorem result_diff_of_sameFiles
    {range other : RevisionRange}
    (sameFiles : (filesOf other).run.result serve = (filesOf range).run.result serve)
    (sameState : isInFlight other = isInFlight range)
    (workspace : Workspace) (capabilities : Option Capabilities) (options : DiffOptions) :
    (workspace.diff capabilities other options).run.result serve =
      ((workspace.diff capabilities range options).run.result serve).map
        fun made : DiffResult => { made with commitId := other.commitId } := by
  have sameFragments :
      ∀ stamp kept detectMoves,
        fragments stamp other kept detectMoves = fragments stamp range kept detectMoves := by
    intro stamp kept detectMoves
    rw [fragments, sameState, fragments]
  rw [result_diff, result_diff, sameFiles]
  cases (filesOf range).run.result serve with
  | error failure => rfl
  | ok found =>
      rw [Except.bind, Except.bind]
      cases (workspace.select options found.1).run.result serve with
      | error failure => rfl
      | ok kept =>
          rw [Except.bind, Except.bind]
          cases (serve (.inr .temporaryDirectory) : Except Host.Fault Unit) with
          | error fault => rfl
          | ok _ =>
              simp only [Except.mapError, Except.map, synthesize, Program.result_bind,
                sameFragments]
              rfl

/-- A diff is recorded under the identifier of its range. -/
theorem commitId_of_diff
    {workspace : Workspace} {capabilities : Option Capabilities} {range : RevisionRange}
    {options : DiffOptions} {made : DiffResult}
    (succeeds : (workspace.diff capabilities range options).run.result serve = .ok made) :
    made.commitId = range.commitId := by
  obtain ⟨files, shelved, kept, _, _, _, rfl⟩ := result_diff_eq_ok_iff.mp succeeds
  rw [synthesize, Program.result_bind]
  rfl

end ReviewDiff.Perforce

namespace ReviewDiff.Client

/-- Makes the diff of the range that the tokens name. -/
def diffNamed
    {I : Interface} (client : Client I) (tokens : List String) (options : DiffOptions) :
    Attempt I DiffResult := do
  let range : RevisionRange ← client.perform (.resolve tokens)
  client.perform (.diff range options)

open Perforce

variable {serve : (q : surroundings.Request) → surroundings.Answer q}

theorem result_diffNamed
    {workspace : Workspace} {client : Client surroundings}
    (isBackend : client.backend = workspace.backend) (ready : client.lifecycle = .ready)
    {tokens : List String} {range : RevisionRange}
    (names : (RevisionRange.ofTokens statusOf tokens).run.result serve = .ok range)
    (options : DiffOptions) :
    (client.diffNamed tokens options).run.result serve =
      (workspace.diff client.capabilities range options).run.result serve := by
  have resolved : (client.perform (.resolve tokens)).run.result serve = .ok range := by
    rw [perform_of_ready isBackend ready rfl]
    exact names
  refine (Program.result_bindExcept serve (client.perform (.resolve tokens)) _).trans ?_
  rw [resolved]
  exact result_perform_diff isBackend ready range options

/-- A submitted changelist leads to the same diff, or to the same failure, as
the range that ends in it and starts at its predecessor, if the server lists
nothing else in that range.  Only the diff of the changelist is recorded under
an identifier.  Numbers of changelists have 64 bits: the server cannot be asked
for others. -/
theorem diffNamed_single
    {workspace : Workspace} {client : Client surroundings}
    (isBackend : client.backend = workspace.backend)
    {previous : Nat} (fits : previous < Text.max64)
    (baseSubmitted : IsSubmitted serve (toString previous))
    (submitted : IsSubmitted serve (toString (previous + 1)))
    (listed :
      serve (.inl (.submittedChanges previous (previous + 1))) =
        .ok [toString (previous + 1)])
    (options : DiffOptions) :
    ((client.diffNamed [toString (previous + 1)] options).run.result serve =
        ((client.diffNamed [toString previous, toString (previous + 1)]
          options).run.result serve).map
            fun made => { made with commitId := some (toString (previous + 1)) }) ∧
      ∀ made,
        (client.diffNamed [toString previous, toString (previous + 1)]
            options).run.result serve = .ok made →
          made.commitId = none := by
  by_cases ready : client.lifecycle = .ready
  · rw [result_diffNamed isBackend ready (result_ofTokens_single fits submitted),
      result_diffNamed isBackend ready (result_ofTokens_pair fits baseSubmitted submitted)]
    refine ⟨?_, fun made succeeds => commitId_of_diff succeeds⟩
    exact result_diff_of_sameFiles (result_filesOf_single fits listed) rfl _ _ _
  · have refused :
        ∀ tokens,
          (client.diffNamed tokens options).run.result serve =
            .error (.notSetUp client.backend.name) := by
      intro tokens
      rw [diffNamed, perform_of_unready ready isBackend rfl]
      rfl
    rw [refused, refused]
    exact ⟨rfl, nofun⟩

/-- Submitted changelists, none of which lies between two others that are next
to each other. -/
def neighbours : (q : surroundings.Request) → surroundings.Answer q
  | .inl (.change id) => .ok (some ⟨id, .submitted, none, none, ""⟩)
  | .inl (.submittedChanges _ through) => .ok [toString through]
  | q => threeFiles q

theorem diffNamed_seven :
    ∃ made : DiffResult,
      (readyClient.diffNamed ["6", "7"] {}).run.result neighbours = .ok made ∧
        (readyClient.diffNamed ["7"] {}).run.result neighbours =
            .ok { made with commitId := some "7" } ∧
          made.commitId = none := by
  have isBackend : readyClient.backend = Workspace.backend ⟨"/ws", "patch"⟩ := rfl
  have fits : 6 < Text.max64 := by decide
  have submitted : ∀ change, IsSubmitted neighbours change := fun _ => ⟨_, rfl, rfl⟩
  have listed : neighbours (.inl (.submittedChanges 6 7)) = .ok [toString 7] := rfl
  obtain ⟨same, unnamed⟩ :=
    diffNamed_single isBackend fits (submitted _) (submitted _) listed {}
  obtain ⟨made, succeeds⟩ :
      ∃ made : DiffResult,
        (readyClient.diffNamed ["6", "7"] {}).run.result neighbours = .ok made :=
    ⟨_, rfl⟩
  refine ⟨made, succeeds, ?_, unnamed made succeeds⟩
  exact same.trans (congrArg (Except.map _) succeeds)

end ReviewDiff.Client
