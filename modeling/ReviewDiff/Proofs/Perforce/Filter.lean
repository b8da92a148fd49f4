import ReviewDiff.Perforce.Workspace
import ReviewDiff.Proofs.Change.Selection
import ReviewDiff.Proofs.Client.Bounds

/-!
# Diffs of the files that a caller wants

Files are left out by their paths before their records are collapsed.  If moves
are not looked for, the diff is the unfiltered one without what is written of
the paths that are left out.
-/

namespace ReviewDiff.Perforce

open Change

variable (serve : (q : surroundings.Request) → surroundings.Answer q)

/-! ## Which paths are shown -/

/-- Where in the workspace a file of the depot lies, as far as Perforce tells. -/
def placeOf (path : String) : Option String :=
  match serve (.inl (.localPath path)) with
  | .ok place => place
  | .error _ => none

/-- The names under which a file is looked for. -/
def namesOf (file : ChangedFile) : List String :=
  file.path :: (placeOf serve file.path).toList

/-- The first failure to tell where a file lies. -/
def firstFailure (files : List ChangedFile) : Option Failure :=
  files.findSome? fun file =>
    match serve (.inl (.localPath file.path)) with
    | .ok _ => none
    | .error failure => some failure

/-- The root that patterns of the caller are relative to. -/
def rootFor (patterns : List String) : String :=
  if patterns.any isRootRelative then
    match serve (.inl .info) with
    | .ok info => info.clientRoot.getD "/"
    | .error _ => "/"
  else "/"

namespace Workspace

variable (workspace : Workspace) (options : DiffOptions)

/-- What the caller wants to see, in terms of paths in the depot and in the
workspace. -/
def filterFor : Filter where
  names := options.includeFiles.map workspace.normalizeName
  excluded :=
    (options.excludePatterns.map
      (workspace.normalizePattern (rootFor serve options.excludePatterns))).map
        Glob.Pattern.ofText

/-- Whether the caller wants to see a file of the depot. -/
def shows (path : String) : Bool :=
  (workspace.filterFor serve options).keeps (path :: (placeOf serve path).toList)

end Workspace

/-! ## Results -/

section Results

variable {serve}

/-- The outcome of a question to Perforce is its answer. -/
theorem result_consult (request : Service.Request) :
    (consult request).run.result serve =
      Except.mapError .perforce (serve (.inl request)) := by
  have asked :
      (Program.first (I := Service.interface) (J := Host.interface) request).result serve =
        serve (.inl request) :=
    rfl
  refine (Program.result_bind serve (Program.first request) _).trans ?_
  rw [asked]
  cases serve (.inl request) <;> rfl

theorem result_clientRoot
    {root : Option String} (succeeds : clientRoot.run.result serve = .ok root) :
    ∃ info : ServerInfo, serve (.inl .info) = .ok info ∧ root = info.clientRoot := by
  obtain ⟨info, told, same⟩ := (Program.result_bindExcept_eq_ok_iff serve).mp succeeds
  rw [result_consult] at told
  cases answered : serve (.inl .info) with
  | error failure =>
      rw [answered] at told
      cases told
  | ok value =>
      rw [answered] at told
      cases told
      cases same
      exact ⟨_, rfl, rfl⟩

theorem result_normalizePatterns
    {workspace : Workspace} {patterns normalized : List String}
    (succeeds : (workspace.normalizePatterns patterns).run.result serve = .ok normalized) :
    normalized = patterns.map (workspace.normalizePattern (rootFor serve patterns)) := by
  unfold Workspace.normalizePatterns at succeeds
  by_cases relative : patterns.any isRootRelative = true
  · simp only [relative, if_true] at succeeds
    obtain ⟨root, found, same⟩ := (Program.result_bindExcept_eq_ok_iff serve).mp succeeds
    obtain ⟨info, answered, rfl⟩ := result_clientRoot found
    cases same
    rw [rootFor, if_pos relative, answered]
  · simp only [relative] at succeeds
    cases succeeds
    rw [rootFor, if_neg relative]
    rfl

/-- A filter goes by the names of the files, if all of them can be placed. -/
theorem result_filter_or_failure (filter : Filter) (files : List ChangedFile) :
    (filter.select files).run.result serve =
      match firstFailure serve files with
      | some failure => .error (.perforce failure)
      | none => .ok (files.filter fun file => filter.keeps (namesOf serve file)) := by
  induction files with
  | nil => rfl
  | cons file rest inductionHypothesis =>
      have located := @result_consult serve (.localPath file.path)
      rw [Filter.select, Program.result_bindExcept, located, firstFailure, List.findSome?_cons]
      cases answered : serve (.inl (.localPath file.path)) with
      | error failure => rfl
      | ok place =>
          simp only [Except.mapError]
          rw [Program.result_bindExcept, inductionHypothesis, ← firstFailure, List.filter_cons,
            namesOf, placeOf, answered]
          cases firstFailure serve rest <;> rfl

/-- A selection that goes by names fails if the patterns cannot be made comparable
or if a file cannot be placed. -/
theorem result_select_of_filtered
    {workspace : Workspace} {options : DiffOptions}
    (filtered : (options.includeFiles.isEmpty && options.excludePatterns.isEmpty) = false)
    (files : List ChangedFile) :
    (workspace.select options files).run.result serve =
      ((workspace.normalizePatterns options.excludePatterns).run.result serve).bind
        fun patterns =>
          match firstFailure serve files with
          | some failure => .error (.perforce failure)
          | none =>
              .ok (files.filter fun file =>
                (Filter.mk (options.includeFiles.map workspace.normalizeName)
                    (patterns.map Glob.Pattern.ofText)).keeps
                  (namesOf serve file)) := by
  unfold Workspace.select
  rw [filtered, if_neg Bool.false_ne_true]
  refine (Program.result_bindExcept serve _ _).trans ?_
  cases (workspace.normalizePatterns options.excludePatterns).run.result serve with
  | error failure => rfl
  | ok patterns => exact result_filter_or_failure _ files

section Located

variable (located : ∀ path, ∃ place, serve (.inl (.localPath path)) = .ok place)

include located

theorem firstFailure_of_located
    (files : List ChangedFile) :
    firstFailure serve files = none := by
  rw [firstFailure, List.findSome?_eq_none_iff]
  intro file _
  obtain ⟨place, answered⟩ := located file.path
  rw [answered]

theorem result_filter (filter : Filter) (files : List ChangedFile) :
    (filter.select files).run.result serve =
      .ok (files.filter fun file =>
        filter.keeps (file.path :: (placeOf serve file.path).toList)) := by
  rw [result_filter_or_failure, firstFailure_of_located located]
  rfl

/-- The files that are selected are those with a path that the caller wants. -/
theorem result_select
    {workspace : Workspace} {options : DiffOptions} {files kept : List ChangedFile}
    (succeeds : (workspace.select options files).run.result serve = .ok kept) :
    kept = files.filter (workspace.shows serve options ·.path) := by
  cases filtered : options.includeFiles.isEmpty && options.excludePatterns.isEmpty with
  | true =>
      rw [Workspace.select, if_pos filtered] at succeeds
      rw [Bool.and_eq_true, List.isEmpty_iff, List.isEmpty_iff] at filtered
      cases succeeds
      rw [eq_comm, List.filter_eq_self]
      intro file _
      simp [Workspace.shows, Workspace.filterFor, Filter.keeps, filtered.1, filtered.2]
  | false =>
      rw [result_select_of_filtered filtered, firstFailure_of_located located] at succeeds
      cases normalized :
          (workspace.normalizePatterns options.excludePatterns).run.result serve with
      | error failure =>
          rw [normalized] at succeeds
          cases succeeds
      | ok patterns =>
          rw [normalized] at succeeds
          cases succeeds
          obtain rfl := result_normalizePatterns normalized
          rfl

end Located

/-- How the keeper of the files answers. -/
def keeper (serve : (q : surroundings.Request) → surroundings.Answer q) (shelved : Bool) :
    (q : Snapshots.interface.Request) → Snapshots.interface.Answer q :=
  fun q => (keep shelved q).result serve

/-- Without a scratch directory there is no diff. -/
theorem result_synthesizeIn
    (shelved : Bool) (stamp : String) (range : RevisionRange) (records : List ChangedFile)
    (detectMoves : Bool) :
    (synthesizeIn (keep shelved) (consultHost .temporaryDirectory) stamp range records
        detectMoves).run.result serve =
      ((serve (.inr .temporaryDirectory) : Except Host.Fault Unit).mapError .io).map fun _ =>
        (synthesize stamp range records detectMoves).result (keeper serve shelved) := by
  have made :
      (Attempt.ofOutcome .io (consultHost .temporaryDirectory)).run.result serve =
        (serve (.inr .temporaryDirectory) : Except Host.Fault Unit).mapError .io :=
    Attempt.result_ofOutcome serve .io _
  have answered :
      ∀ {α : Type} (program : Snapshots.Query α),
        (program.interpret (keep shelved)).result serve =
          program.result (keeper serve shelved) :=
    fun program =>
      Program.result_interpret (J := Snapshots.interface) serve (keep shelved) program
  refine (Program.result_liftBind serve _ _).trans ?_
  refine (Program.result_bindExcept serve _ _).trans ?_
  rw [made]
  cases (serve (.inr .temporaryDirectory) : Except Host.Fault Unit) with
  | error fault => rfl
  | ok _ =>
      refine (Program.result_liftBind serve _ _).trans ?_
      rw [answered, answered, synthesize, Program.result_bind, fragments, Program.result_bind]
      rfl

/-- A diff is made of the listed files that are selected. -/
theorem result_diff
    (workspace : Workspace) (capabilities : Option Capabilities) (range : RevisionRange)
    (options : DiffOptions) :
    (workspace.diff capabilities range options).run.result serve =
      ((filesOf range).run.result serve).bind fun listed =>
        ((workspace.select options listed.1).run.result serve).bind fun kept =>
          ((serve (.inr .temporaryDirectory) : Except Host.Fault Unit).mapError .io).map
            fun _ =>
              (synthesize (serve (.inr .now) : Host.LocalTime).stamp range kept
                  (!options.noRenames &&
                    capabilities.any (·.has Capabilities.movedFiles))).result
                (keeper serve listed.2) := by
  refine (Program.result_bindExcept serve (filesOf range) _).trans ?_
  cases (filesOf range).run.result serve with
  | error failure => rfl
  | ok listed =>
      refine (Program.result_bindExcept serve (workspace.select options listed.1) _).trans ?_
      rw [Except.bind]
      cases (workspace.select options listed.1).run.result serve with
      | error failure => rfl
      | ok kept =>
          refine (Program.result_liftBind serve (consultHost .now) _).trans ?_
          exact result_synthesizeIn listed.2 _ range kept _

theorem result_diff_eq_ok_iff
    {workspace : Workspace} {capabilities : Option Capabilities} {range : RevisionRange}
    {options : DiffOptions} {outcome : DiffResult} :
    (workspace.diff capabilities range options).run.result serve = .ok outcome ↔
      ∃ files shelved kept,
        (filesOf range).run.result serve = .ok (files, shelved) ∧
          (workspace.select options files).run.result serve = .ok kept ∧
            serve (.inr .temporaryDirectory) = (.ok () : Except Host.Fault Unit) ∧
            outcome =
              (synthesize (serve (.inr .now) : Host.LocalTime).stamp range kept
                (!options.noRenames &&
                  capabilities.any (·.has Capabilities.movedFiles))).result
                (keeper serve shelved) := by
  rw [result_diff]
  constructor
  · intro made
    cases listed : (filesOf range).run.result serve with
    | error failure =>
        rw [listed] at made
        cases made
    | ok found =>
        rw [listed, Except.bind] at made
        cases selected : (workspace.select options found.1).run.result serve with
        | error failure =>
            rw [selected] at made
            cases made
        | ok kept =>
            rw [selected, Except.bind] at made
            cases scratch : (serve (.inr .temporaryDirectory) : Except Host.Fault Unit) with
            | error fault =>
                rw [scratch] at made
                cases made
            | ok _ =>
                rw [scratch] at made
                exact ⟨found.1, found.2, kept, rfl, selected, rfl, (Except.ok.inj made).symm⟩
  · rintro ⟨files, shelved, kept, listed, selected, scratch, rfl⟩
    rw [listed, Except.bind, selected, Except.bind, scratch]
    rfl

theorem result_perform_diff
    {workspace : Workspace} {client : Client surroundings}
    (isBackend : client.backend = workspace.backend) (ready : client.lifecycle = .ready)
    (range : RevisionRange) (options : DiffOptions) :
    (client.perform (.diff range options)).run.result serve =
      (workspace.diff client.capabilities range options).run.result serve := by
  rw [Client.perform_of_ready isBackend ready rfl]
  rfl

end Results

/-- The second diff is the first one without what is written of the paths that
the caller does not want to see, byte for byte and in the same order. -/
def LeavesOut
    (workspace : Workspace) (range : RevisionRange) (options : DiffOptions)
    (whole shown : DiffResult) : Prop :=
  ∃ files shelved, (filesOf range).run.result serve = .ok (files, shelved) ∧
    let written :=
      writtenPaths (keeper serve shelved) (serve (.inr .now) : Host.LocalTime).stamp range
        files
    (written.map Prod.fst).Nodup ∧
      whole.diff = written.flatMap Prod.snd ∧
        shown =
          { whole with
            diff :=
              (written.filter fun fragment =>
                workspace.shows serve options fragment.1).flatMap Prod.snd }

/-- If moves are not looked for and Perforce tells for every path where it is,
filters leave out what is written of the other paths, and nothing else.  This
holds as well if some contents cannot be fetched. -/
theorem diff_leaves_out_unwanted
    {workspace : Workspace} {client : Client surroundings}
    (isBackend : client.backend = workspace.backend) (ready : client.lifecycle = .ready)
    {range : RevisionRange} {options : DiffOptions}
    (noMoves :
      options.noRenames = true ∨
        client.capabilities.any (·.has Capabilities.movedFiles) = false)
    (located : ∀ path, ∃ place, serve (.inl (.localPath path)) = .ok place)
    {whole shown : DiffResult}
    (wholeMade :
      (client.perform
          (.diff range { options with includeFiles := [], excludePatterns := [] })).run.result
        serve = .ok whole)
    (shownMade : (client.perform (.diff range options)).run.result serve = .ok shown) :
    LeavesOut serve workspace range options whole shown := by
  rw [result_perform_diff isBackend ready] at wholeMade shownMade
  have moves :
      (!options.noRenames && client.capabilities.any (·.has Capabilities.movedFiles)) =
        false := by
    rcases noMoves with off | off <;> simp [off]
  obtain ⟨files, shelved, all, listed, allSelected, -, rfl⟩ :=
    result_diff_eq_ok_iff.mp wholeMade
  obtain ⟨listedFiles, listedShelved, kept, listedAgain, selected, -, rfl⟩ :=
    result_diff_eq_ok_iff.mp shownMade
  rw [listed] at listedAgain
  cases listedAgain
  cases allSelected
  obtain rfl := result_select located selected
  refine ⟨files, shelved, listed, nodup_writtenPaths _ _ _ _, ?_, ?_⟩
  · rw [moves, result_synthesize_without_moves]
  · rw [moves, result_synthesize_without_moves, result_synthesize_without_moves,
      writtenPaths_filter]

/-- Two changelists that change three files.  The content of the second file
cannot be printed. -/
def threeFiles : (q : surroundings.Request) → surroundings.Answer q
  | .inl (.submittedChanges _ _) => .ok ["6", "7"]
  | .inl (.describe change) =>
      .ok (if change = "6" then
        [⟨"//d/a", 2, "edit", "6"⟩, ⟨"//d/b", 1, "add", "6"⟩]
      else [⟨"//d/c", 1, "add", "7"⟩, ⟨"//d/a", 3, "edit", "7"⟩])
  | .inl (.localPath path) => .ok (some ("/ws" ++ path))
  | .inl (.print spec) =>
      if spec = "//d/b#1" then .error (.notFound spec) else .ok (some (Utf8.encode spec))
  | .inl _ => .error (.notFound "")
  | .inr (.discard _) => ()
  | .inr .now => ⟨2024, 1, 2, 3, 4, 5⟩
  | .inr (.run ..) => .error (.os Host.notFound)
  | .inr (.contents _) => .error (.os Host.notFound)
  | .inr (.createFile _) => .error (.os Host.notFound)
  | .inr (.createDirectories _) => .error (.os Host.notFound)
  | .inr (.writeTemporary _) => .error (.os Host.notFound)
  | .inr .temporaryPath => .error (.os Host.notFound)
  | .inr .temporaryDirectory => .ok ()

/-- A client for a workspace that was set up. -/
def readyClient : Client surroundings where
  backend := Workspace.backend ⟨"/ws", "patch"⟩
  lifecycle := .ready

/-- The range of both changelists. -/
def twoChanges : RevisionRange where
  base := .concrete "5"
  tip := .concrete "7"

/-- All files but those with a name that starts with `a`. -/
def withoutA : DiffOptions where
  excludePatterns := ["//d/a*"]

theorem leavesOut_threeFiles :
    Workspace.shows threeFiles ⟨"/ws", "patch"⟩ withoutA "//d/a" = false ∧
      Workspace.shows threeFiles ⟨"/ws", "patch"⟩ withoutA "//d/b" = true ∧
        ∃ whole shown : DiffResult,
          (readyClient.perform (.diff twoChanges {})).run.result threeFiles = .ok whole ∧
            (readyClient.perform (.diff twoChanges withoutA)).run.result threeFiles =
                .ok shown ∧
              LeavesOut threeFiles ⟨"/ws", "patch"⟩ twoChanges withoutA whole shown := by
  have located :
      ∀ path, ∃ place, threeFiles (.inl (.localPath path)) = .ok place :=
    fun _ => ⟨_, rfl⟩
  have rejected : Workspace.shows threeFiles ⟨"/ws", "patch"⟩ withoutA "//d/a" = false := by
    change
      (Filter.mk [] [Glob.Pattern.ofText "//d/a*"]).keeps ["//d/a", "/ws//d/a"] = false
    cbv
  have wanted : Workspace.shows threeFiles ⟨"/ws", "patch"⟩ withoutA "//d/b" = true := by
    change
      (Filter.mk [] [Glob.Pattern.ofText "//d/a*"]).keeps ["//d/b", "/ws//d/b"] = true
    cbv
  obtain ⟨whole, wholeMade⟩ :
      ∃ whole : DiffResult,
        (readyClient.perform (.diff twoChanges {})).run.result threeFiles = .ok whole :=
    ⟨_, rfl⟩
  obtain ⟨shown, shownMade⟩ :
      ∃ shown : DiffResult,
        (readyClient.perform (.diff twoChanges withoutA)).run.result threeFiles =
          .ok shown := by
    rw [result_perform_diff
      (rfl : readyClient.backend = Workspace.backend ⟨"/ws", "patch"⟩) rfl]
    exact
      ⟨_, result_diff_eq_ok_iff.mpr ⟨_, _, _, rfl, result_filter located _ _, rfl, rfl⟩⟩
  refine ⟨rejected, wanted, whole, shown, wholeMade, shownMade, ?_⟩
  exact
    diff_leaves_out_unwanted threeFiles rfl rfl (Or.inr rfl) located wholeMade shownMade

end ReviewDiff.Perforce
