import Mathlib.Data.List.Forall2
import ReviewDiff.Client.Open
import ReviewDiff.Proofs.Program.Conversation

/-!
# Detection of a working copy

Each kind of client is recognised by two commands: one that shows that its tools
are there, and one that tells the root of the working copy.

* `claim_converses_iff` follows one kind of client through its commands.
* `candidates_converses_iff` follows all of them, one after the other.
* `detect_converses_iff` says what is asked in a detection and what comes of it,
  whatever the commands print and in whatever way they fail.
-/

namespace ReviewDiff

/-! ## Recognition -/

/-- A command and the directory in which it runs. -/
structure Host.Command where
  program : String
  arguments : List String
  directory : Option String

/-- The question to the host that runs the command. -/
def Host.Command.request (command : Host.Command) : Host.interface.Request :=
  .run command.program command.arguments command.directory

/-- Runs the command and goes on with its answer. -/
def Host.Command.run
    {α : Type} (command : Host.Command)
    (next : Except Host.Fault Host.Completed → Program Host.interface α) :
    Program Host.interface α :=
  .ask (I := Host.interface) command.request next

/-- How a working copy of some kind is recognised: one command shows that the tools
are there, and another one tells the root. -/
structure Recognition where
  probe : Host.Command
  question : Host.Command
  root? : Host.Completed → Option String

/-- What a command left behind that ran to its end and reported success. -/
def succeeded? : Except Host.Fault Host.Completed → Option Host.Completed
  | .ok completed => if completed.succeeded then some completed else none
  | .error _ => none

/-- The commands are run, as far as it takes, and this is the root that they
report.  Without its tools a kind of client reports nothing. -/
inductive Recognition.Hears (recognition : Recognition) :
    List Host.interface.Exchange → Option String → Prop where
  | missing {probed : Except Host.Fault Host.Completed} (fails : succeeded? probed = none) :
      recognition.Hears [⟨recognition.probe.request, probed⟩] none
  | told {probed told : Except Host.Fault Host.Completed}
      (passes : succeeded? probed ≠ none) :
      recognition.Hears
        [⟨recognition.probe.request, probed⟩, ⟨recognition.question.request, told⟩]
        ((succeeded? told).bind recognition.root?)

/-- The kinds of clients are asked one after the other. -/
inductive Recognition.HearsAll :
    List Recognition → List Host.interface.Exchange → List (Option String) → Prop where
  | nil : HearsAll [] [] []
  | cons {recognition : Recognition} {recognitions : List Recognition}
      {first others : List Host.interface.Exchange} {root : Option String}
      {roots : List (Option String)} (hears : recognition.Hears first root)
      (more : HearsAll recognitions others roots) :
      HearsAll (recognition :: recognitions) (first ++ others) (root :: roots)

namespace Client

/-- A client that was set up. -/
def readied {I : Interface} (client : Client I) : Client I :=
  { client with lifecycle := .ready }

/-- A client that was not used before looks for its tools and for its working
copy by the two commands. -/
structure RecognisedBy (client : Client Host.interface) (recognition : Recognition) :
    Prop where
  fresh : client.lifecycle = .unprobed
  probes :
    ∃ failure : Except Host.Fault Host.Completed → Failure,
      client.backend.checkTools.run =
        recognition.probe.run fun probed =>
          .done (if succeeded? probed = none then .error (failure probed) else .ok ())
  tells :
    ∃ tell : Except Host.Fault Host.Completed → Except Failure (Option String),
      (∀ told, (tell told).toOption.join = (succeeded? told).bind recognition.root?) ∧
        client.backend.provide client.capabilities .localPath =
          some (recognition.question.run fun told => .done (tell told))

/-- The candidate that a client is when it reports this root. -/
def candidate? (client : Client Host.interface) (root : Option String) : Option Candidate :=
  root.map fun root => ⟨root, client.readied⟩

section Claims

variable {client : Client Host.interface} {recognition : Recognition}

theorem exists_hasTools_eq (recognised : client.RecognisedBy recognition) :
    ∃ lost : Except Host.Fault Host.Completed → Client Host.interface,
      client.hasTools =
        recognition.probe.run fun probed =>
          .done
            (if succeeded? probed = none then (lost probed, false)
            else ({ client with lifecycle := .available }, true)) := by
  obtain ⟨failure, probes⟩ := recognised.probes
  refine ⟨fun probed => { client with lifecycle := .ofSearch (.error (failure probed)) }, ?_⟩
  rw [hasTools, search, recognised.fresh]
  dsimp only
  rw [Attempt.outcome, probes]
  refine congrArg (Program.ask _) (funext fun probed => ?_)
  by_cases fails : succeeded? probed = none
  · simp only [if_pos fails]
    cases failure probed <;> rfl
  · simp only [if_neg fails]
    rfl

theorem locate_readied_run_eq (recognised : client.RecognisedBy recognition) :
    client.readied.locate.run =
      recognition.question.run fun told =>
        .done (.ok (client.candidate? ((succeeded? told).bind recognition.root?))) := by
  obtain ⟨tell, tells, provides⟩ := recognised.tells
  have performs :
      (client.readied.perform .localPath).outcome =
        recognition.question.run fun told => .done (tell told) := by
    have provided :
        client.readied.backend.provide client.readied.capabilities .localPath =
          some (recognition.question.run fun told => .done (tell told)) :=
      provides
    rw [perform, provided]
    rfl
  rw [locate, performs]
  refine congrArg (Program.ask _) (funext fun told => ?_)
  dsimp only
  rw [← tells told]
  generalize tell told = reported
  cases reported with
  | error failure => rfl
  | ok root => cases root <;> rfl

theorem claim_run_eq (recognised : client.RecognisedBy recognition) :
    client.claim.run =
      recognition.probe.run fun probed =>
        if succeeded? probed = none then .done (.ok none)
        else
          recognition.question.run fun told =>
            .done (.ok (client.candidate? ((succeeded? told).bind recognition.root?))) := by
  obtain ⟨lost, looks⟩ := exists_hasTools_eq recognised
  rw [claim, looks]
  refine congrArg (Program.ask _) (funext fun probed => ?_)
  by_cases fails : succeeded? probed = none
  · simp only [if_pos fails]
    rfl
  · simp only [if_neg fails]
    have located := locate_readied_run_eq recognised
    exact located

/-- A claim never fails, and it is what the two commands report. -/
theorem claim_converses_iff
    (recognised : client.RecognisedBy recognition)
    {heard : List Host.interface.Exchange} {outcome : Except Failure (Option Candidate)} :
    client.claim.run.Converses heard outcome ↔
      ∃ root, recognition.Hears heard root ∧ outcome = .ok (client.candidate? root) := by
  rw [claim_run_eq recognised]
  constructor
  · rintro ⟨probed, rest, rfl, converses⟩
    dsimp only at converses
    by_cases fails : succeeded? probed = none
    · rw [if_pos fails] at converses
      obtain ⟨rfl, rfl⟩ := converses
      exact ⟨none, .missing fails, rfl⟩
    · rw [if_neg fails] at converses
      obtain ⟨told, behind, rfl, rfl, rfl⟩ := converses
      exact ⟨_, .told fails, rfl⟩
  · rintro ⟨root, hears, rfl⟩
    cases hears with
    | @missing probed fails =>
        refine ⟨probed, [], rfl, ?_⟩
        dsimp only
        rw [if_pos fails]
        exact ⟨rfl, rfl⟩
    | @told probed told passes =>
        refine ⟨probed, _, rfl, ?_⟩
        dsimp only
        rw [if_neg passes]
        exact ⟨told, [], rfl, rfl, rfl⟩

end Claims

/-- Asking all clients never fails, and each of them that reports a root is a
candidate. -/
theorem candidates_converses_iff
    {clients : List (Client Host.interface)} {recognitions : List Recognition}
    (recognised : List.Forall₂ RecognisedBy clients recognitions)
    {heard : List Host.interface.Exchange} {outcome : Except Failure (List Candidate)} :
    (candidates clients).run.Converses heard outcome ↔
      ∃ roots, Recognition.HearsAll recognitions heard roots ∧
        outcome = .ok ((List.zipWith candidate? clients roots).filterMap id) := by
  induction recognised generalizing heard outcome with
  | nil =>
      constructor
      · rintro ⟨rfl, rfl⟩
        exact ⟨[], .nil, rfl⟩
      · rintro ⟨roots, hears, rfl⟩
        cases hears
        exact ⟨rfl, rfl⟩
  | @cons client recognition clients recognitions first _ inductionHypothesis =>
      have join :
          ∀ root roots,
            (client.candidate? root).toList ++
                (List.zipWith candidate? clients roots).filterMap id =
              (List.zipWith candidate? (client :: clients) (root :: roots)).filterMap id := by
        intro root roots
        cases root <;> rfl
      have claims :
          ∀ before middle, client.claim.run.Converses before middle →
            ∃ result, middle = .ok result := by
        intro before middle converses
        obtain ⟨root, -, rfl⟩ := (claim_converses_iff first).mp converses
        exact ⟨_, rfl⟩
      have others :
          ∀ before middle, (candidates clients).run.Converses before middle →
            ∃ result, middle = .ok result := by
        intro before middle converses
        obtain ⟨roots, -, rfl⟩ := inductionHypothesis.mp converses
        exact ⟨_, rfl⟩
      rw [candidates, Program.converses_bindOk claims]
      simp only [Program.converses_bindOk others, claim_converses_iff first,
        inductionHypothesis, Except.ok.injEq]
      constructor
      · rintro ⟨before, _, behind, rfl, ⟨root, hears, rfl⟩, later, _, nothing, rfl,
          ⟨roots, more, rfl⟩, rfl, rfl⟩
        rw [List.append_nil]
        exact ⟨root :: roots, .cons hears more, congrArg Except.ok (join root roots)⟩
      · rintro ⟨roots, hears, rfl⟩
        cases hears with
        | @cons _ _ before later root roots hears more =>
            refine ⟨before, _, later, rfl, ⟨root, hears, rfl⟩, later, _, [],
              (List.append_nil _).symm, ⟨roots, more, rfl⟩, rfl, ?_⟩
            exact congrArg Except.ok (join root roots).symm

theorem exists_candidates
    {clients : List (Client Host.interface)} {recognitions : List Recognition}
    (recognised : List.Forall₂ RecognisedBy clients recognitions)
    (heard : List Host.interface.Exchange) (outcome : Except Failure (List Candidate))
    (converses : (candidates clients).run.Converses heard outcome) :
    ∃ found, outcome = .ok found := by
  obtain ⟨roots, -, rfl⟩ := (candidates_converses_iff recognised).mp converses
  exact ⟨_, rfl⟩

end Client

/-! ## Perforce and git -/

namespace Perforce

/-- The outcome of a command that has to succeed. -/
def Connection.outputOf
    (connection : Connection) (arguments : List String) :
    Except Host.Fault Host.Completed → Except Failure String
  | .ok completed =>
      if completed.succeeded then .ok (Utf8.decodeLossy completed.stdout)
      else .error (connection.failed arguments completed)
  | .error fault => .error (.notInstalled connection.program fault)

/-- How the connection runs the Perforce program. -/
def Connection.command (connection : Connection) (arguments : List String) :
    Host.Command where
  program := connection.program
  arguments := connection.options ++ arguments
  directory := connection.directory

theorem Connection.output_run_eq (connection : Connection) (arguments : List String) :
    (connection.output arguments).run =
      (connection.command arguments).run fun ran =>
        .done (connection.outputOf arguments ran) := by
  refine congrArg (Program.ask _) (funext fun ran => ?_)
  cases ran with
  | error fault => rfl
  | ok completed =>
      change
        (if completed.succeeded then pure (Utf8.decodeLossy completed.stdout)
          else throw (connection.failed arguments completed) : Command String).run = _
      rw [outputOf]
      split <;> rfl

/-- A command whose output is read in some way. -/
theorem Connection.read_output_run_eq
    {α : Type} (connection : Connection) (arguments : List String) (read : String → α) :
    ExceptT.run (connection.output arguments >>= fun text => pure (read text)) =
      (connection.command arguments).run fun ran =>
        .done ((connection.outputOf arguments ran).map read) := by
  rw [ExceptT.run_bind, connection.output_run_eq]
  refine congrArg (Program.ask _) (funext fun ran => ?_)
  dsimp only
  generalize connection.outputOf arguments ran = printed
  cases printed <;> rfl

/-- A command that does not succeed has no output. -/
theorem Connection.outputOf_toOption
    (connection : Connection) (arguments : List String)
    (ran : Except Host.Fault Host.Completed) :
    (connection.outputOf arguments ran).toOption =
      (succeeded? ran).map fun completed => Utf8.decodeLossy completed.stdout := by
  cases ran with
  | error fault => rfl
  | ok completed =>
      rw [outputOf, succeeded?]
      split <;> rfl

/-- Perforce is recognised by its version and by the root of the client that it
tells, if the directory lies in that root. -/
def recognition (config : Config) (directory : String) : Recognition where
  probe := (Connection.ofConfig config directory).command ["-V"]
  question := (Connection.ofConfig config directory).command ["info"]
  root? completed :=
    (ServerInfo.read (Utf8.decodeLossy completed.stdout)).clientRoot.filter
      (Path.isWithin · directory)

theorem serve_checkInstalled_eq (connection : Connection) :
    connection.serve .checkInstalled =
      (connection.command ["-V"]).run fun ran =>
        .done ((connection.outputOf ["-V"] ran).map fun _ => ()) :=
  connection.read_output_run_eq ["-V"] fun _ => ()

theorem serve_info_eq (connection : Connection) :
    connection.serve .info =
      (connection.command ["info"]).run fun ran =>
        .done ((connection.outputOf ["info"] ran).map ServerInfo.read) :=
  connection.read_output_run_eq ["info"] ServerInfo.read

theorem recognisedBy_openIn (config : Config) (directory : String) :
    (openIn config directory).RecognisedBy (recognition config directory) where
  fresh := rfl
  probes := by
    let connection := Connection.ofConfig config directory
    let told (ran : Except Host.Fault Host.Completed) : String :=
      match connection.outputOf ["-V"] ran with
      | .ok _ => ""
      | .error failure => failure.message
    refine ⟨fun ran => .dependency "Perforce" (told ran), ?_⟩
    change (connection.serve .checkInstalled).andThen _ = _
    rw [serve_checkInstalled_eq]
    refine congrArg (Program.ask _) (funext fun ran => ?_)
    have printed := connection.outputOf_toOption ["-V"] ran
    dsimp only [told]
    cases shape : connection.outputOf ["-V"] ran with
    | error failure =>
        rw [shape] at printed
        rw [if_pos (Option.map_eq_none_iff.mp printed.symm)]
        rfl
    | ok text =>
        rw [shape] at printed
        rw [if_neg fun fails => by rw [fails] at printed; cases printed]
        rfl
  tells := by
    let connection := Connection.ofConfig config directory
    refine ⟨fun ran =>
      ((connection.outputOf ["info"] ran).map fun text =>
        (ServerInfo.read text).clientRoot.filter (Path.isWithin · directory)).mapError
          .perforce, ?_, ?_⟩
    · intro ran
      have printed := connection.outputOf_toOption ["info"] ran
      have reads :
          (succeeded? ran).bind (recognition config directory).root? =
            (connection.outputOf ["info"] ran).toOption.bind fun text =>
              (ServerInfo.read text).clientRoot.filter (Path.isWithin · directory) := by
        rw [printed, Option.bind_map]
        rfl
      rw [reads]
      dsimp only
      generalize connection.outputOf ["info"] ran = answered
      cases answered <;> rfl
    · refine congrArg some ?_
      change (connection.serve .info).andThen _ = _
      rw [serve_info_eq]
      refine congrArg (Program.ask _) (funext fun ran => ?_)
      dsimp only
      generalize connection.outputOf ["info"] ran = printed
      cases printed <;> rfl

end Perforce

namespace Git

/-- Git is recognised by its version and by the root that it prints. -/
def recognition (config : Config) (directory : String) : Recognition where
  probe :=
    { program := config.git.executable, arguments := ["--version"], directory := none }
  question :=
    { program := config.git.executable
      arguments := ["rev-parse", "--show-toplevel"]
      directory := some directory }
  root? completed :=
    if trimmedOutput completed = "" then none else some (trimmedOutput completed)

theorem recognisedBy_openIn (config : Config) (directory : String) :
    (openIn config directory).RecognisedBy (recognition config directory) where
  fresh := rfl
  probes := by
    refine
      ⟨fun
        | .ok completed => .dependency "Git" completed.output
        | .error fault =>
            .dependency "Git"
              ("could not run '" ++ config.git.executable ++ "': " ++ fault.message),
        congrArg (Program.ask _) (funext fun probed => ?_)⟩
    cases probed with
    | error fault => rfl
    | ok completed =>
        change
          (if completed.succeeded then pure ()
            else throw (.dependency "Git" completed.output) : Query Unit).run = _
        dsimp only [succeeded?]
        split <;> rfl
  tells := by
    let tree := WorkingTree.ofConfig config directory
    refine ⟨fun
      | .ok completed => .ok (answer? completed)
      | .error fault => .error (tree.failed ["rev-parse", "--show-toplevel"] fault.message),
      ?_, ?_⟩
    · intro ran
      cases ran with
      | error fault => rfl
      | ok completed =>
          change answer? completed = _
          cases passes : completed.succeeded <;>
            by_cases empty : trimmedOutput completed = "" <;>
              simp [answer?, succeeded?, recognition, passes, empty]
    · refine congrArg (fun ask => some (Program.ask _ ask)) (funext fun ran => ?_)
      cases ran <;> rfl

end Git

/-! ## Detection -/

/-- What is detected when Perforce and git report these roots.  What is found is
ready, and there is no deeper root than the one that it reported.  Of two equally
deep ones it is that of git. -/
structure Detected (config : Config) (directory : String) (perforce git : Option String)
    (outcome : Except Failure (Client Host.interface)) : Prop where
  nothing_iff :
    outcome = .error (.noRepository directory) ↔ perforce = none ∧ git = none
  fails : ∀ failure, outcome = .error failure → failure = .noRepository directory
  found :
    ∀ client, outcome = .ok client →
      (client = (Perforce.openIn config directory).readied ∧
          ∃ root ∈ perforce, ∀ other ∈ git, Path.depth other < Path.depth root) ∨
        client = (Git.openIn config directory).readied ∧
          ∃ root ∈ git, ∀ other ∈ perforce, Path.depth other ≤ Path.depth root

/-- The client that is chosen when Perforce and git report these roots. -/
def chosen (config : Config) (directory : String) (perforce git : Option String) :
    Except Failure (Client Host.interface) :=
  match Client.deepest?
      ([(Perforce.openIn config directory).candidate? perforce,
        (Git.openIn config directory).candidate? git].filterMap id) with
  | some candidate => .ok candidate.client
  | none => .error (.noRepository directory)

/-- Only if both report a root, the depths decide. -/
theorem chosen_eq (config : Config) (directory : String) (perforce git : Option String) :
    chosen config directory perforce git =
      match perforce, git with
      | none, none => .error (.noRepository directory)
      | some _, none => .ok (Perforce.openIn config directory).readied
      | none, some _ => .ok (Git.openIn config directory).readied
      | some root, some other =>
          .ok
            (if Path.depth other < Path.depth root then
              (Perforce.openIn config directory).readied
            else (Git.openIn config directory).readied) := by
  match perforce, git with
  | none, none | some _, none | none, some _ => rfl
  | some root, some other =>
      by_cases less : Path.depth other < Path.depth root <;>
        simp [chosen, Client.candidate?, Client.deepest?, less]

theorem detected_chosen
    (config : Config) (directory : String) (perforce git : Option String) :
    Detected config directory perforce git (chosen config directory perforce git) := by
  rw [chosen_eq]
  match perforce, git with
  | none, none | some _, none | none, some _ =>
      constructor <;> simp
  | some root, some other =>
      refine ⟨by simp, by simp, ?_⟩
      rintro _ ⟨⟩
      by_cases less : Path.depth other < Path.depth root
      · exact .inl ⟨if_pos less, root, rfl, by rintro _ ⟨⟩; exact less⟩
      · exact .inr ⟨if_neg less, other, rfl, by rintro _ ⟨⟩; exact Nat.le_of_not_lt less⟩

/-- What has to be detected determines the outcome. -/
theorem detected_iff
    {config : Config} {directory : String} {perforce git : Option String}
    {outcome : Except Failure (Client Host.interface)} :
    Detected config directory perforce git outcome ↔
      outcome = chosen config directory perforce git := by
  refine ⟨?_, fun equal => equal ▸ detected_chosen config directory perforce git⟩
  rintro ⟨nothing, fails, found⟩
  rw [chosen_eq]
  cases outcome with
  | error failure =>
      obtain rfl := fails failure rfl
      obtain ⟨rfl, rfl⟩ := nothing.mp rfl
      rfl
  | ok client =>
      obtain ⟨rfl, root, rfl, deeper⟩ | ⟨rfl, root, rfl, deeper⟩ := found client rfl
      · cases git with
        | none => rfl
        | some other => exact congrArg Except.ok (if_pos (deeper other rfl)).symm
      · cases perforce with
        | none => rfl
        | some other =>
            exact congrArg Except.ok (if_neg (Nat.not_lt.mpr (deeper other rfl))).symm

/-- Once the candidates are there, nothing more is asked. -/
theorem converses_deepest_iff
    {directory : String} (found : List Client.Candidate) {heard : List Host.interface.Exchange}
    {outcome : Except Failure (Client Host.interface)} :
    (match Client.deepest? found with
        | some candidate => pure candidate.client
        | none => throw (.noRepository directory) :
        Attempt Host.interface (Client Host.interface)).run.Converses heard outcome ↔
      heard = [] ∧ outcome =
        match Client.deepest? found with
        | some candidate => .ok candidate.client
        | none => .error (.noRepository directory) := by
  cases Client.deepest? found <;> exact Iff.rfl

/-- In a detection Perforce and git are asked for their roots one after the other,
whatever either of them answers, and the outcome is as it has to be with these
roots.  All answers are possible. -/
theorem detect_converses_iff
    {config : Config} {directory : String} {heard : List Host.interface.Exchange}
    {outcome : Except Failure (Client Host.interface)} :
    (Client.detect config directory).run.Converses heard outcome ↔
      ∃ first second perforce git, heard = first ++ second ∧
        (Perforce.recognition config directory).Hears first perforce ∧
        (Git.recognition config directory).Hears second git ∧
        Detected config directory perforce git outcome := by
  have recognised :
      List.Forall₂ Client.RecognisedBy
        [Perforce.openIn config directory, Git.openIn config directory]
        [Perforce.recognition config directory, Git.recognition config directory] :=
    .cons (Perforce.recognisedBy_openIn config directory)
      (.cons (Git.recognisedBy_openIn config directory) .nil)
  rw [Client.detect, Program.converses_bindOk (Client.exists_candidates recognised)]
  simp only [Client.candidates_converses_iff recognised, detected_iff, Except.ok.injEq]
  constructor
  · rintro ⟨before, _, behind, rfl, ⟨roots, hears, rfl⟩, converses⟩
    obtain ⟨rfl, rfl⟩ := (converses_deepest_iff _).mp converses
    rcases hears with _ | ⟨first, _ | ⟨second, _ | _⟩⟩
    exact ⟨_, _, _, _, by simp only [List.append_nil], first, second, rfl⟩
  · rintro ⟨first, second, perforce, git, rfl, hears, more, rfl⟩
    have all := Recognition.HearsAll.cons hears (.cons more .nil)
    rw [List.append_nil] at all
    exact ⟨first ++ second, _, [], (List.append_nil _).symm, ⟨[perforce, git], all, rfl⟩,
      (converses_deepest_iff _).mpr ⟨rfl, rfl⟩⟩

end ReviewDiff
