import Mathlib.Data.List.Duplicate
import ReviewDiff.Proofs.Client.Bounds

/-!
# Sessions with a client

A session is any sequence of calls to a client, each with the questions that it
asks and the reply that it gives.  What one call can do to the lifecycle is said
once, in `Effect`, and everything about sessions follows from that by induction
over the calls.
-/

namespace ReviewDiff

/-! ## Calls -/

/-- What a client tells about its life. -/
inductive Status where
  | uninitialized
  | ready
  | failed
  deriving DecidableEq

def Lifecycle.status : Lifecycle → Status
  | .unprobed | .available => .uninitialized
  | .ready => .ready
  | .missing _ => .failed

/-- A call to a client. -/
inductive Call where
  | setUp
  | hasTools
  | checkTools
  | requireReady
  | setCapabilities (capabilities : Capabilities)
  | perform (operation : Operation)
  | changeNumber (range : RevisionRange)
  | commitMessage (range : RevisionRange)
  | appliesEmptyFiles
  | applyPatch (request : Patch.Request)

/-- The type of the reply to a call. -/
def Call.Reply : Call → Type
  | setUp | checkTools | requireReady => Except Failure Unit
  | hasTools | appliesEmptyFiles => Bool
  | setCapabilities _ => Unit
  | perform operation => Except Failure operation.Result
  | changeNumber _ => Option String
  | commitMessage _ => Except Failure (Option CommitMessage)
  | applyPatch _ => Except Failure Patch.Outcome

namespace Client

variable {I : Interface}

def status (client : Client I) : Status :=
  client.lifecycle.status

/-- Answers a call. -/
def answer (client : Client I) : (call : Call) → Program I (Client I × call.Reply)
  | .setUp => client.setUp
  | .hasTools => client.hasTools
  | .checkTools => do return (client, ← client.backend.checkTools.outcome)
  | .requireReady => return (client, client.requireReady)
  | .setCapabilities capabilities =>
      return ({ client with capabilities := some capabilities }, ())
  | .perform operation => do return (client, ← (client.perform operation).outcome)
  | .changeNumber range => return (client, client.backend.changeNumber range)
  | .commitMessage range => do return (client, ← (client.commitMessage range).outcome)
  | .appliesEmptyFiles => return (client, client.appliesEmptyFiles)
  | .applyPatch request => do return (client, ← (client.applyPatch request).outcome)

end Client

/-! ## Steps -/

/-- A call with the client before and after it, the questions and the reply. -/
structure Step (I : Interface) where
  call : Call
  before : Client I
  asked : List I.Request
  after : Client I
  reply : call.Reply

namespace Step

variable {I : Interface}

/-- The client answers the call in this way in some run. -/
def Happens (step : Step I) : Prop :=
  (step.before.answer step.call).Runs step.asked (step.after, step.reply)

/-- The reply of a call that sets the client up. -/
def setUpReply? : Step I → Option (Except Failure Unit)
  | ⟨.setUp, _, _, _, reply⟩ => some reply
  | _ => none

/-- The questions of a call, without those of a bare look at the tools. -/
def questions : Step I → List I.Request
  | ⟨.checkTools, _, _, _, _⟩ => []
  | ⟨_, _, asked, _, _⟩ => asked

end Step

/-- The client answers one call after the other. -/
inductive Session {I : Interface} : Client I → List (Step I) → Client I → Prop where
  | nil (client : Client I) : Session client [] client
  | cons {step : Step I} {steps : List (Step I)} {last : Client I}
      (happens : step.Happens) (rest : Session step.after steps last) :
      Session step.before (step :: steps) last

/-! ## Effects of a call -/

/-- The backend looks for its tools by one question, and does not ask it for
anything else. -/
structure Backend.SearchesBy {I : Interface} (backend : Backend I) (probe : I.Request) :
    Prop where
  search :
    ∀ asked found, backend.checkTools.outcome.Runs asked found → asked = [probe]
  provided :
    ∀ capabilities operation, ∀ attempt ∈ backend.provide capabilities operation,
      attempt.Within (· ≠ probe) (fun _ => True) fun _ => True
  hosted :
    ∀ request q, backend.applier.Asks request q →
      (backend.host q).Within (· ≠ probe) fun _ => True

section Effects

variable {I : Interface} {probe : I.Request}

/-- The tools are looked for unless that was done. -/
inductive Searches (probe : I.Request) : Lifecycle → List I.Request → Lifecycle → Prop where
  | present : Searches probe .unprobed [probe] .available
  | absent (detail : String) : Searches probe .unprobed [probe] (.missing detail)
  | known {before : Lifecycle} (settled : before ≠ .unprobed) : Searches probe before [] before

/-- What a call does to the lifecycle, with the questions of the call and, if it
sets the client up, its reply. -/
inductive Effect (probe : I.Request) (name : String) :
    Lifecycle → List I.Request → Lifecycle → Option (Except Failure Unit) → Prop where
  | searched {before found : Lifecycle} {asked : List I.Request}
      (searches : Searches probe before asked found) :
      Effect probe name before asked found none
  | setUp {before found : Lifecycle} {asked : List I.Request}
      (searches : Searches probe before asked found)
      (present : ∀ detail, found ≠ .missing detail) :
      Effect probe name before asked .ready (some (.ok ()))
  | refused {before : Lifecycle} {asked : List I.Request} {detail : String}
      (searches : Searches probe before asked (.missing detail)) :
      Effect probe name before asked (.missing detail)
        (some (.error (.dependency name detail)))
  | operated {before : Lifecycle} {asked : List I.Request}
      (others : ∀ q ∈ asked, q ≠ probe) (quiet : before ≠ .ready → asked = []) :
      Effect probe name before asked before none

/-! ### The effect of each call -/

theorem Client.runs_told
    {α : Type} {client after : Client I} {told reply : α} {asked : List I.Request}
    (runs : (pure (client, told) : Program I (Client I × α)).Runs asked (after, reply)) :
    asked = [] ∧ after = client :=
  ⟨runs.1, (Prod.mk.inj runs.2).1⟩

theorem searches_ofSearch (probe : I.Request) (outcome : Except Failure Unit) :
    Searches probe .unprobed [probe] (.ofSearch outcome) := by
  cases outcome with
  | ok value => exact .present
  | error failure => cases failure <;> exact .absent _

theorem Client.runs_search
    {client found : Client I} {asked : List I.Request}
    (searchesBy : client.backend.SearchesBy probe) (runs : client.search.Runs asked found) :
    ∃ lifecycle, found = { client with lifecycle } ∧
      Searches probe client.lifecycle asked lifecycle := by
  unfold Client.search at runs
  split at runs
  · rename_i unprobed
    obtain ⟨before, outcome, behind, rfl, first, second⟩ := Program.runs_bind.mp runs
    obtain ⟨rfl, rfl⟩ := Program.runs_pure.mp second
    obtain rfl := searchesBy.search before outcome first
    refine ⟨.ofSearch outcome, rfl, ?_⟩
    rw [unprobed]
    exact searches_ofSearch probe outcome
  · rename_i settled
    obtain ⟨rfl, isFound⟩ := Program.runs_pure.mp runs
    exact ⟨client.lifecycle, isFound, .known settled⟩

theorem Client.runs_hasTools
    {client after : Client I} {asked : List I.Request} {reply : Bool}
    (searchesBy : client.backend.SearchesBy probe)
    (runs : client.hasTools.Runs asked (after, reply)) :
    ∃ lifecycle, after = { client with lifecycle } ∧
      Searches probe client.lifecycle asked lifecycle := by
  obtain ⟨before, found, behind, rfl, first, second⟩ := Program.runs_bind.mp runs
  have same : behind = [] ∧ after = found := by
    split at second <;> exact Client.runs_told second
  obtain ⟨rfl, rfl⟩ := same
  rw [List.append_nil]
  exact Client.runs_search searchesBy first

theorem Client.runs_setUp
    {client after : Client I} {asked : List I.Request} {reply : Except Failure Unit}
    (searchesBy : client.backend.SearchesBy probe)
    (runs : client.setUp.Runs asked (after, reply)) :
    ∃ lifecycle, after = { client with lifecycle } ∧
      Effect probe client.backend.name client.lifecycle asked lifecycle (some reply) := by
  obtain ⟨before, found, behind, rfl, first, second⟩ := Program.runs_bind.mp runs
  obtain ⟨lifecycle, rfl, searches⟩ := Client.runs_search searchesBy first
  split at second
  · rename_i detail missing
    obtain ⟨rfl, same⟩ := Program.runs_pure.mp second
    cases same
    obtain rfl : lifecycle = .missing detail := missing
    rw [List.append_nil]
    exact ⟨_, rfl, .refused searches⟩
  · rename_i present
    obtain ⟨rfl, same⟩ := Program.runs_pure.mp second
    cases same
    rw [List.append_nil]
    exact ⟨_, rfl, .setUp searches present⟩

theorem Client.runs_kept
    {α : Type} {client after : Client I} {program : Program I α} {asked : List I.Request}
    {reply : α}
    (runs :
      (program >>= fun reply => pure (client, reply)).Runs asked (after, reply)) :
    after = client ∧ program.Runs asked reply := by
  obtain ⟨before, value, behind, rfl, first, second⟩ := Program.runs_bind.mp runs
  obtain ⟨rfl, same⟩ := Program.runs_pure.mp second
  cases same
  rw [List.append_nil]
  exact ⟨rfl, first⟩

/-- An operation keeps the client, does not ask the probe, and asks nothing of a
client that is not ready. -/
theorem Client.runs_operation
    {α : Type} {client after : Client I} {attempt : Attempt I α} {asked : List I.Request}
    {reply : Except Failure α}
    (others : attempt.Within (· ≠ probe) (fun _ => True) fun _ => True)
    (quiet :
      client.lifecycle ≠ .ready →
        attempt.Within (fun _ => False) (fun _ => True) fun _ => True)
    (runs :
      (attempt.outcome >>= fun reply => pure (client, reply)).Runs asked (after, reply)) :
    after = client ∧
      Effect probe client.backend.name client.lifecycle asked client.lifecycle none := by
  obtain ⟨rfl, asking⟩ := Client.runs_kept runs
  refine ⟨rfl, .operated (others.outcome.of_runs asking).1 fun unready => ?_⟩
  exact List.eq_nil_iff_forall_not_mem.mpr ((quiet unready).outcome.of_runs asking).1

/-- What a call to a client that looks for its tools by the probe can do. -/
theorem Step.Happens.effect
    {step : Step I} (happens : step.Happens)
    (searchesBy : step.before.backend.SearchesBy probe) :
    Effect probe step.before.backend.name step.before.lifecycle step.questions
        step.after.lifecycle step.setUpReply? ∧
      step.after.backend = step.before.backend := by
  obtain ⟨call, before, asked, after, reply⟩ := step
  change (before.answer call).Runs asked (after, reply) at happens
  have quietly :
      ∀ lifecycle, Effect probe before.backend.name lifecycle [] lifecycle none :=
    fun _ => .operated (List.forall_mem_nil _) fun _ => rfl
  have others := searchesBy.provided before.capabilities
  dsimp only at searchesBy others ⊢
  cases call with
  | setUp =>
      obtain ⟨lifecycle, rfl, effect⟩ := Client.runs_setUp searchesBy happens
      exact ⟨effect, rfl⟩
  | hasTools =>
      obtain ⟨lifecycle, rfl, searches⟩ := Client.runs_hasTools searchesBy happens
      exact ⟨.searched searches, rfl⟩
  | checkTools =>
      obtain ⟨rfl, -⟩ := Client.runs_kept happens
      exact ⟨quietly _, rfl⟩
  | requireReady =>
      obtain ⟨rfl, rfl⟩ := Client.runs_told happens
      exact ⟨quietly _, rfl⟩
  | setCapabilities capabilities =>
      obtain ⟨rfl, rfl⟩ := Client.runs_told happens
      exact ⟨quietly _, rfl⟩
  | changeNumber range =>
      obtain ⟨rfl, rfl⟩ := Client.runs_told happens
      exact ⟨quietly _, rfl⟩
  | appliesEmptyFiles =>
      obtain ⟨rfl, rfl⟩ := Client.runs_told happens
      exact ⟨quietly _, rfl⟩
  | perform operation =>
      obtain ⟨rfl, effect⟩ :=
        Client.runs_operation (before.within_perform_any others operation)
          (fun unready => Client.perform_asks_nothing unready operation) happens
      exact ⟨effect, rfl⟩
  | commitMessage range =>
      obtain ⟨rfl, effect⟩ :=
        Client.runs_operation (before.within_commitMessage others range)
          (fun unready => Client.commitMessage_asks_nothing unready range) happens
      exact ⟨effect, rfl⟩
  | applyPatch request =>
      obtain ⟨rfl, effect⟩ :=
        Client.runs_operation
          (before.within_applyPatch others request (searchesBy.hosted request))
          (fun unready => Client.applyPatch_asks_nothing unready request) happens
      exact ⟨effect, rfl⟩

theorem Step.Happens.searchesBy
    {step : Step I} (happens : step.Happens)
    (searchesBy : step.before.backend.SearchesBy probe) :
    step.after.backend.SearchesBy probe := by
  rw [(happens.effect searchesBy).2]
  exact searchesBy

/-- A bare look at the tools asks the probe; other calls ask their questions. -/
theorem Step.Happens.asked
    {step : Step I} (happens : step.Happens)
    (searchesBy : step.before.backend.SearchesBy probe) :
    step.asked = step.questions ∨ step.asked = [probe] := by
  obtain ⟨call, before, asked, after, reply⟩ := step
  change (before.answer call).Runs asked (after, reply) at happens
  cases call with
  | checkTools =>
      obtain ⟨-, searching⟩ := Client.runs_kept happens
      exact Or.inr (searchesBy.search asked reply searching)
  | _ => exact Or.inl rfl

/-! ## What follows from an effect -/

theorem Lifecycle.status_eq_ready_iff {lifecycle : Lifecycle} :
    lifecycle.status = .ready ↔ lifecycle = .ready := by
  cases lifecycle <;> simp [Lifecycle.status]

theorem Searches.asked_eq
    {before found : Lifecycle} {asked : List I.Request}
    (searches : Searches probe before asked found) :
    asked = [] ∨ before = .unprobed ∧ asked = [probe] := by
  cases searches with
  | present => exact Or.inr ⟨rfl, rfl⟩
  | absent detail => exact Or.inr ⟨rfl, rfl⟩
  | known settled => exact Or.inl rfl

theorem Searches.found_ne_unprobed
    {before found : Lifecycle} {asked : List I.Request}
    (searches : Searches probe before asked found) :
    found ≠ .unprobed := by
  cases searches with
  | present => nofun
  | absent detail => nofun
  | known settled => exact settled

namespace Effect

variable {name : String} {before after : Lifecycle} {asked : List I.Request}
  {reply : Option (Except Failure Unit)}
  (effect : Effect probe name before asked after reply)

include effect

/-- A client leaves no status but the first one. -/
theorem settles : after.status = before.status ∨ before.status = .uninitialized := by
  cases effect with
  | operated others quiet => exact Or.inl rfl
  | searched searches =>
      cases searches with
      | known settled => exact Or.inl rfl
      | present => exact Or.inr rfl
      | absent detail => exact Or.inr rfl
  | refused searches =>
      cases searches with
      | known settled => exact Or.inl rfl
      | absent detail => exact Or.inr rfl
  | setUp searches present =>
      cases searches with
      | present => exact Or.inr rfl
      | absent detail => exact absurd rfl (present detail)
      | known settled =>
          cases before with
          | unprobed => exact Or.inr rfl
          | available => exact Or.inr rfl
          | ready => exact Or.inl rfl
          | missing detail => exact absurd rfl (present detail)

/-- A client gets ready by a success of its setup only. -/
theorem ready_iff : after = .ready ↔ before = .ready ∨ reply = some (.ok ()) := by
  cases effect with
  | operated others quiet => simp
  | setUp searches present => simp
  | refused searches => cases searches <;> simp
  | searched searches => cases searches <;> simp

/-- A client that lacks its tools keeps to what it found. -/
theorem missing_of_missing {detail : String} (missing : before = .missing detail) :
    after = .missing detail := by
  subst missing
  cases effect with
  | operated others quiet => rfl
  | setUp searches present =>
      cases searches
      exact absurd rfl (present detail)
  | refused searches => cases searches; rfl
  | searched searches => cases searches; rfl

/-- A client that lacks its tools says so when it is set up. -/
theorem reply_of_missing {detail : String} (missing : after = .missing detail) :
    ∀ told ∈ reply, told = .error (.dependency name detail) := by
  cases effect with
  | operated others quiet => exact nofun
  | searched searches => exact nofun
  | setUp searches present => cases missing
  | refused searches =>
      cases missing
      rintro _ ⟨⟩
      rfl

theorem quiet (unready : before ≠ .ready) : asked = [] ∨ asked = [probe] := by
  cases effect with
  | operated others quiet => exact Or.inl (quiet unready)
  | setUp searches present => exact searches.asked_eq.imp_right And.right
  | refused searches => exact searches.asked_eq.imp_right And.right
  | searched searches => exact searches.asked_eq.imp_right And.right

theorem after_ne_unprobed (probed : before ≠ .unprobed) : after ≠ .unprobed := by
  cases effect with
  | operated others quiet => exact probed
  | setUp searches present => nofun
  | refused searches => nofun
  | searched searches => exact searches.found_ne_unprobed

/-- The probe is asked only while nothing is known, and something is known after
that. -/
theorem of_probe_mem (member : probe ∈ asked) :
    before = .unprobed ∧ asked = [probe] ∧ after ≠ .unprobed := by
  have single :
      ∀ {found}, Searches probe before asked found → before = .unprobed ∧ asked = [probe] := by
    intro found searches
    rcases searches.asked_eq with rfl | single
    · cases member
    · exact single
  cases effect with
  | operated others quiet => exact absurd rfl (others probe member)
  | setUp searches present => exact ⟨(single searches).1, (single searches).2, nofun⟩
  | refused searches => exact ⟨(single searches).1, (single searches).2, nofun⟩
  | searched searches =>
      exact ⟨(single searches).1, (single searches).2, searches.found_ne_unprobed⟩

end Effect

end Effects

/-! ## Sessions -/

/-- An element that is not in front occurs twice only behind. -/
theorem duplicate_append_iff
    {α : Type} {front behind : List α} {element : α} (notInFront : element ∉ front) :
    List.Duplicate element (front ++ behind) ↔ List.Duplicate element behind := by
  induction front with
  | nil => rfl
  | cons head rest inductionHypothesis =>
      rw [List.mem_cons, not_or] at notInFront
      rw [List.cons_append, List.duplicate_cons_iff, inductionHypothesis notInFront.2]
      exact or_iff_right fun same => notInFront.1 same.1.symm

/-- What every session with a client keeps to.  The probe is asked at most once,
apart from bare looks at the tools; the status changes only from the first one;
the client is ready as soon as a setup succeeded, and not before; every setup of a
client that lacks its tools fails in the same way; and before the client is ready,
no call asks anything but the probe. -/
structure Orderly {I : Interface} (probe : I.Request) (client : Client I)
    (steps : List (Step I)) (last : Client I) : Prop where
  probedOnce : ¬ List.Duplicate probe (steps.flatMap Step.questions)
  settles :
    ∀ step ∈ steps, step.after.status = step.before.status ∨
      step.before.status = .uninitialized
  ready_iff : last.status = .ready ↔ ∃ step ∈ steps, step.setUpReply? = some (.ok ())
  failsAlike :
    ∃ detail, ∀ step ∈ steps, step.after.status = .failed →
      ∀ reply ∈ step.setUpReply?, reply = .error (.dependency client.backend.name detail)
  quiet : ∀ step ∈ steps, step.before.status ≠ .ready → step.asked = [] ∨ step.asked = [probe]

namespace Session

variable {I : Interface} {probe : I.Request} {client last : Client I} {steps : List (Step I)}

/-- One call after the other, given by its parts. -/
theorem call
    {middle : Client I} {call : Call} {asked : List I.Request} {reply : call.Reply}
    (runs : (client.answer call).Runs asked (middle, reply))
    (rest : Session middle steps last) :
    Session client (⟨call, client, asked, middle, reply⟩ :: steps) last :=
  @Session.cons I ⟨call, client, asked, middle, reply⟩ steps last runs rest

theorem probedOnce
    (session : Session client steps last) (searchesBy : client.backend.SearchesBy probe) :
    (client.lifecycle ≠ .unprobed → probe ∉ steps.flatMap Step.questions) ∧
      ¬ List.Duplicate probe (steps.flatMap Step.questions) := by
  induction session with
  | nil client => exact ⟨fun _ => List.not_mem_nil, List.not_duplicate_nil probe⟩
  | @cons step steps last happens rest inductionHypothesis =>
      have effect := (happens.effect searchesBy).1
      obtain ⟨never, once⟩ := inductionHypothesis (happens.searchesBy searchesBy)
      rw [List.flatMap_cons]
      by_cases asked : probe ∈ step.questions
      · obtain ⟨unprobed, single, probed⟩ := effect.of_probe_mem asked
        refine ⟨fun known => absurd unprobed known, ?_⟩
        rw [single, List.singleton_append, List.duplicate_cons_self_iff]
        exact never probed
      · refine ⟨fun known => ?_, ?_⟩
        · rw [List.mem_append, not_or]
          exact ⟨asked, never (effect.after_ne_unprobed known)⟩
        · rwa [duplicate_append_iff asked]

theorem ready_iff
    (session : Session client steps last) (searchesBy : client.backend.SearchesBy probe) :
    last.lifecycle = .ready ↔
      client.lifecycle = .ready ∨ ∃ step ∈ steps, step.setUpReply? = some (.ok ()) := by
  induction session with
  | nil client => simp
  | @cons step steps last happens rest inductionHypothesis =>
      have effect := (happens.effect searchesBy).1
      rw [inductionHypothesis (happens.searchesBy searchesBy), effect.ready_iff,
        List.exists_mem_cons_iff, or_assoc]

theorem fails_of_missing
    (session : Session client steps last) (searchesBy : client.backend.SearchesBy probe)
    {detail : String} (missing : client.lifecycle = .missing detail) :
    ∀ step ∈ steps, ∀ reply ∈ step.setUpReply?,
      reply = .error (.dependency client.backend.name detail) := by
  induction session with
  | nil client => exact List.forall_mem_nil _
  | @cons step steps last happens rest inductionHypothesis =>
      obtain ⟨effect, keeps⟩ := happens.effect searchesBy
      have stillMissing := effect.missing_of_missing missing
      rw [List.forall_mem_cons]
      refine ⟨effect.reply_of_missing stillMissing, ?_⟩
      rw [← keeps]
      exact inductionHypothesis (happens.searchesBy searchesBy) stillMissing

theorem failsAlike
    (session : Session client steps last) (searchesBy : client.backend.SearchesBy probe) :
    ∃ detail, ∀ step ∈ steps, step.after.status = .failed →
      ∀ reply ∈ step.setUpReply?, reply = .error (.dependency client.backend.name detail) := by
  induction session with
  | nil client => exact ⟨"", List.forall_mem_nil _⟩
  | @cons step steps last happens rest inductionHypothesis =>
      obtain ⟨effect, keeps⟩ := happens.effect searchesBy
      have searchesAfter := happens.searchesBy searchesBy
      cases found : step.after.lifecycle with
      | missing detail =>
          refine
            ⟨detail, List.forall_mem_cons.mpr ⟨fun _ => effect.reply_of_missing found, ?_⟩⟩
          intro later member _
          rw [← keeps]
          exact rest.fails_of_missing searchesAfter found later member
      | _ =>
          obtain ⟨detail, alike⟩ := inductionHypothesis searchesAfter
          rw [keeps] at alike
          refine ⟨detail, List.forall_mem_cons.mpr ⟨fun failed => ?_, alike⟩⟩
          rw [Client.status, found] at failed
          cases failed

/-- Each call of a session goes to a client with the same way to look for its
tools. -/
theorem searchesBy_before
    (session : Session client steps last) (searchesBy : client.backend.SearchesBy probe) :
    ∀ step ∈ steps, step.Happens ∧ step.before.backend.SearchesBy probe := by
  induction session with
  | nil client => exact List.forall_mem_nil _
  | @cons step steps last happens rest inductionHypothesis =>
      rw [List.forall_mem_cons]
      exact ⟨⟨happens, searchesBy⟩, inductionHypothesis (happens.searchesBy searchesBy)⟩

/-- A client that was not used before keeps to the order of its life in every
session. -/
theorem orderly
    (session : Session client steps last) (searchesBy : client.backend.SearchesBy probe)
    (fresh : client.lifecycle = .unprobed) :
    Orderly probe client steps last where
  probedOnce := (session.probedOnce searchesBy).2
  settles := by
    intro step member
    obtain ⟨happens, stepSearches⟩ := session.searchesBy_before searchesBy step member
    exact (happens.effect stepSearches).1.settles
  ready_iff := by
    rw [Client.status, Lifecycle.status_eq_ready_iff, session.ready_iff searchesBy, fresh]
    exact or_iff_right nofun
  failsAlike := session.failsAlike searchesBy
  quiet := by
    intro step member unready
    obtain ⟨happens, stepSearches⟩ := session.searchesBy_before searchesBy step member
    rcases happens.asked stepSearches with same | probing
    · rw [same]
      refine (happens.effect stepSearches).1.quiet fun ready => unready ?_
      exact Lifecycle.status_eq_ready_iff.mpr ready
    · exact Or.inr probing

end Session

end ReviewDiff
