import ReviewDiff.Client.Backend

/-!
# Clients and their life

A client starts without knowing whether its tools are there.  Looking for them
happens at most once: the outcome is kept, and a client whose tools are missing
stays so.  Only a client that was set up carries out operations.
-/

namespace ReviewDiff

/-- How far a client got. -/
inductive Lifecycle where
  | unprobed
  | available
  | ready
  | missing (detail : String)
  deriving DecidableEq, Repr

def Lifecycle.ofSearch : Except Failure Unit → Lifecycle
  | .ok () => .available
  | .error (.dependency _ detail) => .missing detail
  | .error failure => .missing failure.message

structure Client (I : Interface) where
  backend : Backend I
  lifecycle : Lifecycle := .unprobed
  capabilities : Option Capabilities := none

namespace Client

variable {I : Interface}

/-! ## Becoming ready -/

/-- Looks for the tools, unless that was done. -/
def search (client : Client I) : Program I (Client I) :=
  match client.lifecycle with
  | .unprobed => do
      let found ← client.backend.checkTools.outcome
      return { client with lifecycle := .ofSearch found }
  | _ => return client

def hasTools (client : Client I) : Program I (Client I × Bool) := do
  let client ← client.search
  match client.lifecycle with
  | .missing _ => return (client, false)
  | _ => return (client, true)

def setUp (client : Client I) : Program I (Client I × Except Failure Unit) := do
  let client ← client.search
  match client.lifecycle with
  | .missing detail => return (client, .error (.dependency client.backend.name detail))
  | _ => return ({ client with lifecycle := .ready }, .ok ())

def requireReady (client : Client I) : Except Failure Unit :=
  if client.lifecycle = .ready then .ok () else .error (.notSetUp client.backend.name)

/-! ## Operations -/

/-- Carries out an operation.  A client has to be ready for what its backend
provides. -/
def perform (client : Client I) (operation : Operation) : Attempt I operation.Result :=
  match client.backend.provide client.capabilities operation with
  | some attempt => do
      Attempt.ofExcept client.requireReady
      attempt
  | none =>
      match operation.neutral? with
      | some result => return result
      | none => throw (.notImplemented client.backend.name operation.name)

def commitMessage (client : Client I) (range : RevisionRange) :
    Attempt I (Option CommitMessage) := do
  let text ← client.perform (.message range)
  return CommitMessage.ofText? text

def appliesEmptyFiles (client : Client I) : Bool :=
  client.backend.emptyFiles client.capabilities

def applyPatch (client : Client I) (request : Patch.Request) : Attempt I Patch.Outcome := do
  Attempt.ofExcept client.requireReady
  if request.revert && !client.backend.features.patchRevert then
    throw (.notImplemented client.backend.name "apply_patch(revert)")
  let hook : Patch.EmptyFileHook I := fun patch stripCount revert =>
    client.perform (.applyEmptyFiles patch stripCount revert)
  client.backend.applier.apply client.backend.host request
    (if client.appliesEmptyFiles then some hook else none)

end Client

end ReviewDiff
