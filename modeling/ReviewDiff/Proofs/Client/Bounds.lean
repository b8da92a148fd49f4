import ReviewDiff.Client.Basic
import ReviewDiff.Proofs.Patch.Apply

/-!
# What the calls of a client ask

A call passes on to the backend only what the lifecycle lets through.  Before a
client is ready, its operations ask nothing at all, whatever the backend does.
The operations of a ready client ask what the backend asks, and to apply a patch
it asks what the patch program needs as well.
-/

namespace ReviewDiff

/-- A bound on a backend carries over to another interface. -/
theorem Backend.within_interpret
    {I J : Interface} {backend : Backend I} {capabilities : Option Capabilities}
    {operation : Operation} {asks : I.Request → Prop} {ends : operation.Result → Prop}
    {fails : Failure → Prop}
    (within :
      ∀ attempt ∈ backend.provide capabilities operation, attempt.Within asks ends fails)
    {serve : (q : I.Request) → Program J (I.Answer q)} {served : J.Request → Prop}
    (serveWithin : ∀ q, asks q → (serve q).Within served fun _ => True) :
    ∀ attempt ∈ (backend.interpret serve).provide capabilities operation,
      attempt.Within served ends fails := by
  intro interpreted provided
  obtain ⟨attempt, isProvided, rfl⟩ := Option.map_eq_some_iff.mp provided
  exact (within attempt isProvided).interpret serveWithin

namespace Client

variable {I : Interface} (client : Client I)

/-! ## Ready clients -/

/-- A ready client does what its backend provides. -/
theorem perform_of_ready
    {client : Client I} {backend : Backend I} (isBackend : client.backend = backend)
    (ready : client.lifecycle = .ready)
    {operation : Operation} {attempt : Attempt I operation.Result}
    (provided : backend.provide client.capabilities operation = some attempt) :
    client.perform operation = attempt := by
  unfold perform
  rw [isBackend, provided, requireReady, if_pos ready]
  rfl

/-- An operation stays within what the backend does for it. -/
theorem within_perform
    (operation : Operation) {asks : I.Request → Prop}
    {ends : operation.Result → Prop} {fails : Failure → Prop}
    (provided :
      ∀ attempt ∈ client.backend.provide client.capabilities operation,
        attempt.Within asks ends fails)
    (neutral : ∀ result ∈ operation.neutral?, ends result)
    (unready : fails (.notSetUp client.backend.name))
    (missing : fails (.notImplemented client.backend.name operation.name)) :
    (client.perform operation).Within asks ends fails := by
  unfold perform
  cases providing : client.backend.provide client.capabilities operation with
  | some attempt =>
      have checked :
          Attempt.Within asks (fun _ => True) fails
            (Attempt.ofExcept client.requireReady : Attempt I Unit) := by
        apply Attempt.within_ofExcept
        unfold requireReady
        split
        · trivial
        · exact unready
      exact checked.bind fun _ _ => provided attempt providing
  | none =>
      cases neutralizing : operation.neutral? with
      | some result => exact Attempt.within_pure (neutral result neutralizing)
      | none => exact Attempt.within_throw missing

section Asking

variable {asks : I.Request → Prop}
  (providedWithin :
    ∀ operation, ∀ attempt ∈ client.backend.provide client.capabilities operation,
      attempt.Within asks (fun _ => True) fun _ => True)

include providedWithin

theorem within_perform_any (operation : Operation) :
    (client.perform operation).Within asks (fun _ => True) fun _ => True :=
  client.within_perform operation (providedWithin operation) (fun _ _ => trivial) trivial
    trivial

theorem within_commitMessage (range : RevisionRange) :
    (client.commitMessage range).Within asks (fun _ => True) fun _ => True :=
  (client.within_perform_any providedWithin (.message range)).bind fun _ _ =>
    Attempt.within_pure trivial

theorem within_applyPatch
    (request : Patch.Request)
    (hosted :
      ∀ q, client.backend.applier.Asks request q →
        (client.backend.host q).Within asks fun _ => True) :
    (client.applyPatch request).Within asks (fun _ => True) fun _ => True := by
  have checked :
      Attempt.Within asks (fun _ => True) (fun _ => True)
        (Attempt.ofExcept client.requireReady : Attempt I Unit) :=
    (Attempt.within_ofExcept_eq fun _ _ => trivial).anyEnd
  have applied :
      (client.backend.applier.apply client.backend.host request
        (if client.appliesEmptyFiles then
          some fun patch stripCount revert =>
            client.perform (.applyEmptyFiles patch stripCount revert)
        else none)).Within asks (fun _ => True) fun _ => True := by
    refine Patch.within_apply hosted fun applies hooks => ?_
    split at hooks
    · obtain rfl := Option.some.inj hooks
      exact fun patch stripCount revert =>
        client.within_perform_any providedWithin (.applyEmptyFiles patch stripCount revert)
    · cases hooks
  refine checked.bind fun _ _ => ?_
  by_cases refused : (request.revert && !client.backend.features.patchRevert) = true
  · simp only [refused]
    trivial
  · simp only [refused]
    exact applied

end Asking

/-! ## Clients that are not ready -/

section Unready

variable {client} (unready : client.lifecycle ≠ .ready)

include unready

theorem requireReady_of_unready :
    client.requireReady = .error (.notSetUp client.backend.name) :=
  if_neg unready

/-- A client that is not ready says so instead of doing what its backend
provides. -/
theorem perform_of_unready
    {backend : Backend I} (isBackend : client.backend = backend)
    {operation : Operation} {attempt : Attempt I operation.Result}
    (provided : backend.provide client.capabilities operation = some attempt) :
    client.perform operation = throw (.notSetUp client.backend.name) := by
  unfold perform
  rw [requireReady_of_unready unready]
  rw [← isBackend] at provided
  rw [provided]
  rfl

/-- A client that is not ready asks nothing when it is to carry out an
operation. -/
theorem perform_asks_nothing (operation : Operation) :
    (client.perform operation).Within (fun _ => False) (fun _ => True) fun _ => True := by
  unfold perform
  rw [requireReady_of_unready unready]
  cases client.backend.provide client.capabilities operation with
  | some attempt => trivial
  | none => cases operation.neutral? <;> trivial

theorem commitMessage_asks_nothing (range : RevisionRange) :
    (client.commitMessage range).Within (fun _ => False) (fun _ => True) fun _ => True :=
  (perform_asks_nothing unready (.message range)).bind fun _ _ => Attempt.within_pure trivial

theorem applyPatch_asks_nothing (request : Patch.Request) :
    (client.applyPatch request).Within (fun _ => False) (fun _ => True) fun _ => True := by
  unfold applyPatch
  rw [requireReady_of_unready unready]
  trivial

end Unready

end Client

end ReviewDiff
