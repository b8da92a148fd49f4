import ReviewDiff.Patch.Apply
import ReviewDiff.Proofs.Program.Within

/-!
# What applying a diff asks

A diff is applied by way of a temporary file and one run of the patch program
in its directory.  What else is asked is left to the hook for empty files.
-/

namespace ReviewDiff.Patch

/-- What applying a diff asks of the host. -/
def Applier.Asks (applier : Applier) (request : Request) : Host.Request → Prop
  | .writeTemporary _ | .contents _ | .discard _ => True
  | .run program arguments directory =>
      program = applier.program ∧ directory = some applier.directory ∧
        ∃ file, arguments = applier.arguments request file
  | .createFile _ | .createDirectories _ | .temporaryPath | .temporaryDirectory | .now => False

section Asking

variable {I : Interface} {asks : I.Request → Prop} {applier : Applier} {request : Request}
  {host : (q : Host.Request) → Program I q.Answer}
  (hosted : ∀ q, applier.Asks request q → (host q).Within asks fun _ => True)
  {hook : Option (EmptyFileHook I)}
  (hooked :
    ∀ applies ∈ hook, ∀ patch stripCount revert,
      (applies patch stripCount revert).Within asks (fun _ => True) fun _ => True)

include hosted hooked

theorem within_judge (line file : String) (completed : Host.Completed) :
    (judge host request hook line file completed).Within asks (fun _ => True)
      fun _ => True := by
  unfold judge
  by_cases fatal : isFatal completed.code completed.output = true
  · simp only [fatal, if_true]
    trivial
  simp only [fatal]
  cases hook with
  | none => exact Attempt.within_pure trivial
  | some applies =>
      refine Attempt.within_lift_bind (hosted (.contents file) trivial) fun contents => ?_
      split
      · exact Attempt.within_pure trivial
      · refine (hooked applies rfl _ _ _).bind fun patched _ => ?_
        split
        · split <;> trivial
        · exact Attempt.within_pure trivial

theorem within_apply :
    (applier.apply host request hook).Within asks (fun _ => True) fun _ => True := by
  have written :
      Attempt.Within asks (fun _ => True) (fun _ => True)
        (Attempt.ofOutcome .io (host (.writeTemporary request.diff))) :=
    Attempt.within_ofOutcome (hosted (.writeTemporary request.diff) trivial) fun _ => trivial
  refine written.bind fun file _ => ?_
  have ran :=
    hosted (.run applier.program (applier.arguments request file) (some applier.directory))
      ⟨rfl, rfl, file, rfl⟩
  refine Attempt.within_lift_bind (ran.bind fun completed _ => ?_) fun outcome => ?_
  · split
    · trivial
    · exact (within_judge hosted hooked _ file _).outcome
  · refine Attempt.within_lift_bind (hosted (.discard file) trivial) fun _ => ?_
    cases outcome <;> trivial

end Asking

end ReviewDiff.Patch
