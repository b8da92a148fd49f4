import ReviewDiff.Client.Backend
import ReviewDiff.Proofs.Program.Conversation

/-!
# Bounds on runs

`Runs` follows one run of a program and keeps what is asked on the way.
`Within` bounds all of them: every run asks only certain questions and ends in
a certain way, whatever the answers are.  The bounds compose along the program,
so each function needs one bound, and its callers need no more than that.
-/

namespace ReviewDiff

namespace Program

variable {I J : Interface} {α β : Type}

/-! ## Questions of a run -/

/-- A run asks the questions, in this order, and ends with the value. -/
def Runs : Program I α → List I.Request → α → Prop
  | .done result, asked, value => asked = [] ∧ value = result
  | .ask q next, asked, value =>
      ∃ answer rest, asked = q :: rest ∧ (next answer).Runs rest value

theorem runs_pure {result value : α} {asked : List I.Request} :
    (pure result : Program I α).Runs asked value ↔ asked = [] ∧ value = result :=
  Iff.rfl

theorem runs_iff_converses
    {program : Program I α} {asked : List I.Request} {value : α} :
    program.Runs asked value ↔
      ∃ heard : List I.Exchange,
        heard.map Sigma.fst = asked ∧ program.Converses heard value := by
  induction program generalizing asked with
  | done result =>
      constructor
      · rintro ⟨rfl, rfl⟩
        exact ⟨[], rfl, rfl, rfl⟩
      · rintro ⟨_, rfl, rfl, rfl⟩
        exact ⟨rfl, rfl⟩
  | ask q next inductionHypothesis =>
      constructor
      · rintro ⟨answer, _, rfl, runs⟩
        obtain ⟨heard, rfl, converses⟩ := (inductionHypothesis answer).mp runs
        exact ⟨⟨q, answer⟩ :: heard, rfl, answer, heard, rfl, converses⟩
      · rintro ⟨_, rfl, answer, heard, rfl, converses⟩
        exact ⟨answer, heard.map Sigma.fst, rfl,
          (inductionHypothesis answer).mpr ⟨heard, rfl, converses⟩⟩

theorem runs_bind
    {program : Program I α} {rest : α → Program I β} {asked : List I.Request} {value : β} :
    (program >>= rest).Runs asked value ↔
      ∃ before middle behind, asked = before ++ behind ∧
        program.Runs before middle ∧ (rest middle).Runs behind value := by
  simp only [runs_iff_converses, converses_bind]
  constructor
  · rintro ⟨_, rfl, before, middle, behind, rfl, first, second⟩
    exact ⟨_, middle, _, List.map_append, ⟨before, rfl, first⟩, behind, rfl, second⟩
  · rintro ⟨_, middle, _, rfl, ⟨before, rfl, first⟩, behind, rfl, second⟩
    exact ⟨before ++ behind, List.map_append, before, middle, behind, rfl, first, second⟩

/-! ## Bounds -/

/-- Every run asks only such questions and ends with such a value. -/
def Within (asks : I.Request → Prop) (ends : α → Prop) : Program I α → Prop
  | .done value => ends value
  | .ask q next => asks q ∧ ∀ answer, (next answer).Within asks ends

section Bounds

variable {asks : I.Request → Prop} {ends : α → Prop}

theorem within_request {q : I.Request} (fits : asks q) :
    (request q).Within asks fun _ => True :=
  ⟨fits, fun _ => trivial⟩

theorem Within.mono
    {program : Program I α} (within : program.Within asks ends)
    {otherAsks : I.Request → Prop} {otherEnds : α → Prop}
    (moreAsks : ∀ q, asks q → otherAsks q) (moreEnds : ∀ value, ends value → otherEnds value) :
    program.Within otherAsks otherEnds := by
  induction program with
  | done value => exact moreEnds value within
  | ask q next inductionHypothesis =>
      exact ⟨moreAsks q within.1, fun answer => inductionHypothesis answer (within.2 answer)⟩

theorem Within.bind
    {program : Program I α} (within : program.Within asks ends)
    {rest : α → Program I β} {final : β → Prop}
    (restWithin : ∀ value, ends value → (rest value).Within asks final) :
    (program >>= rest).Within asks final := by
  rw [bind_def]
  induction program with
  | done value => exact restWithin value within
  | ask q next inductionHypothesis =>
      exact ⟨within.1, fun answer => inductionHypothesis answer (within.2 answer)⟩

/-- Questions that are answered by programs within a bound lead to a program
within it. -/
theorem Within.interpret
    {program : Program I α} (within : program.Within asks ends)
    {serve : (q : I.Request) → Program J (I.Answer q)} {served : J.Request → Prop}
    (serveWithin : ∀ q, asks q → (serve q).Within served fun _ => True) :
    (program.interpret serve).Within served ends := by
  induction program with
  | done value => exact within
  | ask q next inductionHypothesis =>
      exact
        (serveWithin q within.1).bind fun answer _ =>
          inductionHypothesis answer (within.2 answer)

/-- Without a bound on its questions and its values every program is within
the bounds. -/
theorem within_anything (program : Program I α) :
    program.Within (fun _ => True) fun _ => True := by
  induction program with
  | done value => trivial
  | ask q next inductionHypothesis => exact ⟨trivial, inductionHypothesis⟩

theorem Within.of_runs
    {program : Program I α} (within : program.Within asks ends)
    {asked : List I.Request} {value : α} (runs : program.Runs asked value) :
    (∀ q ∈ asked, asks q) ∧ ends value := by
  induction program generalizing asked with
  | done result =>
      obtain ⟨rfl, rfl⟩ := runs
      exact ⟨List.forall_mem_nil _, within⟩
  | ask q next inductionHypothesis =>
      obtain ⟨answer, later, rfl, laterRuns⟩ := runs
      obtain ⟨laterAsks, fits⟩ := inductionHypothesis answer (within.2 answer) laterRuns
      exact ⟨List.forall_mem_cons.mpr ⟨within.1, laterAsks⟩, fits⟩

theorem Within.of_yields
    {program : Program I α} (within : program.Within asks ends)
    {allowed : (q : I.Request) → I.Answer q → Prop} {value : α}
    (yields : program.Yields allowed value) :
    ends value := by
  induction program with
  | done result =>
      obtain rfl := yields
      exact within
  | ask q next inductionHypothesis =>
      obtain ⟨answer, _, laterYields⟩ := yields
      exact inductionHypothesis answer (within.2 answer) laterYields

/-- What a program within a bound ends with is yielded by some run. -/
theorem Within.yielding
    {program : Program I α} (within : program.Within asks ends) :
    program.Within asks fun value =>
      ends value ∧ program.Yields (fun _ _ => True) value := by
  induction program with
  | done value => exact ⟨within, rfl⟩
  | ask q next inductionHypothesis =>
      refine ⟨within.1, fun answer => ?_⟩
      exact (inductionHypothesis answer (within.2 answer)).mono (fun _ fits => fits)
        fun _ later => ⟨later.1, answer, trivial, later.2⟩

/-- What may fail in any way goes on only behind a success. -/
theorem Within.bindExcept
    {ε : Type} {attempt : ExceptT ε (Program I) α}
    (within : attempt.run.Within asks fun _ => True)
    {rest : α → ExceptT ε (Program I) β}
    (restWithin : ∀ value, (rest value).run.Within asks fun _ => True) :
    (attempt >>= rest).run.Within asks fun _ => True := by
  refine within.bind fun outcome _ => ?_
  cases outcome with
  | ok value => exact restWithin value
  | error failure => trivial

end Bounds

end Program

/-! ## Attempts -/

namespace Attempt

variable {I J : Interface} {α β : Type}

/-- A success with such a value, or such a failure. -/
def Ends (ends : α → Prop) (fails : Failure → Prop) : Except Failure α → Prop
  | .ok value => ends value
  | .error failure => fails failure

/-- Every run asks only such questions, succeeds only with such values and
fails only in such a way. -/
def Within
    (asks : I.Request → Prop) (ends : α → Prop) (fails : Failure → Prop)
    (attempt : Attempt I α) : Prop :=
  attempt.run.Within asks (Ends ends fails)

section Bounds

variable {asks : I.Request → Prop} {ends : α → Prop} {fails : Failure → Prop}

theorem within_pure {value : α} (fits : ends value) :
    (pure value : Attempt I α).Within asks ends fails :=
  fits

theorem within_throw {failure : Failure} (fits : fails failure) :
    (throw failure : Attempt I α).Within asks ends fails :=
  fits

theorem within_ofExcept {outcome : Except Failure α} (fits : Ends ends fails outcome) :
    (ofExcept outcome : Attempt I α).Within asks ends fails :=
  fits

/-- What comes of an outcome is that outcome. -/
theorem within_ofExcept_eq
    {outcome : Except Failure α} (fits : ∀ failure, outcome = .error failure → fails failure) :
    (ofExcept outcome : Attempt I α).Within asks (fun value => outcome = .ok value) fails := by
  apply within_ofExcept
  cases outcome with
  | ok value => rfl
  | error failure => exact fits failure rfl

theorem within_lift {program : Program I α} (within : program.Within asks ends) :
    Attempt.Within asks ends fails (ExceptT.lift program) :=
  Program.Within.bind within fun _ fits => fits

theorem within_ofProgram {program : Program I α} (within : program.Within asks ends) :
    (ofProgram program).Within asks ends fails :=
  within_lift within

theorem within_ofOutcome
    {ε : Type} {wrap : ε → Failure} {program : Program I (Except ε α)}
    (within : program.Within asks fun _ => True) (fits : ∀ failure, fails (wrap failure)) :
    (ofOutcome wrap program).Within asks (fun _ => True) fails := by
  refine within.bind fun outcome _ => ?_
  cases outcome with
  | ok value => trivial
  | error failure => exact fits failure

theorem Within.mono
    {attempt : Attempt I α} (within : attempt.Within asks ends fails)
    {otherEnds : α → Prop} {otherFails : Failure → Prop}
    (moreEnds : ∀ value, ends value → otherEnds value)
    (moreFails : ∀ failure, fails failure → otherFails failure) :
    attempt.Within asks otherEnds otherFails := by
  refine Program.Within.mono within (fun _ fits => fits) ?_
  rintro (failure | value) fits
  · exact moreFails failure fits
  · exact moreEnds value fits

theorem Within.anyEnd
    {attempt : Attempt I α} (within : attempt.Within asks ends fails) :
    attempt.Within asks (fun _ => True) fun _ => True :=
  within.mono (fun _ _ => trivial) fun _ _ => trivial

theorem Within.bind
    {attempt : Attempt I α} (within : attempt.Within asks ends fails)
    {rest : α → Attempt I β} {final : β → Prop}
    (restWithin : ∀ value, ends value → (rest value).Within asks final fails) :
    (attempt >>= rest).Within asks final fails := by
  refine Program.Within.bind within ?_
  rintro (failure | value) fits
  · exact fits
  · exact restWithin value fits

theorem Within.map
    {attempt : Attempt I α} (within : attempt.Within asks (fun _ => True) fails)
    (change : α → β) :
    (change <$> attempt).Within asks (fun _ => True) fails := by
  refine Program.Within.bind within ?_
  rintro (failure | value) fits
  · exact fits
  · trivial

theorem within_lift_bind
    {program : Program I α} (within : program.Within asks fun _ => True)
    {rest : α → Attempt I β} {final : β → Prop}
    (restWithin : ∀ value, (rest value).Within asks final fails) :
    Attempt.Within asks final fails (ExceptT.lift program >>= rest) :=
  (within_lift within).bind fun value _ => restWithin value

/-- The only attempt that is provided has a bound. -/
theorem Within.only
    {attempt : Attempt I α} (within : attempt.Within asks ends fails) :
    ∀ provided ∈ some attempt,
      provided.Within asks (fun _ => True) fun _ => True := by
  intro provided isAttempt
  obtain rfl := Option.some.inj isAttempt
  exact within.anyEnd

/-- As a value an outcome may be any. -/
theorem Within.outcome
    {attempt : Attempt I α} (within : attempt.Within asks ends fails) :
    attempt.outcome.Within asks fun _ => True :=
  Program.Within.mono within (fun _ fits => fits) fun _ _ => trivial

theorem Within.interpret
    {attempt : Attempt I α} (within : attempt.Within asks ends fails)
    {serve : (q : I.Request) → Program J (I.Answer q)} {served : J.Request → Prop}
    (serveWithin : ∀ q, asks q → (serve q).Within served fun _ => True) :
    (Attempt.interpret serve attempt).Within served ends fails :=
  Program.Within.interpret within serveWithin

end Bounds

/-! ## Supplied answers -/

section Supplied

variable (serve : (q : I.Request) → Program J (I.Answer q))

theorem interpret_bind (attempt : Attempt I α) (rest : α → Attempt I β) :
    (attempt >>= rest).interpret serve =
      attempt.interpret serve >>= fun value => (rest value).interpret serve := by
  refine ExceptT.ext ?_
  rw [ExceptT.run_bind, interpret, ExceptT.run_mk, ExceptT.run_bind]
  refine (Program.interpret_andThen serve attempt.run _).trans ?_
  refine congrArg _ (funext fun outcome => ?_)
  cases outcome <;> rfl

theorem interpret_lift (program : Program I α) :
    interpret serve (ExceptT.lift program) = ExceptT.lift (program.interpret serve) :=
  Program.interpret_andThen serve program _

theorem interpret_ofOutcome
    {ε : Type} (wrap : ε → Failure) (program : Program I (Except ε α)) :
    interpret serve (ofOutcome wrap program) = ofOutcome wrap (program.interpret serve) := by
  unfold ofOutcome
  refine (Program.interpret_andThen serve program _).trans ?_
  refine congrArg (Program.andThen _) (funext fun outcome => ?_)
  cases outcome <;> rfl

end Supplied

end Attempt

end ReviewDiff
