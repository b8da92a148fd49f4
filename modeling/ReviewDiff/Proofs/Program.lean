import ReviewDiff.Failure

/-!
# Runs of programs

A program yields a value when some run ends with it, every answer of the run
being an allowed one.  The answers may depend on everything that was asked
before, so what holds of all yielded values holds whatever the surroundings
are and however they change.
-/

namespace ReviewDiff

namespace Program

variable {I : Interface} {α β : Type}

/-- A run with allowed answers ends with the value. -/
def Yields (allowed : (q : I.Request) → I.Answer q → Prop) : Program I α → α → Prop
  | .done result, value => value = result
  | .ask q next, value =>
      ∃ answer, allowed q answer ∧ (next answer).Yields allowed value

section Laws

variable {allowed : (q : I.Request) → I.Answer q → Prop}

theorem yields_pure {result value : α} :
    (pure result : Program I α).Yields allowed value ↔ value = result :=
  Iff.rfl

theorem yields_ask
    {q : I.Request} {next : I.Answer q → Program I α} {value : α} :
    (ask q next).Yields allowed value ↔
      ∃ answer, allowed q answer ∧ (next answer).Yields allowed value :=
  Iff.rfl

theorem yields_request {q : I.Request} {answer : I.Answer q} :
    (request q).Yields allowed answer ↔ allowed q answer := by
  constructor
  · rintro ⟨given, isAllowed, rfl⟩
    exact isAllowed
  · intro isAllowed
    exact ⟨answer, isAllowed, rfl⟩

theorem yields_bind
    {program : Program I α} {rest : α → Program I β} {value : β} :
    (program >>= rest).Yields allowed value ↔
      ∃ middle, program.Yields allowed middle ∧
        (rest middle).Yields allowed value := by
  rw [bind_def]
  induction program with
  | done result =>
      constructor
      · intro yields
        exact ⟨result, rfl, yields⟩
      · rintro ⟨middle, rfl, yields⟩
        exact yields
  | ask q next inductionHypothesis =>
      rw [ask_andThen, yields_ask]
      constructor
      · rintro ⟨answer, isAllowed, yields⟩
        obtain ⟨middle, first, second⟩ := (inductionHypothesis answer).mp yields
        exact ⟨middle, ⟨answer, isAllowed, first⟩, second⟩
      · rintro ⟨middle, ⟨answer, isAllowed, first⟩, second⟩
        exact ⟨answer, isAllowed, (inductionHypothesis answer).mpr ⟨middle, first, second⟩⟩

/-- A fixed allowed answer to every question leads to a yielded value. -/
theorem yields_run
    {serve : (q : I.Request) → I.Answer q} (isAllowed : ∀ q, allowed q (serve q))
    (program : Program I α) :
    program.Yields allowed (Id.run (program.run fun q => pure (serve q))) := by
  induction program with
  | done result => rfl
  | ask q next inductionHypothesis =>
      exact ⟨serve q, isAllowed q, inductionHypothesis (serve q)⟩

end Laws

/-! ## Runs with fixed answers -/

/-- The result of a program whose questions are answered by a function. -/
def result (serve : (q : I.Request) → I.Answer q) (program : Program I α) : α :=
  Id.run (program.run fun q => pure (serve q))

section Result

variable (serve : (q : I.Request) → I.Answer q)

@[simp]
theorem result_pure (value : α) :
    (pure value : Program I α).result serve = value :=
  rfl

@[simp]
theorem result_request (q : I.Request) :
    (request q).result serve = serve q :=
  rfl

@[simp]
theorem result_bind (program : Program I α) (rest : α → Program I β) :
    (program >>= rest).result serve = (rest (program.result serve)).result serve := by
  rw [bind_def]
  induction program with
  | done value => rfl
  | ask q next inductionHypothesis => exact inductionHypothesis (serve q)

/-- A program that may fail goes on only behind a success. -/
theorem result_bindExcept
    {ε : Type} (program : ExceptT ε (Program I) α) (rest : α → ExceptT ε (Program I) β) :
    (program >>= rest).run.result serve =
      match program.run.result serve with
      | .ok value => (rest value).run.result serve
      | .error failure => .error failure := by
  rw [ExceptT.run_bind, result_bind]
  cases program.run.result serve <;> rfl

theorem result_lift {ε : Type} (program : Program I α) :
    (ExceptT.lift program : ExceptT ε (Program I) α).run.result serve =
      .ok (program.result serve) :=
  result_bind serve program _

/-- A program that cannot fail hands its value on. -/
theorem result_liftBind
    {ε : Type} (program : Program I α) (rest : α → ExceptT ε (Program I) β) :
    ((ExceptT.lift program : ExceptT ε (Program I) α) >>= rest).run.result serve =
      (rest (program.result serve)).run.result serve := by
  rw [result_bindExcept, result_lift]

/-- A success of both parts is a success of the second one behind the first. -/
theorem result_bindExcept_eq_ok_iff
    {ε : Type} {program : ExceptT ε (Program I) α} {rest : α → ExceptT ε (Program I) β}
    {value : β} :
    (program >>= rest).run.result serve = .ok value ↔
      ∃ middle, program.run.result serve = .ok middle ∧
        (rest middle).run.result serve = .ok value := by
  rw [result_bindExcept]
  cases program.run.result serve with
  | ok middle => simp only [Except.ok.injEq, exists_eq_left']
  | error failure => simp only [reduceCtorEq, false_and, exists_false]

@[simp]
theorem result_interpret
    {J : Interface} (supply : (q : J.Request) → Program I (J.Answer q))
    (program : Program J α) :
    (program.interpret supply).result serve =
      program.result fun q => (supply q).result serve := by
  induction program with
  | done value => rfl
  | ask q next inductionHypothesis =>
      have supplied :
          ((supply q >>= fun answer => (next answer).interpret supply)).result serve =
            ((next ((supply q).result serve)).interpret supply).result serve :=
        result_bind serve (supply q) _
      exact supplied.trans (inductionHypothesis _)

end Result

/-! ## Questions with fixed answers -/

/-- The questions of a program whose questions are answered by a function. -/
def questions (serve : (q : I.Request) → I.Answer q) : Program I α → List I.Request
  | .done _ => []
  | .ask q next => q :: (next (serve q)).questions serve

section Questions

variable (serve : (q : I.Request) → I.Answer q)

@[simp]
theorem questions_pure (value : α) :
    (pure value : Program I α).questions serve = [] :=
  rfl

@[simp]
theorem questions_request (q : I.Request) :
    (request q).questions serve = [q] :=
  rfl

@[simp]
theorem questions_bind (program : Program I α) (rest : α → Program I β) :
    (program >>= rest).questions serve =
      program.questions serve ++ (rest (program.result serve)).questions serve := by
  rw [bind_def]
  induction program with
  | done value => rfl
  | ask q next inductionHypothesis =>
      exact congrArg (q :: ·) (inductionHypothesis (serve q))

/-- What may fail asks no more behind a failure. -/
theorem questions_bindExcept
    {ε : Type} (program : ExceptT ε (Program I) α) (rest : α → ExceptT ε (Program I) β) :
    (program >>= rest).run.questions serve =
      program.run.questions serve ++
        match program.run.result serve with
        | .ok value => (rest value).run.questions serve
        | .error _ => [] := by
  rw [ExceptT.run_bind, questions_bind]
  cases program.run.result serve <;> rfl

theorem questions_liftBind
    {ε : Type} (program : Program I α) (rest : α → ExceptT ε (Program I) β) :
    ((ExceptT.lift program : ExceptT ε (Program I) α) >>= rest).run.questions serve =
      program.questions serve ++ (rest (program.result serve)).run.questions serve := by
  have asked :
      (ExceptT.lift program : ExceptT ε (Program I) α).run.questions serve =
        program.questions serve ++ [] :=
    questions_bind serve program _
  rw [questions_bindExcept, result_lift, asked, List.append_nil]

end Questions

end Program

/-! ## Attempts with fixed answers -/

namespace Attempt

variable {I : Interface} {α ε : Type} (serve : (q : I.Request) → I.Answer q)
  (wrap : ε → Failure) (program : Program I (Except ε α))

@[simp]
theorem result_ofExcept (outcome : Except Failure α) :
    (ofExcept outcome : Attempt I α).run.result serve = outcome :=
  rfl

theorem result_ofOutcome :
    (ofOutcome wrap program).run.result serve = (program.result serve).mapError wrap := by
  unfold ofOutcome
  rw [ExceptT.run_mk, Program.result_bind]
  cases program.result serve <;> rfl

theorem questions_ofOutcome :
    (ofOutcome wrap program).run.questions serve = program.questions serve := by
  unfold ofOutcome
  rw [ExceptT.run_mk, Program.questions_bind]
  cases program.result serve <;> exact List.append_nil _

end Attempt

end ReviewDiff
