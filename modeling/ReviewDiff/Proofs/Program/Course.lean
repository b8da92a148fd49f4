import ReviewDiff.Proofs.Program.Within

/-!
# Runs in surroundings that change

Answers can depend on a state, and a question can change it.  The course of a
program keeps every question with the state that the question found, the value
and the state at the end.

* `course_bind` says how the courses of two parts make that of the whole.
* `Within.of_course` carries the bounds on all runs over to courses.
* `course_congr` says that surroundings which answer alike what is asked in a
  course lead to the same course.
-/

namespace ReviewDiff

/-- How questions are answered in a state, and the state that they leave. -/
abbrev Interface.Reaction (I : Interface) (σ : Type) : Type :=
  (q : I.Request) → σ → I.Answer q × σ

/-- How a run of a program went, with the state that each question found. -/
structure Course (I : Interface) (σ α : Type) where
  asked : List (I.Request × σ)
  value : α
  state : σ

/-- A course with questions in front of it. -/
def Course.behind
    {I : Interface} {σ α : Type} (asked : List (I.Request × σ)) (course : Course I σ α) :
    Course I σ α :=
  { course with asked := asked ++ course.asked }

namespace Program

variable {I : Interface} {σ α β ε : Type}

/-- The run of a program from a state. -/
def course (react : I.Reaction σ) : Program I α → σ → Course I σ α
  | .done value, state => ⟨[], value, state⟩
  | .ask q next, state =>
      ((next (react q state).1).course react (react q state).2).behind [(q, state)]

section Laws

variable (react : I.Reaction σ) (state : σ)

@[simp]
theorem course_pure (value : α) :
    (pure value : Program I α).course react state = ⟨[], value, state⟩ :=
  rfl

@[simp]
theorem course_request (q : I.Request) :
    (request q).course react state =
      ⟨[(q, state)], (react q state).1, (react q state).2⟩ :=
  rfl

variable {react state} in
theorem course_request_of_eq
    {q : I.Request} {answer : I.Answer q} {after : σ}
    (answered : react q state = (answer, after)) :
    (request q).course react state = ⟨[(q, state)], answer, after⟩ := by
  rw [course_request, answered]

theorem course_bind (program : Program I α) (rest : α → Program I β) :
    (program >>= rest).course react state =
      ((rest (program.course react state).value).course react
          (program.course react state).state).behind
        (program.course react state).asked := by
  rw [bind_def]
  induction program generalizing state with
  | done value => rfl
  | ask q next inductionHypothesis =>
      rw [ask_andThen]
      exact congrArg (Course.behind [(q, state)]) (inductionHypothesis _ _)

theorem course_bindExcept
    (program : ExceptT ε (Program I) α) (rest : α → ExceptT ε (Program I) β) :
    (program >>= rest).run.course react state =
      match (program.run.course react state).value with
      | .ok value =>
          ((rest value).run.course react (program.run.course react state).state).behind
            (program.run.course react state).asked
      | .error failure =>
          ⟨(program.run.course react state).asked, .error failure,
            (program.run.course react state).state⟩ := by
  rw [ExceptT.run_bind, course_bind]
  cases (program.run.course react state).value with
  | ok value => rfl
  | error failure => simp only [Course.behind, course_pure, List.append_nil]

variable {react state} in
theorem course_bindExcept_of_ok
    {program : ExceptT ε (Program I) α} {asked : List (I.Request × σ)} {value : α}
    {after : σ} (succeeds : program.run.course react state = ⟨asked, .ok value, after⟩)
    (rest : α → ExceptT ε (Program I) β) :
    (program >>= rest).run.course react state =
      ((rest value).run.course react after).behind asked := by
  rw [course_bindExcept, succeeds]

theorem course_bindExcept_eq_ok_iff
    {program : ExceptT ε (Program I) α} {rest : α → ExceptT ε (Program I) β}
    {value : β} :
    ((program >>= rest).run.course react state).value = .ok value ↔
      ∃ middle, (program.run.course react state).value = .ok middle ∧
        ((rest middle).run.course react (program.run.course react state).state).value =
          .ok value := by
  rw [course_bindExcept]
  cases (program.run.course react state).value with
  | ok middle => simp only [Course.behind, Except.ok.injEq, exists_eq_left']
  | error failure => simp only [reduceCtorEq, false_and, exists_false]

theorem course_lift (program : Program I α) :
    (ExceptT.lift program : ExceptT ε (Program I) α).run.course react state =
      ⟨(program.course react state).asked, .ok (program.course react state).value,
        (program.course react state).state⟩ := by
  have whole := course_bind react state program (pure ∘ Except.ok (ε := ε))
  simp only [Course.behind, Function.comp_apply, course_pure, List.append_nil] at whole
  exact whole

end Laws

section Bounds

variable {react : I.Reaction σ} {state : σ} {asks : I.Request → Prop}

theorem Within.of_course
    {ends : α → Prop} {program : Program I α} (within : program.Within asks ends) :
    (∀ question ∈ (program.course react state).asked, asks question.1) ∧
      ends (program.course react state).value := by
  induction program generalizing state with
  | done value => exact ⟨List.forall_mem_nil _, within⟩
  | ask q next inductionHypothesis =>
      obtain ⟨laterAsks, fits⟩ := inductionHypothesis _ (within.2 (react q state).1)
      exact ⟨List.forall_mem_cons.mpr ⟨within.1, laterAsks⟩, fits⟩

/-- Surroundings that answer the questions of a course alike lead to the same
course. -/
theorem course_congr
    {other : I.Reaction σ} {program : Program I α}
    (alike : ∀ question ∈ (program.course react state).asked,
      other question.1 = react question.1) :
    program.course other state = program.course react state := by
  induction program generalizing state with
  | done value => rfl
  | ask q next inductionHypothesis =>
      obtain ⟨first, later⟩ := List.forall_mem_cons.mp alike
      have first : other q = react q := first
      rw [course, course, first, inductionHypothesis _ later]

/-- Only what the second part asks behind a success of the first one is asked
besides the questions of the first part. -/
theorem forall_mem_course_bindExcept
    {program : ExceptT ε (Program I) α} {rest : α → ExceptT ε (Program I) β}
    (first : ∀ question ∈ (program.run.course react state).asked, asks question.1)
    (second : ∀ value, (program.run.course react state).value = .ok value →
      ∀ after, ∀ question ∈ ((rest value).run.course react after).asked, asks question.1) :
    ∀ question ∈ ((program >>= rest).run.course react state).asked, asks question.1 := by
  rw [course_bindExcept]
  cases ends : (program.run.course react state).value with
  | ok value => exact List.forall_mem_append.mpr ⟨first, second value ends _⟩
  | error failure => exact first

end Bounds

end Program

namespace Attempt

variable {I : Interface} {σ α ε : Type}

theorem course_ofOutcome
    (react : I.Reaction σ) (state : σ) (wrap : ε → Failure)
    (program : Program I (Except ε α)) :
    (ofOutcome wrap program).run.course react state =
      ⟨(program.course react state).asked,
        (program.course react state).value.mapError wrap,
        (program.course react state).state⟩ := by
  unfold ofOutcome
  rw [ExceptT.run_mk, Program.course_bind]
  cases (program.course react state).value <;>
    simp only [Course.behind, Program.course_pure, List.append_nil] <;> rfl

theorem course_ofOutcome_of_ok
    {react : I.Reaction σ} {state : σ} {program : Program I (Except ε α)}
    {asked : List (I.Request × σ)} {value : α} {after : σ}
    (succeeds : program.course react state = ⟨asked, .ok value, after⟩)
    (wrap : ε → Failure) :
    (ofOutcome wrap program).run.course react state = ⟨asked, .ok value, after⟩ := by
  rw [course_ofOutcome, succeeds]
  rfl

end Attempt

end ReviewDiff
