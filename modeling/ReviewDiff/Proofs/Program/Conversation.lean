import ReviewDiff.Proofs.Program

/-!
# Conversations

`Converses` follows one run of a program and keeps every question with the answer
that it gets.  A run of two programs, one after the other, is a run of each.
-/

namespace ReviewDiff

/-- A question with its answer. -/
abbrev Interface.Exchange (I : Interface) : Type :=
  (q : I.Request) × I.Answer q

namespace Program

variable {I : Interface} {α β : Type}

/-- A run asks these questions, gets these answers and ends with the value. -/
def Converses : Program I α → List I.Exchange → α → Prop
  | .done result, heard, value => heard = [] ∧ value = result
  | .ask q next, heard, value =>
      ∃ answer rest, heard = ⟨q, answer⟩ :: rest ∧ (next answer).Converses rest value

theorem converses_ask
    {q : I.Request} {next : I.Answer q → Program I α} {heard : List I.Exchange} {value : α} :
    (ask q next).Converses heard value ↔
      ∃ answer rest, heard = ⟨q, answer⟩ :: rest ∧ (next answer).Converses rest value :=
  Iff.rfl

theorem converses_bind
    {program : Program I α} {rest : α → Program I β} {heard : List I.Exchange} {value : β} :
    (program >>= rest).Converses heard value ↔
      ∃ before middle behind, heard = before ++ behind ∧
        program.Converses before middle ∧ (rest middle).Converses behind value := by
  rw [bind_def]
  induction program generalizing heard with
  | done result =>
      constructor
      · intro converses
        exact ⟨[], result, heard, rfl, ⟨rfl, rfl⟩, converses⟩
      · rintro ⟨_, _, behind, rfl, ⟨rfl, rfl⟩, converses⟩
        exact converses
  | ask q next inductionHypothesis =>
      rw [ask_andThen, converses_ask]
      constructor
      · rintro ⟨answer, later, rfl, converses⟩
        obtain ⟨before, middle, behind, rfl, first, second⟩ :=
          (inductionHypothesis answer).mp converses
        exact ⟨⟨q, answer⟩ :: before, middle, behind, rfl, ⟨answer, before, rfl, first⟩,
          second⟩
      · rintro ⟨_, middle, behind, rfl, ⟨answer, before, rfl, first⟩, second⟩
        exact ⟨answer, before ++ behind, rfl,
          (inductionHypothesis answer).mpr ⟨before, middle, behind, rfl, first, second⟩⟩

/-- What succeeds hands its value on. -/
theorem converses_bindOk
    {ε : Type} {program : ExceptT ε (Program I) α} {rest : α → ExceptT ε (Program I) β}
    {heard : List I.Exchange} {value : Except ε β}
    (succeeds : ∀ before middle, program.run.Converses before middle →
      ∃ result, middle = .ok result) :
    (program >>= rest).run.Converses heard value ↔
      ∃ before result behind, heard = before ++ behind ∧
        program.run.Converses before (.ok result) ∧
        (rest result).run.Converses behind value := by
  rw [ExceptT.run_bind, converses_bind]
  constructor
  · rintro ⟨before, middle, behind, rfl, first, second⟩
    obtain ⟨result, rfl⟩ := succeeds before middle first
    exact ⟨before, result, behind, rfl, first, second⟩
  · rintro ⟨before, result, behind, rfl, first, second⟩
    exact ⟨before, .ok result, behind, rfl, first, second⟩

end Program

end ReviewDiff
