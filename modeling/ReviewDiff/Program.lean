/-!
# Programs that consult their surroundings

An `Interface` lists the requests a program may make and, for every request, the
type of its answer.  A `Program` is either finished or waits for one answer.
Nothing is assumed about the answers, so a fact about a program holds whatever its
surroundings reply.
-/

namespace ReviewDiff

/-- What may be asked, and what kind of answer each question gets. -/
structure Interface where
  Request : Type
  Answer : Request → Type

/-- A computation that asks questions of an interface, one at a time. -/
inductive Program (I : Interface) (α : Type) : Type where
  | done (value : α) : Program I α
  | ask (request : I.Request) (next : I.Answer request → Program I α) : Program I α

namespace Program

variable {I J : Interface} {α β γ : Type}

def andThen : Program I α → (α → Program I β) → Program I β
  | done value, rest => rest value
  | ask request next, rest => ask request fun answer => (next answer).andThen rest

instance : Monad (Program I) where
  pure := done
  bind := andThen

def request (q : I.Request) : Program I (I.Answer q) :=
  ask q done

/-- Answers every question of one interface by a program over another. -/
def interpret (serve : (q : I.Request) → Program J (I.Answer q)) : Program I α → Program J α
  | done value => done value
  | ask q next => (serve q).andThen fun answer => (next answer).interpret serve

/-- Runs a program in a monad that can answer its questions. -/
def run {m : Type → Type} [Monad m] (serve : (q : I.Request) → m (I.Answer q)) :
    Program I α → m α
  | done value => pure value
  | ask q next => do
      let answer ← serve q
      (next answer).run serve

/-! ## Laws -/

theorem bind_def (p : Program I α) (f : α → Program I β) : (p >>= f) = p.andThen f := rfl

@[simp]
theorem done_andThen (value : α) (f : α → Program I β) :
    (done value).andThen f = f value := rfl

@[simp]
theorem ask_andThen
    (q : I.Request) (next : I.Answer q → Program I α) (f : α → Program I β) :
    (ask q next).andThen f = ask q fun answer => (next answer).andThen f := rfl

@[simp]
theorem andThen_done (p : Program I α) : p.andThen done = p := by
  induction p with
  | done value => rfl
  | ask q next inductionHypothesis =>
      exact congrArg (ask q) (funext inductionHypothesis)

theorem andThen_assoc (p : Program I α) (f : α → Program I β) (g : β → Program I γ) :
    (p.andThen f).andThen g = p.andThen fun value => (f value).andThen g := by
  induction p with
  | done value => rfl
  | ask q next inductionHypothesis =>
      exact congrArg (ask q) (funext inductionHypothesis)

@[simp]
theorem interpret_done
    (serve : (q : I.Request) → Program J (I.Answer q)) (value : α) :
    (done value : Program I α).interpret serve = done value := rfl

theorem interpret_andThen
    (serve : (q : I.Request) → Program J (I.Answer q)) (p : Program I α)
    (f : α → Program I β) :
    (p.andThen f).interpret serve =
      (p.interpret serve).andThen fun value => (f value).interpret serve := by
  induction p with
  | done value => rfl
  | ask q next inductionHypothesis =>
      calc
        ((ask q next).andThen f).interpret serve =
            (serve q).andThen fun answer => ((next answer).andThen f).interpret serve := rfl
        _ = (serve q).andThen fun answer =>
              ((next answer).interpret serve).andThen fun value => (f value).interpret serve :=
            congrArg _ (funext inductionHypothesis)
        _ = ((ask q next).interpret serve).andThen fun value => (f value).interpret serve :=
            (andThen_assoc _ _ _).symm

end Program

namespace Interface

/-- The questions of two interfaces side by side. -/
def both (I J : Interface) : Interface where
  Request := I.Request ⊕ J.Request
  Answer
    | .inl q => I.Answer q
    | .inr q => J.Answer q

end Interface

namespace Program

variable {I J : Interface} {α : Type}

def first (q : I.Request) : Program (I.both J) (I.Answer q) :=
  ask (I := I.both J) (Sum.inl q) done

def second (q : J.Request) : Program (I.both J) (J.Answer q) :=
  ask (I := I.both J) (Sum.inr q) done

end Program

end ReviewDiff
