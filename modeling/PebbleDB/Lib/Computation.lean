import Mathlib.Init

/-!
# Computations that may fail and computations that ask

The first part peels apart computations that return a value or an error. The second part is
about computations that ask questions: such a computation either has its result or asks and
goes on with the answer. The questions are fixed by the answers so far and by nothing else,
so one computation can be run against different sources of answers, in one go or one answer
at a time.
-/
namespace Except

variable {ε ε' α β : Type}

theorem bind_eq_ok (x : Except ε α) (f : α → Except ε β) (r : β) :
    (x >>= f) = .ok r ↔ ∃ a, x = .ok a ∧ f a = .ok r := by
  cases x with
  | error e => simp [bind, Except.bind]
  | ok a => simp [bind, Except.bind]

theorem bind_eq_error (x : Except ε α) (f : α → Except ε β) (e : ε) :
    (x >>= f) = .error e ↔ x = .error e ∨ ∃ a, x = .ok a ∧ f a = .error e := by
  cases x with
  | error e => simp [bind, Except.bind]
  | ok a => simp [bind, Except.bind]

@[simp] theorem ok_bind (a : α) (f : α → Except ε β) : ((.ok a : Except ε α) >>= f) = f a := rfl

@[simp] theorem error_bind (e : ε) (f : α → Except ε β) :
    ((.error e : Except ε α) >>= f) = .error e := rfl

@[simp] theorem pure_eq_ok (a : α) : (pure a : Except ε α) = .ok a := rfl

@[simp] theorem throw_eq_error (e : ε) : (throw e : Except ε α) = .error e := rfl

@[simp] theorem mapError_ok (g : ε → ε') (a : α) :
    (Except.ok a : Except ε α).mapError g = .ok a := rfl

@[simp] theorem mapError_error (g : ε → ε') (e : ε) :
    (Except.error e : Except ε α).mapError g = .error (g e) := rfl

theorem mapError_eq_ok (g : ε → ε') (x : Except ε α) (a : α) :
    x.mapError g = .ok a ↔ x = .ok a := by
  cases x with
  | error e => simp
  | ok b => simp

theorem mapError_eq_error (g : ε → ε') (x : Except ε α) (e' : ε') :
    x.mapError g = .error e' ↔ ∃ e, x = .error e ∧ g e = e' := by
  cases x with
  | error e => simp
  | ok b => simp

end Except

namespace Query

/-- A computation with questions in `ρ`, answers in `α` and a result in `β`. -/
inductive Prog (ρ α β : Type) : Type where
  | done (result : β) : Prog ρ α β
  | ask (question : ρ) (next : α → Prog ρ α β) : Prog ρ α β

namespace Prog

variable {ρ α β γ : Type}

/-- The computation with all its questions answered by a function. -/
def run (answer : ρ → α) : Prog ρ α β → β
  | done result => result
  | ask question next => (next (answer question)).run answer

/-- One answer; a computation that has its result is left as it is. -/
def feed (a : α) : Prog ρ α β → Prog ρ α β
  | done result => .done result
  | ask _ next => next a

def question : Prog ρ α β → Option ρ
  | done _ => none
  | ask question _ => some question

def result : Prog ρ α β → Option β
  | done result => some result
  | ask _ _ => none

def map (f : β → γ) : Prog ρ α β → Prog ρ α γ
  | done result => .done (f result)
  | ask question next => .ask question fun a => (next a).map f

/-- Whatever the answers are, the questions meet `P` and the result meets `Q`. -/
def All (P : ρ → Prop) (Q : β → Prop) : Prog ρ α β → Prop
  | done result => Q result
  | ask question next => P question ∧ ∀ a, (next a).All P Q

theorem run_map (answer : ρ → α) (f : β → γ) (prog : Prog ρ α β) :
    (prog.map f).run answer = f (prog.run answer) := by
  induction prog with
  | done result => rfl
  | ask question next ih => exact ih (answer question)

theorem All.map {P : ρ → Prop} {Q : β → Prop} {R : γ → Prop} (prog : Prog ρ α β)
    (all : prog.All P Q) (f : β → γ) (imp : ∀ b, Q b → R (f b)) : (prog.map f).All P R := by
  induction prog with
  | done result => exact imp result all
  | ask question next ih => exact ⟨all.1, fun a => ih a (all.2 a)⟩

theorem All.run {P : ρ → Prop} {Q : β → Prop} (answer : ρ → α) (prog : Prog ρ α β)
    (all : prog.All P Q) : Q (prog.run answer) := by
  induction prog with
  | done result => exact all
  | ask question next ih => exact ih (answer question) (all.2 _)

theorem All.feed {P : ρ → Prop} {Q : β → Prop} (a : α) (prog : Prog ρ α β) (all : prog.All P Q) :
    (prog.feed a).All P Q := by
  cases prog with
  | done result => exact all
  | ask question next => exact all.2 a

theorem All.question {P : ρ → Prop} {Q : β → Prop} (prog : Prog ρ α β) (all : prog.All P Q)
    (q : ρ) (asks : prog.question = some q) : P q := by
  cases prog with
  | done result => cases asks
  | ask question next =>
    cases asks
    exact all.1

theorem All.result {P : ρ → Prop} {Q : β → Prop} (prog : Prog ρ α β) (all : prog.All P Q)
    (b : β) (has : prog.result = some b) : Q b := by
  cases prog with
  | done result =>
    cases has
    exact all
  | ask question next => cases has

end Prog

end Query
