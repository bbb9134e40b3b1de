import PebbleDB.Lib.Computation

/-!
# Slice and index expressions that may be out of range

A program that parses bytes cuts pieces out of a slice and adds up positions. In a
language with checks a piece that is not inside the slice stops the program, and a sum
that does not fit the integer type is some other number. Both are faults here: a function
written with these operations returns a value only if it never meets one. `intMax` is the
largest value of the integer type.

The second part is about loops. `loop` runs its body until it is done, and reports when it
was given too few turns for that. If the body keeps an invariant under which it meets no
fault, and every turn lowers a measure, then the loop ends with the same result whatever
number of turns above the measure it is given (`loop_eq`).
-/
namespace Slicing

inductive Fault where
  | outOfRange
  | overflow
  deriving DecidableEq, Repr

section Expressions

variable {α : Type}

/-- `xs[lo:hi]` -/
def slice (xs : List α) (lo hi : Nat) : Except Fault (List α) :=
  if lo ≤ hi ∧ hi ≤ xs.length then .ok ((xs.drop lo).take (hi - lo)) else .error .outOfRange

/-- `xs[lo:]` -/
def sliceFrom (xs : List α) (lo : Nat) : Except Fault (List α) :=
  if lo ≤ xs.length then .ok (xs.drop lo) else .error .outOfRange

/-- `xs[i]` -/
def index (xs : List α) (i : Nat) : Except Fault α :=
  match xs[i]? with
  | some x => .ok x
  | none => .error .outOfRange

/-- `a + b` -/
def add (intMax a b : Nat) : Except Fault Nat :=
  if a + b ≤ intMax then .ok (a + b) else .error .overflow

theorem slice_ok (xs : List α) (lo hi : Nat) (ordered : lo ≤ hi) (inside : hi ≤ xs.length) :
    slice xs lo hi = .ok ((xs.drop lo).take (hi - lo)) := if_pos ⟨ordered, inside⟩

theorem slice_add (xs : List α) (lo n : Nat) (inside : lo + n ≤ xs.length) :
    slice xs lo (lo + n) = .ok ((xs.drop lo).take n) := by
  rw [slice_ok xs lo (lo + n) (Nat.le_add_right lo n) inside, Nat.add_sub_cancel_left]

theorem slice_error (xs : List α) (lo hi : Nat) (outside : hi < lo ∨ xs.length < hi) :
    slice xs lo hi = .error .outOfRange := by
  unfold slice
  rw [if_neg (by omega)]

theorem sliceFrom_ok (xs : List α) (lo : Nat) (inside : lo ≤ xs.length) :
    sliceFrom xs lo = .ok (xs.drop lo) := if_pos inside

theorem index_ok (xs rest : List α) (x : α) (i : Nat) (here : xs.drop i = x :: rest) :
    index xs i = .ok x := by
  have found : xs[i]? = some x := by
    rw [← List.head?_drop, here]
    rfl
  rw [index, found]

theorem add_ok (intMax a b : Nat) (fits : a + b ≤ intMax) : add intMax a b = .ok (a + b) :=
  if_pos fits

end Expressions

/-! ### Loops -/

section Loops

variable {ε σ ρ : Type}

/-- What a turn of a loop comes to. -/
inductive Turn (σ ρ : Type) where
  | again (s : σ)
  | done (r : ρ)

/-- At most `fuel` turns; `none` says that the loop is not done by then. -/
def loop (body : σ → Except ε (Turn σ ρ)) : Nat → σ → Except ε (Option ρ)
  | 0, _ => .ok none
  | fuel + 1, s => do
    match ← body s with
    | .again s => loop body fuel s
    | .done r => .ok (some r)

theorem loop_again (body : σ → Except ε (Turn σ ρ)) (fuel : Nat) (s s' : σ)
    (turn : body s = .ok (.again s')) : loop body (fuel + 1) s = loop body fuel s' := by
  rw [loop, turn]
  rfl

theorem loop_done (body : σ → Except ε (Turn σ ρ)) (fuel : Nat) (s : σ) (r : ρ)
    (turn : body s = .ok (.done r)) : loop body (fuel + 1) s = .ok (some r) := by
  rw [loop, turn]
  rfl

/-- `f n` says what a loop of at most `n` turns should come to. -/
theorem loop_eq (body : σ → Except ε (Turn σ ρ)) (inv : σ → Prop) (left : σ → Nat)
    (f : Nat → σ → ρ)
    (turn : ∀ n s, inv s →
      (∃ s', body s = .ok (.again s') ∧ inv s' ∧ left s' < left s ∧ f (n + 1) s = f n s') ∨
        body s = .ok (.done (f (n + 1) s)))
    (s : σ) (start : inv s) (fuel n : Nat) (enough : left s < fuel) (enough' : left s < n) :
    loop body fuel s = .ok (some (f n s)) := by
  induction fuel generalizing s n with
  | zero => omega
  | succ fuel ih =>
    cases n with
    | zero => omega
    | succ n =>
      rcases turn n s start with ⟨s', again, kept, less, same⟩ | done
      · rw [loop_again body fuel s s' again, same]
        exact ih s' kept n (by omega) (by omega)
      · exact loop_done body fuel s _ done

end Loops

end Slicing
