import Mathlib.Tactic.Common

/-!
# Binary search

`search n f` halves an interval until it holds one position. For a predicate that
stays true once it is true, that is the first position where it holds.
-/
namespace Search

/-- The loop on `[i, j)`. -/
def searchFrom (f : Nat → Bool) : Nat → Nat → Nat → Nat
  | 0, i, _ => i
  | fuel + 1, i, j =>
    if i < j then
      let h := (i + j) / 2
      if f h then searchFrom f fuel i h else searchFrom f fuel (h + 1) j
    else i

def search (n : Nat) (f : Nat → Bool) : Nat := searchFrom f n 0 n

theorem searchFrom_spec (f : Nat → Bool) (n : Nat)
    (mono : ∀ a b, a ≤ b → b < n → f a = true → f b = true) (fuel i j : Nat) (ordered : i ≤ j)
    (bound : j ≤ n) (enough : j - i ≤ fuel) (before : ∀ a < i, f a = false)
    (after : ∀ a, j ≤ a → a < n → f a = true) :
    searchFrom f fuel i j ≤ n ∧ (∀ a < searchFrom f fuel i j, f a = false) ∧
      ∀ a, searchFrom f fuel i j ≤ a → a < n → f a = true := by
  induction fuel generalizing i j with
  | zero =>
    have same : i = j := by omega
    subst same
    exact ⟨bound, before, after⟩
  | succ fuel ih =>
    rw [searchFrom]
    split
    next open_ =>
      simp only
      -- the half that cannot hold the first position is dropped
      split
      next holds =>
        apply ih i ((i + j) / 2) (by omega) (by omega) (by omega) before
        intro a above below
        exact mono _ a above below holds
      next fails =>
        apply ih ((i + j) / 2 + 1) j (by omega) bound (by omega) ?_ after
        intro a below
        by_contra holds
        have here := mono a ((i + j) / 2) (by omega) (by omega) (by simpa using holds)
        exact fails here
    next =>
      have same : i = j := by omega
      subst same
      exact ⟨bound, before, after⟩

theorem search_spec (n : Nat) (f : Nat → Bool)
    (mono : ∀ a b, a ≤ b → b < n → f a = true → f b = true) :
    search n f ≤ n ∧ (∀ a < search n f, f a = false) ∧
      ∀ a, search n f ≤ a → a < n → f a = true :=
  searchFrom_spec f n mono n 0 n (Nat.zero_le _) (Nat.le_refl _) (Nat.sub_le _ _)
    (fun _ below => absurd below (Nat.not_lt_zero _)) (fun _ above below => by omega)

/-- The result is the position that separates false from true. -/
theorem search_eq (n : Nat) (f : Nat → Bool) (i : Nat) (inside : i ≤ n)
    (mono : ∀ a b, a ≤ b → b < n → f a = true → f b = true)
    (before : ∀ a < i, f a = false) (here : i < n → f i = true) : search n f = i := by
  obtain ⟨bound, low, high⟩ := search_spec n f mono
  rcases Nat.lt_trichotomy (search n f) i with below | same | above
  · have holds := high (search n f) (Nat.le_refl _) (by omega)
    rw [before _ below] at holds
    cases holds
  · exact same
  · have fails := low i above
    rw [here (by omega)] at fails
    cases fails

end Search
