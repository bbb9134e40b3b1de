import Mathlib.Data.List.Lex
import Mathlib.Order.Cover

/-!
# Lists that begin with a given list

In the lexicographic order the lists that begin with `p` follow one another without a gap.
They start at `p`; where they end is told by the last element of `p`. If another element
covers it, they end below the list that has this one in its place. If it is the greatest
of all, it does not bound them, and the elements in front of it decide.
-/
namespace List

variable {α : Type*} [LinearOrder α]

/-- With a common start, the order is that of what follows. -/
theorem append_lt_append_iff (p s t : List α) : p ++ s < p ++ t ↔ s < t := by
  induction p with
  | nil => rfl
  | cons x p ih => simp [ih]

theorem append_le_append_iff (p s t : List α) : p ++ s ≤ p ++ t ↔ s ≤ t := by
  rw [← not_lt, ← not_lt, append_lt_append_iff]

/-- A list is not above those that begin with it. -/
theorem le_of_isPrefix (p k : List α) (begins : p <+: k) : p ≤ k := by
  obtain ⟨t, rfl⟩ := begins
  have bound := (append_le_append_iff p [] t).mpr (not_lt.mp (not_lt_nil t))
  rwa [append_nil] at bound

theorem cons_le_cons_iff_lt_or (x y : α) (s t : List α) :
    x :: s ≤ y :: t ↔ x < y ∨ x = y ∧ s ≤ t := by
  rw [← not_lt, cons_lt_cons_iff, ← not_lt]
  constructor
  · intro above
    rcases lt_trichotomy x y with less | same | more
    · exact Or.inl less
    · exact Or.inr ⟨same, fun below => above (Or.inr ⟨same.symm, below⟩)⟩
    · exact absurd (Or.inl more) above
  · rintro (less | ⟨rfl, above⟩) (more | ⟨same, below⟩)
    · exact lt_asymm less more
    · exact less.ne same.symm
    · exact lt_irrefl _ more
    · exact above below

/-- Between two lists that begin with `p` all lists do. -/
theorem isPrefix_of_between (p s t k : List α) (lower : p ++ s ≤ k) (upper : k < p ++ t) :
    p <+: k := by
  induction p generalizing k with
  | nil => exact nil_prefix
  | cons x p ih =>
    cases k with
    | nil => exact absurd lower (not_le.mpr (nil_lt_cons x (p ++ s)))
    | cons y k =>
      rw [cons_append, cons_le_cons_iff_lt_or] at lower
      rw [cons_append, cons_lt_cons_iff] at upper
      rcases lower with less | ⟨rfl, lower⟩
      · rcases upper with more | ⟨rfl, -⟩
        · exact absurd more (lt_asymm less)
        · exact absurd less (lt_irrefl _)
      · rcases upper with more | ⟨-, upper⟩
        · exact absurd more (lt_irrefl _)
        · exact (prefix_cons_inj x).mpr (ih k lower upper)

theorem singleton_isPrefix_iff (b : α) (u : List α) :
    [b] <+: u ↔ [b] ≤ u ∧ ∀ x ∈ u.head?, x ≤ b := by
  cases u with
  | nil => simp [not_le.mpr (nil_lt_cons b [])]
  | cons x u =>
    rw [cons_prefix_cons, cons_le_cons_iff_lt_or]
    constructor
    · rintro ⟨rfl, -⟩
      exact ⟨Or.inr ⟨rfl, not_lt.mp (not_lt_nil u)⟩, by simp⟩
    · rintro ⟨less | ⟨same, -⟩, bound⟩
      · exact absurd (bound x (by simp)) (not_le.mpr less)
      · exact ⟨same, nil_prefix⟩

/-- The lists that begin with `p` and then `b` are those from there up to `p` and the
element next to `b`. -/
theorem isPrefix_concat_iff_of_covBy (p : List α) (b c : α) (covers : b ⋖ c) (k : List α) :
    p ++ [b] <+: k ↔ p ++ [b] ≤ k ∧ k < p ++ [c] := by
  constructor
  · intro begins
    refine ⟨le_of_isPrefix _ _ begins, ?_⟩
    obtain ⟨t, rfl⟩ := begins
    rw [append_assoc, append_lt_append_iff]
    exact cons_lt_cons_iff.mpr (Or.inl covers.lt)
  · rintro ⟨lower, upper⟩
    obtain ⟨u, rfl⟩ := isPrefix_of_between p [b] [c] k lower upper
    rw [append_le_append_iff] at lower
    rw [append_lt_append_iff] at upper
    rw [prefix_append_right_inj, singleton_isPrefix_iff]
    refine ⟨lower, ?_⟩
    cases u with
    | nil => simp
    | cons x u =>
      have below : x < c := by simpa [cons_lt_cons_iff] using upper
      simpa using covers.le_of_lt below

/-- Behind `p` the greatest element is no bound from above. -/
theorem isPrefix_concat_iff_of_isTop (p : List α) (b : α) (greatest : IsTop b) (k : List α) :
    p ++ [b] <+: k ↔ p <+: k ∧ p ++ [b] ≤ k := by
  constructor
  · intro begins
    exact ⟨(prefix_append p [b]).trans begins, le_of_isPrefix _ _ begins⟩
  · rintro ⟨⟨u, rfl⟩, lower⟩
    rw [append_le_append_iff] at lower
    rw [prefix_append_right_inj, singleton_isPrefix_iff]
    exact ⟨lower, fun x _ => greatest x⟩

end List
