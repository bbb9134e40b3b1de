import Mathlib.Algebra.BigOperators.Group.List.Basic
import Mathlib.Algebra.GroupWithZero.Nat
import Mathlib.Algebra.Order.BigOperators.Group.List
import Mathlib.Algebra.Order.Group.Nat
import Mathlib.Data.List.Basic

/-!
# Thread pools

A pool is the list of the local states of some threads; a step of the thread at place
`i` puts its next local state there. What is true of all threads, how much of something
they hold together, and that one of them is in a certain state, is followed through
such a step here.
-/
namespace Pool

variable {τ : Type} {pool : List τ} {i : Nat} {t : τ}

theorem mem (here : pool[i]? = some t) : t ∈ pool := List.mem_of_getElem? here

theorem mem_set (here : pool[i]? = some t) (next : τ) : next ∈ pool.set i next := by
  obtain ⟨inside, -⟩ := List.getElem?_eq_some_iff.mp here
  exact List.mem_set inside next

theorem getElem?_set (here : pool[i]? = some t) (next : τ) : (pool.set i next)[i]? = some next := by
  obtain ⟨inside, -⟩ := List.getElem?_eq_some_iff.mp here
  exact List.getElem?_set_self inside

theorem set_same (here : pool[i]? = some t) : pool.set i t = pool := by
  obtain ⟨inside, is⟩ := List.getElem?_eq_some_iff.mp here
  rw [← is]
  exact List.set_getElem_self inside

theorem forall_set {P : τ → Prop} (all : ∀ u ∈ pool, P u) {next : τ} (new : P next) :
    ∀ u ∈ pool.set i next, P u := by
  intro u member
  rcases List.mem_or_eq_of_mem_set member with old | rfl
  · exact all u old
  · exact new

/-- A thread in a certain state is still there if the one that moved was in another. -/
theorem exists_set {P : τ → Prop} (some_ : ∃ u ∈ pool, P u) (here : pool[i]? = some t)
    (other : ¬P t) (next : τ) : ∃ u ∈ pool.set i next, P u := by
  obtain ⟨u, member, holds⟩ := some_
  obtain ⟨j, there⟩ := List.mem_iff_getElem?.mp member
  have apart : i ≠ j := by
    rintro rfl
    rw [here] at there
    cases there
    exact other holds
  refine ⟨u, List.mem_iff_getElem?.mpr ⟨j, ?_⟩, holds⟩
  rw [List.getElem?_set_ne apart]
  exact there

/-! ### What the threads hold together -/

/-- The sum of what every thread holds. -/
def total (weight : τ → Nat) (pool : List τ) : Nat := (pool.map weight).sum

@[simp] theorem total_nil (weight : τ → Nat) : total weight [] = 0 := rfl

@[simp] theorem total_append (weight : τ → Nat) (pool more : List τ) :
    total weight (pool ++ more) = total weight pool + total weight more := by
  rw [total, List.map_append, List.sum_append, total, total]

@[simp] theorem total_singleton (weight : τ → Nat) (t : τ) : total weight [t] = weight t := by
  simp [total]

theorem total_set (weight : τ → Nat) (here : pool[i]? = some t) (next : τ) :
    total weight (pool.set i next) + weight t = total weight pool + weight next := by
  induction pool generalizing i with
  | nil => cases here
  | cons u pool ih =>
    cases i with
    | zero =>
      cases here
      simp only [List.set_cons_zero, total, List.map_cons, List.sum_cons]
      omega
    | succ i =>
      have later := ih (i := i) here
      simp only [List.set_cons_succ, total, List.map_cons, List.sum_cons] at later ⊢
      omega

theorem weight_le_total (weight : τ → Nat) (member : t ∈ pool) : weight t ≤ total weight pool :=
  List.single_le_sum (by simp) _ (List.mem_map_of_mem member)

theorem weight_eq_zero (weight : τ → Nat) (none_ : total weight pool = 0) (member : t ∈ pool) :
    weight t = 0 :=
  Nat.le_zero.mp (none_ ▸ weight_le_total weight member)

end Pool
