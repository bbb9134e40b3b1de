import Mathlib.Data.List.Basic
import Mathlib.Order.Lattice

/-!
# Maps as sorted association lists

A finite map with ordered keys is the list of its entries, strictly ascending by
key. Insertion replaces or adds; looking up after an insertion is all that clients
need to know about it.
-/
namespace SortedMap

variable {κ α : Type} [LinearOrder κ]

/-- Keys strictly ascend. -/
def Sorted (m : List (κ × α)) : Prop := m.Pairwise fun a b => a.1 < b.1

def find (k : κ) : List (κ × α) → Option α
  | [] => none
  | (j, a) :: m => if j = k then some a else find k m

/-- The entries below, the new entry, the entries above. -/
def insert (k : κ) (a : α) (m : List (κ × α)) : List (κ × α) :=
  m.filter (fun e => decide (e.1 < k)) ++ (k, a) :: m.filter (fun e => decide (k < e.1))

theorem find_append (k : κ) (m n : List (κ × α)) :
    find k (m ++ n) = (find k m).or (find k n) := by
  induction m with
  | nil => rfl
  | cons e m ih =>
    simp only [List.cons_append, find]
    split
    · rfl
    · exact ih

theorem find_eq_none (k : κ) (m : List (κ × α)) (absent : ∀ e ∈ m, e.1 ≠ k) :
    find k m = none := by
  induction m with
  | nil => rfl
  | cons e m ih =>
    rw [find, if_neg (absent e (by simp))]
    exact ih fun x member => absent x (by simp [member])

theorem mem_of_find (k : κ) (a : α) (m : List (κ × α)) (found : find k m = some a) :
    (k, a) ∈ m := by
  induction m with
  | nil => cases found
  | cons e m ih =>
    rw [find] at found
    split at found
    next same =>
      cases found
      subst same
      exact List.mem_cons_self
    next => exact List.mem_cons_of_mem _ (ih found)

theorem find_of_mem (k : κ) (a : α) (m : List (κ × α)) (sorted : Sorted m) (member : (k, a) ∈ m) :
    find k m = some a := by
  induction m with
  | nil => cases member
  | cons e m ih =>
    obtain ⟨first, later⟩ := List.pairwise_cons.mp sorted
    rcases List.mem_cons.mp member with rfl | inside
    · rw [find, if_pos rfl]
    · rw [find, if_neg (first _ inside).ne]
      exact ih later inside

theorem find_filter (k : κ) (p : κ → Bool) (m : List (κ × α)) :
    find k (m.filter fun e => p e.1) = if p k then find k m else none := by
  induction m with
  | nil => simp [find]
  | cons e m ih =>
    rw [List.filter_cons]
    by_cases same : e.1 = k
    · subst same
      by_cases kept : p e.1 = true
      · simp [kept, find]
      · simp [kept, ih]
    · by_cases kept : p e.1 = true
      · simp [kept, find, same, ih]
      · simp [kept, find, same, ih]

theorem find_insert (j k : κ) (a : α) (m : List (κ × α)) :
    find j (insert k a m) = if j = k then some a else find j m := by
  unfold insert
  rw [find_append, find, find_filter j (fun e => decide (e < k)),
    find_filter j (fun e => decide (k < e))]
  by_cases same : j = k
  · subst same
    simp
  · rw [if_neg (Ne.symm same), if_neg same]
    rcases lt_or_gt_of_ne same with below | above
    · simp [below, below.asymm]
    · simp [above, above.asymm]

theorem Sorted.insert (k : κ) (a : α) (m : List (κ × α)) (sorted : Sorted m) :
    Sorted (SortedMap.insert k a m) := by
  unfold Sorted SortedMap.insert at *
  rw [List.pairwise_append, List.pairwise_cons]
  refine ⟨sorted.filter _, ⟨fun e member => ?_, sorted.filter _⟩, fun x below y above => ?_⟩
  · simpa using (List.mem_filter.mp member).2
  · have smaller : x.1 < k := by simpa using (List.mem_filter.mp below).2
    rcases List.mem_cons.mp above with rfl | larger
    · exact smaller
    · exact smaller.trans (by simpa using (List.mem_filter.mp larger).2)

theorem insert_replace (k : κ) (a b : α) (m n : List (κ × α)) (sorted : Sorted (m ++ (k, b) :: n)) :
    insert k a (m ++ (k, b) :: n) = m ++ (k, a) :: n := by
  obtain ⟨-, tail, across⟩ := List.pairwise_append.mp sorted
  have below : ∀ e ∈ m, e.1 < k := fun e member => across e member (k, b) (by simp)
  have above : ∀ e ∈ n, k < e.1 := (List.pairwise_cons.mp tail).1
  have keep (p : κ × α → Bool) (l : List (κ × α)) (all : ∀ e ∈ l, p e = true) : l.filter p = l :=
    List.filter_eq_self.mpr all
  have drop (p : κ × α → Bool) (l : List (κ × α)) (none_ : ∀ e ∈ l, ¬p e = true) :
      l.filter p = [] := List.filter_eq_nil_iff.mpr none_
  rw [insert, List.filter_append, List.filter_append, List.filter_cons, List.filter_cons,
    keep _ m (by simpa using below), drop _ n (by simpa using fun e member => (above e member).le),
    drop _ m (by simpa using fun e member => (below e member).le), keep _ n (by simpa using above)]
  simp

theorem insert_absent (k : κ) (a : α) (m : List (κ × α)) (absent : ∀ e ∈ m, e.1 ≠ k) :
    insert k a m =
      m.filter (fun e => decide (e.1 < k)) ++ (k, a) :: m.filter (fun e => !decide (e.1 < k)) := by
  rw [insert]
  congr 2
  apply List.filter_congr
  intro e member
  have ne := absent e member
  rw [← decide_not, decide_eq_decide, not_lt]
  exact ⟨le_of_lt, fun le => lt_of_le_of_ne le (Ne.symm ne)⟩

theorem insert_perm (k : κ) (a : α) (m : List (κ × α)) (absent : ∀ e ∈ m, e.1 ≠ k) :
    (insert k a m).Perm ((k, a) :: m) := by
  rw [insert_absent k a m absent]
  exact List.perm_middle.trans ((List.filter_append_perm _ m).cons _)

/-- A sorted list is what lies below a bound followed by what does not. -/
theorem filter_lt_append {β : Type} (f : β → κ) (k : κ) (l : List β)
    (sorted : l.Pairwise fun a b => f a < f b) :
    l.filter (fun x => decide (f x < k)) ++ l.filter (fun x => !decide (f x < k)) = l := by
  induction l with
  | nil => rfl
  | cons x l ih =>
    obtain ⟨first, later⟩ := List.pairwise_cons.mp sorted
    by_cases below : f x < k
    · simp [below, ih later]
    · -- everything behind `x` lies above it, so nothing is left below the bound
      have none_ : l.filter (fun y => decide (f y < k)) = [] := by
        rw [List.filter_eq_nil_iff]
        intro y member
        simpa using (not_lt.mp below).trans (first y member).le
      have all := ih later
      rw [none_, List.nil_append] at all
      simp [below, none_, all]

end SortedMap
