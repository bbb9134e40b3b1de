import Mathlib.Data.List.Basic

/-!
# Slices and their backing arrays

The header of a slice names a backing array and a length. `append` writes behind the slice when the
array has room and otherwise moves to a new array, so two slices may share an array and
one of them can see what was appended to the other. Only slices that start at the
beginning of their array occur here.
-/
namespace GoSlice

variable {α : Type}

/-- The arrays below `next` are allocated; `cap` says how many cells each one has. -/
structure Heap (α : Type) where
  next : Nat
  cap : Nat → Nat
  cell : Nat → Nat → Option α

inductive Header where
  | nil
  | of (array len : Nat)
  deriving DecidableEq, Repr

namespace Header

def len : Header → Nat
  | nil => 0
  | of _ n => n

def capacity (h : Heap α) : Header → Nat
  | nil => 0
  | of a _ => h.cap a

/-- The elements as they are in the backing array now. -/
def contents (h : Heap α) : Header → List α
  | nil => []
  | of a n => (List.range n).filterMap (h.cell a)

/-- `s[:n]`: the same backing array under another length. -/
def reslice : Header → Nat → Header
  | nil, _ => nil
  | of a _, n => of a n

/-- The slice has a place in the heap and these elements. -/
def Holds (h : Heap α) : Header → List α → Prop
  | nil, xs => xs = []
  | of a n, xs => a < h.next ∧ n = xs.length ∧ n ≤ h.cap a ∧ ∀ i, i < n → h.cell a i = xs[i]?

/-- The slices do not share a backing array. -/
def Apart : Header → Header → Prop
  | of a _, of b _ => a ≠ b
  | _, _ => True

end Header

open Header

/-- `make([]T, 0, cap)`. -/
def make (h : Heap α) (cap : Nat) : Heap α × Header :=
  (⟨h.next + 1, fun a => if a = h.next then cap else h.cap a,
    fun a i => if a = h.next then none else h.cell a i⟩, .of h.next 0)

/-- The cells behind the slice become `xs`. -/
def write (h : Heap α) : Header → List α → Heap α
  | .nil, _ => h
  | .of array start, xs =>
    { h with cell := fun a i =>
        if a = array ∧ start ≤ i ∧ i < start + xs.length then xs[i - start]? else h.cell a i }

/-- `append(s, xs...)`; `grow` is the runtime's choice of a capacity, at least the new length. -/
def append (grow : Nat → Nat) (h : Heap α) (s : Header) (xs : List α) : Heap α × Header :=
  let n := s.len + xs.length
  -- in place: other headers on the same array see the new cells
  if n ≤ s.capacity h then (write h s xs, s.reslice n)
  else
    let elements := s.contents h ++ xs
    (⟨h.next + 1, fun a => if a = h.next then max n (grow n) else h.cap a,
      fun a i => if a = h.next then elements[i]? else h.cell a i⟩, .of h.next n)

/-! ### What a slice holds -/

theorem filterMap_range (xs : List α) (f : Nat → Option α) (n : Nat) (inside : n ≤ xs.length)
    (cells : ∀ i, i < n → f i = xs[i]?) : (List.range n).filterMap f = xs.take n := by
  induction n with
  | zero => rfl
  | succ n ih =>
    have front := ih (by omega) fun i below => cells i (by omega)
    have last := cells n (Nat.lt_succ_self n)
    rw [List.getElem?_eq_getElem (by omega)] at last
    rw [List.range_succ, List.filterMap_append, front, List.filterMap_cons, last,
      List.take_add_one, List.getElem?_eq_getElem (by omega)]
    rfl

theorem Header.Holds.contents {h : Heap α} {s : Header} {xs : List α} (holds : s.Holds h xs) :
    s.contents h = xs := by
  cases s with
  | nil => exact holds.symm
  | of a n =>
    obtain ⟨-, rfl, -, cells⟩ := holds
    rw [Header.contents, filterMap_range xs _ _ (Nat.le_refl _) cells, List.take_length]

theorem Header.Holds.len_eq {h : Heap α} {s : Header} {xs : List α} (holds : s.Holds h xs) :
    s.len = xs.length := by
  cases s with
  | nil =>
    rw [show xs = [] from holds]
    rfl
  | of a n => exact holds.2.1

theorem Header.Holds.reslice_zero {h : Heap α} {s : Header} {xs : List α} (holds : s.Holds h xs) :
    (s.reslice 0).Holds h [] := by
  cases s with
  | nil => rfl
  | of a n => exact ⟨holds.1, rfl, Nat.zero_le _, fun i below => absurd below (Nat.not_lt_zero i)⟩

theorem make_holds (h : Heap α) (cap : Nat) : (make h cap).2.Holds (make h cap).1 [] :=
  ⟨Nat.lt_succ_self _, rfl, Nat.zero_le _, fun i below => absurd below (Nat.not_lt_zero i)⟩

/-! ### Appending -/

theorem append_holds (grow : Nat → Nat) (h : Heap α) (s : Header) (xs ys : List α)
    (holds : s.Holds h xs) : (append grow h s ys).2.Holds (append grow h s ys).1 (xs ++ ys) := by
  have len := holds.len_eq
  by_cases room : s.len + ys.length ≤ s.capacity h
  · cases s with
    | nil =>
      have none_ : ys = [] := List.eq_nil_of_length_eq_zero (by
        simp only [Header.len, Header.capacity] at room
        omega)
      rw [append, if_pos room, none_, List.append_nil]
      exact holds
    | of a n =>
      obtain ⟨allocated, rfl, -, cells⟩ := holds
      rw [append, if_pos room]
      refine ⟨allocated, by simp [Header.len], room, ?_⟩
      intro i below
      simp only [Header.len] at below
      by_cases old : i < xs.length
      · rw [List.getElem?_append_left old, ← cells i old]
        exact if_neg (by omega)
      · rw [List.getElem?_append_right (by omega)]
        exact if_pos ⟨rfl, by omega, below⟩
  · rw [append, if_neg room, holds.contents]
    refine ⟨Nat.lt_succ_self _, by simp [len], ?_, ?_⟩
    · show _ ≤ if h.next = h.next then _ else _
      rw [if_pos rfl]
      exact Nat.le_max_left _ _
    · intro i _
      exact if_pos rfl

/-- A slice in another array keeps its elements, and stays apart from the result. -/
theorem append_frame (grow : Nat → Nat) (h : Heap α) (s t : Header) (ys zs : List α)
    (holds : t.Holds h zs) (apart : s.Apart t) :
    t.Holds (append grow h s ys).1 zs ∧ (append grow h s ys).2.Apart t := by
  cases t with
  | nil =>
    refine ⟨holds, ?_⟩
    cases (append grow h s ys).2 <;> trivial
  | of b m =>
    obtain ⟨allocated, lenEq, capacity, cells⟩ := holds
    rw [append]
    by_cases room : s.len + ys.length ≤ s.capacity h
    · rw [if_pos room]
      cases s with
      | nil => exact ⟨⟨allocated, lenEq, capacity, cells⟩, trivial⟩
      | of a n =>
        refine ⟨⟨allocated, lenEq, capacity, fun i below => ?_⟩, apart⟩
        rw [← cells i below]
        exact if_neg fun hit => apart hit.1.symm
    · have old : b ≠ h.next := Nat.ne_of_lt allocated
      rw [if_neg room]
      refine ⟨⟨Nat.lt_succ_of_lt allocated, lenEq, ?_, fun i below => ?_⟩, Ne.symm old⟩
      · show m ≤ if b = h.next then _ else _
        rw [if_neg old]
        exact capacity
      · rw [← cells i below]
        exact if_neg old

end GoSlice
