import Mathlib.Data.List.GetD
import Mathlib.Data.List.Nodup
import PebbleDB.Lib.SortedMap

/-!
# Skip lists over a heap of nodes

Nodes live at addresses; address 0 is the head. Each node has one successor pointer
per level of its tower. A search walks each level as far as keys stay below the
target, then drops one level; an insertion links the new node behind the node where
the walk of each level stopped. The heights of new towers are given from outside.
The list represents the sorted map of the nodes on its lowest level.
-/
namespace SkipHeap

variable {κ α : Type}

structure Node (κ α : Type) where
  key : κ
  data : α
  next : List (Option Nat)

/-- `allocated` nodes live at the addresses from 1 on; `height` levels are in use. -/
structure Skip (κ α : Type) where
  heap : Nat → Node κ α
  allocated : Nat
  height : Nat

def nextIn (heap : Nat → Node κ α) (i x : Nat) : Option Nat := (heap x).next.getD i none

def empty (head : κ) (headData : α) (maxHeight : Nat) : Skip κ α :=
  ⟨fun _ => ⟨head, headData, List.replicate maxHeight none⟩, 0, 1⟩

section Operations

variable [LinearOrder κ]

/-- The inner loop of a search on level `i`. -/
def walk (s : Skip κ α) (k : κ) (i : Nat) : Nat → Nat → Nat
  | 0, x => x
  | fuel + 1, x =>
    match nextIn s.heap i x with
    | some y => if (s.heap y).key < k then walk s k i fuel y else x
    | none => x

/-- The outer loop over the levels below `i`: where each level stopped, and the last
position. -/
def descend (s : Skip κ α) (k : κ) : Nat → Nat → List Nat × Nat
  | 0, x => ([], x)
  | i + 1, x =>
    let y := walk s k i s.allocated x
    let below := descend s k i y
    (below.1 ++ [y], below.2)

def search (s : Skip κ α) (k : κ) : List Nat × Nat := descend s k s.height 0

/-- The first node whose key is not below `k`. -/
def seek (s : Skip κ α) (k : κ) : Option Nat := nextIn s.heap 0 (search s k).2

def setNext (heap : Nat → Node κ α) (x i : Nat) (p : Option Nat) : Nat → Node κ α :=
  Function.update heap x { heap x with next := (heap x).next.set i p }

/-- Links node `n` behind `update i` on each level `i` below the given one. -/
def link (n : Nat) (update : Nat → Nat) : Nat → (Nat → Node κ α) → Nat → Node κ α
  | 0, heap => heap
  | i + 1, heap =>
    let below := link n update i heap
    setNext (setNext below n i (nextIn below i (update i))) (update i) i (some n)

/-- Adds a node of the given height; levels not in use so far start at the head. -/
def add (s : Skip κ α) (k : κ) (a : α) (height : Nat) : Skip κ α :=
  let n := s.allocated + 1
  let update := fun i => (search s k).1.getD i 0
  ⟨link n update height (Function.update s.heap n ⟨k, a, List.replicate height none⟩), n,
    max s.height height⟩

def setData (s : Skip κ α) (x : Nat) (a : α) : Skip κ α :=
  { s with heap := Function.update s.heap x { s.heap x with data := a } }

/-- The addresses on the lowest level from `p` on. -/
def follow (s : Skip κ α) : Nat → Option Nat → List Nat
  | 0, _ => []
  | _ + 1, none => []
  | fuel + 1, some x => x :: follow s fuel (nextIn s.heap 0 x)

def addresses (s : Skip κ α) : List Nat := follow s s.allocated (nextIn s.heap 0 0)

def entries (s : Skip κ α) : List (κ × α) :=
  (addresses s).map fun x => ((s.heap x).key, (s.heap x).data)

end Operations

/-! ### Linked lists -/

/-- Following `next` from `p` visits exactly the given addresses. -/
def Chain (next : Nat → Option Nat) : Option Nat → List Nat → Prop
  | p, [] => p = none
  | p, x :: l => p = some x ∧ Chain next (next x) l

theorem Chain.congr (next next' : Nat → Option Nat) (p : Option Nat) (l : List Nat)
    (chain : Chain next p l) (same : ∀ x ∈ l, next' x = next x) : Chain next' p l := by
  induction l generalizing p with
  | nil => exact chain
  | cons x l ih =>
    refine ⟨chain.1, ?_⟩
    rw [same x (by simp)]
    exact ih _ chain.2 fun y member => same y (by simp [member])

theorem Chain.next_last (next : Nat → Option Nat) (x : Nat) (l r : List Nat)
    (chain : Chain next (next x) (l ++ r)) : Chain next (next (l.getLastD x)) r := by
  induction l generalizing x with
  | nil => exact chain
  | cons y l ih =>
    rw [List.getLastD_cons]
    exact ih y chain.2

theorem getLastD_append_cons (l r : List Nat) (x d : Nat) :
    (l ++ x :: r).getLastD d = r.getLastD x := by
  induction l generalizing d with
  | nil => rw [List.nil_append, List.getLastD_cons]
  | cons y l ih => rw [List.cons_append, List.getLastD_cons, ih]

/-- Putting `n` behind the last node of `l`. -/
theorem Chain.splice (next next' : Nat → Option Nat) (x n : Nat) (l r : List Nat)
    (chain : Chain next (next x) (l ++ r)) (nodup : (x :: (l ++ r)).Nodup)
    (fresh : n ∉ x :: (l ++ r)) (behind : next' (l.getLastD x) = some n)
    (onward : next' n = next (l.getLastD x))
    (other : ∀ y, y ≠ l.getLastD x → y ≠ n → next' y = next y) :
    Chain next' (next' x) (l ++ n :: r) := by
  induction l generalizing x with
  | nil =>
    refine ⟨behind, ?_⟩
    rw [onward]
    apply chain.congr next next' _ r
    intro y member
    apply other
    · rintro rfl
      exact (List.nodup_cons.mp nodup).1 member
    · rintro rfl
      exact fresh (List.mem_cons_of_mem _ member)
  | cons y l ih =>
    rw [List.getLastD_cons] at behind onward other
    obtain ⟨notIn, later⟩ := List.nodup_cons.mp nodup
    have last : l.getLastD y ∈ y :: l := List.getLastD_mem_cons
    have kept : next' x = next x := by
      apply other
      · intro same
        rw [← same] at last
        exact notIn (List.mem_append_left _ last)
      · rintro rfl
        exact fresh List.mem_cons_self
    rw [kept]
    exact ⟨chain.1, ih y chain.2 later (fun member => fresh (List.mem_cons_of_mem _ member))
      behind onward other⟩

theorem follow_eq (s : Skip κ α) (fuel : Nat) (p : Option Nat) (l : List Nat)
    (chain : Chain (nextIn s.heap 0) p l) (enough : l.length ≤ fuel) : follow s fuel p = l := by
  induction l generalizing p fuel with
  | nil =>
    have stop : p = none := chain
    subst stop
    cases fuel with
    | zero => rfl
    | succ fuel => rfl
  | cons x l ih =>
    obtain ⟨rfl, rest⟩ := chain
    cases fuel with
    | zero => simp at enough
    | succ fuel => rw [follow, ih fuel _ rest (by simpa using enough)]

/-! ### Linking a node in -/

theorem nextIn_setNext (heap : Nat → Node κ α) (x i : Nat) (p : Option Nat) (j y : Nat)
    (inside : i < (heap x).next.length) :
    nextIn (setNext heap x i p) j y = if y = x ∧ j = i then p else nextIn heap j y := by
  unfold nextIn setNext
  by_cases same : y = x
  · subst same
    by_cases level : j = i
    · subst level
      simp [List.getD_eq_getElem?_getD, inside]
    · simp [level, List.getD_eq_getElem?_getD, List.getElem?_set_ne (Ne.symm level)]
  · simp [same]

/-- What linking leaves alone. -/
theorem link_frame (n : Nat) (update : Nat → Nat) (h : Nat) (heap : Nat → Node κ α) (x : Nat) :
    (link n update h heap x).key = (heap x).key ∧ (link n update h heap x).data = (heap x).data ∧
      (link n update h heap x).next.length = (heap x).next.length := by
  have set_frame (heap : Nat → Node κ α) (y i : Nat) (p : Option Nat) :
      (setNext heap y i p x).key = (heap x).key ∧ (setNext heap y i p x).data = (heap x).data ∧
        (setNext heap y i p x).next.length = (heap x).next.length := by
    unfold setNext
    by_cases same : x = y
    · subst same
      simp
    · simp [Function.update_of_ne same]
  induction h with
  | zero => exact ⟨rfl, rfl, rfl⟩
  | succ i ih =>
    simp only [link]
    refine ⟨?_, ?_, ?_⟩
    · rw [(set_frame _ _ _ _).1, (set_frame _ _ _ _).1, ih.1]
    · rw [(set_frame _ _ _ _).2.1, (set_frame _ _ _ _).2.1, ih.2.1]
    · rw [(set_frame _ _ _ _).2.2, (set_frame _ _ _ _).2.2, ih.2.2]

theorem nextIn_link (n : Nat) (update : Nat → Nat) (h : Nat) (heap : Nat → Node κ α)
    (apart : ∀ i < h, update i ≠ n) (room : ∀ i < h, i < (heap (update i)).next.length)
    (tall : h ≤ (heap n).next.length) (j x : Nat) :
    nextIn (link n update h heap) j x =
      if j < h then
        if x = n then nextIn heap j (update j)
        else if x = update j then some n else nextIn heap j x
      else nextIn heap j x := by
  induction h generalizing j x with
  | zero => simp [link]
  | succ i ih =>
    have below := fun j x => ih (fun i small => apart i (by omega)) (fun i small => room i (by omega))
      (by omega) j x
    have len := fun x => (link_frame n update i heap x).2.2
    have insideNew : i < (link n update i heap n).next.length := by
      rw [len]
      omega
    have insideOld : i < (setNext (link n update i heap) n i
        (nextIn (link n update i heap) i (update i)) (update i)).next.length := by
      rw [setNext, Function.update_of_ne (apart i (by omega)), len]
      exact room i (by omega)
    rw [link, nextIn_setNext _ _ _ _ _ _ insideOld, nextIn_setNext _ _ _ _ _ _ insideNew,
      below i (update i), below j x]
    have ne := apart i (by omega)
    by_cases level : j = i
    · subst level
      by_cases new : x = n
      · subst new
        simp [Ne.symm ne]
      · simp [new]
    · have iff : j < i + 1 ↔ j < i := by omega
      simp [level, iff]

/-! ### Well-formed lists -/

section Represents

variable [LinearOrder κ]

/-- The addresses whose tower reaches above level `i`. -/
def level (s : Skip κ α) (i : Nat) (order : List Nat) : List Nat :=
  order.filter fun x => decide (i < (s.heap x).next.length)

/-- `order` lists the nodes by ascending key, and the chain of each level visits those
of them that are tall enough. -/
structure WellFormed (s : Skip κ α) (order : List Nat) : Prop where
  address : ∀ x ∈ order, 0 < x ∧ x ≤ s.allocated
  count : order.length = s.allocated
  sorted : order.Pairwise fun x y => (s.heap x).key < (s.heap y).key
  chain : ∀ i, Chain (nextIn s.heap i) (nextIn s.heap i 0) (level s i order)
  tower : ∀ x ∈ order, 0 < (s.heap x).next.length ∧ (s.heap x).next.length ≤ s.height
  inUse : 0 < s.height ∧ s.height ≤ (s.heap 0).next.length

/-- The last node of level `i` with a key below `k`, or the head. -/
def pred (s : Skip κ α) (order : List Nat) (k : κ) (i : Nat) : Nat :=
  ((level s i order).filter fun x => decide ((s.heap x).key < k)).getLastD 0

theorem walk_eq_last (s : Skip κ α) (k : κ) (i fuel x : Nat) (l r : List Nat)
    (chain : Chain (nextIn s.heap i) (nextIn s.heap i x) (l ++ r))
    (below : ∀ y ∈ l, (s.heap y).key < k) (above : ∀ y ∈ r, ¬(s.heap y).key < k)
    (enough : l.length ≤ fuel) : walk s k i fuel x = l.getLastD x := by
  induction l generalizing x fuel with
  | nil =>
    cases fuel with
    | zero => rfl
    | succ fuel =>
      cases r with
      | nil =>
        have stop : nextIn s.heap i x = none := chain
        simp [walk, stop]
      | cons y r =>
        simp [walk, chain.1, above y (by simp)]
  | cons y l ih =>
    cases fuel with
    | zero => simp at enough
    | succ fuel =>
      rw [List.getLastD_cons, walk, chain.1]
      simp only [below y (by simp), if_true]
      exact ih fuel y chain.2 (fun z member => below z (by simp [member]))
        (by simpa using enough)

theorem pred_start (s : Skip κ α) (order : List Nat) (k : κ) (i : Nat) :
    pred s order k i = 0 ∨ pred s order k i ∈ level s i order ∧
      (s.heap (pred s order k i)).key < k := by
  have last := List.getLastD_mem_cons (l := (level s i order).filter fun x =>
    decide ((s.heap x).key < k)) (a := 0)
  rcases List.mem_cons.mp last with zero | inside
  · exact .inl zero
  · obtain ⟨member, below⟩ := List.mem_filter.mp inside
    exact .inr ⟨member, of_decide_eq_true below⟩

section Search

variable (s : Skip κ α) (order : List Nat) (wf : WellFormed s order) (k : κ)

include wf

theorem level_sorted (i : Nat) :
    (level s i order).Pairwise fun x y => (s.heap x).key < (s.heap y).key :=
  wf.sorted.filter _

/-- A walk that starts at the head or at a node below `k` ends at the last one. -/
theorem walk_eq_pred (i x : Nat)
    (start : x = 0 ∨ x ∈ level s i order ∧ (s.heap x).key < k) :
    walk s k i s.allocated x = pred s order k i := by
  have sorted := level_sorted s order wf i
  have short : (level s i order).length ≤ s.allocated :=
    Nat.le_trans (List.length_filter_le _ _) (Nat.le_of_eq wf.count)
  rcases start with rfl | ⟨member, below⟩
  · have split := SortedMap.filter_lt_append (fun x => (s.heap x).key) k _ sorted
    apply walk_eq_last s k i s.allocated 0 _
      ((level s i order).filter fun x => !decide ((s.heap x).key < k))
    · rw [split]
      exact wf.chain i
    · intro y inside
      simpa using (List.mem_filter.mp inside).2
    · intro y inside
      simpa using (List.mem_filter.mp inside).2
    · exact Nat.le_trans (List.length_filter_le _ _) short
  · -- the chain behind `x` is the rest of the level
    obtain ⟨before, after, whole⟩ := List.append_of_mem member
    have chain := wf.chain i
    rw [whole] at chain sorted short
    rw [List.append_cons] at chain
    have rest := chain.next_last _ _ _ _
    rw [List.getLastD_concat] at rest
    obtain ⟨-, tail, ahead⟩ := List.pairwise_append.mp sorted
    obtain ⟨-, tailSorted⟩ := List.pairwise_cons.mp tail
    have split := SortedMap.filter_lt_append (fun x => (s.heap x).key) k after tailSorted
    have front : before.filter (fun y => decide ((s.heap y).key < k)) = before := by
      rw [List.filter_eq_self]
      intro y inside
      simpa using (ahead y inside x (by simp)).trans below
    have last : pred s order k i =
        (after.filter fun y => decide ((s.heap y).key < k)).getLastD x := by
      rw [pred, whole, List.filter_append, front, List.filter_cons, if_pos (by simpa using below),
        getLastD_append_cons]
    rw [last]
    apply walk_eq_last s k i s.allocated x _
      (after.filter fun y => !decide ((s.heap y).key < k))
    · rw [split]
      exact rest
    · intro y inside
      simpa using (List.mem_filter.mp inside).2
    · intro y inside
      simpa using (List.mem_filter.mp inside).2
    · have le := List.length_filter_le (fun y => decide ((s.heap y).key < k)) after
      simp only [List.length_append, List.length_cons] at short
      omega

theorem descend_eq (i x : Nat)
    (start : x = 0 ∨ ∀ j, i = j + 1 → x ∈ level s j order ∧ (s.heap x).key < k) :
    descend s k i x =
      ((List.range i).map (pred s order k), if i = 0 then x else pred s order k 0) := by
  induction i generalizing x with
  | zero => rfl
  | succ i ih =>
    have here : walk s k i s.allocated x = pred s order k i := by
      apply walk_eq_pred s order wf k i x
      rcases start with zero | inside
      · exact .inl zero
      · exact .inr (inside i rfl)
    have next : pred s order k i = 0 ∨ ∀ j, i = j + 1 →
        pred s order k i ∈ level s j order ∧ (s.heap (pred s order k i)).key < k := by
      rcases pred_start s order k i with zero | ⟨member, below⟩
      · exact .inl zero
      · refine .inr fun j step => ⟨?_, below⟩
        -- a tower above level `i` is above the level below it too
        obtain ⟨inside, tall⟩ := List.mem_filter.mp member
        refine List.mem_filter.mpr ⟨inside, ?_⟩
        simp only [decide_eq_true_eq] at tall ⊢
        omega
    rw [descend, here]
    simp only [ih _ next, List.range_succ, List.map_append, List.map_cons, List.map_nil,
      Prod.mk.injEq, true_and, Nat.succ_ne_zero, if_false]
    split
    next zero => rw [zero]
    next => rfl

theorem search_eq : search s k = ((List.range s.height).map (pred s order k), pred s order k 0) := by
  have used := wf.inUse.1
  rw [search, descend_eq s order wf k s.height 0 (.inl rfl), if_neg (by omega)]

/-- Every node reaches the lowest level. -/
theorem level_zero : level s 0 order = order := by
  rw [level, List.filter_eq_self]
  intro x member
  simpa using (wf.tower x member).1

/-- From the node that `seek` finds, the lowest level goes on with all that is not below `k`. -/
theorem seek_chain : Chain (nextIn s.heap 0) (seek s k)
    (order.filter fun x => !decide ((s.heap x).key < k)) := by
  have chain := wf.chain 0
  rw [level_zero s order wf] at chain
  rw [← SortedMap.filter_lt_append (fun x => (s.heap x).key) k order wf.sorted] at chain
  have rest := chain.next_last _ _ _ _
  rwa [seek, search_eq s order wf k, pred, level_zero s order wf]

theorem seek_eq : seek s k = (order.filter fun x => !decide ((s.heap x).key < k)).head? := by
  have rest := seek_chain s order wf k
  generalize order.filter (fun x => !decide ((s.heap x).key < k)) = above at rest
  cases above with
  | nil => exact rest
  | cons y above => exact rest.1

theorem addresses_eq : addresses s = order := by
  have chain := wf.chain 0
  rw [level_zero s order wf] at chain
  exact follow_eq s s.allocated _ order chain (Nat.le_of_eq wf.count)

theorem pred_ne_fresh (i : Nat) : pred s order k i ≠ s.allocated + 1 := by
  rcases pred_start s order k i with zero | ⟨member, -⟩
  · omega
  · have bound := wf.address _ (List.mem_filter.mp member).1
    omega

/-- On levels not in use the predecessor is the head, as an insertion assumes. -/
theorem update_eq_pred : (fun i => (search s k).1.getD i 0) = pred s order k := by
  funext i
  rw [search_eq s order wf k]
  by_cases used : i < s.height
  · simp [List.getD_eq_getElem?_getD, used]
  · have none_ : level s i order = [] := by
      rw [level, List.filter_eq_nil_iff]
      intro x member
      have short := (wf.tower x member).2
      simp only [decide_eq_true_eq]
      omega
    simp [List.getD_eq_getElem?_getD, used, pred, none_]

theorem order_nodup : order.Nodup :=
  wf.sorted.imp fun {x y} less same => by
    subst same
    exact lt_irrefl _ less

end Search

/-! ### Adding a node -/

section Add

variable (s : Skip κ α) (order : List Nat) (wf : WellFormed s order) (k : κ) (a : α) (h : Nat)

/-- The order after an insertion. -/
def insertAt : List Nat :=
  order.filter (fun x => decide ((s.heap x).key < k)) ++
    (s.allocated + 1) :: order.filter (fun x => !decide ((s.heap x).key < k))

include wf

theorem ne_fresh (x : Nat) (known : x = 0 ∨ x ∈ order) : x ≠ s.allocated + 1 := by
  rcases known with zero | member
  · omega
  · have bound := wf.address x member
    omega

theorem add_old (x : Nat) (known : x = 0 ∨ x ∈ order) :
    ((add s k a h).heap x).key = (s.heap x).key ∧ ((add s k a h).heap x).data = (s.heap x).data ∧
      ((add s k a h).heap x).next.length = (s.heap x).next.length := by
  have ne := ne_fresh s order wf x known
  have frame := link_frame (s.allocated + 1) (fun i => (search s k).1.getD i 0) h
    (Function.update s.heap (s.allocated + 1) ⟨k, a, List.replicate h none⟩) x
  rw [Function.update_of_ne ne] at frame
  exact frame

omit wf in
theorem add_new :
    ((add s k a h).heap (s.allocated + 1)).key = k ∧
      ((add s k a h).heap (s.allocated + 1)).data = a ∧
      ((add s k a h).heap (s.allocated + 1)).next.length = h := by
  have frame := link_frame (s.allocated + 1) (fun i => (search s k).1.getD i 0) h
    (Function.update s.heap (s.allocated + 1) ⟨k, a, List.replicate h none⟩) (s.allocated + 1)
  simp only [Function.update_self, List.length_replicate] at frame
  exact frame

theorem nextIn_add (room : h ≤ (s.heap 0).next.length) (i x : Nat) :
    nextIn (add s k a h).heap i x =
      if i < h then
        if x = s.allocated + 1 then nextIn s.heap i (pred s order k i)
        else if x = pred s order k i then some (s.allocated + 1) else nextIn s.heap i x
      else if x = s.allocated + 1 then none else nextIn s.heap i x := by
  have apart := pred_ne_fresh s order wf k
  have old (j y : Nat) (ne : y ≠ s.allocated + 1) :
      nextIn (Function.update s.heap (s.allocated + 1) ⟨k, a, List.replicate h none⟩) j y =
        nextIn s.heap j y := by
    rw [nextIn, Function.update_of_ne ne, nextIn]
  have linked := nextIn_link (s.allocated + 1) (pred s order k) h
    (Function.update s.heap (s.allocated + 1) ⟨k, a, List.replicate h none⟩)
    (fun j _ => apart j)
    (by
      intro j small
      rw [Function.update_of_ne (apart j)]
      rcases pred_start s order k j with zero | ⟨member, -⟩
      · rw [zero]
        omega
      · exact of_decide_eq_true (List.mem_filter.mp member).2)
    (by simp) i x
  simp only [add, update_eq_pred s order wf k]
  rw [linked, old i _ (apart i)]
  by_cases new : x = s.allocated + 1
  · subst new
    by_cases small : i < h
    · simp [small]
    · simp [small, nextIn]
  · simp [new, old i x new]

theorem level_add (i : Nat) :
    level (add s k a h) i (insertAt s order k) =
      (level s i order).filter (fun x => decide ((s.heap x).key < k)) ++
        (if i < h then [s.allocated + 1] else []) ++
        (level s i order).filter (fun x => !decide ((s.heap x).key < k)) := by
  have side (q : Nat → Bool) :
      (order.filter q).filter (fun x => decide (i < ((add s k a h).heap x).next.length)) =
        (level s i order).filter q := by
    rw [level, List.filter_filter, List.filter_filter]
    apply List.filter_congr
    intro x inside
    rw [(add_old s order wf k a h x (.inr inside)).2.2, Bool.and_comm]
  rw [level, insertAt, List.filter_append, List.filter_cons, side, side, (add_new s k a h).2.2]
  by_cases small : i < h
  · simp [small]
  · simp [small]

theorem add_sorted (absent : ∀ x ∈ order, (s.heap x).key ≠ k) :
    (insertAt s order k).Pairwise fun x y =>
      ((add s k a h).heap x).key < ((add s k a h).heap y).key := by
  have newKey := (add_new s k a h).1
  have oldKey := fun x inside => (add_old s order wf k a h x (.inr inside)).1
  have kept := fun (p : Nat → Bool) => (wf.sorted.filter p).imp_of_mem
    (S := fun x y => ((add s k a h).heap x).key < ((add s k a h).heap y).key)
    fun {x y} first second less => by
      rw [oldKey x (List.mem_filter.mp first).1, oldKey y (List.mem_filter.mp second).1]
      exact less
  rw [insertAt, List.pairwise_append, List.pairwise_cons]
  refine ⟨kept _, ⟨fun y above => ?_, kept _⟩, fun x below y above => ?_⟩
  · obtain ⟨old, notBelow⟩ := List.mem_filter.mp above
    rw [newKey, oldKey y old]
    exact lt_of_le_of_ne (by simpa using notBelow) (Ne.symm (absent y old))
  · obtain ⟨oldX, smaller⟩ := List.mem_filter.mp below
    rw [oldKey x oldX]
    rcases List.mem_cons.mp above with rfl | larger
    · rw [newKey]
      exact of_decide_eq_true smaller
    · obtain ⟨oldY, notBelow⟩ := List.mem_filter.mp larger
      rw [oldKey y oldY]
      exact lt_of_lt_of_le (of_decide_eq_true smaller) (by simpa using notBelow)

/-- On the levels of its tower the new node is spliced in; the others stay. -/
theorem add_chain (room : h ≤ (s.heap 0).next.length) (i : Nat) :
    Chain (nextIn (add s k a h).heap i) (nextIn (add s k a h).heap i 0)
      (level (add s k a h) i (insertAt s order k)) := by
  have next := nextIn_add s order wf k a h room i
  have parts := SortedMap.filter_lt_append (fun x => (s.heap x).key) k _
    (level_sorted s order wf i)
  have chain := wf.chain i
  have inLevel : ∀ x ∈ level s i order, x ≠ s.allocated + 1 :=
    fun x inside => ne_fresh s order wf x (.inr (List.mem_filter.mp inside).1)
  rw [level_add s order wf k a h i]
  by_cases small : i < h
  · rw [if_pos small, List.append_assoc, List.singleton_append]
    apply Chain.splice (nextIn s.heap i)
    · rw [parts]
      exact chain
    · rw [parts, List.nodup_cons]
      refine ⟨fun zero => ?_, (order_nodup s order wf).filter _⟩
      have bound := wf.address 0 (List.mem_filter.mp zero).1
      omega
    · rw [parts]
      intro inside
      rcases List.mem_cons.mp inside with zero | old
      · omega
      · exact inLevel _ old rfl
    · change nextIn (add s k a h).heap i (pred s order k i) = _
      rw [next, if_pos small, if_neg (pred_ne_fresh s order wf k i), if_pos rfl]
    · rw [next, if_pos small, if_pos rfl]
      rfl
    · intro y (notPred : y ≠ pred s order k i) notNew
      rw [next, if_pos small, if_neg notNew, if_neg notPred]
  · rw [if_neg small, List.append_nil, parts]
    have head : nextIn (add s k a h).heap i 0 = nextIn s.heap i 0 := by
      rw [next, if_neg small, if_neg (by omega)]
    rw [head]
    apply chain.congr
    intro x inside
    rw [next, if_neg small, if_neg (inLevel x inside)]

theorem add_wellFormed (absent : ∀ x ∈ order, (s.heap x).key ≠ k) (positive : 0 < h)
    (room : h ≤ (s.heap 0).next.length) :
    WellFormed (add s k a h) (insertAt s order k) := by
  have member (x : Nat) (inside : x ∈ insertAt s order k) : x = s.allocated + 1 ∨ x ∈ order := by
    simp only [insertAt, List.mem_append, List.mem_cons, List.mem_filter] at inside
    tauto
  constructor
  case address =>
    intro x inside
    rcases member x inside with rfl | old
    · exact ⟨by omega, Nat.le_refl _⟩
    · have bound := wf.address x old
      exact ⟨bound.1, Nat.le_succ_of_le bound.2⟩
  case count =>
    have len := congrArg List.length
      (SortedMap.filter_lt_append (fun x => (s.heap x).key) k order wf.sorted)
    rw [List.length_append, wf.count] at len
    simp only [insertAt, List.length_append, List.length_cons, add]
    omega
  case sorted => exact add_sorted s order wf k a h absent
  case chain => exact add_chain s order wf k a h room
  case tower =>
    intro x inside
    rcases member x inside with rfl | old
    · rw [(add_new s k a h).2.2]
      exact ⟨positive, Nat.le_max_right _ _⟩
    · rw [(add_old s order wf k a h x (.inr old)).2.2]
      have bound := wf.tower x old
      exact ⟨bound.1, Nat.le_trans bound.2 (Nat.le_max_left _ _)⟩
  case inUse =>
    rw [(add_old s order wf k a h 0 (.inl rfl)).2.2]
    have used := wf.inUse
    simp only [add]
    omega

theorem setData_wellFormed (x : Nat) : WellFormed (setData s x a) order := by
  have key (y : Nat) : ((setData s x a).heap y).key = (s.heap y).key := by
    by_cases same : y = x
    · subst same
      simp [setData]
    · simp [setData, Function.update_of_ne same]
  have next (y : Nat) : ((setData s x a).heap y).next = (s.heap y).next := by
    by_cases same : y = x
    · subst same
      simp [setData]
    · simp [setData, Function.update_of_ne same]
  have pointers (i : Nat) : nextIn (setData s x a).heap i = nextIn s.heap i := by
    funext y
    rw [nextIn, next, nextIn]
  have levels (i : Nat) : level (setData s x a) i order = level s i order := by
    simp only [level, next]
  constructor
  case address => exact wf.address
  case count => exact wf.count
  case sorted => simpa only [key] using wf.sorted
  case chain =>
    intro i
    rw [pointers, levels]
    exact wf.chain i
  case tower =>
    simp only [next]
    exact wf.tower
  case inUse =>
    simp only [next]
    exact wf.inUse

end Add

/-! ### The map a skip list represents -/

def toMap (s : Skip κ α) (order : List Nat) : List (κ × α) :=
  order.map fun x => ((s.heap x).key, (s.heap x).data)

/-- The list is well formed and its entries are the given map; towers may reach up to
`maxHeight`. -/
def Represents (s : Skip κ α) (maxHeight : Nat) (m : List (κ × α)) : Prop :=
  (s.heap 0).next.length = maxHeight ∧ ∃ order, WellFormed s order ∧ toMap s order = m

/-- The node that holds the key. -/
def locate (s : Skip κ α) (k : κ) : Option Nat :=
  (seek s k).filter fun x => decide ((s.heap x).key = k)

theorem empty_represents (head : κ) (headData : α) (maxHeight : Nat) (room : 0 < maxHeight) :
    Represents (empty head headData maxHeight) maxHeight [] := by
  refine ⟨by simp [empty], [], ?_, rfl⟩
  constructor
  case address => simp
  case count => rfl
  case sorted => exact List.Pairwise.nil
  case chain =>
    intro i
    show nextIn _ i 0 = none
    simp only [nextIn, empty, List.getD_eq_getElem?_getD, List.getElem?_replicate]
    split
    · rfl
    · rfl
  case tower => simp
  case inUse =>
    simp only [empty, List.length_replicate]
    omega

theorem locate_mem (s : Skip κ α) (order : List Nat) (wf : WellFormed s order) (k : κ) (x : Nat)
    (found : locate s k = some x) : x ∈ order ∧ (s.heap x).key = k := by
  rw [locate, seek_eq s order wf k, Option.filter_eq_some_iff] at found
  refine ⟨?_, of_decide_eq_true found.2⟩
  exact (List.mem_filter.mp (List.mem_of_head? found.1)).1

omit [LinearOrder κ] in
theorem toMap_append_cons (s : Skip κ α) (l r : List Nat) (n : Nat) :
    toMap s (l ++ n :: r) = toMap s l ++ ((s.heap n).key, (s.heap n).data) :: toMap s r := by
  simp [toMap]

section Represented

variable (s : Skip κ α) (maxHeight : Nat) (m : List (κ × α)) (rep : Represents s maxHeight m)

include rep

theorem Represents.sorted : SortedMap.Sorted m := by
  obtain ⟨-, order, wf, rfl⟩ := rep
  exact List.pairwise_map.mpr wf.sorted

theorem Represents.entries_eq : entries s = m := by
  obtain ⟨-, order, wf, rfl⟩ := rep
  rw [entries, addresses_eq s order wf]
  rfl

/-- The lowest level from its start, with rounds to spare. -/
theorem Represents.follow_head (fuel : Nat) (enough : m.length ≤ fuel) :
    toMap s (follow s fuel (nextIn s.heap 0 0)) = m := by
  obtain ⟨-, order, wf, rfl⟩ := rep
  have chain := wf.chain 0
  rw [level_zero s order wf] at chain
  rw [follow_eq s fuel _ order chain (by simpa [toMap] using enough)]

/-- The lowest level from where a search ends. -/
theorem Represents.follow_seek (k : κ) (fuel : Nat) (enough : m.length ≤ fuel) :
    toMap s (follow s fuel (seek s k)) = m.filter fun e => !decide (e.1 < k) := by
  obtain ⟨-, order, wf, rfl⟩ := rep
  have short := (List.filter_sublist (p := fun x => !decide ((s.heap x).key < k))
    (l := order)).length_le
  rw [toMap, List.length_map] at enough
  rw [follow_eq s fuel _ _ (seek_chain s order wf k) (short.trans enough), toMap, toMap,
    List.filter_map]
  rfl

theorem Represents.length_eq : m.length = s.allocated := by
  obtain ⟨-, order, wf, rfl⟩ := rep
  rw [toMap, List.length_map, wf.count]

/-- A search finds the entry of the key, or shows that there is none. -/
theorem Represents.locate_find (k : κ) :
    SortedMap.find k m = (locate s k).map fun x => (s.heap x).data := by
  have sorted := rep.sorted
  obtain ⟨-, order, wf, rfl⟩ := rep
  rw [locate, seek_eq s order wf k]
  cases above : order.filter fun x => !decide ((s.heap x).key < k) with
  | nil =>
    -- every key lies below `k`
    rw [List.filter_eq_nil_iff] at above
    apply SortedMap.find_eq_none
    intro e member
    obtain ⟨x, inside, rfl⟩ := List.mem_map.mp member
    have below : (s.heap x).key < k := by simpa using above x inside
    exact below.ne
  | cons x rest =>
    have front : x ∈ order ∧ ¬(s.heap x).key < k := by
      have inside : x ∈ order.filter fun x => !decide ((s.heap x).key < k) := by simp [above]
      simpa using List.mem_filter.mp inside
    rw [List.head?_cons]
    by_cases same : (s.heap x).key = k
    · simp only [Option.filter, same, decide_true, if_true, Option.map_some]
      apply SortedMap.find_of_mem k _ _ sorted
      exact List.mem_map.mpr ⟨x, front.1, by rw [same]⟩
    · simp only [Option.filter, same, decide_false, Bool.false_eq_true, if_false, Option.map_none]
      apply SortedMap.find_eq_none
      intro e member
      obtain ⟨y, inside, rfl⟩ := List.mem_map.mp member
      -- `y` lies below `k`, or it is `x` or behind it
      by_cases below : (s.heap y).key < k
      · exact below.ne
      · have larger : y ∈ x :: rest := by
          rw [← above]
          exact List.mem_filter.mpr ⟨inside, by simpa using below⟩
        have ascending := wf.sorted.filter fun x => !decide ((s.heap x).key < k)
        rw [above] at ascending
        have start : k < (s.heap x).key := lt_of_le_of_ne (not_lt.mp front.2) (Ne.symm same)
        rcases List.mem_cons.mp larger with rfl | later
        · exact start.ne'
        · exact (start.trans ((List.pairwise_cons.mp ascending).1 y later)).ne'

theorem Represents.setData (k : κ) (a : α) (x : Nat) (found : locate s k = some x) :
    Represents (SkipHeap.setData s x a) maxHeight (SortedMap.insert k a m) := by
  have sorted := rep.sorted
  obtain ⟨room, order, wf, rfl⟩ := rep
  obtain ⟨member, rfl⟩ := locate_mem s order wf k x found
  have head : x ≠ 0 := Nat.pos_iff_ne_zero.mp (wf.address x member).1
  refine ⟨?_, order, setData_wellFormed s order wf a x, ?_⟩
  · simp only [SkipHeap.setData, Function.update_of_ne (Ne.symm head)]
    exact room
  · obtain ⟨before, after, rfl⟩ := List.append_of_mem member
    have nodup := order_nodup s _ wf
    have others (l : List Nat) (apart : x ∉ l) : toMap (SkipHeap.setData s x a) l = toMap s l := by
      apply List.map_congr_left
      intro y inside
      have ne : y ≠ x := fun same => apart (same ▸ inside)
      simp [SkipHeap.setData, Function.update_of_ne ne]
    rw [List.nodup_middle, List.nodup_cons, List.mem_append, not_or] at nodup
    obtain ⟨⟨notBefore, notAfter⟩, -⟩ := nodup
    rw [toMap_append_cons] at sorted
    rw [toMap_append_cons, toMap_append_cons, SortedMap.insert_replace _ a _ _ _ sorted, others before notBefore,
      others after notAfter]
    simp [SkipHeap.setData]

theorem Represents.add (k : κ) (a : α) (h : Nat) (absent : locate s k = none) (positive : 0 < h)
    (fits : h ≤ maxHeight) :
    Represents (SkipHeap.add s k a h) maxHeight (SortedMap.insert k a m) := by
  have missing := rep.locate_find s maxHeight m k
  have sorted := rep.sorted
  rw [absent, Option.map_none] at missing
  obtain ⟨room, order, wf, rfl⟩ := rep
  have noKey : ∀ x ∈ order, (s.heap x).key ≠ k := by
    intro x inside same
    have present := SortedMap.find_of_mem k (s.heap x).data (toMap s order) sorted
      (List.mem_map.mpr ⟨x, inside, by rw [same]⟩)
    rw [missing] at present
    cases present
  refine ⟨?_, insertAt s order k, add_wellFormed s order wf k a h noKey positive (room ▸ fits), ?_⟩
  · rw [(add_old s order wf k a h 0 (.inl rfl)).2.2]
    exact room
  · have old (p : Nat → Bool) :
        toMap (SkipHeap.add s k a h) (order.filter p) = toMap s (order.filter p) := by
      apply List.map_congr_left
      intro x inside
      obtain ⟨key, data, -⟩ := add_old s order wf k a h x (.inr (List.mem_filter.mp inside).1)
      rw [key, data]
    obtain ⟨newKey, newData, -⟩ := add_new s k a h
    rw [insertAt, toMap_append_cons, old, old, newKey, newData, SortedMap.insert_absent k a _ (by
      intro e member
      obtain ⟨x, inside, rfl⟩ := List.mem_map.mp member
      exact noKey x inside)]
    simp only [toMap, List.filter_map]
    rfl

end Represented

end Represents

end SkipHeap
