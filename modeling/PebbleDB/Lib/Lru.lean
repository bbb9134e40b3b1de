import Mathlib.Algebra.BigOperators.Group.List.Basic
import Mathlib.Algebra.GroupWithZero.Nat
import Mathlib.Data.List.Nodup

/-!
# Caches that forget what was used least recently

`Library` is what a program sees of an LRU cache: a type of caches and their operations.
`Lawful` states what the operations do to the entries of a cache, listed with the one used
last in front, and from these laws alone follows how the weight of the values changes.
`reference` keeps the list itself and is lawful.
-/
namespace Lru

variable {κ ν : Type}

/-! ### Entries -/

/-- What the values weigh together. -/
def total (weight : ν → Nat) (entries : List (κ × ν)) : Nat :=
  (entries.map fun e => weight e.2).sum

@[simp] theorem total_nil (weight : ν → Nat) : total weight ([] : List (κ × ν)) = 0 := rfl

@[simp] theorem total_cons (weight : ν → Nat) (k : κ) (v : ν) (entries : List (κ × ν)) :
    total weight ((k, v) :: entries) = weight v + total weight entries := rfl

@[simp] theorem total_append (weight : ν → Nat) (entries more : List (κ × ν)) :
    total weight (entries ++ more) = total weight entries + total weight more := by
  rw [total, List.map_append, List.sum_append, total, total]

theorem total_one (entries : List (κ × ν)) : total (fun _ => 1) entries = entries.length := by
  simp [total]

theorem total_dropLast (weight : ν → Nat) (entries : List (κ × ν)) (last : κ × ν)
    (oldest : entries.getLast? = some last) :
    total weight entries.dropLast + weight last.2 = total weight entries := by
  obtain ⟨front, split⟩ := List.getLast?_eq_some_iff.mp oldest
  rw [split, List.dropLast_concat, total_append]
  simp [total]

variable [DecidableEq κ]

/-- The entries of the other keys. -/
def others (entries : List (κ × ν)) (k : κ) : List (κ × ν) := entries.filter fun e => e.1 ≠ k

theorem others_distinct (entries : List (κ × ν)) (k : κ) (distinct : (entries.map Prod.fst).Nodup) :
    ((others entries k).map Prod.fst).Nodup :=
  (List.filter_sublist.map Prod.fst).nodup distinct

theorem notMem_others (entries : List (κ × ν)) (k : κ) : k ∉ (others entries k).map Prod.fst := by
  intro member
  obtain ⟨e, kept, same⟩ := List.mem_map.mp member
  exact of_decide_eq_true (List.mem_filter.mp kept).2 same

theorem cons_others_distinct (entries : List (κ × ν)) (k : κ) (v : ν)
    (distinct : (entries.map Prod.fst).Nodup) :
    (((k, v) :: others entries k).map Prod.fst).Nodup :=
  List.nodup_cons.mpr ⟨notMem_others entries k, others_distinct entries k distinct⟩

theorem others_of_notMem (entries : List (κ × ν)) (k : κ) (absent : k ∉ entries.map Prod.fst) :
    others entries k = entries := by
  refine List.filter_eq_self.mpr fun e member => decide_eq_true fun same => absent ?_
  rw [← same]
  exact List.mem_map_of_mem member

theorem others_cons_self (entries : List (κ × ν)) (k : κ) (v : ν) :
    others ((k, v) :: entries) k = others entries k := by
  simp [others]

theorem others_cons_of_ne (entries : List (κ × ν)) (k key : κ) (v : ν) (ne : key ≠ k) :
    others ((key, v) :: entries) k = (key, v) :: others entries k := by
  simp [others, ne]

/-- Keys are distinct, so without a key its value is missing once. -/
theorem total_others (weight : ν → Nat) (entries : List (κ × ν)) (k : κ)
    (distinct : (entries.map Prod.fst).Nodup) :
    total weight (others entries k) + (entries.lookup k).elim 0 weight = total weight entries := by
  induction entries with
  | nil => rfl
  | cons e entries ih =>
    obtain ⟨key, v⟩ := e
    obtain ⟨absent, rest⟩ := List.nodup_cons.mp distinct
    by_cases same : key = k
    · subst same
      rw [others_cons_self, others_of_notMem entries key absent, List.lookup_cons_self, total_cons]
      exact Nat.add_comm _ _
    · have tail := ih rest
      rw [others_cons_of_ne entries k key v same, List.lookup_cons, beq_false_of_ne (Ne.symm same),
        total_cons, total_cons]
      dsimp only
      omega

theorem lookup_isSome_of_mem (entries : List (κ × ν)) (k : κ) (member : k ∈ entries.map Prod.fst) :
    (entries.lookup k).isSome = true := by
  rw [Option.isSome_iff_ne_none, Ne, List.lookup_eq_none_iff]
  intro absent
  obtain ⟨entry, there, same⟩ := List.mem_map.mp member
  have ne := absent entry there
  rw [same] at ne
  simp at ne

/-- Looking a key up moves it to the front. -/
def touched (entries : List (κ × ν)) (k : κ) : List (κ × ν) :=
  (entries.lookup k).elim entries fun v => (k, v) :: others entries k

theorem total_touched (weight : ν → Nat) (entries : List (κ × ν)) (k : κ)
    (distinct : (entries.map Prod.fst).Nodup) :
    total weight (touched entries k) = total weight entries := by
  rw [touched]
  cases held : entries.lookup k with
  | none => rfl
  | some v =>
    have same := total_others weight entries k distinct
    rw [held] at same
    rw [← same, Option.elim_some, total_cons]
    exact Nat.add_comm _ _

theorem lookup_touched (entries : List (κ × ν)) (k : κ) :
    (touched entries k).lookup k = entries.lookup k := by
  rw [touched]
  cases held : entries.lookup k with
  | none => exact held
  | some v => exact List.lookup_cons_self

theorem mem_keys_touched (entries : List (κ × ν)) (k : κ) (member : k ∈ entries.map Prod.fst) :
    k ∈ (touched entries k).map Prod.fst := by
  rw [touched]
  cases entries.lookup k with
  | none => exact member
  | some v => exact List.mem_cons_self

theorem others_subset (entries : List (κ × ν)) (k : κ) : others entries k ⊆ entries :=
  List.filter_sublist.subset

theorem touched_subset (entries : List (κ × ν)) (k : κ) : touched entries k ⊆ entries := by
  rw [touched]
  cases held : entries.lookup k with
  | none => exact List.Subset.refl _
  | some v =>
    obtain ⟨front, back, split, -⟩ := List.lookup_eq_some_iff.mp held
    refine List.cons_subset.mpr ⟨?_, others_subset entries k⟩
    rw [split]
    exact List.mem_append_right _ List.mem_cons_self

/-! ### The operations -/

/-- The caches of an LRU library. `new` may refuse a size. -/
structure Library (κ ν : Type) where
  Cache : Type
  new : Nat → Option Cache
  get : Cache → κ → Option ν × Cache
  add : Cache → κ → ν → Cache
  removeOldest : Cache → Option (κ × ν) × Cache
  entries : Cache → List (κ × ν)
  size : Cache → Nat

/-- At most `size` entries, one for each key; a hit moves its key to the front; an added key
goes to the front, and beyond `size` the entry used least recently is dropped. -/
structure Library.Lawful (L : Library κ ν) : Prop where
  new_entries : ∀ size c, L.new size = some c → L.entries c = []
  new_size : ∀ size c, L.new size = some c → L.size c = size
  distinct : ∀ c, ((L.entries c).map Prod.fst).Nodup
  bounded : ∀ c, (L.entries c).length ≤ L.size c
  get_fst : ∀ c k, (L.get c k).1 = (L.entries c).lookup k
  get_entries : ∀ c k, L.entries (L.get c k).2 = touched (L.entries c) k
  get_size : ∀ c k, L.size (L.get c k).2 = L.size c
  add_entries : ∀ c k v,
    L.entries (L.add c k v) = ((k, v) :: others (L.entries c) k).take (L.size c)
  add_size : ∀ c k v, L.size (L.add c k v) = L.size c
  removeOldest_fst : ∀ c, (L.removeOldest c).1 = (L.entries c).getLast?
  removeOldest_entries : ∀ c, L.entries (L.removeOldest c).2 = (L.entries c).dropLast
  removeOldest_size : ∀ c, L.size (L.removeOldest c).2 = L.size c

namespace Library.Lawful

variable {L : Library κ ν} (lawful : L.Lawful) (c : L.Cache) (k : κ) (v : ν) (weight : ν → Nat)

include lawful

theorem get_total : total weight (L.entries (L.get c k).2) = total weight (L.entries c) := by
  rw [lawful.get_entries]
  exact total_touched weight _ k (lawful.distinct c)

theorem get_length : (L.entries (L.get c k).2).length = (L.entries c).length := by
  rw [← total_one, ← total_one]
  exact lawful.get_total c k _

/-- Adding a key that is held, or while there is room, drops nothing. -/
theorem add_total (room : k ∈ (L.entries c).map Prod.fst ∨ (L.entries c).length < L.size c) :
    total weight (L.entries (L.add c k v)) + ((L.entries c).lookup k).elim 0 weight =
      total weight (L.entries c) + weight v := by
  have count := total_others (fun _ => 1) (L.entries c) k (lawful.distinct c)
  rw [total_one, total_one] at count
  have fits : ((k, v) :: others (L.entries c) k).length ≤ L.size c := by
    have bounded := lawful.bounded c
    rw [List.length_cons]
    rcases room with member | room
    · obtain ⟨old, is⟩ := Option.isSome_iff_exists.mp (lookup_isSome_of_mem _ k member)
      rw [is] at count
      dsimp only [Option.elim] at count
      omega
    · omega
  have parts := total_others weight (L.entries c) k (lawful.distinct c)
  rw [lawful.add_entries, List.take_of_length_le fits, total_cons]
  omega

end Library.Lawful

/-! ### The list itself -/

/-- Every key has one value, and there are at most `size` of them. -/
structure Reference (κ ν : Type) where
  size : Nat
  entries : List (κ × ν)
  distinct : (entries.map Prod.fst).Nodup
  bounded : entries.length ≤ size

namespace Reference

theorem touched_distinct (entries : List (κ × ν)) (k : κ) (distinct : (entries.map Prod.fst).Nodup) :
    ((touched entries k).map Prod.fst).Nodup := by
  rw [touched]
  cases entries.lookup k with
  | none => exact distinct
  | some v => exact cons_others_distinct entries k v distinct

def get (c : Reference κ ν) (k : κ) : Reference κ ν where
  size := c.size
  entries := touched c.entries k
  distinct := touched_distinct c.entries k c.distinct
  bounded := by
    rw [← total_one, total_touched _ c.entries k c.distinct, total_one]
    exact c.bounded

def add (c : Reference κ ν) (k : κ) (v : ν) : Reference κ ν where
  size := c.size
  entries := ((k, v) :: others c.entries k).take c.size
  distinct := ((List.take_sublist _ _).map Prod.fst).nodup
    (cons_others_distinct c.entries k v c.distinct)
  bounded := List.length_take_le _ _

omit [DecidableEq κ] in
def removeOldest (c : Reference κ ν) : Reference κ ν where
  size := c.size
  entries := c.entries.dropLast
  distinct := ((List.dropLast_sublist _).map Prod.fst).nodup c.distinct
  bounded := Nat.le_trans (List.dropLast_sublist _).length_le c.bounded

end Reference

def reference (κ ν : Type) [DecidableEq κ] : Library κ ν where
  Cache := Reference κ ν
  new size := if size = 0 then none else some ⟨size, [], List.nodup_nil, Nat.zero_le _⟩
  get c k := (c.entries.lookup k, c.get k)
  add := Reference.add
  removeOldest c := (c.entries.getLast?, c.removeOldest)
  entries := Reference.entries
  size := Reference.size

theorem reference_new (size : Nat) (c : Reference κ ν) (made : (reference κ ν).new size = some c) :
    c.entries = [] ∧ c.size = size := by
  dsimp only [reference] at made
  split at made
  · cases made
  · cases made
    exact ⟨rfl, rfl⟩

theorem reference_lawful : (reference κ ν).Lawful where
  new_entries size c made := (reference_new size c made).1
  new_size size c made := (reference_new size c made).2
  distinct c := c.distinct
  bounded c := c.bounded
  get_fst _ _ := rfl
  get_entries _ _ := rfl
  get_size _ _ := rfl
  add_entries _ _ _ := rfl
  add_size _ _ _ := rfl
  removeOldest_fst _ := rfl
  removeOldest_entries _ := rfl
  removeOldest_size _ := rfl

end Lru
