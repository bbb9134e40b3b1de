import PebbleDB.Bytes
import PebbleDB.Lib.SkipHeap
import Mathlib.Algebra.BigOperators.Group.List.Basic

/-!
# The memtable

The write cache is a skip list whose nodes carry a value and a tombstone flag, with
a count of its entries and an approximate size in bytes. A `SkipList` is built only
by the operations of the store, so it always represents a sorted map, with exact
accounting: `toMap` is the view the layers above reason about.
-/
namespace PebbleDB.Memtable

open SkipHeap (Skip)

/-- The part of a node that a write changes. -/
structure Slot where
  value : Bytes
  tombstone : Bool
  deriving DecidableEq, Repr

def maxHeight : Nat := 20

/-- `randomHeight` with the answers of `rng.Float64() < p`. -/
def randomHeightFrom (coins : Nat → Bool) : Nat → Nat → Nat
  | 0, h => h
  | fuel + 1, h => if coins h && h < maxHeight then randomHeightFrom coins fuel (h + 1) else h

def randomHeight (coins : Nat → Bool) : Nat := randomHeightFrom coins maxHeight 1

theorem randomHeightFrom_bounds (coins : Nat → Bool) (fuel h : Nat) (positive : 0 < h)
    (small : h ≤ maxHeight) :
    0 < randomHeightFrom coins fuel h ∧ randomHeightFrom coins fuel h ≤ maxHeight := by
  induction fuel generalizing h with
  | zero => exact ⟨positive, small⟩
  | succ fuel ih =>
    rw [randomHeightFrom]
    split
    next up =>
      have below : h < maxHeight := of_decide_eq_true (Bool.and_eq_true_iff.mp up).2
      exact ih (h + 1) (by omega) below
    next => exact ⟨positive, small⟩

theorem randomHeight_bounds (coins : Nat → Bool) :
    0 < randomHeight coins ∧ randomHeight coins ≤ maxHeight :=
  randomHeightFrom_bounds coins maxHeight 1 (by decide) (by decide)

/-- `less`. -/
def less : Bytes → Bytes → Bool
  | x :: a, y :: b => if x ≠ y then decide (x < y) else less a b
  | a, b => decide (a.length < b.length)

/-- `equal`. -/
def equal (a b : Bytes) : Bool :=
  if a.length ≠ b.length then false else (a.zip b).all fun bytes => decide (bytes.1 = bytes.2)

/-- The two loops are the order of the keys, which the nodes are searched with. -/
theorem less_eq (a b : Bytes) : less a b = decide (a < b) := by
  induction a generalizing b with
  | nil =>
    cases b with
    | nil => rfl
    | cons y b => simp [less]
  | cons x a ih =>
    cases b with
    | nil => simp [less]
    | cons y b =>
      rw [less, ih b]
      by_cases same : x = y
      · simp [same]
      · simp [same, List.cons_lt_cons_iff]

theorem equal_eq (a b : Bytes) : equal a b = decide (a = b) := by
  rw [equal]
  by_cases lengths : a.length = b.length
  · simp only [lengths, ne_eq, not_true_eq_false, if_false]
    induction a generalizing b with
    | nil =>
      rw [List.length_eq_zero_iff.mp lengths.symm]
      rfl
    | cons x a ih =>
      cases b with
      | nil => cases lengths
      | cons y b =>
        rw [List.zip_cons_cons, List.all_cons, ih b (Nat.succ.inj lengths)]
        simp
  · have differ : a ≠ b := fun same => lengths (congrArg List.length same)
    simp [lengths, differ]

/-! ### Operations on the nodes -/

structure Nodes where
  list : Skip Bytes Slot
  length : Nat
  size : Int

def Nodes.new : Nodes := ⟨SkipHeap.empty [] ⟨[], false⟩ maxHeight, 0, 0⟩

/-- The bytes an entry is accounted with. -/
def entrySize (key : Bytes) (slot : Slot) : Int := key.length + slot.value.length + 8

def Nodes.put (n : Nodes) (key value : Bytes) (coins : Nat → Bool) : Nodes :=
  match SkipHeap.locate n.list key with
  | some x =>
    -- the node keeps its height and its place
    { n with
      list := SkipHeap.setData n.list x ⟨value, false⟩
      size := n.size - entrySize (n.list.heap x).key (n.list.heap x).data +
        entrySize key ⟨value, false⟩ }
  | none =>
    ⟨SkipHeap.add n.list key ⟨value, false⟩ (randomHeight coins), n.length + 1,
      n.size + entrySize key ⟨value, false⟩⟩

/-- `Delete` marks a live entry, leaves a tombstone as it is, and adds one for a new key. -/
def Nodes.delete (n : Nodes) (key : Bytes) (coins : Nat → Bool) : Nodes :=
  match SkipHeap.locate n.list key with
  | some x =>
    -- a second delete changes nothing
    if (n.list.heap x).data.tombstone then n
    else
      { n with
        list := SkipHeap.setData n.list x ⟨[], true⟩
        size := n.size - (n.list.heap x).data.value.length }
  | none =>
    ⟨SkipHeap.add n.list key ⟨[], true⟩ (randomHeight coins), n.length + 1,
      n.size + (key.length + 8)⟩

/-- The three results of `SkipList.Get`. -/
structure Found where
  value : Slice
  found : Bool
  tombstone : Bool
  deriving DecidableEq, Repr

def Nodes.get (n : Nodes) (key : Bytes) : Found :=
  match SkipHeap.locate n.list key with
  | some x =>
    if (n.list.heap x).data.tombstone then ⟨none, true, true⟩
    else ⟨cloneBytes (n.list.heap x).data.value, true, false⟩
  | none => ⟨none, false, false⟩

/-! ### Valid nodes -/

def mapSize (m : List (Bytes × Slot)) : Int := (m.map fun e => entrySize e.1 e.2).sum

/-- The nodes represent a map in which tombstones hold no value, and the counters are
exact. -/
structure Nodes.Represents (n : Nodes) (m : List (Bytes × Slot)) : Prop where
  list : SkipHeap.Represents n.list maxHeight m
  blank : ∀ e ∈ m, e.2.tombstone = true → e.2.value = []
  length : n.length = m.length
  size : n.size = mapSize m

theorem Nodes.new_represents : Nodes.new.Represents [] :=
  ⟨SkipHeap.empty_represents _ _ _ (by decide), by simp, rfl, rfl⟩

theorem mem_insert (m : List (Bytes × Slot)) (key : Bytes) (slot : Slot) (e : Bytes × Slot)
    (member : e ∈ SortedMap.insert key slot m) : e = (key, slot) ∨ e ∈ m := by
  simp only [SortedMap.insert, List.mem_append, List.mem_cons, List.mem_filter] at member
  tauto

theorem mapSize_split (m n : List (Bytes × Slot)) (e : Bytes × Slot) :
    mapSize (m ++ e :: n) = mapSize m + entrySize e.1 e.2 + mapSize n := by
  simp [mapSize]
  ring

/-- Replacing an entry changes length and size by the difference of the two entries. -/
theorem insert_present (m : List (Bytes × Slot)) (key : Bytes) (old slot : Slot)
    (sorted : SortedMap.Sorted m) (found : SortedMap.find key m = some old) :
    (SortedMap.insert key slot m).length = m.length ∧
      mapSize (SortedMap.insert key slot m) =
        mapSize m - entrySize key old + entrySize key slot := by
  obtain ⟨before, after, rfl⟩ := List.append_of_mem (SortedMap.mem_of_find key old m found)
  rw [SortedMap.insert_replace key slot old before after sorted]
  refine ⟨by simp, ?_⟩
  rw [mapSize_split, mapSize_split]
  ring

theorem insert_missing (m : List (Bytes × Slot)) (key : Bytes) (slot : Slot)
    (sorted : SortedMap.Sorted m) (absent : SortedMap.find key m = none) :
    (SortedMap.insert key slot m).length = m.length + 1 ∧
      mapSize (SortedMap.insert key slot m) = mapSize m + entrySize key slot := by
  have noKey : ∀ e ∈ m, e.1 ≠ key := by
    rintro ⟨k, a⟩ member rfl
    rw [SortedMap.find_of_mem k a m sorted member] at absent
    cases absent
  have perm := SortedMap.insert_perm key slot m noKey
  refine ⟨perm.length_eq, ?_⟩
  rw [mapSize, (perm.map _).sum_eq, List.map_cons, List.sum_cons, mapSize]
  ring

/-- A found node holds the entry of the key. -/
theorem Nodes.Represents.entry (n : Nodes) (m : List (Bytes × Slot)) (rep : n.Represents m)
    (key : Bytes) (x : Nat) (found : SkipHeap.locate n.list key = some x) :
    SortedMap.find key m = some (n.list.heap x).data ∧ (n.list.heap x).key = key := by
  have entry := rep.list.locate_find _ _ _ key
  obtain ⟨-, order, wf, -⟩ := rep.list
  rw [found] at entry
  exact ⟨entry, (SkipHeap.locate_mem n.list order wf key x found).2⟩

theorem Nodes.Represents.put (n : Nodes) (m : List (Bytes × Slot)) (rep : n.Represents m)
    (key value : Bytes) (coins : Nat → Bool) :
    (n.put key value coins).Represents (SortedMap.insert key ⟨value, false⟩ m) := by
  have sorted := rep.list.sorted
  have blank : ∀ e ∈ SortedMap.insert key ⟨value, false⟩ m,
      e.2.tombstone = true → e.2.value = [] := by
    intro e member dead
    rcases mem_insert m key _ e member with rfl | old
    · cases dead
    · exact rep.blank e old dead
  rw [Nodes.put]
  cases found : SkipHeap.locate n.list key with
  | some x =>
    obtain ⟨entry, same⟩ := rep.entry n m key x found
    obtain ⟨length, size⟩ := insert_present m key _ ⟨value, false⟩ sorted entry
    refine ⟨rep.list.setData _ _ _ key _ x found, blank, ?_, ?_⟩
    · rw [length]
      exact rep.length
    · simp only
      rw [size, ← rep.size, same]
  | none =>
    have absent := rep.list.locate_find _ _ _ key
    rw [found, Option.map_none] at absent
    obtain ⟨length, size⟩ := insert_missing m key ⟨value, false⟩ sorted absent
    have bounds := randomHeight_bounds coins
    refine ⟨rep.list.add _ _ _ key _ _ found bounds.1 bounds.2, blank, ?_, ?_⟩
    · rw [length, ← rep.length]
    · rw [size, ← rep.size]

theorem Nodes.Represents.delete (n : Nodes) (m : List (Bytes × Slot)) (rep : n.Represents m)
    (key : Bytes) (coins : Nat → Bool) :
    (n.delete key coins).Represents (SortedMap.insert key ⟨[], true⟩ m) := by
  have sorted := rep.list.sorted
  have blank : ∀ e ∈ SortedMap.insert key ⟨[], true⟩ m,
      e.2.tombstone = true → e.2.value = [] := by
    intro e member dead
    rcases mem_insert m key _ e member with rfl | old
    · rfl
    · exact rep.blank e old dead
  rw [Nodes.delete]
  cases found : SkipHeap.locate n.list key with
  | some x =>
    obtain ⟨entry, same⟩ := rep.entry n m key x found
    simp only
    split
    next dead =>
      -- a tombstone is already the entry that would be inserted
      have member := SortedMap.mem_of_find key _ m entry
      have slot : (n.list.heap x).data = ⟨[], true⟩ := by
        have empty := rep.blank _ member dead
        cases h : (n.list.heap x).data with
        | mk value tombstone =>
          rw [h] at dead empty
          simp_all
      rw [slot] at member
      obtain ⟨before, after, rfl⟩ := List.append_of_mem member
      rw [SortedMap.insert_replace key _ _ before after sorted]
      exact rep
    next live =>
      obtain ⟨length, size⟩ := insert_present m key _ ⟨[], true⟩ sorted entry
      refine ⟨rep.list.setData _ _ _ key _ x found, blank, ?_, ?_⟩
      · rw [length]
        exact rep.length
      · rw [size, ← rep.size]
        simp only [entrySize, List.length_nil]
        omega
  | none =>
    have absent := rep.list.locate_find _ _ _ key
    rw [found, Option.map_none] at absent
    obtain ⟨length, size⟩ := insert_missing m key ⟨[], true⟩ sorted absent
    have bounds := randomHeight_bounds coins
    refine ⟨rep.list.add _ _ _ key _ _ found bounds.1 bounds.2, blank, ?_, ?_⟩
    · rw [length, ← rep.length]
    · rw [size, ← rep.size]
      simp [entrySize]

theorem Nodes.Represents.get (n : Nodes) (m : List (Bytes × Slot)) (rep : n.Represents m)
    (key : Bytes) :
    n.get key = match SortedMap.find key m with
      | some slot =>
        if slot.tombstone then ⟨none, true, true⟩ else ⟨cloneBytes slot.value, true, false⟩
      | none => ⟨none, false, false⟩ := by
  rw [Nodes.get, rep.list.locate_find _ _ _ key]
  cases SkipHeap.locate n.list key with
  | some x => rfl
  | none => rfl

/-! ### The memtable of the store -/

/-- `SkipList`: nodes that represent a map. -/
structure SkipList where
  nodes : Nodes
  valid : ∃ m, nodes.Represents m

namespace SkipList

def new : SkipList := ⟨Nodes.new, [], Nodes.new_represents⟩

def put (sl : SkipList) (key value : Bytes) (coins : Nat → Bool) : SkipList :=
  ⟨sl.nodes.put key value coins, sl.valid.elim fun m rep => ⟨_, rep.put _ m key value coins⟩⟩

def delete (sl : SkipList) (key : Bytes) (coins : Nat → Bool) : SkipList :=
  ⟨sl.nodes.delete key coins, sl.valid.elim fun m rep => ⟨_, rep.delete _ m key coins⟩⟩

def get (sl : SkipList) (key : Bytes) : Found := sl.nodes.get key

def len (sl : SkipList) : Nat := sl.nodes.length

def size (sl : SkipList) : Int := sl.nodes.size

/-- The entries an iterator yields, following the lowest level. -/
def toMap (sl : SkipList) : List (Bytes × Slot) := SkipHeap.entries sl.nodes.list

/-- The nodes represent the entries that an iterator yields. -/
theorem represents (sl : SkipList) : sl.nodes.Represents sl.toMap := by
  obtain ⟨m, rep⟩ := sl.valid
  rw [toMap, rep.list.entries_eq]
  exact rep

theorem toMap_eq (sl : SkipList) (m : List (Bytes × Slot)) (rep : sl.nodes.Represents m) :
    sl.toMap = m := by
  rw [toMap, rep.list.entries_eq]

theorem toMap_sorted (sl : SkipList) : SortedMap.Sorted sl.toMap := sl.represents.list.sorted

@[simp] theorem toMap_new : new.toMap = [] := toMap_eq new [] Nodes.new_represents

@[simp] theorem toMap_put (sl : SkipList) (key value : Bytes) (coins : Nat → Bool) :
    (sl.put key value coins).toMap = SortedMap.insert key ⟨value, false⟩ sl.toMap :=
  toMap_eq _ _ (sl.represents.put _ _ key value coins)

@[simp] theorem toMap_delete (sl : SkipList) (key : Bytes) (coins : Nat → Bool) :
    (sl.delete key coins).toMap = SortedMap.insert key ⟨[], true⟩ sl.toMap :=
  toMap_eq _ _ (sl.represents.delete _ _ key coins)

theorem get_eq (sl : SkipList) (key : Bytes) :
    sl.get key = match SortedMap.find key sl.toMap with
      | some slot =>
        if slot.tombstone then ⟨none, true, true⟩ else ⟨cloneBytes slot.value, true, false⟩
      | none => ⟨none, false, false⟩ :=
  sl.represents.get _ _ key

/-- What the memtable knows about a key. -/
def find (sl : SkipList) (key : Bytes) : Option Slot := SortedMap.find key sl.toMap

/-- The entries as an iterator hands them out; `Value` of a tombstone is nil. -/
def entries (sl : SkipList) : List Entry :=
  sl.toMap.map fun e => ⟨e.1, if e.2.tombstone then [] else e.2.value, e.2.tombstone⟩

@[simp] theorem find_new (key : Bytes) : new.find key = none := by
  rw [find, toMap_new]
  rfl

theorem entries_ascending (sl : SkipList) : Ascending sl.entries :=
  List.pairwise_map.mpr sl.toMap_sorted

theorem findEntry_entries (sl : SkipList) (key : Bytes) :
    findEntry key sl.entries = (sl.find key).map fun slot =>
      ⟨key, if slot.tombstone then [] else slot.value, slot.tombstone⟩ := by
  rw [entries, find]
  induction sl.toMap with
  | nil => rfl
  | cons e m ih =>
    rw [List.map_cons, findEntry_cons, SortedMap.find, ih]
    by_cases same : e.1 = key
    · simp [same]
    · simp [same]

theorem size_eq (sl : SkipList) : sl.size = mapSize sl.toMap := sl.represents.size

theorem len_eq (sl : SkipList) : sl.len = sl.toMap.length := sl.represents.length

end SkipList

end PebbleDB.Memtable
