import Mathlib.Algebra.BigOperators.Group.Finset.Basic
import Mathlib.Algebra.Order.BigOperators.Group.Finset
import PebbleDB.Lib.Machine
import PebbleDB.Memtable

/-!
# What a memtable shows of its history

A memtable that was new at the start has seen some `Put` and `Delete` calls. `lastWrite` is
what they leave of a key. `Get`, `Snapshot` and the iterator, which follow the pointers of
the nodes, all show exactly this, and the counters count it.
-/
namespace PebbleDB.Memtable

open SkipHeap (Skip)

/-! ### Snapshots and iterators -/

structure SnapshotEntry where
  key : Slice
  value : Slice
  tombstone : Bool
  deriving DecidableEq, Repr

/-- The loop of `Snapshot` from a node on. -/
def snapshotFrom (nodes : Skip Bytes Slot) : Nat → Option Nat → List SnapshotEntry
  | 0, _ => []
  | _ + 1, none => []
  | fuel + 1, some x =>
    let node := nodes.heap x
    ⟨cloneBytes node.key, if node.data.tombstone then none else cloneBytes node.data.value,
      node.data.tombstone⟩ :: snapshotFrom nodes fuel (SkipHeap.nextIn nodes.heap 0 x)

/-- `Snapshot`; every round visits another node. -/
def SkipList.snapshot (sl : SkipList) : List SnapshotEntry :=
  let nodes := sl.nodes.list
  snapshotFrom nodes nodes.allocated (SkipHeap.nextIn nodes.heap 0 0)

/-- The iterator holds the read lock of its list, so the nodes do not change under it; `Close`
gives the lock and the list up. -/
structure SkipListIterator where
  nodes : Skip Bytes Slot
  closed : Bool
  node : Option Nat

def SkipList.iterator (sl : SkipList) : SkipListIterator :=
  ⟨sl.nodes.list, false, SkipHeap.nextIn sl.nodes.list.heap 0 0⟩

namespace SkipListIterator

def valid (it : SkipListIterator) : Bool := it.node.isSome

def next (it : SkipListIterator) : SkipListIterator :=
  match it.node with
  | none => it
  | some x => { it with node := SkipHeap.nextIn it.nodes.heap 0 x }

def seek (it : SkipListIterator) (key : Bytes) : SkipListIterator :=
  if it.closed then { it with node := none }
  else if key.length = 0 then { it with node := SkipHeap.nextIn it.nodes.heap 0 0 }
  else { it with node := SkipHeap.seek it.nodes key }

/-- `Key`. -/
def getKey (it : SkipListIterator) : Slice :=
  match it.node with
  | none => none
  | some x => cloneBytes (it.nodes.heap x).key

/-- `Value`. -/
def getValue (it : SkipListIterator) : Slice :=
  match it.node with
  | none => none
  | some x =>
    if (it.nodes.heap x).data.tombstone then none else cloneBytes (it.nodes.heap x).data.value

def isTombstone (it : SkipListIterator) : Bool :=
  match it.node with
  | none => false
  | some x => (it.nodes.heap x).data.tombstone

def close (it : SkipListIterator) : SkipListIterator := { it with closed := true }

/-- A caller's loop: `for it.Valid() { ..; it.Next() }`. -/
def collect : Nat → SkipListIterator → List SnapshotEntry
  | 0, _ => []
  | fuel + 1, it =>
    if it.valid then ⟨it.getKey, it.getValue, it.isTombstone⟩ :: collect fuel it.next else []

end SkipListIterator

/-! ### Both follow the lowest level -/

/-- A key and its slot as they are handed out. -/
def shown (e : Bytes × Slot) : SnapshotEntry :=
  ⟨cloneBytes e.1, if e.2.tombstone then none else cloneBytes e.2.value, e.2.tombstone⟩

theorem snapshotFrom_eq (nodes : Skip Bytes Slot) (fuel : Nat) (p : Option Nat) :
    snapshotFrom nodes fuel p =
      (SkipHeap.toMap nodes (SkipHeap.follow nodes fuel p)).map shown := by
  induction fuel generalizing p with
  | zero => rfl
  | succ fuel ih =>
    cases p with
    | none => rfl
    | some x =>
      rw [snapshotFrom, SkipHeap.follow, ih]
      rfl

theorem SkipListIterator.collect_eq (fuel : Nat) (it : SkipListIterator) :
    it.collect fuel = snapshotFrom it.nodes fuel it.node := by
  induction fuel generalizing it with
  | zero => rfl
  | succ fuel ih =>
    obtain ⟨nodes, closed, node⟩ := it
    cases node with
    | none => rfl
    | some x =>
      rw [collect, ih]
      rfl

namespace SkipList

variable (sl : SkipList)

theorem snapshot_eq : sl.snapshot = sl.toMap.map shown := by
  have rep := sl.represents.list
  have count := rep.length_eq
  rw [snapshot, snapshotFrom_eq, rep.follow_head _ _ _ _ count.le]

theorem iterator_collect (fuel : Nat) (enough : sl.len ≤ fuel) :
    sl.iterator.collect fuel = sl.snapshot := by
  have rep := sl.represents.list
  rw [sl.len_eq] at enough
  rw [SkipListIterator.collect_eq, snapshotFrom_eq, sl.snapshot_eq]
  exact congrArg _ (rep.follow_head _ _ _ fuel enough)

/-- After `Seek`, wherever the iterator stood before. -/
theorem seek_collect (it : SkipListIterator) (of : it.nodes = sl.nodes.list)
    (open_ : it.closed = false) (key : Bytes) (fuel : Nat) (enough : sl.len ≤ fuel) :
    (it.seek key).collect fuel = (sl.toMap.filter fun e => decide (key ≤ e.1)).map shown := by
  have rep := sl.represents.list
  rw [sl.len_eq] at enough
  rw [SkipListIterator.collect_eq, snapshotFrom_eq, SkipListIterator.seek, open_]
  simp only [Bool.false_eq_true, if_false]
  split
  next empty =>
    -- no key lies below the empty one
    have all : ∀ e ∈ sl.toMap, decide ([] ≤ e.1) = true := fun e _ =>
      decide_eq_true (not_lt.mp (List.not_lt_nil e.1))
    rw [List.length_eq_zero_iff.mp empty, List.filter_eq_self.mpr all, of]
    exact congrArg _ (rep.follow_head _ _ _ fuel enough)
  next =>
    rw [of]
    refine congrArg (List.map shown) ((rep.follow_seek _ _ _ key fuel enough).trans ?_)
    refine List.filter_congr fun e _ => Bool.eq_iff_iff.mpr ?_
    rw [Bool.not_eq_true', decide_eq_false_iff_not, decide_eq_true_iff, not_lt]

end SkipList

/-! ### Histories -/

/-- A call, with the coins that its `randomHeight` sees. -/
inductive Write where
  | put (key value : Bytes) (coins : Nat → Bool)
  | delete (key : Bytes) (coins : Nat → Bool)

namespace Write

def key : Write → Bytes
  | put key _ _ => key
  | delete key _ => key

/-- What the call leaves of its key. -/
def slot : Write → Slot
  | put _ value _ => ⟨value, false⟩
  | delete _ _ => ⟨[], true⟩

end Write

def SkipList.write (sl : SkipList) : Write → SkipList
  | .put key value coins => sl.put key value coins
  | .delete key coins => sl.delete key coins

theorem SkipList.toMap_write (sl : SkipList) (w : Write) :
    (sl.write w).toMap = SortedMap.insert w.key w.slot sl.toMap := by
  cases w with
  | put key value coins => exact sl.toMap_put key value coins
  | delete key coins => exact sl.toMap_delete key coins

/-- The memtable after the calls. -/
def written (writes : List Write) : SkipList := Machine.run SkipList.write .new writes

/-- What the calls leave of a key: the slot of its last one. -/
def lastWrite (key : Bytes) (writes : List Write) : Option Slot :=
  (writes.reverse.find? fun w => w.key = key).map Write.slot

theorem lastWrite_concat (key : Bytes) (writes : List Write) (w : Write) :
    lastWrite key (writes ++ [w]) = if w.key = key then some w.slot else lastWrite key writes := by
  rw [lastWrite, List.reverse_concat, List.find?_cons]
  by_cases same : w.key = key
  · simp [same]
  · simp [same, lastWrite]

theorem written_concat (writes : List Write) (w : Write) :
    written (writes ++ [w]) = (written writes).write w := by
  rw [written, Machine.run_append]
  rfl

/-- The map is the history. -/
theorem find_written (writes : List Write) (key : Bytes) :
    SortedMap.find key (written writes).toMap = lastWrite key writes := by
  induction writes using List.reverseRecOn with
  | nil => exact SkipList.find_new key
  | append_singleton writes w ih =>
    -- the last call decides about its own key and leaves the others
    rw [written_concat, SkipList.toMap_write, SortedMap.find_insert, lastWrite_concat, ih]
    by_cases same : w.key = key
    · simp [same]
    · simp [same, Ne.symm same]

/-! ### The memtable as a map -/

/-- What `Get` returns for a key in this state. -/
def foundOf : Option Slot → Found
  | none => ⟨none, false, false⟩
  | some ⟨value, false⟩ => ⟨cloneBytes value, true, false⟩
  | some ⟨_, true⟩ => ⟨none, true, true⟩

/-- The memtable shows exactly these states of the keys, in ascending order. -/
structure SkipList.Presents (sl : SkipList) (state : Bytes → Option Slot) : Prop where
  get : ∀ key, sl.get key = foundOf (state key)
  ascending : sl.snapshot.Pairwise fun a b => a.key.bytes < b.key.bytes
  snapshot : ∀ e, e ∈ sl.snapshot ↔ ∃ key slot, state key = some slot ∧ e = shown (key, slot)
  iterator : ∀ fuel, sl.len ≤ fuel → sl.iterator.collect fuel = sl.snapshot
  seek : ∀ it : SkipListIterator, it.nodes = sl.nodes.list → it.closed = false → ∀ key,
    ((it.seek key).valid = true ↔ ∃ k, key ≤ k ∧ (state k).isSome = true) ∧
      ((it.seek key).valid = true → ∃ k slot, key ≤ k ∧ state k = some slot ∧
        (∀ k', key ≤ k' → (state k').isSome = true → k ≤ k') ∧
        (⟨(it.seek key).getKey, (it.seek key).getValue, (it.seek key).isTombstone⟩ : SnapshotEntry) =
          shown (k, slot))

namespace SkipList

variable {sl : SkipList} {state : Bytes → Option Slot}

theorem get_presents (find : ∀ key, SortedMap.find key sl.toMap = state key) (key : Bytes) :
    sl.get key = foundOf (state key) := by
  rw [sl.get_eq, find]
  cases state key with
  | none => rfl
  | some slot =>
    obtain ⟨value, tombstone⟩ := slot
    cases tombstone with
    | false => rfl
    | true => rfl

theorem mem_presents (find : ∀ key, SortedMap.find key sl.toMap = state key) (key : Bytes)
    (slot : Slot) : (key, slot) ∈ sl.toMap ↔ state key = some slot := by
  rw [← find]
  constructor
  · exact SortedMap.find_of_mem key slot _ sl.toMap_sorted
  · exact SortedMap.mem_of_find key slot _

/-- Where `Seek` lands, from the entries that are left. -/
theorem seek_presents (find : ∀ key, SortedMap.find key sl.toMap = state key)
    (it : SkipListIterator) (of : it.nodes = sl.nodes.list) (open_ : it.closed = false)
    (key : Bytes) :
    ((it.seek key).valid = true ↔ ∃ k, key ≤ k ∧ (state k).isSome = true) ∧
      ((it.seek key).valid = true → ∃ k slot, key ≤ k ∧ state k = some slot ∧
        (∀ k', key ≤ k' → (state k').isSome = true → k ≤ k') ∧
        (⟨(it.seek key).getKey, (it.seek key).getValue, (it.seek key).isTombstone⟩ : SnapshotEntry) =
          shown (k, slot)) := by
  -- one round of the caller's loop shows the entry the iterator stands on
  have left := sl.seek_collect it of open_ key (sl.len + 1) (Nat.le_succ _)
  have mem (k : Bytes) (slot : Slot) : (k, slot) ∈ sl.toMap.filter (fun e => decide (key ≤ e.1)) ↔
      key ≤ k ∧ state k = some slot := by
    rw [List.mem_filter, mem_presents find, decide_eq_true_iff, and_comm]
  have sorted := sl.toMap_sorted.filter fun e => decide (key ≤ e.1)
  rw [SkipListIterator.collect] at left
  generalize sl.toMap.filter (fun e => decide (key ≤ e.1)) = rest at left mem sorted
  cases rest with
  | nil =>
    have stopped : ¬(it.seek key).valid = true := by
      intro valid
      rw [if_pos valid] at left
      cases left
    -- no entry is left, so no key from here on has a state
    refine ⟨⟨fun valid => absurd valid stopped, ?_⟩, fun valid => absurd valid stopped⟩
    rintro ⟨k, above, is⟩
    obtain ⟨slot, is⟩ := Option.isSome_iff_exists.mp is
    cases (mem k slot).mpr ⟨above, is⟩
  | cons e rest =>
    obtain ⟨k, slot⟩ := e
    -- the first entry that is left is the smallest, since the map is sorted
    obtain ⟨above, is⟩ := (mem k slot).mp List.mem_cons_self
    have valid : (it.seek key).valid = true := by
      by_contra invalid
      rw [if_neg invalid] at left
      cases left
    rw [if_pos valid, List.map_cons] at left
    refine ⟨⟨fun _ => ⟨k, above, by rw [is]; rfl⟩, fun _ => valid⟩, fun _ => ?_⟩
    refine ⟨k, slot, above, is, fun k' above' is' => ?_, (List.cons.inj left).1⟩
    obtain ⟨slot', is'⟩ := Option.isSome_iff_exists.mp is'
    rcases List.mem_cons.mp ((mem k' slot').mpr ⟨above', is'⟩) with same | later
    · exact (congrArg Prod.fst same).ge
    · exact ((List.pairwise_cons.mp sorted).1 _ later).le

theorem presents_of_find (find : ∀ key, SortedMap.find key sl.toMap = state key) :
    sl.Presents state where
  get := get_presents find
  ascending := by
    rw [sl.snapshot_eq]
    refine List.pairwise_map.mpr (sl.toMap_sorted.imp ?_)
    intro a b below
    rwa [shown, shown, cloneBytes_bytes, cloneBytes_bytes]
  snapshot := by
    intro e
    rw [sl.snapshot_eq, List.mem_map]
    constructor
    · rintro ⟨⟨key, slot⟩, member, rfl⟩
      exact ⟨key, slot, (mem_presents find key slot).mp member, rfl⟩
    · rintro ⟨key, slot, is, rfl⟩
      exact ⟨(key, slot), (mem_presents find key slot).mpr is, rfl⟩
  iterator := sl.iterator_collect
  seek := seek_presents find

end SkipList

/-- Whatever calls a memtable has seen, and whatever heights its nodes got, it presents the
last write of every key. -/
theorem written_presents (writes : List Write) :
    (written writes).Presents fun key => lastWrite key writes :=
  SkipList.presents_of_find (find_written writes)

/-! ### The counters -/

theorem mem_written (writes : List Write) (key : Bytes) (slot : Slot) :
    (key, slot) ∈ (written writes).toMap ↔ lastWrite key writes = some slot :=
  SkipList.mem_presents (find_written writes) key slot

/-- The keys that the calls have written. -/
def writtenKeys (writes : List Write) : Finset Bytes := (writes.map Write.key).toFinset

/-- The length of a key's current value; a tombstone has none. -/
def currentLength (key : Bytes) (writes : List Write) : Nat :=
  match lastWrite key writes with
  | some ⟨value, false⟩ => value.length
  | _ => 0

theorem lastWrite_isSome (key : Bytes) (writes : List Write) :
    (lastWrite key writes).isSome = true ↔ key ∈ writtenKeys writes := by
  simp [lastWrite, writtenKeys, List.find?_isSome]

theorem keys_written (writes : List Write) :
    ((written writes).toMap.map Prod.fst).toFinset = writtenKeys writes := by
  ext key
  rw [← lastWrite_isSome, List.mem_toFinset, List.mem_map, Option.isSome_iff_exists]
  constructor
  · rintro ⟨⟨k, slot⟩, member, rfl⟩
    exact ⟨slot, (mem_written writes k slot).mp member⟩
  · rintro ⟨slot, is⟩
    exact ⟨(key, slot), (mem_written writes key slot).mpr is, rfl⟩

theorem keys_nodup (sl : SkipList) : (sl.toMap.map Prod.fst).Nodup :=
  List.pairwise_map.mpr (sl.toMap_sorted.imp fun below => below.ne)

/-- What an entry is accounted with is what its history says. -/
theorem entrySize_written (writes : List Write) (e : Bytes × Slot)
    (member : e ∈ (written writes).toMap) :
    entrySize e.1 e.2 = e.1.length + currentLength e.1 writes + 8 := by
  obtain ⟨key, value, tombstone⟩ := e
  have is := (mem_written writes key ⟨value, tombstone⟩).mp member
  rw [entrySize, currentLength, is]
  cases tombstone with
  | false => rfl
  | true =>
    -- a tombstone holds no value
    rw [show value = [] from (written writes).represents.blank _ member rfl]
    rfl

/-- The counters are exact, and the size is positive as soon as something was written. -/
theorem written_exact (writes : List Write) :
    (written writes).len = (writtenKeys writes).card ∧
      (written writes).size =
        ∑ key ∈ writtenKeys writes, ((key.length : Int) + currentLength key writes + 8) ∧
      (0 < (written writes).size ↔ 0 < (written writes).len) := by
  have nodup := keys_nodup (written writes)
  have len : (written writes).len = (writtenKeys writes).card := by
    -- the keys of the map are distinct, so their number is the length
    rw [SkipList.len_eq, ← keys_written, List.toFinset_card_of_nodup nodup, List.length_map]
  have size : (written writes).size =
      ∑ key ∈ writtenKeys writes, ((key.length : Int) + currentLength key writes + 8) := by
    rw [SkipList.size_eq, mapSize, ← keys_written, List.sum_toFinset _ nodup, List.map_map]
    exact congrArg List.sum (List.map_congr_left (entrySize_written writes))
  refine ⟨len, size, ?_⟩
  rw [size, len, Finset.card_pos]
  constructor
  · intro positive
    by_contra empty
    rw [Finset.not_nonempty_iff_eq_empty.mp empty, Finset.sum_empty] at positive
    exact absurd positive (lt_irrefl 0)
  · intro some_
    -- the eight bytes of overhead make every summand positive
    exact Finset.sum_pos (fun key _ => by omega) some_

/-- A longer value, a delete, a second one, a re-put, and a delete of an absent key. -/
example :
    let low : Nat → Bool := fun _ => false
    let writes := [Write.put [1] [2] low, .put [1] [2, 3, 4] (fun h => h < 3), .delete [1] low,
      .delete [1] low, .put [1] [] low, .delete [7, 7] (fun _ => true)]
    ((written writes).len, (written writes).size, (written writes).nodes.list.height) =
      (2, 19, 20) := by
  decide

end PebbleDB.Memtable
