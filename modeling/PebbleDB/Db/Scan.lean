import PebbleDB.Db.Batch
import PebbleDB.Sst.Seek

/-!
# Range scans

`Scan` copies the memory layers, opens an iterator on every table and merges them all.
The merge only knows priorities: 1,000,001 for the pending batch, 1,000,000 for the
active memtable, from 999,999 downward for the flush queue, and from 0 upward for the
tables. What a scan shows is told by the best entries in terms of these numbers, for
sources whose keys are not empty and whose priorities are not negative.
-/
namespace PebbleDB.Db

open Memtable (SkipList Slot)
open Wal (Record)
open Iterator (View Yields fromKey live resolve resolveFrom Mergeable)

def scanPriorityPendingBatch : Int := 1000001
def scanPriorityActive : Int := 1000000
def scanPriorityImmutable : Int := 999999

/-! ### Snapshots of the memory layers -/

/-- A record as an entry; the value of a tombstone is dropped. -/
def entryOf (rec : Record) : Entry := ⟨rec.key, if rec.tombstone then [] else rec.value, rec.tombstone⟩

/-- What `snapshotPendingBatch` returns: the last record of each key, in key order. -/
def sortedBatch (batch : List Record) : List Entry :=
  (batch.foldl (fun byKey rec => SortedMap.insert rec.key rec byKey) []).map fun e => entryOf e.2

/-- `snapshotMemIter`: a copy of a memory layer and a position in it. -/
structure SnapshotMemIter where
  entries : List Entry
  idx : Nat

namespace SnapshotMemIter

def valid (s : SnapshotMemIter) : Bool := decide (s.idx < s.entries.length)

/-- `Key`. The snapshot holds copies, so the empty key is nil. -/
def key (s : SnapshotMemIter) : Slice := s.entries[s.idx]?.bind fun e => cloneBytes e.key

def value (s : SnapshotMemIter) : Slice :=
  s.entries[s.idx]?.bind fun e => if e.tombstone then none else cloneBytes e.value

def isTombstone (s : SnapshotMemIter) : Bool := (s.entries[s.idx]?.map Entry.tombstone).getD false

def next (s : SnapshotMemIter) : SnapshotMemIter :=
  if s.idx < s.entries.length then { s with idx := s.idx + 1 } else s

/-- `Seek`: the first entry that is not below the key. -/
def seek (s : SnapshotMemIter) (key : Bytes) : SnapshotMemIter :=
  { s with idx := s.entries.findIdx fun e => !decide (e.key < key) }

end SnapshotMemIter

/-! ### The scan -/

inductive ScanSource where
  | memory (s : SnapshotMemIter)
  | table (it : Sst.Iterator)

def scanInterface : Iterator.SeekInterface ScanSource Sst.Error where
  valid
    | .memory s => s.valid
    | .table it => it.valid
  key
    | .memory s => s.key
    | .table it => it.getKey
  value
    | .memory s => s.value
    | .table it => it.getValue
  isTombstone
    | .memory s => s.isTombstone
    | .table it => it.tombstone
  next
    | .memory s => (.memory s.next, none)
    | .table it => (.table it.next, it.next.err)
  seek s key :=
    match s with
    | .memory s => (.memory (s.seek key), none)
    | .table it => (.table (it.seek key).1, (it.seek key).2)

inductive ScanError where
  | closed
  | merge (e : Sst.Error)
  deriving DecidableEq, Repr

/-- `bound` is more than the number of entries in all sources; the loops of the merge stop
before it. -/
structure ScanIterator where
  merge : Iterator.MergeIterator ScanSource Sst.Error
  stop : Bytes
  closed : Bool
  bound : Nat

namespace ScanIterator

def valid (it : ScanIterator) : Bool :=
  if it.closed then false
  else if !it.merge.isValid then false
  else if it.stop.length = 0 then true
  else decide (it.merge.key < it.stop)

def next (it : ScanIterator) : ScanIterator × Option ScanError :=
  if it.closed then (it, some .closed)
  else
    match it.merge.next scanInterface.toInterface it.bound with
    | (merge, err) => ({ it with merge := merge }, err.map .merge)

/-- A caller that iterates until the iterator is not valid: the pairs it sees, and the first
error. -/
def collect : Nat → ScanIterator → List (Bytes × Bytes) × Option ScanError
  | 0, _ => ([], none)
  | fuel + 1, it =>
    if it.valid then
      let pair := (it.merge.key, it.merge.value.bytes)
      match it.next with
      | (_, some e) => ([pair], some e)
      | (it, none) => (pair :: (collect fuel it).1, (collect fuel it).2)
    else ([], none)

end ScanIterator

namespace DB

variable (db : DB)

/-- The sources of `Scan` with their priorities. An empty batch is no source. -/
def scanSources : List ScanSource × List Int :=
  let snap := sortedBatch db.pendingBatch
  let batch : List ScanSource × List Int :=
    if 0 < snap.length then ([.memory ⟨snap, 0⟩], [scanPriorityPendingBatch]) else ([], [])
  -- newest first, each with a lower priority than the one before
  let queue := db.pendingFlush.reverse.map fun entry => ScanSource.memory ⟨entry.mem.entries, 0⟩
  -- oldest first, with rising priorities
  let tables := db.sstables.map fun r => ScanSource.table r.newIterator
  (batch.1 ++ (.memory ⟨db.active.entries, 0⟩ :: (queue ++ tables)),
    batch.2 ++ (scanPriorityActive ::
      ((List.range' 0 queue.length).map (fun age => scanPriorityImmutable - Int.ofNat age) ++
        (List.range' 0 tables.length).map Int.ofNat)))

def scanBound : Nat :=
  (sortedBatch db.pendingBatch).length + db.active.entries.length +
    (db.pendingFlush.map fun entry => entry.mem.entries.length).sum +
    (db.sstables.map Sst.Reader.maxEntries).sum + 1

/-- `Scan`, up to the references it takes on the tables. -/
def scan (start stop : Bytes) : Except ScanError ScanIterator :=
  if db.closed then .error .closed
  else
    match Iterator.newMergeIterator Sst.Error.priorityMismatch db.scanSources.1 db.scanSources.2 with
    | .error e => .error (.merge e)
    | .ok merge =>
      match merge.seek scanInterface db.scanBound start with
      | (_, some e) => .error (.merge e)
      | (merge, none) => .ok ⟨merge, stop, false, db.scanBound⟩

end DB

/-! ### What the sources yield -/

theorem sortedBatch_ascending (batch : List Record) :
    Ascending (sortedBatch batch) := by
  -- the map behind it is sorted by the keys of its records
  have sorted (m : List (Bytes × Record)) (before : SortedMap.Sorted m ∧ ∀ e ∈ m, e.2.key = e.1) :
      SortedMap.Sorted (batch.foldl (fun byKey rec => SortedMap.insert rec.key rec byKey) m) ∧
        ∀ e ∈ batch.foldl (fun byKey rec => SortedMap.insert rec.key rec byKey) m, e.2.key = e.1 := by
    induction batch generalizing m with
    | nil => exact before
    | cons rec batch ih =>
      refine ih _ ⟨before.1.insert rec.key rec m, fun e member => ?_⟩
      simp only [SortedMap.insert, List.mem_append, List.mem_cons, List.mem_filter] at member
      rcases member with ⟨inside, -⟩ | rfl | ⟨inside, -⟩
      · exact before.2 e inside
      · rfl
      · exact before.2 e inside
  obtain ⟨keys, own⟩ := sorted [] ⟨List.Pairwise.nil, by simp⟩
  apply List.pairwise_map.mpr
  apply keys.imp_of_mem
  intro a b inA inB less
  show a.2.key < b.2.key
  rwa [own a inA, own b inB]

theorem findEntry_sortedBatch (k : Bytes) (batch : List Record) :
    findEntry k (sortedBatch batch) = (lastRecord k batch).map entryOf := by
  -- the map so far decides unless a later record of the key does
  have folded (m : List (Bytes × Record)) (own : ∀ e ∈ m, e.2.key = e.1) :
      findEntry k ((batch.foldl (fun byKey rec => SortedMap.insert rec.key rec byKey) m).map
        fun e => entryOf e.2) =
        ((lastRecord k batch).or (SortedMap.find k m)).map entryOf := by
    induction batch generalizing m with
    | nil =>
      induction m with
      | nil => rfl
      | cons e m ih =>
        obtain ⟨here, later⟩ := List.forall_mem_cons.mp own
        have rest := ih later
        have same : (entryOf e.2).key = e.1 := here
        simp only [List.foldl_nil, lastRecord, List.reverse_nil, List.find?_nil,
          Option.none_or] at rest ⊢
        rw [List.map_cons, findEntry_cons, rest, SortedMap.find, same]
        split <;> rfl
    | cons rec batch ih =>
      rw [List.foldl_cons, ih]
      · rw [SortedMap.find_insert, ← List.singleton_append, lastRecord_append, lastRecord_singleton]
        cases lastRecord k batch with
        | some last => rfl
        | none =>
          by_cases same : rec.key = k
          · simp [same]
          · simp [same, Ne.symm same]
      · intro e member
        simp only [SortedMap.insert, List.mem_append, List.mem_cons, List.mem_filter] at member
        rcases member with ⟨inside, -⟩ | rfl | ⟨inside, -⟩
        · exact own e inside
        · rfl
        · exact own e inside
  have whole := folded [] (by simp)
  rw [SortedMap.find, Option.or_none] at whole
  exact whole

/-- Tombstones of a memory layer carry no value. -/
def Blank (es : List Entry) : Prop := ∀ e ∈ es, e.tombstone = true → e.value = []

theorem sortedBatch_blank (batch : List Record) : Blank (sortedBatch batch) := by
  intro e member dead
  obtain ⟨x, -, rfl⟩ := List.mem_map.mp member
  have : x.2.tombstone = true := dead
  simp [entryOf, this]

theorem entries_blank (sl : SkipList) : Blank sl.entries := by
  intro e member dead
  obtain ⟨x, -, rfl⟩ := List.mem_map.mp member
  have : x.2.tombstone = true := dead
  simp [this]

theorem memory_yields (es : List Entry) (blank : Blank es) (rest : List Entry) (i : Nat)
    (left : es.drop i = rest) : Yields scanInterface.toInterface (.memory ⟨es, i⟩) rest := by
  induction rest generalizing i with
  | nil =>
    have past : es.length ≤ i := List.drop_eq_nil_iff.mp left
    show decide (i < es.length) = false
    simpa using past
  | cons e rest ih =>
    have inside : i < es.length := by
      by_contra past
      rw [List.drop_eq_nil_iff.mpr (by omega)] at left
      cases left
    have here : es[i]? = some e := by rw [← List.head?_drop, left, List.head?_cons]
    have value : (if e.tombstone then none else cloneBytes e.value) = cloneBytes e.value := by
      split
      next dead =>
        rw [blank e (List.mem_of_getElem? here) dead]
        rfl
      next => rfl
    have step : SnapshotMemIter.next ⟨es, i⟩ = ⟨es, i + 1⟩ := if_pos inside
    refine ⟨?_, ?_, ?_, ?_, rfl, ?_⟩
    · show decide (i < es.length) = true
      simpa using inside
    · simp [scanInterface, SnapshotMemIter.key, here]
    · simp [scanInterface, SnapshotMemIter.key, SnapshotMemIter.value, here, value]
    · simp [scanInterface, SnapshotMemIter.isTombstone, here]
    · show Yields scanInterface.toInterface (.memory (SnapshotMemIter.next ⟨es, i⟩)) rest
      rw [step]
      apply ih
      rw [← List.tail_drop, left, List.tail_cons]

theorem drop_findIdx (key : Bytes) (es : List Entry) (ascending : Ascending es) :
    es.drop (es.findIdx fun e => !decide (e.key < key)) = fromKey key es := by
  induction es with
  | nil => rfl
  | cons e es ih =>
    obtain ⟨first, later⟩ := List.pairwise_cons.mp ascending
    by_cases below : e.key < key
    · rw [List.findIdx_cons, Iterator.fromKey, List.filter_cons_of_neg (by simpa using below)]
      simp only [below, decide_true, Bool.not_true, cond_false, List.drop_succ_cons]
      exact ih later
    · -- everything behind `e` is larger still
      have above : ∀ x ∈ e :: es, key ≤ x.key := List.forall_mem_cons.mpr
        ⟨not_lt.mp below, fun x member => (not_lt.mp below).trans (first x member).le⟩
      rw [List.findIdx_cons, Iterator.fromKey, List.filter_eq_self.mpr (by simpa using above)]
      simp only [below, decide_false, Bool.not_false, cond_true, List.drop_zero]

theorem table_yields (es : List Entry) (it : Sst.Iterator)
    (yields : Yields Sst.Iterator.adapter it es) :
    Yields scanInterface.toInterface (.table it) es := by
  induction es generalizing it with
  | nil => exact yields
  | cons e es ih =>
    obtain ⟨valid, key, kept, tombstone, noErr, later⟩ := yields
    exact ⟨valid, key, kept, tombstone, noErr, ih _ later⟩

/-- What a source holds, wherever it stands. -/
inductive Holds : ScanSource → List Entry → Prop
  | memory (s : SnapshotMemIter) (ascending : Ascending s.entries) (blank : Blank s.entries) :
      Holds (.memory s) s.entries
  | table (it : Sst.Iterator) (es : List Entry) (stores : it.reader.Stores es) : Holds (.table it) es

/-- A source of the merge that holds the entries and has the priority. -/
def HoldsAt (s : Iterator.Source ScanSource) (v : List Entry × Int) : Prop :=
  Holds s.it v.1 ∧ s.priority = v.2

theorem Holds.next {s : ScanSource} {es : List Entry} (holds : Holds s es) :
    Holds (scanInterface.next s).1 es := by
  cases holds with
  | memory s ascending blank =>
    have same : s.next.entries = s.entries := by
      rw [SnapshotMemIter.next]
      split <;> rfl
    have moved := Holds.memory s.next (same ▸ ascending) (same ▸ blank)
    rwa [same] at moved
  | table it es stores =>
    apply Holds.table
    rwa [it.next_reader]

/-- `Seek` leads to the entries from the key on. -/
theorem Holds.seek {s : ScanSource} {es : List Entry} (holds : Holds s es) (key : Bytes) :
    (scanInterface.seek s key).2 = none ∧
      Yields scanInterface.toInterface (scanInterface.seek s key).1 (fromKey key es) ∧
      Holds (scanInterface.seek s key).1 es := by
  cases holds with
  | memory s ascending blank =>
    exact ⟨rfl, memory_yields s.entries blank _ _ (drop_findIdx key s.entries ascending),
      .memory (s.seek key) ascending blank⟩
  | table it es stores =>
    obtain ⟨noErr, yields⟩ := stores.seek it.reader es it rfl key
    refine ⟨noErr, table_yields _ _ yields, .table _ es ?_⟩
    rwa [it.seek_reader]

/-- All sources are positioned on the key. -/
theorem seekAll_holds (key : Bytes) (srcs : List (Iterator.Source ScanSource)) (view : View)
    (holds : List.Forall₂ HoldsAt srcs view) :
    ∃ srcs', Iterator.seekAll scanInterface key srcs = .ok srcs' ∧
      List.Forall₂ (Iterator.Shows scanInterface.toInterface) srcs'
        (view.map fun v => (fromKey key v.1, v.2)) ∧
      List.Forall₂ HoldsAt srcs' view := by
  obtain ⟨srcs', sought, shows⟩ := Iterator.seekAll_shows scanInterface key srcs view
    (holds.imp fun s v here => ⟨(here.1.seek key).1, (here.1.seek key).2.1, here.2⟩)
  refine ⟨srcs', sought, shows, ?_⟩
  exact Iterator.seekAll_keeps scanInterface key
    (fun s v here => ⟨(here.1.seek key).2.2, here.2⟩) srcs srcs' view holds sought

/-! ### What a scan merges -/

/-- Layers with priorities from `p` downward. -/
def descending : Int → List (List Entry) → View
  | _, [] => []
  | p, es :: layers => (es, p) :: descending (p - 1) layers

namespace DB

variable (db : DB) (tables : List (List Entry))

/-- The memory layers that are sources of a scan, newest first. -/
def memoryLayers : List (List Entry) :=
  (if 0 < (sortedBatch db.pendingBatch).length then [sortedBatch db.pendingBatch]
    else []) ++
    (db.active.entries :: db.pendingFlush.reverse.map fun entry => entry.mem.entries)

def topPriority : Int :=
  if 0 < (sortedBatch db.pendingBatch).length then scanPriorityPendingBatch
  else scanPriorityActive

/-- The sources of a scan as lists; `tables` is what the tables hold. -/
def scanView : View := descending db.topPriority db.memoryLayers ++ Sst.viewFrom 0 tables

theorem memoryLayers_spec :
    ∀ es ∈ db.memoryLayers, Ascending es ∧ Blank es := by
  intro es member
  rcases List.mem_append.mp member with batch | rest
  · split at batch
    · rw [List.mem_singleton.mp batch]
      exact ⟨sortedBatch_ascending _, sortedBatch_blank _⟩
    · cases batch
  · rcases List.mem_cons.mp rest with rfl | queue
    · exact ⟨db.active.entries_ascending, entries_blank _⟩
    · obtain ⟨entry, -, rfl⟩ := List.mem_map.mp queue
      exact ⟨entry.mem.entries_ascending, entries_blank _⟩

theorem scanSources_length : db.scanSources.1.length = db.scanSources.2.length := by
  simp only [scanSources]
  split <;> simp

theorem queue_holds (layers : List (List Entry)) (spec : ∀ es ∈ layers, Ascending es ∧ Blank es)
    (n : Nat) :
    List.Forall₂ HoldsAt
      (List.zipWith (fun it priority => ⟨it, priority⟩)
        (layers.map fun es => ScanSource.memory ⟨es, 0⟩)
        ((List.range' n layers.length).map fun age => scanPriorityImmutable - Int.ofNat age))
      (descending (scanPriorityImmutable - n) layers) := by
  induction layers generalizing n with
  | nil => exact .nil
  | cons es layers ih =>
    obtain ⟨here, later⟩ := List.forall_mem_cons.mp spec
    have rest := ih later (n + 1)
    have lower : scanPriorityImmutable - ((n + 1 : Nat) : Int) = scanPriorityImmutable - n - 1 := by
      omega
    rw [lower] at rest
    exact .cons ⟨.memory ⟨es, 0⟩ here.1 here.2, rfl⟩ rest

theorem tables_hold (readers : List Sst.Reader) (tables : List (List Entry))
    (stores : List.Forall₂ Sst.Reader.Stores readers tables) (n : Nat) :
    List.Forall₂ HoldsAt
      (List.zipWith (fun it priority => ⟨it, priority⟩)
        (readers.map fun r => ScanSource.table r.newIterator)
        ((List.range' n readers.length).map Int.ofNat)) (Sst.viewFrom n tables) := by
  induction stores generalizing n with
  | nil => exact .nil
  | @cons r es readers tables first _ ih =>
    refine .cons ⟨.table r.newIterator es ?_, rfl⟩ (ih (n + 1))
    rwa [r.newIterator_reader]

/-- The sources of a scan hold what its view says. -/
theorem scanSources_hold (stores : List.Forall₂ Sst.Reader.Stores db.sstables tables) :
    List.Forall₂ HoldsAt
      (List.zipWith (fun it priority => ⟨it, priority⟩) db.scanSources.1 db.scanSources.2)
      (db.scanView tables) := by
  have active : HoldsAt ⟨.memory ⟨db.active.entries, 0⟩, scanPriorityActive⟩
      (db.active.entries, scanPriorityActive) :=
    ⟨.memory ⟨_, 0⟩ db.active.entries_ascending (entries_blank _), rfl⟩
  have queue := queue_holds (db.pendingFlush.reverse.map fun entry => entry.mem.entries)
    (fun es member => by
      obtain ⟨entry, -, rfl⟩ := List.mem_map.mp member
      exact ⟨entry.mem.entries_ascending, entries_blank _⟩) 0
  have rest : List.Forall₂ HoldsAt (_ ++ _) (_ ++ _) :=
    List.rel_append queue (tables_hold db.sstables tables stores 0)
  rw [← List.zipWith_append (by simp)] at rest
  simp only [List.map_map, List.length_map, Function.comp_def, Nat.cast_zero, sub_zero] at rest
  have memory := List.Forall₂.cons active rest
  simp only [scanSources, scanView, memoryLayers, topPriority, List.length_map]
  split
  · exact .cons ⟨.memory ⟨_, 0⟩ (sortedBatch_ascending _) (sortedBatch_blank _), rfl⟩
      memory
  · exact memory

theorem remaining_descending (p : Int) (layers : List (List Entry)) :
    Iterator.remaining (descending p layers) = (layers.map List.length).sum := by
  induction layers generalizing p with
  | nil => rfl
  | cons es layers ih =>
    have later := ih (p - 1)
    rw [Iterator.remaining] at later
    rw [descending, Iterator.remaining, List.map_cons, List.sum_cons, later, List.map_cons,
      List.sum_cons]

theorem remaining_scanView (stores : List.Forall₂ Sst.Reader.Stores db.sstables tables) :
    Iterator.remaining (db.scanView tables) < db.scanBound := by
  have ofTables := Sst.remaining_viewFrom db.sstables tables stores 0
  have ofMemory := remaining_descending db.topPriority db.memoryLayers
  have queue : ((db.pendingFlush.reverse.map fun entry => entry.mem.entries).map List.length).sum =
      (db.pendingFlush.map fun entry => entry.mem.entries.length).sum := by
    rw [List.map_map, List.map_reverse, List.sum_reverse]
    rfl
  have layers : (db.memoryLayers.map List.length).sum =
      (sortedBatch db.pendingBatch).length + db.active.entries.length +
        (db.pendingFlush.map fun entry => entry.mem.entries.length).sum := by
    rw [memoryLayers, List.map_append, List.sum_append, List.map_cons, List.sum_cons, queue]
    split
    · simp [Nat.add_assoc]
    next none_ =>
      rw [Nat.eq_zero_of_not_pos none_]
      simp
  rw [scanView, Iterator.remaining, List.map_append, List.sum_append]
  simp only [Iterator.remaining] at ofTables ofMemory
  rw [scanBound]
  omega

end DB

/-! ### What a scan shows -/

/-- `[start, stop)`; nothing bounds the range above when `stop` is empty. -/
def InRange (start stop k : Bytes) : Prop := start ≤ k ∧ (stop = [] ∨ k < stop)

/-- On an entry of the merge only the end of the range can stop the scan. -/
theorem ScanIterator.valid_eq (it : ScanIterator) (opened : it.closed = false)
    (valid : it.merge.valid = true) (noErr : it.merge.err = none) :
    it.valid = decide (it.stop = [] ∨ it.merge.key < it.stop) := by
  simp only [ScanIterator.valid, opened, Iterator.MergeIterator.isValid, valid, noErr,
    List.length_eq_zero_iff]
  by_cases unbounded : it.stop = []
  · simp [unbounded]
  · simp [unbounded]

theorem ScanIterator.next_eq (it : ScanIterator) (opened : it.closed = false)
    (noErr : it.merge.err = none)
    (moved : (it.merge.advance scanInterface.toInterface it.bound).2 = none) :
    it.next = ({ it with merge := (it.merge.advance scanInterface.toInterface it.bound).1 }, none) := by
  rw [ScanIterator.next, opened]
  simp only [Bool.false_eq_true, if_false, Iterator.MergeIterator.next, noErr, moved,
    Option.map_none]

/-- A caller sees the live keys up to the end of the range, in ascending order. The
induction is on the entries left in the sources. -/
theorem ScanIterator.collect_positioned (it : ScanIterator) (view : View)
    (opened : it.closed = false)
    (positioned : Iterator.Positioned scanInterface.toInterface it.merge view)
    (enough : Iterator.remaining view < it.bound) :
    ∃ pairs, (∀ fuel > Iterator.remaining view, it.collect fuel = (pairs, none)) ∧
      pairs.Pairwise (fun a b => a.1 < b.1) ∧
      ∀ k v, (k, v) ∈ pairs ↔ (it.stop = [] ∨ k < it.stop) ∧ live k view = some v := by
  induction size : Iterator.remaining view using Nat.strong_induction_on generalizing it view with
  | _ size ih =>
    subst size
    obtain ⟨noErr, ⟨atEnd, nothing⟩ | ⟨valid, first, smaller, view', shows, mergeable, fewer, later⟩⟩ :=
      positioned
    · -- nothing is left to show
      have invalid : it.valid = false := by
        simp [ScanIterator.valid, opened, Iterator.MergeIterator.isValid, atEnd]
      refine ⟨[], fun fuel more => ?_, List.Pairwise.nil, fun k v => ?_⟩
      · cases fuel with
        | zero => omega
        | succ fuel => simp [collect, invalid]
      · simp [nothing k]
    · have isValid := it.valid_eq opened valid noErr
      by_cases inside : it.stop = [] ∨ it.merge.key < it.stop
      · -- the pair is shown, and the walk goes on behind its key
        obtain ⟨moved, onward⟩ := it.merge.advance_positioned scanInterface.toInterface it.bound view'
          noErr shows mergeable (by omega)
        have step := it.next_eq opened noErr moved
        obtain ⟨pairs, shown, sorted, exactly⟩ := ih _ fewer
          { it with merge := (it.merge.advance scanInterface.toInterface it.bound).1 } view' opened
          onward (show Iterator.remaining view' < it.bound by omega) rfl
        refine ⟨(it.merge.key, it.merge.value.bytes) :: pairs, fun fuel more => ?_, ?_, ?_⟩
        · cases fuel with
          | zero => omega
          | succ fuel =>
            rw [collect, isValid, decide_eq_true inside]
            simp only [if_true, step]
            rw [shown fuel (by omega)]
        · refine List.pairwise_cons.mpr ⟨fun pair member => ?_, sorted⟩
          obtain ⟨-, isLive⟩ := (exactly pair.1 pair.2).mp member
          rw [later] at isLive
          by_contra notAbove
          rw [if_pos (not_lt.mp notAbove)] at isLive
          cases isLive
        · intro k v
          rw [List.mem_cons, exactly k v, later k]
          rcases lt_trichotomy k it.merge.key with less | rfl | more
          · simp [smaller k less, less.le, less.ne]
          · simp only [le_refl, if_true, first, Prod.mk.injEq, true_and, Option.some.injEq, inside]
            simp [eq_comm]
          · have apart : ¬(k, v) = (it.merge.key, it.merge.value.bytes) := by
              simp [more.ne']
            simp [apart, not_le.mpr more]
      · -- the key is beyond the range, and all keys below it have been shown
        refine ⟨[], fun fuel more => ?_, List.Pairwise.nil, fun k v => ?_⟩
        · cases fuel with
          | zero => omega
          | succ fuel => simp [collect, isValid, inside]
        · rw [not_or] at inside
          simp only [List.not_mem_nil, false_iff, not_and]
          rintro (none_ | below) isLive
          · exact inside.1 none_
          · rw [smaller k (below.trans_le (not_lt.mp inside.2))] at isLive
            cases isLive

section Scan

variable (db : DB) (tables : List (List Entry))
  (stores : List.Forall₂ Sst.Reader.Stores db.sstables tables) (opened : db.closed = false)
  (start stop : Bytes)

include stores in
/-- All sources are positioned at the start of the range. -/
theorem exists_sought : ∃ srcs, Iterator.seekAll scanInterface start
      (List.zipWith (fun it priority => ⟨it, priority⟩) db.scanSources.1 db.scanSources.2) = .ok srcs ∧
    List.Forall₂ (Iterator.Shows scanInterface.toInterface) srcs
      ((db.scanView tables).map fun v => (fromKey start v.1, v.2)) ∧
    List.Forall₂ HoldsAt srcs (db.scanView tables) :=
  seekAll_holds start _ _ (db.scanSources_hold tables stores)

include opened in
/-- `Scan` returns where the first step of the merge leads. -/
theorem scan_eq (srcs : List (Iterator.Source ScanSource))
    (sought : Iterator.seekAll scanInterface start
      (List.zipWith (fun it priority => ⟨it, priority⟩) db.scanSources.1 db.scanSources.2) = .ok srcs) :
    db.scan start stop =
      match Iterator.MergeIterator.advance scanInterface.toInterface db.scanBound
        ⟨srcs, [], none, false, none⟩ with
      | (_, some e) => .error (.merge e)
      | (merge, none) => .ok ⟨merge, stop, false, db.scanBound⟩ := by
  rw [DB.scan, opened]
  simp only [Bool.false_eq_true, if_false, Iterator.newMergeIterator, db.scanSources_length, ne_eq,
    not_true, Iterator.MergeIterator.seek, sought]

include stores opened in
/-- A scan over sources without the empty key and without negative priorities shows the
best entries that are live. -/
theorem scan_live
    (mergeable : Mergeable ((db.scanView tables).map fun v => (fromKey start v.1, v.2))) :
    ∃ it pairs, db.scan start stop = .ok it ∧
      (∀ fuel ≥ db.scanBound, it.collect fuel = (pairs, none)) ∧
      pairs.Pairwise (fun a b => a.1 < b.1) ∧
      ∀ k v, (k, v) ∈ pairs ↔ InRange start stop k ∧ live k (db.scanView tables) = some v := by
  obtain ⟨srcs, sought, shows, -⟩ := exists_sought db tables stores start
  have few := (Iterator.remaining_fromKey start (db.scanView tables)).trans_lt
    (db.remaining_scanView tables stores)
  obtain ⟨noErr, positioned⟩ := Iterator.MergeIterator.advance_positioned scanInterface.toInterface
    db.scanBound ⟨srcs, [], none, false, none⟩ _ rfl shows mergeable few
  have started := scan_eq db opened start stop srcs sought
  cases moved : Iterator.MergeIterator.advance scanInterface.toInterface db.scanBound
      ⟨srcs, [], none, false, none⟩ with
  | mk merge err =>
  rw [moved] at noErr positioned started
  cases noErr
  obtain ⟨pairs, shown, sorted, exactly⟩ := ScanIterator.collect_positioned
    ⟨merge, stop, false, db.scanBound⟩ _ rfl positioned few
  refine ⟨_, pairs, started, fun fuel more => shown fuel (by omega), sorted, fun k v => ?_⟩
  · rw [exactly k v, live, Iterator.resolve_fromKey, InRange, live]
    by_cases above : start ≤ k
    · simp [above]
    · simp [above]

end Scan

end PebbleDB.Db
