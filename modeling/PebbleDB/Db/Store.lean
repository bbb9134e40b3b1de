import Mathlib.Data.Nat.Digits.Lemmas
import PebbleDB.Manifest.Log
import PebbleDB.Memtable
import PebbleDB.Sst.Merge
import PebbleDB.Wal.Truncate

/-!
# The store: its layers and the read path

A write sits in the pending batch until it is logged, then in the active memtable,
then in a frozen memtable of the flush queue, then in a table. `Get` asks the layers
in that order, newest first, and the first one that knows the key decides. Inside
the memory layers a live value, a tombstone and a miss are told apart; the tables
return a value and a flag, and a nil value under a set flag means a tombstone.
-/
namespace PebbleDB.Db

open Memtable (SkipList Slot)
open Wal (Record)

structure FlushQueueEntry where
  mem : SkipList
  walCutoff : Nat

/-- The handle with the files it works on: `wal` is the content of `wal.log`, `walFlush`
that of `wal.flush` if there is one, and `walErr` says whether a failed `AppendBatch` was
reported as a background error. -/
structure DB where
  closed : Bool
  walErr : Bool
  pendingBatch : List Record
  batchSizeBytes : Nat
  active : SkipList
  pendingFlush : List FlushQueueEntry
  sstables : List Sst.Reader
  wal : Bytes
  walFlush : Option Bytes
  walLimits : Wal.ReplayLimits
  manifest : Manifest.State
  nextSSTID : UInt64
  nextFileID : Nat
  memtableSize : Int
  compactThreshold : Int
  syncWrites : Bool

def defaultMemtableSize : Int := 4 * 2 ^ 20
def defaultCompactThreshold : Int := 4

/-- What `Open` returns for an empty directory and default options. -/
def emptyDB : DB where
  closed := false
  walErr := false
  pendingBatch := []
  batchSizeBytes := 0
  active := .new
  pendingFlush := []
  sstables := []
  wal := []
  walFlush := none
  walLimits := Wal.defaultReplayLimits
  manifest := ⟨⟨1, true, ∅, 0⟩, Manifest.Dir.write ⟨some 1, fun _ => none⟩ 1 []⟩
  nextSSTID := 0
  nextFileID := 0
  memtableSize := defaultMemtableSize
  compactThreshold := defaultCompactThreshold
  syncWrites := false

/-- What the store takes from its platform: the float formulas behind filter sizes, and
how many bytes the reads of a truncation return (some, as long as there are any). -/
structure Env where
  sizing : Sst.Sizing
  reads : Nat → Nat
  progress : ∀ i, 0 < reads i

/-- The digits that `sst_%08d.sst` prints, first digit first. -/
def sstFileDigits (id : UInt64) : List Nat :=
  let digits := Nat.digits 10 id.toNat
  (digits ++ List.replicate (8 - digits.length) 0).reverse

theorem eight_le_sstFileDigits (id : UInt64) : 8 ≤ (sstFileDigits id).length := by
  simp only [sstFileDigits, List.length_reverse, List.length_append, List.length_replicate]
  omega

theorem sstFileDigits_eight_iff (id : UInt64) :
    (sstFileDigits id).length = 8 ↔ id.toNat < 10 ^ 8 := by
  rw [← Nat.digits_length_le_iff (by decide)]
  simp only [sstFileDigits, List.length_reverse, List.length_append, List.length_replicate]
  omega

theorem ofDigits_sstFileDigits (id : UInt64) :
    Nat.ofDigits 10 (sstFileDigits id).reverse = id.toNat := by
  simp [sstFileDigits, Nat.ofDigits_append, Nat.ofDigits_digits]

/-! ### Lookups -/

inductive MemLookupResult where
  | miss
  | hit
  | tombstone
  deriving DecidableEq, Repr

abbrev MemLookup := Slice × MemLookupResult

/-- The next layer is asked only after a miss. -/
def MemLookup.orElse : MemLookup → MemLookup → MemLookup
  | (_, .miss), next => next
  | found, _ => found

/-- `lookupPendingBatch`: the last record of the key decides. -/
def lookupPendingBatch (batch : List Record) (key : Bytes) : MemLookup :=
  match batch.reverse.find? fun rec => decide (rec.key = key) with
  | none => (none, .miss)
  | some rec => if rec.tombstone then (none, .tombstone) else (cloneBytes rec.value, .hit)

def lookupMemtable (mt : SkipList) (key : Bytes) : MemLookup :=
  let got := mt.get key
  if !got.found then (none, .miss)
  else if got.tombstone then (none, .tombstone)
  else (got.value, .hit)

/-- The loop of `Get` over the flush queue, from its newest entry on. -/
def lookupNewestMemtable (key : Bytes) : List FlushQueueEntry → MemLookup
  | [] => (none, .miss)
  | entry :: older => (lookupMemtable entry.mem key).orElse (lookupNewestMemtable key older)

def lookupPendingFlush (queue : List FlushQueueEntry) (key : Bytes) : MemLookup :=
  lookupNewestMemtable key queue.reverse

/-- The loop of `lookupSSTReaders`; closed readers are skipped. -/
def lookupNewestReader (key : Bytes) : List Sst.Reader → Except Sst.Error (Slice × Bool)
  | [] => .ok (none, false)
  | r :: older =>
    if r.mayContain key then
      match r.get key with
      -- a reader that was closed meanwhile is passed over
      | .error e => if e = .closed then lookupNewestReader key older else .error e
      | .ok got =>
        if got.found then
          if got.tombstone then .ok (none, true) else .ok (got.value, true)
        else lookupNewestReader key older
    else lookupNewestReader key older

def lookupSSTReaders (readers : List Sst.Reader) (key : Bytes) :
    Except Sst.Error (Slice × Bool) :=
  lookupNewestReader key readers.reverse

inductive GetError where
  | closed
  | notFound
  | sst (e : Sst.Error)
  deriving DecidableEq, Repr

/-- What `Get` makes of the memory layers and, after a miss, of the tables. -/
def answer (memory : MemLookup) (tables : Except Sst.Error (Slice × Bool)) :
    Except GetError Slice :=
  match memory with
  | (val, .hit) => .ok val
  | (_, .tombstone) => .error .notFound
  | (_, .miss) =>
    match tables with
    | .error e => .error (.sst e)
    | .ok (val, found) =>
      if found then
        match val with
        -- a nil value is what the search returns for a tombstone
        | none => .error .notFound
        | some v => .ok (some v)
      else .error .notFound

/-- The memory layers, newest first. -/
def DB.lookupMemory (db : DB) (key : Bytes) : MemLookup :=
  (lookupPendingBatch db.pendingBatch key).orElse
    ((lookupMemtable db.active key).orElse (lookupPendingFlush db.pendingFlush key))

def DB.get (db : DB) (key : Bytes) : Except GetError Slice :=
  if db.closed then .error .closed
  else answer (db.lookupMemory key) (lookupSSTReaders db.sstables key)

/-! ### Facts about the layers -/

@[simp] theorem MemLookup.miss_orElse (val : Slice) (next : MemLookup) :
    MemLookup.orElse (val, .miss) next = next := rfl

theorem MemLookup.orElse_of_ne_miss (found next : MemLookup) (known : found.2 ≠ .miss) :
    found.orElse next = found := by
  obtain ⟨val, res⟩ := found
  cases res with
  | miss => exact absurd rfl known
  | hit => rfl
  | tombstone => rfl

theorem MemLookup.orElse_assoc (a b c : MemLookup) :
    (a.orElse b).orElse c = a.orElse (b.orElse c) := by
  obtain ⟨val, res⟩ := a
  cases res with
  | miss => rfl
  | hit => rfl
  | tombstone => rfl

theorem MemLookup.orElse_miss_iff (a b : MemLookup) :
    (a.orElse b).2 = .miss ↔ a.2 = .miss ∧ b.2 = .miss := by
  obtain ⟨val, res⟩ := a
  cases res with
  | miss => simp
  | hit => simp [MemLookup.orElse]
  | tombstone => simp [MemLookup.orElse]

theorem lookupMemtable_eq (mt : SkipList) (key : Bytes) :
    lookupMemtable mt key = match mt.find key with
      | none => (none, .miss)
      | some slot => if slot.tombstone then (none, .tombstone) else (cloneBytes slot.value, .hit) := by
  rw [lookupMemtable, mt.get_eq, SkipList.find]
  cases SortedMap.find key mt.toMap with
  | none => rfl
  | some slot =>
    obtain ⟨value, tombstone⟩ := slot
    cases tombstone with
    | true => rfl
    | false => rfl

theorem lookupNewestMemtable_append (key : Bytes) (newer older : List FlushQueueEntry) :
    lookupNewestMemtable key (newer ++ older) =
      (lookupNewestMemtable key newer).orElse (lookupNewestMemtable key older) := by
  induction newer with
  | nil => rfl
  | cons entry newer ih =>
    rw [List.cons_append, lookupNewestMemtable, ih, lookupNewestMemtable, MemLookup.orElse_assoc]

/-- The head of the queue is the oldest memtable. -/
theorem lookupPendingFlush_cons (entry : FlushQueueEntry) (queue : List FlushQueueEntry)
    (key : Bytes) :
    lookupPendingFlush (entry :: queue) key =
      (lookupPendingFlush queue key).orElse (lookupMemtable entry.mem key) := by
  have last : lookupNewestMemtable key [entry] = lookupMemtable entry.mem key := by
    rw [lookupNewestMemtable, lookupNewestMemtable, lookupMemtable_eq]
    cases entry.mem.find key with
    | none => rfl
    | some slot =>
      apply MemLookup.orElse_of_ne_miss
      dsimp only
      split
      · simp
      · simp
  rw [lookupPendingFlush, List.reverse_cons, lookupNewestMemtable_append, last, lookupPendingFlush]

theorem lookupPendingBatch_miss_iff (batch : List Record) (key : Bytes) :
    (lookupPendingBatch batch key).2 = .miss ↔ ∀ rec ∈ batch, rec.key ≠ key := by
  rw [lookupPendingBatch]
  constructor
  · intro miss
    split at miss
    next none_ => simpa using none_
    next rec _ =>
      split at miss
      · cases miss
      · cases miss
  · intro absent
    have none_ : batch.reverse.find? (fun rec => decide (rec.key = key)) = none := by
      simpa using absent
    rw [none_]

theorem lookupMemtable_miss_iff (mt : SkipList) (key : Bytes) :
    (lookupMemtable mt key).2 = .miss ↔ mt.find key = none := by
  rw [lookupMemtable_eq]
  cases mt.find key with
  | none => simp
  | some slot => cases h : slot.tombstone <;> simp [h]

theorem lookupPendingFlush_miss_iff (queue : List FlushQueueEntry) (key : Bytes) :
    (lookupPendingFlush queue key).2 = .miss ↔ ∀ entry ∈ queue, entry.mem.find key = none := by
  induction queue with
  | nil => simp [lookupPendingFlush, lookupNewestMemtable]
  | cons entry queue ih =>
    rw [lookupPendingFlush_cons, MemLookup.orElse_miss_iff, ih, lookupMemtable_miss_iff,
      List.forall_mem_cons]
    exact and_comm

/-- What an entry of a table contributes to `lookupSSTReaders`. -/
def tableAnswer (e : Entry) : Slice × Bool :=
  (if e.tombstone then none else cloneBytes e.value, true)

/-- A table that holds its entries decides for their keys and passes on the others. -/
theorem lookupNewestReader_cons (older : List Sst.Reader) (r : Sst.Reader) (es : List Entry)
    (holds : r.Holds es) (key : Bytes) :
    lookupNewestReader key (r :: older) =
      match findEntry key es with
      | none => lookupNewestReader key older
      | some e => .ok (tableAnswer e) := by
  rw [lookupNewestReader]
  split
  next =>
    rw [holds.get r es key]
    cases findEntry key es with
    | none => rfl
    | some e =>
      obtain ⟨k, value, tombstone⟩ := e
      cases tombstone with
      | true => rfl
      | false => rfl
  next excluded =>
    have absent : findEntry key es = none := by
      rw [findEntry_eq_none]
      rintro e member rfl
      exact excluded (holds.filter e member)
    rw [absent]

theorem lookupSSTReaders_append (readers : List Sst.Reader) (r : Sst.Reader) (es : List Entry)
    (holds : r.Holds es) (key : Bytes) :
    lookupSSTReaders (readers ++ [r]) key =
      match findEntry key es with
      | none => lookupSSTReaders readers key
      | some e => .ok (tableAnswer e) := by
  rw [lookupSSTReaders, List.reverse_append, List.reverse_singleton, List.singleton_append,
    lookupNewestReader_cons _ r es holds, ← lookupSSTReaders]

end PebbleDB.Db
