import PebbleDB.Db.Flush

/-!
# Group commit

Writes are queued in `pendingBatch`. The batch flusher takes the whole batch under
the lock, appends it to the log without the lock, and then, under the lock again,
applies it to the active memtable or puts it back. Between these steps every other
goroutine may run, so each of them is a step of its own here.
-/
namespace PebbleDB.Db

open Memtable (SkipList Slot)
open Wal (Record)

def recordWireSize (rec : Record) : Nat := 4 + rec.key.length + 4 + rec.value.length + 1 + 4

def applyRecordToMemtable (mem : SkipList) (rec : Record) (coins : Nat → Bool) : SkipList :=
  if rec.tombstone then mem.delete rec.key coins else mem.put rec.key rec.value coins

/-- The apply loop; `coins i` are the coin flips for the `i`-th record. -/
def applyRecords (coins : Nat → Nat → Bool) : Nat → SkipList → List Record → SkipList
  | _, mem, [] => mem
  | i, mem, rec :: records =>
    applyRecords coins (i + 1) (applyRecordToMemtable mem rec (coins i)) records

def takePendingBatchLocked (db : DB) : List Record × DB :=
  (db.pendingBatch, { db with pendingBatch := [], batchSizeBytes := 0 })

def restorePendingBatchLocked (db : DB) (batch : List Record) : DB :=
  { db with
    pendingBatch := batch ++ db.pendingBatch
    batchSizeBytes := db.batchSizeBytes + (batch.map recordWireSize).sum }

/-- Where the batch flusher stands inside `flushPendingBatch`. -/
inductive Persist where
  | idle
  | taken (batch : List Record)
  | appended (batch : List Record)
  | failed (batch : List Record)
  | restored

/-- The records the batch flusher holds, in neither `pendingBatch` nor a memtable. -/
def Persist.inflight : Persist → List Record
  | .taken batch => batch
  | .appended batch => batch
  | .failed batch => batch
  | _ => []

/-- The taken records that no successful append has covered yet. -/
def Persist.unlogged : Persist → List Record
  | .taken batch => batch
  | .failed batch => batch
  | .idle => []
  | .appended _ => []
  | .restored => []

/-- The store together with its batch flusher. -/
structure Committer where
  db : DB
  persist : Persist

namespace Committer

/-- The part of `writeRecord` under the lock that queues the record. -/
def enqueue (s : Committer) (rec : Record) : Committer :=
  if s.db.closed then s
  else { s with db := { s.db with
    pendingBatch := s.db.pendingBatch ++ [rec]
    batchSizeBytes := s.db.batchSizeBytes + recordWireSize rec } }

def take (s : Committer) : Committer :=
  match s.persist with
  | .idle =>
    if s.db.pendingBatch = [] then s
    else
      let (batch, db) := takePendingBatchLocked s.db
      ⟨db, .taken batch⟩
  | _ => s

def append (s : Committer) (faults : Wal.Faults) : Committer :=
  match s.persist with
  | .taken batch =>
    match Wal.appendBatch s.db.walLimits s.db.wal batch faults with
    -- what a failed append has written stays in the log
    | (wal, some _) => ⟨{ s.db with wal := wal }, .failed batch⟩
    | (wal, none) => ⟨{ s.db with wal := wal }, .appended batch⟩
  | _ => s

/-- The locked part after `AppendBatch`: apply and maybe freeze, or restore. -/
def finish (s : Committer) (coins : Nat → Nat → Bool) : Committer :=
  match s.persist with
  | .appended batch =>
    let db := { s.db with active := applyRecords coins 0 s.db.active batch }
    ⟨db.maybeFlushLocked.1, .idle⟩
  -- records that were queued meanwhile come behind the batch
  | .failed batch => ⟨restorePendingBatchLocked s.db batch, .restored⟩
  | _ => s

/-- `setBackgroundErr`, after the lock was released. -/
def report (s : Committer) : Committer :=
  match s.persist with
  | .restored => ⟨{ s.db with walErr := true }, .idle⟩
  | _ => s

end Committer

/-! ### What a memtable knows after a batch -/

/-- The slot a record writes. -/
def slotOf (rec : Record) : Slot :=
  if rec.tombstone then ⟨[], true⟩ else ⟨rec.value, false⟩

/-- The last record of a key. -/
def lastRecord (key : Bytes) (records : List Record) : Option Record :=
  records.reverse.find? fun rec => decide (rec.key = key)

theorem lastRecord_append (key : Bytes) (records more : List Record) :
    lastRecord key (records ++ more) = (lastRecord key more).or (lastRecord key records) := by
  rw [lastRecord, List.reverse_append, List.find?_append, lastRecord, lastRecord]

theorem lastRecord_singleton (key : Bytes) (rec : Record) :
    lastRecord key [rec] = if rec.key = key then some rec else none := by
  rw [lastRecord, List.reverse_singleton, List.find?_singleton]
  simp

/-- Whatever the record, it inserts its slot. -/
theorem toMap_applyRecordToMemtable (mem : SkipList) (rec : Record) (coins : Nat → Bool) :
    (applyRecordToMemtable mem rec coins).toMap =
      SortedMap.insert rec.key (slotOf rec) mem.toMap := by
  rw [applyRecordToMemtable, slotOf]
  cases rec.tombstone with
  | true => exact mem.toMap_delete rec.key coins
  | false => exact mem.toMap_put rec.key rec.value coins

theorem find_applyRecordToMemtable (mem : SkipList) (rec : Record) (coins : Nat → Bool)
    (key : Bytes) :
    (applyRecordToMemtable mem rec coins).find key =
      if rec.key = key then some (slotOf rec) else mem.find key := by
  rw [SkipList.find, toMap_applyRecordToMemtable, SortedMap.find_insert, SkipList.find]
  by_cases same : key = rec.key
  · rw [if_pos same, if_pos same.symm]
  · rw [if_neg same, if_neg (Ne.symm same)]

/-- Applying a batch: its last record of a key wins, other keys keep what they had. -/
theorem find_applyRecords (coins : Nat → Nat → Bool) (records : List Record) (i : Nat)
    (mem : SkipList) (key : Bytes) :
    (applyRecords coins i mem records).find key =
      ((lastRecord key records).map slotOf).or (mem.find key) := by
  induction records generalizing i mem with
  | nil => rfl
  | cons rec records ih =>
    rw [applyRecords, ih, find_applyRecordToMemtable]
    rw [← List.singleton_append, lastRecord_append, lastRecord_singleton]
    cases lastRecord key records with
    | some last => rfl
    | none =>
      by_cases same : rec.key = key
      · simp [same]
      · simp [same]

end PebbleDB.Db
