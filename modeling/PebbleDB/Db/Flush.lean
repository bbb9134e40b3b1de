import PebbleDB.Db.Store
import PebbleDB.Db.WalState

/-!
# Flushing the oldest frozen memtable

`flushImmutable` writes the memtable at the head of the queue to a new table,
commits its id to the manifest and appends the reader to the live tables;
`drainPendingFlush` then pops the entry. A key of that memtable is from then on
answered by the table instead of the skip list, and the two paths must agree.
-/
namespace PebbleDB.Db

open Memtable (SkipList Slot)
open Wal (Record)

def defaultBlockSize : Int := 4096

inductive FlushError where
  | sst (e : Sst.Error)
  | manifest (e : Manifest.Error)
  deriving DecidableEq, Repr

/-- A frozen memtable remembers the size of the log at that moment. -/
def DB.freeze (db : DB) : DB :=
  { db with
    pendingFlush := db.pendingFlush ++ [⟨db.active, db.wal.length⟩]
    active := .new }

def DB.maybeFlushLocked (db : DB) : DB × Bool :=
  if db.active.size ≤ db.memtableSize then (db, false) else (db.freeze, true)

/-- The freeze of `Close` and of `ForceMemtableFlush`, which need no size but 1. -/
def DB.freezeActive (db : DB) : DB := if 0 < db.active.size then db.freeze else db

/-- Whether or not it freezes, it changes the memtables only. -/
theorem DB.maybeFlushLocked_eq (db : DB) :
    ∃ queue active, db.maybeFlushLocked.1 = { db with pendingFlush := queue, active := active } := by
  rw [DB.maybeFlushLocked]
  split
  · exact ⟨db.pendingFlush, db.active, rfl⟩
  · exact ⟨_, _, rfl⟩

/-- `wal.flush` is written, the log truncated, `wal.flush` removed. A failure is only
reported, and leaves `wal.flush` behind. -/
def completeWalAfterFlush (env : Env) (db : DB) (walCutoff : Nat) (sstID : UInt64) : DB :=
  let db := { db with walFlush := some (WalFlushState.encoded ⟨walCutoff, sstID⟩) }
  match Wal.truncateBefore db.wal walCutoff env.reads with
  | .error _ => db
  | .ok wal => { db with wal := wal, walFlush := none }

/-- `flushImmutable` up to the table on disk and its reader. -/
def writeMemtable (env : Env) (db : DB) (imm : SkipList) : Except FlushError Sst.Reader := do
  let file ← (Sst.writeTable env.sizing defaultBlockSize imm.len imm.entries).mapError .sst
  (Sst.openReader (db.nextFileID + 1) (db.nextSSTID + 1) file).mapError .sst

/-- The manifest commit of a new table, and its reader in the live tables. -/
def commitTable (db : DB) (r : Sst.Reader) : Except FlushError DB :=
  let id := db.nextSSTID + 1
  match Manifest.appendNewFile db.manifest id .none with
  | (_, some e) => .error (.manifest e)
  | (manifest, none) =>
    .ok { db with
      nextSSTID := id
      nextFileID := db.nextFileID + 1
      sstables := db.sstables ++ [r]
      -- a rotation that fails is only logged
      manifest := (Manifest.maybeCompact manifest .none).1 }

/-- `flushImmutable`, with every file operation succeeding. -/
def flushImmutable (env : Env) (db : DB) (imm : SkipList) (walCutoff : Nat) :
    Except FlushError DB := do
  let r ← writeMemtable env db imm
  let db ← commitTable db r
  .ok (completeWalAfterFlush env db walCutoff db.nextSSTID)

/-- One round of `drainPendingFlush`. -/
def drainPendingFlush (env : Env) (db : DB) : Except FlushError DB :=
  match db.pendingFlush with
  | [] => .ok db
  | entry :: _ => do
    let db ← flushImmutable env db entry.mem entry.walCutoff
    .ok { db with pendingFlush := db.pendingFlush.tail }

theorem completeWalAfterFlush_eq (env : Env) (db : DB) (walCutoff : Nat) (sstID : UInt64) :
    completeWalAfterFlush env db walCutoff sstID =
      { db with wal := db.wal.drop walCutoff, walFlush := none } := by
  rw [completeWalAfterFlush, Wal.truncateBefore_ok _ _ env.reads env.progress, Int.toNat_natCast]

theorem writeMemtable_ok (env : Env) (db : DB) (imm : SkipList) (r : Sst.Reader)
    (table : writeMemtable env db imm = .ok r) :
    ∃ file, Sst.writeTable env.sizing defaultBlockSize imm.len imm.entries = .ok file ∧
      Sst.openReader (db.nextFileID + 1) (db.nextSSTID + 1) file = .ok r := by
  obtain ⟨file, written, opened⟩ := (Except.bind_eq_ok _ _ _).mp table
  rw [Except.mapError_eq_ok] at written opened
  exact ⟨file, written, opened⟩

theorem commitTable_ok (db db' : DB) (r : Sst.Reader) (committed : commitTable db r = .ok db') :
    ∃ manifest, db' = { db with
      nextSSTID := db.nextSSTID + 1
      nextFileID := db.nextFileID + 1
      sstables := db.sstables ++ [r]
      manifest := manifest } := by
  simp only [commitTable] at committed
  split at committed
  · cases committed
  · cases committed
    exact ⟨_, rfl⟩

/-- Everything a completed flush does. -/
theorem drainPendingFlush_ok (env : Env) (db db' : DB) (entry : FlushQueueEntry)
    (rest : List FlushQueueEntry) (queue : db.pendingFlush = entry :: rest)
    (completed : drainPendingFlush env db = .ok db') :
    ∃ file r manifest,
      Sst.writeTable env.sizing defaultBlockSize entry.mem.len entry.mem.entries = .ok file ∧
      Sst.openReader (db.nextFileID + 1) (db.nextSSTID + 1) file = .ok r ∧
      db' = { db with
        nextSSTID := db.nextSSTID + 1
        nextFileID := db.nextFileID + 1
        sstables := db.sstables ++ [r]
        manifest := manifest
        wal := db.wal.drop entry.walCutoff
        walFlush := none
        pendingFlush := rest } := by
  rw [drainPendingFlush, queue] at completed
  obtain ⟨flushed, ok, popped⟩ := (Except.bind_eq_ok _ _ _).mp completed
  cases popped
  obtain ⟨r, table, more⟩ := (Except.bind_eq_ok _ _ _).mp ok
  obtain ⟨file, written, opened⟩ := writeMemtable_ok env db entry.mem r table
  obtain ⟨committed, commit, done⟩ := (Except.bind_eq_ok _ _ _).mp more
  obtain ⟨manifest, rfl⟩ := commitTable_ok db committed r commit
  cases done
  refine ⟨file, r, manifest, written, opened, ?_⟩
  rw [completeWalAfterFlush_eq]
  simp only [queue, List.tail_cons]

/-- What a completed flush does to the layers that `Get` reads. -/
theorem drainPendingFlush_layers (env : Env) (db db' : DB) (entry : FlushQueueEntry)
    (rest : List FlushQueueEntry) (queue : db.pendingFlush = entry :: rest)
    (sized : env.sizing.Fits (max entry.mem.len 1))
    (completed : drainPendingFlush env db = .ok db') :
    db'.closed = db.closed ∧ db'.pendingBatch = db.pendingBatch ∧ db'.active = db.active ∧
      db'.pendingFlush = rest ∧
      ∃ r, r.Holds entry.mem.entries ∧ db'.sstables = db.sstables ++ [r] := by
  obtain ⟨file, r, manifest, written, opened, rfl⟩ :=
    drainPendingFlush_ok env db db' entry rest queue completed
  obtain ⟨r', opened', holds, -⟩ := Sst.writeTable_ok _ _ _ _ file sized
    entry.mem.entries_ascending written (db.nextFileID + 1) (db.nextSSTID + 1)
  rw [opened] at opened'
  cases opened'
  exact ⟨rfl, rfl, rfl, rfl, r, holds, rfl⟩

/-- A newer layer of the memory knows the key. -/
def Shadowed (db : DB) (rest : List FlushQueueEntry) (key : Bytes) : Prop :=
  (∃ rec ∈ db.pendingBatch, rec.key = key) ∨ db.active.find key ≠ none ∨
    ∃ entry ∈ rest, entry.mem.find key ≠ none

/-- The layers above the memtable that is flushed. -/
def lookupNewer (db : DB) (rest : List FlushQueueEntry) (key : Bytes) : MemLookup :=
  (lookupPendingBatch db.pendingBatch key).orElse
    ((lookupMemtable db.active key).orElse (lookupPendingFlush rest key))

theorem shadowed_iff (db : DB) (rest : List FlushQueueEntry) (key : Bytes) :
    Shadowed db rest key ↔ (lookupNewer db rest key).2 ≠ .miss := by
  rw [lookupNewer, Ne, MemLookup.orElse_miss_iff, MemLookup.orElse_miss_iff,
    lookupPendingBatch_miss_iff, lookupMemtable_miss_iff, lookupPendingFlush_miss_iff, Shadowed]
  simp only [not_and_or, not_forall, not_not, exists_prop, ne_eq]

/-- The two paths for a key that only the flushed memtable and older layers can know. -/
theorem answer_flushed (mem : SkipList) (readers : List Sst.Reader) (r : Sst.Reader)
    (holds : r.Holds mem.entries) (key : Bytes) :
    answer (none, .miss) (lookupSSTReaders (readers ++ [r]) key) =
        answer (lookupMemtable mem key) (lookupSSTReaders readers key) ↔
      mem.find key ≠ some ⟨[], false⟩ := by
  rw [lookupSSTReaders_append readers r _ holds, mem.findEntry_entries, lookupMemtable_eq]
  cases mem.find key with
  | none => simp
  | some slot =>
    obtain ⟨value, tombstone⟩ := slot
    cases tombstone with
    | true => simp [answer, tableAnswer]
    | false =>
      -- the skip list reports a hit, the table a value that is nil when it is empty
      cases value with
      | nil => simp [answer, tableAnswer, cloneBytes]
      | cons b bs => simp [answer, tableAnswer, cloneBytes]

/-- A completed flush whose filter fits its 32-bit size field leaves the answer of `Get` as it
was if and only if the key is not one whose newest entry in memory is a live, empty value of
the flushed memtable. -/
theorem drainPendingFlush_get_iff (env : Env) (db db' : DB) (entry : FlushQueueEntry)
    (rest : List FlushQueueEntry) (queue : db.pendingFlush = entry :: rest)
    (sized : env.sizing.Fits (max entry.mem.len 1))
    (completed : drainPendingFlush env db = .ok db') (key : Bytes) :
    db'.get key = db.get key ↔
      db.closed = true ∨ Shadowed db rest key ∨ entry.mem.find key ≠ some ⟨[], false⟩ := by
  obtain ⟨closed, batch, active, popped, r, holds, tables⟩ :=
    drainPendingFlush_layers env db db' entry rest queue sized completed
  have before : db.lookupMemory key =
      (lookupNewer db rest key).orElse (lookupMemtable entry.mem key) := by
    rw [DB.lookupMemory, queue, lookupPendingFlush_cons, lookupNewer, MemLookup.orElse_assoc,
      MemLookup.orElse_assoc]
  have after : db'.lookupMemory key = lookupNewer db rest key := by
    rw [DB.lookupMemory, batch, active, popped, lookupNewer]
  rw [DB.get, DB.get, closed, before, after, tables, shadowed_iff]
  cases db.closed with
  | true => simp
  | false =>
    simp only [Bool.false_eq_true, if_false, false_or]
    cases found : lookupNewer db rest key with
    | mk val res =>
      cases res with
      | hit => simp [MemLookup.orElse, answer]
      | tombstone => simp [MemLookup.orElse, answer]
      | miss =>
        rw [MemLookup.miss_orElse]
        simp only [ne_eq, not_true_eq_false, false_or]
        rw [← ne_eq, ← answer_flushed entry.mem db.sstables r holds key]
        rfl

/-- An environment for runs on fixed inputs: filters of a few entries. -/
def smallEnv : Env := ⟨⟨fun n => 8 * n + 8, fun _ => 7⟩, fun _ => 1, fun _ => Nat.one_pos⟩

/-- A memtable with a live value and a tombstone, below one that deletes the former. -/
theorem drainPendingFlush_get_kept :
    let coins : Nat → Bool := fun h => h = 1
    let older := (SkipList.new.put [97] [1] coins).delete [98] coins
    let db := { emptyDB with
      pendingFlush := [⟨older, 0⟩, ⟨SkipList.new.delete [97] coins, 0⟩] }
    ∃ db', drainPendingFlush smallEnv db = .ok db' ∧ db'.get [97] = db.get [97] ∧
      db'.get [98] = db.get [98] := by
  intro coins older db
  have completes : (drainPendingFlush smallEnv db).toOption.isSome = true := by decide +kernel
  cases completed : drainPendingFlush smallEnv db with
  | error e =>
    rw [completed] at completes
    cases completes
  | ok db' =>
    have sized : smallEnv.sizing.Fits (max older.len 1) := ⟨by decide +kernel, by decide +kernel⟩
    have iff (key : Bytes) := drainPendingFlush_get_iff smallEnv db db' _ _ rfl sized completed key
    refine ⟨db', rfl, (iff [97]).mpr (.inr (.inr ?_)), (iff [98]).mpr (.inr (.inr ?_))⟩
    · decide +kernel
    · decide +kernel

/-- A live empty value: found before the flush, not found after it. -/
theorem not_drainPendingFlush_get_empty_value :
    let db := { emptyDB with
      pendingFlush := [⟨SkipList.new.put [97] [] fun _ => false, 0⟩] }
    db.get [97] = .ok none ∧
      ∃ db', drainPendingFlush smallEnv db = .ok db' ∧ db'.get [97] = .error .notFound := by
  intro db
  have after : (drainPendingFlush smallEnv db).toOption.map (fun db' => db'.get [97]) =
      some (.error .notFound) := by
    decide +kernel
  refine ⟨by decide +kernel, ?_⟩
  cases completed : drainPendingFlush smallEnv db with
  | error e =>
    rw [completed] at after
    cases after
  | ok db' =>
    rw [completed] at after
    exact ⟨db', rfl, Option.some.inj after⟩

end PebbleDB.Db
