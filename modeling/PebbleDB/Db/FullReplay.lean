import PebbleDB.Db.Flush
import PebbleDB.Db.Open

/-!
# Replaying more of the log than necessary

After a crash between the manifest commit of a flushed table and its checkpoint `Open`
replays the whole log, also the records that the table holds already. They come back in
the active memtable, above the table. For a key that the later records do not mention the
memtable then answers in place of the table, and the two must agree: they do unless the
record is a live empty value, which the table reports like a tombstone.
-/
namespace PebbleDB.Db

open Memtable (SkipList Slot)
open Wal (Record)

/-! ### What the newest layer says -/

/-- The outcomes that `Get` tells apart on its way through the layers. -/
inductive Resolution where
  | live (value : Slice)
  | tombstone
  | miss
  | failed (e : Sst.Error)
  deriving DecidableEq

/-- The memory decides unless it misses; a nil value from the tables is a tombstone. -/
def resolution (memory : MemLookup) (tables : Except Sst.Error (Slice × Bool)) : Resolution :=
  match memory with
  | (val, .hit) => .live val
  | (_, .tombstone) => .tombstone
  | (_, .miss) =>
    match tables with
    | .error e => .failed e
    | .ok (_, false) => .miss
    | .ok (none, true) => .tombstone
    | .ok (some v, true) => .live (some v)

def DB.resolve (db : DB) (key : Bytes) : Resolution :=
  resolution (db.lookupMemory key) (lookupSSTReaders db.sstables key)

/-- What `Get` returns for it. -/
def Resolution.returned : Resolution → Except GetError Slice
  | .live value => .ok value
  | .tombstone => .error .notFound
  | .miss => .error .notFound
  | .failed e => .error (.sst e)

theorem answer_eq_returned (memory : MemLookup) (tables : Except Sst.Error (Slice × Bool)) :
    answer memory tables = (resolution memory tables).returned := by
  obtain ⟨val, res⟩ := memory
  cases res with
  | hit => rfl
  | tombstone => rfl
  | miss =>
    match tables with
    | .error e => rfl
    | .ok (_, false) => rfl
    | .ok (none, true) => rfl
    | .ok (some v, true) => rfl

/-- A table in place of the memtable it was written from. -/
theorem resolution_flushed_iff (mem : SkipList) (older : List Sst.Reader) (r : Sst.Reader)
    (holds : r.Holds mem.entries) (key : Bytes) :
    resolution (lookupMemtable mem key) (lookupSSTReaders (older ++ [r]) key) =
        resolution (none, .miss) (lookupSSTReaders (older ++ [r]) key) ↔
      mem.find key ≠ some ⟨[], false⟩ := by
  rw [lookupSSTReaders_append older r _ holds, mem.findEntry_entries, lookupMemtable_eq]
  cases mem.find key with
  | none => simp
  | some slot =>
    obtain ⟨value, tombstone⟩ := slot
    cases tombstone with
    | true => simp [resolution, tableAnswer]
    | false =>
      -- an empty value leaves the table as nil
      cases value with
      | nil => simp [resolution, tableAnswer, cloneBytes]
      | cons b bs => simp [resolution, tableAnswer, cloneBytes]

/-! ### The two replays -/

/-- `Open` on a log of whole records, from the boundary behind the first ones: the rest
is in the active memtable and nothing else is in memory. -/
theorem reopen_replays (db db' : DB) (ssts ssts' : SstFiles) (coins : Nat → Nat → Bool)
    (front rest : List Record) (stores : Wal.Stores db.walLimits db.wal (front ++ rest))
    (defaults : db.walLimits.withDefaults = db.walLimits) (tables : OpenedTables)
    (loaded : openTables db.manifest.dir ssts db.nextFileID = .ok tables)
    (offset : walReplayStartOffset tables.manifest.log.liveSet db.walFlush db.wal.length =
      .ok (Wal.size front))
    (opened : reopen db ssts coins = .ok (db', ssts')) :
    db'.sstables = tables.readers ∧ db'.pendingBatch = [] ∧ db'.pendingFlush = [] ∧
      db'.active = applyRecords coins 0 .new rest := by
  obtain ⟨tables', start, loaded', returned, noError, rfl, -⟩ := reopen_ok _ _ _ _ _ opened
  rw [loaded] at loaded'
  cases loaded'
  rw [offset] at returned
  cases returned
  have fits := Wal.replay_fits _ _ _ _ _ noError
  rw [defaults] at fits
  have replayed := stores.replay front rest defaults fits (replayInto coins) (.new, 0)
  rw [replayInto_foldl] at replayed
  rw [Int.toNat_natCast, replayed]
  exact ⟨rfl, rfl, rfl, rfl⟩

/-- The answer then comes from the replayed records or the tables. -/
theorem resolve_replayed (db : DB) (coins : Nat → Nat → Bool) (records : List Record)
    (batch : db.pendingBatch = []) (queue : db.pendingFlush = [])
    (active : db.active = applyRecords coins 0 .new records) (key : Bytes) :
    db.resolve key = resolution (lookupMemtable (applyRecords coins 0 .new records) key)
      (lookupSSTReaders db.sstables key) := by
  have queueMiss : lookupPendingFlush [] key = (none, .miss) := rfl
  rw [DB.resolve, DB.lookupMemory, batch, queue, active, queueMiss]
  congr 1
  show (lookupMemtable _ key).orElse (none, .miss) = _
  by_cases known : (lookupMemtable (applyRecords coins 0 .new records) key).2 = .miss
  · rw [lookupMemtable_miss_iff] at known
    rw [lookupMemtable_eq, known]
    rfl
  · exact MemLookup.orElse_of_ne_miss _ _ known

/-- The directories whose `Open` replays only what follows the flushed records: the
checkpoint names the table, or the log is truncated and the checkpoint removed. -/
inductive ReplaysTail (db : DB) (flushed : List Record) (id : UInt64) : DB → Prop where
  | checkpointed : ReplaysTail db flushed id
      { db with walFlush := some (WalFlushState.encoded ⟨Wal.size flushed, id⟩) }
  | truncated : ReplaysTail db flushed id { db with wal := db.wal.drop (Wal.size flushed) }

/-- What the memtable of a replay says is told by the last record of the key. -/
theorem lookupMemtable_replayed (coins : Nat → Nat → Bool) (records : List Record) (key : Bytes) :
    lookupMemtable (applyRecords coins 0 .new records) key =
      match (lastRecord key records).map slotOf with
      | none => (none, .miss)
      | some slot =>
        if slot.tombstone then (none, .tombstone) else (cloneBytes slot.value, .hit) := by
  have looked := lookupMemtable_eq (applyRecords coins 0 .new records) key
  rw [find_applyRecords, SkipList.find_new, Option.or_none] at looked
  exact looked

section Crash

variable (env : Env) (db tail : DB) (ssts : SstFiles) (flushed later : List Record)
  (tables : OpenedTables) (older : List Sst.Reader) (r : Sst.Reader)

/-- Where the replay of the tail starts. -/
theorem ReplaysTail.opens (replays : ReplaysTail db flushed r.id tail)
    (stores : Wal.Stores db.walLimits db.wal (flushed ++ later))
    (defaults : db.walLimits.withDefaults = db.walLimits) (noCheckpoint : db.walFlush = none)
    (short : db.wal.length < 2 ^ 63)
    (loaded : openTables db.manifest.dir ssts db.nextFileID = .ok tables)
    (listed : r ∈ tables.readers) (coins : Nat → Nat → Bool) (opened : DB) (ssts' : SstFiles)
    (ok : reopen tail ssts coins = .ok (opened, ssts')) :
    opened.sstables = tables.readers ∧ opened.pendingBatch = [] ∧ opened.pendingFlush = [] ∧
      opened.active = applyRecords coins 0 .new later := by
  cases replays with
  | checkpointed =>
    have inside : Wal.size flushed ≤ db.wal.length := by
      rw [stores.length, Wal.size_append]
      omega
    have live : r.id ∈ tables.manifest.log.liveSet := by
      rw [← Manifest.Log.mem_liveIDs, ← (openTables_ok _ _ _ _ loaded).1]
      exact List.mem_map_of_mem listed
    refine reopen_replays
      { db with walFlush := some (WalFlushState.encoded ⟨Wal.size flushed, r.id⟩) } opened ssts ssts'
      coins flushed later stores defaults tables loaded ?_ ok
    rw [walReplayStartOffset, readWalFlushState_encoded _ (by simp only; omega)
      (by simp only; omega)]
    simp only [live, not_true_eq_false, if_false]
    rw [if_neg (by omega), if_neg (by omega)]
  | truncated =>
    refine reopen_replays { db with wal := db.wal.drop (Wal.size flushed) } opened ssts ssts' coins []
      later (stores.drop flushed later) defaults tables loaded ?_ ok
    rw [walReplayStartOffset, noCheckpoint]
    rfl

/-- Replaying the flushed records once more leaves what the layers say of the key if and
only if later records mention it or it was not flushed with a live empty value, where the
filter of their table fits its 32-bit size field. -/
theorem reopen_resolve_iff (flushCoins fullCoins tailCoins : Nat → Nat → Bool) (file : Bytes)
    (full opened : DB) (ssts₁ ssts₂ : SstFiles)
    (stores : Wal.Stores db.walLimits db.wal (flushed ++ later))
    (defaults : db.walLimits.withDefaults = db.walLimits) (noCheckpoint : db.walFlush = none)
    (short : db.wal.length < 2 ^ 63)
    (sized : env.sizing.Fits (max (applyRecords flushCoins 0 .new flushed).len 1))
    (written : Sst.writeTable env.sizing defaultBlockSize
      (applyRecords flushCoins 0 .new flushed).len
      (applyRecords flushCoins 0 .new flushed).entries = .ok file)
    (table : Sst.openReader r.fileID r.id file = .ok r)
    (loaded : openTables db.manifest.dir ssts db.nextFileID = .ok tables)
    (newest : tables.readers = older ++ [r]) (replays : ReplaysTail db flushed r.id tail)
    (fullOpen : reopen db ssts fullCoins = .ok (full, ssts₁))
    (tailOpen : reopen tail ssts tailCoins = .ok (opened, ssts₂)) (key : Bytes) :
    full.resolve key = opened.resolve key ↔
      lastRecord key later ≠ none ∨
        (lastRecord key flushed).map slotOf ≠ some ⟨[], false⟩ := by
  obtain ⟨_, same, holds, -⟩ := Sst.writeTable_ok _ _ _ _ file sized
    (SkipList.entries_ascending _) written r.fileID r.id
  rw [table] at same
  cases same
  -- the whole log in memory on one side, only the later records on the other
  obtain ⟨fullTables, fullBatch, fullQueue, fullActive⟩ := reopen_replays db full ssts ssts₁
    fullCoins [] (flushed ++ later) stores defaults tables loaded
    (by rw [walReplayStartOffset, noCheckpoint]; rfl) fullOpen
  obtain ⟨tailTables, tailBatch, tailQueue, tailActive⟩ := replays.opens db tail ssts flushed later
    tables r stores defaults noCheckpoint short loaded (by simp [newest]) tailCoins opened ssts₂
    tailOpen
  rw [resolve_replayed full fullCoins _ fullBatch fullQueue fullActive key,
    resolve_replayed opened tailCoins _ tailBatch tailQueue tailActive key, fullTables, tailTables,
    newest, lookupMemtable_replayed, lookupMemtable_replayed, lastRecord_append]
  cases last : lastRecord key later with
  | some rec => simp
  | none =>
    -- only the flushed records and older tables know the key
    have flushedMem := resolution_flushed_iff _ older r holds key
    rw [lookupMemtable_replayed, find_applyRecords, SkipList.find_new, Option.or_none] at flushedMem
    simpa using flushedMem

end Crash

/-! ### A crash behind the first flush -/

/-- The coin flips of a run in which no tower grows. -/
def noCoins : Nat → Nat → Bool := fun _ _ => false

/-- The table of the records as the newest of its directory, and its number is 1. -/
def flushedTable (flushed : List Record) : SstFiles :=
  let mem := applyRecords noCoins 0 .new flushed
  match Sst.writeTable smallEnv.sizing defaultBlockSize mem.len mem.entries with
  | .error _ => []
  | .ok file => [(1, file)]

/-- The manifest has the table, and no checkpoint was written. -/
def crashedFlush (flushed later : List Record) : DB :=
  { emptyDB with
    manifest := (Manifest.appendNewFile emptyDB.manifest 1 .none).1
    wal := (flushed ++ later).flatMap Record.encoded }

/-- The same with the checkpoint. -/
def checkpointedFlush (flushed later : List Record) : DB :=
  { crashedFlush flushed later with
    walFlush := some (WalFlushState.encoded ⟨Wal.size flushed, 1⟩) }

/-- The flushed records have a live value, and an empty one that is deleted later. -/
theorem reopen_resolve_deleted :
    let flushed : List Record := [⟨[97], [1], false⟩, ⟨[98], [], false⟩]
    let later : List Record := [⟨[98], [], true⟩]
    ∃ full opened, reopen (crashedFlush flushed later) (flushedTable flushed) noCoins = .ok full ∧
      reopen (checkpointedFlush flushed later) (flushedTable flushed) noCoins = .ok opened ∧
      full.1.resolve [97] = opened.1.resolve [97] ∧ full.1.resolve [98] = opened.1.resolve [98] := by
  intro flushed later
  have fullOpens : (reopen (crashedFlush flushed later) (flushedTable flushed) noCoins).isOk =
      true := by decide +kernel
  have tailOpens : (reopen (checkpointedFlush flushed later) (flushedTable flushed) noCoins).isOk =
      true := by decide +kernel
  cases fullOpen : reopen (crashedFlush flushed later) (flushedTable flushed) noCoins with
  | error e => simp [fullOpen, Except.isOk, Except.toBool] at fullOpens
  | ok full =>
    cases tailOpen : reopen (checkpointedFlush flushed later) (flushedTable flushed) noCoins with
    | error e => simp [tailOpen, Except.isOk, Except.toBool] at tailOpens
    | ok opened =>
      obtain ⟨tables, -, loaded, -⟩ := reopen_ok _ _ _ _ _ fullOpen
      -- the only table, written and opened
      let es : List Entry := [⟨[97], [1], false⟩, ⟨[98], [], false⟩]
      let filter := Sst.Writer.filterOf (.new 24 7) es
      have readers : (openTables (crashedFlush flushed later).manifest.dir (flushedTable flushed)
          0).toOption.map OpenedTables.readers = some [Sst.readerOf 1 1 [es] filter] := by
        decide +kernel
      rw [show openTables _ _ 0 = .ok tables from loaded] at readers
      have same (key : Bytes) := reopen_resolve_iff smallEnv (crashedFlush flushed later)
        (checkpointedFlush flushed later) (flushedTable flushed) flushed later tables []
        (Sst.readerOf 1 1 [es] filter) noCoins noCoins noCoins (Sst.tableFile [es] filter)
        full.1 opened.1 full.2 opened.2 ⟨rfl, by decide +kernel⟩ (by decide) rfl (by decide +kernel)
        ⟨by decide +kernel, by decide +kernel⟩ (by decide +kernel) (by decide +kernel) loaded
        (Option.some.inj readers) .checkpointed fullOpen tailOpen key
      exact ⟨full, opened, rfl, rfl, (same [97]).mpr (by decide), (same [98]).mpr (by decide)⟩

/-- A live empty value that was flushed. -/
theorem not_reopen_resolve_empty_value :
    let flushed : List Record := [⟨[97], [], false⟩]
    (reopen (crashedFlush flushed []) (flushedTable flushed) noCoins).map
        (fun opened => (opened.1.resolve [97], opened.1.get [97])) = .ok (.live none, .ok none) ∧
      (reopen (checkpointedFlush flushed []) (flushedTable flushed) noCoins).map
        (fun opened => (opened.1.resolve [97], opened.1.get [97])) =
          .ok (.tombstone, .error .notFound) := by
  decide +kernel

end PebbleDB.Db
