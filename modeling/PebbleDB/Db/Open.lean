import PebbleDB.Db.Batch
import PebbleDB.Manifest.Intact
import PebbleDB.Wal.Content

/-!
# Reopening a store

`Open` reads the live set from the manifest, opens a reader for every live table,
moves other tables out of the way, and replays `wal.log` into a new memtable, from the
offset that the flush checkpoint allows.
-/
namespace PebbleDB.Db

open Memtable (SkipList Slot)
open Wal (Record)

/-- The table files of a directory by id. -/
abbrev SstFiles := List (UInt64 × Bytes)

def SstFiles.write (ssts : SstFiles) (id : UInt64) (file : Bytes) : SstFiles :=
  (id, file) :: ssts.filter fun entry => entry.1 ≠ id

inductive OpenError where
  | manifest (e : Manifest.Error)
  | missingTable (id : UInt64)
  | sst (e : Sst.Error)
  | walState (e : WalStateError)
  | wal (e : Wal.Error)
  deriving DecidableEq, Repr

/-- The names with exactly eight digits, which `sstFilePattern` accepts. -/
def sstNamed (id : UInt64) : Bool := (sstFileDigits id).length = 8

theorem sstNamed_iff (id : UInt64) : sstNamed id = true ↔ id.toNat < 10 ^ 8 := by
  rw [sstNamed, decide_eq_true_eq, sstFileDigits_eight_iff]

def discoverSSTIDs (ssts : SstFiles) : List UInt64 :=
  ((ssts.map Prod.fst).filter sstNamed).insertionSort (· ≤ ·)

/-- The loop of `loadSSTables`; every reader gets an identity of its own. -/
def loadSSTables (ssts : SstFiles) : Nat → List UInt64 → Except OpenError (List Sst.Reader)
  | _, [] => .ok []
  | fileID, id :: ids =>
    match ssts.lookup id with
    -- a table that the manifest names has to be there
    | none => .error (.missingTable id)
    | some file => do
      let r ← (Sst.openReader (fileID + 1) id file).mapError .sst
      let readers ← loadSSTables ssts (fileID + 1) ids
      .ok (r :: readers)

/-- The highest id, from which new ids are counted. -/
def highestID (ids : List UInt64) : UInt64 := ids.foldl max 0

/-- What `removeOrphanSSTFiles` leaves: what is discovered and not live is moved to the
quarantine directory. -/
def removeOrphanSSTFiles (ssts : SstFiles) (live : Finset UInt64) : SstFiles :=
  ssts.filter fun entry => entry.1 ∈ live ∨ entry.1 ∉ discoverSSTIDs ssts

/-- What `Open` has before it turns to the log. -/
structure OpenedTables where
  manifest : Manifest.State
  readers : List Sst.Reader
  ssts : SstFiles

def openTables (dir : Manifest.Dir) (ssts : SstFiles) (fileID : Nat) :
    Except OpenError OpenedTables := do
  let (log, dir) ← (Manifest.openLog dir).mapError .manifest
  match Manifest.bootstrapIfEmpty ⟨log, dir⟩ (discoverSSTIDs ssts) .none with
  | (_, some e) => .error (.manifest e)
  | (manifest, none) => do
    let readers ← loadSSTables ssts fileID manifest.log.liveIDs
    .ok ⟨manifest, readers, removeOrphanSSTFiles ssts manifest.log.liveSet⟩

/-- The callback of the replay; the number of records so far selects the coin flips. -/
def replayInto (coins : Nat → Nat → Bool) (state : SkipList × Nat) (rec : Record) :
    SkipList × Nat :=
  (applyRecordToMemtable state.1 rec (coins state.2), state.2 + 1)

/-- The handle over the opened tables and the replayed log, with the options of `db`. -/
def openHandle (db : DB) (tables : OpenedTables) (replayed : Wal.Replay (SkipList × Nat)) : DB :=
  { db with
    closed := false
    walErr := false
    pendingBatch := []
    batchSizeBytes := 0
    active := replayed.state.1
    pendingFlush := []
    sstables := tables.readers
    wal := replayed.file
    manifest := tables.manifest
    nextSSTID := highestID tables.manifest.log.liveIDs
    nextFileID := db.nextFileID + tables.readers.length }

/-- `Open` with the options of an earlier handle on the files that one left. -/
def reopen (db : DB) (ssts : SstFiles) (coins : Nat → Nat → Bool) :
    Except OpenError (DB × SstFiles) := do
  let tables ← openTables db.manifest.dir ssts db.nextFileID
  -- what `wal.flush` says is in a table already is not replayed
  let replayStart ← (walReplayStartOffset tables.manifest.log.liveSet db.walFlush
    db.wal.length).mapError .walState
  let replayed := Wal.replayFromWithRecovery db.walLimits replayStart.toNat
    (Wal.total (replayInto coins)) (.new, 0) db.wal
  match replayed.err with
  | some e => .error (.wal e)
  | none => .ok (openHandle db tables replayed, tables.ssts)

/-! ### What it loads -/

/-- The readers are those of the ids, and get the next identities, one each. -/
theorem loadSSTables_ok (ssts : SstFiles) (fileID : Nat) (ids : List UInt64)
    (readers : List Sst.Reader) (loaded : loadSSTables ssts fileID ids = .ok readers) :
    readers.map Sst.Reader.id = ids ∧
      readers.map Sst.Reader.fileID = List.range' (fileID + 1) ids.length := by
  induction ids generalizing fileID readers with
  | nil =>
    cases loaded
    exact ⟨rfl, rfl⟩
  | cons id ids ih =>
    rw [loadSSTables] at loaded
    cases found : ssts.lookup id with
    | none =>
      rw [found] at loaded
      cases loaded
    | some file =>
      rw [found] at loaded
      obtain ⟨r, opened, rest⟩ := (Except.bind_eq_ok _ _ _).mp loaded
      obtain ⟨later, more, done⟩ := (Except.bind_eq_ok _ _ _).mp rest
      rw [Except.mapError_eq_ok] at opened
      cases done
      obtain ⟨itsFileID, itsID, -⟩ := Sst.openReader_ok _ _ _ r opened
      obtain ⟨laterIDs, laterFileIDs⟩ := ih _ later more
      rw [List.map_cons, laterIDs, itsID, List.map_cons, laterFileIDs, itsFileID, List.length_cons,
        List.range'_succ]
      exact ⟨rfl, rfl⟩

/-- The readers of a successful `Open` are those of the live ids, in ascending order, and its
table files are those it has not moved away. -/
theorem openTables_ok (dir : Manifest.Dir) (ssts : SstFiles) (fileID : Nat)
    (tables : OpenedTables) (opened : openTables dir ssts fileID = .ok tables) :
    tables.readers.map Sst.Reader.id = tables.manifest.log.liveIDs ∧
      tables.ssts = removeOrphanSSTFiles ssts tables.manifest.log.liveSet := by
  obtain ⟨⟨log, dir⟩, -, opened⟩ := (Except.bind_eq_ok _ _ _).mp opened
  simp only at opened
  split at opened
  · cases opened
  · obtain ⟨readers, loaded, done⟩ := (Except.bind_eq_ok _ _ _).mp opened
    cases done
    exact ⟨(loadSSTables_ok ssts fileID _ readers loaded).1, rfl⟩

/-! ### What it finds after a run without I/O errors -/

theorem replayInto_foldl (coins : Nat → Nat → Bool) (records : List Record) (mem : SkipList)
    (i : Nat) :
    records.foldl (replayInto coins) (mem, i) =
      (applyRecords coins i mem records, i + records.length) := by
  induction records generalizing mem i with
  | nil => rfl
  | cons rec records ih =>
    rw [List.foldl_cons, replayInto, ih, applyRecords, List.length_cons]
    congr 1
    omega

theorem le_highestID (ids : List UInt64) (id : UInt64) (member : id ∈ ids) :
    id ≤ highestID ids := by
  have bound : ∀ (ids : List UInt64) (start : UInt64),
      start ≤ ids.foldl max start ∧ ∀ id ∈ ids, id ≤ ids.foldl max start := by
    intro ids
    induction ids with
    | nil => intro start; simp
    | cons first ids ih =>
      intro start
      obtain ⟨beyond, all⟩ := ih (max start first)
      refine ⟨le_trans (le_max_left start first) beyond, ?_⟩
      intro id member
      rcases List.mem_cons.mp member with rfl | later
      · exact le_trans (le_max_right start id) beyond
      · exact all id later
  exact (bound ids 0).2 id member

theorem highestID_mem (ids : List UInt64) : highestID ids = 0 ∨ highestID ids ∈ ids := by
  have found : ∀ (ids : List UInt64) (start : UInt64),
      ids.foldl max start = start ∨ ids.foldl max start ∈ ids := by
    intro ids
    induction ids with
    | nil => exact fun _ => .inl rfl
    | cons first ids ih =>
      intro start
      rw [List.foldl_cons]
      rcases ih (max start first) with is | later
      · rw [is]
        rcases max_choice start first with old | new
        · exact .inl old
        · rw [new]
          exact .inr List.mem_cons_self
      · exact .inr (List.mem_cons_of_mem _ later)
  exact found ids 0

/-- An intact manifest and no stray tables: the live set and the files are as before. -/
theorem openTables_intact (s : Manifest.State) (ssts : SstFiles) (fileID : Nat)
    (tables : OpenedTables) (intact : Manifest.Intact s)
    (listed : ∀ entry ∈ ssts, entry.1 ∈ s.log.liveSet)
    (opened : openTables s.dir ssts fileID = .ok tables) :
    Manifest.Intact tables.manifest ∧ tables.manifest.log.liveSet = s.log.liveSet ∧
      tables.ssts = ssts := by
  obtain ⟨log, dir, ok, intact', live⟩ := intact.openLog s
  rw [openTables, ok] at opened
  -- an empty live set means an empty directory, so there is nothing to adopt
  have unchanged : Manifest.bootstrapIfEmpty ⟨log, dir⟩ (discoverSSTIDs ssts) .none =
      (⟨log, dir⟩, none) := by
    rw [Manifest.bootstrapIfEmpty, if_pos]
    by_cases none_ : log.liveSet = ∅
    · right
      have empty : ssts = [] := by
        rw [List.eq_nil_iff_forall_not_mem]
        intro entry member
        have inside := listed entry member
        rw [← live, none_] at inside
        exact Finset.notMem_empty _ inside
      rw [empty]
      rfl
    · exact .inl none_
  simp only [Except.mapError_ok, Except.ok_bind, unchanged] at opened
  obtain ⟨readers, _, done⟩ := (Except.bind_eq_ok _ _ _).mp opened
  cases done
  refine ⟨intact', live, ?_⟩
  rw [removeOrphanSSTFiles, List.filter_eq_self]
  intro entry member
  refine decide_eq_true (.inl ?_)
  rw [live]
  exact listed entry member

/-- Everything a successful `Open` went through. -/
theorem reopen_ok (db db' : DB) (ssts ssts' : SstFiles) (coins : Nat → Nat → Bool)
    (opened : reopen db ssts coins = .ok (db', ssts')) :
    ∃ tables start, openTables db.manifest.dir ssts db.nextFileID = .ok tables ∧
      walReplayStartOffset tables.manifest.log.liveSet db.walFlush db.wal.length = .ok start ∧
      (Wal.replayFromWithRecovery db.walLimits start.toNat (Wal.total (replayInto coins)) (.new, 0)
        db.wal).err = none ∧
      db' = openHandle db tables (Wal.replayFromWithRecovery db.walLimits start.toNat
        (Wal.total (replayInto coins)) (.new, 0) db.wal) ∧
      ssts' = tables.ssts := by
  obtain ⟨tables, loaded, opened⟩ := (Except.bind_eq_ok _ _ _).mp opened
  obtain ⟨start, offset, opened⟩ := (Except.bind_eq_ok _ _ _).mp opened
  rw [Except.mapError_eq_ok] at offset
  simp only at opened
  split at opened
  · cases opened
  next replayed =>
    cases opened
    exact ⟨tables, start, loaded, offset, replayed, rfl, rfl⟩

/-! ### Which part an error comes from -/

theorem loadSSTables_ne_wal (ssts : SstFiles) (fileID : Nat) (ids : List UInt64) (e : Wal.Error) :
    loadSSTables ssts fileID ids ≠ .error (.wal e) := by
  induction ids generalizing fileID with
  | nil => nofun
  | cons id ids ih =>
    intro failed
    rw [loadSSTables] at failed
    split at failed
    · cases failed
    · rcases (Except.bind_eq_error _ _ _).mp failed with first | ⟨r, -, failed⟩
      · obtain ⟨_, -, same⟩ := (Except.mapError_eq_error _ _ _).mp first
        cases same
      · rcases (Except.bind_eq_error _ _ _).mp failed with later | ⟨_, -, done⟩
        · exact ih (fileID + 1) later
        · cases done

theorem openTables_ne_wal (dir : Manifest.Dir) (ssts : SstFiles) (fileID : Nat) (e : Wal.Error) :
    openTables dir ssts fileID ≠ .error (.wal e) := by
  intro failed
  rcases (Except.bind_eq_error _ _ _).mp failed with first | ⟨⟨log, dir⟩, -, failed⟩
  · obtain ⟨_, -, same⟩ := (Except.mapError_eq_error _ _ _).mp first
    cases same
  · simp only at failed
    split at failed
    · cases failed
    · rcases (Except.bind_eq_error _ _ _).mp failed with loading | ⟨_, -, done⟩
      · exact loadSSTables_ne_wal _ _ _ e loading
      · cases done

/-- An error of the log is the one its replay returned. -/
theorem reopen_wal (db : DB) (ssts : SstFiles) (coins : Nat → Nat → Bool) (e : Wal.Error)
    (failed : reopen db ssts coins = .error (.wal e)) :
    ∃ start, (Wal.replayFromWithRecovery db.walLimits start (Wal.total (replayInto coins))
      (.new, 0) db.wal).err = some e := by
  rcases (Except.bind_eq_error _ _ _).mp failed with loading | ⟨tables, -, failed⟩
  · exact absurd loading (openTables_ne_wal _ _ _ e)
  · rcases (Except.bind_eq_error _ _ _).mp failed with offset | ⟨start, -, failed⟩
    · obtain ⟨_, -, same⟩ := (Except.mapError_eq_error _ _ _).mp offset
      cases same
    · simp only at failed
      split at failed
      next replayed =>
        cases failed
        exact ⟨start.toNat, replayed⟩
      · cases failed

end PebbleDB.Db
