import PebbleDB.Db.Compaction
import PebbleDB.Lib.Machine
import PebbleDB.Manifest.Intact

/-!
# Flush and compaction at the same time

The flusher commits a table to the manifest and then adds its reader to the list of
live tables; the compactor computes a new list and its ids under the lock, replaces the
manifest's live set by these ids without it, and then, under the lock again, replaces
the list. Its checks in between only ask whether its inputs are still there. A run here
is any interleaving of these steps; it remembers every id that a flush committed and
which inputs were merged into which table.
-/
namespace PebbleDB.Db

open Memtable (SkipList Slot)
open Sst (Reader)

/-- Where the flusher stands inside `flushImmutable`. -/
inductive FlusherAt where
  | idle
  | written (r : Reader)
  | committed (r : Reader)
  | published

/-- Where the compactor stands inside `doCompaction`. -/
inductive CompactorAt where
  | idle
  | picked (compReaders : List Reader) (oldLiveIDs : List UInt64)
  | merged (compReaders : List Reader) (oldLiveIDs : List UInt64) (newReader : Reader)
  | built (compReaders : List Reader) (oldLiveIDs : List UInt64) (newReader : Reader)
      (newList : List Reader) (liveIDs : List UInt64)
  | manifested (compReaders : List Reader) (oldLiveIDs : List UInt64) (newReader : Reader)
      (newList : List Reader)
  | swapped
  | vanished (oldLiveIDs : List UInt64)

structure Workers where
  db : DB
  flusher : FlusherAt
  compactor : CompactorAt

inductive WorkerStep where
  | flushWrite (imm : SkipList)
  | flushCommit
  | flushPublish
  | flushRotate
  | pick
  | merge
  | build
  | setFileSet
  | swap
  | rollback
  | compactRotate

namespace Workers

/-! ### The flusher -/

/-- The table of the memtable and its reader; an id is spent even if this fails. -/
def flushWrite (env : Env) (w : Workers) (imm : SkipList) : Workers :=
  match w.flusher with
  | .idle =>
    match writeMemtable env w.db imm with
    | .error _ => { w with db.nextSSTID := w.db.nextSSTID + 1 }
    | .ok r =>
      { w with
        db.nextSSTID := w.db.nextSSTID + 1
        db.nextFileID := w.db.nextFileID + 1
        flusher := .written r }
  | _ => w

/-- `AppendNewFile`. -/
def flushCommit (w : Workers) : Workers :=
  match w.flusher with
  | .written r =>
    match Manifest.appendNewFile w.db.manifest r.id .none with
    | (manifest, some _) => { w with db.manifest := manifest, flusher := .idle }
    | (manifest, none) => { w with db.manifest := manifest, flusher := .committed r }
  | _ => w

/-- The append to `db.sstables` under `db.mu`. -/
def flushPublish (w : Workers) : Workers :=
  match w.flusher with
  | .committed r => { w with db.sstables := w.db.sstables ++ [r], flusher := .published }
  | _ => w

/-- `MaybeCompact` at the end of a flush. -/
def flushRotate (w : Workers) : Workers :=
  match w.flusher with
  | .published =>
    { w with db.manifest := (Manifest.maybeCompact w.db.manifest .none).1, flusher := .idle }
  | _ => w

/-! ### The compactor -/

/-- The first part of `doCompaction` under `db.mu`. -/
def pick (w : Workers) : Workers :=
  match w.compactor with
  | .idle =>
    let compReaders := pickSSTablesForCompactionLocked w.db
    if compReaders.length < 2 then w
    else
      match liveIDsFromReaders w.db.sstables with
      | .error _ => w
      | .ok oldLiveIDs =>
        if readersStillPresent w.db.sstables compReaders then
          { w with compactor := .picked compReaders oldLiveIDs }
        else w
  | _ => w

def merge (env : Env) (w : Workers) : Workers :=
  match w.compactor with
  | .picked compReaders oldLiveIDs =>
    match mergeSSTables env w.db compReaders with
    -- an id that was drawn is not used again
    | .error _ => { w with db.nextSSTID := w.db.nextSSTID + 1, compactor := .idle }
    | .ok none => { w with compactor := .idle }
    | .ok (some newReader) =>
      { w with
        db.nextSSTID := w.db.nextSSTID + 1
        db.nextFileID := w.db.nextFileID + 1
        compactor := .merged compReaders oldLiveIDs newReader }
  | _ => w

/-- The new list and its ids, under `db.mu`. -/
def build (w : Workers) : Workers :=
  match w.compactor with
  | .merged compReaders oldLiveIDs newReader =>
    if readersStillPresent w.db.sstables compReaders then
      let newList := buildNewList w.db.sstables compReaders newReader
      match liveIDsFromReaders newList with
      | .error _ => { w with compactor := .idle }
      | .ok liveIDs =>
        { w with compactor := .built compReaders oldLiveIDs newReader newList liveIDs }
    else { w with compactor := .idle }
  | _ => w

/-- `AppendSetFileSet`, after the lock was released. -/
def setFileSet (w : Workers) : Workers :=
  match w.compactor with
  | .built compReaders oldLiveIDs newReader newList liveIDs =>
    match Manifest.appendSetFileSet w.db.manifest liveIDs .none with
    | (manifest, some _) => { w with db.manifest := manifest, compactor := .idle }
    | (manifest, none) =>
      { w with
        db.manifest := manifest
        compactor := .manifested compReaders oldLiveIDs newReader newList }
  | _ => w

/-- The list is replaced under `db.mu`, unless an input has vanished. -/
def swap (w : Workers) : Workers :=
  match w.compactor with
  | .manifested compReaders oldLiveIDs _ newList =>
    if readersStillPresent w.db.sstables compReaders then
      { w with db.sstables := newList, compactor := .swapped }
    -- the manifest has the new set already
    else { w with compactor := .vanished oldLiveIDs }
  | _ => w

def rollback (w : Workers) : Workers :=
  match w.compactor with
  | .vanished oldLiveIDs =>
    { w with
      db.manifest := (Manifest.appendSetFileSet w.db.manifest oldLiveIDs .none).1
      compactor := .idle }
  | _ => w

/-- `MaybeCompact` at the end of a compaction. -/
def compactRotate (w : Workers) : Workers :=
  match w.compactor with
  | .swapped =>
    { w with db.manifest := (Manifest.maybeCompact w.db.manifest .none).1, compactor := .idle }
  | _ => w

/-- One step without I/O errors. -/
def step (env : Env) (w : Workers) : WorkerStep → Workers
  | .flushWrite imm => w.flushWrite env imm
  | .flushCommit => w.flushCommit
  | .flushPublish => w.flushPublish
  | .flushRotate => w.flushRotate
  | .pick => w.pick
  | .merge => w.merge env
  | .build => w.build
  | .setFileSet => w.setFileSet
  | .swap => w.swap
  | .rollback => w.rollback
  | .compactRotate => w.compactRotate

end Workers

/-- A run with its history: the ids committed by flushes, and for every finished
compaction its inputs with its output. -/
structure WorkerRun where
  sys : Workers
  committed : List UInt64
  merged : List (UInt64 × UInt64)

namespace WorkerRun

/-- `AppendNewFile` may have been executed. -/
def afterCommit (r : WorkerRun) (sys : Workers) : WorkerRun :=
  match r.sys.flusher, sys.flusher with
  | .written _, .committed t => { r with sys := sys, committed := r.committed ++ [t.id] }
  | _, _ => { r with sys := sys }

/-- The list may have been replaced. -/
def afterSwap (r : WorkerRun) (sys : Workers) : WorkerRun :=
  match r.sys.compactor, sys.compactor with
  | .manifested compReaders _ newReader _, .swapped =>
    { r with
      sys := sys
      merged := r.merged ++ compReaders.map fun c => (c.id, newReader.id) }
  | _, _ => { r with sys := sys }

def step (env : Env) (r : WorkerRun) (i : WorkerStep) : WorkerRun :=
  let sys := r.sys.step env i
  match i with
  | .flushCommit => r.afterCommit sys
  | .swap => r.afterSwap sys
  | _ => { r with sys := sys }

/-- The id is in the live set of the manifest and in the list of live tables. -/
def InBoth (r : WorkerRun) (id : UInt64) : Prop :=
  id ∈ r.sys.db.manifest.log.liveSet ∧ id ∈ r.sys.db.sstables.map Reader.id

/-- The id is `id'`, or was merged into it in one or more rounds. -/
def MergedInto (r : WorkerRun) : UInt64 → UInt64 → Prop :=
  Relation.ReflTransGen fun input output => (input, output) ∈ r.merged

/-- While no operation is in progress, manifest and list agree, and every committed id is
in both, or was merged, possibly in several rounds, into one that is. -/
def NoneLost (r : WorkerRun) : Prop :=
  r.sys.flusher = .idle → r.sys.compactor = .idle →
    r.sys.db.manifest.log.liveSet = (r.sys.db.sstables.map Reader.id).toFinset ∧
      ∀ id ∈ r.committed, ∃ id', r.MergedInto id id' ∧ r.InBoth id'

/-- Both workers idle, manifest and list in agreement, and no reader open twice. -/
structure Opened (r : WorkerRun) : Prop where
  flusher : r.sys.flusher = .idle
  compactor : r.sys.compactor = .idle
  isOpen : r.sys.db.manifest.log.fileOpen = true
  live : r.sys.db.manifest.log.liveSet = (r.sys.db.sstables.map Reader.id).toFinset
  distinct : (r.sys.db.sstables.map Reader.fileID).Nodup
  below : ∀ t ∈ r.sys.db.sstables, t.fileID ≤ r.sys.db.nextFileID
  committed : ∀ id ∈ r.committed, id ∈ r.sys.db.sstables.map Reader.id

/-- The compactor builds its list while no committed table waits to be added to the old
one. Until its ids are in the manifest nothing else is committed, and until the list is
replaced nothing is added to it. -/
def Safe (r : WorkerRun) : WorkerStep → Prop
  | .build =>
    match r.sys.flusher with
    | .committed _ => False
    | _ => True
  | .flushCommit =>
    match r.sys.compactor with
    | .built _ _ _ _ _ => False
    | _ => True
  | .flushPublish =>
    match r.sys.compactor with
    | .built _ _ _ _ _ => False
    | .manifested _ _ _ _ => False
    | _ => True
  | _ => True

instance (r : WorkerRun) : (i : WorkerStep) → Decidable (r.Safe i)
  | .build =>
    match h : r.sys.flusher with
    | .committed _ => .isFalse (by rw [Safe, h]; exact not_false)
    | .idle | .written _ | .published => .isTrue (by rw [Safe, h]; trivial)
  | .flushCommit =>
    match h : r.sys.compactor with
    | .built _ _ _ _ _ => .isFalse (by rw [Safe, h]; exact not_false)
    | .idle | .picked _ _ | .merged _ _ _ | .manifested _ _ _ _ | .swapped | .vanished _ =>
      .isTrue (by rw [Safe, h]; trivial)
  | .flushPublish =>
    match h : r.sys.compactor with
    | .built _ _ _ _ _ | .manifested _ _ _ _ => .isFalse (by rw [Safe, h]; exact not_false)
    | .idle | .picked _ _ | .merged _ _ _ | .swapped | .vanished _ =>
      .isTrue (by rw [Safe, h]; trivial)
  | .flushWrite _ | .flushRotate | .pick | .merge | .setFileSet | .swap | .rollback
  | .compactRotate => .isTrue trivial

end WorkerRun

/-! ### What the two know of each other -/

/-- The ids of a list of tables. -/
def idSet (readers : List Reader) : Finset UInt64 := (readers.map Reader.id).toFinset

theorem idSet_concat (readers : List Reader) (t : Reader) :
    idSet (readers ++ [t]) = insert t.id (idSet readers) := by
  ext id
  simp [idSet]

/-- The table that is in the manifest, but not in the list yet. -/
def FlusherAt.waiting : FlusherAt → List Reader
  | .committed t => [t]
  | _ => []

/-- The flusher's reader outside the list. -/
def FlusherAt.readers : FlusherAt → List Reader
  | .written t | .committed t => [t]
  | _ => []

/-- The compactor's reader outside the list. -/
def CompactorAt.readers : CompactorAt → List Reader
  | .merged _ _ newReader => [newReader]
  | .built _ _ newReader _ _ => [newReader]
  | .manifested _ _ newReader _ => [newReader]
  | _ => []

/-- What the manifest holds at each point of a compaction, given the list and the table
that waits to be added to it. -/
def CompactorAt.Agrees (sstables waiting : List Reader) (live : Finset UInt64) :
    CompactorAt → Prop
  | .idle | .swapped => live = idSet (sstables ++ waiting)
  | .picked compReaders _ | .merged compReaders _ _ =>
    compReaders ⊆ sstables ∧ live = idSet (sstables ++ waiting)
  | .built compReaders _ newReader newList liveIDs =>
    compReaders ⊆ sstables ∧ newList = buildNewList sstables compReaders newReader ∧
      liveIDs = newList.map Reader.id ∧ waiting = [] ∧ live = idSet sstables
  | .manifested compReaders _ newReader newList =>
    compReaders ⊆ sstables ∧ newList = buildNewList sstables compReaders newReader ∧
      live = idSet (newList ++ waiting)
  | .vanished _ => False

namespace WorkerRun

/-- Every open reader. -/
def readers (r : WorkerRun) : List Reader :=
  r.sys.db.sstables ++ r.sys.flusher.readers ++ r.sys.compactor.readers

structure Consistent (r : WorkerRun) : Prop where
  isOpen : r.sys.db.manifest.log.fileOpen = true
  unique : ∀ s ∈ r.readers, ∀ t ∈ r.readers, s.fileID = t.fileID → s = t
  below : ∀ t ∈ r.readers, t.fileID ≤ r.sys.db.nextFileID
  agrees : r.sys.compactor.Agrees r.sys.db.sstables r.sys.flusher.waiting
    r.sys.db.manifest.log.liveSet
  reached : ∀ id ∈ r.committed, ∃ t ∈ r.sys.db.sstables ++ r.sys.flusher.waiting,
    r.MergedInto id t.id

theorem Opened.consistent (r : WorkerRun) (opened : r.Opened) : r.Consistent := by
  have readers : r.readers = r.sys.db.sstables := by
    rw [WorkerRun.readers, opened.flusher, opened.compactor]
    simp [FlusherAt.readers, CompactorAt.readers]
  refine ⟨opened.isOpen, ?_, ?_, ?_, ?_⟩
  · rw [readers]
    intro s one t other same
    exact List.inj_on_of_nodup_map opened.distinct one other same
  · rw [readers]
    exact opened.below
  · rw [opened.compactor, opened.flusher]
    simpa [CompactorAt.Agrees, FlusherAt.waiting, idSet] using opened.live
  · intro id member
    obtain ⟨t, inList, rfl⟩ := List.mem_map.mp (opened.committed id member)
    exact ⟨t, List.mem_append_left _ inList, .refl⟩

/-- With both workers idle the manifest lists the ids of the readers, and every committed table
is one of them or was merged into one. -/
theorem Consistent.noneLost (r : WorkerRun) (inv : r.Consistent) : r.NoneLost := by
  intro flusher compactor
  have agrees := inv.agrees
  have reached := inv.reached
  rw [flusher] at agrees reached
  rw [compactor] at agrees
  simp only [CompactorAt.Agrees, FlusherAt.waiting, List.append_nil] at agrees reached
  refine ⟨agrees, ?_⟩
  intro id member
  obtain ⟨t, inList, into⟩ := reached id member
  have listed : t.id ∈ r.sys.db.sstables.map Reader.id := List.mem_map_of_mem inList
  refine ⟨t.id, into, ?_, listed⟩
  rw [agrees, idSet]
  exact List.mem_toFinset.mpr listed

/-! ### What every step keeps -/

/-- A step that opens no reader. -/
theorem Consistent.no_reader {r r' : WorkerRun} (inv : r.Consistent)
    (isOpen : r'.sys.db.manifest.log.fileOpen = true) (fewer : r'.readers ⊆ r.readers)
    (next : r.sys.db.nextFileID ≤ r'.sys.db.nextFileID)
    (agrees : r'.sys.compactor.Agrees r'.sys.db.sstables r'.sys.flusher.waiting
      r'.sys.db.manifest.log.liveSet)
    (reached : ∀ id ∈ r'.committed, ∃ t ∈ r'.sys.db.sstables ++ r'.sys.flusher.waiting,
      r'.MergedInto id t.id) : r'.Consistent where
  isOpen := isOpen
  unique s one t other same := inv.unique s (fewer one) t (fewer other) same
  below t member := le_trans (inv.below t (fewer member)) next
  agrees := agrees
  reached := reached

theorem readers_flusher {r : WorkerRun} {f : FlusherAt} (at_ : r.sys.flusher = f) :
    r.readers = r.sys.db.sstables ++ f.readers ++ r.sys.compactor.readers := by
  rw [readers, at_]

theorem readers_compactor {r : WorkerRun} {c : CompactorAt} (at_ : r.sys.compactor = c) :
    r.readers = r.sys.db.sstables ++ r.sys.flusher.readers ++ c.readers := by
  rw [readers, at_]

/-- A step that opens one reader, with an identity of its own. -/
theorem Consistent.new_reader {r r' : WorkerRun} (inv : r.Consistent) (opened : Reader)
    (isOpen : r'.sys.db.manifest.log.fileOpen = true) (more : r'.readers ⊆ opened :: r.readers)
    (fresh : opened.fileID = r.sys.db.nextFileID + 1)
    (next : r'.sys.db.nextFileID = r.sys.db.nextFileID + 1)
    (agrees : r'.sys.compactor.Agrees r'.sys.db.sstables r'.sys.flusher.waiting
      r'.sys.db.manifest.log.liveSet)
    (reached : ∀ id ∈ r'.committed, ∃ t ∈ r'.sys.db.sstables ++ r'.sys.flusher.waiting,
      r'.MergedInto id t.id) : r'.Consistent := by
  refine ⟨isOpen, ?_, ?_, agrees, reached⟩
  · intro s one t other same
    rcases List.mem_cons.mp (more one) with rfl | old
    · rcases List.mem_cons.mp (more other) with rfl | old'
      · rfl
      · have := inv.below t old'
        omega
    · rcases List.mem_cons.mp (more other) with rfl | old'
      · have := inv.below s old
        omega
      · exact inv.unique s old t old' same
  · intro t member
    rcases List.mem_cons.mp (more member) with rfl | old
    · omega
    · have := inv.below t old
      omega

section Flusher

variable {r : WorkerRun}

theorem flushWrite_consistent (env : Env) (inv : r.Consistent) (imm : SkipList) :
    ({ r with sys := r.sys.flushWrite env imm } : WorkerRun).Consistent := by
  simp only [Workers.flushWrite]
  cases at_ : r.sys.flusher with
  | idle =>
    have agrees := inv.agrees
    have reached := inv.reached
    have readers := readers_flusher at_
    rw [at_] at agrees reached
    cases table : writeMemtable env r.sys.db imm with
    | error e =>
      exact inv.no_reader inv.isOpen (by rw [readers]; exact List.Subset.refl _) (le_refl _)
        agrees reached
    | ok t =>
      obtain ⟨file, _, opened⟩ := writeMemtable_ok env _ _ t table
      refine inv.new_reader t inv.isOpen ?_ (Sst.openReader_ok _ _ _ t opened).1 rfl agrees reached
      rw [readers]
      intro x member
      simpa [WorkerRun.readers, FlusherAt.readers, or_left_comm, or_assoc] using member
  | written t | committed t | published => exact inv

/-- The table waits from now on, also for a compaction whose ids are in the manifest. -/
theorem agrees_commit {sstables : List Reader} {live : Finset UInt64} (c : CompactorAt)
    (t : Reader) (agrees : c.Agrees sstables [] live)
    (notBuilt : ∀ comp old new list ids, c ≠ .built comp old new list ids) :
    c.Agrees sstables [t] (insert t.id live) := by
  cases c with
  | idle | swapped =>
    simp only [CompactorAt.Agrees, List.append_nil] at agrees ⊢
    rw [agrees, idSet_concat]
  | picked comp old | merged comp old new =>
    simp only [CompactorAt.Agrees, List.append_nil] at agrees ⊢
    exact ⟨agrees.1, by rw [agrees.2, idSet_concat]⟩
  | built comp old new list ids => exact absurd rfl (notBuilt comp old new list ids)
  | manifested comp old new list =>
    simp only [CompactorAt.Agrees, List.append_nil] at agrees ⊢
    exact ⟨agrees.1, agrees.2.1, by rw [agrees.2.2, idSet_concat]⟩
  | vanished old => exact agrees

theorem flushCommit_consistent (inv : r.Consistent) (safe : r.Safe .flushCommit) :
    (r.afterCommit r.sys.flushCommit).Consistent := by
  simp only [Workers.flushCommit, afterCommit]
  cases at_ : r.sys.flusher with
  | written t =>
    have agrees := inv.agrees
    have reached := inv.reached
    have readers := readers_flusher at_
    rw [at_] at agrees reached
    simp only [Manifest.appendNewFile, Manifest.append_none _ _ inv.isOpen]
    have notBuilt : ∀ comp old new list ids,
        r.sys.compactor ≠ .built comp old new list ids := by
      intro comp old new list ids built
      rw [Safe, built] at safe
      exact safe
    refine inv.no_reader rfl (by rw [readers]; exact List.Subset.refl _) (le_refl _)
      (agrees_commit r.sys.compactor t agrees notBuilt) ?_
    intro id member
    rcases List.mem_append.mp member with old | new
    · obtain ⟨x, inList, into⟩ := reached id old
      refine ⟨x, List.mem_append_left _ ?_, into⟩
      simpa [FlusherAt.waiting] using inList
    · rw [List.mem_singleton.mp new]
      exact ⟨t, by simp [FlusherAt.waiting], .refl⟩
  | idle | committed t | published => exact inv

/-- The waiting table joins the list, which no compaction has copied yet. -/
theorem agrees_publish {sstables : List Reader} {live : Finset UInt64} (c : CompactorAt)
    (t : Reader) (agrees : c.Agrees sstables [t] live)
    (notBuilt : ∀ comp old new list ids, c ≠ .built comp old new list ids)
    (notManifested : ∀ comp old new list, c ≠ .manifested comp old new list) :
    c.Agrees (sstables ++ [t]) [] live := by
  cases c with
  | idle | swapped =>
    simp only [CompactorAt.Agrees, List.append_nil] at agrees ⊢
    exact agrees
  | picked comp old | merged comp old new =>
    simp only [CompactorAt.Agrees, List.append_nil] at agrees ⊢
    exact ⟨List.Subset.trans agrees.1 (List.subset_append_left _ _), agrees.2⟩
  | built comp old new list ids => exact absurd rfl (notBuilt comp old new list ids)
  | manifested comp old new list => exact absurd rfl (notManifested comp old new list)
  | vanished old => exact agrees

theorem flushPublish_consistent (inv : r.Consistent) (safe : r.Safe .flushPublish) :
    ({ r with sys := r.sys.flushPublish } : WorkerRun).Consistent := by
  simp only [Workers.flushPublish]
  cases at_ : r.sys.flusher with
  | committed t =>
    have agrees := inv.agrees
    have reached := inv.reached
    have readers := readers_flusher at_
    rw [at_] at agrees reached
    refine inv.no_reader inv.isOpen ?_ (le_refl _) (agrees_publish _ t agrees ?_ ?_) ?_
    · rw [readers]
      simp [WorkerRun.readers, FlusherAt.readers]
    · intro comp old new list ids built
      rw [Safe, built] at safe
      exact safe
    · intro comp old new list manifested
      rw [Safe, manifested] at safe
      exact safe
    · intro id member
      obtain ⟨x, inList, into⟩ := reached id member
      exact ⟨x, by simpa [FlusherAt.waiting] using inList, into⟩
  | idle | written t | published => exact inv

theorem flushRotate_consistent (inv : r.Consistent) :
    ({ r with sys := r.sys.flushRotate } : WorkerRun).Consistent := by
  simp only [Workers.flushRotate]
  cases at_ : r.sys.flusher with
  | published =>
    have agrees := inv.agrees
    have reached := inv.reached
    have readers := readers_flusher at_
    obtain ⟨isOpen, live⟩ := Manifest.maybeCompact_none r.sys.db.manifest inv.isOpen
    rw [at_, ← live] at agrees
    rw [at_] at reached
    exact inv.no_reader isOpen (by rw [readers]; exact List.Subset.refl _) (le_refl _)
      agrees reached
  | idle | written t | committed t => exact inv

end Flusher

section Compactor

variable {r : WorkerRun}

theorem pick_consistent (inv : r.Consistent) :
    ({ r with sys := r.sys.pick } : WorkerRun).Consistent := by
  simp only [Workers.pick]
  cases at_ : r.sys.compactor with
  | idle =>
    have agrees := inv.agrees
    have readers := readers_compactor at_
    rw [at_] at agrees
    simp only
    split
    · exact inv
    · split
      · exact inv
      · split
        · exact inv.no_reader inv.isOpen (by rw [readers]; exact List.Subset.refl _) (le_refl _)
            ⟨pick_subset r.sys.db, agrees⟩ inv.reached
        · exact inv
  | picked | merged | built | manifested | swapped | vanished => exact inv

theorem merge_consistent (env : Env) (inv : r.Consistent) :
    ({ r with sys := r.sys.merge env } : WorkerRun).Consistent := by
  simp only [Workers.merge]
  cases at_ : r.sys.compactor with
  | picked comp old =>
    have agrees := inv.agrees
    have readers := readers_compactor at_
    rw [at_] at agrees
    cases result : mergeSSTables env r.sys.db comp with
    | error e =>
      simp only [result]
      exact inv.no_reader inv.isOpen (by rw [readers]; exact List.Subset.refl _) (le_refl _)
        agrees.2 inv.reached
    | ok table =>
      simp only [result]
      cases table with
      | none =>
        exact inv.no_reader inv.isOpen (by rw [readers]; exact List.Subset.refl _) (le_refl _)
          agrees.2 inv.reached
      | some newReader =>
        refine inv.new_reader newReader inv.isOpen ?_
          (mergeSSTables_ok env _ _ newReader result).1 rfl agrees inv.reached
        rw [readers]
        intro x member
        simpa [WorkerRun.readers, CompactorAt.readers, or_comm, or_left_comm, or_assoc] using member
  | idle | merged | built | manifested | swapped | vanished => exact inv

theorem build_consistent (inv : r.Consistent) (safe : r.Safe .build) :
    ({ r with sys := r.sys.build } : WorkerRun).Consistent := by
  simp only [Workers.build]
  cases at_ : r.sys.compactor with
  | merged comp old newReader =>
    have agrees := inv.agrees
    have readers := readers_compactor at_
    rw [at_] at agrees
    obtain ⟨inside, live⟩ := agrees
    simp only [readersStillPresent_of_subset _ _ inside, if_true]
    cases named : liveIDsFromReaders (buildNewList r.sys.db.sstables comp newReader) with
    | error e =>
      refine inv.no_reader inv.isOpen ?_ (le_refl _) live inv.reached
      rw [readers]
      simp [WorkerRun.readers, CompactorAt.readers]
    | ok liveIDs =>
      have none_ : r.sys.flusher.waiting = [] := by
        cases flusher : r.sys.flusher with
        | committed t =>
          rw [Safe, flusher] at safe
          exact safe.elim
        | idle | written | published => rfl
      rw [none_, List.append_nil] at live
      exact inv.no_reader inv.isOpen (by rw [readers]; exact List.Subset.refl _) (le_refl _)
        ⟨inside, rfl, liveIDsFromReaders_ok _ _ named, none_, live⟩ inv.reached
  | idle | picked | built | manifested | swapped | vanished => exact inv

theorem setFileSet_consistent (inv : r.Consistent) :
    ({ r with sys := r.sys.setFileSet } : WorkerRun).Consistent := by
  simp only [Workers.setFileSet]
  cases at_ : r.sys.compactor with
  | built comp old newReader newList liveIDs =>
    have agrees := inv.agrees
    have readers := readers_compactor at_
    rw [at_] at agrees
    obtain ⟨inside, list, ids, none_, _⟩ := agrees
    simp only [Manifest.appendSetFileSet, Manifest.append_none _ _ inv.isOpen]
    refine inv.no_reader rfl (by rw [readers]; exact List.Subset.refl _) (le_refl _)
      ⟨inside, list, ?_⟩ inv.reached
    rw [none_, List.append_nil, idSet, ← ids]
    exact List.toFinset_eq_of_perm _ _ (List.perm_insertionSort _ liveIDs)
  | idle | picked | merged | manifested | swapped | vanished => exact inv

theorem mem_buildNewList (sstables compReaders : List Reader) (newReader t : Reader) :
    t ∈ buildNewList sstables compReaders newReader ↔
      t ∈ sstables ∧ (∀ c ∈ compReaders, c.fileID ≠ t.fileID) ∨ t = newReader := by
  simp [buildNewList]

/-- The inputs leave the list, and all they stood for is in the merged table. -/
theorem swap_consistent (inv : r.Consistent) : (r.afterSwap r.sys.swap).Consistent := by
  simp only [Workers.swap, afterSwap]
  cases at_ : r.sys.compactor with
  | manifested comp old newReader newList =>
    have agrees := inv.agrees
    have readers := readers_compactor at_
    rw [at_] at agrees
    obtain ⟨inside, rfl, live⟩ := agrees
    simp only [readersStillPresent_of_subset _ _ inside, if_true]
    refine inv.no_reader inv.isOpen ?_ (le_refl _) live ?_
    · rw [readers]
      intro t member
      simp only [WorkerRun.readers, CompactorAt.readers, List.append_nil, List.mem_append,
        mem_buildNewList] at member
      simp only [CompactorAt.readers, List.mem_append, List.mem_singleton]
      rcases member with (⟨kept, _⟩ | merged) | flushed
      · exact .inl (.inl kept)
      · exact .inr merged
      · exact .inl (.inr flushed)
    · intro id member
      obtain ⟨t, known, into⟩ := inv.reached id member
      -- the earlier merges are still there
      have into : Relation.ReflTransGen (fun input output => (input, output) ∈
          r.merged ++ comp.map fun c => (c.id, newReader.id)) id t.id :=
        Relation.ReflTransGen.mono (fun _ _ edge => List.mem_append_left _ edge) _ _ into
      rcases List.mem_append.mp known with listed | waiting
      · by_cases dropped : ∃ c ∈ comp, c.fileID = t.fileID
        · obtain ⟨c, input, same⟩ := dropped
          have here : ∀ x ∈ r.sys.db.sstables, x ∈ r.readers := by
            intro x member
            rw [readers]
            exact List.mem_append_left _ (List.mem_append_left _ member)
          obtain rfl := inv.unique c (here c (inside input)) t (here t listed) same
          refine ⟨newReader, List.mem_append_left _ ?_, into.tail ?_⟩
          · exact (mem_buildNewList _ _ _ _).mpr (.inr rfl)
          · exact List.mem_append_right _ (List.mem_map_of_mem input)
        · refine ⟨t, List.mem_append_left _ ?_, into⟩
          refine (mem_buildNewList _ _ _ _).mpr (.inl ⟨listed, ?_⟩)
          intro c input same
          exact dropped ⟨c, input, same⟩
      · exact ⟨t, List.mem_append_right _ waiting, into⟩
  | idle | picked | merged | built | swapped | vanished => exact inv

theorem rollback_consistent (inv : r.Consistent) :
    ({ r with sys := r.sys.rollback } : WorkerRun).Consistent := by
  simp only [Workers.rollback]
  cases at_ : r.sys.compactor with
  | vanished old =>
    -- only the compactor removes tables from the list
    have agrees := inv.agrees
    rw [at_] at agrees
    exact agrees.elim
  | idle | picked | merged | built | manifested | swapped => exact inv

theorem compactRotate_consistent (inv : r.Consistent) :
    ({ r with sys := r.sys.compactRotate } : WorkerRun).Consistent := by
  simp only [Workers.compactRotate]
  cases at_ : r.sys.compactor with
  | swapped =>
    have agrees := inv.agrees
    have readers := readers_compactor at_
    obtain ⟨isOpen, live⟩ := Manifest.maybeCompact_none r.sys.db.manifest inv.isOpen
    rw [at_, ← live] at agrees
    exact inv.no_reader isOpen (by rw [readers]; exact List.Subset.refl _) (le_refl _)
      agrees inv.reached
  | idle | picked | merged | built | manifested | vanished => exact inv

end Compactor

theorem step_consistent (env : Env) (r : WorkerRun) (i : WorkerStep) (inv : r.Consistent)
    (safe : r.Safe i) : (r.step env i).Consistent := by
  cases i with
  | flushWrite imm => exact flushWrite_consistent env inv imm
  | flushCommit => exact flushCommit_consistent inv safe
  | flushPublish => exact flushPublish_consistent inv safe
  | flushRotate => exact flushRotate_consistent inv
  | pick => exact pick_consistent inv
  | merge => exact merge_consistent env inv
  | build => exact build_consistent inv safe
  | setFileSet => exact setFileSet_consistent inv
  | swap => exact swap_consistent inv
  | rollback => exact rollback_consistent inv
  | compactRotate => exact compactRotate_consistent inv

/-- In every interleaving that keeps the commit of a flush out of the way of the list a
compaction is building, no committed table is lost. -/
theorem noneLost_of_safe (env : Env) (r : WorkerRun) (steps : List WorkerStep) (opened : r.Opened)
    (safe : Machine.Always (step env) Safe r steps) :
    (Machine.run (step env) r steps).NoneLost :=
  Consistent.noneLost _ (Machine.run_invariant (step env) Safe Consistent (step_consistent env) r
    steps (opened.consistent r) safe)

/-- A store just created that compacts two tables. -/
def pair : WorkerRun := ⟨⟨{ emptyDB with compactThreshold := 2 }, .idle, .idle⟩, [], []⟩

theorem pair_opened : pair.Opened :=
  ⟨rfl, rfl, rfl, rfl, List.nodup_nil, by simp [pair, emptyDB], by simp [pair]⟩

def flush (key : Bytes) : List WorkerStep :=
  [.flushWrite (SkipList.new.put key [1] fun _ => false), .flushCommit, .flushPublish,
    .flushRotate]

/-- A flush that begins during the merge and commits between the manifest record of the
compaction and its new list, followed by a second compaction. -/
theorem noneLost_overlapping :
    let r := Machine.run (step smallEnv) pair (flush [97] ++ flush [98] ++
      [.pick, .flushWrite (SkipList.new.put [99] [1] fun _ => false), .merge, .build, .setFileSet,
        .flushCommit, .swap, .flushPublish, .compactRotate, .flushRotate, .pick, .merge, .build,
        .setFileSet, .swap, .compactRotate])
    r.NoneLost ∧ r.committed = [1, 2, 3] ∧ r.sys.db.sstables.map Reader.id = [5] :=
  ⟨noneLost_of_safe smallEnv pair _ pair_opened (by decide +kernel), by decide +kernel,
    by decide +kernel⟩

/-- A flush commits and publishes its table between the build and the manifest record of a
compaction. -/
def lostFlush : List WorkerStep :=
  flush [97] ++ flush [98] ++ [.pick, .merge, .build] ++ flush [99] ++
    [.setFileSet, .swap, .compactRotate]

/-- The table is in neither the manifest nor the list, and no compaction read it. -/
theorem not_noneLost_flush_after_build :
    pair.Opened ∧ ¬(Machine.run (step smallEnv) pair lostFlush).NoneLost := by
  refine ⟨pair_opened, fun noneLost => ?_⟩
  have idle : (Machine.run (step smallEnv) pair lostFlush).sys.flusher = .idle ∧
      (Machine.run (step smallEnv) pair lostFlush).sys.compactor = .idle := ⟨rfl, rfl⟩
  have tables : (Machine.run (step smallEnv) pair lostFlush).sys.db.sstables.map Reader.id = [3] := by
    decide +kernel
  have merged : (Machine.run (step smallEnv) pair lostFlush).merged = [(1, 3), (2, 3)] := by
    decide +kernel
  have committed : (4 : UInt64) ∈ (Machine.run (step smallEnv) pair lostFlush).committed := by
    decide +kernel
  obtain ⟨_, found⟩ := noneLost idle.1 idle.2
  obtain ⟨id', into, _, listed⟩ := found 4 committed
  rw [tables, List.mem_singleton] at listed
  subst listed
  -- nothing was ever merged from table 4
  rw [MergedInto, merged] at into
  rcases Relation.ReflTransGen.cases_head into with same | ⟨next, edge, _⟩
  · cases same
  · simp at edge

/-- Between the compactions of such an interleaving the manifest names exactly the tables in
the list and the one that the flusher is about to add. -/
theorem live_eq_of_safe (env : Env) (r : WorkerRun) (steps : List WorkerStep) (opened : r.Opened)
    (safe : Machine.Always (step env) Safe r steps) :
    let w := (Machine.run (step env) r steps).sys
    w.compactor = .idle → w.db.manifest.log.liveSet = idSet (w.db.sstables ++ w.flusher.waiting) := by
  intro w idle
  have agrees := (Machine.run_invariant (step env) Safe Consistent (step_consistent env) r steps
    (opened.consistent r) safe).agrees
  rwa [idle] at agrees

/-- The second table is committed and not in the list yet. -/
theorem live_eq_waiting :
    let r := Machine.run (step smallEnv) pair (flush [97] ++
      [.flushWrite (SkipList.new.put [98] [1] fun _ => false), .flushCommit])
    r.sys.db.manifest.log.liveSet = idSet (r.sys.db.sstables ++ r.sys.flusher.waiting) :=
  live_eq_of_safe smallEnv pair _ pair_opened (by decide +kernel) rfl

end WorkerRun

end PebbleDB.Db
