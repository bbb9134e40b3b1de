import PebbleDB.Db.LiveFiles

/-!
# Tables that were never recorded

A flush and a compaction rename their table before they write its manifest record, so a
crash in between leaves a table file that no record names. `Open` moves such files to the
quarantine directory.

## Main result

`opensClean_of_safe`: over every run of flushes, compactions, crashes and reopens from an
empty directory, `Open` loads only tables that were recorded by their own flush or merge,
and leaves no file of a table whose flush or merge was cut off before its record. Two
conditions are needed. `BootstrapIfEmpty` takes a manifest without live ids for one of a
directory that had none, and adopts every table file it finds; this is also what the first
flush leaves if it is cut off before its record. And a file name with more than eight
digits is not discovered.
-/
namespace PebbleDB.Db

open Sst (Reader)

/-- The id that the worker has drawn, up to its manifest record. -/
def FlushStage.drawn : FlushStage → List UInt64
  | .writing id _ => [id]
  | .failed id => [id]
  | .closed id => [id]
  | .opened r => [r.id]
  | .idle | .committed _ | .published => []

def CompactStage.drawn : CompactStage → List UInt64
  | .writing _ _ id _ => [id]
  | .failed id => [id]
  | .closed _ _ id => [id]
  | .merged _ _ newReader => [newReader.id]
  | .built _ _ newReader _ _ => [newReader.id]
  | .idle | .picked _ _ | .manifested _ _ _ _ | .vanished _ _ | .swapped _ | .discarding _
  | .closing _ _ | .marked _ _ => []

namespace TableStore

def drawn (w : TableStore) : List UInt64 := w.flusher.drawn ++ w.compactor.drawn

/-- The table whose record the step writes. -/
def committing (w : TableStore) : TableStep → Option UInt64
  | .flushCommit =>
    match w.flusher with
    | .opened r => some r.id
    | _ => none
  | .setFileSet =>
    match w.compactor with
    | .built _ _ newReader _ _ => some newReader.id
    | _ => none
  | _ => none

end TableStore

/-- The places inside `Open` where a crash leaves something else than before: `CURRENT` is
written, the manifest is replayed and its torn end cut off, `BootstrapIfEmpty` is inside
its append, or the first `n` discovered tables have been looked at. -/
inductive OpenPoint where
  | current
  | replayed
  | bootstrap (k m : Nat)
  | quarantine (n : Nat)

/-- A directory and the store that is open on it. `recorded` are the tables whose record
was written as a whole by their own flush or merge; `orphans` are those whose flush or
merge was cut off before its record by the last crash of a running store. -/
structure Lifetime where
  store : TableStore
  running : Bool
  recorded : List UInt64
  orphans : List UInt64

inductive LifeStep where
  | table (i : TableStep)
  | crash
  | crashIn (i : TableStep) (k m : Nat)
  | openDB (compactThreshold : Int)
  | crashOpen (point : OpenPoint)

namespace Lifetime

def dir (s : Lifetime) : Manifest.Dir := s.store.db.manifest.dir

/-- The record that a step has written when its manifest call returned nil. -/
def commits (s : Lifetime) (i : TableStep) : Option UInt64 :=
  match s.store.call i with
  | none => none
  | some c => if (c.run s.store.db.manifest).2 = none then s.store.committing i else none

/-- The process ends, and `dir` is what is left of the manifest. -/
def halt (s : Lifetime) (dir : Manifest.Dir) (done : Option UInt64) : Lifetime where
  store := { s.store with db.manifest.dir := dir }
  running := false
  recorded := done.toList ++ s.recorded
  orphans := s.store.drawn.filter fun id => id ∉ done

/-- A crash inside the manifest call of a step. -/
def crashIn (s : Lifetime) (i : TableStep) (k m : Nat) : Lifetime :=
  match s.store.call i with
  | none => s.halt s.dir none
  | some c =>
    let manifest := s.store.db.manifest
    let dir := Crash.crashed Manifest.FileStep.run Manifest.FileStep.cut manifest.dir
      (c.steps manifest) k m
    let whole := dir.read manifest.log.path = (c.run manifest).1.dir.read manifest.log.path
    s.halt dir (if whole then s.store.committing i else none)

/-- `CURRENT` names the manifest that `Open` is going to read. -/
def named (dir : Manifest.Dir) : Manifest.Dir :=
  { dir with current := some (dir.current.getD Manifest.initialManifest) }

/-- What an `Open` that fails leaves of the manifest. -/
def openLeaves (dir : Manifest.Dir) (ssts : SstFiles) : Manifest.Dir :=
  match Manifest.openLog dir with
  | .error _ => named dir
  | .ok (log, dir) => (Manifest.bootstrapIfEmpty ⟨log, dir⟩ (discoverSSTIDs ssts) .none).1.dir

/-- `trackReader` of the loaded readers. -/
def handlesOf (readers : List Reader) (p : Nat) : Option Handle :=
  (readers.find? fun r => r.fileID = p).map fun r => Handle.new r.id

/-- The store over the loaded tables. -/
def started (w : TableStore) (compactThreshold : Int) (tables : OpenedTables) : TableStore where
  db := { w.db with
    sstables := tables.readers
    manifest := tables.manifest
    nextSSTID := highestID tables.manifest.log.liveIDs
    nextFileID := w.db.nextFileID + tables.readers.length
    compactThreshold := compactThreshold }
  tmps := w.tmps
  ssts := tables.ssts
  finished := w.finished
  handles := handlesOf tables.readers
  zeroed := []
  flusher := .idle
  compactor := .idle

def openDB (s : Lifetime) (compactThreshold : Int) : Lifetime :=
  match openTables s.dir s.store.ssts s.store.db.nextFileID with
  | .error _ => { s with store.db.manifest.dir := openLeaves s.dir s.store.ssts }
  | .ok tables =>
    { s with store := started s.store compactThreshold tables, running := true, orphans := [] }

/-- What a crash inside `Open` leaves. -/
def openCut (s : Lifetime) : OpenPoint → Manifest.Dir × SstFiles
  | .current => (named s.dir, s.store.ssts)
  | .replayed =>
    match Manifest.openLog s.dir with
    | .error _ => (named s.dir, s.store.ssts)
    | .ok (_, dir) => (dir, s.store.ssts)
  | .bootstrap k m =>
    match Manifest.openLog s.dir with
    | .error _ => (named s.dir, s.store.ssts)
    | .ok (log, dir) =>
      (Crash.crashed Manifest.FileStep.run Manifest.FileStep.cut dir
        ((Manifest.Call.bootstrapIfEmpty (discoverSSTIDs s.store.ssts)).steps ⟨log, dir⟩) k m,
        s.store.ssts)
  | .quarantine n =>
    match openTables s.dir s.store.ssts s.store.db.nextFileID with
    | .error _ => (openLeaves s.dir s.store.ssts, s.store.ssts)
    | .ok tables =>
      (tables.manifest.dir, s.store.ssts.filter fun entry =>
        entry.1 ∈ tables.manifest.log.liveSet ∨ entry.1 ∉ (discoverSSTIDs s.store.ssts).take n)

def crashOpen (s : Lifetime) (point : OpenPoint) : Lifetime :=
  { s with
    store.db.manifest.dir := (s.openCut point).1
    store.ssts := (s.openCut point).2 }

/-- The `LOCK` file keeps a second `Open` out while the store is running. -/
def step (env : Env) (s : Lifetime) (i : LifeStep) : Lifetime :=
  match i, s.running with
  | .table i, true =>
    { s with store := s.store.step env i, recorded := (s.commits i).toList ++ s.recorded }
  | .crash, true => s.halt s.dir none
  | .crashIn i k m, true => s.crashIn i k m
  | .openDB compactThreshold, false => s.openDB compactThreshold
  | .crashOpen point, false => s.crashOpen point
  | _, _ => s

/-- An empty directory. -/
def empty : Lifetime where
  store := { TableStore.fresh with db.manifest.dir := .empty }
  running := false
  recorded := []
  orphans := []

/-- `BootstrapIfEmpty` would adopt tables: the manifest has no live id, and there are
table files. -/
def Adopts (s : Lifetime) : Prop :=
  match Manifest.openLog s.dir with
  | .error _ => False
  | .ok (log, _) => log.liveSet = ∅ ∧ discoverSSTIDs s.store.ssts ≠ []

instance (s : Lifetime) : Decidable s.Adopts := by
  unfold Adopts
  split
  · exact .isFalse id
  · exact instDecidableAnd

/-- `Open` has nothing to adopt, and the id of a new table has at most eight digits. -/
def Safe (s : Lifetime) : LifeStep → Prop
  | .table (.flushBegin _) => s.store.db.nextSSTID.toNat + 1 < 10 ^ 8
  | .table .mergeBegin => s.store.db.nextSSTID.toNat + 1 < 10 ^ 8
  | .openDB _ => s.running = false → ¬s.Adopts
  | .crashOpen _ => s.running = false → ¬s.Adopts
  | _ => True

instance decidableSafe (s : Lifetime) : (i : LifeStep) → Decidable (s.Safe i)
  | .table (.flushBegin _) | .table .mergeBegin => inferInstanceAs (Decidable (_ < _))
  | .openDB _ | .crashOpen _ => inferInstanceAs (Decidable (_ → _))
  | .crash | .crashIn _ _ _ => .isTrue trivial
  | .table (.flushGrow _) | .table (.flushClose _) | .table .flushRemove | .table .flushOpen
  | .table .flushCommit | .table .flushPublish | .table .flushRotate | .table .pick
  | .table (.mergeGrow _) | .table (.mergeClose _) | .table .mergeRemove | .table .mergeOpen
  | .table .build | .table .setFileSet | .table .swap | .table .rollback | .table .compactRotate
  | .table .discardBegin | .table .discardMark | .table .discardCheck | .table (.ref _)
  | .table (.unref _) | .table (.unrefCheck _) => .isTrue trivial

/-- `Open` succeeds; every table it loads was recorded by its own flush or merge, and none
of those that were cut off before their record is loaded or left in the directory. -/
structure OpensClean (env : Env) (s : Lifetime) (compactThreshold : Int) : Prop where
  opens : (s.step env (.openDB compactThreshold)).running = true
  loaded : ∀ r ∈ (s.step env (.openDB compactThreshold)).store.db.sstables, r.id ∈ s.recorded
  orphans : ∀ id ∈ s.orphans,
    id ∉ (s.step env (.openDB compactThreshold)).store.db.sstables.map Reader.id ∧
      id ∉ (s.step env (.openDB compactThreshold)).store.ssts.map Prod.fst

end Lifetime

/-! ### Names and files -/

theorem mem_discoverSSTIDs (ssts : SstFiles) (id : UInt64) :
    id ∈ discoverSSTIDs ssts ↔ id ∈ ssts.map Prod.fst ∧ sstNamed id = true := by
  rw [discoverSSTIDs, List.mem_insertionSort, List.mem_filter]

/-- Files that are kept are found as before. -/
theorem lookup_filter_of_kept (ssts : SstFiles) (keep : UInt64 × Bytes → Bool) (id : UInt64)
    (kept : ∀ entry ∈ ssts, entry.1 = id → keep entry = true) :
    (ssts.filter keep).lookup id = ssts.lookup id := by
  induction ssts with
  | nil => rfl
  | cons entry ssts ih =>
    have rest := ih fun other member => kept other (List.mem_cons_of_mem _ member)
    obtain ⟨id', file⟩ := entry
    by_cases same : id = id'
    · subst same
      rw [List.filter_cons_of_pos (kept _ List.mem_cons_self rfl), List.lookup_cons_self,
        List.lookup_cons_self]
    · rw [List.lookup_cons, beq_false_of_ne same]
      by_cases keeps : keep (id', file) = true
      · rw [List.filter_cons_of_pos keeps, List.lookup_cons, beq_false_of_ne same]
        exact rest
      · rw [List.filter_cons_of_neg keeps]
        exact rest

namespace Lifetime

theorem handlesOf_fileID (readers : List Reader) (distinct : (readers.map Reader.fileID).Nodup)
    (r : Reader) (member : r ∈ readers) :
    handlesOf readers r.fileID = some (Handle.new r.id) := by
  have found : (readers.find? fun other => other.fileID = r.fileID).isSome = true :=
    List.find?_isSome.mpr ⟨r, member, decide_eq_true rfl⟩
  obtain ⟨other, is⟩ := Option.isSome_iff_exists.mp found
  have key : other.fileID = r.fileID := by simpa using List.find?_some is
  have same : other = r :=
    List.inj_on_of_nodup_map distinct (List.mem_of_find?_eq_some is) member key
  rw [handlesOf, is, same]
  rfl

end Lifetime

/-! ### What the steps record -/

/-- The table that was recorded and is not in the list yet. -/
def FlushStage.awaiting : FlushStage → List UInt64
  | .committed r => [r.id]
  | _ => []

def CompactStage.awaiting : CompactStage → List UInt64
  | .manifested _ _ newReader _ => [newReader.id]
  | _ => []

theorem FlushStage.Settled.awaiting {s : FlushStage} (settled : s.Settled) : s.awaiting = [] := by
  cases s with
  | committed => exact settled.elim
  | idle | writing | failed | closed | opened | published => rfl

theorem CompactStage.Settled.awaiting {s : CompactStage} (settled : s.Settled) :
    s.awaiting = [] := by
  cases s with
  | manifested => exact settled.elim
  | idle | picked | writing | failed | closed | merged | built | vanished | swapped | discarding
  | closing | marked => rfl

namespace TableStore

/-- Every id of the manifest, of the list and in between was recorded, and all ids have at
most eight digits. -/
structure Records (recorded : List UInt64) (w : TableStore) : Prop where
  live : ∀ id ∈ w.live, id ∈ recorded
  list : ∀ r ∈ w.db.sstables, r.id ∈ recorded
  flusher : w.flusher.awaiting ⊆ recorded
  compactor : w.compactor.awaiting ⊆ recorded
  small : w.db.nextSSTID.toNat < 10 ^ 8

variable {recorded : List UInt64} {phase : UInt64 → Phase} {w w' : TableStore}

/-- A step that records no table, draws no id and changes neither the list nor the live
set. -/
structure Quiet (w w' : TableStore) : Prop where
  sstables : w'.db.sstables = w.db.sstables
  nextSSTID : w'.db.nextSSTID = w.db.nextSSTID
  live : w'.live = w.live
  flusher : w'.flusher.awaiting ⊆ w.flusher.awaiting
  compactor : w'.compactor.awaiting ⊆ w.compactor.awaiting

theorem Records.quiet (records : Records recorded w) (quiet : Quiet w w') :
    Records recorded w' where
  live := by
    rw [quiet.live]
    exact records.live
  list := by
    rw [quiet.sstables]
    exact records.list
  flusher := List.Subset.trans quiet.flusher records.flusher
  compactor := List.Subset.trans quiet.compactor records.compactor
  small := by
    rw [quiet.nextSSTID]
    exact records.small

theorem Quiet.same (db : w'.db.sstables = w.db.sstables ∧ w'.db.nextSSTID = w.db.nextSSTID)
    (live : w'.live = w.live) (flusher : w'.flusher = w.flusher)
    (compactor : w'.compactor = w.compactor) : Quiet w w' :=
  ⟨db.1, db.2, live, by rw [flusher]; exact List.Subset.refl _, by rw [compactor]; exact List.Subset.refl _⟩

theorem Quiet.refl (w : TableStore) : Quiet w w := .same ⟨rfl, rfl⟩ rfl rfl rfl

theorem Quiet.ofFlusher (db : w'.db.sstables = w.db.sstables ∧ w'.db.nextSSTID = w.db.nextSSTID)
    (live : w'.live = w.live) (flusher : w'.flusher.awaiting = [])
    (compactor : w'.compactor = w.compactor) : Quiet w w' :=
  ⟨db.1, db.2, live, by rw [flusher]; exact List.nil_subset _, by rw [compactor]; exact List.Subset.refl _⟩

theorem Quiet.ofCompactor (db : w'.db.sstables = w.db.sstables ∧ w'.db.nextSSTID = w.db.nextSSTID)
    (live : w'.live = w.live) (flusher : w'.flusher = w.flusher)
    (compactor : w'.compactor.awaiting = []) : Quiet w w' :=
  ⟨db.1, db.2, live, by rw [flusher]; exact List.Subset.refl _, by rw [compactor]; exact List.nil_subset _⟩

theorem Quiet.ofLocal (step : Local w w') : Quiet w w' where
  sstables := step.sstables
  nextSSTID := step.nextSSTID
  live := by rw [TableStore.live, step.manifest, TableStore.live]
  flusher := by
    rcases step.flusher with same | settled
    · rw [same]
      exact List.Subset.refl _
    · rw [settled.awaiting]
      exact List.nil_subset _
  compactor := by
    rcases step.compactor with same | settled
    · rw [same]
      exact List.Subset.refl _
    · rw [settled.awaiting]
      exact List.nil_subset _

theorem abandonTmp_quiet (w : TableStore) (id : UInt64) (leftover : Option Bytes) :
    Quiet w (w.abandonTmp id leftover) := by
  cases leftover with
  | none => exact .same ⟨rfl, rfl⟩ rfl rfl rfl
  | some data => exact .same ⟨rfl, rfl⟩ rfl rfl rfl

/-- A worker that gives up waits for nothing. -/
theorem Quiet.dropFlusher (quiet : Quiet w w') (stage : FlushStage) (idle : stage.awaiting = []) :
    Quiet w { w' with flusher := stage } :=
  ⟨quiet.sstables, quiet.nextSSTID, quiet.live, by rw [idle]; exact List.nil_subset _,
    quiet.compactor⟩

theorem Quiet.dropCompactor (quiet : Quiet w w') (stage : CompactStage)
    (idle : stage.awaiting = []) : Quiet w { w' with compactor := stage } :=
  ⟨quiet.sstables, quiet.nextSSTID, quiet.live, quiet.flusher,
    by rw [idle]; exact List.nil_subset _⟩

theorem flushClose_quiet (env : Env) (w : TableStore) (leftover : Option Bytes) :
    Quiet w (w.flushClose env leftover) := by
  rw [flushClose]
  split
  next id imm at_ =>
    split
    · exact .ofFlusher ⟨rfl, rfl⟩ rfl rfl rfl
    · exact (abandonTmp_quiet w id leftover).dropFlusher _ rfl
  · exact .refl w

theorem mergeClose_quiet (env : Env) (w : TableStore) (leftover : Option Bytes) :
    Quiet w (w.mergeClose env leftover) := by
  rw [mergeClose]
  split
  next comp old id n at_ =>
    split
    · exact .ofCompactor ⟨rfl, rfl⟩ rfl rfl rfl
    · exact (abandonTmp_quiet w id leftover).dropCompactor _ rfl
  · exact .refl w

/-- A step that would call the manifest but is not enabled does nothing. -/
theorem step_of_no_call (env : Env) (w : TableStore) (i : TableStep) (none_ : w.call i = none)
    (writes : i = .flushCommit ∨ i = .flushRotate ∨ i = .setFileSet ∨ i = .rollback ∨
      i = .compactRotate) : w.step env i = w := by
  rcases writes with rfl | rfl | rfl | rfl | rfl
  · simp only [step, flushCommit]
    split
    next at_ =>
      rw [call, at_] at none_
      cases none_
    · rfl
  · simp only [step, flushRotate]
    split
    next at_ =>
      rw [call, at_] at none_
      cases none_
    · rfl
  · simp only [step, setFileSet]
    split
    next at_ =>
      rw [call, at_] at none_
      cases none_
    · rfl
  · simp only [step, rollback]
    split
    next at_ =>
      rw [call, at_] at none_
      cases none_
    · rfl
  · simp only [step, compactRotate]
    split
    next at_ =>
      rw [call, at_] at none_
      cases none_
    · rfl

/-- The steps that write no record, draw no id and do not publish a list. -/
theorem step_quiet (env : Env) (w : TableStore) (i : TableStep) (none_ : w.call i = none)
    (publish : i ≠ .flushPublish) (swap : i ≠ .swap) (begin : ∀ imm, i ≠ .flushBegin imm)
    (mergeBegin : i ≠ .mergeBegin) : Quiet w (w.step env i) := by
  cases i with
  | flushPublish => exact absurd rfl publish
  | swap => exact absurd rfl swap
  | flushBegin imm => exact absurd rfl (begin imm)
  | mergeBegin => exact absurd rfl mergeBegin
  | flushCommit | flushRotate | setFileSet | rollback | compactRotate =>
    rw [step_of_no_call env w _ none_ (by simp)]
    exact .refl w
  | flushClose leftover => exact flushClose_quiet env w leftover
  | mergeClose leftover => exact mergeClose_quiet env w leftover
  | flushGrow | flushRemove | flushOpen | pick | mergeGrow | mergeRemove | mergeOpen | build
  | discardBegin | discardMark | discardCheck | ref | unref | unrefCheck =>
    exact .ofLocal (step_local env w _ rfl)

/-- A new id is not recorded; it must not be the first one of nine digits. -/
theorem Records.draw (records : Records recorded w) (sstables : w'.db.sstables = w.db.sstables)
    (live : w'.live = w.live) (flusher : w'.flusher.awaiting ⊆ w.flusher.awaiting)
    (compactor : w'.compactor.awaiting ⊆ w.compactor.awaiting)
    (next : w'.db.nextSSTID = w.db.nextSSTID + 1) (room : w.db.nextSSTID.toNat + 1 < 10 ^ 8) :
    Records recorded w' where
  live := by
    rw [live]
    exact records.live
  list := by
    rw [sstables]
    exact records.list
  flusher := List.Subset.trans flusher records.flusher
  compactor := List.Subset.trans compactor records.compactor
  small := by
    rw [next, UInt64.toNat_add, Nat.mod_eq_of_lt]
    · exact room
    · exact lt_trans room (by decide)

theorem flushBegin_records (env : Env) (records : Records recorded w) (imm : Memtable.SkipList)
    (room : w.db.nextSSTID.toNat + 1 < 10 ^ 8) : Records recorded (w.step env (.flushBegin imm)) := by
  simp only [step, flushBegin]
  split
  · exact records.draw rfl rfl (List.nil_subset _) (List.Subset.refl _) rfl room
  · exact records

theorem mergeBegin_records (env : Env) (records : Records recorded w)
    (room : w.db.nextSSTID.toNat + 1 < 10 ^ 8) : Records recorded (w.step env .mergeBegin) := by
  simp only [step, mergeBegin]
  split
  · split
    · exact records.quiet (.ofCompactor ⟨rfl, rfl⟩ rfl rfl rfl)
    · exact records.draw rfl rfl (List.Subset.refl _) (List.nil_subset _) rfl room
  · exact records

/-- The recorded table enters the list. -/
theorem flushPublish_records (env : Env) (records : Records recorded w) :
    Records recorded (w.step env .flushPublish) := by
  have own := records.flusher
  simp only [step, flushPublish]
  split
  next r at_ =>
    rw [at_] at own
    refine ⟨records.live, fun r' member => ?_, List.nil_subset _, records.compactor, records.small⟩
    rcases List.mem_append.mp member with old | new
    · exact records.list r' old
    · rw [List.mem_singleton.mp new]
      exact own List.mem_cons_self
  · exact records

theorem swap_records (env : Env) (acc : Accounts phase w) (records : Records recorded w) :
    Records recorded (w.step env .swap) := by
  have own := acc.compactor
  have recordedNew := records.compactor
  simp only [step, swap]
  split
  next comp old new list at_ =>
    rw [at_] at own recordedNew
    obtain ⟨-, -, -, -, ⟨kept, rfl, part, -⟩, -⟩ := own
    split
    · refine ⟨records.live, fun r member => ?_, records.flusher, List.nil_subset _, records.small⟩
      rcases List.mem_append.mp member with old | last
      · exact records.list r (part.subset old)
      · rw [List.mem_singleton.mp last]
        exact recordedNew List.mem_cons_self
    · exact records.quiet (.ofCompactor ⟨rfl, rfl⟩ rfl rfl rfl)
  · exact records

/-- The ids of the new file set are those of the list, and the merged one. -/
theorem Accounts.newSet (acc : Accounts phase w) (records : Records recorded w)
    {comp list : List Reader} {old ids : List UInt64} {new : Reader}
    (at_ : w.compactor = .built comp old new list ids) :
    ∀ id ∈ ids, id ∈ new.id :: recorded := by
  have own := acc.compactor
  rw [at_] at own
  obtain ⟨-, -, -, -, ⟨kept, rfl, part, -⟩, rfl, -⟩ := own
  intro id member
  rw [List.map_append, List.mem_append] at member
  rcases member with old | last
  · obtain ⟨r, inKept, rfl⟩ := List.mem_map.mp old
    exact List.mem_cons_of_mem _ (records.list r (part.subset inKept))
  · rw [List.map_singleton, List.mem_singleton] at last
    rw [last]
    exact List.mem_cons_self

/-- A call that returned nil has recorded its table. -/
theorem call_records (env : Env) (acc : Accounts phase w) (records : Records recorded w)
    (i : TableStep) (c : Manifest.Call) (calls : w.call i = some c) :
    Records ((w.committing i).toList ++ recorded) (w.step env i) := by
  have isOpen := acc.intact.isOpen
  cases acc.makes i c calls with
  | flushCommit r at_ =>
    have grown := Manifest.Call.newFile_liveSet w.db.manifest r.id isOpen
    simp only [step, flushCommit, committing, at_, run_eq_step _ _ isOpen]
    refine ⟨fun id member => ?_, fun r' member => List.mem_cons_of_mem _ (records.list r' member),
      List.cons_subset_cons _ (List.nil_subset _),
      List.Subset.trans records.compactor (List.subset_cons_self _ _), records.small⟩
    have member' : id ∈ ((Manifest.Call.newFile r.id).step w.db.manifest).log.liveSet := member
    rw [grown, Finset.mem_insert] at member'
    rcases member' with rfl | before
    · exact List.mem_cons_self
    · exact List.mem_cons_of_mem _ (records.live id before)
  | setFileSet comp old new list ids at_ =>
    have replaced := Manifest.Call.setFileSet_liveSet w.db.manifest ids isOpen
    have members := acc.newSet records at_
    simp only [step, setFileSet, committing, at_, run_eq_step _ _ isOpen]
    refine ⟨fun id member => ?_, fun r' member => List.mem_cons_of_mem _ (records.list r' member),
      List.Subset.trans records.flusher (List.subset_cons_self _ _),
      List.cons_subset_cons _ (List.nil_subset _), records.small⟩
    have member' : id ∈ ((Manifest.Call.setFileSet ids).step w.db.manifest).log.liveSet := member
    rw [replaced, List.mem_toFinset] at member'
    exact members id member'
  | flushRotate at_ =>
    have same := Manifest.Call.maybeCompact_liveSet w.db.manifest isOpen
    simp only [step, flushRotate, at_]
    exact records.quiet (.ofFlusher ⟨rfl, rfl⟩ same rfl rfl)
  | compactRotate comp at_ =>
    have same := Manifest.Call.maybeCompact_liveSet w.db.manifest isOpen
    simp only [step, compactRotate, at_]
    exact records.quiet (.ofCompactor ⟨rfl, rfl⟩ same rfl rfl)

/-- The ids that are in use are not above the counter. -/
theorem Accounts.small (acc : Accounts phase w) (records : Records recorded w) (id : UInt64)
    (used : phase id ≠ .unused) : id.toNat < 10 ^ 8 := by
  have below : id ≤ w.db.nextSSTID := by
    by_contra above
    exact used (acc.unused id (UInt64.not_le.mp above))
  exact lt_of_le_of_lt (UInt64.le_iff_toNat_le.mp below) records.small

theorem Accounts.live_small (acc : Accounts phase w) (records : Records recorded w) (id : UInt64)
    (member : id ∈ w.live) : id.toNat < 10 ^ 8 :=
  acc.small records id (acc.live id member).1

/-- There are not that many names of eight digits. -/
theorem Accounts.live_few (acc : Accounts phase w) (records : Records recorded w) :
    w.live.card ≤ Manifest.maxRecordIDs := by
  have inside : w.live.image UInt64.toNat ⊆ Finset.range (10 ^ 8) := by
    intro n member
    obtain ⟨id, live, rfl⟩ := Finset.mem_image.mp member
    exact Finset.mem_range.mpr (acc.live_small records id live)
  have bound := Finset.card_le_card inside
  rw [Finset.card_image_of_injective _ fun a b same => UInt64.toNat_inj.mp same,
    Finset.card_range] at bound
  rw [Manifest.maxRecordIDs]
  omega

/-- A drawn id is not live before its record. -/
theorem Accounts.drawn (acc : Accounts phase w) (records : Records recorded w) (id : UInt64)
    (member : id ∈ w.drawn) : id ∉ w.live ∧ id.toNat < 10 ^ 8 := by
  have making (p : Phase) (used : p ≠ .unused) (own : w.Making phase p id) :
      id ∉ w.live ∧ id.toNat < 10 ^ 8 :=
    ⟨own.2, acc.small records id (by rw [own.1]; exact used)⟩
  rcases List.mem_append.mp member with flushing | merging
  · have own := acc.flusher
    cases at_ : w.flusher with
    | writing id' imm | failed id' =>
      rw [at_] at own flushing
      rw [List.mem_singleton.mp flushing] at making ⊢
      exact making .flushing (by decide) own
    | closed id' =>
      rw [at_] at own flushing
      rw [List.mem_singleton.mp flushing] at making ⊢
      exact making .flushing (by decide) own.1
    | opened r =>
      rw [at_] at own flushing
      rw [List.mem_singleton.mp flushing] at making ⊢
      exact making .flushing (by decide) own.1
    | idle | committed | published =>
      rw [at_] at flushing
      cases flushing
  · have own := acc.compactor
    cases at_ : w.compactor with
    | failed id' =>
      rw [at_] at own merging
      rw [List.mem_singleton.mp merging] at making ⊢
      exact making .merging (by decide) own
    | writing comp old id' n =>
      rw [at_] at own merging
      rw [List.mem_singleton.mp merging] at making ⊢
      exact making .merging (by decide) own.2
    | closed comp old id' =>
      rw [at_] at own merging
      rw [List.mem_singleton.mp merging] at making ⊢
      exact making .merging (by decide) own.2.1
    | merged comp old new =>
      rw [at_] at own merging
      rw [List.mem_singleton.mp merging] at making ⊢
      exact making .merging (by decide) own.2.1
    | built comp old new list ids =>
      rw [at_] at own merging
      rw [List.mem_singleton.mp merging] at making ⊢
      exact making .merging (by decide) own.2.1
    | idle | picked | manifested | vanished | swapped | discarding | closing | marked =>
      rw [at_] at merging
      cases merging

/-- Behind its record a table is no longer a drawn one; the other worker's still is. -/
theorem committing_drawn (env : Env) (acc : Accounts phase w) (i : TableStep) (c : Manifest.Call)
    (calls : w.call i = some c) (id : UInt64) (member : id ∈ w.drawn)
    (other : id ∉ w.committing i) : id ∈ (w.step env i).drawn := by
  have isOpen := acc.intact.isOpen
  cases acc.makes i c calls with
  | flushCommit r at_ =>
    simp only [drawn, committing, at_, FlushStage.drawn, List.mem_append, List.mem_singleton,
      Option.mem_def, Option.some.injEq] at member other
    simp only [drawn, step, flushCommit, at_, run_eq_step _ _ isOpen]
    exact member.elim (fun same => absurd same.symm other) fun merging => merging
  | setFileSet comp old new list ids at_ =>
    simp only [drawn, committing, at_, CompactStage.drawn, List.mem_append, List.mem_singleton,
      Option.mem_def, Option.some.injEq] at member other
    simp only [drawn, step, setFileSet, at_, run_eq_step _ _ isOpen, List.mem_append]
    exact .inl (member.elim (fun flushing => flushing) fun same => absurd same.symm other)
  | flushRotate at_ =>
    simp only [drawn, at_] at member
    simp only [drawn, step, flushRotate, at_]
    exact member
  | compactRotate comp at_ =>
    simp only [drawn, at_] at member
    simp only [drawn, step, compactRotate, at_]
    exact member

/-- A call cut off has added its record or it has not. -/
theorem Accounts.leaves (acc : Accounts phase w) (i : TableStep) (c : Manifest.Call)
    (safe : w.Safe i) (calls : w.call i = some c) (k m : Nat) :
    let dir := Crash.crashed Manifest.FileStep.run Manifest.FileStep.cut w.db.manifest.dir
      (c.steps w.db.manifest) k m
    let whole := dir.read w.db.manifest.log.path =
      (c.run w.db.manifest).1.dir.read w.db.manifest.log.path
    (whole ∧ dir.Holds (c.run w.db.manifest).1.log.liveSet) ∨ (¬whole ∧ dir.Holds w.live) ∨
      (w.committing i = none ∧ dir.Holds w.live) := by
  have fits := acc.call_safe i c safe calls
  have rotated (held : c = .maybeCompact) : (Crash.crashed Manifest.FileStep.run
      Manifest.FileStep.cut w.db.manifest.dir (c.steps w.db.manifest) k m).Holds w.live := by
    subst held
    simp only [Manifest.Call.steps]
    split
    · exact Manifest.rotateSteps_survives _ acc.intact (Manifest.fits_liveIDs _ fits) k m
    · exact ⟨_, acc.intact.current, acc.intact.replays⟩
  cases acc.makes i c calls with
  | flushCommit r at_ =>
    exact (Manifest.append_leaves _ (.newFile r.id) acc.intact (Manifest.fits_newFile _) k m).imp
      id .inl
  | setFileSet comp old new list ids at_ =>
    exact (Manifest.append_leaves _ _ acc.intact (Manifest.fits_sorted _ fits) k m).imp id .inl
  | flushRotate | compactRotate => exact .inr (.inr ⟨rfl, rotated rfl⟩)

end TableStore

/-! ### Crashes and reopens -/

namespace Lifetime

/-- `Open` would find this: complete tables that were recorded, and no orphan among them. -/
structure Rests (s : Lifetime) (log : Manifest.Log) (dir : Manifest.Dir) : Prop where
  opened : Manifest.openLog s.dir = .ok (log, dir)
  live : ∀ id ∈ log.liveSet, s.store.Present id ∧ id ∈ s.recorded ∧ id.toNat < 10 ^ 8
  orphans : ∀ id ∈ s.orphans, id ∉ log.liveSet ∧ id.toNat < 10 ^ 8

structure Kept (s : Lifetime) : Prop where
  running : s.running = true →
    (∃ phase, TableStore.Accounts phase s.store) ∧ s.store.Records s.recorded
  resting : s.running = false → ∃ log dir, s.Rests log dir

variable {s s' : Lifetime} {phase : UInt64 → Phase} {log : Manifest.Log} {dir' : Manifest.Dir}

theorem Rests.kept (log : Manifest.Log) (dir' : Manifest.Dir) (rests : s.Rests log dir')
    (stopped : s.running = false) : s.Kept where
  running running := by
    rw [stopped] at running
    cases running
  resting _ := ⟨log, dir', rests⟩

theorem empty_kept : empty.Kept :=
  Rests.kept ⟨1, true, ∅, 0⟩ Manifest.freshDir
    ⟨rfl, fun _ member => absurd member (Finset.notMem_empty _), nofun⟩ rfl

/-- The store stops with a manifest that replays to `live`. -/
theorem halt_kept (s : Lifetime) (dir : Manifest.Dir) (done : Option UInt64) (live : Finset UInt64)
    (reopens : Manifest.Reopens dir live)
    (recorded : ∀ id ∈ live, s.store.Present id ∧ id ∈ done.toList ++ s.recorded ∧ id.toNat < 10 ^ 8)
    (drawn : ∀ id ∈ s.store.drawn, id ∉ done → id ∉ live ∧ id.toNat < 10 ^ 8) :
    (s.halt dir done).Kept := by
  obtain ⟨log, dir', opened, rfl, -⟩ := reopens
  refine Rests.kept log dir' ⟨opened, recorded, fun id member => ?_⟩ rfl
  obtain ⟨member, other⟩ := List.mem_filter.mp member
  exact drawn id member (of_decide_eq_true other)

/-- A crash between two steps. -/
theorem crash_kept (acc : TableStore.Accounts phase s.store) (records : s.store.Records s.recorded) :
    (s.halt s.dir none).Kept := by
  refine halt_kept s s.dir none s.store.live
    (Manifest.Dir.Holds.reopens _ _ ⟨_, acc.intact.current, acc.intact.replays⟩) ?_
    fun id member _ => acc.drawn records id member
  exact fun id member =>
    ⟨(acc.live id member).2.2, records.live id member, acc.live_small records id member⟩

theorem store_safe (acc : TableStore.Accounts phase s.store)
    (records : s.store.Records s.recorded) (i : TableStep) (safe : s.Safe (.table i)) :
    s.store.Safe i := by
  cases i with
  | flushBegin imm => exact lt_trans safe (by decide)
  | mergeBegin => exact lt_trans safe (by decide)
  | flushRotate => exact acc.live_few records
  | compactRotate => exact acc.live_few records
  | flushGrow | flushClose | flushRemove | flushOpen | flushCommit | flushPublish | pick | mergeGrow
  | mergeClose | mergeRemove | mergeOpen | build | setFileSet | swap | rollback | discardBegin
  | discardMark | discardCheck | ref | unref | unrefCheck => trivial

/-- A step with a manifest call draws no id. -/
theorem safe_of_call {i : TableStep} {c : Manifest.Call} (calls : s.store.call i = some c) :
    s.Safe (.table i) := by
  cases i with
  | flushBegin | mergeBegin => cases calls
  | flushRotate | compactRotate | flushGrow | flushClose | flushRemove | flushOpen | flushCommit
  | flushPublish | pick | mergeGrow | mergeClose | mergeRemove | mergeOpen | build | setFileSet | swap
  | rollback | discardBegin | discardMark | discardCheck | ref | unref | unrefCheck => trivial

/-- A crash inside a manifest call: the record is all there, and its table counts as
recorded, or the manifest is as before. -/
theorem crashIn_kept (env : Env) (acc : TableStore.Accounts phase s.store)
    (records : s.store.Records s.recorded) (i : TableStep) (k m : Nat) :
    (s.crashIn i k m).Kept := by
  rw [crashIn]
  cases calls : s.store.call i with
  | none => exact crash_kept acc records
  | some c =>
    have safe := store_safe acc records i (safe_of_call calls)
    have before (dir : Manifest.Dir) (holds : dir.Holds s.store.live) : (s.halt dir none).Kept := by
      refine halt_kept s dir none s.store.live holds.reopens ?_
        fun id member _ => acc.drawn records id member
      exact fun id member =>
        ⟨(acc.live id member).2.2, records.live id member, acc.live_small records id member⟩
    obtain ⟨phase', next⟩ := TableStore.step_accounts env s.store i ⟨phase, acc⟩ safe
    have records' := TableStore.call_records env acc records i c calls
    obtain ⟨manifest, ssts, finished⟩ := acc.call_step env i c calls
    dsimp only
    rcases acc.leaves i c safe calls k m with ⟨whole, holds⟩ | ⟨part, holds⟩ | ⟨none_, holds⟩
    · rw [if_pos whole]
      rw [← manifest] at holds
      refine halt_kept s _ _ _ holds.reopens (fun id member => ?_) fun id member other => ?_
      · refine ⟨?_, records'.live id member, next.live_small records' id member⟩
        exact (next.live id member).2.2.frame id (by rw [ssts])
          (by rw [finished]; exact List.Subset.refl _)
      · exact next.drawn records' id (TableStore.committing_drawn env acc i c calls id member other)
    · rw [if_neg part]
      exact before _ holds
    · rw [none_, ite_self]
      exact before _ holds

/-- With nothing to adopt, `Open` loads the tables of the manifest. -/
theorem Rests.openTables (rests : s.Rests log dir') (adopts : ¬s.Adopts) :
    ∃ readers, loadSSTables s.store.ssts s.store.db.nextFileID log.liveIDs = .ok readers ∧
      openTables s.dir s.store.ssts s.store.db.nextFileID =
        .ok ⟨⟨log, dir'⟩, readers, removeOrphanSSTFiles s.store.ssts log.liveSet⟩ := by
  obtain ⟨readers, loaded⟩ := TableStore.loadSSTables_present s.store s.store.db.nextFileID
    log.liveIDs fun id member => (rests.live id ((log.mem_liveIDs id).mp member)).1
  have unchanged : Manifest.bootstrapIfEmpty ⟨log, dir'⟩ (discoverSSTIDs s.store.ssts) .none =
      (⟨log, dir'⟩, none) := by
    rw [Manifest.bootstrapIfEmpty, if_pos]
    rw [Adopts, rests.opened] at adopts
    by_cases none_ : log.liveSet = ∅
    · right
      by_contra some_
      exact adopts ⟨none_, some_⟩
    · exact .inl none_
  refine ⟨readers, loaded, ?_⟩
  simp only [Db.openTables, rests.opened, Except.mapError_ok, Except.ok_bind, unchanged, loaded]

/-- What `removeOrphanSSTFiles` keeps of the tables of live ids. -/
theorem present_removeOrphan (w : TableStore) (live : Finset UInt64) (id : UInt64)
    (member : id ∈ live) (present : w.Present id) :
    ∃ file r, (removeOrphanSSTFiles w.ssts live).lookup id = some file ∧
      (id, file) ∈ w.finished ∧ Sst.openReader 0 id file = .ok r := by
  obtain ⟨file, r, found, done, opens⟩ := present
  refine ⟨file, r, ?_, done, opens⟩
  rw [removeOrphanSSTFiles, lookup_filter_of_kept _ _ _ fun entry _ same => ?_]
  · exact found
  · exact decide_eq_true (.inl (same ▸ member))

theorem started_opened (rests : s.Rests log dir') (compactThreshold : Int) (readers : List Reader)
    (loaded : loadSSTables s.store.ssts s.store.db.nextFileID log.liveIDs = .ok readers) :
    (started s.store compactThreshold
      ⟨⟨log, dir'⟩, readers, removeOrphanSSTFiles s.store.ssts log.liveSet⟩).Opened := by
  obtain ⟨ids, fileIDs⟩ := loadSSTables_ok _ _ _ _ loaded
  have distinct : (readers.map Reader.fileID).Nodup := by
    rw [fileIDs]
    exact List.nodup_range'
  have count : readers.length = log.liveIDs.length := by rw [← ids, List.length_map]
  refine ⟨rfl, rfl, Manifest.openLog_intact _ _ _ rests.opened, ?_, ?_, fun r member => ?_,
    fun p h open_ => ?_⟩
  · show log.liveSet = (readers.map Reader.id).toFinset
    rw [ids, log.liveIDs_toFinset]
  · show (readers.map Reader.id).Nodup
    rw [ids]
    exact log.liveIDs_ascending.imp fun below => ne_of_lt below
  · have listed : r.id ∈ log.liveIDs := ids ▸ List.mem_map_of_mem member
    have live := (log.mem_liveIDs r.id).mp listed
    refine ⟨present_removeOrphan s.store _ r.id live (rests.live r.id live).1, ?_,
      le_highestID _ _ listed⟩
    exact ⟨Handle.new r.id, handlesOf_fileID readers distinct r member, rfl⟩
  · obtain ⟨r, found, rfl⟩ := Option.map_eq_some_iff.mp open_
    have is : r.fileID = p := by simpa using List.find?_some found
    have inside : p ∈ List.range' (s.store.db.nextFileID + 1) log.liveIDs.length := by
      rw [← fileIDs, ← is]
      exact List.mem_map_of_mem (List.mem_of_find?_eq_some found)
    obtain ⟨-, below⟩ := List.mem_range'_1.mp inside
    refine ⟨rfl, ?_⟩
    show p ≤ s.store.db.nextFileID + readers.length
    omega

theorem started_records (rests : s.Rests log dir') (compactThreshold : Int) (readers : List Reader)
    (loaded : loadSSTables s.store.ssts s.store.db.nextFileID log.liveIDs = .ok readers) :
    (started s.store compactThreshold
      ⟨⟨log, dir'⟩, readers, removeOrphanSSTFiles s.store.ssts log.liveSet⟩).Records
        s.recorded := by
  have ids := (loadSSTables_ok _ _ _ _ loaded).1
  refine ⟨fun id member => (rests.live id member).2.1, fun r member => ?_, List.nil_subset _,
    List.nil_subset _, ?_⟩
  · have listed : r.id ∈ log.liveIDs := ids ▸ List.mem_map_of_mem member
    exact (rests.live r.id ((log.mem_liveIDs r.id).mp listed)).2.1
  · show (highestID log.liveIDs).toNat < 10 ^ 8
    rcases highestID_mem log.liveIDs with zero | member
    · rw [zero]
      decide
    · exact (rests.live _ ((log.mem_liveIDs _).mp member)).2.2

theorem openDB_eq (rests : s.Rests log dir') (adopts : ¬s.Adopts) (compactThreshold : Int) :
    ∃ readers, loadSSTables s.store.ssts s.store.db.nextFileID log.liveIDs = .ok readers ∧
      s.openDB compactThreshold =
        { s with
          store := started s.store compactThreshold
            ⟨⟨log, dir'⟩, readers, removeOrphanSSTFiles s.store.ssts log.liveSet⟩
          running := true
          orphans := [] } := by
  obtain ⟨readers, loaded, opened⟩ := rests.openTables adopts
  refine ⟨readers, loaded, ?_⟩
  rw [openDB, opened]

theorem openDB_kept (rests : s.Rests log dir') (adopts : ¬s.Adopts) (compactThreshold : Int) :
    (s.openDB compactThreshold).Kept := by
  obtain ⟨readers, loaded, eq⟩ := openDB_eq rests adopts compactThreshold
  rw [eq]
  refine ⟨fun _ => ⟨(started_opened rests compactThreshold readers loaded).accounts,
    started_records rests compactThreshold readers loaded⟩, nofun⟩

/-- Nothing is written by a crash inside `Open` that a further `Open` would notice. -/
theorem crashOpen_kept (rests : s.Rests log dir') (stopped : s.running = false)
    (adopts : ¬s.Adopts) (point : OpenPoint) : (s.crashOpen point).Kept := by
  have intact := Manifest.openLog_intact _ _ _ rests.opened
  obtain ⟨log₂, dir₂, again, -, same⟩ := intact.openLog
  -- the manifest is replayed again, and the files of its tables are still there
  have build (dir : Manifest.Dir) (ssts : SstFiles)
      (opens : ∃ log₂ dir₂, Manifest.openLog dir = .ok (log₂, dir₂) ∧ log₂.liveSet = log.liveSet)
      (files : ∀ id ∈ log.liveSet, ssts.lookup id = s.store.ssts.lookup id) :
      Kept { s with store.db.manifest.dir := dir, store.ssts := ssts } := by
    obtain ⟨log₂, dir₂, opened, live⟩ := opens
    refine Rests.kept log₂ dir₂ ⟨opened, ?_, ?_⟩ stopped
    · rw [live]
      intro id member
      obtain ⟨present, rest⟩ := rests.live id member
      exact ⟨present.frame id (files id member) (List.Subset.refl _), rest⟩
    · rw [live]
      exact rests.orphans
  have replayed : ∃ log₂ dir₂, Manifest.openLog dir' = .ok (log₂, dir₂) ∧
      log₂.liveSet = log.liveSet := ⟨log₂, dir₂, again, same⟩
  cases point with
  | current =>
    exact build (named s.dir) s.store.ssts ⟨log, dir', rests.opened, rfl⟩ fun _ _ => rfl
  | replayed =>
    simp only [crashOpen, openCut, rests.opened]
    exact build dir' s.store.ssts replayed fun _ _ => rfl
  | bootstrap k m =>
    have none_ : (Manifest.Call.bootstrapIfEmpty (discoverSSTIDs s.store.ssts)).steps ⟨log, dir'⟩ =
        [] := by
      rw [Manifest.Call.steps, if_pos]
      rw [Adopts, rests.opened] at adopts
      by_cases empty : log.liveSet = ∅
      · right
        by_contra some_
        exact adopts ⟨empty, some_⟩
      · exact .inl empty
    simp only [crashOpen, openCut, rests.opened, none_, Crash.crashed]
    exact build dir' s.store.ssts replayed fun _ _ => rfl
  | quarantine n =>
    obtain ⟨readers, -, opened⟩ := rests.openTables adopts
    simp only [crashOpen, openCut, opened]
    refine build dir' _ replayed fun id member => ?_
    exact lookup_filter_of_kept _ _ _ fun entry _ same => decide_eq_true (.inl (same ▸ member))

/-! ### Runs -/

theorem table_records (env : Env) (acc : TableStore.Accounts phase s.store)
    (records : s.store.Records s.recorded) (i : TableStep) (safe : s.Safe (.table i)) :
    (s.store.step env i).Records ((s.commits i).toList ++ s.recorded) := by
  cases calls : s.store.call i with
  | some c =>
    rw [commits, calls]
    dsimp only
    rw [if_pos (c.run_returns_nil _ acc.intact.isOpen)]
    exact TableStore.call_records env acc records i c calls
  | none =>
    rw [commits, calls]
    show (s.store.step env i).Records s.recorded
    by_cases publish : i = .flushPublish
    · rw [publish]
      exact TableStore.flushPublish_records env records
    by_cases swap : i = .swap
    · rw [swap]
      exact TableStore.swap_records env acc records
    by_cases mergeBegin : i = .mergeBegin
    · subst mergeBegin
      exact TableStore.mergeBegin_records env records safe
    by_cases begins : ∃ imm, i = .flushBegin imm
    · obtain ⟨imm, rfl⟩ := begins
      exact TableStore.flushBegin_records env records imm safe
    · exact records.quiet (TableStore.step_quiet env s.store i calls publish swap
        (fun imm is => begins ⟨imm, is⟩) mergeBegin)

theorem step_kept (env : Env) (s : Lifetime) (i : LifeStep) (inv : s.Kept) (safe : s.Safe i) :
    (s.step env i).Kept := by
  cases running : s.running with
  | true =>
    obtain ⟨⟨phase, acc⟩, records⟩ := inv.running running
    cases i with
    | table i =>
      simp only [step, running]
      refine ⟨fun _ => ⟨TableStore.step_accounts env s.store i ⟨phase, acc⟩
        (store_safe acc records i safe), table_records env acc records i safe⟩, nofun⟩
    | crash =>
      simp only [step, running]
      exact crash_kept acc records
    | crashIn i k m =>
      simp only [step, running]
      exact crashIn_kept env acc records i k m
    | openDB | crashOpen =>
      simp only [step, running]
      exact inv
  | false =>
    obtain ⟨log, dir', rests⟩ := inv.resting running
    cases i with
    | openDB compactThreshold =>
      simp only [step, running]
      exact openDB_kept rests (safe running) compactThreshold
    | crashOpen point =>
      simp only [step, running]
      exact crashOpen_kept rests running (safe running) point
    | table | crash | crashIn =>
      simp only [step, running]
      exact inv

theorem Rests.opensClean (env : Env) (rests : s.Rests log dir') (stopped : s.running = false)
    (adopts : ¬s.Adopts) (compactThreshold : Int) : s.OpensClean env compactThreshold := by
  obtain ⟨readers, loaded, eq⟩ := openDB_eq rests adopts compactThreshold
  have ids := (loadSSTables_ok _ _ _ _ loaded).1
  have opened : s.step env (.openDB compactThreshold) = s.openDB compactThreshold := by
    simp only [step, stopped]
  refine ⟨?_, fun r member => ?_, fun id member => ?_⟩
  · rw [opened, eq]
  · rw [opened, eq] at member
    exact (started_records rests compactThreshold readers loaded).list r member
  · obtain ⟨dead, small⟩ := rests.orphans id member
    rw [opened, eq]
    constructor
    · show id ∉ readers.map Reader.id
      rw [ids, log.mem_liveIDs]
      exact dead
    · show id ∉ (removeOrphanSSTFiles s.store.ssts log.liveSet).map Prod.fst
      intro left
      obtain ⟨entry, kept, rfl⟩ := List.mem_map.mp left
      obtain ⟨there, reason⟩ := List.mem_filter.mp kept
      rcases of_decide_eq_true reason with live | hidden
      · exact dead live
      · -- an id of eight digits is discovered
        exact hidden ((mem_discoverSSTIDs _ _).mpr
          ⟨List.mem_map_of_mem there, (sstNamed_iff _).mpr small⟩)

/-- From an empty directory, through flushes, compactions, crashes between and inside their
steps and inside `Open`, and reopens: whenever `Open` has nothing to adopt and table ids have
at most eight digits, `Open` loads recorded tables only, and the others are out of the way. -/
theorem opensClean_of_safe (env : Env) (steps : List LifeStep) (compactThreshold : Int)
    (safe : Machine.Always (step env) Safe empty (steps ++ [.openDB compactThreshold]))
    (stopped : (Machine.run (step env) empty steps).running = false) :
    (Machine.run (step env) empty steps).OpensClean env compactThreshold := by
  rw [Machine.always_append] at safe
  obtain ⟨before, atLast, -⟩ := safe
  have kept := Machine.run_invariant (step env) Safe Kept (step_kept env) empty steps empty_kept before
  obtain ⟨log, dir', rests⟩ := kept.resting stopped
  exact rests.opensClean env stopped (atLast stopped) compactThreshold

/-- The steps of a flush up to the rename and the reader. -/
def unrecorded (key : Bytes) : List LifeStep :=
  [.table (.flushBegin (Memtable.SkipList.new.put key [1] fun _ => false)), .table (.flushGrow [0]),
    .table (.flushClose none), .table .flushOpen]

/-- The second flush is cut off inside its record. -/
theorem opensClean_torn_record :
    let s := Machine.run (step smallEnv) empty ([.openDB 4] ++
      (TableStore.flush [97]).map .table ++ unrecorded [98] ++ [.crashIn .flushCommit 0 3])
    (s.recorded = [1] ∧ s.orphans = [2] ∧ s.store.ssts.map Prod.fst = [2, 1]) ∧
      s.OpensClean smallEnv 4 :=
  ⟨by decide +kernel,
    opensClean_of_safe smallEnv _ 4 (by decide +kernel) (by decide +kernel)⟩

/-- The first flush is cut off before its record: the table is adopted. -/
theorem not_opensClean_first_flush :
    let s := Machine.run (step smallEnv) empty ([.openDB 4] ++ unrecorded [97] ++ [.crash])
    (s.recorded = [] ∧ s.orphans = [1]) ∧
      (s.step smallEnv (.openDB 4)).store.db.sstables.map Reader.id = [1] ∧
      ¬s.OpensClean smallEnv 4 := by
  intro s
  have loaded : (s.step smallEnv (.openDB 4)).store.db.sstables.map Reader.id = [1] := by
    decide +kernel
  have orphan : s.orphans = [1] := by decide +kernel
  refine ⟨⟨by decide +kernel, orphan⟩, loaded, fun clean => ?_⟩
  refine (clean.orphans 1 ?_).1 ?_
  · rw [orphan]
    exact List.mem_cons_self
  · rw [loaded]
    exact List.mem_cons_self

end Lifetime

end PebbleDB.Db
