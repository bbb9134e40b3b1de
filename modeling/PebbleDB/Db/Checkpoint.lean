import PebbleDB.Db.Node
import PebbleDB.Lib.Machine

/-!
# The flush checkpoint across crashes

The flusher commits a table, writes `wal.flush`, truncates the log and removes
`wal.flush`; a crash can stop it between any two of these, while batches are appended
all the time. `Open` decides from the size of the log alone whether the truncation named
by a checkpoint has run. A run here is any sequence of such steps with at most one
memtable queued; it remembers which records went into which memtable and table.
-/
namespace PebbleDB.Db

open Memtable (SkipList Slot)
open Wal (Record)

/-- A committed table with its history. -/
structure FlushedTable where
  id : UInt64
  mem : SkipList
  applied : List Record

/-- The memtable is what the records make of an empty one. -/
def Image (mem : SkipList) (applied : List Record) : Prop :=
  ∀ key, mem.find key = (lastRecord key applied).map slotOf

/-- The table file on disk is the one written for the memtable. -/
def FlushedTable.Written (env : Env) (ssts : SstFiles) (t : FlushedTable) : Prop :=
  ∃ file, Sst.writeTable env.sizing defaultBlockSize t.mem.len t.mem.entries = .ok file ∧
    ssts.lookup t.id = some file

/-- One execution of `Open`: the log and the tables it found, and the offset returned by
`walReplayStartOffset`. -/
structure Opening where
  limits : Wal.ReplayLimits
  wal : Bytes
  offset : Int
  live : Finset UInt64
  ssts : SstFiles
  tables : List FlushedTable

/-- The record is in a live table: it was applied to the memtable from which the file
of that table was written. -/
def InLiveTable (env : Env) (live : Finset UInt64) (ssts : SstFiles) (tables : List FlushedTable)
    (rec : Record) : Prop :=
  ∃ t ∈ tables, t.id ∈ live ∧ t.Written env ssts ∧ Image t.mem t.applied ∧ rec ∈ t.applied

/-- The records the replay delivers. -/
def Opening.delivered (o : Opening) : List Record :=
  (Wal.replayFromWithRecovery o.limits o.offset.toNat (Wal.total Wal.collect) [] o.wal).state

/-- The offset is a record boundary, the records before it are in live tables, and the
replay delivers the others. -/
def Opening.Sound (env : Env) (o : Opening) : Prop :=
  ∃ front rest, Wal.Stores o.limits o.wal (front ++ rest) ∧ o.offset = Wal.size front ∧
    (∀ rec ∈ front, InLiveTable env o.live o.ssts o.tables rec) ∧
    (o.wal.length ≤ o.limits.maxFileSize → o.delivered = rest)

/-- A run with its history; `truncated` says whether the truncation for the last written
`wal.flush` has run. -/
structure CheckpointRun where
  node : Node
  active : List Record
  queued : List Record
  tables : List FlushedTable
  truncated : Bool
  openings : List Opening

theorem image_new : Image SkipList.new [] := fun key => SkipList.find_new key

theorem Image.applyRecords {mem : SkipList} {applied : List Record} (image : Image mem applied)
    (coins : Nat → Nat → Bool) (i : Nat) (batch : List Record) :
    Image (applyRecords coins i mem batch) (applied ++ batch) := by
  intro key
  rw [find_applyRecords, image key, lastRecord_append, Option.map_or]

theorem InLiveTable.commit {env : Env} {live : Finset UInt64} {ssts : SstFiles} {tables : List FlushedTable}
    {rec : Record} (inside : InLiveTable env live ssts tables rec) (id : UInt64) (file : Bytes)
    (fresh : id ∉ live) (t : FlushedTable) :
    InLiveTable env (insert id live) (ssts.write id file) (tables ++ [t]) rec := by
  obtain ⟨old, member, isLive, ⟨data, written, found⟩, image, applied⟩ := inside
  have ne : old.id ≠ id := fun same => fresh (same ▸ isLive)
  exact ⟨old, List.mem_append_left _ member, Finset.mem_insert_of_mem isLive,
    ⟨data, written, by rw [lookup_write_of_ne ssts id old.id file ne, found]⟩, image, applied⟩

namespace CheckpointRun

/-- What `Open` finds, if it gets as far as the log. -/
def opening (r : CheckpointRun) : Option Opening :=
  let db := r.node.sys.db
  match openTables db.manifest.dir r.node.ssts db.nextFileID with
  | .error _ => none
  | .ok tables =>
    match walReplayStartOffset tables.manifest.log.liveSet db.walFlush db.wal.length with
    | .error _ => none
    | .ok offset =>
      some ⟨db.walLimits, db.wal, offset, tables.manifest.log.liveSet, tables.ssts, r.tables⟩

/-- The active memtable, with these records in it, may have been frozen. -/
def froze (r : CheckpointRun) (node : Node) (applied : List Record) : CheckpointRun :=
  if r.node.sys.db.pendingFlush.length < node.sys.db.pendingFlush.length then
    { r with node := node, queued := applied, active := [] }
  else { r with node := node, active := applied }

/-- The batch flusher finished a batch. -/
def finished (r : CheckpointRun) (node : Node) : CheckpointRun :=
  match r.node.sys.persist with
  | .appended batch => r.froze node (r.active ++ batch)
  | _ => { r with node := node }

/-- The flusher may have committed the table of the queued memtable. -/
def committed (r : CheckpointRun) (node : Node) : CheckpointRun :=
  match r.node.flusher, node.flusher, r.node.sys.db.pendingFlush with
  | .idle, .committed _ id, entry :: _ =>
    { r with node := node, tables := r.tables ++ [⟨id, entry.mem, r.queued⟩] }
  | _, _, _ => { r with node := node }

/-- A new checkpoint may have been written. -/
def recorded (r : CheckpointRun) (node : Node) : CheckpointRun :=
  match r.node.flusher with
  | .committed _ _ => { r with node := node, truncated := false }
  | _ => { r with node := node }

/-- The log may have been truncated. -/
def cut (r : CheckpointRun) (node : Node) : CheckpointRun :=
  match node.flusher with
  | .truncated => { r with node := node, truncated := true }
  | _ => { r with node := node }

/-- `Open` was executed. -/
def reopened (r : CheckpointRun) (node : Node) : CheckpointRun :=
  let openings := r.openings ++ r.opening.toList
  if node.up then
    { r with
      node := node
      openings := openings
      active := (r.opening.map Opening.delivered).getD []
      queued := [] }
  else { r with node := node, openings := openings }

def step (env : Env) (r : CheckpointRun) (i : NodeStep) : CheckpointRun :=
  let node := r.node.step env i
  if r.node.up then
    match i with
    | .finish _ => r.finished node
    | .freeze => r.froze node r.active
    | .commit => r.committed node
    | .writeState => r.recorded node
    | .truncate => r.cut node
    | _ => { r with node := node }
  else
    match i with
    | .reopen _ => r.reopened node
    | _ => { r with node := node }

/-- Every execution of `Open` so far found a sound checkpoint. -/
def Sound (env : Env) (r : CheckpointRun) : Prop := ∀ o ∈ r.openings, o.Sound env

/-- Just opened: no checkpoint, an undamaged log from which the active memtable was
filled, an intact manifest and only live tables, whose ids are below the next one. -/
structure Opened (r : CheckpointRun) : Prop where
  up : r.node.up = true
  idle : r.node.sys.persist = .idle
  flusher : r.node.flusher = .idle
  batch : r.node.sys.db.pendingBatch = []
  queue : r.node.sys.db.pendingFlush = []
  limits : r.node.sys.db.walLimits.withDefaults = r.node.sys.db.walLimits
  log : Wal.Stores r.node.sys.db.walLimits r.node.sys.db.wal r.active
  active : Image r.node.sys.db.active r.active
  walFlush : r.node.sys.db.walFlush = none
  manifest : Manifest.Intact r.node.sys.db.manifest
  listed : ∀ entry ∈ r.node.ssts, entry.1 ∈ r.node.sys.db.manifest.log.liveSet
  ids : ∀ id ∈ r.node.sys.db.manifest.log.liveSet, id ≤ r.node.sys.db.nextSSTID
  tables : r.tables = []
  openings : r.openings = []

/-- At `Open`: if the truncation of the checkpoint has run, the log is shorter than its
offset. At the end of a batch and at a freeze by `Close` or `ForceMemtableFlush`: at most
one memtable is queued then. Such a freeze finds no batch that is logged and not in the
memtable, nor one that will be refused. The others keep lengths, ids and sizes inside their
fields. -/
def Safe (r : CheckpointRun) : NodeStep → Prop
  | .write rec => rec.key.length < 2 ^ 32 ∧ rec.value.length < 2 ^ 32
  | .finish coins => (r.node.sys.finish coins).db.pendingFlush.length ≤ 1
  | .freeze => r.node.sys.db.freezeActive.pendingFlush.length ≤ 1 ∧
      r.node.sys.persist.written = none ∧
      ∀ rec ∈ r.node.sys.persist.inflight ++ r.node.sys.db.pendingBatch,
        (Wal.encodeRecord rec r.node.sys.db.walLimits).isOk = true
  | .commit => r.node.sys.db.nextSSTID.toNat + 1 < 2 ^ 64 ∧
      r.node.sys.db.manifest.log.liveSet.card < Manifest.maxLive
  | .writeState => r.node.sys.db.wal.length < 2 ^ 63
  | .reopen _ => r.truncated = true →
      match (readWalFlushState r.node.sys.db.walFlush).1 with
      | .ok (some st) => r.node.sys.db.wal.length < st.freezeOffset
      | _ => True
  | _ => True

instance (r : CheckpointRun) : (i : NodeStep) → Decidable (r.Safe i)
  | .write _ => inferInstanceAs (Decidable (_ ∧ _))
  | .finish _ => inferInstanceAs (Decidable (_ ≤ _))
  | .freeze => inferInstanceAs (Decidable (_ ∧ _ ∧ _))
  | .commit => inferInstanceAs (Decidable (_ ∧ _))
  | .writeState => inferInstanceAs (Decidable (_ < _))
  | .reopen _ =>
    match h : (readWalFlushState r.node.sys.db.walFlush).1 with
    | .ok (some st) =>
      decidable_of_iff (r.truncated = true → r.node.sys.db.wal.length < st.freezeOffset)
        (by rw [Safe, h])
    | .ok none => .isTrue (by rw [Safe, h]; exact fun _ => trivial)
    | .error _ => .isTrue (by rw [Safe, h]; exact fun _ => trivial)
  | .take | .append | .report | .truncate | .removeState | .pop | .crash => .isTrue trivial

/-! ### The invariant -/

/-- All these records are in live tables. -/
def Covers (env : Env) (r : CheckpointRun) (front : List Record) : Prop :=
  ∀ rec ∈ front, InLiveTable env r.node.sys.db.manifest.log.liveSet r.node.ssts r.tables rec

/-- The records behind the last freeze point are in the active memtable, apart from a
batch that is just logged. A batch that was logged in part will be refused again. -/
def Recent (r : CheckpointRun) (recent : List Record) : Prop :=
  match r.node.sys.persist with
  | .appended batch => ∃ done, recent = done ++ batch ∧ ∀ rec ∈ done, rec ∈ r.active
  | .taken batch | .failed batch => (∀ rec ∈ recent, rec ∈ r.active) ∨
      ∃ rec ∈ batch, Wal.Refused r.node.sys.db.walLimits rec
  | .idle | .restored => (∀ rec ∈ recent, rec ∈ r.active) ∨
      ∃ rec ∈ r.node.sys.db.pendingBatch, Wal.Refused r.node.sys.db.walLimits rec

/-- The part of the log that belongs to the queued memtable, until its table is live. -/
def Queue (r : CheckpointRun) (front queued : List Record) : Prop :=
  match r.node.flusher with
  | .idle =>
    r.node.sys.db.pendingFlush = [] ∧ queued = [] ∨
      ∃ entry, r.node.sys.db.pendingFlush = [entry] ∧
        entry.walCutoff = Wal.size (front ++ queued) ∧ (∀ rec ∈ queued, rec ∈ r.queued) ∧
        Image entry.mem r.queued
  | .committed walCutoff _ | .recorded walCutoff =>
    (∃ entry, r.node.sys.db.pendingFlush = [entry]) ∧ queued = [] ∧ walCutoff = Wal.size front
  | .truncated | .removed => (∃ entry, r.node.sys.db.pendingFlush = [entry]) ∧ queued = []

/-- The checkpoint on disk, if there is one, is sound as long as its truncation has not
run. -/
def Trusted (env : Env) (r : CheckpointRun) : Prop :=
  r.node.sys.db.walFlush = none ∨
    ∃ st : WalFlushState, r.node.sys.db.walFlush = some st.encoded ∧
      -2 ^ 63 ≤ st.freezeOffset ∧ st.freezeOffset < 2 ^ 63 ∧
      (r.truncated = false →
        ∃ front rest, Wal.Stores r.node.sys.db.walLimits r.node.sys.db.wal (front ++ rest) ∧
          st.freezeOffset = Wal.size front ∧ r.Covers env front)

/-- What the files keep through crashes. -/
structure Files (env : Env) (r : CheckpointRun) : Prop where
  limits : r.node.sys.db.walLimits.withDefaults = r.node.sys.db.walLimits
  log : ∃ rs, Wal.Stores r.node.sys.db.walLimits r.node.sys.db.wal rs
  manifest : Manifest.Intact r.node.sys.db.manifest
  listed : ∀ entry ∈ r.node.ssts, entry.1 ∈ r.node.sys.db.manifest.log.liveSet
  tables : ∀ t ∈ r.tables, t.id ∈ r.node.sys.db.manifest.log.liveSet
  trusted : r.Trusted env

/-- What holds in addition while the process runs. -/
structure Memory (env : Env) (r : CheckpointRun) : Prop where
  ids : ∀ id ∈ r.node.sys.db.manifest.log.liveSet, id ≤ r.node.sys.db.nextSSTID
  active : Image r.node.sys.db.active r.active
  small : ∀ rec ∈ r.node.sys.persist.inflight ++ r.node.sys.db.pendingBatch,
    rec.key.length < 2 ^ 32 ∧ rec.value.length < 2 ^ 32
  layout : ∃ front queued recent,
    Wal.Stores r.node.sys.db.walLimits r.node.sys.db.wal (front ++ queued ++ recent) ∧
      r.Covers env front ∧ r.Queue front queued ∧ r.Recent recent

structure Consistent (env : Env) (r : CheckpointRun) : Prop where
  files : r.Files env
  memory : r.node.up = true → r.Memory env
  sound : r.Sound env

theorem Opened.consistent (env : Env) (r : CheckpointRun) (opened : r.Opened) :
    r.Consistent env := by
  refine ⟨⟨opened.limits, ⟨_, opened.log⟩, opened.manifest, opened.listed, ?_,
    .inl opened.walFlush⟩, fun _ => ⟨opened.ids, opened.active, ?_, [], [], r.active, ?_⟩, ?_⟩
  · simp [opened.tables]
  · simp [opened.idle, opened.batch, Persist.inflight]
  · refine ⟨opened.log, by simp [Covers], ?_, ?_⟩
    · rw [Queue, opened.flusher]
      exact .inl ⟨opened.queue, rfl⟩
    · rw [Recent, opened.idle]
      exact .inl fun rec member => member
  · simp [Sound, opened.openings]

/-- The parts of the history that a step of the batch flusher leaves alone. -/
structure Kept (r r' : CheckpointRun) : Prop where
  ssts : r'.node.ssts = r.node.ssts
  tables : r'.tables = r.tables
  truncated : r'.truncated = r.truncated
  openings : r'.openings = r.openings
  limits : r'.node.sys.db.walLimits = r.node.sys.db.walLimits
  manifest : r'.node.sys.db.manifest = r.node.sys.db.manifest
  walFlush : r'.node.sys.db.walFlush = r.node.sys.db.walFlush

theorem Kept.covers {env : Env} {r r' : CheckpointRun} (kept : Kept r r') (front : List Record)
    (covers : r.Covers env front) : r'.Covers env front := by
  rw [Covers, kept.ssts, kept.tables, kept.manifest]
  exact covers

/-- Records added behind the others, and nothing else on disk changed. -/
theorem Consistent.keep {env : Env} {r r' : CheckpointRun} (inv : r.Consistent env)
    (kept : Kept r r')
    (grown : ∀ rs, Wal.Stores r.node.sys.db.walLimits r.node.sys.db.wal rs →
      ∃ added, Wal.Stores r.node.sys.db.walLimits r'.node.sys.db.wal (rs ++ added))
    (memory : r'.node.up = true → r'.Memory env) : r'.Consistent env := by
  have files := inv.files
  refine ⟨⟨?_, ?_, ?_, ?_, ?_, ?_⟩, memory, ?_⟩
  · rw [kept.limits]
    exact files.limits
  · obtain ⟨rs, stores⟩ := files.log
    obtain ⟨added, stores⟩ := grown rs stores
    rw [kept.limits]
    exact ⟨_, stores⟩
  · rw [kept.manifest]
    exact files.manifest
  · rw [kept.ssts, kept.manifest]
    exact files.listed
  · rw [kept.tables, kept.manifest]
    exact files.tables
  · rw [Trusted, kept.walFlush, kept.truncated, kept.limits]
    rcases files.trusted with none_ | ⟨st, file, low, high, trusted⟩
    · exact .inl none_
    · refine .inr ⟨st, file, low, high, ?_⟩
      intro before
      obtain ⟨front, rest, stores, offset, covers⟩ := trusted before
      obtain ⟨added, stores⟩ := grown _ stores
      rw [List.append_assoc] at stores
      exact ⟨front, rest ++ added, stores, offset, kept.covers front covers⟩
  · rw [Sound, kept.openings]
    exact inv.sound

/-- The log itself is unchanged. -/
theorem Consistent.keep_wal {env : Env} {r r' : CheckpointRun} (inv : r.Consistent env)
    (kept : Kept r r') (wal : r'.node.sys.db.wal = r.node.sys.db.wal)
    (memory : r'.node.up = true → r'.Memory env) : r'.Consistent env := by
  refine inv.keep kept ?_ memory
  intro rs stores
  refine ⟨[], ?_⟩
  rw [List.append_nil, wal]
  exact stores

/-! ### Steps of the batch flusher -/

section Batch

variable {env : Env} {r : CheckpointRun}

theorem write_consistent (inv : r.Consistent env) (up : r.node.up = true) (rec : Record)
    (small : rec.key.length < 2 ^ 32 ∧ rec.value.length < 2 ^ 32) :
    ({ r with node.sys := r.node.sys.enqueue rec } : CheckpointRun).Consistent env := by
  simp only [Committer.enqueue]
  split
  · exact inv
  · refine inv.keep_wal ⟨rfl, rfl, rfl, rfl, rfl, rfl, rfl⟩ rfl fun _ => ?_
    obtain ⟨ids, active, lengths, front, queued, recent, stores, covers, queue, logged⟩ :=
      inv.memory up
    refine ⟨ids, active, ?_, front, queued, recent, stores, covers, queue, ?_⟩
    · intro w member
      rw [← List.append_assoc] at member
      rcases List.mem_append.mp member with old | new
      · exact lengths w old
      · rw [List.mem_singleton.mp new]
        exact small
    · rw [Recent] at logged ⊢
      cases at_ : r.node.sys.persist with
      | idle | restored =>
        rw [at_] at logged
        simp only
        rcases logged with all | ⟨w, member, refused⟩
        · exact .inl all
        · exact .inr ⟨w, List.mem_append_left _ member, refused⟩
      | taken batch | appended batch | failed batch =>
        rw [at_] at logged
        exact logged

theorem take_consistent (inv : r.Consistent env) (up : r.node.up = true) :
    ({ r with node.sys := r.node.sys.take } : CheckpointRun).Consistent env := by
  simp only [Committer.take]
  cases at_ : r.node.sys.persist with
  | idle =>
    simp only
    split
    · exact inv
    · refine inv.keep_wal ⟨rfl, rfl, rfl, rfl, rfl, rfl, rfl⟩ rfl fun _ => ?_
      obtain ⟨ids, active, lengths, front, queued, recent, stores, covers, queue, logged⟩ :=
        inv.memory up
      rw [at_] at lengths
      rw [Recent, at_] at logged
      refine ⟨ids, active, ?_, front, queued, recent, stores, covers, queue, logged⟩
      simpa [Persist.inflight, takePendingBatchLocked] using lengths
  | taken batch | appended batch | failed batch | restored =>
    exact inv

theorem append_consistent (inv : r.Consistent env) (up : r.node.up = true) :
    ({ r with node.sys := r.node.sys.append .none } : CheckpointRun).Consistent env := by
  simp only [Committer.append]
  cases at_ : r.node.sys.persist with
  | taken batch =>
    obtain ⟨ids, active, lengths, front, queued, recent, stores, covers, queue, logged⟩ :=
      inv.memory up
    rw [at_] at lengths
    rw [Recent, at_] at logged
    have fits : ∀ rec ∈ batch, rec.key.length < 2 ^ 32 ∧ rec.value.length < 2 ^ 32 :=
      fun rec member => lengths rec (List.mem_append_left _ member)
    have refusal := Wal.appendBatch_refused_iff r.node.sys.db.walLimits r.node.sys.db.wal batch
    obtain ⟨added, stored, all⟩ := stores.append batch fits
    have grown : ∀ rs, Wal.Stores r.node.sys.db.walLimits r.node.sys.db.wal rs →
        ∃ added, Wal.Stores r.node.sys.db.walLimits
          (Wal.appendBatch r.node.sys.db.walLimits r.node.sys.db.wal batch .none).1
          (rs ++ added) := by
      intro rs stores
      obtain ⟨added, stored, _⟩ := stores.append batch fits
      exact ⟨added, stored⟩
    rw [List.append_assoc] at stored
    cases appended : Wal.appendBatch r.node.sys.db.walLimits r.node.sys.db.wal batch .none with
    | mk wal err =>
      rw [appended] at refusal stored all grown
      cases err with
      | some e =>
        -- a record of the batch is refused, and will be at every retry
        simp only [appended]
        refine inv.keep ⟨rfl, rfl, rfl, rfl, rfl, rfl, rfl⟩ grown fun _ => ?_
        exact ⟨ids, active, lengths, front, queued, recent ++ added, stored, covers, queue,
          .inr (refusal.mp (by simp))⟩
      | none =>
        simp only [appended]
        refine inv.keep ⟨rfl, rfl, rfl, rfl, rfl, rfl, rfl⟩ grown fun _ => ?_
        have applied : ∀ rec ∈ recent, rec ∈ r.active := by
          rcases logged with applied | refused
          · exact applied
          · exact absurd (refusal.mpr refused) (by simp)
        rw [all rfl] at stored
        exact ⟨ids, active, lengths, front, queued, recent ++ batch, stored, covers, queue,
          recent, rfl, applied⟩
  | idle | appended batch | failed batch | restored =>
    exact inv

theorem report_consistent (inv : r.Consistent env) (up : r.node.up = true) :
    ({ r with node.sys := r.node.sys.report } : CheckpointRun).Consistent env := by
  simp only [Committer.report]
  cases at_ : r.node.sys.persist with
  | restored =>
    refine inv.keep_wal ⟨rfl, rfl, rfl, rfl, rfl, rfl, rfl⟩ rfl fun _ => ?_
    obtain ⟨ids, active, lengths, front, queued, recent, stores, covers, queue, logged⟩ :=
      inv.memory up
    rw [at_] at lengths
    rw [Recent, at_] at logged
    exact ⟨ids, active, lengths, front, queued, recent, stores, covers, queue, logged⟩
  | idle | taken batch | appended batch | failed batch =>
    exact inv

/-- With nothing queued the flusher is idle. -/
theorem Queue.idle_of_empty {front queued : List Record} (queue : r.Queue front queued)
    (empty : r.node.sys.db.pendingFlush = []) : r.node.flusher = .idle ∧ queued = [] := by
  rw [Queue, empty] at queue
  cases phase : r.node.flusher with
  | idle =>
    rw [phase] at queue
    rcases queue with ⟨_, nothing⟩ | ⟨entry, absurd_, _⟩
    · exact ⟨rfl, nothing⟩
    · cases absurd_
  | committed walCutoff sstID | recorded walCutoff | truncated | removed =>
    rw [phase] at queue
    obtain ⟨⟨entry, absurd_⟩, _⟩ := queue
    cases absurd_

/-- What is logged behind the last freeze point is in the memtable once the batch is. -/
theorem Recent.applied {recent batch : List Record} (logged : r.Recent recent)
    (at_ : r.node.sys.persist = .appended batch) : ∀ rec ∈ recent, rec ∈ r.active ++ batch := by
  rw [Recent, at_] at logged
  obtain ⟨done, rfl, known⟩ := logged
  intro rec member
  rcases List.mem_append.mp member with old | new
  · exact List.mem_append_left _ (known rec old)
  · exact List.mem_append_right _ new

/-- The batch is in the active memtable. -/
def applied (r : CheckpointRun) (batch : List Record) (coins : Nat → Nat → Bool) : CheckpointRun :=
  { r with
    node.sys := ⟨{ r.node.sys.db with
      active := applyRecords coins 0 r.node.sys.db.active batch }, .idle⟩
    active := r.active ++ batch }

theorem applied_memory (memory : r.Memory env) (batch : List Record)
    (at_ : r.node.sys.persist = .appended batch) (coins : Nat → Nat → Bool) :
    (r.applied batch coins).Memory env := by
  obtain ⟨ids, active, lengths, front, queued, recent, stores, covers, queue, logged⟩ := memory
  exact ⟨ids, active.applyRecords coins 0 batch,
    fun rec member => lengths rec (List.mem_append_right _ member), front, queued, recent, stores,
    covers, queue, .inl (logged.applied at_)⟩

/-- A memtable with these records is frozen. -/
def frozen (r : CheckpointRun) (mem : SkipList) (applied : List Record) (persist : Persist) :
    CheckpointRun :=
  { r with
    node.sys := ⟨DB.freeze { r.node.sys.db with active := mem }, persist⟩
    queued := applied
    active := [] }

/-- The queue was empty, so the log splits at the new freeze point. -/
theorem frozen_memory (memory : r.Memory env) {mem : SkipList} {applied : List Record}
    (image : Image mem applied) {persist : Persist} (done : persist.written = none)
    (fewer : persist.inflight ⊆ r.node.sys.persist.inflight)
    (inside : ∀ recent, r.Recent recent → ∀ rec ∈ recent, rec ∈ applied)
    (empty : r.node.sys.db.pendingFlush = []) : (r.frozen mem applied persist).Memory env := by
  obtain ⟨ids, -, lengths, front, queued, recent, stores, covers, queue, logged⟩ := memory
  obtain ⟨idle, rfl⟩ := queue.idle_of_empty empty
  rw [List.append_nil] at stores
  refine ⟨ids, image_new, fun rec member => lengths rec ?_, front, recent, [], ?_, covers, ?_, ?_⟩
  · exact List.mem_append.mpr ((List.mem_append.mp member).imp_left fun known => fewer known)
  · rw [List.append_nil]
    exact stores
  · simp only [Queue, frozen, idle]
    refine .inr ⟨⟨mem, r.node.sys.db.wal.length⟩, ?_, stores.length, inside recent logged, image⟩
    simp only [DB.freeze, empty, List.nil_append]
  · cases persist with
    | appended => cases done
    | idle | taken | failed | restored => exact .inl (by simp)

theorem finish_consistent (inv : r.Consistent env) (up : r.node.up = true)
    (coins : Nat → Nat → Bool)
    (single : (r.node.sys.finish coins).db.pendingFlush.length ≤ 1) :
    (r.finished { r.node with sys := r.node.sys.finish coins }).Consistent env := by
  cases at_ : r.node.sys.persist with
  | appended batch =>
    simp only [finished, froze, Committer.finish, at_, DB.maybeFlushLocked] at single ⊢
    split at single
    next full =>
      simp only [if_pos full, Nat.lt_irrefl, if_false]
      exact inv.keep_wal ⟨rfl, rfl, rfl, rfl, rfl, rfl, rfl⟩ rfl fun _ =>
        applied_memory (inv.memory up) batch at_ coins
    next full =>
      have empty : r.node.sys.db.pendingFlush = [] := by
        simpa [DB.freeze] using single
      have grown : r.node.sys.db.pendingFlush.length <
          (DB.freeze { r.node.sys.db with
            active := applyRecords coins 0 r.node.sys.db.active batch }).pendingFlush.length := by
        simp [DB.freeze]
      simp only [if_neg full, if_pos grown]
      exact inv.keep_wal ⟨rfl, rfl, rfl, rfl, rfl, rfl, rfl⟩ rfl fun _ =>
        frozen_memory (inv.memory up) ((inv.memory up).active.applyRecords coins 0 batch) rfl
          (List.nil_subset _) (fun _ logged => logged.applied at_) empty
  | failed batch =>
    simp only [finished, Committer.finish, at_]
    refine inv.keep_wal ⟨rfl, rfl, rfl, rfl, rfl, rfl, rfl⟩ rfl fun _ => ?_
    obtain ⟨ids, active, lengths, front, queued, recent, stores, covers, queue, logged⟩ :=
      inv.memory up
    rw [at_] at lengths
    rw [Recent, at_] at logged
    refine ⟨ids, active, lengths, front, queued, recent, stores, covers, queue, ?_⟩
    rcases logged with applied | ⟨rec, member, refused⟩
    · exact .inl applied
    · -- it is back in the queue, where the next flush takes it again
      exact .inr ⟨rec, List.mem_append_left _ member, refused⟩
  | idle | taken batch | restored =>
    simp only [finished, Committer.finish, at_]
    exact inv

/-- Nothing is logged behind the last freeze point but what the memtable holds. -/
theorem freeze_consistent (inv : r.Consistent env) (up : r.node.up = true) (safe : r.Safe .freeze) :
    (r.froze { r.node with sys.db := r.node.sys.db.freezeActive } r.active).Consistent env := by
  obtain ⟨single, done, accepted⟩ := safe
  have inside (recent : List Record) (logged : r.Recent recent) : ∀ rec ∈ recent, rec ∈ r.active := by
    rw [Recent] at logged
    cases at_ : r.node.sys.persist with
    | appended =>
      rw [at_] at done
      cases done
    | idle | taken | failed | restored =>
      rw [at_] at logged accepted
      refine logged.resolve_right fun ⟨rec, member, e, refused⟩ => ?_
      have ok := accepted rec (by simp [Persist.inflight, member])
      rw [refused] at ok
      cases ok
  rw [DB.freezeActive] at single ⊢
  split at single
  next full =>
    have empty : r.node.sys.db.pendingFlush = [] := by
      simpa [DB.freeze] using single
    simp only [froze, if_pos full, DB.freeze, List.length_append, List.length_singleton,
      Nat.lt_succ_self, if_true]
    exact inv.keep_wal ⟨rfl, rfl, rfl, rfl, rfl, rfl, rfl⟩ rfl fun _ =>
      frozen_memory (inv.memory up) (inv.memory up).active done (List.Subset.refl _) inside empty
  next full =>
    simp only [froze, if_neg full, Nat.lt_irrefl, if_false]
    exact inv

end Batch

/-! ### Steps of the flusher -/

section Flusher

variable {env : Env} {r : CheckpointRun}

theorem Trusted.stale {r' : CheckpointRun} (trusted : r.Trusted env)
    (file : r'.node.sys.db.walFlush = r.node.sys.db.walFlush) (done : r'.truncated = true) :
    r'.Trusted env := by
  rw [Trusted, file, done]
  rcases trusted with none_ | ⟨st, file, low, high, _⟩
  · exact .inl none_
  · exact .inr ⟨st, file, low, high, fun before => by cases before⟩

/-- The checkpoint is written when everything before its offset is in live tables. -/
theorem writeState_consistent (inv : r.Consistent env) (up : r.node.up = true)
    (short : r.node.sys.db.wal.length < 2 ^ 63) : (r.recorded r.node.writeState).Consistent env := by
  simp only [recorded, Node.writeState]
  cases phase : r.node.flusher with
  | committed walCutoff sstID =>
    obtain ⟨ids, active, lengths, front, queued, recent, stores, covers, queue, logged⟩ :=
      inv.memory up
    rw [Queue, phase] at queue
    obtain ⟨waits, rfl, cutoff⟩ := queue
    have length := stores.length
    rw [List.append_nil] at stores length
    have files := inv.files
    refine ⟨⟨files.limits, files.log, files.manifest, files.listed, files.tables, .inr ?_⟩,
      fun _ => ?_, inv.sound⟩
    · rw [Wal.size_append] at length
      have low : -2 ^ 63 ≤ (walCutoff : Int) := by omega
      have high : (walCutoff : Int) < 2 ^ 63 := by omega
      refine ⟨⟨walCutoff, sstID⟩, rfl, low, high, fun _ => ?_⟩
      exact ⟨front, recent, stores, by rw [cutoff], covers⟩
    · refine ⟨ids, active, lengths, front, [], recent, ?_, covers, ⟨waits, rfl, cutoff⟩, logged⟩
      rw [List.append_nil]
      exact stores
  | idle | recorded walCutoff | truncated | removed =>
    exact inv

theorem truncate_consistent (inv : r.Consistent env) (up : r.node.up = true) :
    (r.cut (r.node.truncate env)).Consistent env := by
  simp only [cut, Node.truncate]
  cases phase : r.node.flusher with
  | recorded walCutoff =>
    simp only [Wal.truncateBefore_ok _ _ env.reads env.progress, Int.toNat_natCast]
    obtain ⟨ids, active, lengths, front, queued, recent, stores, covers, queue, logged⟩ :=
      inv.memory up
    rw [Queue, phase] at queue
    obtain ⟨waits, rfl, rfl⟩ := queue
    rw [List.append_nil] at stores
    have dropped := stores.drop front recent
    have files := inv.files
    refine ⟨⟨files.limits, ⟨recent, dropped⟩, files.manifest, files.listed, files.tables, ?_⟩,
      fun _ => ?_, inv.sound⟩
    · exact files.trusted.stale rfl rfl
    · exact ⟨ids, active, lengths, [], [], recent, dropped, by simp [Covers], ⟨waits, rfl⟩, logged⟩
  | truncated =>
    simp only [phase]
    have files := inv.files
    have memory := inv.memory up
    exact ⟨⟨files.limits, files.log, files.manifest, files.listed, files.tables,
      files.trusted.stale rfl rfl⟩,
      fun _ => ⟨memory.ids, memory.active, memory.small, memory.layout⟩, inv.sound⟩
  | idle | committed walCutoff sstID | removed =>
    simp only [phase]
    exact inv

theorem removeState_consistent (inv : r.Consistent env) (up : r.node.up = true) :
    ({ r with node := r.node.removeState } : CheckpointRun).Consistent env := by
  simp only [Node.removeState]
  cases phase : r.node.flusher with
  | truncated =>
    obtain ⟨ids, active, lengths, front, queued, recent, stores, covers, queue, logged⟩ :=
      inv.memory up
    rw [Queue, phase] at queue
    have files := inv.files
    exact ⟨⟨files.limits, files.log, files.manifest, files.listed, files.tables, .inl rfl⟩,
      fun _ => ⟨ids, active, lengths, front, queued, recent, stores, covers, queue, logged⟩,
      inv.sound⟩
  | idle | committed walCutoff sstID | recorded walCutoff | removed =>
    exact inv

theorem pop_consistent (inv : r.Consistent env) (up : r.node.up = true) :
    ({ r with node := r.node.pop } : CheckpointRun).Consistent env := by
  simp only [Node.pop]
  cases phase : r.node.flusher with
  | removed =>
    refine inv.keep_wal ⟨rfl, rfl, rfl, rfl, rfl, rfl, rfl⟩ rfl fun _ => ?_
    obtain ⟨ids, active, lengths, front, queued, recent, stores, covers, queue, logged⟩ :=
      inv.memory up
    rw [Queue, phase] at queue
    obtain ⟨⟨entry, waits⟩, nothing⟩ := queue
    refine ⟨ids, active, lengths, front, queued, recent, stores, covers, .inl ⟨?_, nothing⟩, logged⟩
    simp only [waits, List.tail_cons]
  | idle | committed walCutoff sstID | recorded walCutoff | truncated =>
    exact inv

theorem crash_consistent (inv : r.Consistent env) :
    ({ r with node.up := false } : CheckpointRun).Consistent env :=
  inv.keep_wal ⟨rfl, rfl, rfl, rfl, rfl, rfl, rfl⟩ rfl fun running => by cases running

/-- The table of the queued memtable is in the manifest. -/
def withTable (r : CheckpointRun) (entry : FlushQueueEntry) (t : Sst.Reader) (file : Bytes)
    (manifest : Manifest.State) : CheckpointRun :=
  { r with
    node := ⟨⟨{ r.node.sys.db with
        nextSSTID := r.node.sys.db.nextSSTID + 1
        nextFileID := r.node.sys.db.nextFileID + 1
        sstables := r.node.sys.db.sstables ++ [t]
        manifest := manifest }, r.node.sys.persist⟩,
      r.node.ssts.write (r.node.sys.db.nextSSTID + 1) file,
      .committed entry.walCutoff (r.node.sys.db.nextSSTID + 1), r.node.up⟩
    tables := r.tables ++ [⟨r.node.sys.db.nextSSTID + 1, entry.mem, r.queued⟩] }

section Commit

variable {entry : FlushQueueEntry} {t : Sst.Reader} {file : Bytes} {manifest : Manifest.State}
  (live : manifest.log.liveSet =
    insert (r.node.sys.db.nextSSTID + 1) r.node.sys.db.manifest.log.liveSet)

include live

/-- What was covered stays covered. -/
theorem withTable_covers
    (fresh : r.node.sys.db.nextSSTID + 1 ∉ r.node.sys.db.manifest.log.liveSet)
    (front : List Record) (covers : r.Covers env front) :
    (r.withTable entry t file manifest).Covers env front := by
  intro rec member
  simp only [withTable, live]
  exact InLiveTable.commit (covers rec member) _ _ fresh _

/-- The records of the queued memtable join it. -/
theorem withTable_queued
    (written : Sst.writeTable env.sizing defaultBlockSize entry.mem.len entry.mem.entries = .ok file)
    (image : Image entry.mem r.queued) : (r.withTable entry t file manifest).Covers env r.queued := by
  intro rec member
  simp only [withTable, live]
  refine ⟨⟨r.node.sys.db.nextSSTID + 1, entry.mem, r.queued⟩, by simp,
    Finset.mem_insert_self _ _, ⟨file, written, ?_⟩, image, member⟩
  simp [SstFiles.write]

theorem withTable_files (files : r.Files env) (intact : Manifest.Intact manifest)
    (fresh : r.node.sys.db.nextSSTID + 1 ∉ r.node.sys.db.manifest.log.liveSet) :
    (r.withTable entry t file manifest).Files env := by
  refine ⟨files.limits, files.log, intact, ?_, ?_, ?_⟩
  · intro listed member
    simp only [withTable, live]
    rcases List.mem_cons.mp member with rfl | old
    · exact Finset.mem_insert_self _ _
    · exact Finset.mem_insert_of_mem (files.listed _ (List.mem_filter.mp old).1)
  · intro listed member
    simp only [withTable, live]
    rcases List.mem_append.mp member with old | new
    · exact Finset.mem_insert_of_mem (files.tables _ old)
    · rw [List.mem_singleton.mp new]
      exact Finset.mem_insert_self _ _
  · rcases files.trusted with none_ | ⟨st, checkpoint, low, high, trusted⟩
    · exact .inl none_
    · refine .inr ⟨st, checkpoint, low, high, fun before => ?_⟩
      obtain ⟨known, rest, stores, offset, covered⟩ := trusted before
      exact ⟨known, rest, stores, offset, withTable_covers live fresh known covered⟩

end Commit

/-- After the commit the records of the queued memtable are in a live table too. -/
theorem commit_consistent (inv : r.Consistent env) (up : r.node.up = true)
    (room : r.node.sys.db.nextSSTID.toNat + 1 < 2 ^ 64)
    (few : r.node.sys.db.manifest.log.liveSet.card < Manifest.maxLive) :
    (r.committed (r.node.commit env)).Consistent env := by
  simp only [committed, Node.commit]
  cases phase : r.node.flusher with
  | committed walCutoff sstID | recorded walCutoff | truncated | removed =>
    exact inv
  | idle =>
    obtain ⟨ids, active, lengths, front, queued, recent, stores, covers, queue, logged⟩ :=
      inv.memory up
    have above : ∀ id ∈ r.node.sys.db.manifest.log.liveSet, id < r.node.sys.db.nextSSTID + 1 :=
      fun id member => lt_next id _ (ids id member) room
    rw [Queue, phase] at queue
    cases waiting : r.node.sys.db.pendingFlush with
    | nil =>
      simp only [phase]
      exact inv
    | cons entry rest =>
      rw [waiting] at queue
      cases table : writeMemtable env r.node.sys.db entry.mem with
      | error e =>
        -- the id is spent all the same
        simp only [table]
        refine inv.keep_wal ⟨rfl, rfl, rfl, rfl, rfl, rfl, rfl⟩ rfl fun _ => ?_
        exact ⟨fun id member => le_of_lt (above id member), active, lengths, front, queued, recent,
          stores, covers, queue, logged⟩
      | ok t =>
        obtain ⟨file, written, opened⟩ := writeMemtable_ok env _ _ t table
        have content : t.file = file := (Sst.openReader_ok _ _ _ t opened).2.2.1
        obtain ⟨manifest, committed, intact, live⟩ :=
          commitTable_intact r.node.sys.db t inv.files.manifest few
        obtain ⟨entry', alone, cutoff, inQueued, image⟩ :=
          queue.resolve_left fun empty => by cases empty.1
        cases alone
        simp only [table, committed, content]
        have fresh : r.node.sys.db.nextSSTID + 1 ∉ r.node.sys.db.manifest.log.liveSet :=
          fun member => lt_irrefl _ (above _ member)
        refine ⟨withTable_files live inv.files intact fresh, fun _ => ?_, inv.sound⟩
        refine ⟨?_, active, lengths, front ++ queued, [], recent, ?_, ?_, ⟨⟨entry, waiting⟩, rfl,
          cutoff⟩, logged⟩
        · intro id member
          change id ∈ manifest.log.liveSet at member
          rw [live] at member
          rcases Finset.mem_insert.mp member with rfl | old
          · exact le_refl _
          · exact le_of_lt (above id old)
        · rw [List.append_nil]
          exact stores
        · intro rec member
          rcases List.mem_append.mp member with old | joined
          · exact withTable_covers live fresh front covers rec old
          · exact withTable_queued live written image rec (inQueued rec joined)

end Flusher

/-! ### Reopening -/

section Reopen

variable {env : Env} {r : CheckpointRun}

/-- The offset is a boundary behind which everything not in a live table lies. -/
theorem offset_covers (files : r.Files env) (coins : Nat → Nat → Bool)
    (safe : r.Safe (.reopen coins)) (offset : Int)
    (returned : walReplayStartOffset r.node.sys.db.manifest.log.liveSet r.node.sys.db.walFlush
      r.node.sys.db.wal.length = .ok offset) :
    ∃ front rest, Wal.Stores r.node.sys.db.walLimits r.node.sys.db.wal (front ++ rest) ∧
      offset = Wal.size front ∧ r.Covers env front := by
  rcases walReplayStartOffset_cases _ _ _ _ returned with rfl | ⟨st, read, rfl, _, _, inside⟩
  · obtain ⟨rs, stores⟩ := files.log
    exact ⟨[], rs, stores, rfl, by simp [Covers]⟩
  · rcases files.trusted with none_ | ⟨st', file, low, high, trusted⟩
    · rw [none_] at read
      cases read
    · have same := readWalFlushState_encoded st' low high
      rw [file, same] at read
      cases read
      cases before : r.truncated with
      | false => exact trusted before
      | true =>
        -- the truncation has run, so the log is shorter than the offset
        have shorter := safe before
        rw [file, same] at shorter
        simp only at shorter
        omega

theorem opening_eq (o : Opening) (found : r.opening = some o) :
    ∃ tables, openTables r.node.sys.db.manifest.dir r.node.ssts r.node.sys.db.nextFileID =
        .ok tables ∧
      walReplayStartOffset tables.manifest.log.liveSet r.node.sys.db.walFlush
        r.node.sys.db.wal.length = .ok o.offset ∧
      o = ⟨r.node.sys.db.walLimits, r.node.sys.db.wal, o.offset, tables.manifest.log.liveSet,
        tables.ssts, r.tables⟩ := by
  simp only [opening] at found
  split at found
  · cases found
  next tables loaded =>
    split at found
    · cases found
    next offset returned =>
      cases found
      exact ⟨tables, loaded, returned, rfl⟩

theorem opening_sound (files : r.Files env) (coins : Nat → Nat → Bool)
    (safe : r.Safe (.reopen coins)) (o : Opening)
    (found : r.opening = some o) : o.Sound env := by
  obtain ⟨tables, loaded, returned, eq⟩ := opening_eq o found
  obtain ⟨_, live, ssts⟩ :=
    openTables_intact _ _ _ tables files.manifest files.listed loaded
  rw [live] at returned
  obtain ⟨front, rest, stores, offset, covers⟩ := offset_covers files coins safe o.offset returned
  rw [eq, live, ssts]
  refine ⟨front, rest, stores, offset, covers, fun fits => ?_⟩
  have replayed := stores.replay front rest files.limits fits Wal.collect []
  rw [Opening.delivered, offset, Int.toNat_natCast, replayed, Wal.collect_foldl, List.nil_append]

/-- The memory after `Open`: everything behind the offset is in the active memtable. -/
theorem reopened_memory (files : r.Files env) (coins : Nat → Nat → Bool)
    (safe : r.Safe (.reopen coins)) (db : DB) (ssts : SstFiles)
    (opened : Db.reopen r.node.sys.db r.node.ssts coins = .ok (db, ssts)) :
    (r.reopened ⟨⟨db, .idle⟩, ssts, .idle, true⟩).Files env ∧
      (r.reopened ⟨⟨db, .idle⟩, ssts, .idle, true⟩).Memory env := by
  obtain ⟨tables, start, loaded, returned, noError, rfl, rfl⟩ := reopen_ok _ _ _ _ _ opened
  obtain ⟨intact, live, ssts⟩ :=
    openTables_intact _ _ _ tables files.manifest files.listed loaded
  have found : r.opening = some ⟨r.node.sys.db.walLimits, r.node.sys.db.wal, start,
      tables.manifest.log.liveSet, tables.ssts, r.tables⟩ := by
    simp only [opening, loaded, returned]
  rw [live] at returned
  obtain ⟨front, rest, stores, rfl, covers⟩ := offset_covers files coins safe start returned
  rw [Int.toNat_natCast] at noError ⊢
  have fits := Wal.replay_fits _ _ _ _ _ noError
  rw [files.limits] at fits
  have replayed := stores.replay front rest files.limits fits (replayInto coins) (.new, 0)
  have delivered := stores.replay front rest files.limits fits Wal.collect []
  rw [Wal.collect_foldl, List.nil_append] at delivered
  rw [replayInto_foldl] at replayed
  simp only [reopened, if_true, found, Option.map_some, Option.getD_some, Opening.delivered,
    Int.toNat_natCast, delivered, openHandle, replayed, ssts]
  have covers' : ∀ rec ∈ front, InLiveTable env tables.manifest.log.liveSet r.node.ssts r.tables
      rec := by
    rw [live]
    exact covers
  refine ⟨⟨files.limits, files.log, intact, ?_, ?_, ?_⟩, ?_⟩
  · intro entry member
    exact live ▸ files.listed entry member
  · intro t member
    exact live ▸ files.tables t member
  · rcases files.trusted with none_ | ⟨st, file, low, high, trusted⟩
    · exact .inl none_
    · refine .inr ⟨st, file, low, high, fun before => ?_⟩
      obtain ⟨known, later, stores, offset, covered⟩ := trusted before
      refine ⟨known, later, stores, offset, ?_⟩
      intro rec member
      exact live ▸ covered rec member
  · refine ⟨?_, image_new.applyRecords coins 0 rest, by simp [Persist.inflight], front, [], rest, ?_,
      covers', .inl ⟨rfl, rfl⟩, .inl fun rec member => member⟩
    · intro id member
      exact le_highestID _ id ((tables.manifest.log.mem_liveIDs id).mpr member)
    · rw [List.append_nil]
      exact stores

theorem reopen_consistent (inv : r.Consistent env) (down : r.node.up = false)
    (coins : Nat → Nat → Bool) (safe : r.Safe (.reopen coins)) :
    (r.reopened (r.node.reopen coins)).Consistent env := by
  have stopped : ¬r.node.up = true := by simp [down]
  simp only [Node.reopen]
  have sound : ∀ o ∈ r.openings ++ r.opening.toList, o.Sound env := by
    intro o member
    rcases List.mem_append.mp member with old | new
    · exact inv.sound o old
    · exact opening_sound inv.files coins safe o (by simpa using new)
  cases opened : Db.reopen r.node.sys.db r.node.ssts coins with
  | error e =>
    simp only [reopened, if_neg stopped]
    have files := inv.files
    exact ⟨⟨files.limits, files.log, files.manifest, files.listed, files.tables, files.trusted⟩,
      fun running => absurd running stopped, sound⟩
  | ok result =>
    obtain ⟨db, ssts⟩ := result
    obtain ⟨files, memory⟩ := reopened_memory inv.files coins safe db ssts opened
    exact ⟨files, fun _ => memory, sound⟩

end Reopen

theorem step_consistent (env : Env) (r : CheckpointRun) (i : NodeStep) (inv : r.Consistent env)
    (safe : r.Safe i) : (r.step env i).Consistent env := by
  cases running : r.node.up with
  | true =>
    simp only [step, Node.step, if_pos running]
    cases i with
    | write rec => exact write_consistent inv running rec safe
    | take => exact take_consistent inv running
    | append => exact append_consistent inv running
    | finish coins => exact finish_consistent inv running coins safe
    | report => exact report_consistent inv running
    | freeze => exact freeze_consistent inv running safe
    | commit => exact commit_consistent inv running safe.1 safe.2
    | writeState => exact writeState_consistent inv running safe
    | truncate => exact truncate_consistent inv running
    | removeState => exact removeState_consistent inv running
    | pop => exact pop_consistent inv running
    | crash => exact crash_consistent inv
    | reopen coins => exact inv
  | false =>
    have stopped : ¬r.node.up = true := by simp [running]
    simp only [step, Node.step, if_neg stopped]
    cases i with
    | reopen coins => exact reopen_consistent inv running coins safe
    | write | take | append | finish | report | freeze | commit | writeState | truncate
    | removeState | pop | crash => exact inv

/-- In every run with at most one memtable queued, in which each `Open` after a truncation
finds a log shorter than the offset of a checkpoint left behind, the replay starts at a
record boundary, behind nothing but records of live tables. -/
theorem sound_of_safe (env : Env) (r : CheckpointRun) (steps : List NodeStep) (opened : r.Opened)
    (safe : Machine.Always (step env) Safe r steps) : (Machine.run (step env) r steps).Sound env :=
  (Machine.run_invariant (step env) Safe (Consistent env) (step_consistent env) r steps
    (opened.consistent env r) safe).sound

/-- A store just created, with room for two bytes of data in its memtable. -/
def small : CheckpointRun :=
  ⟨⟨⟨{ emptyDB with memtableSize := 10 }, .idle⟩, [], .idle, true⟩, [], [], [], false, []⟩

theorem small_opened : small.Opened where
  up := rfl
  idle := rfl
  flusher := rfl
  batch := rfl
  queue := rfl
  limits := rfl
  log := ⟨rfl, by simp [small]⟩
  active := image_new
  walFlush := rfl
  manifest := ⟨rfl, rfl, Manifest.replays_nil, Manifest.wholeRecords_nil⟩
  listed := by simp [small]
  ids := by simp [small, emptyDB]
  tables := rfl
  openings := rfl

/-- Writes that are logged and applied as one batch. -/
def writeBatch (records : List Record) : List NodeStep :=
  records.map .write ++ [.take, .append, .finish fun _ _ => false]

/-- A crash before the checkpoint is written, one after it, one after the truncation with a
log that is shorter than the checkpoint's offset, and the flush of a clean `Close`. -/
theorem sound_crashes :
    let r := Machine.run (step smallEnv) small (
      writeBatch [⟨[97], [1, 1], false⟩] ++ [.commit, .crash, .reopen fun _ _ => false] ++
      writeBatch [⟨[98], [1], false⟩] ++ [.commit, .writeState] ++
      writeBatch [⟨[99], [1], false⟩] ++ [.crash, .reopen fun _ _ => false] ++
      writeBatch [⟨[100], [1], false⟩] ++ [.commit, .writeState, .truncate] ++
      writeBatch [⟨[101], [1], false⟩] ++ [.crash, .reopen fun _ _ => false] ++
      [.freeze, .commit, .writeState, .truncate, .removeState, .pop, .crash,
        .reopen fun _ _ => false])
    r.Sound smallEnv ∧ r.openings.map Opening.offset = [0, 31, 0, 0] :=
  ⟨sound_of_safe smallEnv small _ small_opened (by decide +kernel), by decide +kernel⟩

/-- A table is committed and its checkpoint written, two more records are logged, and the
process crashes right after the truncation. -/
def longTail : List NodeStep :=
  writeBatch [⟨[97], [1, 1], false⟩] ++ [.commit, .writeState] ++
    writeBatch [⟨[98], [1], false⟩, ⟨[98], [2], false⟩] ++
    [.truncate, .crash, .reopen fun _ _ => false]

/-- The tail is longer than what was dropped: `Open` starts inside its second record, and
none of it is in a table. -/
theorem not_sound_long_tail :
    small.Opened ∧
      Machine.Always (step smallEnv) (fun r _ => r.node.sys.db.pendingFlush.length ≤ 1) small
        longTail ∧
      ¬(Machine.run (step smallEnv) small longTail).Sound smallEnv := by
  refine ⟨small_opened, by decide +kernel, fun sound => ?_⟩
  have facts : (Machine.run (step smallEnv) small longTail).openings.map
        (fun o => (o.offset, Wal.records o.limits o.wal, o.tables.flatMap FlushedTable.applied)) =
      [(16, [⟨[98], [1], false⟩, ⟨[98], [2], false⟩], [⟨[97], [1, 1], false⟩])] := by
    decide +kernel
  obtain ⟨o, others, openings, fact, _⟩ := List.map_eq_cons_iff.mp facts
  obtain ⟨front, rest, stores, boundary, covers, _⟩ := sound o (by rw [openings]; simp)
  simp only [Prod.mk.injEq] at fact
  obtain ⟨offset, logged, applied⟩ := fact
  rw [stores.records] at logged
  -- the offset is not zero, so the first record of the tail lies before it
  cases front with
  | nil =>
    rw [offset] at boundary
    cases boundary
  | cons first front =>
    rw [List.cons_append, List.cons.injEq] at logged
    obtain ⟨t, member, _, _, _, inside⟩ := covers first (List.mem_cons_self ..)
    have flushed : first ∈ o.tables.flatMap FlushedTable.applied :=
      List.mem_flatMap.mpr ⟨t, member, inside⟩
    rw [applied, logged.1] at flushed
    simp at flushed

end CheckpointRun

end PebbleDB.Db
