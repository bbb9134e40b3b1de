import PebbleDB.Db.Node
import PebbleDB.Lib.Machine

/-!
# The size of the log

`Open` refuses a `wal.log` above `MaxFileSize`, but no write looks at that limit: the log
grows with every record, and what cuts it is the flush of a memtable, which is frozen by
its own size. The two agree as long as every record adds an entry; one that overwrites an
entry only adds to the log. A run here is any sequence of steps of the process, with
crashes also inside an append.
-/
namespace PebbleDB.Db

open Memtable (SkipList Slot)
open Wal (Record)

/-- `Open` does not find the log of this process too large, if it stops now. -/
def Node.Reopens (n : Node) : Prop :=
  n.sys.db.wal.length ≤ n.sys.db.walLimits.withDefaults.maxFileSize ∧
    ∀ coins, Db.reopen n.sys.db n.ssts coins ≠ .error (.wal .walTooLarge)

/-- A crash inside `AppendBatch`, after that many bytes of the batch. -/
def Node.tear (n : Node) (written : Nat) : Node :=
  match n.up, n.sys.persist with
  | true, .taken batch =>
    { n with
      sys.db.wal := (Wal.appendBatch n.sys.db.walLimits n.sys.db.wal batch .none).1.take
        (n.sys.db.wal.length + written)
      up := false }
  | _, _ => n

/-- The batch that is about to be logged. -/
def Persist.writing : Persist → Option (List Record)
  | .taken batch => some batch
  | _ => none

/-! ### What the memtables account for -/

/-- The bytes of the records behind the entries, each of which was written by one record:
`Size` counts 8 bytes besides key and value, a record has 13. -/
def recordBytes (mem : SkipList) : Int := mem.size + 5 * mem.len

def queueBytes (queue : List FlushQueueEntry) : Int :=
  (queue.map fun entry => recordBytes entry.mem).sum

/-- The active memtable, and a batch that is already logged. -/
def Committer.recentBytes (s : Committer) : Int :=
  recordBytes s.db.active + Wal.size (s.persist.written.getD [])

/-- Every record of the batch adds an entry of its own, and its tombstones hold no value,
like those of `Delete`. -/
structure AddsEntries (mem : SkipList) (batch : List Record) : Prop where
  distinct : (batch.map Record.key).Nodup
  absent : ∀ rec ∈ batch, mem.find rec.key = none
  blank : ∀ rec ∈ batch, rec.tombstone = true → rec.value = []

instance (mem : SkipList) (batch : List Record) : Decidable (AddsEntries mem batch) :=
  decidable_of_iff
    ((batch.map Record.key).Nodup ∧ (∀ rec ∈ batch, mem.find rec.key = none) ∧
      ∀ rec ∈ batch, rec.tombstone = true → rec.value = [])
    ⟨fun ⟨distinct, absent, blank⟩ => ⟨distinct, absent, blank⟩,
      fun ⟨distinct, absent, blank⟩ => ⟨distinct, absent, blank⟩⟩

theorem recordBytes_eq (mem : SkipList) :
    recordBytes mem = Memtable.mapSize mem.toMap + 5 * mem.toMap.length := by
  rw [recordBytes, mem.size_eq, mem.len_eq]

@[simp] theorem recordBytes_new : recordBytes .new = 0 := rfl

theorem recordBytes_nonneg (mem : SkipList) : 0 ≤ recordBytes mem := by
  have size : 0 ≤ Memtable.mapSize mem.toMap := by
    apply List.sum_nonneg
    intro bytes member
    obtain ⟨e, -, rfl⟩ := List.mem_map.mp member
    rw [Memtable.entrySize]
    omega
  rw [recordBytes_eq]
  omega

theorem queueBytes_nonneg (queue : List FlushQueueEntry) : 0 ≤ queueBytes queue := by
  apply List.sum_nonneg
  intro bytes member
  obtain ⟨entry, -, rfl⟩ := List.mem_map.mp member
  exact recordBytes_nonneg entry.mem

@[simp] theorem queueBytes_nil : queueBytes [] = 0 := rfl

@[simp] theorem queueBytes_cons (entry : FlushQueueEntry) (queue : List FlushQueueEntry) :
    queueBytes (entry :: queue) = recordBytes entry.mem + queueBytes queue := by
  simp [queueBytes]

@[simp] theorem queueBytes_concat (queue : List FlushQueueEntry) (mem : SkipList) (walCutoff : Nat) :
    queueBytes (queue ++ [⟨mem, walCutoff⟩]) = queueBytes queue + recordBytes mem := by
  simp [queueBytes]

theorem Committer.recentBytes_nonneg (s : Committer) : 0 ≤ s.recentBytes := by
  have active := recordBytes_nonneg s.db.active
  rw [Committer.recentBytes]
  omega

/-- A record for a new key adds its own bytes. -/
theorem recordBytes_applyRecordToMemtable (mem : SkipList) (rec : Record) (coins : Nat → Bool)
    (absent : mem.find rec.key = none) (blank : rec.tombstone = true → rec.value = []) :
    recordBytes (applyRecordToMemtable mem rec coins) =
      recordBytes mem + (Wal.recordHeaderSize + rec.key.length + rec.value.length) := by
  obtain ⟨length, size⟩ :=
    Memtable.insert_missing mem.toMap rec.key (slotOf rec) mem.toMap_sorted absent
  have value : (slotOf rec).value.length = rec.value.length := by
    rw [slotOf]
    cases dead : rec.tombstone with
    | true => simp [blank dead]
    | false => rfl
  rw [recordBytes_eq, recordBytes_eq, toMap_applyRecordToMemtable, length, size,
    Memtable.entrySize, value, Wal.recordHeaderSize]
  push_cast
  ring

/-- A batch of records for new keys adds the bytes it takes in the log. -/
theorem AddsEntries.recordBytes {mem : SkipList} {batch : List Record}
    (adds : AddsEntries mem batch) (coins : Nat → Nat → Bool) (i : Nat) :
    recordBytes (applyRecords coins i mem batch) = recordBytes mem + Wal.size batch := by
  induction batch generalizing mem i with
  | nil => simp [applyRecords]
  | cons rec batch ih =>
    have distinct := List.nodup_cons.mp (List.map_cons .. ▸ adds.distinct)
    have later : AddsEntries (applyRecordToMemtable mem rec (coins i)) batch := by
      refine ⟨distinct.2, fun other member => ?_, fun other member => ?_⟩
      · -- the first record added an entry, but not for this key
        have ne : rec.key ≠ other.key := fun same =>
          distinct.1 (same ▸ List.mem_map_of_mem member)
        rw [find_applyRecordToMemtable, if_neg ne]
        exact adds.absent other (List.mem_cons_of_mem _ member)
      · exact adds.blank other (List.mem_cons_of_mem _ member)
    rw [applyRecords, ih later, recordBytes_applyRecordToMemtable mem rec _
      (adds.absent rec (List.mem_cons_self ..)) (adds.blank rec (List.mem_cons_self ..)),
      Wal.size_cons]
    push_cast
    ring

/-! ### The ledger -/

/-- Behind the freeze point of a memtable the log holds only what the later ones account
for. -/
def Behind (walSize recent : Int) : List FlushQueueEntry → Prop
  | [] => True
  | entry :: queue =>
    walSize ≤ entry.walCutoff + queueBytes queue + recent ∧ Behind walSize recent queue

/-- The flusher cuts the log at the freeze point of the oldest memtable, which it pops
only after that. -/
def Cuts (inherited walSize recent : Int) (queue : List FlushQueueEntry) : FlushPhase → Prop
  | .idle => True
  | .committed walCutoff _ | .recorded walCutoff =>
    ∃ entry rest, queue = entry :: rest ∧ entry.walCutoff = walCutoff
  | .truncated | .removed =>
    ∃ entry rest, queue = entry :: rest ∧ walSize ≤ inherited + queueBytes rest + recent

/-- What the log may hold: bytes left over from the last `Open`, and the records that the
memtables account for. -/
structure Ledger (inherited walSize recent : Int) (queue : List FlushQueueEntry)
    (flusher : FlushPhase) : Prop where
  total : walSize ≤ inherited + queueBytes queue + recent
  behind : Behind walSize recent queue
  cuts : Cuts inherited walSize recent queue flusher

theorem Behind.imp {walSize recent walSize' recent' : Int} {queue : List FlushQueueEntry}
    (behind : Behind walSize recent queue) (less : walSize' - recent' ≤ walSize - recent) :
    Behind walSize' recent' queue := by
  induction queue with
  | nil => trivial
  | cons entry queue ih =>
    obtain ⟨first, later⟩ := behind
    exact ⟨by omega, ih later⟩

/-- The active memtable becomes the last of the queue. -/
theorem Behind.freeze {walSize : Nat} {logged : Int} (positive : 0 ≤ logged) {mem : SkipList}
    {queue : List FlushQueueEntry} (behind : Behind walSize (recordBytes mem + logged) queue) :
    Behind walSize logged (queue ++ [⟨mem, walSize⟩]) := by
  induction queue with
  | nil => exact ⟨by simpa using positive, trivial⟩
  | cons entry queue ih =>
    obtain ⟨first, later⟩ := behind
    refine ⟨?_, ih later⟩
    show (walSize : Int) ≤ entry.walCutoff + queueBytes (queue ++ [⟨mem, walSize⟩]) + logged
    rw [queueBytes_concat]
    omega

namespace Ledger

variable {inherited walSize recent : Int} {queue : List FlushQueueEntry} {flusher : FlushPhase}

/-- A batch is logged. -/
theorem grow (ledger : Ledger inherited walSize recent queue flusher) (bytes : Int) :
    Ledger inherited (walSize + bytes) (recent + bytes) queue flusher := by
  have total := ledger.total
  have cuts := ledger.cuts
  refine ⟨by omega, ledger.behind.imp (by omega), ?_⟩
  cases flusher with
  | idle => trivial
  | committed | recorded => exact cuts
  | truncated | removed =>
    obtain ⟨entry, rest, same, left⟩ := cuts
    exact ⟨entry, rest, same, by omega⟩

/-- A batch may be logged that is in no memtable yet. -/
theorem freeze {walSize : Nat} {logged : Int} (positive : 0 ≤ logged) {mem : SkipList}
    (ledger : Ledger inherited walSize (recordBytes mem + logged) queue flusher) :
    Ledger inherited walSize logged (queue ++ [⟨mem, walSize⟩]) flusher := by
  have total := ledger.total
  have cuts := ledger.cuts
  refine ⟨?_, ledger.behind.freeze positive, ?_⟩
  · rw [queueBytes_concat]
    omega
  · cases flusher with
    | idle => trivial
    | committed | recorded =>
      obtain ⟨entry, rest, rfl, cutoff⟩ := cuts
      exact ⟨entry, rest ++ [⟨mem, walSize⟩], rfl, cutoff⟩
    | truncated | removed =>
      obtain ⟨entry, rest, rfl, left⟩ := cuts
      refine ⟨entry, rest ++ [⟨mem, walSize⟩], rfl, ?_⟩
      rw [queueBytes_concat]
      omega

/-- A freeze point that an earlier truncation left too high only drops more. -/
theorem truncate {walSize walCutoff : Nat}
    (ledger : Ledger inherited walSize recent queue (.recorded walCutoff)) (positive : 0 ≤ recent) :
    Ledger 0 ↑(walSize - walCutoff) recent queue .truncated := by
  obtain ⟨entry, rest, rfl, rfl⟩ := ledger.cuts
  have behind := ledger.behind.1
  have entries := recordBytes_nonneg entry.mem
  have later := queueBytes_nonneg rest
  have left : (↑(walSize - entry.walCutoff) : Int) ≤ 0 + queueBytes rest + recent := by omega
  refine ⟨?_, ledger.behind.imp (by omega), entry, rest, rfl, left⟩
  rw [queueBytes_cons]
  omega

theorem pop (ledger : Ledger inherited walSize recent queue .removed) :
    Ledger inherited walSize recent queue.tail .idle := by
  obtain ⟨entry, rest, rfl, left⟩ := ledger.cuts
  exact ⟨left, ledger.behind.2, trivial⟩

end Ledger

/-! ### Runs -/

/-- A run remembers how many bytes of the log the last `Open` left without an entry in a
memtable: records before its start offset, or of keys that come again in the log. The
first truncation drops them. -/
structure SizeRun where
  node : Node
  inherited : Int

inductive SizeStep where
  | node (i : NodeStep)
  | tear (written : Nat)

namespace SizeRun

/-- The log may have been truncated. -/
def cut (r : SizeRun) (node : Node) : SizeRun :=
  match r.node.flusher, node.flusher with
  | .recorded _, .truncated => ⟨node, 0⟩
  | _, _ => { r with node := node }

/-- `Open` may have been executed. -/
def reopened (r : SizeRun) (node : Node) : SizeRun :=
  if node.up then ⟨node, node.sys.db.wal.length - recordBytes node.sys.db.active⟩
  else { r with node := node }

def step (env : Env) (r : SizeRun) : SizeStep → SizeRun
  | .tear written => { r with node := r.node.tear written }
  | .node i =>
    let node := r.node.step env i
    if r.node.up then
      match i with
      | .truncate => r.cut node
      | _ => { r with node := node }
    else r.reopened node

/-- Just opened. -/
structure Opened (r : SizeRun) : Prop where
  up : r.node.up = true
  idle : r.node.sys.persist = .idle
  flusher : r.node.flusher = .idle
  queue : r.node.sys.db.pendingFlush = []
  log : r.node.sys.db.wal.length ≤ r.node.sys.db.walLimits.withDefaults.maxFileSize
  inherited : r.inherited = r.node.sys.db.wal.length - recordBytes r.node.sys.db.active

/-- What the memtables account for leaves room for the batch. -/
def HasRoom (r : SizeRun) (batch : List Record) : Prop :=
  r.inherited + queueBytes r.node.sys.db.pendingFlush + recordBytes r.node.sys.db.active +
    Wal.size batch ≤ r.node.sys.db.walLimits.withDefaults.maxFileSize

/-- A batch that is written has room and is not refused; one that is applied overwrites
nothing. -/
def Safe (r : SizeRun) : SizeStep → Prop
  | .node .append => ∀ batch ∈ r.node.sys.persist.writing, r.HasRoom batch ∧
      ∀ rec ∈ batch, r.node.sys.db.walLimits.validateRecord (rec.key.length % 2 ^ 32)
        (rec.value.length % 2 ^ 32) = .ok ()
  | .tear _ => ∀ batch ∈ r.node.sys.persist.writing, r.HasRoom batch
  | .node (.finish _) =>
    ∀ batch ∈ r.node.sys.persist.written, AddsEntries r.node.sys.db.active batch
  | _ => True

instance (r : SizeRun) (batch : List Record) : Decidable (r.HasRoom batch) :=
  inferInstanceAs (Decidable (_ ≤ _))

instance (r : SizeRun) : (i : SizeStep) → Decidable (r.Safe i)
  | .node .append =>
    inferInstanceAs (Decidable (∀ batch ∈ r.node.sys.persist.writing, _ ∧ ∀ rec ∈ batch, _))
  | .tear _ => inferInstanceAs (Decidable (∀ batch ∈ r.node.sys.persist.writing, _))
  | .node (.finish _) => inferInstanceAs (Decidable (∀ batch ∈ r.node.sys.persist.written, _))
  | .node (.write _) | .node .take | .node .report | .node .freeze | .node .commit | .node .writeState
  | .node .truncate | .node .removeState | .node .pop | .node .crash | .node (.reopen _) =>
    .isTrue trivial

/-- The log is within the limit of `Open` and, while the process runs, within the ledger. -/
structure Accounted (r : SizeRun) : Prop where
  fits : r.node.sys.db.wal.length ≤ r.node.sys.db.walLimits.withDefaults.maxFileSize
  ledger : r.node.up = true → Ledger r.inherited r.node.sys.db.wal.length r.node.sys.recentBytes
    r.node.sys.db.pendingFlush r.node.flusher

theorem Opened.accounted (r : SizeRun) (opened : r.Opened) : r.Accounted := by
  refine ⟨opened.log, fun _ => ?_⟩
  rw [opened.flusher, opened.queue, Committer.recentBytes, opened.idle, opened.inherited]
  refine ⟨?_, trivial, trivial⟩
  simp [Persist.written]

/-! ### Every step -/

/-- The parts of the store that the ledger reads. -/
structure Unchanged (s s' : Committer) : Prop where
  wal : s'.db.wal = s.db.wal
  limits : s'.db.walLimits = s.db.walLimits
  queue : s'.db.pendingFlush = s.db.pendingFlush
  recent : s'.recentBytes = s.recentBytes

theorem Accounted.unchanged {r : SizeRun} (inv : r.Accounted) (running : r.node.up = true)
    (node : Node) (same : Unchanged r.node.sys node.sys)
    (cuts : Cuts r.inherited r.node.sys.db.wal.length r.node.sys.recentBytes
      r.node.sys.db.pendingFlush node.flusher) : (⟨node, r.inherited⟩ : SizeRun).Accounted := by
  have ledger := inv.ledger running
  refine ⟨?_, fun _ => ?_⟩
  · simp only [same.wal, same.limits]
    exact inv.fits
  · simp only [same.wal, same.queue, same.recent]
    exact ⟨ledger.total, ledger.behind, cuts⟩

theorem unchanged_enqueue (s : Committer) (rec : Record) : Unchanged s (s.enqueue rec) := by
  rw [Committer.enqueue]
  split
  · exact ⟨rfl, rfl, rfl, rfl⟩
  · exact ⟨rfl, rfl, rfl, rfl⟩

theorem unchanged_take (s : Committer) : Unchanged s s.take := by
  rw [Committer.take]
  split
  next idle =>
    split
    · exact ⟨rfl, rfl, rfl, rfl⟩
    · refine ⟨rfl, rfl, rfl, ?_⟩
      simp [Committer.recentBytes, idle, Persist.written, takePendingBatchLocked]
  · exact ⟨rfl, rfl, rfl, rfl⟩

theorem unchanged_report (s : Committer) : Unchanged s s.report := by
  rw [Committer.report]
  split
  next restored =>
    refine ⟨rfl, rfl, rfl, ?_⟩
    simp [Committer.recentBytes, restored, Persist.written]
  · exact ⟨rfl, rfl, rfl, rfl⟩

section Steps

variable {r : SizeRun}

theorem append_accounted (inv : r.Accounted) (running : r.node.up = true)
    (safe : r.Safe (.node .append)) :
    (⟨{ r.node with sys := r.node.sys.append .none }, r.inherited⟩ : SizeRun).Accounted := by
  have ledger := inv.ledger running
  rw [Committer.append]
  cases phase : r.node.sys.persist with
  | taken batch =>
    obtain ⟨room, valid⟩ := safe batch (by rw [phase]; exact rfl)
    have total := ledger.total
    rw [Committer.recentBytes, phase] at ledger total
    simp only [Persist.written, Option.getD_none, Wal.size_nil] at ledger total
    simp only [Wal.appendBatch_valid _ _ _ valid]
    have grown : (r.node.sys.db.wal ++ batch.flatMap Record.encoded).length =
        r.node.sys.db.wal.length + Wal.size batch := by rw [List.length_append, Wal.size]
    refine ⟨?_, fun _ => ?_⟩
    · rw [HasRoom] at room
      simp only [grown]
      push_cast
      omega
    · have ledger := ledger.grow (Wal.size batch)
      simp only [grown, Committer.recentBytes, Persist.written, Option.getD_some]
      push_cast at ledger ⊢
      rw [add_zero] at ledger
      exact ledger
  | idle | appended | failed | restored => exact inv

theorem finish_accounted (inv : r.Accounted) (running : r.node.up = true)
    (coins : Nat → Nat → Bool) (safe : r.Safe (.node (.finish coins))) :
    (⟨{ r.node with sys := r.node.sys.finish coins }, r.inherited⟩ : SizeRun).Accounted := by
  have ledger := inv.ledger running
  rw [Committer.finish]
  cases phase : r.node.sys.persist with
  | appended batch =>
    have adds := safe batch (by rw [phase]; exact rfl)
    -- the batch moves from the log's side of the account to the memtable's
    have moved := adds.recordBytes coins 0
    rw [Committer.recentBytes, phase] at ledger
    simp only [Persist.written, Option.getD_some, ← moved] at ledger
    simp only [DB.maybeFlushLocked]
    split
    · refine ⟨inv.fits, fun _ => ?_⟩
      simpa [Committer.recentBytes, Persist.written] using ledger
    · refine ⟨inv.fits, fun _ => ?_⟩
      have frozen := Ledger.freeze le_rfl (by rwa [add_zero])
      simpa [Committer.recentBytes, Persist.written, DB.freeze] using frozen
  | failed batch =>
    refine inv.unchanged running _ ⟨rfl, rfl, rfl, ?_⟩ ledger.cuts
    simp [Committer.recentBytes, phase, Persist.written, restorePendingBatchLocked]
  | idle | taken | restored => exact inv

theorem freeze_accounted (inv : r.Accounted) (running : r.node.up = true) :
    (⟨{ r.node with sys.db := r.node.sys.db.freezeActive }, r.inherited⟩ : SizeRun).Accounted := by
  rw [DB.freezeActive]
  split
  · refine ⟨inv.fits, fun _ => ?_⟩
    have frozen := (inv.ledger running).freeze (Int.natCast_nonneg _)
    simpa [Committer.recentBytes, DB.freeze] using frozen
  · exact inv

theorem commit_accounted (env : Env) (inv : r.Accounted) (running : r.node.up = true) :
    (⟨r.node.commit env, r.inherited⟩ : SizeRun).Accounted := by
  have ledger := inv.ledger running
  rw [Node.commit]
  split
  next entry rest idle queue =>
    dsimp only
    split
    · exact inv.unchanged running _ ⟨rfl, rfl, rfl, rfl⟩ ledger.cuts
    next t written =>
      split
      · exact inv.unchanged running _ ⟨rfl, rfl, rfl, rfl⟩ ledger.cuts
      next db committed =>
        obtain ⟨manifest, rfl⟩ := commitTable_ok _ _ _ committed
        exact inv.unchanged running _ ⟨rfl, rfl, rfl, rfl⟩ ⟨entry, rest, queue, rfl⟩
  · exact inv

theorem writeState_accounted (inv : r.Accounted) (running : r.node.up = true) :
    (⟨r.node.writeState, r.inherited⟩ : SizeRun).Accounted := by
  have cuts := (inv.ledger running).cuts
  rw [Node.writeState]
  split
  next walCutoff id committed =>
    rw [committed] at cuts
    exact inv.unchanged running _ ⟨rfl, rfl, rfl, rfl⟩ cuts
  · exact inv

theorem truncate_accounted (env : Env) (inv : r.Accounted) (running : r.node.up = true) :
    (r.cut (r.node.truncate env)).Accounted := by
  have ledger := inv.ledger running
  rw [Node.truncate]
  cases phase : r.node.flusher with
  | recorded walCutoff =>
    rw [phase] at ledger
    simp only [cut, phase, Wal.truncateBefore_ok _ _ env.reads env.progress, Int.toNat_natCast]
    refine ⟨?_, fun _ => ?_⟩
    · have fits := inv.fits
      simp only [List.length_drop]
      omega
    · simp only [List.length_drop]
      exact ledger.truncate r.node.sys.recentBytes_nonneg
  | idle | committed | truncated | removed =>
    simp only [cut, phase]
    exact inv

theorem removeState_accounted (inv : r.Accounted) (running : r.node.up = true) :
    (⟨r.node.removeState, r.inherited⟩ : SizeRun).Accounted := by
  have cuts := (inv.ledger running).cuts
  rw [Node.removeState]
  split
  next truncated =>
    rw [truncated] at cuts
    exact inv.unchanged running _ ⟨rfl, rfl, rfl, rfl⟩ cuts
  · exact inv

theorem pop_accounted (inv : r.Accounted) (running : r.node.up = true) :
    (⟨r.node.pop, r.inherited⟩ : SizeRun).Accounted := by
  have ledger := inv.ledger running
  rw [Node.pop]
  split
  next removed =>
    rw [removed] at ledger
    exact ⟨inv.fits, fun _ => ledger.pop⟩
  · exact inv

/-- Whatever part of the batch was written, the whole of it has room. -/
theorem tear_accounted (written : Nat) (inv : r.Accounted) (safe : r.Safe (.tear written)) :
    (⟨r.node.tear written, r.inherited⟩ : SizeRun).Accounted := by
  rw [Node.tear]
  split
  next batch running taken =>
    have room := safe batch (by rw [taken]; exact rfl)
    have total := (inv.ledger running).total
    rw [Committer.recentBytes, taken] at total
    rw [HasRoom] at room
    have grown := Wal.appendBatch_length_le r.node.sys.db.walLimits r.node.sys.db.wal batch
    refine ⟨?_, nofun⟩
    simp only [List.length_take, Persist.written, Option.getD_none, Wal.size_nil] at total ⊢
    omega
  · exact inv

theorem crash_accounted (inv : r.Accounted) :
    (⟨{ r.node with up := false }, r.inherited⟩ : SizeRun).Accounted :=
  ⟨inv.fits, nofun⟩

/-- `Open` never lengthens the log, and the run starts a new account with what it finds. -/
theorem reopen_accounted (inv : r.Accounted) (down : r.node.up = false)
    (coins : Nat → Nat → Bool) : (r.reopened (r.node.reopen coins)).Accounted := by
  rw [Node.reopen]
  cases opened : Db.reopen r.node.sys.db r.node.ssts coins with
  | error e =>
    simp only [reopened, down]
    exact ⟨inv.fits, fun running => by simp [down] at running⟩
  | ok result =>
    obtain ⟨db, ssts⟩ := result
    obtain ⟨tables, start, -, -, -, rfl, rfl⟩ := reopen_ok _ _ _ _ _ opened
    have shorter := Wal.replay_length_le r.node.sys.db.walLimits start.toNat (replayInto coins)
      (.new, 0) r.node.sys.db.wal
    have fits := inv.fits
    simp only [reopened, if_true]
    refine ⟨?_, fun _ => ⟨?_, trivial, trivial⟩⟩
    · simp only [openHandle]
      omega
    · simp [openHandle, Committer.recentBytes, Persist.written]

end Steps

theorem step_accounted (env : Env) (r : SizeRun) (i : SizeStep) (inv : r.Accounted)
    (safe : r.Safe i) : (r.step env i).Accounted := by
  cases i with
  | tear written => exact tear_accounted written inv safe
  | node i =>
    cases running : r.node.up with
    | true =>
      have cuts := (inv.ledger running).cuts
      simp only [step, Node.step, if_pos running]
      cases i with
      | write rec => exact inv.unchanged running _ (unchanged_enqueue _ rec) cuts
      | take => exact inv.unchanged running _ (unchanged_take _) cuts
      | append => exact append_accounted inv running safe
      | finish coins => exact finish_accounted inv running coins safe
      | report => exact inv.unchanged running _ (unchanged_report _) cuts
      | freeze => exact freeze_accounted inv running
      | commit => exact commit_accounted env inv running
      | writeState => exact writeState_accounted inv running
      | truncate => exact truncate_accounted env inv running
      | removeState => exact removeState_accounted inv running
      | pop => exact pop_accounted inv running
      | crash => exact crash_accounted inv
      | reopen coins => exact inv
    | false =>
      have stopped : ¬r.node.up = true := by simp [running]
      simp only [step, Node.step, if_neg stopped]
      cases i with
      | reopen coins => exact reopen_accounted inv running coins
      | write | take | append | finish | report | freeze | commit | writeState | truncate
      | removeState | pop | crash =>
        simp only [reopened, if_neg stopped]
        exact inv

/-- Only the size check of the replay answers that the log is too large. -/
theorem reopens_iff (n : Node) :
    n.Reopens ↔ n.sys.db.wal.length ≤ n.sys.db.walLimits.withDefaults.maxFileSize := by
  refine ⟨And.left, fun fits => ⟨fits, fun coins refused => ?_⟩⟩
  obtain ⟨start, failed⟩ := reopen_wal _ _ coins _ refused
  have large := (Wal.replay_walTooLarge_iff _ start (replayInto coins) (.new, 0) _).mp failed
  omega

/-- In every run in which each batch overwrites no entry and has room behind what the
memtables account for, `Open` accepts the log wherever the run stops. -/
theorem reopens_of_safe (env : Env) (r : SizeRun) (steps : List SizeStep) (opened : r.Opened)
    (safe : Machine.Always (step env) Safe r steps) :
    (Machine.run (step env) r steps).node.Reopens :=
  (reopens_iff _).mpr (Machine.run_invariant (step env) Safe Accounted (step_accounted env) r steps
    (opened.accounted r) safe).fits

/-- A store just created with these options. -/
def created (limits : Wal.ReplayLimits) (memtableSize : Int) : SizeRun :=
  ⟨⟨⟨{ emptyDB with walLimits := limits, memtableSize := memtableSize }, .idle⟩, [], .idle, true⟩,
    0⟩

theorem created_opened (limits : Wal.ReplayLimits) (memtableSize : Int) :
    (created limits memtableSize).Opened where
  up := rfl
  idle := rfl
  flusher := rfl
  queue := rfl
  log := by
    show (0 : Int) ≤ if limits.maxFileSize ≤ 0 then 64 * 2 ^ 20 else limits.maxFileSize
    split <;> omega
  inherited := rfl

/-- Writes that are logged and applied as one batch. -/
def writeBatch (records : List Record) : List SizeStep :=
  records.map (fun rec => .node (.write rec)) ++
    [.node .take, .node .append, .node (.finish fun _ _ => false)]

/-- A log for at most four records of this size. -/
def fourRecords : Wal.ReplayLimits := { Wal.defaultReplayLimits with maxFileSize := 60 }

/-- Two memtables are filled, the first of them is flushed, a crash tears a batch, and the
rest of the log is replayed and added to. -/
theorem reopens_flushed :
    (Machine.run (step smallEnv) (created fourRecords 18) (
      writeBatch [⟨[97], [1], false⟩, ⟨[98], [1], false⟩] ++ writeBatch [⟨[97], [2], false⟩] ++
      [.node .commit, .node .writeState, .node .truncate, .node .removeState, .node .pop] ++
      writeBatch [⟨[99], [], true⟩] ++
      [.node (.write ⟨[100], [1], false⟩), .node .take, .tear 7,
        .node (.reopen fun _ _ => false)] ++
      writeBatch [⟨[100], [1], false⟩])).node.Reopens :=
  reopens_of_safe smallEnv _ _ (created_opened fourRecords 18) (by decide +kernel)

/-! ### Overwriting one key -/

/-- The record is written again and again, each time in a batch of its own. -/
def overwrites (rec : Record) (n : Nat) : List SizeStep :=
  (List.replicate n (writeBatch [rec])).flatten

/-- The store after the record was written `n` times: the log has it `n` times, the active
memtable once. -/
structure Overwritten (limits : Wal.ReplayLimits) (memtableSize : Int) (rec : Record) (n : Nat)
    (r : SizeRun) : Prop where
  up : r.node.up = true
  idle : r.node.sys.persist = .idle
  running : r.node.sys.db.closed = false
  batch : r.node.sys.db.pendingBatch = []
  limits : r.node.sys.db.walLimits = limits
  memtableSize : r.node.sys.db.memtableSize = memtableSize
  log : r.node.sys.db.wal.length = n * Wal.size [rec]
  active : r.node.sys.db.active.toMap = [] ∨ r.node.sys.db.active.toMap = [(rec.key, slotOf rec)]

section Overwriting

variable {limits : Wal.ReplayLimits} {memtableSize : Int} {rec : Record}

theorem toMap_overwrite (mem : SkipList) (coins : Nat → Bool)
    (single : mem.toMap = [] ∨ mem.toMap = [(rec.key, slotOf rec)]) :
    (applyRecordToMemtable mem rec coins).toMap = [(rec.key, slotOf rec)] := by
  rw [toMap_applyRecordToMemtable]
  rcases single with none_ | one
  · rw [none_]
    rfl
  · have sorted := mem.toMap_sorted
    rw [one] at sorted ⊢
    exact SortedMap.insert_replace rec.key (slotOf rec) (slotOf rec) [] [] sorted

/-- One more write adds the record to the log; the memtable stays as small as it was. -/
theorem Overwritten.again (env : Env) {n : Nat} {r : SizeRun}
    (written : Overwritten limits memtableSize rec n r)
    (valid : limits.validateRecord (rec.key.length % 2 ^ 32) (rec.value.length % 2 ^ 32) = .ok ())
    (small : Memtable.entrySize rec.key (slotOf rec) ≤ memtableSize) :
    Overwritten limits memtableSize rec (n + 1) (Machine.run (step env) r (writeBatch [rec])) := by
  obtain ⟨⟨⟨db, persist⟩, ssts, flusher, up⟩, inherited⟩ := r
  obtain ⟨rfl, rfl, running, batch, rfl, rfl, log, active⟩ := written
  simp only at running batch log active valid small
  have appended := Wal.appendBatch_valid db.walLimits db.wal [rec]
    (by simpa using valid)
  have single := toMap_overwrite db.active (fun _ => false) active
  have size : (applyRecordToMemtable db.active rec fun _ => false).size ≤ db.memtableSize := by
    rw [SkipList.size_eq, single]
    simpa [Memtable.mapSize] using small
  simp only [writeBatch, List.map_cons, List.map_nil, List.cons_append, List.nil_append,
    Machine.run_cons, Machine.run_nil, step, Node.step, if_true, Committer.enqueue, running,
    Bool.false_eq_true, if_false, batch, Committer.take, takePendingBatchLocked, reduceCtorEq,
    Committer.append, appended, Committer.finish, applyRecords, DB.maybeFlushLocked, size]
  refine ⟨rfl, rfl, rfl, rfl, rfl, rfl, ?_, .inr single⟩
  simp only [List.length_append, log]
  rw [Nat.succ_mul, Wal.size]

/-- Whatever the options, a record that is accepted and fits into the memtable can be
written until `Open` refuses the log. -/
theorem overwrites_outgrow (env : Env) (limits : Wal.ReplayLimits) (memtableSize : Int) (rec : Record)
    (valid : limits.validateRecord (rec.key.length % 2 ^ 32) (rec.value.length % 2 ^ 32) = .ok ())
    (small : Memtable.entrySize rec.key (slotOf rec) ≤ memtableSize) :
    ∃ n, ¬(Machine.run (step env) (created limits memtableSize) (overwrites rec n)).node.Reopens := by
  have all : ∀ n r m, Overwritten limits memtableSize rec m r → Overwritten limits memtableSize rec
      (m + n) (Machine.run (step env) r (overwrites rec n)) := by
    intro n
    induction n with
    | zero => exact fun r m written => written
    | succ n ih =>
      intro r m written
      have later := ih _ _ (written.again env valid small)
      rw [overwrites, List.replicate_succ, List.flatten_cons, Machine.run_append,
        Nat.add_comm n, ← Nat.add_assoc]
      exact later
  have start : Overwritten limits memtableSize rec 0 (created limits memtableSize) :=
    ⟨rfl, rfl, rfl, rfl, rfl, rfl, by simp [created, emptyDB], .inl SkipList.toMap_new⟩
  refine ⟨limits.withDefaults.maxFileSize.toNat + 1, fun reopens => ?_⟩
  have written := all (limits.withDefaults.maxFileSize.toNat + 1) _ _ start
  have fits := reopens.1
  have positive : 0 < Wal.size [rec] := by
    rw [Wal.size_cons, Wal.recordHeaderSize]
    omega
  have grown := Nat.le_mul_of_pos_right (0 + (limits.withDefaults.maxFileSize.toNat + 1)) positive
  rw [← written.log] at grown
  rw [written.limits] at fits
  omega

theorem overwrites_outgrow_small : ∃ n, ¬(Machine.run (step smallEnv)
    (created Wal.defaultReplayLimits 10) (overwrites ⟨[97], [1], false⟩ n)).node.Reopens :=
  overwrites_outgrow smallEnv Wal.defaultReplayLimits 10 ⟨[97], [1], false⟩ (by decide) (by decide)

end Overwriting

/-- Three puts of one key, each logged and applied. -/
def threePuts : List SizeStep :=
  writeBatch [⟨[97], [1], false⟩] ++ writeBatch [⟨[97], [2], false⟩] ++
    writeBatch [⟨[97], [3], false⟩]

/-- The memtable holds one entry and is far from being frozen, but the log has outgrown
its limit, and `Open` refuses it. -/
theorem not_reopens_overwrites :
    let limits := { Wal.defaultReplayLimits with maxFileSize := 40 }
    let r := Machine.run (step smallEnv) (created limits defaultMemtableSize) threePuts
    (created limits defaultMemtableSize).Opened ∧ r.node.sys.db.active.size = 10 ∧
      r.node.sys.db.wal.length = 45 ∧
      Db.reopen r.node.sys.db r.node.ssts (fun _ _ => false) = .error (.wal .walTooLarge) ∧
      ¬r.node.Reopens := by
  refine ⟨created_opened _ _, by decide +kernel, by decide +kernel, ?_, fun reopens => ?_⟩
  · rfl
  · exact absurd reopens.1 (by decide +kernel)

end SizeRun

end PebbleDB.Db
