import PebbleDB.Db.Batch
import PebbleDB.Lib.Machine
import PebbleDB.Lib.Pool

/-!
# The engine and its goroutines

`Open` starts three goroutines: `batchFlusher` persists queued records, `flusher` writes
frozen memtables to tables, `compactor` merges tables. `Close` stops them one after the
other. Besides, any caller may write, and may call the exported `FlushPendingBatch` and
`ForceMemtableFlush`.

A step is one section under `db.mu`, one call of the log or the manifest, or one operation
on a channel, of one goroutine; everything the environment decides (I/O errors, timeouts,
the choice of a `select`) comes with the step. A goroutine that has to wait stays where it
is. Sending on a closed channel, closing a channel twice and using the log after `Close`
has set it to nil panic, and a panic ends the process.

The store keeps a history besides what the code keeps: every accepted record has a number,
by which it is followed to the log, to a memtable and to a table.
-/
namespace PebbleDB.Db

open Memtable (SkipList Slot)
open Wal (Record)

/-! ### The store -/

/-- An accepted record and its number. -/
structure Op where
  seq : Nat
  record : Record
  deriving DecidableEq

/-- A memtable with the records that were applied to it since it was created, or since
`Open` had replayed `start` into it. -/
structure Mem where
  start : SkipList
  ops : List Op
  table : SkipList
  applied : ∀ key, table.find key =
    ((lastRecord key (ops.map Op.record)).map slotOf).or (start.find key)

namespace Mem

/-- A memtable to which no record of the run was applied. -/
def of (table : SkipList) : Mem := ⟨table, [], table, fun _ => rfl⟩

def new : Mem := of .new

/-- The apply loop of `flushPendingBatch`. -/
def apply (mem : Mem) (batch : List Op) (coins : Nat → Nat → Bool) : Mem where
  start := mem.start
  ops := mem.ops ++ batch
  table := applyRecords coins 0 mem.table (batch.map Op.record)
  applied key := by
    rw [find_applyRecords, mem.applied, List.map_append, lastRecord_append]
    cases lastRecord key (batch.map Op.record) with
    | some _ => rfl
    | none => rfl

/-- The size test of `Close` sees every record: a memtable of size zero has no entry. -/
theorem entries_eq_nil (mem : Mem) (small : mem.table.size ≤ 0) : mem.table.entries = [] := by
  rw [SkipList.size_eq, Memtable.mapSize] at small
  cases entries : mem.table.toMap with
  | nil => rw [SkipList.entries, entries]; rfl
  | cons e rest =>
    have first : 0 < Memtable.entrySize e.1 e.2 := by
      rw [Memtable.entrySize]
      omega
    have others : 0 ≤ (rest.map fun e => Memtable.entrySize e.1 e.2).sum := by
      apply List.sum_nonneg
      intro n member
      obtain ⟨x, -, rfl⟩ := List.mem_map.mp member
      rw [Memtable.entrySize]
      omega
    rw [entries, List.map_cons, List.sum_cons] at small
    omega

theorem ops_eq_nil (mem : Mem) (small : mem.table.size ≤ 0) : mem.ops = [] := by
  cases ops : mem.ops with
  | nil => rfl
  | cons op rest =>
    -- the key of the first record would have an entry
    have known := mem.applied op.record.key
    have nothing : mem.table.find op.record.key = none := by
      have missing := mem.table.findEntry_entries op.record.key
      rw [mem.entries_eq_nil small] at missing
      cases found : mem.table.find op.record.key with
      | none => rfl
      | some slot => rw [found] at missing; cases missing
    rw [nothing, ops] at known
    cases last : lastRecord op.record.key ((op :: rest).map Op.record) with
    | none =>
      rw [lastRecord, List.find?_eq_none] at last
      exact absurd (last op.record (by simp)) (by simp)
    | some r => rw [last] at known; cases known

end Mem

/-- A `flushQueueEntry`. -/
structure Queued where
  mem : Mem
  walCutoff : Nat

/-- A table that `AppendNewFile` has committed, with the memtable it was written from. -/
structure Committed where
  mem : Mem
  file : Bytes

/-- A freeze: the cutoff it recorded, and what the log and the memtables held by then. -/
structure Freeze where
  walCutoff : Nat
  logged : List Op
  applied : List Op

/-- What `db.mu` and the lock of the log protect. The fields from `accepted` on are the
history; `logged` has every record whose bytes were completely written. -/
structure EngineStore where
  walLimits : Wal.ReplayLimits
  memtableSize : Int
  pendingBatch : List Op
  active : Mem
  pendingFlush : List Queued
  wal : Bytes
  walErr : Bool
  accepted : List Op
  logged : List Op
  applied : List Op
  appendFailed : Bool
  freezes : List Freeze
  committed : List Committed

namespace EngineStore

variable (s : EngineStore)

def write (rec : Record) : EngineStore :=
  { s with
    pendingBatch := s.pendingBatch ++ [⟨s.accepted.length, rec⟩]
    accepted := s.accepted ++ [⟨s.accepted.length, rec⟩] }

def take : EngineStore := { s with pendingBatch := [] }

def restore (batch : List Op) : EngineStore := { s with pendingBatch := batch ++ s.pendingBatch }

/-- `AppendBatch`, and whether it returned nil. -/
def append (batch : List Op) (faults : Wal.Faults) : EngineStore × Bool :=
  let result := Wal.appendBatch s.walLimits s.wal (batch.map Op.record) faults
  let whole := (Wal.stored s.walLimits faults 0 (batch.map Op.record)).1.length
  ({ s with
    wal := result.1
    logged := s.logged ++ batch.take whole
    appendFailed := result.2.isSome }, result.2.isNone)

def apply (batch : List Op) (coins : Nat → Nat → Bool) : EngineStore :=
  { s with active := s.active.apply batch coins, applied := s.applied ++ batch }

def freeze : EngineStore :=
  { s with
    pendingFlush := s.pendingFlush ++ [⟨s.active, s.wal.length⟩]
    active := .new
    freezes := s.freezes ++ [⟨s.wal.length, s.logged, s.applied⟩] }

/-- A successful `AppendBatch` has written every record of the batch. -/
theorem append_ok (batch : List Op) (faults : Wal.Faults) (ok : (s.append batch faults).2 = true) :
    (s.append batch faults).1 = { s with
      wal := (Wal.appendBatch s.walLimits s.wal (batch.map Op.record) faults).1
      logged := s.logged ++ batch
      appendFailed := false } := by
  rw [append, Option.isNone_iff_eq_none] at ok
  have all : (Wal.stored s.walLimits faults 0 (batch.map Op.record)).1.length = batch.length := by
    have stored : Wal.stored s.walLimits faults 0 (batch.map Op.record) = (batch.map Op.record, []) := by
      rw [Wal.appendBatch] at ok
      split at ok
      next empty => rw [empty]; rfl
      · split at ok
        · cases ok
        next wal loop => exact Wal.appendRecords_ok _ _ _ s.wal _ (by rw [loop])
    rw [stored, List.length_map]
  rw [append]
  simp only [ok, all, List.take_length, Option.isSome_none]

end EngineStore

/-! ### The goroutines -/

/-- What the environment answers to a step; a step looks at the fields it needs. -/
structure Answer where
  faults : Wal.Faults := .none
  coins : Nat → Nat → Bool := fun _ _ => false
  sizeErr : Bool := false
  fails : Bool := false
  timeout : Bool := false
  stop : Bool := false

/-- A signalling channel; `closes` and `lateSends` count what happened to it. -/
structure Chan where
  queued : Nat
  closes : Nat
  lateSends : Nat
  deriving DecidableEq

namespace Chan

def closed (c : Chan) : Bool := c.closes != 0

def capacity : Nat := 8

/-- A send in a `select` with a default branch. -/
def send (c : Chan) : Chan :=
  if c.closed then { c with lateSends := c.lateSends + 1 }
  else if c.queued < capacity then { c with queued := c.queued + 1 }
  else c

def receive (c : Chan) : Chan := { c with queued := c.queued - 1 }

def close (c : Chan) : Chan := { c with closes := c.closes + 1 }

end Chan

/-- Where a call of `flushPendingBatch` stands; the last steps are those of `notifyFlush`. -/
inductive FlushPc where
  | start
  | taken (batch : List Op)
  | appended (batch : List Op)
  | failed (batch : List Op)
  | restored
  | check
  | send
  | done (ok : Bool)

/-- What the call has returned. -/
def FlushPc.result : FlushPc → Option Bool
  | .done ok => some ok
  | _ => none

/-- The call holds a batch. -/
def FlushPc.holds : FlushPc → Bool
  | .taken _ => true
  | .appended _ => true
  | .failed _ => true
  | _ => false

/-- The records the call holds, in neither `pendingBatch` nor a memtable. -/
def FlushPc.batch : FlushPc → List Op
  | .taken batch => batch
  | .appended batch => batch
  | .failed batch => batch
  | _ => []

inductive BatchPc where
  | select
  | flushing (stop : Bool) (pc : FlushPc)
  | ended

/-- The flusher, inside `drainPendingFlush` and `flushImmutable`. -/
inductive FlusherPc where
  | recv
  | drain
  | flushing (q : Queued)
  | failed (q : Queued)
  | committed (q : Queued)
  | published (q : Queued)
  | trigger (q : Queued)
  | triggerSend (q : Queued)
  | pop (q : Queued)
  | ended

inductive CompactorPc where
  | recv
  | lock
  | compacting
  | ended
  deriving DecidableEq

/-- Where `shutdownBackgroundWorkers` stands. -/
inductive ShutdownStage where
  | closeFlush
  | joinFlush
  | closeCompact
  | joinCompact
  deriving DecidableEq

/-- The call of `Close` that found `db.closed` unset. `err` says whether `closeErr` is set,
`abort` whether the shutdown is that of `abortClose`, `failed` whether a join timed out. -/
inductive ClosePc where
  | none
  | stopBatch
  | joinBatch
  | flushing (err : Bool) (pc : FlushPc)
  | loop (err : Bool)
  | notify (err : Bool)
  | wait (err : Bool)
  | shutdown (err abort failed : Bool) (stage : ShutdownStage)
  | teardown (err : Bool)
  | release (err : Bool)
  | returned (err : Bool)

/-- A call of `FlushPendingBatch` or `ForceMemtableFlush`. -/
inductive CallPc where
  | flush (pc : FlushPc)
  | force (pc : FlushPc)
  | freeze
  | check
  | send
  | wait
  | done

/-- The handle with its goroutines. `attached` says that log and manifest are not nil. -/
structure Engine where
  store : EngineStore
  closed : Bool
  attached : Bool
  tables : Nat
  compactThreshold : Int
  flushCh : Chan
  compactCh : Chan
  compactMu : Bool
  batchStop : Bool
  batchStopErr : Bool
  dirLock : Bool
  panicked : Bool
  returnedNil : Bool
  batchFlusher : BatchPc
  flusher : FlusherPc
  compactor : CompactorPc
  closer : ClosePc
  calls : List CallPc

inductive Actor where
  | batchFlusher
  | flusher
  | compactor
  | closer
  | call (i : Nat)
  deriving DecidableEq

inductive EngineStep where
  | write (rec : Record)
  | close
  | flushPendingBatch
  | forceMemtableFlush
  | run (who : Actor) (a : Answer)

namespace Engine

def panic (e : Engine) : Engine := { e with panicked := true }

def sendFlush (e : Engine) : Engine :=
  { e with flushCh := e.flushCh.send, panicked := e.flushCh.closed }

def sendCompact (e : Engine) : Engine :=
  { e with compactCh := e.compactCh.send, panicked := e.compactCh.closed }

def closeFlushCh (e : Engine) : Engine :=
  { e with flushCh := e.flushCh.close, panicked := e.flushCh.closed }

def closeCompactCh (e : Engine) : Engine :=
  { e with compactCh := e.compactCh.close, panicked := e.compactCh.closed }

/-- One step of `flushPendingBatch`. -/
def persist (e : Engine) (a : Answer) : FlushPc → Engine × FlushPc
  | .start =>
    if e.store.pendingBatch.isEmpty then (e, .done true)
    else ({ e with store := e.store.take }, .taken e.store.pendingBatch)
  | .taken batch =>
    if e.attached then
      ({ e with store := (e.store.append batch a.faults).1 },
        if (e.store.append batch a.faults).2 then .appended batch else .failed batch)
    -- `Close` has set `db.wal` to nil
    else (e.panic, .taken batch)
  | .failed batch => ({ e with store := e.store.restore batch }, .restored)
  | .restored => ({ e with store.walErr := true }, .done false)
  | .appended batch =>
    let applied := { e with store := e.store.apply batch a.coins }
    -- `maybeFlushLocked`
    if applied.store.active.table.size ≤ e.store.memtableSize then (applied, .done true)
    else if !e.attached then (applied.panic, .done false)
    else if a.sizeErr then (applied, .done false)
    else ({ e with store := applied.store.freeze }, .check)
  -- `signalFlush` reads `db.closed` under the lock and sends after it
  | .check => (e, if e.closed then .done true else .send)
  | .send => (e.sendFlush, .done true)
  | .done ok => (e, .done ok)

/-- `batchFlusher`; a request and the timer are the same branch here. -/
def runBatchFlusher (e : Engine) (a : Answer) : Engine :=
  match e.batchFlusher with
  | .select =>
    if a.stop then
      if e.batchStop then { e with batchFlusher := .flushing true .start } else e
    else { e with batchFlusher := .flushing false .start }
  | .flushing stop pc =>
    match pc.result with
    | some ok =>
      if stop then { e with batchStopErr := !ok, batchFlusher := .ended }
      else { e with batchFlusher := .select }
    | none => { (e.persist a pc).1 with batchFlusher := .flushing stop (e.persist a pc).2 }
  | .ended => e

/-- `flusher`. A flush fails anywhere up to `AppendNewFile`, or it commits its table. -/
def runFlusher (env : Env) (e : Engine) (a : Answer) : Engine :=
  match e.flusher with
  | .recv =>
    if 0 < e.flushCh.queued then { e with flushCh := e.flushCh.receive, flusher := .drain }
    -- `range db.flushCh` ends when the channel is closed and empty
    else if e.flushCh.closed then { e with flusher := .ended }
    else e
  | .drain =>
    match e.store.pendingFlush with
    | [] => { e with flusher := .recv }
    | q :: _ => { e with flusher := .flushing q }
  | .flushing q =>
    if !e.attached || a.fails then { e with flusher := .failed q }
    else
      match Sst.writeTable env.sizing defaultBlockSize q.mem.table.len q.mem.table.entries with
      | .error _ => { e with flusher := .failed q }
      | .ok file =>
        { e with
          store.committed := e.store.committed ++ [⟨q.mem, file⟩]
          flusher := .committed q }
  -- the entry goes back to the head of the queue, and the next round follows
  | .failed q =>
    { e with
      store.pendingFlush := if e.store.pendingFlush.isEmpty then [] else q :: e.store.pendingFlush.tail
      flusher := .drain }
  | .committed q => { e with tables := e.tables + 1, flusher := .published q }
  -- `MaybeCompact` and `completeWalAfterFlush`
  | .published q =>
    if e.attached then
      { e with
        store.wal := if a.fails then e.store.wal else e.store.wal.drop q.walCutoff
        flusher := .trigger q }
    else e.panic
  | .trigger q =>
    if e.closed || e.compactThreshold ≤ 0 || e.tables < e.compactThreshold then
      { e with flusher := .pop q }
    else { e with flusher := .triggerSend q }
  | .triggerSend q => { e.sendCompact with flusher := .pop q }
  | .pop _ =>
    { e with
      store.pendingFlush := e.store.pendingFlush.tail
      flusher := .drain }
  | .ended => e

/-- `compactor`; a round of `doCompaction` merges two tables, or fails. -/
def runCompactor (e : Engine) (a : Answer) : Engine :=
  match e.compactor with
  | .recv =>
    if 0 < e.compactCh.queued then { e with compactCh := e.compactCh.receive, compactor := .lock }
    else if e.compactCh.closed then { e with compactor := .ended }
    else e
  -- the lock is held over all rounds of one wake-up
  | .lock => if e.compactMu then e else { e with compactMu := true, compactor := .compacting }
  | .compacting =>
    if a.fails then { e with compactMu := false, compactor := .recv }
    else
      let tables := if e.compactThreshold ≤ e.tables ∧ 2 ≤ e.tables then e.tables - 1 else e.tables
      if e.compactThreshold ≤ tables then { e with tables := tables }
      else { e with tables := tables, compactMu := false, compactor := .recv }
  | .ended => e

/-- One step of `shutdownBackgroundWorkers`, and how `Close` goes on after it. -/
def runShutdown (e : Engine) (a : Answer) (err abort failed : Bool) : ShutdownStage → Engine
  | .closeFlush => { e.closeFlushCh with closer := .shutdown err abort failed .joinFlush }
  | .joinFlush =>
    match e.flusher, a.timeout with
    | _, true => { e with closer := .shutdown err abort true .closeCompact }
    | .ended, false => { e with closer := .shutdown err abort failed .closeCompact }
    | _, false => e
  | .closeCompact =>
    -- a compaction that is running is waited for, without a timeout
    if e.compactMu then e
    else { e.closeCompactCh with closer := .shutdown err abort failed .joinCompact }
  | .joinCompact =>
    if !a.timeout && e.compactor ≠ .ended then e
    else if abort then { e with closer := .release true }
    -- a join that timed out: `abortClose` starts over
    else if failed || a.timeout then { e with closer := .shutdown true true false .closeFlush }
    else { e with closer := .teardown err }

/-- `Close`, behind the check of `db.closed`. -/
def runCloser (e : Engine) (a : Answer) : Engine :=
  match e.closer with
  | .none => e
  | .stopBatch => { e with batchStop := true, closer := .joinBatch }
  | .joinBatch =>
    match e.batchFlusher with
    | .ended => { e with closer := .flushing e.batchStopErr .start }
    | _ => e
  | .flushing err pc =>
    match pc.result with
    | some ok => { e with closer := .loop (err || !ok) }
    | none => { (e.persist a pc).1 with closer := .flushing err (e.persist a pc).2 }
  | .loop err =>
    if e.store.active.table.size ≤ 0 then
      if e.store.pendingFlush.isEmpty then { e with closer := .shutdown err false false .closeFlush }
      else { e with closer := .notify err }
    -- the size of the log is not known: `abortClose`, with the memtable still active
    else if a.sizeErr then { e with closer := .shutdown true true false .closeFlush }
    else { e with store := e.store.freeze, closer := .notify err }
  | .notify err => { e.sendFlush with closer := .wait err }
  | .wait err =>
    if a.timeout then { e with closer := .shutdown true true false .closeFlush }
    else if e.store.pendingFlush.isEmpty then { e with closer := .loop err }
    else e
  | .shutdown err abort failed stage => e.runShutdown a err abort failed stage
  -- `db.wal` and `db.manifest` become nil
  | .teardown err => { e with attached := false, tables := 0, closer := .release err }
  -- the deferred `releaseDirLock`, whichever way `Close` ends
  | .release err =>
    { e with
      dirLock := false
      closer := .returned err
      returnedNil := e.returnedNil || !err }
  | .returned _ => e

/-- A step of a call, with where it stands afterwards. -/
def advance (e : Engine) (a : Answer) : CallPc → Engine × CallPc
  | .flush pc =>
    match pc.result with
    | some _ => (e, .done)
    | none => ((e.persist a pc).1, .flush (e.persist a pc).2)
  | .force pc =>
    match pc.result with
    | some ok => (e, if ok then .freeze else .done)
    | none => ((e.persist a pc).1, .force (e.persist a pc).2)
  | .freeze =>
    if e.closed then (e, .done)
    else if 0 < e.store.active.table.size then
      if a.sizeErr then (e, .done) else ({ e with store := e.store.freeze }, .check)
    else (e, if e.store.pendingFlush.isEmpty then .done else .check)
  | .check => (e, if e.closed then .wait else .send)
  | .send => (e.sendFlush, .wait)
  | .wait => (e, if e.store.pendingFlush.isEmpty || a.timeout then .done else .wait)
  | .done => (e, .done)

def runCall (e : Engine) (a : Answer) (i : Nat) : Engine :=
  match e.calls[i]? with
  | none => e
  | some pc => { (e.advance a pc).1 with calls := e.calls.set i (e.advance a pc).2 }

def run (env : Env) (e : Engine) (a : Answer) : Actor → Engine
  | .batchFlusher => e.runBatchFlusher a
  | .flusher => e.runFlusher env a
  | .compactor => e.runCompactor a
  | .closer => e.runCloser a
  | .call i => e.runCall a i

/-- `Close` up to the check of `db.closed`; a second call returns nil there. -/
def beginClose (e : Engine) : Engine :=
  if e.closed then { e with returnedNil := true }
  else { e with closed := true, closer := .stopBatch }

def step (env : Env) (e : Engine) (i : EngineStep) : Engine :=
  if e.panicked then e
  else
    match i with
    | .write rec => if e.closed then e else { e with store := e.store.write rec }
    | .close => e.beginClose
    | .flushPendingBatch => { e with calls := e.calls ++ [.flush .start] }
    | .forceMemtableFlush => { e with calls := e.calls ++ [.force .start] }
    | .run who a => e.run env a who

/-- As `Open` leaves it: the log was replayed into the active memtable, nothing is queued but
possibly a wake-up of the compactor, and the goroutines are at the head of their loops. -/
structure Opened (e : Engine) : Prop where
  batch : e.store.pendingBatch = []
  active : e.store.active.ops = []
  queue : e.store.pendingFlush = []
  accepted : e.store.accepted = []
  logged : e.store.logged = []
  applied : e.store.applied = []
  appendFailed : e.store.appendFailed = false
  freezes : e.store.freezes = []
  committed : e.store.committed = []
  closed : e.closed = false
  attached : e.attached = true
  batchStop : e.batchStop = false
  flushCh : e.flushCh = ⟨0, 0, 0⟩
  compactCh : e.compactCh.closes = 0 ∧ e.compactCh.lateSends = 0
  dirLock : e.dirLock = true
  panicked : e.panicked = false
  returnedNil : e.returnedNil = false
  batchFlusher : e.batchFlusher = .select
  flusher : e.flusher = .recv
  compactor : e.compactor = .recv
  closer : e.closer = .none
  calls : e.calls = []

/-- What `Open` returns for an empty directory. -/
def fresh (memtableSize : Int) : Engine where
  store := {
    walLimits := Wal.defaultReplayLimits
    memtableSize := memtableSize
    pendingBatch := []
    active := .new
    pendingFlush := []
    wal := []
    walErr := false
    accepted := []
    logged := []
    applied := []
    appendFailed := false
    freezes := []
    committed := [] }
  closed := false
  attached := true
  tables := 0
  compactThreshold := defaultCompactThreshold
  flushCh := ⟨0, 0, 0⟩
  compactCh := ⟨0, 0, 0⟩
  compactMu := false
  batchStop := false
  batchStopErr := false
  dirLock := true
  panicked := false
  returnedNil := false
  batchFlusher := .select
  flusher := .recv
  compactor := .recv
  closer := .none
  calls := []

theorem fresh_opened (memtableSize : Int) : (fresh memtableSize).Opened :=
  ⟨rfl, rfl, rfl, rfl, rfl, rfl, rfl, rfl, rfl, rfl, rfl, rfl, rfl, ⟨rfl, rfl⟩, rfl, rfl, rfl, rfl,
    rfl, rfl, rfl, rfl⟩

/-- A goroutine takes `n` steps in which nothing fails. -/
def runs (who : Actor) (n : Nat) : List EngineStep := List.replicate n (.run who {})

/-- `Close` up to the end of the batch flusher, its own flush and the head of its loop, with
nothing to persist. -/
def closeBatch : List EngineStep :=
  [.close] ++ runs .closer 1 ++ [.run .batchFlusher { stop := true }] ++ runs .batchFlusher 2 ++
    runs .closer 3

/-- A record is written and persisted, and `Close` flushes its memtable and returns. -/
def cleanClose : List EngineStep :=
  [.write ⟨[97], [1], false⟩] ++ runs .batchFlusher 5 ++ closeBatch ++ runs .closer 2 ++
    runs .flusher 8 ++ runs .closer 3 ++ runs .flusher 1 ++ runs .closer 2 ++ runs .compactor 1 ++
    runs .closer 3

/-- The flush of the last memtable keeps failing, the drain and the join of the flusher time
out, and `Close` returns its error. -/
def failingClose : List EngineStep :=
  [.write ⟨[97], [1], false⟩] ++ runs .batchFlusher 5 ++ closeBatch ++ runs .closer 2 ++
    runs .flusher 2 ++ [.run .flusher { fails := true }, .run .closer { timeout := true }] ++
    runs .closer 1 ++ [.run .closer { timeout := true }] ++ runs .closer 1 ++ runs .compactor 1 ++
    runs .closer 2

end Engine

/-! ### Group commit in the engine -/

/-- The step of the group-commit model that a call of `flushPendingBatch` is about to take. -/
def FlushPc.act (a : Answer) : FlushPc → Committer → Committer
  | .start => .take
  | .taken _ => (Committer.append · a.faults)
  | .appended _ | .failed _ => (Committer.finish · a.coins)
  | .restored => .report
  | .check | .send | .done _ => id

def FlushPc.persist : FlushPc → Persist
  | .taken batch => .taken (batch.map Op.record)
  | .appended batch => .appended (batch.map Op.record)
  | .failed batch => .failed (batch.map Op.record)
  | .restored => .restored
  | .start | .check | .send | .done _ => .idle

namespace Engine

/-- The store without numbers and history; `base` has the fields the engine leaves out. -/
def db (base : DB) (e : Engine) : DB :=
  { base with
    closed := e.closed
    walErr := e.store.walErr
    pendingBatch := e.store.pendingBatch.map Op.record
    batchSizeBytes := ((e.store.pendingBatch.map Op.record).map recordWireSize).sum
    active := e.store.active.table
    pendingFlush := e.store.pendingFlush.map fun q => ⟨q.mem.table, q.walCutoff⟩
    wal := e.store.wal
    walLimits := e.store.walLimits
    memtableSize := e.store.memtableSize }

/-- A call of `flushPendingBatch` follows the group-commit model step by step. -/
theorem persist_follows (base : DB) (e : Engine) (a : Answer) (pc : FlushPc)
    (attached : e.attached = true) (sized : a.sizeErr = false) :
    (⟨(e.persist a pc).1.db base, (e.persist a pc).2.persist⟩ : Committer) =
      pc.act a ⟨e.db base, pc.persist⟩ := by
  cases pc with
  | start =>
    rw [persist, FlushPc.act, FlushPc.persist, Committer.take]
    cases batch : e.store.pendingBatch with
    | nil => simp [db, batch, FlushPc.persist]
    | cons op ops => simp [db, batch, FlushPc.persist, EngineStore.take, takePendingBatchLocked]
  | taken batch =>
    cases result : Wal.appendBatch e.store.walLimits e.store.wal (batch.map Op.record) a.faults with
    | mk wal err =>
      have log : Wal.appendBatch (e.db base).walLimits (e.db base).wal (batch.map Op.record)
          a.faults = (wal, err) := result
      simp only [persist, attached, if_true, FlushPc.act, FlushPc.persist, Committer.append,
        EngineStore.append, result, log]
      cases err with
      | none => rfl
      | some error => rfl
  | appended batch =>
    simp only [persist, attached, sized, FlushPc.act, FlushPc.persist, Committer.finish,
      DB.maybeFlushLocked]
    split
    next small =>
      have small' : (applyRecords a.coins 0 e.store.active.table (batch.map Op.record)).size ≤
          e.store.memtableSize := small
      simp [db, small', EngineStore.apply, Mem.apply]
    next large =>
      have large' : ¬(applyRecords a.coins 0 e.store.active.table (batch.map Op.record)).size ≤
          e.store.memtableSize := large
      simp [db, large', EngineStore.apply, EngineStore.freeze, Mem.apply, Mem.new, Mem.of, DB.freeze]
  | failed batch =>
    simp [persist, FlushPc.act, FlushPc.persist, Committer.finish, db, EngineStore.restore,
      restorePendingBatchLocked, Nat.add_comm]
  | restored => rfl
  | check =>
    rw [persist]
    cases e.closed with
    | true => rfl
    | false => rfl
  | send | done => rfl

/-! ### Calls of `flushPendingBatch` -/

/-- The last step that touches the store: the batch is in the memtable, which may be frozen
then, and the call holds nothing any more. -/
theorem persist_appended (e : Engine) (a : Answer) (batch : List Op) :
    ∃ store panicked pc, e.persist a (.appended batch) =
        ({ e with store := store, panicked := panicked }, pc) ∧
      (store = e.store.apply batch a.coins ∨ store = (e.store.apply batch a.coins).freeze) ∧
      (pc = .check ∨ ∃ ok, pc = .done ok) := by
  rw [persist]
  split
  · exact ⟨_, _, _, rfl, .inl rfl, .inr ⟨_, rfl⟩⟩
  · split
    · exact ⟨_, _, _, rfl, .inl rfl, .inr ⟨_, rfl⟩⟩
    · split
      · exact ⟨_, _, _, rfl, .inl rfl, .inr ⟨_, rfl⟩⟩
      · exact ⟨_, _, _, rfl, .inr rfl, .inl rfl⟩

/-- A call changes the store, and it may send on `flushCh`. -/
theorem persist_eq (e : Engine) (a : Answer) (pc : FlushPc) :
    (e.persist a pc).1 = { e with
      store := (e.persist a pc).1.store
      flushCh := (e.persist a pc).1.flushCh
      panicked := (e.persist a pc).1.panicked } := by
  cases pc with
  | start | taken =>
    rw [persist]
    split
    · rfl
    · rfl
  | appended batch =>
    obtain ⟨store, panicked, pc, is, -, -⟩ := e.persist_appended a batch
    rw [is]
  | failed | restored | check | send | done => rfl

section
variable (e : Engine) (a : Answer) (pc : FlushPc)

@[simp] theorem persist_closed : (e.persist a pc).1.closed = e.closed := by rw [persist_eq]

@[simp] theorem persist_batchFlusher : (e.persist a pc).1.batchFlusher = e.batchFlusher := by
  rw [persist_eq]

@[simp] theorem persist_closer : (e.persist a pc).1.closer = e.closer := by rw [persist_eq]

@[simp] theorem persist_calls : (e.persist a pc).1.calls = e.calls := by rw [persist_eq]

end

end Engine

def BatchPc.flush : BatchPc → Option FlushPc
  | .flushing _ pc => some pc
  | _ => none

def ClosePc.flush : ClosePc → Option FlushPc
  | .flushing _ pc => some pc
  | _ => Option.none

def CallPc.flush? : CallPc → Option FlushPc
  | .flush pc => some pc
  | .force pc => some pc
  | _ => none

namespace Engine

/-- The call of `flushPendingBatch` in which a goroutine is. -/
def pcOf (e : Engine) : Actor → Option FlushPc
  | .batchFlusher => e.batchFlusher.flush
  | .closer => e.closer.flush
  | .call i => e.calls[i]?.bind CallPc.flush?
  | .flusher | .compactor => none

/-- The goroutine holds a batch. -/
def holdsAt (e : Engine) (who : Actor) : Bool := (e.pcOf who).any FlushPc.holds

/-- The goroutine is about to call `flushPendingBatch`. -/
def starts (e : Engine) (who : Actor) : Bool :=
  match e.pcOf who with
  | some .start => true
  | _ => false

/-- The goroutine is at the freeze of `Close` or of `ForceMemtableFlush`. -/
def freezing (e : Engine) : Actor → Bool
  | .closer =>
    match e.closer with
    | .loop _ => true
    | _ => false
  | .call i =>
    match e.calls[i]? with
    | some .freeze => true
    | _ => false
  | _ => false

/-- All calls under way. -/
def flushes (e : Engine) : List FlushPc :=
  e.batchFlusher.flush.toList ++ e.closer.flush.toList ++ e.calls.filterMap CallPc.flush?

theorem mem_flushes {e : Engine} {pc : FlushPc} :
    pc ∈ e.flushes ↔ ∃ who, e.pcOf who = some pc := by
  simp only [flushes, List.mem_append, Option.mem_toList, List.mem_filterMap]
  constructor
  · rintro ((at_ | at_) | ⟨call, member, at_⟩)
    · exact ⟨.batchFlusher, at_⟩
    · exact ⟨.closer, at_⟩
    · obtain ⟨i, there⟩ := List.mem_iff_getElem?.mp member
      exact ⟨.call i, by rw [pcOf, there]; exact at_⟩
  · rintro ⟨who, at_⟩
    cases who with
    | batchFlusher => exact .inl (.inl at_)
    | closer => exact .inl (.inr at_)
    | call i =>
      obtain ⟨call, there, is⟩ := Option.bind_eq_some_iff.mp at_
      exact .inr ⟨call, List.mem_of_getElem? there, is⟩
    | flusher | compactor => cases at_

/-- The other goroutines stay where they are. -/
structure Aside (who : Actor) (e e' : Engine) : Prop where
  batchFlusher : who ≠ .batchFlusher → e'.batchFlusher = e.batchFlusher
  closer : who ≠ .closer → e'.closer = e.closer
  calls : ∀ i, who ≠ .call i → e'.calls[i]? = e.calls[i]?

theorem Aside.pcOf {who other : Actor} {e e' : Engine} (aside : Aside who e e')
    (ne : other ≠ who) : e'.pcOf other = e.pcOf other := by
  cases other with
  | batchFlusher => rw [Engine.pcOf, Engine.pcOf, aside.batchFlusher ne.symm]
  | closer => rw [Engine.pcOf, Engine.pcOf, aside.closer ne.symm]
  | call i => rw [Engine.pcOf, Engine.pcOf, aside.calls i ne.symm]
  | flusher | compactor => rfl

section
variable {e e' : Engine}

theorem Aside.ofBatchFlusher (closer : e'.closer = e.closer) (calls : e'.calls = e.calls) :
    Aside .batchFlusher e e' :=
  ⟨fun ne => absurd rfl ne, fun _ => closer, fun i _ => by rw [calls]⟩

theorem Aside.ofCloser (batchFlusher : e'.batchFlusher = e.batchFlusher)
    (calls : e'.calls = e.calls) : Aside .closer e e' :=
  ⟨fun _ => batchFlusher, fun ne => absurd rfl ne, fun i _ => by rw [calls]⟩

theorem Aside.ofCall {i : Nat} (pc : CallPc) (batchFlusher : e'.batchFlusher = e.batchFlusher)
    (closer : e'.closer = e.closer) (calls : e'.calls = e.calls.set i pc) :
    Aside (.call i) e e' := by
  refine ⟨fun _ => batchFlusher, fun _ => closer, fun j ne => ?_⟩
  rw [calls, List.getElem?_set_ne]
  rintro rfl
  exact ne rfl

/-- A step of a goroutine that never calls `flushPendingBatch`. -/
theorem Aside.ofWorker (who : Actor) (batchFlusher : e'.batchFlusher = e.batchFlusher)
    (closer : e'.closer = e.closer) (calls : e'.calls = e.calls) : Aside who e e' :=
  ⟨fun _ => batchFlusher, fun _ => closer, fun i _ => by rw [calls]⟩

end

/-- A new call is the last one. -/
theorem Aside.ofSpawn (e : Engine) (call : CallPc) :
    Aside (.call e.calls.length) e { e with calls := e.calls ++ [call] } := by
  refine ⟨fun _ => rfl, fun _ => rfl, fun j ne => ?_⟩
  have other : j ≠ e.calls.length := by
    rintro rfl
    exact ne rfl
  by_cases inside : j < e.calls.length
  · exact List.getElem?_append_left inside
  · have beyond : e.calls.length + 1 ≤ j := by omega
    rw [List.getElem?_eq_none (Nat.le_of_succ_le beyond), List.getElem?_eq_none]
    rw [List.length_append, List.length_singleton]
    exact beyond

theorem holdsAt_new (e : Engine) : e.holdsAt (.call e.calls.length) = false := by
  rw [holdsAt, pcOf, List.getElem?_eq_none le_rfl]
  rfl

theorem holdsAt_spawn (e : Engine) (call : CallPc) (start : call.flush? = some .start) :
    holdsAt { e with calls := e.calls ++ [call] } (.call e.calls.length) = false := by
  rw [holdsAt, pcOf, List.getElem?_concat_length, Option.bind_some, start]
  rfl

/-! ### What the goroutines touch -/

theorem runBatchFlusher_eq (e : Engine) (a : Answer) :
    e.runBatchFlusher a = { e with
      store := (e.runBatchFlusher a).store
      flushCh := (e.runBatchFlusher a).flushCh
      panicked := (e.runBatchFlusher a).panicked
      batchStopErr := (e.runBatchFlusher a).batchStopErr
      batchFlusher := (e.runBatchFlusher a).batchFlusher } := by
  rw [runBatchFlusher]
  cases e.batchFlusher with
  | select =>
    dsimp only
    split
    · split
      · rfl
      · rfl
    · rfl
  | flushing stop pc =>
    dsimp only
    cases pc.result with
    | some ok =>
      dsimp only
      split
      · rfl
      · rfl
    | none =>
      dsimp only
      rw [persist_eq]
  | ended => rfl

theorem runFlusher_eq (env : Env) (e : Engine) (a : Answer) :
    e.runFlusher env a = { e with
      store.pendingFlush := (e.runFlusher env a).store.pendingFlush
      store.wal := (e.runFlusher env a).store.wal
      store.committed := (e.runFlusher env a).store.committed
      tables := (e.runFlusher env a).tables
      flushCh := (e.runFlusher env a).flushCh
      compactCh := (e.runFlusher env a).compactCh
      panicked := (e.runFlusher env a).panicked
      flusher := (e.runFlusher env a).flusher } := by
  rw [runFlusher]
  cases e.flusher with
  | recv =>
    dsimp only
    split
    · rfl
    · split
      · rfl
      · rfl
  | drain =>
    dsimp only
    split
    · rfl
    · rfl
  | flushing q =>
    dsimp only
    split
    · rfl
    · split
      · rfl
      · rfl
  | published q | trigger q =>
    dsimp only
    split
    · rfl
    · rfl
  | failed | committed | triggerSend | pop | ended => rfl

theorem runCompactor_eq (e : Engine) (a : Answer) :
    e.runCompactor a = { e with
      tables := (e.runCompactor a).tables
      compactCh := (e.runCompactor a).compactCh
      compactMu := (e.runCompactor a).compactMu
      compactor := (e.runCompactor a).compactor } := by
  rw [runCompactor]
  cases e.compactor with
  | recv =>
    dsimp only
    split
    · rfl
    · split
      · rfl
      · rfl
  | lock =>
    dsimp only
    split
    · rfl
    · rfl
  | compacting =>
    dsimp only
    generalize (if e.compactThreshold ≤ e.tables ∧ 2 ≤ e.tables then e.tables - 1 else e.tables) = n
    split
    · rfl
    · split
      · rfl
      · rfl
  | ended => rfl

theorem runShutdown_eq (e : Engine) (a : Answer) (err abort failed : Bool) (stage : ShutdownStage) :
    e.runShutdown a err abort failed stage = { e with
      flushCh := (e.runShutdown a err abort failed stage).flushCh
      compactCh := (e.runShutdown a err abort failed stage).compactCh
      panicked := (e.runShutdown a err abort failed stage).panicked
      closer := (e.runShutdown a err abort failed stage).closer } := by
  rw [runShutdown.eq_def]
  cases stage with
  | closeFlush => rfl
  | joinFlush =>
    dsimp only
    split
    · rfl
    · rfl
    · rfl
  | closeCompact =>
    dsimp only
    split
    · rfl
    · rfl
  | joinCompact =>
    dsimp only
    split
    · rfl
    · split
      · rfl
      · split
        · rfl
        · rfl

theorem advance_eq (e : Engine) (a : Answer) (pc : CallPc) :
    (e.advance a pc).1 = { e with
      store := (e.advance a pc).1.store
      flushCh := (e.advance a pc).1.flushCh
      panicked := (e.advance a pc).1.panicked } := by
  cases pc with
  | flush pc | force pc =>
    rw [advance]
    cases pc.result with
    | some ok => rfl
    | none => exact persist_eq e a pc
  | freeze =>
    rw [advance]
    split
    · rfl
    · split
      · split
        · rfl
        · rfl
      · rfl
  | check | send | wait | done => rfl

/-! ### What a step does to the batches

The batch flusher, `Close` and the exported calls differ in when they call
`flushPendingBatch` and freeze the memtable, not in what these do. -/

inductive Effect (who : Actor) (e : Engine) (a : Answer) (e' : Engine) : Prop where
  | pass (store : e'.store = e.store) (before : e.holdsAt who = false)
      (after : e'.holdsAt who = false)
  | persist (pc : FlushPc) (here : e.pcOf who = some pc)
      (store : e'.store = (e.persist a pc).1.store) (there : e'.pcOf who = some (e.persist a pc).2)
  | freeze (at_ : e.freezing who = true) (opened : who ≠ .closer → e.closed = false)
      (large : 0 < e.store.active.table.size) (store : e'.store = e.store.freeze)
      (before : e.holdsAt who = false) (after : e'.holdsAt who = false)

theorem runBatchFlusher_effect (e : Engine) (a : Answer) :
    Effect .batchFlusher e a (e.runBatchFlusher a) := by
  cases at_ : e.batchFlusher with
  | select =>
    have before : e.holdsAt .batchFlusher = false := by rw [holdsAt, pcOf, at_]; rfl
    simp only [runBatchFlusher, at_]
    split
    · split
      · exact .pass rfl before rfl
      · exact .pass rfl before before
    · exact .pass rfl before rfl
  | flushing stop pc =>
    have here : e.pcOf .batchFlusher = some pc := by rw [pcOf, at_]; rfl
    simp only [runBatchFlusher, at_]
    cases pc with
    | done ok =>
      have before : e.holdsAt .batchFlusher = false := by rw [holdsAt, here]; rfl
      dsimp only [FlushPc.result]
      split
      · exact .pass rfl before rfl
      · exact .pass rfl before rfl
    | start | taken | appended | failed | restored | check | send => exact .persist _ here rfl rfl
  | ended =>
    have before : e.holdsAt .batchFlusher = false := by rw [holdsAt, pcOf, at_]; rfl
    simp only [runBatchFlusher, at_]
    exact .pass rfl before before

/-- `shutdownBackgroundWorkers` goes on with a later stage, or `Close` with what follows. -/
theorem runShutdown_flush (e : Engine) (a : Answer) (err abort failed : Bool)
    (stage : ShutdownStage) (at_ : e.closer = .shutdown err abort failed stage) :
    (e.runShutdown a err abort failed stage).closer.flush = Option.none := by
  have stays : e.closer.flush = Option.none := by rw [at_]; rfl
  cases stage with
  | closeFlush => rfl
  | joinFlush =>
    rw [runShutdown]
    split
    · rfl
    · rfl
    · exact stays
  | closeCompact =>
    rw [runShutdown]
    split
    · exact stays
    · rfl
  | joinCompact =>
    rw [runShutdown]
    split
    · exact stays
    · split
      · rfl
      · split
        · rfl
        · rfl

theorem runCloser_effect (e : Engine) (a : Answer) : Effect .closer e a (e.runCloser a) := by
  have idle (none_ : e.closer.flush = Option.none) : e.holdsAt .closer = false := by
    rw [holdsAt, pcOf, none_]
    rfl
  cases at_ : e.closer with
  | none | returned =>
    have before := idle (by rw [at_]; rfl)
    simp only [runCloser, at_]
    exact .pass rfl before before
  | stopBatch | notify | teardown | release =>
    have before := idle (by rw [at_]; rfl)
    simp only [runCloser, at_]
    exact .pass rfl before rfl
  | joinBatch =>
    have before := idle (by rw [at_]; rfl)
    simp only [runCloser, at_]
    split
    · exact .pass rfl before rfl
    · exact .pass rfl before before
  | flushing err pc =>
    have here : e.pcOf .closer = some pc := by rw [pcOf, at_]; rfl
    simp only [runCloser, at_]
    cases pc with
    | done ok => exact .pass rfl (by rw [holdsAt, here]; rfl) rfl
    | start | taken | appended | failed | restored | check | send => exact .persist _ here rfl rfl
  | loop err =>
    have before := idle (by rw [at_]; rfl)
    simp only [runCloser, at_]
    split
    · split
      · exact .pass rfl before rfl
      · exact .pass rfl before rfl
    next large =>
      split
      · exact .pass rfl before rfl
      · exact .freeze (by rw [freezing, at_]) (fun ne => absurd rfl ne) (not_le.mp large) rfl before rfl
  | wait err =>
    have before := idle (by rw [at_]; rfl)
    simp only [runCloser, at_]
    split
    · exact .pass rfl before rfl
    · split
      · exact .pass rfl before rfl
      · exact .pass rfl before before
  | shutdown err abort failed stage =>
    have before := idle (by rw [at_]; rfl)
    have after := runShutdown_flush e a err abort failed stage at_
    simp only [runCloser, at_]
    rw [runShutdown_eq] at after ⊢
    exact .pass rfl before (by rw [holdsAt, pcOf, after]; rfl)

theorem runCall_effect (e : Engine) (a : Answer) (i : Nat) :
    Effect (.call i) e a (e.runCall a i) := by
  cases at_ : e.calls[i]? with
  | none =>
    have before : e.holdsAt (.call i) = false := by rw [holdsAt, pcOf, at_]; rfl
    simp only [runCall, at_]
    exact .pass rfl before before
  | some call =>
    have after {e' : Engine} {pc : CallPc} (calls : e'.calls = e.calls.set i pc)
        (none_ : pc.flush? = none) : e'.holdsAt (.call i) = false := by
      rw [holdsAt, pcOf, calls, Pool.getElem?_set at_, Option.bind_some, none_]
      rfl
    have before (free : call.flush?.any FlushPc.holds = false) : e.holdsAt (.call i) = false := by
      rw [holdsAt, pcOf, at_]
      exact free
    have flushed (pc : FlushPc) (wrap : FlushPc → CallPc) (here : call.flush? = some pc)
        (wraps : ∀ pc, (wrap pc).flush? = some pc) :
        Effect (.call i) e a { (e.persist a pc).1 with
          calls := e.calls.set i (wrap (e.persist a pc).2) } := by
      refine .persist pc (by rw [pcOf, at_]; exact here) rfl ?_
      rw [pcOf, Pool.getElem?_set at_, Option.bind_some, wraps]
    simp only [runCall, at_]
    cases call with
    | flush pc =>
      cases pc with
      | done ok => exact .pass rfl (before rfl) (after rfl rfl)
      | start | taken | appended | failed | restored | check | send =>
        exact flushed _ .flush rfl fun _ => rfl
    | force pc =>
      cases pc with
      | done ok => exact .pass rfl (before rfl) (after rfl (by cases ok <;> rfl))
      | start | taken | appended | failed | restored | check | send =>
        exact flushed _ .force rfl fun _ => rfl
    | freeze =>
      rw [advance]
      split
      · exact .pass rfl (before rfl) (after rfl rfl)
      next opened =>
        split
        next large =>
          split
          · exact .pass rfl (before rfl) (after rfl rfl)
          · exact .freeze (by rw [freezing, at_]) (fun _ => Bool.eq_false_iff.mpr opened) large rfl
              (before rfl) (after rfl rfl)
        · exact .pass rfl (before rfl) (after rfl (by split <;> rfl))
    | check | wait =>
      rw [advance]
      exact .pass rfl (before rfl) (after rfl (by split <;> rfl))
    | send | done => exact .pass rfl (before rfl) (after rfl rfl)

/-- The other goroutines stay where they are when a call takes a step. -/
theorem runCall_aside (e : Engine) (a : Answer) (i : Nat) : Aside (.call i) e (e.runCall a i) := by
  rw [runCall]
  split
  · exact .ofWorker _ rfl rfl rfl
  · rw [advance_eq]
    exact .ofCall _ rfl rfl rfl

theorem runBatchFlusher_aside (e : Engine) (a : Answer) :
    Aside .batchFlusher e (e.runBatchFlusher a) := by
  rw [runBatchFlusher_eq]
  exact .ofBatchFlusher rfl rfl

theorem runCloser_eq (e : Engine) (a : Answer) :
    e.runCloser a = { e with
      store := (e.runCloser a).store
      attached := (e.runCloser a).attached
      tables := (e.runCloser a).tables
      flushCh := (e.runCloser a).flushCh
      compactCh := (e.runCloser a).compactCh
      dirLock := (e.runCloser a).dirLock
      panicked := (e.runCloser a).panicked
      batchStop := (e.runCloser a).batchStop
      returnedNil := (e.runCloser a).returnedNil
      closer := (e.runCloser a).closer } := by
  rw [runCloser]
  cases e.closer with
  | none | stopBatch | notify | teardown | release | returned => rfl
  | joinBatch =>
    dsimp only
    split
    · rfl
    · rfl
  | flushing err pc =>
    dsimp only
    cases pc.result with
    | some ok => rfl
    | none =>
      dsimp only
      rw [persist_eq]
  | loop err =>
    dsimp only
    split
    · split
      · rfl
      · rfl
    · split
      · rfl
      · rfl
  | wait err =>
    dsimp only
    split
    · rfl
    · split
      · rfl
      · rfl
  | shutdown err abort failed stage =>
    dsimp only
    rw [runShutdown_eq]

theorem runCloser_aside (e : Engine) (a : Answer) : Aside .closer e (e.runCloser a) := by
  rw [runCloser_eq]
  exact .ofCloser rfl rfl

end Engine

/-! ### The order in which `Close` works -/

/-- `Close` has seen the end of the batch flusher. -/
def ClosePc.joined : ClosePc → Bool
  | .none => false
  | .stopBatch => false
  | .joinBatch => false
  | _ => true

namespace Engine

structure Orderly (e : Engine) : Prop where
  started : e.closed = false → e.closer = .none
  joined : e.closer.joined = true → e.batchFlusher = .ended

theorem Opened.orderly {e : Engine} (opened : e.Opened) : e.Orderly where
  started _ := opened.closer
  joined joined := by
    rw [opened.closer] at joined
    cases joined

variable {e : Engine}

theorem Orderly.closed (order : e.Orderly) (begun : e.closer ≠ .none) : e.closed = true := by
  cases closed : e.closed with
  | true => rfl
  | false => exact absurd (order.started closed) begun

theorem batchFlusher_orderly (order : e.Orderly) (a : Answer) : (e.runBatchFlusher a).Orderly := by
  have ends : e.batchFlusher = .ended → (e.runBatchFlusher a).batchFlusher = .ended := by
    intro ended
    rw [runBatchFlusher, ended]
    exact ended
  rw [runBatchFlusher_eq]
  exact ⟨order.started, fun joined => ends (order.joined joined)⟩

theorem closer_orderly (order : e.Orderly) (a : Answer) : (e.runCloser a).Orderly := by
  by_cases none_ : e.closer = .none
  · simp only [runCloser, none_]
    exact order
  have closed := order.closed none_
  -- `db.closed` stays set, so only the join matters
  have pass {e' : Engine} (flag : e'.closed = e.closed)
      (joined : e'.closer.joined = true → e'.batchFlusher = .ended) : e'.Orderly :=
    ⟨fun opened => (by rw [flag, closed] at opened; cases opened), joined⟩
  have after {e' : Engine} (flag : e'.closed = e.closed)
      (same : e'.batchFlusher = e.batchFlusher) (joined : e.closer.joined = true) : e'.Orderly :=
    pass flag fun _ => same.trans (order.joined joined)
  cases at_ : e.closer with
  | none => exact absurd at_ none_
  | stopBatch =>
    simp only [runCloser, at_]
    exact pass rfl nofun
  | joinBatch =>
    simp only [runCloser, at_]
    split
    next ended => exact pass rfl fun _ => ended
    · exact order
  | flushing err pc =>
    simp only [runCloser, at_]
    split
    · exact after rfl rfl (by rw [at_]; rfl)
    · exact after (persist_closed e a _) (persist_batchFlusher e a _) (by rw [at_]; rfl)
  | loop err =>
    simp only [runCloser, at_]
    split
    · split
      · exact after rfl rfl (by rw [at_]; rfl)
      · exact after rfl rfl (by rw [at_]; rfl)
    · split
      · exact after rfl rfl (by rw [at_]; rfl)
      · exact after rfl rfl (by rw [at_]; rfl)
  | wait err =>
    simp only [runCloser, at_]
    split
    · exact after rfl rfl (by rw [at_]; rfl)
    · split
      · exact after rfl rfl (by rw [at_]; rfl)
      · exact order
  | shutdown err abort failed stage =>
    simp only [runCloser, at_]
    rw [runShutdown_eq]
    exact after rfl rfl (by rw [at_]; rfl)
  | notify | teardown | release | returned =>
    simp only [runCloser, at_]
    exact after rfl rfl (by rw [at_]; rfl)

theorem step_orderly (env : Env) (e : Engine) (i : EngineStep) (order : e.Orderly) :
    (e.step env i).Orderly := by
  have pass {e' : Engine} (closed : e'.closed = e.closed) (closer : e'.closer = e.closer)
      (batchFlusher : e'.batchFlusher = e.batchFlusher) : e'.Orderly :=
    ⟨by rw [closed, closer]; exact order.started, by rw [closer, batchFlusher]; exact order.joined⟩
  unfold step
  split
  · exact order
  cases i with
  | write rec =>
    dsimp only
    split
    · exact order
    · exact pass rfl rfl rfl
  | close =>
    dsimp only
    rw [beginClose]
    split
    · exact pass rfl rfl rfl
    · exact ⟨nofun, nofun⟩
  | flushPendingBatch | forceMemtableFlush => exact pass rfl rfl rfl
  | run who a =>
    cases who with
    | batchFlusher => exact batchFlusher_orderly order a
    | flusher =>
      show (e.runFlusher env a).Orderly
      rw [runFlusher_eq]
      exact pass rfl rfl rfl
    | compactor =>
      show (e.runCompactor a).Orderly
      rw [runCompactor_eq]
      exact pass rfl rfl rfl
    | closer => exact closer_orderly order a
    | call i =>
      show (e.runCall a i).Orderly
      rw [runCall]
      split
      · exact order
      · rw [advance_eq]
        exact pass rfl rfl rfl

end Engine

end PebbleDB.Db
