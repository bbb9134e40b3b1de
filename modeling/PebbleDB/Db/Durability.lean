import PebbleDB.Db.GroupCommit

/-!
# Durability acknowledgements

`Sync`, and a write that has to wait, hand a reply channel to the batch flusher and wait
for its answer. One goroutine serves these requests and the timer, so while it serves a
request no other batch is in flight: what was queued before the request is either logged
already or part of the batch the request takes.
-/
namespace PebbleDB.Db

open Wal (Record)

/-- What made the batch flusher call `flushPendingBatch`. -/
inductive Request where
  | caller (c : Nat)
  | timer
  | stop
  deriving DecidableEq

/-- The goroutine `batchFlusher`. The barrier is held while it is `persisting` or `ending`. -/
inductive Server where
  | select
  | start (req : Request)
  | holding (req : Request)
  | persisting (req : Request)
  | ending (req : Request) (ok : Bool)
  | reply (req : Request) (ok : Bool)
  | stopped
  deriving DecidableEq

/-- A call of `writeRecord`, with the position of its record, or of `Sync`, with the number
of records accepted before it started. -/
inductive Call where
  | idle
  | checked (rec : Record)
  | queued (i : Nat)
  | waiting (i : Nat)
  | wrote (i : Nat)
  | syncing (before : Nat)
  | requesting (before : Nat)
  | awaiting (before : Nat)
  | barrier (before : Nat)
  | inspecting (before : Nat)
  | synced (before : Nat)
  | failed
  deriving DecidableEq

/-- The store with its callers, the requests in `batchSyncCh`, the records accepted so far
and the records of the batches whose `AppendBatch` returned nil. -/
structure SyncRun where
  sys : Committer
  server : Server
  channel : List Nat
  calls : Nat → Call
  accepted : List Record
  logged : List Record

def batchSyncChCapacity : Nat := 8

inductive SyncStep where
  | beginWrite (c : Nat) (rec : Record) (flushErr : Bool)
  | enqueue (c : Nat)
  | send (c : Nat)
  | beginSync (c : Nat) (flushErr : Bool)
  | checkOpen (c : Nat)
  | passBarrier (c : Nat)
  | inspect (c : Nat)
  | receive
  | wake
  | close
  | stop
  | closeFlush
  | take
  | begin_
  | append (faults : Wal.Faults)
  | finish (coins : Nat → Nat → Bool) (sizeErr : Bool)
  | report
  | end_
  | reply

namespace SyncRun

def setCall (s : SyncRun) (c : Nat) (call : Call) : SyncRun :=
  { s with calls := Function.update s.calls c call }

@[simp] theorem setCall_self (s : SyncRun) (c : Nat) (call : Call) :
    (s.setCall c call).calls c = call := by
  simp [setCall]

theorem setCall_of_ne (s : SyncRun) (c d : Nat) (call : Call) (other : d ≠ c) :
    (s.setCall c call).calls d = s.calls d := by
  simp [setCall, other]

/-! ### The callers -/

/-- The check in front of both calls: a stored `wal` error, or a stored `flush` error that
blocks writes. -/
def beginWrite (s : SyncRun) (c : Nat) (rec : Record) (flushErr : Bool) : SyncRun :=
  match s.calls c with
  | .idle => s.setCall c (if s.sys.db.walErr || flushErr then .failed else .checked rec)
  | _ => s

def enqueue (s : SyncRun) (c : Nat) : SyncRun :=
  match s.calls c with
  | .checked rec =>
    if s.sys.db.closed then s.setCall c .failed
    else
      let sys := s.sys.enqueue rec
      let i := s.accepted.length
      ({ s with sys := sys, accepted := s.accepted ++ [rec] } : SyncRun).setCall c
        -- a call that is not due returns without waiting for the log
        (if flushNow sys.db then .queued i else .wrote i)
  | _ => s

/-- The send of `awaitBatchPersist`, which blocks while the channel is full. -/
def send (s : SyncRun) (c : Nat) : SyncRun :=
  if batchSyncChCapacity ≤ s.channel.length then s
  else
    match s.calls c with
    | .queued i => ({ s with channel := s.channel ++ [c] } : SyncRun).setCall c (.waiting i)
    | .requesting n => ({ s with channel := s.channel ++ [c] } : SyncRun).setCall c (.awaiting n)
    | _ => s

def beginSync (s : SyncRun) (c : Nat) (flushErr : Bool) : SyncRun :=
  match s.calls c with
  | .idle =>
    s.setCall c (if s.sys.db.walErr || flushErr then .failed else .syncing s.accepted.length)
  | _ => s

/-- The head of the loop of `Sync`. -/
def checkOpen (s : SyncRun) (c : Nat) : SyncRun :=
  match s.calls c with
  | .syncing n => s.setCall c (if s.sys.db.closed then .failed else .requesting n)
  | _ => s

/-- `batchPersist.wait`, which blocks while a batch is being persisted. -/
def passBarrier (s : SyncRun) (c : Nat) : SyncRun :=
  match s.calls c, s.server with
  | .barrier _, .persisting _ => s
  | .barrier _, .ending _ _ => s
  | .barrier n, _ => s.setCall c (.inspecting n)
  | _, _ => s

/-- The end of the loop of `Sync`: return, or go around once more. -/
def inspect (s : SyncRun) (c : Nat) : SyncRun :=
  match s.calls c with
  | .inspecting n => s.setCall c (if s.sys.db.pendingBatch = [] then .synced n else .syncing n)
  | _ => s

/-! ### The batch flusher -/

def receive (s : SyncRun) : SyncRun :=
  match s.server, s.channel with
  | .select, c :: rest => { s with server := .start (.caller c), channel := rest }
  | _, _ => s

def wake (s : SyncRun) : SyncRun :=
  match s.server with
  | .select => { s with server := .start .timer }
  | _ => s

/-- The last round of the goroutine, after `Close` has closed `batchStop`. -/
def stop (s : SyncRun) : SyncRun :=
  match s.server with
  | .select => if s.sys.db.closed then { s with server := .start .stop } else s
  | _ => s

/-- The call of `flushPendingBatch` in `Close` itself, once the goroutine has ended. -/
def closeFlush (s : SyncRun) : SyncRun :=
  match s.server with
  | .stopped => { s with server := .start .stop }
  | _ => s

def take (s : SyncRun) : SyncRun :=
  match s.server with
  | .start req =>
    if s.sys.db.pendingBatch = [] then { s with server := .reply req true }
    else { s with sys := s.sys.take, server := .holding req }
  | _ => s

def begin_ (s : SyncRun) : SyncRun :=
  match s.server with
  | .holding req => { s with server := .persisting req }
  | _ => s

/-- What a successful `AppendBatch` has made durable. -/
def appended (s : SyncRun) (sys : Committer) : SyncRun :=
  match s.sys.persist, sys.persist with
  | .taken batch, .appended _ => { s with sys := sys, logged := s.logged ++ batch }
  | _, _ => { s with sys := sys }

def append (s : SyncRun) (faults : Wal.Faults) : SyncRun :=
  match s.server with
  | .persisting _ => s.appended (s.sys.append faults)
  | _ => s

/-- The freeze asks for the size of the log; when that fails the records stay applied and
the error is returned. -/
def applyOnly (s : Committer) (batch : List Record) (coins : Nat → Nat → Bool) : Committer :=
  ⟨{ s.db with active := applyRecords coins 0 s.db.active batch }, .idle⟩

def finish (s : SyncRun) (coins : Nat → Nat → Bool) (sizeErr : Bool) : SyncRun :=
  match s.server, s.sys.persist with
  | .persisting req, .appended batch =>
    let applied := applyOnly s.sys batch coins
    -- the size of the log is asked for only above the threshold; the batch is applied by then
    if sizeErr ∧ applied.db.memtableSize < applied.db.active.size then
      { s with sys := applied, server := .ending req false }
    else { s with sys := s.sys.finish coins, server := .ending req true }
  | .persisting _, .failed _ => { s with sys := s.sys.finish coins }
  | _, _ => s

def report (s : SyncRun) : SyncRun :=
  match s.server, s.sys.persist with
  | .persisting req, .restored => { s with sys := s.sys.report, server := .ending req false }
  | _, _ => s

def end_ (s : SyncRun) : SyncRun :=
  match s.server with
  | .ending req ok => { s with server := .reply req ok }
  | _ => s

/-- What the answer makes of a waiting call. -/
def answered (ok : Bool) : Call → Call
  | .waiting i => if ok then .wrote i else .failed
  | .awaiting n => if ok then .barrier n else .failed
  | call => call

def reply (s : SyncRun) : SyncRun :=
  match s.server with
  | .reply (.caller c) ok => ({ s with server := .select } : SyncRun).setCall c (answered ok (s.calls c))
  | .reply .timer _ => { s with server := .select }
  | .reply .stop _ => { s with server := .stopped }
  | _ => s

def step (s : SyncRun) : SyncStep → SyncRun
  | .beginWrite c rec flushErr => s.beginWrite c rec flushErr
  | .enqueue c => s.enqueue c
  | .send c => s.send c
  | .beginSync c flushErr => s.beginSync c flushErr
  | .checkOpen c => s.checkOpen c
  | .passBarrier c => s.passBarrier c
  | .inspect c => s.inspect c
  | .receive => s.receive
  | .wake => s.wake
  | .close => { s with sys.db.closed := true }
  | .stop => s.stop
  | .closeFlush => s.closeFlush
  | .take => s.take
  | .begin_ => s.begin_
  | .append faults => s.append faults
  | .finish coins sizeErr => s.finish coins sizeErr
  | .report => s.report
  | .end_ => s.end_
  | .reply => s.reply

/-- A store that was just opened: nothing queued, nobody calling. -/
def opened (db : DB) : SyncRun where
  sys := ⟨{ db with pendingBatch := [], batchSizeBytes := 0 }, .idle⟩
  server := .select
  channel := []
  calls := fun _ => .idle
  accepted := []
  logged := []

/-- A `Sync` that has returned nil: what was accepted before it started is logged. A write
that has returned nil under `SyncWrites`: its record is logged. -/
structure Acknowledged (s : SyncRun) : Prop where
  sync : ∀ c n, s.calls c = .synced n → s.accepted.take n <+: s.logged
  write : s.sys.db.syncWrites = true → ∀ c i, s.calls c = .wrote i →
    s.accepted.take (i + 1) <+: s.logged

end SyncRun

/-! ### The invariant -/

/-- The number of accepted records a call refers to. -/
def Call.bound : Call → Nat
  | .queued i => i + 1
  | .waiting i => i + 1
  | .syncing n => n
  | .requesting n => n
  | .awaiting n => n
  | _ => 0

/-- The number of records that must be logged because the call has heard so. -/
def Call.promise (syncWrites : Bool) : Call → Nat
  | .wrote i => if syncWrites then i + 1 else 0
  | .barrier n => n
  | .inspecting n => n
  | .synced n => n
  | _ => 0

def Call.isWaiting : Call → Bool
  | .waiting _ => true
  | .awaiting _ => true
  | _ => false

/-- The caller whose request is being served. -/
def Request.callers : Request → List Nat
  | .caller c => [c]
  | _ => []

def Server.callers : Server → List Nat
  | .start req => req.callers
  | .holding req => req.callers
  | .persisting req => req.callers
  | .ending req _ => req.callers
  | .reply req _ => req.callers
  | _ => []

/-- The step of `flushPendingBatch` fits what the server is doing. -/
def Server.Matches : Server → Persist → Prop
  | .holding _, .taken _ => True
  | .holding _, _ => False
  | .persisting _, p => p ≠ .idle
  | _, p => p = .idle

/-- How many records are logged when the request is answered with nil; `none` while or
after the answer is an error. -/
def Server.covers (logged : Nat) : Server → Persist → Option Nat
  | .holding _, .taken batch => some (logged + batch.length)
  | .persisting _, .taken batch => some (logged + batch.length)
  | .persisting _, .appended _ => some logged
  | .ending _ true, _ => some logged
  | .reply _ true, _ => some logged
  | _, _ => none

theorem Committer.append_taken (s : Committer) (batch : List Record)
    (at_ : s.persist = .taken batch) (faults : Wal.Faults) :
    ∃ wal, s.append faults = ⟨{ s.db with wal := wal }, .appended batch⟩ ∨
      s.append faults = ⟨{ s.db with wal := wal }, .failed batch⟩ := by
  simp only [Committer.append, at_]
  split
  next wal _ _ => exact ⟨wal, .inr rfl⟩
  next wal _ => exact ⟨wal, .inl rfl⟩

namespace SyncRun

/-- The callers whose requests are in the channel or being served. -/
def callers (s : SyncRun) : List Nat := s.server.callers ++ s.channel

structure Consistent (sync : Bool) (s : SyncRun) : Prop where
  option : s.sys.db.syncWrites = sync
  order : s.accepted = s.logged ++ s.sys.persist.unlogged ++ s.sys.db.pendingBatch
  phase : s.server.Matches s.sys.persist
  bound : ∀ c, (s.calls c).bound ≤ s.accepted.length
  promise : ∀ c, (s.calls c).promise sync ≤ s.logged.length
  distinct : s.callers.Nodup
  waiting : ∀ c ∈ s.callers, (s.calls c).isWaiting = true
  covered : ∀ c ∈ s.server.callers, ∀ n, s.server.covers s.logged.length s.sys.persist = some n →
    (s.calls c).bound ≤ n

variable {sync : Bool} {s : SyncRun}

theorem opened_consistent (db : DB) : (opened db).Consistent db.syncWrites where
  option := rfl
  order := rfl
  phase := rfl
  bound := fun _ => Nat.le_refl 0
  promise := fun _ => Nat.le_refl 0
  distinct := List.nodup_nil
  waiting := fun _ member => absurd member List.not_mem_nil
  covered := fun _ member => absurd member List.not_mem_nil

/-- The answers given so far are true. -/
theorem Consistent.acknowledged (inv : s.Consistent sync) : s.Acknowledged := by
  have front : ∀ n, n ≤ s.logged.length → s.accepted.take n <+: s.logged := by
    intro n enough
    rw [inv.order, List.append_assoc, List.take_append_of_le_length enough]
    exact List.take_prefix n s.logged
  constructor
  · intro c n done
    have promised := inv.promise c
    rw [done] at promised
    exact front n promised
  · intro syncWrites c i done
    have promised := inv.promise c
    rw [done, ← inv.option, Call.promise, if_pos syncWrites] at promised
    exact front (i + 1) promised

/-! ### What each step keeps -/

/-- A call that does not wait moves on by itself. -/
theorem Consistent.setCall (inv : s.Consistent sync) (c : Nat) (call : Call)
    (free : (s.calls c).isWaiting = false) (bound : call.bound ≤ s.accepted.length)
    (promise : call.promise sync ≤ s.logged.length) : (s.setCall c call).Consistent sync := by
  -- nobody serves the call, so the server's promises are about others
  have other : ∀ d ∈ s.callers, d ≠ c := by
    rintro d member rfl
    rw [inv.waiting d member] at free
    cases free
  have same : ∀ d, d ≠ c → (s.setCall c call).calls d = s.calls d :=
    fun d different => setCall_of_ne s c d call different
  have now : (s.setCall c call).calls c = call := setCall_self s c call
  refine ⟨inv.option, inv.order, inv.phase, ?_, ?_, inv.distinct, ?_, ?_⟩
  · intro d
    by_cases eq : d = c
    · rw [eq, now]
      exact bound
    · rw [same d eq]
      exact inv.bound d
  · intro d
    by_cases eq : d = c
    · rw [eq, now]
      exact promise
    · rw [same d eq]
      exact inv.promise d
  · intro d member
    rw [same d (other d member)]
    exact inv.waiting d member
  · intro d member n covers
    rw [same d (other d (List.mem_append_left _ member))]
    exact inv.covered d member n covers

theorem beginWrite_consistent (inv : s.Consistent sync) (c : Nat) (rec : Record)
    (flushErr : Bool) : (s.beginWrite c rec flushErr).Consistent sync := by
  rw [beginWrite]
  split
  next idle =>
    apply inv.setCall c _ (by rw [idle]; rfl)
    · split <;> exact Nat.zero_le _
    · split <;> exact Nat.zero_le _
  · exact inv

theorem beginSync_consistent (inv : s.Consistent sync) (c : Nat) (flushErr : Bool) :
    (s.beginSync c flushErr).Consistent sync := by
  rw [beginSync]
  split
  next idle =>
    apply inv.setCall c _ (by rw [idle]; rfl)
    · split
      · exact Nat.zero_le _
      · exact Nat.le_refl _
    · split <;> exact Nat.zero_le _
  · exact inv

theorem checkOpen_consistent (inv : s.Consistent sync) (c : Nat) :
    (s.checkOpen c).Consistent sync := by
  rw [checkOpen]
  split
  next n syncing =>
    have bound := inv.bound c
    rw [syncing] at bound
    apply inv.setCall c _ (by rw [syncing]; rfl)
    · split
      · exact Nat.zero_le _
      · exact bound
    · split <;> exact Nat.zero_le _
  · exact inv

theorem passBarrier_consistent (inv : s.Consistent sync) (c : Nat) :
    (s.passBarrier c).Consistent sync := by
  rw [passBarrier]
  split
  · exact inv
  · exact inv
  next n barrier _ _ =>
    have promise := inv.promise c
    rw [barrier] at promise
    exact inv.setCall c _ (by rw [barrier]; rfl) (Nat.zero_le _) promise
  · exact inv

theorem inspect_consistent (inv : s.Consistent sync) (c : Nat) :
    (s.inspect c).Consistent sync := by
  rw [inspect]
  split
  next n inspecting =>
    have promise := inv.promise c
    rw [inspecting] at promise
    have logged : s.logged.length ≤ s.accepted.length := by
      rw [inv.order, List.append_assoc, List.length_append]
      omega
    apply inv.setCall c _ (by rw [inspecting]; rfl)
    · split
      · exact Nat.zero_le _
      · exact Nat.le_trans promise logged
    · split
      · exact promise
      · exact Nat.zero_le _
  · exact inv

theorem enqueue_consistent (inv : s.Consistent sync) (c : Nat) :
    (s.enqueue c).Consistent sync := by
  rw [SyncRun.enqueue]
  split
  swap
  · exact inv
  next rec checked =>
  split
  · exact inv.setCall c _ (by rw [checked]; rfl) (Nat.zero_le _) (Nat.zero_le _)
  next opened =>
  have queued : s.sys.enqueue rec = ⟨{ s.sys.db with
      pendingBatch := s.sys.db.pendingBatch ++ [rec]
      batchSizeBytes := s.sys.db.batchSizeBytes + recordWireSize rec }, s.sys.persist⟩ := by
    rw [Committer.enqueue, if_neg opened]
  have grown : ({ s with sys := s.sys.enqueue rec, accepted := s.accepted ++ [rec] } :
      SyncRun).Consistent sync := by
    rw [queued]
    refine ⟨inv.option, ?_, inv.phase, ?_, inv.promise, inv.distinct, inv.waiting, inv.covered⟩
    · simp [inv.order]
    · intro d
      exact Nat.le_trans (inv.bound d) (by simp)
  apply grown.setCall c _ (by rw [checked]; rfl)
  · split
    · simp [Call.bound]
    · exact Nat.zero_le _
  · split
    · exact Nat.zero_le _
    next late =>
      -- under `SyncWrites` every write waits
      have lazy : sync = false := by
        have option : (s.sys.enqueue rec).db.syncWrites = sync := by
          rw [queued]
          exact inv.option
        rw [flushNow, option] at late
        cases sync with
        | true => simp at late
        | false => rfl
      rw [lazy]
      exact Nat.zero_le _

/-- A call that starts to wait joins the channel. -/
theorem Consistent.join (inv : s.Consistent sync) (c : Nat) (call : Call)
    (free : (s.calls c).isWaiting = false) (waits : call.isWaiting = true)
    (bound : call.bound ≤ s.accepted.length) (promise : call.promise sync ≤ s.logged.length) :
    (({ s with channel := s.channel ++ [c] } : SyncRun).setCall c call).Consistent sync := by
  have moved := inv.setCall c call free bound promise
  have new : c ∉ s.callers := by
    intro member
    rw [inv.waiting c member] at free
    cases free
  refine ⟨moved.option, moved.order, moved.phase, moved.bound, moved.promise, ?_, ?_,
    moved.covered⟩
  · show (s.server.callers ++ (s.channel ++ [c])).Nodup
    rw [← List.append_assoc, ← List.concat_eq_append]
    exact List.Nodup.concat new inv.distinct
  · intro d member
    have split : d ∈ s.callers ∨ d = c := by
      have member : d ∈ s.server.callers ++ (s.channel ++ [c]) := member
      rw [← List.append_assoc, List.mem_append, List.mem_singleton] at member
      exact member
    rcases split with old | rfl
    · exact moved.waiting d old
    · show ((s.setCall d call).calls d).isWaiting = true
      rw [setCall_self]
      exact waits

theorem send_consistent (inv : s.Consistent sync) (c : Nat) : (s.send c).Consistent sync := by
  have bound := inv.bound c
  rw [send]
  split
  · exact inv
  split
  next i queued =>
    rw [queued] at bound
    exact inv.join c _ (by rw [queued]; rfl) rfl bound (Nat.zero_le _)
  next n requesting =>
    rw [requesting] at bound
    exact inv.join c _ (by rw [requesting]; rfl) rfl bound (Nat.zero_le _)
  · exact inv

/-- The server moves on for the same caller. -/
theorem Consistent.serve (inv : s.Consistent sync) (server : Server)
    (same : server.callers = s.server.callers) (phase : server.Matches s.sys.persist)
    (covered : ∀ c ∈ s.server.callers, ∀ n,
      server.covers s.logged.length s.sys.persist = some n → (s.calls c).bound ≤ n) :
    ({ s with server := server } : SyncRun).Consistent sync := by
  have callers : ({ s with server := server } : SyncRun).callers = s.callers := by
    rw [SyncRun.callers, SyncRun.callers, same]
  refine ⟨inv.option, inv.order, phase, inv.bound, inv.promise, ?_, ?_, ?_⟩
  · rw [callers]
    exact inv.distinct
  · rw [callers]
    exact inv.waiting
  · intro c member
    rw [same] at member
    exact covered c member

theorem receive_consistent (inv : s.Consistent sync) : s.receive.Consistent sync := by
  rw [receive]
  split
  next c rest server channel =>
    -- the request moves from the channel to the server
    have callers : ({ s with server := .start (.caller c), channel := rest } : SyncRun).callers =
        s.callers := by
      rw [SyncRun.callers, SyncRun.callers, server, channel]
      rfl
    have phase := inv.phase
    rw [server] at phase
    refine ⟨inv.option, inv.order, phase, inv.bound, inv.promise, ?_, ?_, ?_⟩
    · rw [callers]
      exact inv.distinct
    · rw [callers]
      exact inv.waiting
    · intro d _ n covers
      cases covers
  · exact inv

theorem wake_consistent (inv : s.Consistent sync) : s.wake.Consistent sync := by
  have phase := inv.phase
  rw [wake]
  split
  next server =>
    rw [server] at phase
    exact inv.serve _ (by rw [server]; rfl) phase (fun _ _ _ covers => by cases covers)
  · exact inv

theorem stop_consistent (inv : s.Consistent sync) : s.stop.Consistent sync := by
  have phase := inv.phase
  rw [stop]
  split
  next server =>
    rw [server] at phase
    split
    · exact inv.serve _ (by rw [server]; rfl) phase (fun _ _ _ covers => by cases covers)
    · exact inv
  · exact inv

theorem closeFlush_consistent (inv : s.Consistent sync) : s.closeFlush.Consistent sync := by
  have phase := inv.phase
  rw [closeFlush]
  split
  next server =>
    rw [server] at phase
    exact inv.serve _ (by rw [server]; rfl) phase (fun _ _ _ covers => by cases covers)
  · exact inv

theorem take_consistent (inv : s.Consistent sync) : s.take.Consistent sync := by
  have phase := inv.phase
  have order := inv.order
  rw [SyncRun.take]
  split
  swap
  · exact inv
  next req server =>
  rw [server] at phase
  have idle : s.sys.persist = .idle := phase
  rw [idle, Persist.unlogged, List.append_nil] at order
  split
  next empty =>
    -- everything accepted so far is logged
    apply inv.serve (.reply req true) (by rw [server]; rfl) idle
    intro c _ n covers
    cases covers
    rw [empty, List.append_nil] at order
    rw [← order]
    exact inv.bound c
  next some_ =>
    have taken : s.sys.take = ⟨{ s.sys.db with pendingBatch := [], batchSizeBytes := 0 },
        .taken s.sys.db.pendingBatch⟩ := by
      simp only [Committer.take, idle, if_neg some_, takePendingBatchLocked]
    rw [taken]
    have callers : s.server.callers = req.callers := by
      rw [server]
      rfl
    refine ⟨inv.option, ?_, trivial, inv.bound, inv.promise, ?_, ?_, ?_⟩
    · show s.accepted = s.logged ++ s.sys.db.pendingBatch ++ []
      rw [List.append_nil, order]
    · show (req.callers ++ s.channel).Nodup
      rw [← callers]
      exact inv.distinct
    · intro c member
      apply inv.waiting c
      rw [SyncRun.callers, callers]
      exact member
    · -- the batch holds all that is not logged
      intro c _ n covers
      cases covers
      have all := inv.bound c
      rw [order, List.length_append] at all
      exact all

theorem begin_consistent (inv : s.Consistent sync) : s.begin_.Consistent sync := by
  have phase := inv.phase
  have covered := inv.covered
  rw [begin_]
  split
  swap
  · exact inv
  next req server =>
  rw [server] at phase covered
  cases at_ : s.sys.persist with
  | taken batch =>
    rw [at_] at covered
    apply inv.serve _ (by rw [server]; rfl)
    · rw [at_]
      intro idle
      cases idle
    · rw [at_, server]
      exact covered
  | idle | appended | failed | restored => exact absurd phase (by rw [at_]; exact id)

/-- The batch is logged, or it failed and the request will be answered with an error. -/
theorem append_consistent (inv : s.Consistent sync) (faults : Wal.Faults) :
    (s.append faults).Consistent sync := by
  have order := inv.order
  have covered := inv.covered
  rw [SyncRun.append]
  split
  swap
  · exact inv
  next req server =>
  rw [server] at covered
  cases at_ : s.sys.persist with
  | taken batch =>
    rw [at_, Persist.unlogged] at order
    rw [at_] at covered
    obtain ⟨wal, outcome⟩ := s.sys.append_taken batch at_ faults
    rcases outcome with ok | failed
    · rw [ok]
      simp only [appended, at_]
      refine ⟨inv.option, ?_, ?_, inv.bound, ?_, inv.distinct, inv.waiting, ?_⟩
      · show s.accepted = s.logged ++ batch ++ [] ++ s.sys.db.pendingBatch
        rw [List.append_nil, order]
      · show s.server.Matches (.appended batch)
        rw [server]
        intro idle
        cases idle
      · intro c
        exact Nat.le_trans (inv.promise c) (by simp)
      · show ∀ c ∈ s.server.callers, ∀ n, s.server.covers (s.logged ++ batch).length
          (.appended batch) = some n → (s.calls c).bound ≤ n
        intro c member n covers
        rw [server] at covers member
        cases covers
        rw [List.length_append]
        exact covered c member _ rfl
    · rw [failed]
      simp only [appended, at_]
      refine ⟨inv.option, order, ?_, inv.bound, inv.promise, inv.distinct, inv.waiting, ?_⟩
      · show s.server.Matches (.failed batch)
        rw [server]
        intro idle
        cases idle
      · show ∀ c ∈ s.server.callers, ∀ n, s.server.covers s.logged.length (.failed batch) =
          some n → (s.calls c).bound ≤ n
        intro c member n covers
        rw [server] at covers
        cases covers
  | idle | appended | failed | restored => simpa [Committer.append, appended, at_] using inv

/-- The server moves on after a step of `flushPendingBatch` that neither logs nor queues
anything new. -/
theorem Consistent.advance (inv : s.Consistent sync) (sys : Committer) (server : Server)
    (option : sys.db.syncWrites = s.sys.db.syncWrites)
    (records : sys.persist.unlogged ++ sys.db.pendingBatch =
      s.sys.persist.unlogged ++ s.sys.db.pendingBatch)
    (same : server.callers = s.server.callers) (phase : server.Matches sys.persist)
    (covered : ∀ c ∈ s.server.callers, ∀ n,
      server.covers s.logged.length sys.persist = some n → (s.calls c).bound ≤ n) :
    ({ s with sys := sys, server := server } : SyncRun).Consistent sync := by
  have callers : ({ s with sys := sys, server := server } : SyncRun).callers = s.callers := by
    rw [SyncRun.callers, SyncRun.callers, same]
  refine ⟨option.trans inv.option, ?_, phase, inv.bound, inv.promise, ?_, ?_, ?_⟩
  · show s.accepted = s.logged ++ sys.persist.unlogged ++ sys.db.pendingBatch
    rw [List.append_assoc, records, inv.order, List.append_assoc]
  · rw [callers]
    exact inv.distinct
  · rw [callers]
    exact inv.waiting
  · intro c member
    rw [same] at member
    exact covered c member

theorem finish_consistent (inv : s.Consistent sync) (coins : Nat → Nat → Bool) (sizeErr : Bool) :
    (s.finish coins sizeErr).Consistent sync := by
  have covered := inv.covered
  rw [SyncRun.finish]
  split
  next req batch server at_ =>
    rw [server, at_] at covered
    dsimp only
    split
    · -- applied, but the answer is an error
      refine inv.advance _ _ ?_ ?_ ?_ ?_ ?_
      · rfl
      · rw [at_]
        rfl
      · rw [server]
        rfl
      · rfl
      · intro c _ n covers
        cases covers
    · have applied : s.sys.finish coins = ⟨({ s.sys.db with
          active := applyRecords coins 0 s.sys.db.active batch } : DB).maybeFlushLocked.1,
          .idle⟩ := by
        simp only [Committer.finish, at_]
      obtain ⟨queue, active, same⟩ := DB.maybeFlushLocked_eq
        { s.sys.db with active := applyRecords coins 0 s.sys.db.active batch }
      rw [applied, same]
      refine inv.advance _ _ ?_ ?_ ?_ ?_ ?_
      · rfl
      · rw [at_]
        rfl
      · rw [server]
        rfl
      · rfl
      · rw [server]
        exact covered
  next req batch server at_ =>
    have restored : s.sys.finish coins =
        ⟨restorePendingBatchLocked s.sys.db batch, .restored⟩ := by
      simp only [Committer.finish, at_]
    rw [restored]
    refine inv.advance _ s.server ?_ ?_ ?_ ?_ ?_
    · rfl
    · rw [at_]
      rfl
    · rfl
    · rw [server]
      intro idle
      cases idle
    · rw [server]
      intro c _ n covers
      cases covers
  · exact inv

theorem report_consistent (inv : s.Consistent sync) : s.report.Consistent sync := by
  rw [SyncRun.report]
  split
  next req server at_ =>
    have reported : s.sys.report = ⟨{ s.sys.db with walErr := true }, .idle⟩ := by
      simp only [Committer.report, at_]
    rw [reported]
    refine inv.advance _ _ ?_ ?_ ?_ ?_ ?_
    · rfl
    · rw [at_]
      rfl
    · rw [server]
      rfl
    · rfl
    · intro c _ n covers
      cases covers
  · exact inv

theorem end_consistent (inv : s.Consistent sync) : s.end_.Consistent sync := by
  have phase := inv.phase
  have covered := inv.covered
  rw [end_]
  split
  next req ok server =>
    rw [server] at phase covered
    apply inv.serve (.reply req ok) (by rw [server]; rfl) phase
    rw [server]
    cases ok with
    | true => exact covered
    | false =>
      intro c _ n covers
      cases covers
  · exact inv

/-- The answer settles the call that was served, and no other. -/
theorem reply_consistent (inv : s.Consistent sync) : s.reply.Consistent sync := by
  have phase := inv.phase
  have covered := inv.covered
  have distinct := inv.distinct
  have waiting := inv.waiting
  rw [reply]
  split
  next c ok server =>
    rw [server] at phase covered
    rw [SyncRun.callers, server] at distinct waiting
    have alone : c ∉ s.channel := (List.nodup_cons.mp distinct).1
    have waits := waiting c (by simp [Server.callers, Request.callers])
    have others : ∀ d ∈ s.channel, d ≠ c := by
      rintro d member rfl
      exact alone member
    have told : (answered ok (s.calls c)).bound = 0 ∧
        (answered ok (s.calls c)).promise sync ≤ s.logged.length := by
      have bound := covered c (by simp [Server.callers, Request.callers])
      cases call : s.calls c with
      | waiting i =>
        rw [call] at bound
        cases ok with
        | false => exact ⟨rfl, Nat.zero_le _⟩
        | true =>
          refine ⟨rfl, ?_⟩
          have logged : i + 1 ≤ s.logged.length := bound _ rfl
          show (if sync then i + 1 else 0) ≤ s.logged.length
          split
          · exact logged
          · exact Nat.zero_le _
      | awaiting n =>
        rw [call] at bound
        cases ok with
        | false => exact ⟨rfl, Nat.zero_le _⟩
        | true => exact ⟨rfl, bound _ rfl⟩
      | _ =>
        rw [call] at waits
        cases waits
    refine ⟨inv.option, inv.order, phase, ?_, ?_, (List.nodup_cons.mp distinct).2, ?_, ?_⟩
    · intro d
      by_cases eq : d = c
      · rw [eq, setCall_self, told.1]
        exact Nat.zero_le _
      · rw [setCall_of_ne _ _ _ _ eq]
        exact inv.bound d
    · intro d
      by_cases eq : d = c
      · rw [eq, setCall_self]
        exact told.2
      · rw [setCall_of_ne _ _ _ _ eq]
        exact inv.promise d
    · intro d member
      rw [setCall_of_ne _ _ _ _ (others d member)]
      exact waiting d (List.mem_append_right _ member)
    · intro d member
      cases member
  next ok server =>
    rw [server] at phase
    exact inv.serve .select (by rw [server]; rfl) phase (fun _ _ _ covers => by cases covers)
  next ok server =>
    rw [server] at phase
    exact inv.serve .stopped (by rw [server]; rfl) phase (fun _ _ _ covers => by cases covers)
  · exact inv

theorem step_consistent (s : SyncRun) (i : SyncStep) (inv : s.Consistent sync) :
    (s.step i).Consistent sync := by
  cases i with
  | beginWrite c rec flushErr => exact beginWrite_consistent inv c rec flushErr
  | enqueue c => exact enqueue_consistent inv c
  | send c => exact send_consistent inv c
  | beginSync c flushErr => exact beginSync_consistent inv c flushErr
  | checkOpen c => exact checkOpen_consistent inv c
  | passBarrier c => exact passBarrier_consistent inv c
  | inspect c => exact inspect_consistent inv c
  | receive => exact receive_consistent inv
  | wake => exact wake_consistent inv
  | close => exact ⟨inv.option, inv.order, inv.phase, inv.bound, inv.promise, inv.distinct,
      inv.waiting, inv.covered⟩
  | stop => exact stop_consistent inv
  | closeFlush => exact closeFlush_consistent inv
  | take => exact take_consistent inv
  | begin_ => exact begin_consistent inv
  | append faults => exact append_consistent inv faults
  | finish coins sizeErr => exact finish_consistent inv coins sizeErr
  | report => exact report_consistent inv
  | end_ => exact end_consistent inv
  | reply => exact reply_consistent inv

/-- In every state of every interleaving of writers, `Sync` callers, the timer and the batch
flusher, whatever appends fail, a call that has returned nil has told the truth. -/
theorem acknowledged_in_every_run (db : DB) (steps : List SyncStep) :
    (Machine.run step (opened db) steps).Acknowledged :=
  (Machine.run_always step (Consistent db.syncWrites) step_consistent (opened db) steps
    (opened_consistent db)).acknowledged

/-- A failed append is retried by the next request, and that `Sync` returns. -/
example :
    let r := Machine.run step (opened emptyDB) [.beginWrite 0 ⟨[97], [1], false⟩ false, .enqueue 0,
      .beginSync 1 false, .wake, .take, .begin_, .append ⟨fun _ => none, true⟩,
      .finish (fun _ _ => false) false, .report, .end_, .reply, .checkOpen 1, .send 1, .receive,
      .take, .begin_, .append .none, .finish (fun _ _ => false) false, .end_, .reply,
      .passBarrier 1, .inspect 1]
    r.calls 1 = .synced 1 ∧ r.logged = [⟨[97], [1], false⟩] := by
  decide +kernel

/-- No call is answered twice: the requests in the channel and the one being served are of
different calls, and each of these still waits. -/
theorem requests_of_waiting_calls (db : DB) (steps : List SyncStep) :
    let s := Machine.run step (opened db) steps
    s.callers.Nodup ∧ ∀ c ∈ s.callers, (s.calls c).isWaiting = true := by
  have inv := Machine.run_always step (Consistent db.syncWrites) step_consistent (opened db) steps
    (opened_consistent db)
  exact ⟨inv.distinct, inv.waiting⟩

end SyncRun

end PebbleDB.Db
