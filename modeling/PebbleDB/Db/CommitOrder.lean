import PebbleDB.Db.Batch
import PebbleDB.Lib.GoSlice
import PebbleDB.Lib.Machine

/-!
# The order of group commit

`pendingBatch` is a slice. The batch flusher moves it out, prepends it again when the
append failed, and hands its backing array back as `batch[:0]` when nothing was queued
meanwhile. Here the queue and the batch in flight are slices over a heap of arrays, and
the records they show are what the list model of `Committer` says.
-/
namespace PebbleDB.Db

open GoSlice (Heap Header)
open Wal (Record)

def batchCapacity : Nat := 64

/-- Where the batch flusher stands, with the slice it holds. -/
inductive Held where
  | idle
  | taken (batch : Header)
  | appended (batch : Header)
  | failed (batch : Header)
  | restored

def Held.batch : Held → Header
  | .taken batch => batch
  | .appended batch => batch
  | .failed batch => batch
  | _ => .nil

/-- The handle with its queue as a slice; `rest` holds the other fields. -/
structure Batcher where
  heap : Heap Record
  pendingBatch : Header
  batchSizeBytes : Nat
  held : Held
  rest : DB

namespace Batcher

/-- The records in the queue. -/
def queued (b : Batcher) : List Record := b.pendingBatch.contents b.heap

/-- The records of the batch in flight. -/
def inflight (b : Batcher) : List Record := b.held.batch.contents b.heap

/-- The part of `writeRecord` under the lock. -/
def enqueue (grow : Nat → Nat) (b : Batcher) (rec : Record) : Batcher :=
  if b.rest.closed then b
  else
    let (heap, queue) := GoSlice.append grow b.heap b.pendingBatch [rec]
    { b with
      heap := heap
      pendingBatch := queue
      batchSizeBytes := b.batchSizeBytes + recordWireSize rec }

def take (b : Batcher) : Batcher :=
  match b.held with
  | .idle =>
    if b.pendingBatch.len = 0 then b
    else { b with pendingBatch := .nil, batchSizeBytes := 0, held := .taken b.pendingBatch }
  | _ => b

def append (b : Batcher) (faults : Wal.Faults) : Batcher :=
  match b.held with
  | .taken batch =>
    match Wal.appendBatch b.rest.walLimits b.rest.wal (batch.contents b.heap) faults with
    | (wal, some _) => { b with rest := { b.rest with wal := wal }, held := .failed batch }
    | (wal, none) => { b with rest := { b.rest with wal := wal }, held := .appended batch }
  | _ => b

/-- The backing array is used again only if nothing was queued during the append. -/
def reuse (b : Batcher) (batch : Header) : Header :=
  if b.pendingBatch.len = 0 then batch.reslice 0 else b.pendingBatch

/-- The locked part after `AppendBatch`: apply and maybe freeze, or `append(batch, queue...)`. -/
def finish (grow : Nat → Nat) (b : Batcher) (coins : Nat → Nat → Bool) : Batcher :=
  match b.held with
  | .appended batch =>
    let active := applyRecords coins 0 b.rest.active (batch.contents b.heap)
    { b with
      pendingBatch := b.reuse batch
      held := .idle
      rest := ({ b.rest with active := active } : DB).maybeFlushLocked.1 }
  | .failed batch =>
    let (heap, queue) := GoSlice.append grow b.heap batch b.queued
    { b with
      heap := heap
      pendingBatch := queue
      batchSizeBytes := b.batchSizeBytes + ((batch.contents b.heap).map recordWireSize).sum
      held := .restored }
  | _ => b

def report (b : Batcher) : Batcher :=
  match b.held with
  | .restored => { b with rest := { b.rest with walErr := true }, held := .idle }
  | _ => b

/-- The records the next `finish` applies to the memtable. -/
def applies (b : Batcher) : List Record :=
  match b.held with
  | .appended batch => batch.contents b.heap
  | _ => []

/-- `Open` leaves an empty queue with room for a batch. -/
def opened (heap : Heap Record) (rest : DB) : Batcher :=
  let (heap, queue) := GoSlice.make heap batchCapacity
  ⟨heap, queue, 0, .idle, rest⟩

/-! ### The list model -/

def persist (b : Batcher) : Persist :=
  match b.held with
  | .idle => .idle
  | .taken batch => .taken (batch.contents b.heap)
  | .appended batch => .appended (batch.contents b.heap)
  | .failed batch => .failed (batch.contents b.heap)
  | .restored => .restored

/-- What the slices show. -/
def view (b : Batcher) : Committer :=
  ⟨{ b.rest with pendingBatch := b.queued, batchSizeBytes := b.batchSizeBytes }, b.persist⟩

/-- The queue and the batch in flight hold these records, in different arrays. -/
structure Owns (b : Batcher) (inflight queued : List Record) : Prop where
  inflight : b.held.batch.Holds b.heap inflight
  queued : b.pendingBatch.Holds b.heap queued
  apart : b.pendingBatch.Apart b.held.batch

variable {b : Batcher} {inflight queued : List Record}

theorem Owns.queued_eq (owns : b.Owns inflight queued) : b.queued = queued := owns.queued.contents

theorem Owns.inflight_eq (owns : b.Owns inflight queued) : b.inflight = inflight :=
  owns.inflight.contents

theorem opened_owns (heap : Heap Record) (rest : DB) : (opened heap rest).Owns [] [] :=
  ⟨rfl, GoSlice.make_holds heap batchCapacity, trivial⟩

theorem Owns.enqueue (owns : b.Owns inflight queued) (grow : Nat → Nat) (rec : Record)
    (open_ : b.rest.closed = false) : (b.enqueue grow rec).Owns inflight (queued ++ [rec]) := by
  have kept := GoSlice.append_frame grow b.heap b.pendingBatch b.held.batch [rec] inflight
    owns.inflight owns.apart
  rw [Batcher.enqueue, open_]
  exact ⟨kept.1, GoSlice.append_holds grow b.heap b.pendingBatch queued [rec] owns.queued, kept.2⟩

/-- The whole queue moves to the flusher. -/
theorem Owns.take (owns : b.Owns inflight queued) (idle : b.held = .idle) (some_ : queued ≠ []) :
    b.take = { b with pendingBatch := .nil, batchSizeBytes := 0, held := .taken b.pendingBatch } ∧
      b.take.Owns queued [] := by
  have nonempty : b.pendingBatch.len ≠ 0 := by
    rw [owns.queued.len_eq]
    exact fun zero => some_ (List.eq_nil_of_length_eq_zero zero)
  have moved : b.take =
      { b with pendingBatch := .nil, batchSizeBytes := 0, held := .taken b.pendingBatch } := by
    simp only [Batcher.take, idle, if_neg nonempty]
  refine ⟨moved, ?_⟩
  rw [moved]
  exact ⟨owns.queued, rfl, trivial⟩

theorem take_empty (owns : b.Owns inflight []) : b.take = b := by
  have empty : b.pendingBatch.len = 0 := owns.queued.len_eq
  rw [Batcher.take]
  split
  · rw [if_pos empty]
  · rfl

/-- The batch stays in flight, whatever the append says. -/
theorem append_taken (batch : Header) (at_ : b.held = .taken batch) (faults : Wal.Faults) :
    ∃ wal held, (held = .appended batch ∨ held = .failed batch) ∧
      b.append faults = { b with rest := { b.rest with wal := wal }, held := held } := by
  simp only [Batcher.append, at_]
  split
  next wal _ _ => exact ⟨wal, .failed batch, .inr rfl, rfl⟩
  next wal _ => exact ⟨wal, .appended batch, .inl rfl, rfl⟩

/-- A finished batch is gone from the queue, and the reused array holds nothing. -/
theorem Owns.finish_appended (owns : b.Owns inflight queued) (batch : Header)
    (at_ : b.held = .appended batch) (grow : Nat → Nat) (coins : Nat → Nat → Bool) :
    (b.finish grow coins).Owns [] queued := by
  have held := owns.inflight
  have apart := owns.apart
  rw [at_] at held apart
  simp only [Batcher.finish, at_]
  refine ⟨rfl, ?_, ?_⟩
  · show (b.reuse batch).Holds b.heap queued
    rw [reuse]
    split
    next empty =>
      rw [owns.queued.len_eq] at empty
      rw [List.eq_nil_of_length_eq_zero empty]
      exact held.reslice_zero
    · exact owns.queued
  · show (b.reuse batch).Apart .nil
    cases b.reuse batch <;> trivial

/-- A failed batch goes back in front of what was queued meanwhile. -/
theorem Owns.finish_failed (owns : b.Owns inflight queued) (batch : Header)
    (at_ : b.held = .failed batch) (grow : Nat → Nat) (coins : Nat → Nat → Bool) :
    (b.finish grow coins).Owns [] (inflight ++ queued) := by
  have held := owns.inflight
  rw [at_] at held
  have joined := GoSlice.append_holds grow b.heap batch inflight b.queued held
  rw [owns.queued_eq] at joined
  simp only [Batcher.finish, at_, owns.queued_eq]
  refine ⟨rfl, joined, ?_⟩
  show (GoSlice.append grow b.heap batch queued).2.Apart .nil
  cases (GoSlice.append grow b.heap batch queued).2 <;> trivial

/-! ### The slices show what the list model says -/

theorem enqueue_view (owns : b.Owns inflight queued) (grow : Nat → Nat) (rec : Record) :
    (b.enqueue grow rec).view = b.view.enqueue rec := by
  rw [Batcher.enqueue, Committer.enqueue]
  cases closed : b.rest.closed with
  | true => simp [view, closed]
  | false =>
    -- the batch in flight lies in another array, so it shows the same records as before
    have kept := GoSlice.append_frame grow b.heap b.pendingBatch b.held.batch [rec] inflight
      owns.inflight owns.apart
    have longer := GoSlice.append_holds grow b.heap b.pendingBatch queued [rec] owns.queued
    have shown : b.persist = persist { b with
        heap := (GoSlice.append grow b.heap b.pendingBatch [rec]).1 } := by
      have before := owns.inflight.contents
      have after := kept.1.contents
      unfold persist
      cases at_ : b.held with
      | idle => rfl
      | restored => rfl
      | taken batch | appended batch | failed batch =>
        rw [at_] at before after
        simp only [Held.batch] at before after
        simp only [before, after]
    simp only [view, closed, Batcher.queued, longer.contents, owns.queued.contents, shown,
      Bool.false_eq_true, if_false]
    rfl

theorem take_view (owns : b.Owns inflight queued) : b.take.view = b.view.take := by
  have len : b.pendingBatch.len = 0 ↔ b.queued = [] := by
    rw [owns.queued_eq, owns.queued.len_eq, List.length_eq_zero_iff]
  rw [Batcher.take, Committer.take]
  cases at_ : b.held with
  | idle =>
    by_cases empty : b.pendingBatch.len = 0
    · simp [view, persist, at_, empty, len.mp empty]
    · have some_ : ¬b.queued = [] := fun none_ => empty (len.mpr none_)
      simp only [view, persist, at_, if_neg empty, if_neg some_]
      rfl
  | taken | appended | failed | restored => simp [view, persist, at_]

theorem append_view (b : Batcher) (faults : Wal.Faults) :
    (b.append faults).view = b.view.append faults := by
  rw [Batcher.append, Committer.append]
  cases at_ : b.held with
  | taken batch =>
    simp only [view, persist, at_]
    cases Wal.appendBatch b.rest.walLimits b.rest.wal (batch.contents b.heap) faults with
    | mk wal err =>
      cases err with
      | none => rfl
      | some e => rfl
  | idle | appended | failed | restored => simp [view, persist, at_]

/-- Freezing does not look at the queue. -/
theorem maybeFlushLocked_queue (db : DB) (records : List Record) (bytes : Nat) :
    ({ db with pendingBatch := records, batchSizeBytes := bytes } : DB).maybeFlushLocked.1 =
      { db.maybeFlushLocked.1 with pendingBatch := records, batchSizeBytes := bytes } := by
  by_cases small : db.active.size ≤ db.memtableSize
  · rw [DB.maybeFlushLocked, DB.maybeFlushLocked, if_pos small, if_pos small]
  · rw [DB.maybeFlushLocked, DB.maybeFlushLocked, if_neg small, if_neg small]
    rfl

theorem finish_view (owns : b.Owns inflight queued) (grow : Nat → Nat)
    (coins : Nat → Nat → Bool) : (b.finish grow coins).view = b.view.finish coins := by
  cases at_ : b.held with
  | appended batch =>
    -- an empty queue and the emptied batch show the same
    have same := (owns.finish_appended batch at_ grow coins).queued_eq
    rw [← owns.queued_eq] at same
    have frozen := maybeFlushLocked_queue
      { b.rest with active := applyRecords coins 0 b.rest.active (batch.contents b.heap) }
      b.queued b.batchSizeBytes
    rw [view, same]
    simp only [Batcher.finish, Committer.finish, view, persist, at_]
    rw [← frozen]
  | failed batch =>
    have joined := (owns.finish_failed batch at_ grow coins).queued_eq
    have held := owns.inflight.contents
    rw [at_, Held.batch] at held
    rw [view, joined]
    simp only [Batcher.finish, Committer.finish, view, persist, at_, restorePendingBatchLocked,
      held, owns.queued_eq]
  | idle | taken | restored => simp [Batcher.finish, Committer.finish, view, persist, at_]

theorem report_view (b : Batcher) : b.report.view = b.view.report := by
  rw [Batcher.report, Committer.report]
  cases at_ : b.held with
  | restored => simp [view, persist, at_, Batcher.queued]
  | idle | taken | appended | failed => simp [view, persist, at_]

end Batcher

/-! ### Every interleaving -/

/-- A run of writers and the batch flusher: the records accepted under the lock and the
records applied to memtables, both in order. -/
structure CommitRun where
  sys : Batcher
  accepted : List Record
  applied : List Record

/-- A step of some writer or of the batch flusher; `grow` is what the runtime does. -/
inductive CommitStep where
  | write (grow : Nat → Nat) (rec : Record)
  | take
  | append (faults : Wal.Faults)
  | finish (grow : Nat → Nat) (coins : Nat → Nat → Bool)
  | report

namespace CommitRun

/-- A writer has checked for a stored error at any earlier time, so it may always queue. -/
def step (r : CommitRun) : CommitStep → CommitRun
  | .write grow rec =>
    { r with
      sys := r.sys.enqueue grow rec
      accepted := if r.sys.rest.closed then r.accepted else r.accepted ++ [rec] }
  | .take => { r with sys := r.sys.take }
  | .append faults => { r with sys := r.sys.append faults }
  | .finish grow coins =>
    { r with sys := r.sys.finish grow coins, applied := r.applied ++ r.sys.applies }
  | .report => { r with sys := r.sys.report }

def opened (heap : Heap Record) (rest : DB) : CommitRun := ⟨.opened heap rest, [], []⟩

structure Consistent (r : CommitRun) (inflight queued : List Record) : Prop where
  owns : r.sys.Owns inflight queued
  order : r.accepted = r.applied ++ inflight ++ queued
  bytes : r.sys.batchSizeBytes = (queued.map recordWireSize).sum

/-- Some records are in flight and some are queued. -/
def Ordered (r : CommitRun) : Prop := ∃ inflight queued, r.Consistent inflight queued

theorem opened_ordered (heap : Heap Record) (rest : DB) : (opened heap rest).Ordered :=
  ⟨[], [], Batcher.opened_owns heap rest, rfl, rfl⟩

theorem write_ordered (r : CommitRun) (inv : r.Ordered) (grow : Nat → Nat) (rec : Record) :
    (r.step (.write grow rec)).Ordered := by
  obtain ⟨inflight, queued, inv⟩ := inv
  rw [step]
  cases closed : r.sys.rest.closed with
  | true =>
    -- the call returns `ErrClosed`
    rw [Batcher.enqueue, closed]
    exact ⟨inflight, queued, inv⟩
  | false =>
    refine ⟨inflight, queued ++ [rec], inv.owns.enqueue grow rec closed, ?_, ?_⟩
    · simp [inv.order]
    · have grown : (r.sys.enqueue grow rec).batchSizeBytes =
          r.sys.batchSizeBytes + recordWireSize rec := by
        rw [Batcher.enqueue, closed]
        rfl
      simp [grown, inv.bytes]

theorem take_ordered (r : CommitRun) (inv : r.Ordered) : (r.step .take).Ordered := by
  obtain ⟨inflight, queued, inv⟩ := inv
  rw [step]
  by_cases empty : queued = []
  · subst empty
    rw [Batcher.take_empty inv.owns]
    exact ⟨inflight, [], inv⟩
  cases at_ : r.sys.held with
  | idle =>
    have none_ : inflight = [] := by
      have held := inv.owns.inflight
      rw [at_] at held
      exact held
    subst none_
    have moved := inv.owns.take at_ empty
    refine ⟨queued, [], moved.2, ?_, ?_⟩
    · simp [inv.order]
    · rw [moved.1]
      rfl
  | taken | appended | failed | restored =>
    simpa [Batcher.take, at_] using ⟨inflight, queued, inv⟩

theorem append_ordered (r : CommitRun) (inv : r.Ordered) (faults : Wal.Faults) :
    (r.step (.append faults)).Ordered := by
  obtain ⟨inflight, queued, inv⟩ := inv
  rw [step]
  cases at_ : r.sys.held with
  | taken batch =>
    obtain ⟨wal, held, outcome, eq⟩ := Batcher.append_taken batch at_ faults
    have same : held.batch = r.sys.held.batch := by
      rw [at_]
      rcases outcome with rfl | rfl
      · rfl
      · rfl
    rw [eq]
    refine ⟨inflight, queued, ⟨?_, inv.owns.queued, ?_⟩, inv.order, inv.bytes⟩
    · show held.batch.Holds r.sys.heap inflight
      rw [same]
      exact inv.owns.inflight
    · show r.sys.pendingBatch.Apart held.batch
      rw [same]
      exact inv.owns.apart
  | idle | appended | failed | restored =>
    simpa [Batcher.append, at_] using ⟨inflight, queued, inv⟩

theorem finish_ordered (r : CommitRun) (inv : r.Ordered) (grow : Nat → Nat)
    (coins : Nat → Nat → Bool) : (r.step (.finish grow coins)).Ordered := by
  obtain ⟨inflight, queued, inv⟩ := inv
  have held := inv.owns.inflight_eq
  rw [Batcher.inflight] at held
  rw [step]
  cases at_ : r.sys.held with
  | appended batch =>
    rw [at_, Held.batch] at held
    refine ⟨[], queued, inv.owns.finish_appended batch at_ grow coins, ?_, ?_⟩
    · simp [Batcher.applies, at_, held, inv.order]
    · simp only [Batcher.finish, at_]
      exact inv.bytes
  | failed batch =>
    rw [at_, Held.batch] at held
    refine ⟨[], inflight ++ queued, inv.owns.finish_failed batch at_ grow coins, ?_, ?_⟩
    · simp [Batcher.applies, at_, inv.order]
    · simp [Batcher.finish, at_, held, inv.bytes, Nat.add_comm]
  | idle | taken | restored =>
    simpa [Batcher.finish, Batcher.applies, at_] using ⟨inflight, queued, inv⟩

theorem report_ordered (r : CommitRun) (inv : r.Ordered) : (r.step .report).Ordered := by
  obtain ⟨inflight, queued, inv⟩ := inv
  rw [step]
  cases at_ : r.sys.held with
  | restored =>
    have none_ : inflight = [] := by
      have held := inv.owns.inflight
      rw [at_] at held
      exact held
    subst none_
    simp only [Batcher.report, at_]
    refine ⟨[], queued, ⟨rfl, inv.owns.queued, ?_⟩, inv.order, inv.bytes⟩
    show r.sys.pendingBatch.Apart .nil
    cases r.sys.pendingBatch <;> trivial
  | idle | taken | appended | failed =>
    simpa [Batcher.report, at_] using ⟨inflight, queued, inv⟩

theorem step_ordered (r : CommitRun) (i : CommitStep) (inv : r.Ordered) : (r.step i).Ordered := by
  cases i with
  | write grow rec => exact write_ordered r inv grow rec
  | take => exact take_ordered r inv
  | append faults => exact append_ordered r inv faults
  | finish grow coins => exact finish_ordered r inv grow coins
  | report => exact report_ordered r inv

/-- The same step of the list model, where growing a slice is not seen. -/
def listStep (s : Committer) : CommitStep → Committer
  | .write _ rec => s.enqueue rec
  | .take => s.take
  | .append faults => s.append faults
  | .finish _ coins => s.finish coins
  | .report => s.report

theorem step_view (r : CommitRun) (i : CommitStep) (inv : r.Ordered) :
    (r.step i).sys.view = listStep r.sys.view i := by
  obtain ⟨inflight, queued, inv⟩ := inv
  cases i with
  | write grow rec => exact Batcher.enqueue_view inv.owns grow rec
  | take => exact Batcher.take_view inv.owns
  | append faults => exact r.sys.append_view faults
  | finish grow coins => exact Batcher.finish_view inv.owns grow coins
  | report => exact r.sys.report_view

/-- The slices refine the lists: whatever the runtime does with the arrays, a run shows the
run of the list model. -/
theorem run_lists (heap : Heap Record) (rest : DB) (steps : List CommitStep) :
    (Machine.run step (opened heap rest) steps).sys.view =
      Machine.run listStep (opened heap rest).sys.view steps := by
  have follows := Machine.run_view step listStep (fun r => r.sys.view) id Ordered step_ordered
    step_view (opened heap rest) steps (opened_ordered heap rest)
  rwa [List.map_id] at follows

end CommitRun

end PebbleDB.Db
