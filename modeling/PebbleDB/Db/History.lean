import PebbleDB.Db.FullReplay
import PebbleDB.Db.GroupCommit
import PebbleDB.Db.Node

/-!
# Reads as views of one history

While writers queue records, the batch flusher logs and applies them and the flusher moves
memtables into tables, `Get` is to return what the last record of its key says, wherever
that record is by now, and for other keys what it returned at the start.
-/
namespace PebbleDB.Db

open Memtable (SkipList)
open Wal (Record)

/-- A process with the records it has applied to a memtable, in order. -/
structure HistoryRun where
  node : Node
  applied : List Record

/-- No live value is empty: a table would return it as nil. -/
def Plain (mem : SkipList) : Prop := ∀ key, mem.find key ≠ some ⟨[], false⟩

namespace HistoryRun

abbrev db (h : HistoryRun) : DB := h.node.sys.db

/-- Any open store with nothing queued. -/
def opened (db : DB) (ssts : SstFiles) : HistoryRun := ⟨⟨⟨db, .idle⟩, ssts, .idle, true⟩, []⟩

def step (env : Env) (h : HistoryRun) (i : NodeStep) : HistoryRun where
  node := h.node.step env i
  applied :=
    match i, h.node.sys.persist with
    | .finish _, .appended batch => h.applied ++ batch
    | _, _ => h.applied

/-- Live values are not empty, the filters fit, and nothing crashes. -/
def Safe (env : Env) (h : HistoryRun) : NodeStep → Prop
  | .write rec => slotOf rec ≠ ⟨[], false⟩
  | .commit => ∀ entry ∈ h.db.pendingFlush, env.sizing.Fits (max entry.mem.len 1)
  | .crash => False
  | _ => True

/-- What the memtables and tables answer. -/
def below (db : DB) (key : Bytes) : Except GetError Slice :=
  answer (lookupMemtables db key) (lookupSSTReaders db.sstables key)

theorem answer_orElse (newer older : MemLookup) {searched tables : Except Sst.Error (Slice × Bool)}
    (same : answer older searched = answer (none, .miss) tables) :
    answer (newer.orElse older) searched = answer newer tables := by
  obtain ⟨val, res⟩ := newer
  cases res with
  | miss => exact same
  | hit | tombstone => rfl

/-- With the oldest memtable in the newest table, the answer is the same from the memtable,
from the table, and from both. -/
theorem answer_flush (db : DB) {entry : FlushQueueEntry} {rest : List FlushQueueEntry}
    (queue : db.pendingFlush = entry :: rest) (plain : Plain entry.mem) (older : List Sst.Reader)
    {r : Sst.Reader} (holds : r.Holds entry.mem.entries) (key : Bytes) :
    let popped := answer ((lookupMemtable db.active key).orElse (lookupPendingFlush rest key))
      (lookupSSTReaders (older ++ [r]) key)
    answer (lookupMemtables db key) (lookupSSTReaders older key) = popped ∧
      answer (lookupMemtables db key) (lookupSSTReaders (older ++ [r]) key) = popped := by
  rw [lookupMemtables, queue, lookupPendingFlush_cons, ← MemLookup.orElse_assoc]
  constructor
  · exact answer_orElse _ _ ((answer_flushed entry.mem older r holds key).mpr (plain key)).symm
  · apply answer_orElse
    rw [answer_eq_returned, (resolution_flushed_iff entry.mem older r holds key).mpr (plain key),
      answer_eq_returned]

structure Kept (base : DB) (h : HistoryRun) : Prop where
  up : h.node.up = true
  isOpen : h.db.closed = false
  batch : ∀ rec ∈ h.node.sys.persist.inflight ++ h.db.pendingBatch, slotOf rec ≠ ⟨[], false⟩
  active : Plain h.db.active
  queue : ∀ entry ∈ h.db.pendingFlush, Plain entry.mem
  answers : ∀ key, below h.db key = ((lastRecord key h.applied).map outcome).getD (below base key)
  -- between commit and pop the oldest memtable is in the newest table as well
  phase : h.node.flusher ≠ .idle → ∃ entry rest older r, h.db.pendingFlush = entry :: rest ∧
    h.db.sstables = older ++ [r] ∧ r.Holds entry.mem.entries

variable {env : Env} {base : DB} {h : HistoryRun}

theorem freeze_kept (kept : h.Kept base) : { h with node.sys.db := h.db.freeze }.Kept base where
  up := kept.up
  isOpen := kept.isOpen
  batch := kept.batch
  active := by simp [DB.freeze, Plain]
  queue := List.forall_mem_append.mpr ⟨kept.queue, List.forall_mem_singleton.mpr kept.active⟩
  answers key := by
    rw [← kept.answers, below, lookupMemtables_freeze]
    rfl
  phase busy := by
    obtain ⟨entry, rest, older, r, queue, more⟩ := kept.phase busy
    exact ⟨entry, rest ++ _, older, r, congrArg (· ++ _) queue, more⟩

theorem finish_kept (kept : h.Kept base) (coins : Nat → Nat → Bool) :
    (h.step env (.finish coins)).Kept base := by
  obtain ⟨⟨⟨db, persist⟩, ssts, flusher, _⟩, applied⟩ := h
  cases kept.up
  cases persist with
  | appended batch =>
    have plain : Plain (applyRecords coins 0 db.active batch) := by
      intro key
      rw [find_applyRecords]
      cases last : lastRecord key batch with
      | none => exact kept.active key
      | some rec =>
        have member := List.mem_reverse.mp (List.mem_of_find?_eq_some last)
        simpa using kept.batch rec (List.mem_append_left _ member)
    have answers (key : Bytes) : below { db with active := applyRecords coins 0 db.active batch } key =
        ((lastRecord key (applied ++ batch)).map outcome).getD (below base key) := by
      rw [below, lookupMemtables_applied, lastRecord_append]
      cases lastRecord key batch with
      | none => exact kept.answers key
      | some rec => exact answer_memAnswer rec _
    have queued : ∀ rec ∈ db.pendingBatch, slotOf rec ≠ ⟨[], false⟩ :=
      fun rec member => kept.batch rec (List.mem_append_right _ member)
    have done : Kept base ⟨⟨⟨{ db with active := applyRecords coins 0 db.active batch }, .idle⟩,
        ssts, flusher, true⟩, applied ++ batch⟩ :=
      { kept with batch := queued, active := plain, answers := answers }
    simp only [step, Node.step, if_true, Committer.finish, DB.maybeFlushLocked]
    split
    · exact done
    · exact freeze_kept done
  | failed batch =>
    refine { kept with batch := ?_ }
    simpa [step, Node.step, Committer.finish, restorePendingBatchLocked, Persist.inflight]
      using kept.batch
  | idle | taken | restored => exact kept

theorem commit_kept (kept : h.Kept base) (safe : h.Safe env .commit) :
    (h.step env .commit).Kept base := by
  obtain ⟨⟨⟨db, persist⟩, ssts, flusher, _⟩, applied⟩ := h
  cases kept.up
  simp only [step, Node.step, if_true, Node.commit]
  split
  next entry rest waiting =>
    split
    -- the id is spent all the same
    · exact { kept with }
    next t table =>
      split
      · exact { kept with }
      next committed =>
        obtain ⟨file, written, opened⟩ := writeMemtable_ok env _ _ t table
        obtain ⟨_, again, holds, -⟩ := Sst.writeTable_ok env.sizing _ _ _ file
          (safe entry (waiting ▸ List.mem_cons_self)) entry.mem.entries_ascending written _ _
        cases opened.symm.trans again
        obtain ⟨manifest, rfl⟩ := commitTable_ok _ _ _ committed
        refine { kept with
          answers := fun key => Eq.trans ?_ (kept.answers key)
          phase := fun _ => ⟨entry, rest, _, t, waiting, rfl, holds⟩ }
        have same := answer_flush db waiting (kept.queue entry (waiting ▸ List.mem_cons_self))
          db.sstables holds key
        exact same.2.trans same.1.symm
  · exact kept

theorem step_kept (env : Env) (h : HistoryRun) (i : NodeStep) (kept : h.Kept base)
    (safe : h.Safe env i) : (h.step env i).Kept base := by
  obtain ⟨⟨⟨db, persist⟩, ssts, flusher, _⟩, applied⟩ := h
  cases kept.up
  cases i with
  | write rec =>
    have isOpen : db.closed = false := kept.isOpen
    simp only [step, Node.step, if_true, Committer.enqueue, isOpen]
    refine { kept with isOpen := rfl, batch := ?_ }
    exact List.append_assoc .. ▸
      List.forall_mem_append.mpr ⟨kept.batch, List.forall_mem_singleton.mpr safe⟩
  | take =>
    cases persist with
    | idle =>
      simp only [step, Node.step, if_true, Committer.take]
      split
      · exact kept
      · refine { kept with batch := ?_ }
        simpa [Persist.inflight, takePendingBatchLocked] using kept.batch
    | _ => exact kept
  | append =>
    cases persist with
    | taken batch =>
      simp only [step, Node.step, if_true, Committer.append]
      split <;> exact { kept with }
    | _ => exact kept
  | finish coins => exact finish_kept kept coins
  | report => cases persist <;> exact { kept with }
  | freeze =>
    simp only [step, Node.step, if_true, DB.freezeActive]
    split
    · exact freeze_kept kept
    · exact kept
  | commit => exact commit_kept kept safe
  | writeState =>
    cases flusher with
    | committed => exact { kept with phase := fun _ => kept.phase (by simp) }
    | _ => exact kept
  | truncate =>
    cases flusher with
    | recorded =>
      simp only [step, Node.step, if_true, Node.truncate]
      split <;> exact { kept with phase := fun _ => kept.phase (by simp) }
    | _ => exact kept
  | removeState =>
    cases flusher with
    | truncated => exact { kept with phase := fun _ => kept.phase (by simp) }
    | _ => exact kept
  | pop =>
    cases flusher with
    | removed =>
      obtain ⟨entry, rest, older, r, queue, readers, holds⟩ := kept.phase (by simp)
      simp only [step, Node.step, if_true, Node.pop]
      refine { kept with
        queue := fun e member => kept.queue e (List.mem_of_mem_tail member)
        answers := fun key => Eq.trans ?_ (kept.answers key)
        phase := fun busy => absurd rfl busy }
      have plain := kept.queue entry (queue ▸ List.mem_cons_self)
      rw [below, below, readers, (answer_flush db queue plain older holds key).2, lookupMemtables, queue]
      rfl
    | _ => exact kept
  | crash => exact safe.elim
  | reopen => exact kept

/-- In every interleaving of writers, batch flusher and flusher, from any open store with no
queued record and no live empty value in memory, `Get` returns what the last applied or
queued record of its key says, and what it returned at the start if there is none. -/
theorem get_history (env : Env) (base : DB) (ssts : SstFiles) (steps : List NodeStep)
    (isOpen : base.closed = false) (batch : base.pendingBatch = []) (active : Plain base.active)
    (queue : ∀ entry ∈ base.pendingFlush, Plain entry.mem)
    (safe : Machine.Always (step env) (Safe env) (opened base ssts) steps) (key : Bytes) :
    let h := Machine.run (step env) (opened base ssts) steps
    h.db.get key = ((lastRecord key (h.applied ++ h.db.pendingBatch)).map outcome).getD
      (base.get key) := by
  have kept := Machine.run_invariant (step env) (Safe env) (Kept base) (step_kept env)
    (opened base ssts) steps ⟨rfl, isOpen, by simp [opened, db, batch, Persist.inflight], active, queue,
      fun key => rfl, fun busy => absurd rfl busy⟩ safe
  intro h
  have start : below base key = base.get key := by
    rw [DB.get, isOpen, DB.lookupMemory, batch]
    rfl
  rw [DB.get, kept.isOpen, if_neg Bool.false_ne_true, DB.lookupMemory, lookupPendingBatch_eq,
    lastRecord_append, ← start]
  cases lastRecord key h.db.pendingBatch with
  | none => exact kept.answers key
  | some rec =>
    show answer ((memAnswer rec).orElse _) _ = _
    rw [MemLookup.orElse_of_ne_miss _ _ (memAnswer_ne_miss rec)]
    exact answer_memAnswer rec _

instance decidableFits (sizing : Sst.Sizing) (n : Nat) : Decidable (sizing.Fits n) :=
  decidable_of_iff (_ ∧ _) ⟨fun both => ⟨both.1, both.2⟩, fun fits => ⟨fits.1, fits.2⟩⟩

/-- A write that is applied, frozen and flushed, and a delete that is still queued. -/
theorem get_history_flushed :
    let steps := [.write ⟨[97], [1], false⟩, .take, .append, .finish fun _ _ => false, .commit,
      .writeState, .truncate, .removeState, .pop, .write ⟨[98], [], true⟩]
    let h := Machine.run (step smallEnv) (opened { emptyDB with memtableSize := 1 } []) steps
    h.db.sstables.length = 1 ∧ h.db.get [97] = .ok (some [1]) := by
  intro steps h
  refine ⟨by decide +kernel, (get_history smallEnv _ [] steps rfl rfl (by simp [Plain, emptyDB])
    (by simp [emptyDB]) ?_ [97]).trans (by decide +kernel)⟩
  refine ⟨by simp [Safe, slotOf], trivial, trivial, trivial, ?_, trivial, trivial, trivial, trivial,
    by simp [Safe, slotOf], trivial⟩
  simp only [Safe]
  decide +kernel

end HistoryRun
end PebbleDB.Db
