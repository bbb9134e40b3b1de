import PebbleDB.Db.Batch
import PebbleDB.Lib.Machine
import PebbleDB.Wal.Content

/-!
# What the log still covers

A frozen memtable carries the size the log had at that moment, and its flush drops
that many bytes. While an entry waits in the queue, the flushes of the entries
before it truncate the log, so its freeze point moves towards the front while its
cutoff stays. A run here is any sequence of steps of the batch flusher, of `Close`
and of flush completions; it remembers which records went into which memtable.
-/
namespace PebbleDB.Db

open Wal (Record)

inductive WalStep where
  | enqueue (rec : Record)
  | take
  | append
  | finish (coins : Nat → Nat → Bool)
  | report
  | close
  | closeFreeze
  | complete

/-- One step without I/O errors. `Close` freezes the active memtable once the batch
flusher has stopped; a completed flush truncates the log and pops its entry. -/
def Committer.step (env : Env) (s : Committer) : WalStep → Committer
  | .enqueue rec => s.enqueue rec
  | .take => s.take
  | .append => s.append .none
  | .finish coins => s.finish coins
  | .report => s.report
  | .close => { s with db := { s.db with closed := true } }
  | .closeFreeze =>
    match s.persist with
    | .idle => if s.db.closed ∧ 0 < s.db.active.size then { s with db := s.db.freeze } else s
    | _ => s
  | .complete =>
    match drainPendingFlush env s.db with
    | .error _ => s
    | .ok db => { s with db := db }

/-- The history of a queued memtable: the records applied to it, and where its freeze
point lies in the log now. -/
structure Frozen where
  applied : List Record
  frozenAt : Nat

/-- The freeze points after `d` bytes were dropped from the front. -/
def shift (d : Nat) (frozen : List Frozen) : List Frozen :=
  frozen.map fun f => { f with frozenAt := f.frozenAt - d }

/-- A run with the history of every memtable. -/
structure WalRun where
  sys : Committer
  queue : List Frozen
  active : List Record

namespace WalRun

/-- Records were applied to the active memtable, which may have been frozen then. -/
def applied (r : WalRun) (sys : Committer) (records : List Record) : WalRun :=
  if r.sys.db.pendingFlush.length < sys.db.pendingFlush.length then
    ⟨sys, r.queue ++ [⟨records, r.sys.db.wal.length⟩], []⟩
  else ⟨sys, r.queue, records⟩

/-- A flush may have completed: all freeze points move by what was dropped. -/
def flushed (r : WalRun) (sys : Committer) : WalRun :=
  match r.sys.db.pendingFlush with
  | [] => { r with sys := sys }
  | entry :: rest =>
    if sys.db.pendingFlush.length = rest.length then
      -- the log has lost its front, and all offsets move with it
      { r with sys := sys, queue := shift entry.walCutoff r.queue.tail }
    else { r with sys := sys }

def step (env : Env) (r : WalRun) (i : WalStep) : WalRun :=
  let sys := r.sys.step env i
  match i with
  | .finish _ =>
    match r.sys.persist with
    | .appended batch => r.applied sys (r.active ++ batch)
    | _ => { r with sys := sys }
  | .closeFreeze => r.applied sys r.active
  | .complete => r.flushed sys
  | _ => { r with sys := sys }

/-- Every record applied to a memtable that is not flushed yet is in the log. -/
def Covered (r : WalRun) : Prop :=
  (r.queue.flatMap Frozen.applied ++ r.active).Sublist
    (Wal.records r.sys.db.walLimits r.sys.db.wal)

/-- Just opened: an undamaged log, from which the active memtable was filled. -/
structure Opened (r : WalRun) : Prop where
  idle : r.sys.persist = .idle
  batch : r.sys.db.pendingBatch = []
  queue : r.sys.db.pendingFlush = [] ∧ r.queue = []
  log : ∃ rs, Wal.Stores r.sys.db.walLimits r.sys.db.wal rs ∧ r.active.Sublist rs

/-- At a completion: nothing was truncated since the entry was frozen, or nothing lies
behind its freeze point. At a write: the lengths fit their fields. -/
def Safe (r : WalRun) : WalStep → Prop
  | .enqueue rec => rec.key.length < 2 ^ 32 ∧ rec.value.length < 2 ^ 32
  | .complete =>
    match r.sys.db.pendingFlush, r.queue with
    | entry :: _, frozen :: _ =>
      entry.walCutoff = frozen.frozenAt ∨ r.sys.db.wal.length ≤ frozen.frozenAt
    | _, _ => True
  | _ => True

instance (r : WalRun) : Decidable r.Covered :=
  inferInstanceAs (Decidable (List.Sublist _ _))

instance (r : WalRun) : (i : WalStep) → Decidable (r.Safe i)
  | .enqueue _ => inferInstanceAs (Decidable (_ ∧ _))
  | .complete =>
    match h : r.sys.db.pendingFlush, g : r.queue with
    | entry :: _, frozen :: _ =>
      decidable_of_iff (entry.walCutoff = frozen.frozenAt ∨ r.sys.db.wal.length ≤ frozen.frozenAt)
        (by rw [Safe, h, g])
    | [], _ => .isTrue (by rw [Safe, h]; trivial)
    | _ :: _, [] => .isTrue (by rw [Safe, h, g]; trivial)
  | .take => .isTrue trivial
  | .append => .isTrue trivial
  | .finish _ => .isTrue trivial
  | .report => .isTrue trivial
  | .close => .isTrue trivial
  | .closeFreeze => .isTrue trivial

end WalRun

/-! ### The segments of the log -/

/-- The log from offset `off` on, as segments: one for each queued memtable, ending at
its freeze point, and one for the records behind the last freeze point. -/
inductive Segments (needs : List Record) :
    Nat → List FlushQueueEntry → List Frozen → List Record → Prop
  | last {off : Nat} {rs : List Record} (covered : needs.Sublist rs) : Segments needs off [] [] rs
  | queued {off : Nat} {entry : FlushQueueEntry} {queue : List FlushQueueEntry} {frozen : Frozen}
      {rest : List Frozen} {seg later : List Record}
      (covered : frozen.applied.Sublist seg) (here : frozen.frozenAt = off + Wal.size seg)
      (before : frozen.frozenAt ≤ entry.walCutoff)
      (behind : Segments needs frozen.frozenAt queue rest later) :
      Segments needs off (entry :: queue) (frozen :: rest) (seg ++ later)

namespace Segments

variable {needs rs : List Record} {off : Nat} {queue : List FlushQueueEntry} {frozen : List Frozen}

theorem sublist (segments : Segments needs off queue frozen rs) :
    (frozen.flatMap Frozen.applied ++ needs).Sublist rs := by
  induction segments with
  | last covered => exact covered
  | queued covered _ _ _ ih =>
    rw [List.flatMap_cons, List.append_assoc]
    exact covered.append ih

/-- The segment of the oldest queued memtable. -/
theorem head {entry : FlushQueueEntry} (segments : Segments needs off (entry :: queue) frozen rs) :
    ∃ f fs seg later, frozen = f :: fs ∧ rs = seg ++ later ∧
      f.frozenAt = off + Wal.size seg ∧ f.frozenAt ≤ entry.walCutoff ∧
      Segments needs f.frozenAt queue fs later := by
  cases segments with
  | queued _ here before behind => exact ⟨_, _, _, _, rfl, rfl, here, before, behind⟩

/-- Records appended to the log go to its last segment. -/
theorem append (segments : Segments needs off queue frozen rs) (needed added : List Record)
    (sub : needed.Sublist added) : Segments (needs ++ needed) off queue frozen (rs ++ added) := by
  induction segments with
  | last covered => exact .last (covered.append sub)
  | queued covered here before _ ih =>
    rw [List.append_assoc]
    exact .queued covered here before ih

/-- Freezing turns the last segment into one of the queue. -/
theorem freeze (segments : Segments needs off queue frozen rs) (mem : Memtable.SkipList) :
    Segments [] off (queue ++ [⟨mem, off + Wal.size rs⟩])
      (frozen ++ [⟨needs, off + Wal.size rs⟩]) rs := by
  induction segments with
  | @last off rs covered =>
    have alone : Segments [] off [⟨mem, off + Wal.size rs⟩] [⟨needs, off + Wal.size rs⟩]
        (rs ++ []) :=
      .queued covered rfl (Nat.le_refl _) (.last (List.Sublist.refl _))
    rwa [List.append_nil] at alone
  | queued covered here before _ ih =>
    rw [Wal.size_append, ← Nat.add_assoc, ← here]
    exact .queued covered here before ih

theorem dropped (segments : Segments needs off queue frozen rs) (d : Nat) (inside : d ≤ off) :
    Segments needs (off - d) queue (shift d frozen) rs := by
  induction segments with
  | last covered => exact .last covered
  | @queued off entry _ f _ seg later covered here before _ ih =>
    refine .queued covered ?_ ?_ (ih (by omega))
    · show f.frozenAt - d = _
      omega
    · show f.frozenAt - d ≤ _
      omega

/-- When nothing is left behind the offset, more may be dropped than there is. -/
theorem dropped_all (segments : Segments needs off queue frozen rs) (d : Nat) (nothing : rs = [])
    (beyond : off ≤ d) : Segments needs 0 queue (shift d frozen) rs := by
  induction segments with
  | last covered => exact .last covered
  | @queued off entry _ f _ seg later covered here before _ ih =>
    obtain ⟨rfl, rfl⟩ := List.append_eq_nil_iff.mp nothing
    rw [Wal.size_nil, Nat.add_zero] at here
    have zero : f.frozenAt - d = 0 := by omega
    refine .queued covered ?_ ?_ ?_
    · show f.frozenAt - d = _
      rw [zero, Wal.size_nil]
    · show f.frozenAt - d ≤ _
      omega
    · show Segments needs (f.frozenAt - d) _ _ _
      rw [zero]
      exact ih rfl (by omega)

end Segments

/-! ### The invariant -/

/-- The records that are in the log but not in a memtable yet. -/
def Persist.logged : Persist → List Record
  | .appended batch => batch
  | _ => []

structure WalRun.Consistent (r : WalRun) : Prop where
  log : ∃ rs, Wal.Stores r.sys.db.walLimits r.sys.db.wal rs ∧
    Segments (r.active ++ r.sys.persist.logged) 0 r.sys.db.pendingFlush r.queue rs
  small : ∀ rec ∈ r.sys.persist.inflight ++ r.sys.db.pendingBatch,
    rec.key.length < 2 ^ 32 ∧ rec.value.length < 2 ^ 32

namespace WalRun

theorem Opened.consistent (r : WalRun) (opened : r.Opened) : r.Consistent := by
  obtain ⟨rs, stores, sub⟩ := opened.log
  constructor
  · refine ⟨rs, stores, ?_⟩
    rw [opened.idle, opened.queue.1, opened.queue.2]
    show Segments (r.active ++ []) 0 [] [] rs
    rw [List.append_nil]
    exact .last sub
  · rw [opened.idle, opened.batch]
    simp [Persist.inflight]

theorem Consistent.covered (r : WalRun) (inv : r.Consistent) : r.Covered := by
  obtain ⟨rs, stores, segments⟩ := inv.log
  rw [Covered, stores.records]
  have all := segments.sublist
  rw [← List.append_assoc] at all
  exact (List.sublist_append_left _ _).trans all

section Steps

variable (env : Env) (r : WalRun) (inv : r.Consistent)

include inv in
theorem enqueue_consistent (rec : Record)
    (fits : rec.key.length < 2 ^ 32 ∧ rec.value.length < 2 ^ 32) :
    (r.step env (.enqueue rec)).Consistent := by
  obtain ⟨log, small⟩ := inv
  simp only [step, Committer.step, Committer.enqueue]
  split
  · exact ⟨log, small⟩
  · refine ⟨log, ?_⟩
    intro x member
    simp only [← List.append_assoc] at member
    rcases List.mem_append.mp member with old | new
    · exact small x old
    · rw [List.mem_singleton.mp new]
      exact fits

include inv in
theorem take_consistent : (r.step env .take).Consistent := by
  obtain ⟨log, small⟩ := inv
  simp only [step, Committer.step, Committer.take]
  split
  next idle =>
    split
    · exact ⟨log, small⟩
    · -- the batch changes hands, the log does not
      rw [idle] at log small
      exact ⟨log, fun x member => small x (by
        simpa [Persist.inflight, takePendingBatchLocked] using member)⟩
  next => exact ⟨log, small⟩

include inv in
theorem append_consistent : (r.step env .append).Consistent := by
  obtain ⟨⟨rs, stores, segments⟩, small⟩ := inv
  simp only [step, Committer.step, Committer.append]
  split
  next batch taken =>
    rw [taken] at segments small
    obtain ⟨added, stores', whole⟩ := stores.append batch fun x member =>
      small x (List.mem_append_left _ member)
    cases result : Wal.appendBatch r.sys.db.walLimits r.sys.db.wal batch .none with
    | mk wal err =>
      rw [result] at stores' whole
      cases err with
      | some e =>
        have more := segments.append [] added (List.nil_sublist _)
        rw [List.append_nil] at more
        exact ⟨⟨rs ++ added, stores', more⟩, small⟩
      | none =>
        have more := segments.append batch added (whole rfl ▸ List.Sublist.refl _)
        rw [List.append_assoc] at more
        exact ⟨⟨rs ++ added, stores', more⟩, small⟩
  next => exact ⟨⟨rs, stores, segments⟩, small⟩

/-- Both ways of a freeze, after records were applied to the active memtable. -/
theorem applied_consistent (sys : Committer) (records rs : List Record)
    (stores : Wal.Stores sys.db.walLimits sys.db.wal rs)
    (segments : Segments records 0 r.sys.db.pendingFlush r.queue rs)
    (idle : sys.persist = .idle) (log : sys.db.wal = r.sys.db.wal)
    (queue : sys.db.pendingFlush = r.sys.db.pendingFlush ∨
      ∃ mem, sys.db.pendingFlush = r.sys.db.pendingFlush ++ [⟨mem, r.sys.db.wal.length⟩])
    (small : ∀ rec ∈ sys.db.pendingBatch,
      rec.key.length < 2 ^ 32 ∧ rec.value.length < 2 ^ 32) :
    (r.applied sys records).Consistent := by
  rw [applied]
  rcases queue with same | ⟨mem, grown⟩
  · rw [if_neg (by rw [same]; omega)]
    refine ⟨⟨rs, stores, ?_⟩, ?_⟩
    · rw [idle, same]
      show Segments (records ++ []) 0 _ _ _
      rwa [List.append_nil]
    · rw [idle]
      exact small
  · rw [if_pos (by rw [grown, List.length_append, List.length_singleton]; omega)]
    refine ⟨⟨rs, stores, ?_⟩, ?_⟩
    · have moved := segments.freeze mem
      rw [Nat.zero_add, ← stores.length, log] at moved
      rw [idle, grown]
      exact moved
    · rw [idle]
      exact small

include inv in
theorem finish_consistent (coins : Nat → Nat → Bool) : (r.step env (.finish coins)).Consistent := by
  obtain ⟨⟨rs, stores, segments⟩, small⟩ := inv
  simp only [step, Committer.step, Committer.finish]
  cases persist : r.sys.persist with
  | appended batch =>
    rw [persist] at segments small
    simp only [DB.maybeFlushLocked]
    split
    · exact applied_consistent r _ _ rs stores segments rfl rfl (.inl rfl)
        fun x member => small x (List.mem_append_right _ member)
    · exact applied_consistent r _ _ rs stores segments rfl rfl (.inr ⟨_, rfl⟩)
        fun x member => small x (List.mem_append_right _ member)
  | failed batch =>
    rw [persist] at segments small
    exact ⟨⟨rs, stores, segments⟩, small⟩
  | idle => exact ⟨⟨rs, stores, segments⟩, small⟩
  | taken batch => exact ⟨⟨rs, stores, segments⟩, small⟩
  | restored => exact ⟨⟨rs, stores, segments⟩, small⟩

include inv in
theorem report_consistent : (r.step env .report).Consistent := by
  obtain ⟨log, small⟩ := inv
  simp only [step, Committer.step, Committer.report]
  split
  next restored =>
    rw [restored] at log small
    exact ⟨log, small⟩
  next => exact ⟨log, small⟩

include inv in
theorem closeFreeze_consistent : (r.step env .closeFreeze).Consistent := by
  obtain ⟨⟨rs, stores, segments⟩, small⟩ := inv
  have untouched : (r.applied r.sys r.active).Consistent := by
    rw [applied, if_neg (by omega)]
    exact ⟨⟨rs, stores, segments⟩, small⟩
  simp only [step, Committer.step]
  split
  next idle =>
    split
    · rw [idle] at segments small
      have needs : r.active ++ Persist.idle.logged = r.active := List.append_nil _
      rw [needs] at segments
      exact applied_consistent r _ _ rs stores segments idle rfl (.inr ⟨_, rfl⟩) small
    · exact untouched
  next => exact untouched

/-- A completion either does nothing or flushes the head of the queue. -/
theorem complete_cases (s : Committer) :
    s.step env .complete = s ∨ ∃ entry rest reader manifest,
      s.db.pendingFlush = entry :: rest ∧ s.step env .complete = { s with db := { s.db with
        nextSSTID := s.db.nextSSTID + 1
        nextFileID := s.db.nextFileID + 1
        sstables := s.db.sstables ++ [reader]
        manifest := manifest
        wal := s.db.wal.drop entry.walCutoff
        walFlush := none
        pendingFlush := rest } } := by
  simp only [Committer.step]
  cases completed : drainPendingFlush env s.db with
  | error e => exact .inl rfl
  | ok db' =>
    cases queue : s.db.pendingFlush with
    | nil =>
      simp only [drainPendingFlush, queue] at completed
      cases completed
      exact .inl rfl
    | cons entry rest =>
      obtain ⟨file, reader, manifest, -, -, rfl⟩ :=
        drainPendingFlush_ok env s.db db' entry rest queue completed
      exact .inr ⟨entry, rest, reader, manifest, rfl, rfl⟩

theorem flushed_same : r.flushed r.sys = r := by
  rw [flushed]
  cases queue : r.sys.db.pendingFlush with
  | nil => rfl
  | cons entry rest =>
    simp only
    rw [if_neg (by rw [List.length_cons]; omega)]

include inv in
theorem complete_consistent (safe : r.Safe .complete) : (r.step env .complete).Consistent := by
  show (r.flushed (r.sys.step env .complete)).Consistent
  rcases complete_cases env r.sys with same | ⟨entry, rest, reader, manifest, queue, after⟩
  · rw [same, flushed_same]
    exact inv
  · obtain ⟨⟨rs, stores, segments⟩, small⟩ := inv
    rw [queue] at segments
    obtain ⟨f, fs, seg, later, frozen, rfl, here, before, behind⟩ := segments.head
    rw [Nat.zero_add] at here
    have length := stores.length
    rw [Wal.size_append] at length
    rw [Safe, queue, frozen] at safe
    simp only [flushed, queue, after, if_true, frozen, List.tail_cons]
    rcases safe with exact_ | nothing
    · -- the freeze point has not moved: exactly the segment of the entry is dropped
      refine ⟨⟨later, ?_, ?_⟩, small⟩
      · show Wal.Stores _ (r.sys.db.wal.drop entry.walCutoff) later
        rw [exact_, here]
        exact stores.drop seg later
      · have moved := behind.dropped entry.walCutoff (by omega)
        have front : f.frozenAt - entry.walCutoff = 0 := by omega
        rw [front] at moved
        exact moved
    · -- the log ends at the freeze point, so the rest of it is empty
      obtain rfl : later = [] := Wal.eq_nil_of_size later (by omega)
      refine ⟨⟨[], ?_, ?_⟩, small⟩
      · show Wal.Stores _ (r.sys.db.wal.drop entry.walCutoff) []
        rw [List.drop_eq_nil_of_le (by omega)]
        exact ⟨rfl, by simp⟩
      · exact behind.dropped_all entry.walCutoff rfl before

end Steps

theorem step_consistent (env : Env) (r : WalRun) (i : WalStep) (inv : r.Consistent)
    (safe : r.Safe i) : (r.step env i).Consistent := by
  cases i with
  | enqueue rec => exact enqueue_consistent env r inv rec safe
  | take => exact take_consistent env r inv
  | append => exact append_consistent env r inv
  | finish coins => exact finish_consistent env r inv coins
  | report => exact report_consistent env r inv
  | close => exact ⟨inv.log, inv.small⟩
  | closeFreeze => exact closeFreeze_consistent env r inv
  | complete => exact complete_consistent env r inv safe

/-- In every run whose completions find their freeze point where it was recorded, or at
the end of the log, no record of an unflushed memtable ever leaves the log. -/
theorem covered_of_safe (env : Env) (r : WalRun) (steps : List WalStep) (opened : r.Opened)
    (safe : Machine.Always (step env) Safe r steps) : (Machine.run (step env) r steps).Covered :=
  (Machine.run_invariant (step env) Safe Consistent (step_consistent env) r steps
    (opened.consistent r) safe).covered

/-- A store whose memtable is full after every batch. -/
def tiny : WalRun := ⟨⟨{ emptyDB with memtableSize := 1 }, .idle⟩, [], []⟩

theorem tiny_opened : tiny.Opened :=
  ⟨rfl, rfl, ⟨rfl, rfl⟩, [], ⟨rfl, by simp⟩, List.Sublist.refl _⟩

/-- A single write that goes all the way into a frozen memtable. -/
def writeAndFreeze (key value : Bytes) : List WalStep :=
  [.enqueue ⟨key, value, false⟩, .take, .append, .finish fun _ _ => false]

/-- Two memtables queued at once, both flushed before the next write. -/
theorem covered_two_queued :
    (Machine.run (step smallEnv) tiny (writeAndFreeze [97] [1] ++ writeAndFreeze [98] [2] ++
      [.complete, .complete] ++ writeAndFreeze [99] [3])).Covered :=
  covered_of_safe smallEnv tiny _ tiny_opened (by decide +kernel)

/-- Three memtables queued at once: the second flush drops the record of the third. -/
theorem not_covered_three_queued :
    tiny.Opened ∧ ¬(Machine.run (step smallEnv) tiny (writeAndFreeze [97] [1] ++
      writeAndFreeze [98] [2] ++ writeAndFreeze [99] [3] ++ [.complete, .complete])).Covered :=
  ⟨tiny_opened, by decide +kernel⟩

end WalRun

end PebbleDB.Db
