import PebbleDB.Db.Batch
import PebbleDB.Lib.Machine

/-!
# Reading one's own writes

A session is any interleaving of `Put`, `Delete` and `Get` calls with the steps of the
batch flusher. It remembers every accepted record in order, which calls have
returned nil, and every answer of `Get` with what was known at that moment. While
the flusher holds a batch its records are in no layer that `Get` asks.
-/
namespace PebbleDB.Db

open Memtable (SkipList Slot)
open Wal (Record)

def batchMaxRecords : Nat := 64
def batchMaxBytes : Nat := 16 * 1024

/-- How a call of `writeRecord` ends: with an error, with nil, or by waiting for the
batch flusher. -/
inductive WriteStatus where
  | failed
  | returned
  | waits
  deriving DecidableEq, Repr

/-- A write is due at once. -/
def flushNow (db : DB) : Bool :=
  db.syncWrites || batchMaxRecords ≤ db.pendingBatch.length ||
    batchMaxBytes ≤ db.batchSizeBytes || db.memtableSize < db.active.size + db.batchSizeBytes

def writeRecord (s : Committer) (rec : Record) : Committer × WriteStatus :=
  -- the background error is looked at before `db.mu` is taken
  if s.db.walErr then (s, .failed)
  else if s.db.closed then (s, .failed)
  else
    let s := s.enqueue rec
    (s, if flushNow s.db then .waits else .returned)

/-- A finished `Get`, with the writes accepted and the calls returned before it. -/
structure Read where
  key : Bytes
  result : Except GetError Slice
  accepted : List Record
  returned : List Nat

structure Session where
  sys : Committer
  accepted : List Record
  waiting : List Nat
  returned : List Nat
  reads : List Read

inductive SessionStep where
  | write (rec : Record)
  | reply (i : Nat) (ok : Bool)
  | take
  | append (faults : Wal.Faults)
  | finish (coins : Nat → Nat → Bool)
  | report
  | get (key : Bytes)

/-- One step. When a waiting call hears from the flusher, and what, is left open. -/
def Session.step (s : Session) : SessionStep → Session
  | .write rec =>
    match writeRecord s.sys rec with
    | (sys, .failed) => { s with sys := sys }
    | (sys, .returned) =>
      { s with
        sys := sys
        accepted := s.accepted ++ [rec]
        returned := s.returned ++ [s.accepted.length] }
    | (sys, .waits) =>
      { s with
        sys := sys
        accepted := s.accepted ++ [rec]
        waiting := s.waiting ++ [s.accepted.length] }
  | .reply i ok =>
    if i ∈ s.waiting then
      { s with
        waiting := s.waiting.erase i
        returned := if ok then s.returned ++ [i] else s.returned }
    else s
  | .take => { s with sys := s.sys.take }
  | .append faults => { s with sys := s.sys.append faults }
  | .finish coins => { s with sys := s.sys.finish coins }
  | .report => { s with sys := s.sys.report }
  | .get key => { s with reads := s.reads ++ [⟨key, s.sys.db.get key, s.accepted, s.returned⟩] }

/-- What a reader of the record sees. -/
def outcome (rec : Record) : Except GetError Slice :=
  if rec.tombstone then .error .notFound else .ok (cloneBytes rec.value)

/-- For every write to the key that has returned nil: the answer is the outcome of that
write or of a later one to the key. -/
def Read.Ok (rd : Read) : Prop :=
  ∀ i ∈ rd.returned, ∀ w, rd.accepted[i]? = some w → w.key = rd.key →
    ∃ j w', i ≤ j ∧ rd.accepted[j]? = some w' ∧ w'.key = rd.key ∧ rd.result = outcome w'

def Session.ReadsOwnWrites (s : Session) : Prop := ∀ rd ∈ s.reads, rd.Ok

/-- Just opened: nothing queued, any memtables and tables. -/
structure Session.Opened (s : Session) : Prop where
  idle : s.sys.persist = .idle
  batch : s.sys.db.pendingBatch = []
  opened : s.sys.db.closed = false
  accepted : s.accepted = []
  reads : s.reads = []

/-- At a `Get`: the flusher holds no record of the key, or a newer one is queued. -/
def Session.Safe (s : Session) : SessionStep → Prop
  | .get key => (∀ rec ∈ s.sys.persist.inflight, rec.key ≠ key) ∨
      ∃ rec ∈ s.sys.db.pendingBatch, rec.key = key
  | _ => True

instance (s : Session) : (i : SessionStep) → Decidable (s.Safe i)
  | .get _ => inferInstanceAs (Decidable (_ ∨ _))
  | .write _ | .reply _ _ | .take | .append _ | .finish _ | .report => .isTrue trivial

/-! ### The last record of a key -/

theorem lastRecord_eq_none (key : Bytes) (records : List Record)
    (absent : ∀ rec ∈ records, rec.key ≠ key) : lastRecord key records = none := by
  rw [lastRecord, List.find?_eq_none]
  simpa using absent

theorem lastRecord_ne_none (key : Bytes) (records : List Record) (rec : Record)
    (member : rec ∈ records) (same : rec.key = key) : lastRecord key records ≠ none := by
  intro none_
  rw [lastRecord, List.find?_eq_none] at none_
  exact none_ rec (by simpa using member) (by simpa using same)

/-- It is the one with the highest position. -/
theorem lastRecord_position (key : Bytes) (records : List Record) (rec : Record)
    (last : lastRecord key records = some rec) :
    rec.key = key ∧ ∃ j : Nat, records[j]? = some rec ∧
      ∀ (i : Nat) (w : Record), records[i]? = some w → w.key = key → i ≤ j := by
  induction records using List.reverseRecOn with
  | nil => cases last
  | append_singleton records x ih =>
    rw [lastRecord_append, lastRecord_singleton] at last
    by_cases same : x.key = key
    · rw [if_pos same] at last
      cases last
      refine ⟨same, records.length, by simp, ?_⟩
      intro i w found _
      have bound := (List.getElem?_eq_some_iff.mp found).1
      rw [List.length_append, List.length_singleton] at bound
      omega
    · rw [if_neg same, Option.none_or] at last
      obtain ⟨keyEq, j, found, highest⟩ := ih last
      have inside := (List.getElem?_eq_some_iff.mp found).1
      refine ⟨keyEq, j, by rw [List.getElem?_append_left inside, found], ?_⟩
      intro i w here ofKey
      by_cases early : i < records.length
      · rw [List.getElem?_append_left early] at here
        exact highest i w here ofKey
      · -- the appended record is of another key
        have bound := (List.getElem?_eq_some_iff.mp here).1
        rw [List.length_append, List.length_singleton] at bound
        have at_ : i = records.length := by omega
        subst at_
        simp at here
        exact absurd (here ▸ ofKey) same

/-! ### The layers during group commit -/

/-- What a memory layer reports for the record. -/
def memAnswer (rec : Record) : MemLookup :=
  if rec.tombstone then (none, .tombstone) else (cloneBytes rec.value, .hit)

theorem memAnswer_ne_miss (rec : Record) : (memAnswer rec).2 ≠ .miss := by
  rw [memAnswer]
  split
  · simp
  · simp

theorem answer_memAnswer (rec : Record) (tables : Except Sst.Error (Slice × Bool)) :
    answer (memAnswer rec) tables = outcome rec := by
  rw [memAnswer, outcome]
  split
  · rfl
  · rfl

theorem lookupPendingBatch_eq (batch : List Record) (key : Bytes) :
    lookupPendingBatch batch key = ((lastRecord key batch).map memAnswer).getD (none, .miss) := by
  rw [lookupPendingBatch, lastRecord]
  cases batch.reverse.find? fun rec => decide (rec.key = key) with
  | none => rfl
  | some rec => rfl

/-- The memtables, newest first. -/
def lookupMemtables (db : DB) (key : Bytes) : MemLookup :=
  (lookupMemtable db.active key).orElse (lookupPendingFlush db.pendingFlush key)

theorem lookupPendingFlush_concat (queue : List FlushQueueEntry) (entry : FlushQueueEntry)
    (key : Bytes) :
    lookupPendingFlush (queue ++ [entry]) key =
      (lookupMemtable entry.mem key).orElse (lookupPendingFlush queue key) := by
  rw [lookupPendingFlush, List.reverse_append, List.reverse_singleton, List.singleton_append,
    lookupNewestMemtable, lookupPendingFlush]

/-- Freezing the active memtable changes no lookup. -/
theorem lookupMemtables_freeze (db : DB) (key : Bytes) :
    lookupMemtables db.freeze key = lookupMemtables db key := by
  have empty : lookupMemtable SkipList.new key = (none, .miss) := by
    rw [lookupMemtable_eq, SkipList.find_new]
  rw [lookupMemtables, lookupMemtables]
  show (lookupMemtable SkipList.new key).orElse
    (lookupPendingFlush (db.pendingFlush ++ [⟨db.active, db.wal.length⟩]) key) = _
  rw [empty, MemLookup.miss_orElse, lookupPendingFlush_concat]

theorem lookupMemtables_maybeFlushLocked (db : DB) (key : Bytes) :
    lookupMemtables db.maybeFlushLocked.1 key = lookupMemtables db key := by
  rw [DB.maybeFlushLocked]
  split
  · rfl
  · exact lookupMemtables_freeze db key

/-- After a batch was applied, its last record of a key is what the memtables report. -/
theorem lookupMemtables_applied (db : DB) (coins : Nat → Nat → Bool) (batch : List Record)
    (key : Bytes) :
    lookupMemtables { db with active := applyRecords coins 0 db.active batch } key =
      ((lastRecord key batch).map memAnswer).getD (lookupMemtables db key) := by
  rw [lookupMemtables, lookupMemtables, lookupMemtable_eq, lookupMemtable_eq, find_applyRecords]
  cases lastRecord key batch with
  | none => rfl
  | some rec =>
    show MemLookup.orElse (if (slotOf rec).tombstone then _ else _) _ = memAnswer rec
    rw [slotOf, memAnswer]
    cases rec.tombstone with
    | true => rfl
    | false => rfl

/-! ### The invariant -/

structure Session.Consistent (s : Session) : Prop where
  opened : s.sys.db.closed = false
  layers : ∃ applied, s.accepted = applied ++ s.sys.persist.inflight ++ s.sys.db.pendingBatch ∧
    ∀ key w, lastRecord key applied = some w → lookupMemtables s.sys.db key = memAnswer w
  reads : s.ReadsOwnWrites

namespace Session

theorem Opened.consistent (s : Session) (opened : s.Opened) : s.Consistent := by
  refine ⟨opened.opened, ⟨[], ?_, ?_⟩, ?_⟩
  · rw [opened.accepted, opened.idle, opened.batch]
    rfl
  · intro key w last
    cases last
  · intro rd member
    rw [opened.reads] at member
    cases member

/-- A safe `Get` returns the outcome of the last accepted write to its key. -/
theorem Consistent.get (s : Session) (inv : s.Consistent) (key : Bytes) (safe : s.Safe (.get key))
    (w : Record) (last : lastRecord key s.accepted = some w) : s.sys.db.get key = outcome w := by
  obtain ⟨applied, accepted, layers⟩ := inv.layers
  rw [DB.get, inv.opened, DB.lookupMemory, lookupPendingBatch_eq]
  simp only [Bool.false_eq_true, if_false]
  rw [accepted, lastRecord_append] at last
  cases queued : lastRecord key s.sys.db.pendingBatch with
  | some q =>
    rw [queued, Option.some_or] at last
    cases last
    show answer ((memAnswer w).orElse _) _ = _
    rw [MemLookup.orElse_of_ne_miss _ _ (memAnswer_ne_miss w), answer_memAnswer]
  | none =>
    -- nothing queued, so the flusher holds no record of the key either
    have notHeld : lastRecord key s.sys.persist.inflight = none := by
      rcases safe with none_ | ⟨rec, member, same⟩
      · exact lastRecord_eq_none key _ none_
      · exact absurd queued (lastRecord_ne_none key _ rec member same)
    rw [queued, Option.none_or, lastRecord_append, notHeld, Option.none_or] at last
    show answer (MemLookup.orElse (none, .miss) (lookupMemtables s.sys.db key)) _ = _
    rw [MemLookup.miss_orElse, layers key w last, answer_memAnswer]

/-- A safe `Get` meets every write to its key that has returned. -/
theorem Consistent.read_ok (s : Session) (inv : s.Consistent) (key : Bytes)
    (safe : s.Safe (.get key)) :
    (⟨key, s.sys.db.get key, s.accepted, s.returned⟩ : Read).Ok := by
  intro i _ w found ofKey
  cases last : lastRecord key s.accepted with
  | none =>
    exact absurd last (lastRecord_ne_none key _ w (List.mem_of_getElem? found) ofKey)
  | some newest =>
    obtain ⟨same, j, position, highest⟩ := lastRecord_position key s.accepted newest last
    exact ⟨j, newest, highest i w found ofKey, position, same, inv.get s key safe newest last⟩

/-! ### What each step keeps -/

theorem enqueue_layers (s : Session) (inv : s.Consistent) (rec : Record) :
    ∃ applied, s.accepted ++ [rec] =
        applied ++ (s.sys.enqueue rec).persist.inflight ++ (s.sys.enqueue rec).db.pendingBatch ∧
      ∀ key w, lastRecord key applied = some w →
        lookupMemtables (s.sys.enqueue rec).db key = memAnswer w := by
  obtain ⟨applied, accepted, layers⟩ := inv.layers
  rw [Committer.enqueue, inv.opened]
  exact ⟨applied, by simp [accepted], layers⟩

theorem enqueue_opened (s : Session) (inv : s.Consistent) (rec : Record) :
    (s.sys.enqueue rec).db.closed = false := by
  rw [Committer.enqueue, inv.opened]
  exact inv.opened

/-- A write to a store without a stored error is queued, whether or not the call waits. -/
theorem writeRecord_enqueues (s : Committer) (rec : Record) (healthy : s.db.walErr = false)
    (opened : s.db.closed = false) :
    ∃ status, status ≠ .failed ∧ writeRecord s rec = (s.enqueue rec, status) := by
  rw [writeRecord, healthy, opened]
  refine ⟨_, ?_, rfl⟩
  split
  · simp
  · simp

theorem write_consistent (s : Session) (inv : s.Consistent) (rec : Record) :
    (s.step (.write rec)).Consistent := by
  rw [step]
  cases healthy : s.sys.db.walErr with
  | true =>
    rw [writeRecord, if_pos healthy]
    exact inv
  | false =>
    obtain ⟨status, queued, eq⟩ := writeRecord_enqueues s.sys rec healthy inv.opened
    rw [eq]
    cases status with
    | failed => exact absurd rfl queued
    | returned => exact ⟨enqueue_opened s inv rec, enqueue_layers s inv rec, inv.reads⟩
    | waits => exact ⟨enqueue_opened s inv rec, enqueue_layers s inv rec, inv.reads⟩

theorem take_consistent (s : Session) (inv : s.Consistent) : (s.step .take).Consistent := by
  obtain ⟨applied, accepted, layers⟩ := inv.layers
  rw [step, Committer.take]
  cases at_ : s.sys.persist with
  | idle =>
    by_cases empty : s.sys.db.pendingBatch = []
    · simp only [if_pos empty]
      exact inv
    · simp only [if_neg empty]
      refine ⟨inv.opened, ⟨applied, ?_, layers⟩, inv.reads⟩
      rw [accepted, at_]
      simp [takePendingBatchLocked, Persist.inflight]
  | taken batch => exact inv
  | appended batch => exact inv
  | failed batch => exact inv
  | restored => exact inv

theorem append_consistent (s : Session) (inv : s.Consistent) (faults : Wal.Faults) :
    (s.step (.append faults)).Consistent := by
  obtain ⟨applied, accepted, layers⟩ := inv.layers
  rw [step, Committer.append]
  cases at_ : s.sys.persist with
  | taken batch =>
    -- the batch stays in flight, whatever the append says
    have held : s.accepted = applied ++ batch ++ s.sys.db.pendingBatch := by
      rw [accepted, at_]
      rfl
    cases appended : Wal.appendBatch s.sys.db.walLimits s.sys.db.wal batch faults with
    | mk wal err =>
      cases err with
      | some e =>
        simp only [appended]
        exact ⟨inv.opened, ⟨applied, held, layers⟩, inv.reads⟩
      | none =>
        simp only [appended]
        exact ⟨inv.opened, ⟨applied, held, layers⟩, inv.reads⟩
  | idle => exact inv
  | appended batch => exact inv
  | failed batch => exact inv
  | restored => exact inv

theorem finish_consistent (s : Session) (inv : s.Consistent) (coins : Nat → Nat → Bool) :
    (s.step (.finish coins)).Consistent := by
  obtain ⟨applied, accepted, layers⟩ := inv.layers
  rw [step, Committer.finish]
  cases at_ : s.sys.persist with
  | appended batch =>
    obtain ⟨queue, active, same⟩ := DB.maybeFlushLocked_eq
      { s.sys.db with active := applyRecords coins 0 s.sys.db.active batch }
    have closed := congrArg DB.closed same
    have queued := congrArg DB.pendingBatch same
    refine ⟨closed.trans inv.opened, ⟨applied ++ batch, ?_, ?_⟩, inv.reads⟩
    · rw [accepted, at_, queued]
      simp [Persist.inflight]
    · intro key w last
      rw [lookupMemtables_maybeFlushLocked, lookupMemtables_applied]
      rw [lastRecord_append] at last
      cases newest : lastRecord key batch with
      | some rec =>
        rw [newest, Option.some_or] at last
        cases last
        rfl
      | none =>
        rw [newest, Option.none_or] at last
        exact layers key w last
  | failed batch =>
    -- the batch goes back in front of what was queued meanwhile
    refine ⟨inv.opened, ⟨applied, ?_, layers⟩, inv.reads⟩
    rw [accepted, at_]
    simp [restorePendingBatchLocked, Persist.inflight]
  | idle => exact inv
  | taken batch => exact inv
  | restored => exact inv

theorem report_consistent (s : Session) (inv : s.Consistent) : (s.step .report).Consistent := by
  obtain ⟨applied, accepted, layers⟩ := inv.layers
  rw [step, Committer.report]
  cases at_ : s.sys.persist with
  | restored =>
    refine ⟨inv.opened, ⟨applied, ?_, layers⟩, inv.reads⟩
    rw [accepted, at_]
    rfl
  | idle => exact inv
  | taken batch => exact inv
  | appended batch => exact inv
  | failed batch => exact inv

theorem reply_consistent (s : Session) (inv : s.Consistent) (i : Nat) (ok : Bool) :
    (s.step (.reply i ok)).Consistent := by
  rw [step]
  split
  · exact ⟨inv.opened, inv.layers, inv.reads⟩
  · exact inv

theorem get_consistent (s : Session) (inv : s.Consistent) (key : Bytes)
    (safe : s.Safe (.get key)) : (s.step (.get key)).Consistent := by
  refine ⟨inv.opened, inv.layers, ?_⟩
  intro rd member
  rcases List.mem_append.mp member with earlier | now
  · exact inv.reads rd earlier
  · obtain rfl := List.mem_singleton.mp now
    exact inv.read_ok s key safe

theorem step_consistent (s : Session) (i : SessionStep) (inv : s.Consistent) (safe : s.Safe i) :
    (s.step i).Consistent := by
  cases i with
  | write rec => exact write_consistent s inv rec
  | reply i ok => exact reply_consistent s inv i ok
  | take => exact take_consistent s inv
  | append faults => exact append_consistent s inv faults
  | finish coins => exact finish_consistent s inv coins
  | report => exact report_consistent s inv
  | get key => exact get_consistent s inv key safe

/-- In every run in which each `Get` finds its key outside the batch in flight, or a newer
record of it queued, every `Get` sees every write that has returned. -/
theorem readsOwnWrites_of_safe (s : Session) (steps : List SessionStep) (opened : s.Opened)
    (safe : Machine.Always step Safe s steps) : (Machine.run step s steps).ReadsOwnWrites :=
  (Machine.run_invariant step Safe Consistent step_consistent s steps
    (opened.consistent s) safe).reads

/-- A session on a store that has just been created. -/
def fresh : Session := ⟨⟨emptyDB, .idle⟩, [], [], [], []⟩

theorem fresh_opened : fresh.Opened := ⟨rfl, rfl, rfl, rfl, rfl⟩

/-- A read of `a` while a batch with another value of it is in flight and a newer one is
queued, and one after the append has failed and the batch was put back. -/
theorem readsOwnWrites_newer_queued :
    (Machine.run step fresh [.write ⟨[97], [1], false⟩, .take, .write ⟨[97], [2], false⟩,
      .get [97], .append ⟨fun _ => none, true⟩, .finish fun _ _ => false,
      .get [97]]).ReadsOwnWrites :=
  readsOwnWrites_of_safe fresh _ fresh_opened (by decide +kernel)

/-- `Put(a, 1)` has returned; a `Get(a)` after the flusher took the batch misses it. -/
theorem not_readsOwnWrites_inflight :
    fresh.Opened ∧ ¬(Machine.run step fresh
      [.write ⟨[97], [1], false⟩, .take, .get [97]]).ReadsOwnWrites := by
  refine ⟨fresh_opened, ?_⟩
  intro own
  have missed : (Machine.run step fresh [.write ⟨[97], [1], false⟩, .take, .get [97]]).reads =
      [⟨[97], .error .notFound, [⟨[97], [1], false⟩], [0]⟩] := rfl
  obtain ⟨j, w, _, found, _, result⟩ := own _ (missed ▸ List.mem_singleton_self _) 0 (by simp)
    ⟨[97], [1], false⟩ rfl rfl
  -- the only accepted write is a put
  obtain rfl : w = ⟨[97], [1], false⟩ := by
    simpa using List.mem_of_getElem? found
  cases result

end Session

end PebbleDB.Db
