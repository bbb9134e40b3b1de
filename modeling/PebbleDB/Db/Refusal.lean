import PebbleDB.Db.GroupCommit
import PebbleDB.Wal.Content

/-!
# Records that are accepted and then refused

`writeRecord` queues a record of any size. The limits are checked by `AppendBatch`, record
by record and after earlier ones of the batch were written. A refused record makes the
whole batch fail; it goes back to the queue, and every later flush meets it again.
-/
namespace PebbleDB.Db

open Wal (Record)

/-- Writers and the batch flusher without I/O errors: the records accepted, the records of
the batches that were appended, and whether a `flushPendingBatch` has failed. -/
structure FlushRun where
  sys : Committer
  accepted : List Record
  logged : List Record
  failed : Bool

inductive FlushStep where
  | write (rec : Record)
  | take
  | append
  | finish (coins : Nat → Nat → Bool)
  | report

namespace FlushRun

def write (r : FlushRun) (rec : Record) : FlushRun :=
  match writeRecord r.sys rec with
  | (sys, .failed) => { r with sys := sys }
  | (sys, _) => { r with sys := sys, accepted := r.accepted ++ [rec] }

/-- No write and no sync fails; a record may still be refused. -/
def append (r : FlushRun) : FlushRun :=
  match r.sys.persist with
  | .taken batch =>
    let sys := r.sys.append .none
    match sys.persist with
    | .failed _ => { r with sys := sys, failed := true }
    | _ => { r with sys := sys, logged := r.logged ++ batch }
  | _ => r

def step (r : FlushRun) : FlushStep → FlushRun
  | .write rec => r.write rec
  | .take => { r with sys := r.sys.take }
  | .append => r.append
  | .finish coins => { r with sys := r.sys.finish coins }
  | .report => { r with sys := r.sys.report }

/-- Opened on a log with the records `rs`. -/
structure Opened (rs : List Record) (r : FlushRun) : Prop where
  idle : r.sys.persist = .idle
  batch : r.sys.db.pendingBatch = []
  healthy : r.sys.db.walErr = false
  log : Wal.Stores r.sys.db.walLimits r.sys.db.wal rs
  accepted : r.accepted = []
  logged : r.logged = []
  failed : r.failed = false

/-- The record fits its length fields and the limits of the log. -/
def Safe (r : FlushRun) : FlushStep → Prop
  | .write rec => rec.key.length < 2 ^ 32 ∧ rec.value.length < 2 ^ 32 ∧
      r.sys.db.walLimits.validateRecord rec.key.length rec.value.length = .ok ()
  | _ => True

instance (r : FlushRun) : (i : FlushStep) → Decidable (r.Safe i)
  | .write _ => inferInstanceAs (Decidable (_ ∧ _ ∧ _))
  | .take | .append | .finish _ | .report => .isTrue trivial

/-- One call of `flushPendingBatch`. -/
def flush (r : FlushRun) (coins : Nat → Nat → Bool) : FlushRun :=
  Machine.run step r [.take, .append, .finish coins]

/-- No flush has failed, and the next one logs every accepted record behind what the log
held at the start. -/
structure Unpoisoned (rs : List Record) (r : FlushRun) : Prop where
  neverFails : r.failed = false
  reaches : r.sys.persist = .idle → ∀ coins, (r.flush coins).logged = r.accepted ∧
    (r.flush coins).failed = false ∧
    Wal.Stores r.sys.db.walLimits (r.flush coins).sys.db.wal (rs ++ r.accepted)

/-! ### The invariant -/

structure Consistent (bounds : Wal.ReplayLimits) (rs : List Record) (r : FlushRun) : Prop where
  limits : r.sys.db.walLimits = bounds
  neverFails : r.failed = false
  phase : r.sys.persist = .idle ∨ (∃ batch, r.sys.persist = .taken batch) ∨
    ∃ batch, r.sys.persist = .appended batch
  order : r.accepted = r.logged ++ r.sys.persist.unlogged ++ r.sys.db.pendingBatch
  small : ∀ rec ∈ r.sys.persist.unlogged ++ r.sys.db.pendingBatch, Wal.Encodable bounds rec
  log : Wal.Stores bounds r.sys.db.wal (rs ++ r.logged)

variable {bounds : Wal.ReplayLimits} {rs : List Record} {r : FlushRun}

theorem Opened.consistent (opened : r.Opened rs) : r.Consistent r.sys.db.walLimits rs := by
  refine ⟨rfl, opened.failed, .inl opened.idle, ?_, ?_, ?_⟩
  · rw [opened.accepted, opened.logged, opened.idle, opened.batch]
    rfl
  · rw [opened.idle, opened.batch]
    exact fun rec member => absurd member List.not_mem_nil
  · rw [opened.logged, List.append_nil]
    exact opened.log

/-- A call on an open store without a stored error queues its record. -/
theorem write_accepted (rec : Record) (healthy : r.sys.db.walErr = false)
    (opened : r.sys.db.closed = false) :
    r.write rec = { r with sys := r.sys.enqueue rec, accepted := r.accepted ++ [rec] } := by
  obtain ⟨status, accepted, eq⟩ := Session.writeRecord_enqueues r.sys rec healthy opened
  rw [write, eq]
  cases status with
  | failed => exact absurd rfl accepted
  | returned => rfl
  | waits => rfl

theorem write_rejected (rec : Record)
    (unfit : r.sys.db.walErr = true ∨ r.sys.db.closed = true) : r.write rec = r := by
  have failed : writeRecord r.sys rec = (r.sys, .failed) := by
    rw [writeRecord]
    rcases unfit with bad | shut
    · rw [if_pos bad]
    · rw [if_pos shut, ite_self]
  rw [write, failed]

theorem write_consistent (inv : r.Consistent bounds rs) (rec : Record)
    (safe : r.Safe (.write rec)) : (r.write rec).Consistent bounds rs := by
  cases bad : r.sys.db.walErr with
  | true =>
    rw [write_rejected rec (.inl bad)]
    exact inv
  | false =>
  cases shut : r.sys.db.closed with
  | true =>
    rw [write_rejected rec (.inr shut)]
    exact inv
  | false =>
  have queued : r.sys.enqueue rec = ⟨{ r.sys.db with
      pendingBatch := r.sys.db.pendingBatch ++ [rec]
      batchSizeBytes := r.sys.db.batchSizeBytes + recordWireSize rec }, r.sys.persist⟩ := by
    rw [Committer.enqueue, shut]
    rfl
  have new : Wal.Encodable bounds rec :=
    ⟨safe.1, safe.2.1, by rw [← inv.limits]; exact safe.2.2⟩
  rw [write_accepted rec bad shut, queued]
  refine ⟨inv.limits, inv.neverFails, inv.phase, ?_, ?_, inv.log⟩
  · simp [inv.order]
  · intro other member
    rw [← List.append_assoc, List.mem_append, List.mem_singleton] at member
    rcases member with old | rfl
    · exact inv.small other old
    · exact new

theorem take_consistent (inv : r.Consistent bounds rs) :
    ({ r with sys := r.sys.take } : FlushRun).Consistent bounds rs := by
  have order := inv.order
  have small := inv.small
  rcases inv.phase with idle | ⟨batch, at_⟩ | ⟨batch, at_⟩
  · by_cases empty : r.sys.db.pendingBatch = []
    · have same : r.sys.take = r.sys := by
        simp only [Committer.take, idle, if_pos empty]
      rw [same]
      exact inv
    · have taken : r.sys.take = ⟨{ r.sys.db with pendingBatch := [], batchSizeBytes := 0 },
          .taken r.sys.db.pendingBatch⟩ := by
        simp only [Committer.take, idle, if_neg empty, takePendingBatchLocked]
      rw [idle] at order small
      rw [taken]
      refine ⟨inv.limits, inv.neverFails, .inr (.inl ⟨_, rfl⟩), ?_, ?_, inv.log⟩
      · simpa [Persist.unlogged] using order
      · simpa [Persist.unlogged] using small
  · have same : r.sys.take = r.sys := by simp only [Committer.take, at_]
    rw [same]
    exact inv
  · have same : r.sys.take = r.sys := by simp only [Committer.take, at_]
    rw [same]
    exact inv

/-- A batch of records within the limits is appended whole. -/
theorem append_taken (inv : r.Consistent bounds rs) (batch : List Record)
    (at_ : r.sys.persist = .taken batch) :
    ∃ wal, r.append = { r with
        sys := ⟨{ r.sys.db with wal := wal }, .appended batch⟩
        logged := r.logged ++ batch } ∧
      Wal.Stores bounds wal (rs ++ (r.logged ++ batch)) := by
  have small : ∀ rec ∈ batch, Wal.Encodable bounds rec := by
    intro rec member
    apply inv.small rec
    rw [at_]
    exact List.mem_append_left _ member
  -- no record is refused, so the append returns nil
  have accepted : (Wal.appendBatch bounds r.sys.db.wal batch .none).2 = none := by
    by_contra refused
    obtain ⟨rec, member, e, error⟩ := (Wal.appendBatch_refused_iff bounds _ batch).mp refused
    rw [(small rec member).encodeRecord] at error
    cases error
  obtain ⟨added, stores, all⟩ := inv.log.append batch
    (fun rec member => ⟨(small rec member).keyFits, (small rec member).valueFits⟩)
  rw [all accepted, List.append_assoc] at stores
  refine ⟨(Wal.appendBatch bounds r.sys.db.wal batch .none).1, ?_, stores⟩
  have ran : r.sys.append .none = ⟨{ r.sys.db with
      wal := (Wal.appendBatch bounds r.sys.db.wal batch .none).1 }, .appended batch⟩ := by
    simp only [Committer.append, at_, inv.limits]
    cases result : Wal.appendBatch bounds r.sys.db.wal batch .none with
    | mk wal err =>
      rw [result] at accepted
      cases accepted
      rfl
  rw [append, at_]
  simp only [ran]

theorem append_consistent (inv : r.Consistent bounds rs) : r.append.Consistent bounds rs := by
  have order := inv.order
  have small := inv.small
  rcases inv.phase with idle | ⟨batch, at_⟩ | ⟨batch, at_⟩
  · rw [append, idle]
    exact inv
  · obtain ⟨wal, eq, stores⟩ := append_taken inv batch at_
    rw [at_] at order small
    rw [eq]
    refine ⟨inv.limits, inv.neverFails, .inr (.inr ⟨batch, rfl⟩), ?_, ?_, stores⟩
    · simpa [Persist.unlogged] using order
    · intro rec member
      exact small rec (List.mem_append_right _ member)
  · rw [append, at_]
    exact inv

theorem finish_consistent (inv : r.Consistent bounds rs) (coins : Nat → Nat → Bool) :
    ({ r with sys := r.sys.finish coins } : FlushRun).Consistent bounds rs := by
  have order := inv.order
  have small := inv.small
  rcases inv.phase with idle | ⟨batch, at_⟩ | ⟨batch, at_⟩
  · have same : r.sys.finish coins = r.sys := by simp only [Committer.finish, idle]
    rw [same]
    exact inv
  · have same : r.sys.finish coins = r.sys := by simp only [Committer.finish, at_]
    rw [same]
    exact inv
  · obtain ⟨queue, active, same⟩ := DB.maybeFlushLocked_eq
      { r.sys.db with active := applyRecords coins 0 r.sys.db.active batch }
    have applied : r.sys.finish coins =
        ⟨{ r.sys.db with pendingFlush := queue, active := active }, .idle⟩ := by
      simp only [Committer.finish, at_, same]
    rw [at_] at order small
    rw [applied]
    exact ⟨inv.limits, inv.neverFails, .inl rfl, order, small, inv.log⟩

theorem report_consistent (inv : r.Consistent bounds rs) :
    ({ r with sys := r.sys.report } : FlushRun).Consistent bounds rs := by
  have same : r.sys.report = r.sys := by
    rcases inv.phase with idle | ⟨batch, at_⟩ | ⟨batch, at_⟩
    · simp only [Committer.report, idle]
    · simp only [Committer.report, at_]
    · simp only [Committer.report, at_]
  rw [same]
  exact inv

theorem step_consistent (r : FlushRun) (i : FlushStep) (inv : r.Consistent bounds rs)
    (safe : r.Safe i) : (r.step i).Consistent bounds rs := by
  cases i with
  | write rec => exact write_consistent inv rec safe
  | take => exact take_consistent inv
  | append => exact append_consistent inv
  | finish coins => exact finish_consistent inv coins
  | report => exact report_consistent inv

/-! ### The next flush -/

/-- A whole flush from an idle state logs everything that was accepted. -/
theorem Consistent.flush (inv : r.Consistent bounds rs) (idle : r.sys.persist = .idle)
    (coins : Nat → Nat → Bool) :
    (r.flush coins).logged = r.accepted ∧ (r.flush coins).Consistent bounds rs := by
  have taken := take_consistent inv
  have appended := append_consistent taken
  have finished := finish_consistent appended coins
  refine ⟨?_, finished⟩
  show (append { r with sys := r.sys.take }).logged = r.accepted
  have order := inv.order
  rw [idle, Persist.unlogged, List.append_nil] at order
  by_cases empty : r.sys.db.pendingBatch = []
  · have same : r.sys.take = r.sys := by
      simp only [Committer.take, idle, if_pos empty]
    rw [same, append, idle, order, empty, List.append_nil]
  · have moved : r.sys.take.persist = .taken r.sys.db.pendingBatch := by
      simp only [Committer.take, idle, if_neg empty, takePendingBatchLocked]
    obtain ⟨wal, eq, -⟩ := append_taken taken r.sys.db.pendingBatch moved
    rw [eq, order]

theorem Consistent.unpoisoned (inv : r.Consistent bounds rs) : r.Unpoisoned rs := by
  refine ⟨inv.neverFails, ?_⟩
  intro idle coins
  obtain ⟨all, after⟩ := inv.flush idle coins
  have log := after.log
  rw [all] at log
  rw [inv.limits]
  exact ⟨all, after.neverFails, log⟩

/-- In every run in which each written record fits its length fields and the limits, no
flush fails and the next one logs every accepted record. -/
theorem unpoisoned_of_safe (rs : List Record) (r : FlushRun) (steps : List FlushStep)
    (opened : r.Opened rs) (safe : Machine.Always step Safe r steps) :
    (Machine.run step r steps).Unpoisoned rs :=
  (Machine.run_invariant step Safe (Consistent r.sys.db.walLimits rs) step_consistent r steps
    opened.consistent safe).unpoisoned

/-- A run on a store that has just been created. -/
def fresh : FlushRun := ⟨⟨emptyDB, .idle⟩, [], [], false⟩

theorem fresh_opened : fresh.Opened [] := by
  refine ⟨rfl, rfl, rfl, ⟨rfl, ?_⟩, rfl, rfl, rfl⟩
  exact fun rec member => absurd member List.not_mem_nil

theorem unpoisoned_two_batches :
    (Machine.run step fresh [.write ⟨[97], [1], false⟩, .write ⟨[], [], true⟩, .take, .append,
      .write ⟨[98], [2, 3], false⟩, .finish fun _ _ => false]).Unpoisoned [] :=
  unpoisoned_of_safe [] fresh _ fresh_opened (by decide +kernel)

/-- A put whose key is one byte above the default limit. -/
def bigPut : Record := ⟨List.replicate (2 ^ 20 + 1) 0, [], false⟩

theorem bigPut_refused : Wal.Refused Wal.defaultReplayLimits bigPut := by
  refine ⟨.keyTooLarge, ?_⟩
  have len : bigPut.key.length = 2 ^ 20 + 1 := List.length_replicate
  rw [Wal.encodeRecord, len]
  rfl

/-- One refused record makes the whole batch fail. -/
theorem append_refused (batch : List Record) (at_ : r.sys.persist = .taken batch) (rec : Record)
    (member : rec ∈ batch) (refused : Wal.Refused r.sys.db.walLimits rec) :
    r.append.failed = true := by
  have error := (Wal.appendBatch_refused_iff r.sys.db.walLimits r.sys.db.wal batch).mpr
    ⟨rec, member, refused⟩
  have ran : (r.sys.append .none).persist = .failed batch := by
    simp only [Committer.append, at_]
    cases result : Wal.appendBatch r.sys.db.walLimits r.sys.db.wal batch .none with
    | mk wal err =>
      rw [result] at error
      cases err with
      | none => exact absurd rfl error
      | some e => rfl
  rw [append, at_]
  simp only [ran]

theorem run_take_append (r : FlushRun) :
    Machine.run step r [.take, .append] = append { r with sys := r.sys.take } := rfl

/-- `Put(a, 1)` shares its batch with a put of an oversized key; both calls are accepted and
the flush fails. -/
theorem not_unpoisoned_big_put :
    fresh.Opened [] ∧ ¬(Machine.run step fresh [.write ⟨[97], [1], false⟩, .write bigPut, .take,
      .append]).Unpoisoned [] := by
  refine ⟨fresh_opened, ?_⟩
  intro unpoisoned
  have first : fresh.write ⟨[97], [1], false⟩ = { fresh with
      sys := fresh.sys.enqueue ⟨[97], [1], false⟩, accepted := [⟨[97], [1], false⟩] } :=
    write_accepted _ rfl rfl
  have second : (fresh.write ⟨[97], [1], false⟩).write bigPut = { fresh with
      sys := (fresh.sys.enqueue ⟨[97], [1], false⟩).enqueue bigPut
      accepted := [⟨[97], [1], false⟩, bigPut] } := by
    rw [first]
    exact write_accepted _ rfl rfl
  -- the batch that is taken holds both records
  have failed := append_refused
    (r := { fresh with
      sys := ((fresh.sys.enqueue ⟨[97], [1], false⟩).enqueue bigPut).take
      accepted := [⟨[97], [1], false⟩, bigPut] })
    [⟨[97], [1], false⟩, bigPut] rfl bigPut (by simp) bigPut_refused
  have never := unpoisoned.neverFails
  rw [Machine.run_cons, Machine.run_cons, step, step, second, run_take_append, failed] at never
  cases never

end FlushRun

end PebbleDB.Db
