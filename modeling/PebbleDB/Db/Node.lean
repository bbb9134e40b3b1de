import PebbleDB.Db.Open

/-!
# The store as a process over its files

The batch flusher and the flusher work on the same files in steps that interleave, a
crash may come between any two of them, and `Open` starts again from what is on disk.
-/
namespace PebbleDB.Db

open Memtable (SkipList Slot)
open Wal (Record)

/-- Where the flusher stands between `AppendNewFile` and the pop of its entry. -/
inductive FlushPhase where
  | idle
  | committed (walCutoff : Nat) (sstID : UInt64)
  | recorded (walCutoff : Nat)
  | truncated
  | removed

/-- The batch that is logged and not yet in the memtable. -/
def Persist.written : Persist → Option (List Record)
  | .appended batch => some batch
  | _ => none

/-- The store as a process over its files; `up` is false between a crash and `Open`. -/
structure Node where
  sys : Committer
  ssts : SstFiles
  flusher : FlushPhase
  up : Bool

inductive NodeStep where
  | write (rec : Record)
  | take
  | append
  | finish (coins : Nat → Nat → Bool)
  | report
  | freeze
  | commit
  | writeState
  | truncate
  | removeState
  | pop
  | crash
  | reopen (coins : Nat → Nat → Bool)

namespace Node

/-- The first part of `flushImmutable`; an id is spent even if the table fails. -/
def commit (env : Env) (n : Node) : Node :=
  match n.flusher, n.sys.db.pendingFlush with
  | .idle, entry :: _ =>
    -- the id is used up also when the flush fails
    let spent := { n with sys.db.nextSSTID := n.sys.db.nextSSTID + 1 }
    match writeMemtable env n.sys.db entry.mem with
    | .error _ => spent
    | .ok r =>
      match commitTable n.sys.db r with
      | .error _ => spent
      | .ok db =>
        { n with
          sys.db := db
          ssts := n.ssts.write db.nextSSTID r.file
          flusher := .committed entry.walCutoff db.nextSSTID }
  | _, _ => n

def writeState (n : Node) : Node :=
  match n.flusher with
  | .committed walCutoff sstID =>
    { n with
      sys.db.walFlush := some (WalFlushState.encoded ⟨walCutoff, sstID⟩)
      flusher := .recorded walCutoff }
  | _ => n

def truncate (env : Env) (n : Node) : Node :=
  match n.flusher with
  | .recorded walCutoff =>
    match Wal.truncateBefore n.sys.db.wal walCutoff env.reads with
    -- the state file stays, and the next `Open` finds it
    | .error _ => n
    | .ok wal => { n with sys.db.wal := wal, flusher := .truncated }
  | _ => n

def removeState (n : Node) : Node :=
  match n.flusher with
  | .truncated => { n with sys.db.walFlush := none, flusher := .removed }
  | _ => n

def pop (n : Node) : Node :=
  match n.flusher with
  | .removed =>
    { n with sys.db.pendingFlush := n.sys.db.pendingFlush.tail, flusher := .idle }
  | _ => n

/-- `Open` after a crash; a failed one leaves the process down. -/
def reopen (n : Node) (coins : Nat → Nat → Bool) : Node :=
  match Db.reopen n.sys.db n.ssts coins with
  | .error _ => n
  | .ok (db, ssts) => ⟨⟨db, .idle⟩, ssts, .idle, true⟩

/-- One step without I/O errors. -/
def step (env : Env) (n : Node) (i : NodeStep) : Node :=
  if n.up then
    match i with
    | .write rec => { n with sys := n.sys.enqueue rec }
    | .take => { n with sys := n.sys.take }
    | .append => { n with sys := n.sys.append .none }
    | .finish coins => { n with sys := n.sys.finish coins }
    | .report => { n with sys := n.sys.report }
    | .freeze => { n with sys.db := n.sys.db.freezeActive }
    | .commit => n.commit env
    | .writeState => n.writeState
    | .truncate => n.truncate env
    | .removeState => n.removeState
    | .pop => n.pop
    | .crash => { n with up := false }
    | .reopen _ => n
  else
    match i with
    | .reopen coins => n.reopen coins
    | _ => n

end Node

/-! ### A commit without I/O errors -/

/-- With an intact manifest a commit succeeds and makes the next id live. -/
theorem commitTable_intact (db : DB) (t : Sst.Reader) (intact : Manifest.Intact db.manifest)
    (few : db.manifest.log.liveSet.card < Manifest.maxLive) :
    ∃ manifest, commitTable db t = .ok { db with
        nextSSTID := db.nextSSTID + 1
        nextFileID := db.nextFileID + 1
        sstables := db.sstables ++ [t]
        manifest := manifest } ∧ Manifest.Intact manifest ∧
      manifest.log.liveSet = insert (db.nextSSTID + 1) db.manifest.log.liveSet := by
  obtain ⟨appended, ok, intact, live⟩ := intact.appendNewFile db.manifest (db.nextSSTID + 1)
  have card : appended.log.liveSet.card ≤ Manifest.maxLive := by
    rw [live]
    exact le_trans (Finset.card_insert_le _ _) few
  obtain ⟨intact, same⟩ := intact.maybeCompact appended card
  refine ⟨(Manifest.maybeCompact appended .none).1, ?_, intact, same.trans live⟩
  simp only [commitTable, ok]

/-- An id above all live ones has no file yet. -/
theorem lookup_write_of_ne (ssts : SstFiles) (id other : UInt64) (file : Bytes)
    (ne : other ≠ id) : (ssts.write id file).lookup other = ssts.lookup other := by
  rw [SstFiles.write, List.lookup_cons, beq_false_of_ne ne]
  induction ssts with
  | nil => rfl
  | cons entry ssts ih =>
    obtain ⟨first, data⟩ := entry
    by_cases same : first = id
    · subst same
      rw [List.filter_cons_of_neg (by simp), List.lookup_cons, beq_false_of_ne ne]
      exact ih
    · rw [List.filter_cons_of_pos (by simpa using same), List.lookup_cons, List.lookup_cons]
      cases other == first with
      | true => rfl
      | false => exact ih

theorem toNat_next (id : UInt64) (room : id.toNat + 1 < 2 ^ 64) :
    (id + 1).toNat = id.toNat + 1 := by
  rw [UInt64.toNat_add]
  exact Nat.mod_eq_of_lt room

theorem lt_next (id next : UInt64) (below : id ≤ next) (room : next.toNat + 1 < 2 ^ 64) :
    id < next + 1 := by
  rw [UInt64.lt_iff_toNat_lt, toNat_next next room]
  rw [UInt64.le_iff_toNat_le] at below
  omega

end PebbleDB.Db
