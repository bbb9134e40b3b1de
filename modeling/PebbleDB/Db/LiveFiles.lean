import PebbleDB.Db.TableLife

/-!
# Every live table has its file

No id is ever drawn twice, so a file that is deleted or written over belongs to an id
that the manifest does not have: the file of a new id is complete before its record is
written, and an old one is deleted only after a record without it. This holds at every
point of every interleaving, so a crash anywhere finds the tables it needs.
-/
namespace PebbleDB.Db

open Memtable (SkipList)
open Sst (Reader)

namespace TableStore

/-! ### What a crash leaves -/

/-- `manifest.Open` succeeds on what is left, every id it replays has its complete table,
and `loadSSTables` opens them all. -/
def Recovers (dir : Manifest.Dir) (ssts finished : SstFiles) : Prop :=
  ∃ log dir', Manifest.openLog dir = .ok (log, dir') ∧
    (∀ id ∈ log.liveSet, Complete ssts finished id) ∧
    ∀ fileID, ∃ readers, loadSSTables ssts fileID log.liveIDs = .ok readers

/-- A crash before the step, inside its manifest call or after it. -/
structure CrashSafe (env : Env) (w : TableStore) (i : TableStep) : Prop where
  before : Recovers w.db.manifest.dir w.ssts w.finished
  inside : ∀ c, w.call i = some c →
    Crash.Survives Manifest.FileStep.run Manifest.FileStep.cut
      (fun dir => Recovers dir w.ssts w.finished) w.db.manifest.dir (c.steps w.db.manifest)
  after : Recovers (w.step env i).db.manifest.dir (w.step env i).ssts (w.step env i).finished

/-- As `Open` leaves it: the readers of the live tables, and nothing else going on. -/
structure Opened (w : TableStore) : Prop where
  flusher : w.flusher = .idle
  compactor : w.compactor = .idle
  intact : Manifest.Intact w.db.manifest
  live : w.live = (w.db.sstables.map Reader.id).toFinset
  distinct : (w.db.sstables.map Reader.id).Nodup
  present : ∀ r ∈ w.db.sstables, w.Present r.id ∧ w.Tracked r ∧ r.id ≤ w.db.nextSSTID
  handles : ∀ p h, w.handles p = some h → h.discardPending = false ∧ p ≤ w.db.nextFileID

/-- The id counter does not wrap around when an id is drawn, and the live set that a
rotation writes fits a record. -/
def Safe (w : TableStore) : TableStep → Prop
  | .flushBegin _ => w.db.nextSSTID.toNat + 1 < 2 ^ 64
  | .mergeBegin => w.db.nextSSTID.toNat + 1 < 2 ^ 64
  | .flushRotate => w.live.card ≤ Manifest.maxRecordIDs
  | .compactRotate => w.live.card ≤ Manifest.maxRecordIDs
  | _ => True

instance (w : TableStore) : (i : TableStep) → Decidable (w.Safe i)
  | .flushBegin _ | .mergeBegin => inferInstanceAs (Decidable (_ < _))
  | .flushRotate | .compactRotate => inferInstanceAs (Decidable (_ ≤ _))
  | .flushGrow _ | .flushClose _ | .flushRemove | .flushOpen | .flushCommit | .flushPublish
  | .pick | .mergeGrow _ | .mergeClose _ | .mergeRemove | .mergeOpen | .build | .setFileSet
  | .swap | .rollback | .discardBegin | .discardMark | .discardCheck | .ref _ | .unref _
  | .unrefCheck _ => .isTrue trivial

end TableStore

/-! ### Lists of tables -/

theorem buildNewList_replaces (sstables comp : List Reader) (new : Reader)
    (inside : comp ⊆ sstables) (distinct : (sstables.map Reader.id).Nodup) :
    Replaces sstables comp new (buildNewList sstables comp new) := by
  refine ⟨_, rfl, List.filter_sublist, ?_⟩
  intro r member c input same
  obtain ⟨listed, kept⟩ := List.mem_filter.mp member
  have eq : r = c := List.inj_on_of_nodup_map distinct listed (inside input) same
  simp only [Bool.not_eq_true', List.any_eq_false, decide_eq_true_eq] at kept
  exact kept c input (by rw [eq])

theorem buildNewList_distinct (sstables comp : List Reader) (new : Reader)
    (distinct : (sstables.map Reader.id).Nodup) (unlisted : new.id ∉ sstables.map Reader.id) :
    ((buildNewList sstables comp new).map Reader.id).Nodup := by
  have part : ((sstables.filter fun r => !comp.any fun c => c.fileID = r.fileID).map
      Reader.id).Sublist (sstables.map Reader.id) := List.filter_sublist.map _
  rw [buildNewList, List.map_append, List.nodup_append]
  refine ⟨part.nodup distinct, List.nodup_singleton _, ?_⟩
  rintro a old b last rfl
  rw [List.map_singleton, List.mem_singleton] at last
  exact unlisted (last ▸ part.subset old)

/-- A name with eight digits has a small id. -/
theorem sstIDFromPath_small (id id' : UInt64) (ok : sstIDFromPath (sstFileDigits id) = .ok id') :
    id.toNat < 10 ^ 8 := by
  rw [sstIDFromPath] at ok
  split at ok
  next eight => exact (sstFileDigits_eight_iff id).mp eight
  · cases ok

theorem liveIDsFromReaders_small (readers : List Reader) (ids : List UInt64)
    (ok : liveIDsFromReaders readers = .ok ids) : ∀ r ∈ readers, r.id.toNat < 10 ^ 8 := by
  induction readers generalizing ids with
  | nil => exact fun _ member => absurd member List.not_mem_nil
  | cons r readers ih =>
    obtain ⟨id, first, rest⟩ := (Except.bind_eq_ok _ _ _).mp ok
    obtain ⟨later, found, _⟩ := (Except.bind_eq_ok _ _ _).mp rest
    intro t member
    rcases List.mem_cons.mp member with rfl | behind
    · exact sstIDFromPath_small t.id id first
    · exact ih later found t behind

/-- Only so many tables have different names of eight digits. -/
theorem liveIDsFromReaders_few (readers : List Reader) (ids : List UInt64)
    (ok : liveIDsFromReaders readers = .ok ids) (distinct : (readers.map Reader.id).Nodup) :
    ids.length ≤ Manifest.maxRecordIDs := by
  have small := liveIDsFromReaders_small readers ids ok
  have nodup : (readers.map fun r => r.id.toNat).Nodup := by
    have := distinct.map (f := UInt64.toNat) fun a b same => UInt64.toNat_inj.mp same
    rwa [List.map_map] at this
  have inside : (readers.map fun r => r.id.toNat) ⊆ List.range (10 ^ 8) := by
    intro n member
    obtain ⟨r, listed, rfl⟩ := List.mem_map.mp member
    exact List.mem_range.mpr (small r listed)
  have bound := (nodup.subperm inside).length_le
  rw [List.length_map, List.length_range] at bound
  rw [liveIDsFromReaders_ok readers ids ok, List.length_map, Manifest.maxRecordIDs]
  omega

namespace TableStore

variable {phase : UInt64 → Phase} {w : TableStore}

theorem closeFile_live (w : TableStore) (p : Nat) : (w.closeFile p).live = w.live := by
  rw [closeFile]
  split
  · rfl
  · split
    · rfl
    · dsimp only
      split <;> rfl

theorem closeReader_live (w : TableStore) (p : Nat) : (w.closeReader p).live = w.live := by
  rw [closeReader]
  split
  · rfl
  · split
    · exact closeFile_live _ p
    · rfl

/-! ### The flusher's steps -/

theorem flushBegin_accounts (acc : Accounts phase w) (imm : SkipList)
    (room : w.db.nextSSTID.toNat + 1 < 2 ^ 64) :
    ∃ phase', Accounts phase' (w.flushBegin imm) := by
  rw [flushBegin]
  cases at_ : w.flusher with
  | idle =>
    refine ⟨_, acc.draw _ .flushing room (by decide) rfl rfl rfl rfl ?_⟩
    intro spares making
    exact ⟨making, acc.compactor.frame _ (fun r member => (acc.inList r member).1)
      (spares _ (by decide)) (spares _ (by decide)) (spares .retired (by decide)).kept
      (List.Sublist.refl _)⟩
  | writing | failed | closed | opened | committed | published => exact ⟨phase, acc⟩

theorem flushGrow_accounts (acc : Accounts phase w) (data : Bytes) :
    Accounts phase (w.flushGrow data) := by
  rw [flushGrow]
  cases at_ : w.flusher with
  | writing id imm => exact acc.restage _ rfl rfl rfl rfl acc.flusher acc.compactor
  | idle | failed | closed | opened | committed | published => exact acc

theorem flushClose_accounts (env : Env) (acc : Accounts phase w) (leftover : Option Bytes) :
    Accounts phase (w.flushClose env leftover) := by
  have own := acc.flusher
  rw [flushClose]
  cases at_ : w.flusher with
  | writing id imm =>
    rw [at_] at own
    have others : ∀ file other, other ≠ id →
        (w.ssts.write id file).lookup other = w.ssts.lookup other :=
      fun file other ne => lookup_write_of_ne w.ssts id other file ne
    dsimp only
    split
    next file written =>
      refine acc.flusherTouch _ id own rfl rfl (List.subset_cons_self _ _) (others file) rfl ?_
      exact ⟨own, file, lookup_write_self _ _ _, List.mem_cons_self⟩
    · cases leftover with
      | none => exact acc.restage _ rfl rfl rfl rfl own acc.compactor
      | some data =>
        exact acc.flusherTouch _ id own rfl rfl (List.Subset.refl _) (others data) rfl own
  | idle | failed | closed | opened | committed | published => exact acc

theorem flushRemove_accounts (acc : Accounts phase w) : Accounts phase w.flushRemove := by
  have own := acc.flusher
  rw [flushRemove]
  cases at_ : w.flusher with
  | failed id =>
    rw [at_] at own
    exact acc.flusherTouch _ id own rfl rfl (List.Subset.refl _)
      (fun other ne => lookup_remove_of_ne w.ssts id other ne) rfl trivial
  | idle | writing | closed | opened | committed | published => exact acc

theorem flushOpen_accounts (acc : Accounts phase w) : Accounts phase w.flushOpen := by
  have own := acc.flusher
  rw [flushOpen]
  cases at_ : w.flusher with
  | closed id =>
    rw [at_] at own
    cases opened : w.openTable id with
    | error e =>
      simp only [opened]
      exact acc.restage _ rfl rfl rfl rfl own.1 acc.compactor
    | ok r =>
      simp only [opened]
      obtain ⟨new, rfl, present⟩ := openTable_ok id r own.2 opened
      obtain ⟨registered, tracked⟩ := acc.register r new
      exact registered.restage _ rfl rfl rfl rfl ⟨own.1, present, tracked⟩ registered.compactor
  | idle | writing | failed | opened | committed | published => exact acc

theorem flushCommit_accounts (acc : Accounts phase w) : Accounts phase w.flushCommit := by
  have own := acc.flusher
  rw [flushCommit]
  cases at_ : w.flusher with
  | opened r =>
    rw [at_] at own
    obtain ⟨⟨inPhase, -⟩, present, tracked⟩ := own
    have isOpen := acc.intact.isOpen
    have grown := Manifest.Call.newFile_liveSet w.db.manifest r.id isOpen
    have intact := (Manifest.Call.newFile r.id).step_intact _ acc.intact trivial
    simp only [run_eq_step _ _ isOpen]
    have others : ∀ q, q ≠ .flushing → ∀ id, phase id = q →
        id ∈ ((Manifest.Call.newFile r.id).step w.db.manifest).log.liveSet → id ∈ w.live := by
      intro q other id inQ member
      rw [grown, Finset.mem_insert] at member
      rcases member with rfl | before
      · exact absurd (inQ.symm.trans inPhase) other
      · exact before
    refine acc.relive _ _ intact rfl rfl rfl rfl ?_ ?_ ?_
    · intro id member
      rw [grown, Finset.mem_insert] at member
      rcases member with rfl | before
      · exact ⟨by rw [inPhase]; decide, by rw [inPhase]; decide, present⟩
      · exact acc.live id before
    · exact ⟨inPhase, present, tracked⟩
    · exact acc.compactor.frame _ (fun r member => (acc.inList r member).1)
        (.relived _ (others _ (by decide)) rfl rfl rfl)
        (.relived _ (others _ (by decide)) rfl rfl rfl) (fun _ retired => retired)
        (List.Sublist.refl _)
  | idle | writing | failed | closed | committed | published => exact acc

/-- The table of the flusher enters the list. -/
theorem flushPublish_accounts (acc : Accounts phase w) :
    ∃ phase', Accounts phase' w.flushPublish := by
  have own := acc.flusher
  rw [flushPublish]
  cases at_ : w.flusher with
  | committed r =>
    rw [at_] at own
    obtain ⟨inPhase, present, tracked⟩ := own
    refine ⟨_, acc.relist _ .flushing w.db.sstables [] r (by decide) inPhase present tracked (by simp)
      (List.Sublist.refl _) (by simp) (by simp) rfl rfl rfl rfl fun spares => ⟨trivial, ?_⟩⟩
    exact acc.compactor.frame _ (fun r member => (acc.inList r member).1)
      (spares _ (by decide) (.inl rfl)) (spares _ (by decide) (.inl rfl))
      (spares .retired (by decide) (.inl rfl)).kept (List.sublist_append_left _ _)
  | idle | writing | failed | closed | opened | published => exact ⟨phase, acc⟩

theorem flushRotate_accounts (acc : Accounts phase w)
    (few : w.live.card ≤ Manifest.maxRecordIDs) : Accounts phase w.flushRotate := by
  rw [flushRotate]
  cases at_ : w.flusher with
  | published => exact acc.rotate _ few rfl rfl rfl rfl trivial acc.compactor
  | idle | writing | failed | closed | opened | committed => exact acc

/-! ### The compactor's steps -/

theorem pick_accounts (acc : Accounts phase w) : Accounts phase w.pick := by
  rw [pick]
  cases at_ : w.compactor with
  | idle =>
    dsimp only
    split
    · exact acc
    · split
      · exact acc
      · split
        · refine acc.restage _ rfl rfl rfl rfl acc.flusher ?_
          exact pick_subset w.db
        · exact acc
  | picked | writing | failed | closed | merged | built | manifested | vanished | swapped
  | discarding | closing | marked => exact acc

theorem mergeBegin_accounts (acc : Accounts phase w) (room : w.db.nextSSTID.toNat + 1 < 2 ^ 64) :
    ∃ phase', Accounts phase' w.mergeBegin := by
  have own := acc.compactor
  rw [mergeBegin]
  cases at_ : w.compactor with
  | picked comp old =>
    rw [at_] at own
    dsimp only
    split
    · exact ⟨phase, acc.restage _ rfl rfl rfl rfl acc.flusher trivial⟩
    · refine ⟨_, acc.draw _ .merging room (by decide) rfl rfl rfl rfl ?_⟩
      intro spares making
      exact ⟨acc.flusher.frame _ (spares _ (by decide)), own, making⟩
  | idle | writing | failed | closed | merged | built | manifested | vanished | swapped
  | discarding | closing | marked => exact ⟨phase, acc⟩

theorem mergeGrow_accounts (acc : Accounts phase w) (data : Bytes) :
    Accounts phase (w.mergeGrow data) := by
  rw [mergeGrow]
  cases at_ : w.compactor with
  | writing comp old id n => exact acc.restage _ rfl rfl rfl rfl acc.flusher acc.compactor
  | idle | picked | failed | closed | merged | built | manifested | vanished | swapped
  | discarding | closing | marked => exact acc

theorem mergeClose_accounts (env : Env) (acc : Accounts phase w) (leftover : Option Bytes) :
    Accounts phase (w.mergeClose env leftover) := by
  have own := acc.compactor
  rw [mergeClose]
  cases at_ : w.compactor with
  | writing comp old id n =>
    rw [at_] at own
    obtain ⟨inside, making⟩ := own
    have others : ∀ file other, other ≠ id →
        (w.ssts.write id file).lookup other = w.ssts.lookup other :=
      fun file other ne => lookup_write_of_ne w.ssts id other file ne
    dsimp only
    split
    next file written =>
      refine acc.compactorTouch _ id making rfl rfl (List.subset_cons_self _ _) (others file) rfl ?_
      exact ⟨inside, making, file, lookup_write_self _ _ _, List.mem_cons_self⟩
    · cases leftover with
      | none => exact acc.restage _ rfl rfl rfl rfl acc.flusher making
      | some data =>
        exact acc.compactorTouch _ id making rfl rfl (List.Subset.refl _) (others data) rfl making
  | idle | picked | failed | closed | merged | built | manifested | vanished | swapped
  | discarding | closing | marked => exact acc

theorem mergeRemove_accounts (acc : Accounts phase w) : Accounts phase w.mergeRemove := by
  have own := acc.compactor
  rw [mergeRemove]
  cases at_ : w.compactor with
  | failed id =>
    rw [at_] at own
    exact acc.compactorTouch _ id own rfl rfl (List.Subset.refl _)
      (fun other ne => lookup_remove_of_ne w.ssts id other ne) rfl trivial
  | idle | picked | writing | closed | merged | built | manifested | vanished | swapped
  | discarding | closing | marked => exact acc

theorem mergeOpen_accounts (acc : Accounts phase w) : Accounts phase w.mergeOpen := by
  have own := acc.compactor
  rw [mergeOpen]
  cases at_ : w.compactor with
  | closed comp old id =>
    rw [at_] at own
    obtain ⟨inside, making, complete⟩ := own
    cases opened : w.openTable id with
    | error e =>
      simp only [opened]
      exact acc.restage _ rfl rfl rfl rfl acc.flusher making
    | ok r =>
      simp only [opened]
      obtain ⟨new, rfl, present⟩ := openTable_ok id r complete opened
      obtain ⟨registered, tracked⟩ := acc.register r new
      exact registered.restage _ rfl rfl rfl rfl registered.flusher
        ⟨inside, making, present, tracked⟩
  | idle | picked | writing | failed | merged | built | manifested | vanished | swapped
  | discarding | closing | marked => exact acc

/-- Giving up a merged table closes its reader; nothing is marked for deletion. -/
theorem Accounts.giveUp (acc : Accounts phase w) (new : Reader)
    (making : w.Making phase .merging new.id) :
    Accounts phase { w.closeReader new.fileID with compactor := .failed new.id } := by
  have closed := acc.closeReader new.fileID
  refine closed.restage _ rfl rfl rfl rfl closed.flusher ?_
  exact ⟨making.1, by rw [closeReader_live]; exact making.2⟩

theorem build_accounts (acc : Accounts phase w) : Accounts phase w.build := by
  have own := acc.compactor
  rw [build]
  cases at_ : w.compactor with
  | merged comp old new =>
    rw [at_] at own
    obtain ⟨inside, making, present, tracked⟩ := own
    have unlisted : new.id ∉ w.db.sstables.map Reader.id := by
      intro listed
      obtain ⟨r, member, same⟩ := List.mem_map.mp listed
      have := (acc.inList r member).1
      rw [same, making.1] at this
      cases this
    dsimp only
    split
    · cases named : liveIDsFromReaders (buildNewList w.db.sstables comp new) with
      | error e => exact acc.giveUp new making
      | ok ids =>
        refine acc.restage _ rfl rfl rfl rfl acc.flusher ?_
        refine ⟨inside, making, present, tracked, buildNewList_replaces _ _ _ inside acc.distinct,
          liveIDsFromReaders_ok _ _ named, ?_⟩
        exact liveIDsFromReaders_few _ _ named
          (buildNewList_distinct _ _ _ acc.distinct unlisted)
    · exact acc.giveUp new making
  | idle | picked | writing | failed | closed | built | manifested | vanished | swapped
  | discarding | closing | marked => exact acc

/-- The new file set has only tables that are present, and none of the inputs. -/
theorem setFileSet_accounts (acc : Accounts phase w) : Accounts phase w.setFileSet := by
  have own := acc.compactor
  rw [setFileSet]
  cases at_ : w.compactor with
  | built comp old new list ids =>
    rw [at_] at own
    obtain ⟨inside, making, present, tracked, replaces, rfl, few⟩ := own
    have isOpen := acc.intact.isOpen
    have replaced := Manifest.Call.setFileSet_liveSet w.db.manifest (list.map Reader.id) isOpen
    have intact := (Manifest.Call.setFileSet (list.map Reader.id)).step_intact _ acc.intact few
    obtain ⟨kept, rfl, part, apart⟩ := replaces
    have members : ∀ id ∈ ((Manifest.Call.setFileSet ((kept ++ [new]).map Reader.id)).step
        w.db.manifest).log.liveSet,
        (∃ r ∈ kept, r.id = id) ∧ phase id = .listed ∨ id = new.id := by
      intro id member
      rw [replaced, List.mem_toFinset, List.map_append, List.mem_append] at member
      rcases member with old | last
      · obtain ⟨r, inKept, same⟩ := List.mem_map.mp old
        exact .inl ⟨⟨r, inKept, same⟩, same ▸ (acc.inList r (part.subset inKept)).1⟩
      · rw [List.map_singleton, List.mem_singleton] at last
        exact .inr last
    simp only [run_eq_step _ _ isOpen]
    refine acc.relive _ _ intact rfl rfl rfl rfl ?_ ?_ ?_
    · intro id member
      rcases members id member with ⟨-, listed⟩ | rfl
      · exact ⟨by rw [listed]; decide, by rw [listed]; decide, acc.listed id listed⟩
      · exact ⟨by rw [making.1]; decide, by rw [making.1]; decide, present⟩
    · refine FlushStage.Holds.frame (w := w) w.flusher (.relived _ ?_ rfl rfl rfl) acc.flusher
      intro id flushing member
      rcases members id member with ⟨-, listed⟩ | rfl
      · cases flushing.symm.trans listed
      · cases flushing.symm.trans making.1
    · refine ⟨inside, making.1, present, tracked, ⟨kept, rfl, part, apart⟩, ?_⟩
      intro c input member
      have listed := (acc.inList c (inside input)).1
      rcases members c.id member with ⟨⟨r, inKept, same⟩, -⟩ | last
      · exact apart r inKept c input same
      · rw [last, making.1] at listed
        cases listed
  | idle | picked | writing | failed | closed | merged | manifested | vanished | swapped
  | discarding | closing | marked => exact acc

/-- The list is replaced: the merged table is listed, its inputs are retired. -/
theorem swap_accounts (acc : Accounts phase w) : ∃ phase', Accounts phase' w.swap := by
  have own := acc.compactor
  rw [swap]
  cases at_ : w.compactor with
  | manifested comp old new list =>
    rw [at_] at own
    obtain ⟨inside, inPhase, present, tracked, ⟨kept, rfl, part, apart⟩, gone⟩ := own
    have still := readersStillPresent_of_subset w.db.sstables comp inside
    simp only [still, if_true]
    refine ⟨_, acc.relist _ .merging kept comp new (by decide) inPhase present tracked inside part
      apart gone rfl rfl rfl rfl fun spares => ⟨?_, ?_⟩⟩
    · exact acc.flusher.frame _ (spares _ (by decide) (.inr (by decide)))
    · intro c input
      exact ⟨if_pos (List.mem_map_of_mem input), (acc.inList c (inside input)).2⟩
  | idle | picked | writing | failed | closed | merged | built | vanished | swapped
  | discarding | closing | marked => exact ⟨phase, acc⟩

/-- No input ever vanishes, so nothing is rolled back. -/
theorem rollback_accounts (acc : Accounts phase w) : Accounts phase w.rollback := by
  have own := acc.compactor
  rw [rollback]
  cases at_ : w.compactor with
  | vanished old new =>
    rw [at_] at own
    exact own.elim
  | idle | picked | writing | failed | closed | merged | built | manifested | swapped
  | discarding | closing | marked => exact acc

theorem compactRotate_accounts (acc : Accounts phase w)
    (few : w.live.card ≤ Manifest.maxRecordIDs) : Accounts phase w.compactRotate := by
  have own := acc.compactor
  rw [compactRotate]
  cases at_ : w.compactor with
  | swapped comp =>
    rw [at_] at own
    exact acc.rotate _ few rfl rfl rfl rfl acc.flusher own
  | idle | picked | writing | failed | closed | merged | built | manifested | vanished
  | discarding | closing | marked => exact acc

/-! ### `Discard` and `Unref` -/

theorem discardBegin_accounts (acc : Accounts phase w) : Accounts phase w.discardBegin := by
  have own := acc.compactor
  rw [discardBegin.eq_def]
  cases at_ : w.compactor with
  | discarding todo =>
    rw [at_] at own
    cases todo with
    | nil => exact acc.restage _ rfl rfl rfl rfl acc.flusher trivial
    | cons r todo =>
      have marked := acc.modify r.fileID (fun h => { h with closePending := true }) (fun _ => rfl)
        (fun h open_ pending => acc.discards _ h open_ pending)
      refine marked.restage _ rfl rfl rfl rfl marked.flusher ?_
      exact Retiring.frame (r :: todo) (fun _ retired => retired)
        (modify_keepsPaths _ _ _ fun _ => rfl) own
  | idle | picked | writing | failed | closed | merged | built | manifested | vanished | swapped
  | closing | marked => exact acc

/-- The reader that is marked is one of a retired table. -/
theorem discardMark_accounts (acc : Accounts phase w) : Accounts phase w.discardMark := by
  have own := acc.compactor
  rw [discardMark]
  cases at_ : w.compactor with
  | closing r todo =>
    rw [at_] at own
    obtain ⟨retired, h, open_, path⟩ := own r List.mem_cons_self
    have marked := acc.modify r.fileID (fun h => { h with discardPending := true }) (fun _ => rfl)
      (fun h' open' _ => by
        rw [open_, Option.some.injEq] at open'
        rw [← open', path]
        exact retired)
    refine marked.restage _ rfl rfl rfl rfl marked.flusher ?_
    exact Retiring.frame (r :: todo) (fun _ retired => retired)
      (modify_keepsPaths _ _ _ fun _ => rfl) own
  | idle | picked | writing | failed | closed | merged | built | manifested | vanished | swapped
  | discarding | marked => exact acc

theorem discardCheck_accounts (acc : Accounts phase w) : Accounts phase w.discardCheck := by
  have own := acc.compactor
  rw [discardCheck]
  cases at_ : w.compactor with
  | marked r todo =>
    rw [at_] at own
    have next : Accounts phase { w with compactor := .discarding todo } :=
      acc.restage _ rfl rfl rfl rfl acc.flusher fun t member =>
        own t (List.mem_cons_of_mem _ member)
    dsimp only
    split
    · exact next
    · split
      · exact next.closeFile _
      · exact next
  | idle | picked | writing | failed | closed | merged | built | manifested | vanished | swapped
  | discarding | closing => exact acc

theorem ref_accounts (acc : Accounts phase w) (p : Nat) : Accounts phase (w.ref p) := by
  rw [ref]
  split
  · exact acc.modify p _ (fun _ => rfl) fun h open_ pending => acc.discards p h open_ pending
  · exact acc

theorem unref_accounts (acc : Accounts phase w) (p : Nat) : Accounts phase (w.unref p) := by
  rw [unref]
  split
  · exact acc
  · have lowered := acc.modify p (fun h => { h with refs := h.refs - 1 }) (fun _ => rfl)
      fun h open_ pending => acc.discards p h open_ pending
    exact lowered.restage _ rfl rfl rfl rfl lowered.flusher lowered.compactor

theorem unrefCheck_accounts (acc : Accounts phase w) (p : Nat) :
    Accounts phase (w.unrefCheck p) := by
  rw [unrefCheck]
  split
  · have next : Accounts phase { w with zeroed := w.zeroed.erase p } :=
      acc.restage _ rfl rfl rfl rfl acc.flusher acc.compactor
    dsimp only
    split
    · exact next
    · split
      · exact next.closeFile p
      · exact next
  · exact acc

/-! ### Runs -/

theorem step_accounts (env : Env) (w : TableStore) (i : TableStep)
    (inv : ∃ phase, Accounts phase w) (safe : w.Safe i) :
    ∃ phase, Accounts phase (w.step env i) := by
  obtain ⟨phase, acc⟩ := inv
  cases i with
  | flushBegin imm => exact flushBegin_accounts acc imm safe
  | flushGrow data => exact ⟨phase, flushGrow_accounts acc data⟩
  | flushClose leftover => exact ⟨phase, flushClose_accounts env acc leftover⟩
  | flushRemove => exact ⟨phase, flushRemove_accounts acc⟩
  | flushOpen => exact ⟨phase, flushOpen_accounts acc⟩
  | flushCommit => exact ⟨phase, flushCommit_accounts acc⟩
  | flushPublish => exact flushPublish_accounts acc
  | flushRotate => exact ⟨phase, flushRotate_accounts acc safe⟩
  | pick => exact ⟨phase, pick_accounts acc⟩
  | mergeBegin => exact mergeBegin_accounts acc safe
  | mergeGrow data => exact ⟨phase, mergeGrow_accounts acc data⟩
  | mergeClose leftover => exact ⟨phase, mergeClose_accounts env acc leftover⟩
  | mergeRemove => exact ⟨phase, mergeRemove_accounts acc⟩
  | mergeOpen => exact ⟨phase, mergeOpen_accounts acc⟩
  | build => exact ⟨phase, build_accounts acc⟩
  | setFileSet => exact ⟨phase, setFileSet_accounts acc⟩
  | swap => exact swap_accounts acc
  | rollback => exact ⟨phase, rollback_accounts acc⟩
  | compactRotate => exact ⟨phase, compactRotate_accounts acc safe⟩
  | discardBegin => exact ⟨phase, discardBegin_accounts acc⟩
  | discardMark => exact ⟨phase, discardMark_accounts acc⟩
  | discardCheck => exact ⟨phase, discardCheck_accounts acc⟩
  | ref p => exact ⟨phase, ref_accounts acc p⟩
  | unref p => exact ⟨phase, unref_accounts acc p⟩
  | unrefCheck p => exact ⟨phase, unrefCheck_accounts acc p⟩

/-- At the start every id up to the counter is listed or was given up long ago. -/
theorem Opened.accounts (opened : w.Opened) : ∃ phase, Accounts phase w := by
  refine ⟨fun id => if id ∈ w.db.sstables.map Reader.id then .listed
    else if w.db.nextSSTID < id then .unused else .retired, ?_⟩
  have listed : ∀ r ∈ w.db.sstables, r.id ∈ w.db.sstables.map Reader.id :=
    fun r member => List.mem_map_of_mem member
  constructor
  · exact opened.intact
  · intro id member
    rw [opened.live, List.mem_toFinset] at member
    rw [if_pos member]
    obtain ⟨r, inList, rfl⟩ := List.mem_map.mp member
    exact ⟨by decide, by decide, (opened.present r inList).1⟩
  · intro id inPhase
    split at inPhase
    next member =>
      obtain ⟨r, inList, rfl⟩ := List.mem_map.mp member
      exact (opened.present r inList).1
    · split at inPhase <;> cases inPhase
  · exact fun r member => ⟨if_pos (listed r member), (opened.present r member).2.1⟩
  · exact opened.distinct
  · intro p h open_ pending
    rw [(opened.handles p h open_).1] at pending
    cases pending
  · intro id above
    rw [if_neg, if_pos above]
    intro member
    obtain ⟨r, inList, rfl⟩ := List.mem_map.mp member
    exact absurd above (UInt64.not_lt.mpr (opened.present r inList).2.2)
  · intro p above
    cases open_ : w.handles p with
    | none => rfl
    | some h => exact absurd (opened.handles p h open_).2 (by omega)
  · rw [opened.flusher]
    trivial
  · rw [opened.compactor]
    trivial

theorem recovers_of_present (w : TableStore) (dir : Manifest.Dir) (live : Finset UInt64)
    (reopens : Manifest.Reopens dir live) (present : ∀ id ∈ live, w.Present id) :
    Recovers dir w.ssts w.finished := by
  obtain ⟨log, dir', opened, rfl, -⟩ := reopens
  refine ⟨log, dir', opened, ?_, ?_⟩
  · intro id member
    obtain ⟨file, r, found, done, -⟩ := present id member
    exact ⟨file, found, done⟩
  · intro fileID
    exact loadSSTables_present w fileID log.liveIDs fun id member =>
      present id ((log.mem_liveIDs id).mp member)

theorem Accounts.recovers (acc : Accounts phase w) :
    Recovers w.db.manifest.dir w.ssts w.finished :=
  recovers_of_present w _ w.live
    (Manifest.Dir.Holds.reopens _ _ ⟨_, acc.intact.current, acc.intact.replays⟩)
    fun id member => (acc.live id member).2.2

/-- The steps that call the manifest, each with the stage it is taken from. The rollback is
not among them: the inputs of a merge never leave the list before the swap. -/
inductive Makes (w : TableStore) : TableStep → Manifest.Call → Prop where
  | flushCommit (r : Reader) (at_ : w.flusher = .opened r) : Makes w .flushCommit (.newFile r.id)
  | flushRotate (at_ : w.flusher = .published) : Makes w .flushRotate .maybeCompact
  | setFileSet (comp : List Reader) (old : List UInt64) (new : Reader) (list : List Reader)
      (ids : List UInt64) (at_ : w.compactor = .built comp old new list ids) :
      Makes w .setFileSet (.setFileSet ids)
  | compactRotate (comp : List Reader) (at_ : w.compactor = .swapped comp) :
      Makes w .compactRotate .maybeCompact

theorem Accounts.makes (acc : Accounts phase w) (i : TableStep) (c : Manifest.Call)
    (calls : w.call i = some c) : w.Makes i c := by
  have own := acc.compactor
  cases i with
  | flushCommit =>
    simp only [call] at calls
    split at calls
    next r at_ =>
      cases calls
      exact .flushCommit r at_
    · cases calls
  | flushRotate =>
    simp only [call] at calls
    split at calls
    next at_ =>
      cases calls
      exact .flushRotate at_
    · cases calls
  | setFileSet =>
    simp only [call] at calls
    split at calls
    next comp old new list ids at_ =>
      cases calls
      exact .setFileSet comp old new list ids at_
    · cases calls
  | compactRotate =>
    simp only [call] at calls
    split at calls
    next comp at_ =>
      cases calls
      exact .compactRotate comp at_
    · cases calls
  | rollback =>
    simp only [call] at calls
    split at calls
    next at_ =>
      rw [at_] at own
      exact own.elim
    · cases calls
  | flushBegin | flushGrow | flushClose | flushRemove | flushOpen | flushPublish | pick | mergeBegin
  | mergeGrow | mergeClose | mergeRemove | mergeOpen | build | swap | discardBegin | discardMark
  | discardCheck | ref | unref | unrefCheck => cases calls

theorem Accounts.call_safe (acc : Accounts phase w) (i : TableStep) (c : Manifest.Call)
    (safe : w.Safe i) (calls : w.call i = some c) : c.Safe w.db.manifest := by
  cases acc.makes i c calls with
  | flushCommit => trivial
  | flushRotate | compactRotate => exact safe
  | setFileSet comp old new list ids at_ =>
    have own := acc.compactor
    rw [at_] at own
    exact own.2.2.2.2.2.2

/-- A step with a manifest call changes no table file, and the manifest as the call does. -/
theorem Accounts.call_step (env : Env) (acc : Accounts phase w) (i : TableStep)
    (c : Manifest.Call) (calls : w.call i = some c) :
    (w.step env i).db.manifest = (c.run w.db.manifest).1 ∧ (w.step env i).ssts = w.ssts ∧
      (w.step env i).finished = w.finished := by
  have isOpen := acc.intact.isOpen
  cases acc.makes i c calls with
  | flushCommit r at_ => simp [step, flushCommit, at_, run_eq_step _ _ isOpen]
  | flushRotate at_ => simp [step, flushRotate, at_, Manifest.Call.step]
  | setFileSet comp old new list ids at_ => simp [step, setFileSet, at_, run_eq_step _ _ isOpen]
  | compactRotate comp at_ => simp [step, compactRotate, at_, Manifest.Call.step]

theorem Accounts.crashSafe (env : Env) (acc : Accounts phase w) (i : TableStep) (safe : w.Safe i) :
    w.CrashSafe env i := by
  obtain ⟨phase', next⟩ := step_accounts env w i ⟨phase, acc⟩ safe
  refine ⟨acc.recovers, ?_, next.recovers⟩
  intro c calls
  obtain ⟨manifest, ssts, finished⟩ := acc.call_step env i c calls
  have before : ∀ id ∈ w.live, w.Present id := fun id member => (acc.live id member).2.2
  have after : ∀ id ∈ (c.run w.db.manifest).1.log.liveSet, w.Present id := by
    intro id member
    rw [← manifest] at member
    exact (next.live id member).2.2.frame id (by rw [ssts]) (by rw [finished]; exact List.Subset.refl _)
  -- the call is cut off: the manifest has the ids of before or those of after it
  refine (c.crashConsistent _ acc.intact (acc.call_safe i c safe calls)).imp ?_
  rintro dir ⟨old | new, -⟩
  · exact recovers_of_present w dir _ old before
  · exact recovers_of_present w dir _ new after

/-- In every interleaving of flush, compaction, discards and readers, wherever the crash
comes, every table that the manifest replays is complete, as long as no id is drawn twice
and the manifest's snapshots fit a record. -/
theorem crashSafe_of_safe (env : Env) (w : TableStore) (steps : List TableStep) (last : TableStep)
    (opened : w.Opened) (safe : Machine.Always (step env) Safe w (steps ++ [last])) :
    (Machine.run (step env) w steps).CrashSafe env last := by
  rw [Machine.always_append] at safe
  obtain ⟨before, atLast, -⟩ := safe
  obtain ⟨phase, acc⟩ := Machine.run_invariant (step env) Safe (fun w => ∃ phase, Accounts phase w)
    (step_accounts env) w steps opened.accounts before
  exact acc.crashSafe env last atLast

/-- A store just created that compacts two tables. -/
def fresh : TableStore where
  db := { emptyDB with compactThreshold := 2 }
  tmps := []
  ssts := []
  finished := []
  handles := fun _ => none
  zeroed := []
  flusher := .idle
  compactor := .idle

theorem emptyDB_intact : Manifest.Intact emptyDB.manifest :=
  ⟨rfl, rfl, Manifest.replays_nil, Manifest.wholeRecords_nil⟩

theorem fresh_opened : fresh.Opened :=
  ⟨rfl, rfl, emptyDB_intact, rfl, List.nodup_nil, fun _ member => absurd member List.not_mem_nil,
    nofun⟩

def flush (key : Bytes) : List TableStep :=
  [.flushBegin (SkipList.new.put key [1] fun _ => false), .flushGrow [0], .flushClose none,
    .flushOpen, .flushCommit, .flushPublish, .flushRotate]

/-- A reader is in use while its table is merged away; the `Unref` that releases it
deletes the file. -/
theorem crashSafe_deferred_delete :
    let w := Machine.run (step smallEnv) fresh (flush [97] ++ flush [98] ++ [.ref 1, .pick,
      .mergeBegin, .mergeClose none, .mergeOpen, .build, .setFileSet, .swap, .compactRotate,
      .discardBegin, .discardMark, .discardCheck, .discardBegin, .discardMark, .discardCheck,
      .unref 1])
    w.CrashSafe smallEnv (.unrefCheck 1) ∧ w.ssts.map Prod.fst = [3, 1] ∧
      (w.step smallEnv (.unrefCheck 1)).ssts.map Prod.fst = [3] :=
  ⟨crashSafe_of_safe smallEnv fresh _ (.unrefCheck 1) fresh_opened (by decide +kernel),
    by decide +kernel, by decide +kernel⟩

/-! ### When the counter wraps around -/

/-- A flush that its writer refuses; `Close` may still rename an incomplete table. -/
def refused (imm : SkipList) (leftover : Option Bytes) : List TableStep :=
  [.flushBegin imm, .flushClose leftover, .flushRemove]

/-- It removes the file of the id it has drawn. -/
theorem refused_flush (env : Env) (w : TableStore) (imm : SkipList) (e : Sst.Error)
    (leftover : Option Bytes) (idle : w.flusher = .idle)
    (refused : Sst.writeTable env.sizing defaultBlockSize imm.len imm.entries = .error e) :
    let w' := Machine.run (step env) w (TableStore.refused imm leftover)
    w'.flusher = .idle ∧ w'.db.nextSSTID = w.db.nextSSTID + 1 ∧
      w'.db.manifest = w.db.manifest ∧ w'.ssts.lookup (w.db.nextSSTID + 1) = none := by
  have begun : w.step env (.flushBegin imm) = { w.setTmp (w.db.nextSSTID + 1) [] with
      db.nextSSTID := w.db.nextSSTID + 1, flusher := .writing (w.db.nextSSTID + 1) imm } := by
    rw [step, flushBegin, idle]
  have closed : ∀ (w : TableStore) id, w.flusher = .writing id imm →
      (w.step env (.flushClose leftover)).step env .flushRemove =
        { (w.abandonTmp id leftover).removeTable id with flusher := .idle } := by
    intro w id at_
    simp only [step, flushClose, at_, refused, flushRemove]
    rfl
  have kept : ∀ (w : TableStore) id, (w.abandonTmp id leftover).db.nextSSTID = w.db.nextSSTID ∧
      (w.abandonTmp id leftover).db.manifest = w.db.manifest := by
    intro w id
    cases leftover with
    | none => exact ⟨rfl, rfl⟩
    | some data => exact ⟨rfl, rfl⟩
  simp only [TableStore.refused, Machine.run_cons, Machine.run_nil, begun]
  rw [closed _ _ rfl]
  refine ⟨rfl, (kept _ _).1, (kept _ _).2, ?_⟩
  exact lookup_remove_self _ _

/-- A value of 2^32 bytes is too long for a block. -/
theorem writeTable_refused (sizing : Sst.Sizing) (n : Nat) (key value : Bytes)
    (long : 2 ^ 32 ≤ value.length) :
    Sst.writeTable sizing defaultBlockSize n [⟨key, value, false⟩] = .error .keyTooLarge := by
  have append : Sst.appendEntry [] ⟨key, value, false⟩ = .error .keyTooLarge :=
    if_pos (.inr long)
  simp [Sst.writeTable, Sst.newWriter, defaultBlockSize, Sst.Writer.addAll, Sst.Writer.add,
    Sst.Writer.makeRoom, append]

/-- The highest id. -/
def maxID : UInt64 := 18446744073709551615

/-- Tables 1 and `maxID` are live, so the next ids are 0 and 1. -/
def lastID : TableStore :=
  let first := tableOf 1 [⟨[97], [1], false⟩]
  let last := { tableOf 2 [⟨[98], [1], false⟩] with id := maxID }
  { fresh with
    db := { emptyDB with
      sstables := [first, last]
      manifest := (Manifest.Call.setFileSet [1, maxID]).step emptyDB.manifest
      nextSSTID := maxID
      nextFileID := 2 }
    ssts := [(1, first.file), (maxID, last.file)]
    finished := [(1, first.file), (maxID, last.file)]
    handles := fun p =>
      if p = 1 then some (Handle.new 1) else if p = 2 then some (Handle.new maxID) else none }

theorem tableOf_opens (fileID : Nat) (id : UInt64) (es : List Entry) (nonempty : es ≠ [])
    (fits : ∀ e ∈ es, e.Fits)
    (small : (tableOf fileID es).file.length ≤ Sst.maxInt ∧ 8 * es.length + 8 < 2 ^ 32) :
    ∃ r, Sst.openReader 0 id (tableOf fileID es).file = .ok r :=
  ⟨_, Sst.openReader_tableFile [es] _ (by simpa using nonempty) (by simpa using fits) small.1
    (Sst.filterOf_sized es _ (Sst.Filter.new_sized _ 7 (by omega) (by omega))) 0 id⟩

theorem lastID_intact : Manifest.Intact lastID.db.manifest :=
  (Manifest.Call.setFileSet [1, maxID]).step_intact _ emptyDB_intact
    (by decide : 2 ≤ Manifest.maxRecordIDs)

theorem lastID_live : lastID.live = {1, maxID} :=
  Manifest.Call.setFileSet_liveSet emptyDB.manifest [1, maxID] rfl

theorem lastID_opened : lastID.Opened where
  flusher := rfl
  compactor := rfl
  intact := lastID_intact
  live := by
    rw [lastID_live]
    decide
  distinct := by decide
  present := by
    intro r member
    simp only [lastID, List.mem_cons, List.not_mem_nil, or_false] at member
    rcases member with rfl | rfl
    · obtain ⟨r, opens⟩ := tableOf_opens 1 1 [⟨[97], [1], false⟩] (by decide) (by decide)
        (by decide +kernel)
      exact ⟨⟨_, r, rfl, List.mem_cons_self, opens⟩, ⟨Handle.new 1, rfl, rfl⟩, by decide⟩
    · obtain ⟨r, opens⟩ := tableOf_opens 2 maxID [⟨[98], [1], false⟩] (by decide) (by decide)
        (by decide +kernel)
      exact ⟨⟨_, r, rfl, List.mem_cons_of_mem _ List.mem_cons_self, opens⟩,
        ⟨Handle.new maxID, rfl, rfl⟩, by decide⟩
  handles := by
    intro p h open_
    simp only [lastID] at open_
    split at open_
    next first =>
      cases open_
      exact ⟨rfl, by rw [first]; decide⟩
    · split at open_
      next second =>
        cases open_
        exact ⟨rfl, by rw [second]; decide⟩
      · cases open_

/-- A memtable with a value of 2^32 bytes. -/
def bigTable : SkipList := SkipList.new.put [97] (List.replicate (2 ^ 32) 0) fun _ => false

theorem bigTable_refused (env : Env) :
    Sst.writeTable env.sizing defaultBlockSize bigTable.len bigTable.entries =
      .error .keyTooLarge := by
  have entries : bigTable.entries = [⟨[97], List.replicate (2 ^ 32) 0, false⟩] := by
    rw [SkipList.entries, bigTable, SkipList.toMap_put, SkipList.toMap_new]
    rfl
  rw [entries]
  exact writeTable_refused env.sizing _ _ _ (by rw [List.length_replicate])

theorem refused_flush_twice (env : Env) (w : TableStore) (imm : SkipList) (e : Sst.Error)
    (leftover : Option Bytes) (idle : w.flusher = .idle)
    (refuses : Sst.writeTable env.sizing defaultBlockSize imm.len imm.entries = .error e) :
    let w' := Machine.run (step env) w (refused imm leftover ++ refused imm leftover)
    w'.db.manifest = w.db.manifest ∧ w'.ssts.lookup (w.db.nextSSTID + 1 + 1) = none := by
  have first := refused_flush env w imm e leftover idle refuses
  rw [Machine.run_append]
  generalize Machine.run (step env) w (refused imm leftover) = once at first ⊢
  obtain ⟨idle', next, manifest, -⟩ := first
  obtain ⟨-, -, manifest', gone⟩ := refused_flush env once imm e leftover idle' refuses
  rw [next] at gone
  exact ⟨manifest'.trans manifest, gone⟩

/-- The flusher tries the memtable twice. The second attempt has drawn the id of a live
table: whatever its writer renames over the file, the file is then removed. -/
theorem not_crashSafe_wrapped_id :
    lastID.Opened ∧ ∀ leftover, ¬(Machine.run (step smallEnv) lastID
      (refused bigTable leftover ++ refused bigTable leftover)).CrashSafe smallEnv .pick := by
  refine ⟨lastID_opened, ?_⟩
  intro leftover safe
  have twice := refused_flush_twice smallEnv lastID bigTable _ leftover rfl
    (bigTable_refused smallEnv)
  have before := safe.before
  generalize Machine.run (step smallEnv) lastID
    (refused bigTable leftover ++ refused bigTable leftover) = w at twice before
  obtain ⟨manifest, gone⟩ := twice
  obtain ⟨log, dir, opened, complete, -⟩ := before
  rw [manifest] at opened
  obtain ⟨log', dir', opened', -, live⟩ := lastID_intact.openLog
  rw [opened, Except.ok.injEq, Prod.mk.injEq] at opened'
  have isLive : 1 ∈ log.liveSet := by
    rw [opened'.1, live, ← TableStore.live, lastID_live]
    exact Finset.mem_insert_self 1 _
  obtain ⟨file, found, -⟩ := complete 1 isLive
  -- the two attempts drew 0 and 1
  have drawn : lastID.db.nextSSTID + 1 + 1 = 1 := by decide
  rw [drawn] at gone
  cases gone.symm.trans found

end TableStore

end PebbleDB.Db
