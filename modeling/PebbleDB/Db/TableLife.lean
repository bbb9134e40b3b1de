import PebbleDB.Db.Node
import PebbleDB.Db.TableSteps

/-!
# The life of a table id

An id is drawn by the flusher or the compactor, its table is finished and opened, it
enters the list, and in the end it is retired and its file may be deleted. The invariant
of the table files says where every id stands; a step that touches the file of one id is
not noticed by those of another phase.
-/
namespace PebbleDB.Db

open Memtable (SkipList)
open Sst (Reader)

inductive Phase where
  | unused
  | flushing
  | merging
  | listed
  | retired
  deriving DecidableEq

namespace TableStore

/-- The table file of the id is there, as a writer finished it. -/
def Complete (ssts finished : SstFiles) (id : UInt64) : Prop :=
  ∃ file, ssts.lookup id = some file ∧ (id, file) ∈ finished

/-- The table is complete, and `OpenReader` takes it. -/
def Present (w : TableStore) (id : UInt64) : Prop :=
  ∃ file r, w.ssts.lookup id = some file ∧ (id, file) ∈ w.finished ∧
    Sst.openReader 0 id file = .ok r

/-- The reader is open under its own path. -/
def Tracked (w : TableStore) (r : Reader) : Prop :=
  ∃ h, w.handles r.fileID = some h ∧ h.path = r.id

end TableStore

open TableStore (Present Tracked)

/-- The id belongs to a worker alone: the manifest does not have it yet. -/
def TableStore.Making (phase : UInt64 → Phase) (w : TableStore) (p : Phase) (id : UInt64) : Prop :=
  phase id = p ∧ id ∉ w.live

def FlushStage.Holds (phase : UInt64 → Phase) (w : TableStore) : FlushStage → Prop
  | .idle => True
  | .writing id _ => w.Making phase .flushing id
  | .failed id => w.Making phase .flushing id
  | .closed id => w.Making phase .flushing id ∧ TableStore.Complete w.ssts w.finished id
  | .opened r => w.Making phase .flushing r.id ∧ w.Present r.id ∧ w.Tracked r
  | .committed r => phase r.id = .flushing ∧ w.Present r.id ∧ w.Tracked r
  | .published => True

/-- The new list: what is kept of the old one, without the ids of the inputs, and the
merged table. -/
def Replaces (sstables compReaders : List Reader) (newReader : Reader) (newList : List Reader) :
    Prop :=
  ∃ kept, newList = kept ++ [newReader] ∧ kept.Sublist sstables ∧
    ∀ r ∈ kept, ∀ c ∈ compReaders, r.id ≠ c.id

/-- The readers are on their way to be deleted. -/
def TableStore.Retiring (phase : UInt64 → Phase) (w : TableStore) (readers : List Reader) : Prop :=
  ∀ r ∈ readers, phase r.id = .retired ∧ w.Tracked r

def CompactStage.Holds (phase : UInt64 → Phase) (w : TableStore) : CompactStage → Prop
  | .idle => True
  | .picked comp _ => comp ⊆ w.db.sstables
  | .writing comp _ id _ => comp ⊆ w.db.sstables ∧ w.Making phase .merging id
  | .failed id => w.Making phase .merging id
  | .closed comp _ id =>
    comp ⊆ w.db.sstables ∧ w.Making phase .merging id ∧
      TableStore.Complete w.ssts w.finished id
  | .merged comp _ new =>
    comp ⊆ w.db.sstables ∧ w.Making phase .merging new.id ∧ w.Present new.id ∧ w.Tracked new
  | .built comp _ new list ids =>
    comp ⊆ w.db.sstables ∧ w.Making phase .merging new.id ∧ w.Present new.id ∧ w.Tracked new ∧
      Replaces w.db.sstables comp new list ∧ ids = list.map Reader.id ∧
      ids.length ≤ Manifest.maxRecordIDs
  | .manifested comp _ new list =>
    comp ⊆ w.db.sstables ∧ phase new.id = .merging ∧ w.Present new.id ∧ w.Tracked new ∧
      Replaces w.db.sstables comp new list ∧ ∀ c ∈ comp, c.id ∉ w.live
  | .vanished _ _ => False
  | .swapped comp => w.Retiring phase comp
  | .discarding todo => w.Retiring phase todo
  | .closing r todo => w.Retiring phase (r :: todo)
  | .marked r todo => w.Retiring phase (r :: todo)

namespace TableStore

/-- Where every id stands. -/
structure Accounts (phase : UInt64 → Phase) (w : TableStore) : Prop where
  intact : Manifest.Intact w.db.manifest
  live : ∀ id ∈ w.live, phase id ≠ .unused ∧ phase id ≠ .retired ∧ w.Present id
  listed : ∀ id, phase id = .listed → w.Present id
  inList : ∀ r ∈ w.db.sstables, phase r.id = .listed ∧ w.Tracked r
  distinct : (w.db.sstables.map Reader.id).Nodup
  discards : ∀ p h, w.handles p = some h → h.discardPending = true → phase h.path = .retired
  unused : ∀ id, w.db.nextSSTID < id → phase id = .unused
  fresh : ∀ p, w.db.nextFileID < p → w.handles p = none
  flusher : w.flusher.Holds phase w
  compactor : w.compactor.Holds phase w

/-! ### Readers and files -/

theorem openReader_again (fileID fileID' : Nat) (id : UInt64) (file : Bytes) (r : Reader)
    (opened : Sst.openReader fileID id file = .ok r) :
    ∃ r', Sst.openReader fileID' id file = .ok r' := by
  obtain ⟨footer, read, opened⟩ := (Except.bind_eq_ok _ _ _).mp opened
  obtain ⟨_, checked, opened⟩ := (Except.bind_eq_ok _ _ _).mp opened
  split at opened
  · cases opened
  next small =>
    obtain ⟨indexData, found, opened⟩ := (Except.bind_eq_ok _ _ _).mp opened
    obtain ⟨index, decoded, opened⟩ := (Except.bind_eq_ok _ _ _).mp opened
    obtain ⟨bloom, filter, _⟩ := (Except.bind_eq_ok _ _ _).mp opened
    refine ⟨⟨fileID', id, file, index, bloom, false⟩, ?_⟩
    rw [Sst.openReader, read, Except.ok_bind, checked, Except.ok_bind, if_neg small, found,
      Except.ok_bind, decoded, Except.ok_bind, filter, Except.ok_bind]

theorem loadSSTables_present (w : TableStore) (fileID : Nat) (ids : List UInt64)
    (present : ∀ id ∈ ids, w.Present id) :
    ∃ readers, loadSSTables w.ssts fileID ids = .ok readers := by
  induction ids generalizing fileID with
  | nil => exact ⟨[], rfl⟩
  | cons id ids ih =>
    obtain ⟨file, r, found, _, opened⟩ := present id List.mem_cons_self
    obtain ⟨r', again⟩ := openReader_again 0 (fileID + 1) id file r opened
    obtain ⟨readers, later⟩ := ih (fileID + 1) fun id member =>
      present id (List.mem_cons_of_mem _ member)
    exact ⟨r' :: readers, by simp [loadSSTables, found, again, later]⟩

theorem lookup_write_self (ssts : SstFiles) (id : UInt64) (file : Bytes) :
    (ssts.write id file).lookup id = some file := by
  simp [SstFiles.write]

theorem lookup_remove_self (ssts : SstFiles) (id : UInt64) : (ssts.remove id).lookup id = none := by
  rw [List.lookup_eq_none_iff]
  intro entry member
  have other : entry.1 ≠ id := by simpa using (List.mem_filter.mp member).2
  simpa using other.symm

theorem lookup_remove_of_ne (ssts : SstFiles) (id other : UInt64) (ne : other ≠ id) :
    (ssts.remove id).lookup other = ssts.lookup other := by
  rw [← lookup_write_of_ne ssts id other [] ne, SstFiles.write, List.lookup_cons,
    beq_false_of_ne ne, SstFiles.remove]

variable {phase phase' : UInt64 → Phase} {w w' : TableStore}

theorem Present.frame (id : UInt64) (present : w.Present id)
    (file : w'.ssts.lookup id = w.ssts.lookup id) (more : w.finished ⊆ w'.finished) :
    w'.Present id := by
  obtain ⟨data, r, found, done, opened⟩ := present
  exact ⟨data, r, file.trans found, more done, opened⟩

/-- No open reader changes its path. -/
def KeepsPaths (w w' : TableStore) : Prop :=
  ∀ p h, w.handles p = some h → ∃ h', w'.handles p = some h' ∧ h'.path = h.path

theorem KeepsPaths.refl (same : w'.handles = w.handles) : w.KeepsPaths w' :=
  fun _ h open_ => ⟨h, by rw [same]; exact open_, rfl⟩

theorem Tracked.frame (r : Reader) (paths : w.KeepsPaths w') (tracked : w.Tracked r) :
    w'.Tracked r := by
  obtain ⟨h, open_, path⟩ := tracked
  obtain ⟨h', open', path'⟩ := paths _ h open_
  exact ⟨h', open', path'.trans path⟩

/-- A step leaves the ids of a phase alone: they stay in it, do not become live, and keep
their files. -/
structure Spares (p : Phase) (phase phase' : UInt64 → Phase) (w w' : TableStore) : Prop where
  kept : ∀ id, phase id = p → phase' id = p
  live : ∀ id, phase id = p → id ∈ w'.live → id ∈ w.live
  files : ∀ id, phase id = p → w'.ssts.lookup id = w.ssts.lookup id
  finished : w.finished ⊆ w'.finished
  paths : w.KeepsPaths w'

theorem Spares.making {p : Phase} (spares : Spares p phase phase' w w') (id : UInt64)
    (making : w.Making phase p id) : w'.Making phase' p id :=
  ⟨spares.kept id making.1, fun live => making.2 (spares.live id making.1 live)⟩

theorem Spares.complete {p : Phase} (spares : Spares p phase phase' w w') (id : UInt64)
    (inPhase : phase id = p) (complete : Complete w.ssts w.finished id) :
    Complete w'.ssts w'.finished id := by
  obtain ⟨file, found, done⟩ := complete
  exact ⟨file, (spares.files id inPhase).trans found, spares.finished done⟩

theorem Spares.present {p : Phase} (spares : Spares p phase phase' w w') (id : UInt64)
    (inPhase : phase id = p) (present : w.Present id) : w'.Present id :=
  present.frame id (spares.files id inPhase) spares.finished

end TableStore

open TableStore (Spares KeepsPaths)

variable {phase phase' : UInt64 → Phase} {w w' : TableStore}

/-- The flusher does not notice a step that spares its ids. -/
theorem FlushStage.Holds.frame (stage : FlushStage) (spares : Spares .flushing phase phase' w w')
    (holds : stage.Holds phase w) : stage.Holds phase' w' := by
  cases stage with
  | idle | published => trivial
  | writing id imm => exact spares.making id holds
  | failed id => exact spares.making id holds
  | closed id => exact ⟨spares.making id holds.1, spares.complete id holds.1.1 holds.2⟩
  | opened r =>
    obtain ⟨making, present, tracked⟩ := holds
    exact ⟨spares.making _ making, spares.present _ making.1 present,
      tracked.frame r spares.paths⟩
  | committed r =>
    obtain ⟨own, present, tracked⟩ := holds
    exact ⟨spares.kept _ own, spares.present _ own present, tracked.frame r spares.paths⟩

theorem Replaces.mono (sstables more comp list : List Reader) (new : Reader)
    (part : sstables.Sublist more) (replaces : Replaces sstables comp new list) :
    Replaces more comp new list := by
  obtain ⟨kept, eq, inside, apart⟩ := replaces
  exact ⟨kept, eq, inside.trans part, apart⟩

theorem TableStore.Retiring.frame (readers : List Reader)
    (retired : ∀ id, phase id = .retired → phase' id = .retired) (paths : KeepsPaths w w')
    (retiring : w.Retiring phase readers) : w'.Retiring phase' readers :=
  fun r member => ⟨retired _ (retiring r member).1, (retiring r member).2.frame r paths⟩

/-- The compactor does not notice a step that spares its ids and those of the list. -/
theorem CompactStage.Holds.frame (stage : CompactStage)
    (inList : ∀ r ∈ w.db.sstables, phase r.id = .listed)
    (merging : Spares .merging phase phase' w w') (listed : Spares .listed phase phase' w w')
    (retired : ∀ id, phase id = .retired → phase' id = .retired)
    (part : w.db.sstables.Sublist w'.db.sstables) (holds : stage.Holds phase w) :
    stage.Holds phase' w' := by
  cases stage with
  | idle => trivial
  | picked comp old => exact List.Subset.trans holds part.subset
  | writing comp old id n => exact ⟨List.Subset.trans holds.1 part.subset, merging.making id holds.2⟩
  | failed id => exact merging.making id holds
  | closed comp old id =>
    obtain ⟨inside, making, complete⟩ := holds
    exact ⟨List.Subset.trans inside part.subset, merging.making id making,
      merging.complete id making.1 complete⟩
  | merged comp old new =>
    obtain ⟨inside, making, present, tracked⟩ := holds
    exact ⟨List.Subset.trans inside part.subset, merging.making _ making,
      merging.present _ making.1 present, tracked.frame new merging.paths⟩
  | built comp old new list ids =>
    obtain ⟨inside, making, present, tracked, replaces, rest⟩ := holds
    exact ⟨List.Subset.trans inside part.subset, merging.making _ making,
      merging.present _ making.1 present, tracked.frame new merging.paths,
      replaces.mono _ _ _ _ _ part, rest⟩
  | manifested comp old new list =>
    obtain ⟨inside, own, present, tracked, replaces, gone⟩ := holds
    exact ⟨List.Subset.trans inside part.subset, merging.kept _ own, merging.present _ own present,
      tracked.frame new merging.paths, replaces.mono _ _ _ _ _ part,
      fun c member live => gone c member (listed.live _ (inList c (inside member)) live)⟩
  | vanished old new => exact holds
  | swapped comp => exact TableStore.Retiring.frame comp retired merging.paths holds
  | discarding todo => exact TableStore.Retiring.frame todo retired merging.paths holds
  | closing r todo => exact TableStore.Retiring.frame (r :: todo) retired merging.paths holds
  | marked r todo => exact TableStore.Retiring.frame (r :: todo) retired merging.paths holds

namespace TableStore

/-! ### Steps that move no id -/

/-- A change of the live set at most, which adds no id of the phase. -/
theorem Spares.relived (p : Phase) (live : ∀ id, phase id = p → id ∈ w'.live → id ∈ w.live)
    (ssts : w'.ssts = w.ssts) (finished : w'.finished = w.finished)
    (handles : w'.handles = w.handles) : Spares p phase phase w w' where
  kept := fun _ inPhase => inPhase
  live := live
  files := fun id _ => by rw [ssts]
  finished := by rw [finished]; exact List.Subset.refl _
  paths := .refl handles

/-- Files, live set and stages may change, if nothing that is live or listed is lost. -/
theorem Accounts.rebuild (acc : Accounts phase w) (w' : TableStore) (manifest : Manifest.State)
    (intact : Manifest.Intact manifest) (db : w'.db = { w.db with manifest := manifest })
    (handles : w'.handles = w.handles)
    (live : ∀ id ∈ manifest.log.liveSet, phase id ≠ .unused ∧ phase id ≠ .retired ∧ w'.Present id)
    (listed : ∀ id, phase id = .listed → w'.Present id)
    (flusher : w'.flusher.Holds phase w') (compactor : w'.compactor.Holds phase w') :
    Accounts phase w' := by
  constructor
  · rw [db]
    exact intact
  · rw [TableStore.live, db]
    exact live
  · exact listed
  · rw [db]
    exact fun r member => ⟨(acc.inList r member).1, (acc.inList r member).2.frame r (.refl handles)⟩
  · rw [db]
    exact acc.distinct
  · rw [handles]
    exact acc.discards
  · rw [db]
    exact acc.unused
  · rw [db, handles]
    exact acc.fresh
  · exact flusher
  · exact compactor

/-- Only the stages and the `.tmp` files change. -/
theorem Accounts.restage (acc : Accounts phase w) (w' : TableStore) (db : w'.db = w.db)
    (ssts : w'.ssts = w.ssts) (finished : w'.finished = w.finished)
    (handles : w'.handles = w.handles) (flusher : w'.flusher.Holds phase w)
    (compactor : w'.compactor.Holds phase w) : Accounts phase w' := by
  have spares (p : Phase) : Spares p phase phase w w' :=
    .relived p (fun id _ member => by rwa [TableStore.live, db] at member) ssts finished handles
  refine acc.rebuild w' w.db.manifest acc.intact db handles (fun id member => ?_)
    (fun id listed => (spares _).present id rfl (acc.listed id listed)) (flusher.frame _ (spares _))
    (compactor.frame _ (fun r member => (acc.inList r member).1) (spares _) (spares _)
      (fun _ retired => retired) (by rw [db]))
  obtain ⟨used, kept, present⟩ := acc.live id member
  exact ⟨used, kept, (spares _).present id rfl present⟩

/-- A worker writes or removes the file of an id that is still its own. -/
theorem Accounts.touch (acc : Accounts phase w) (w' : TableStore) (p : Phase) (x : UInt64)
    (making : w.Making phase p x) (unlisted : p ≠ .listed) (db : w'.db = w.db)
    (handles : w'.handles = w.handles) (more : w.finished ⊆ w'.finished)
    (files : ∀ id, id ≠ x → w'.ssts.lookup id = w.ssts.lookup id)
    (flusher : w'.flusher.Holds phase w') (compactor : w'.compactor.Holds phase w') :
    Accounts phase w' := by
  refine acc.rebuild w' w.db.manifest acc.intact db handles (fun id member => ?_)
    (fun id listed => ?_) flusher compactor
  · obtain ⟨used, kept, present⟩ := acc.live id member
    have other : id ≠ x := fun same => making.2 (same ▸ member)
    exact ⟨used, kept, present.frame id (files id other) more⟩
  · have other : id ≠ x := fun same => unlisted (making.1.symm.trans (same ▸ listed))
    exact (acc.listed id listed).frame id (files id other) more

/-- What a file step on an id of one worker means for the ids of other phases. -/
theorem Spares.touched (p q : Phase) (x : UInt64) (inPhase : phase x = p) (other : q ≠ p)
    (live : w'.live = w.live) (handles : w'.handles = w.handles)
    (more : w.finished ⊆ w'.finished)
    (files : ∀ id, id ≠ x → w'.ssts.lookup id = w.ssts.lookup id) :
    Spares q phase phase w w' where
  kept := fun _ inPhase => inPhase
  live := fun id _ member => by rwa [live] at member
  files := fun id inQ => files id fun same => other (inQ.symm.trans (same ▸ inPhase))
  finished := more
  paths := .refl handles

/-! ### Handles -/

theorem modify_keepsPaths (w : TableStore) (p : Nat) (f : Handle → Handle)
    (path : ∀ h, (f h).path = h.path) : w.KeepsPaths (w.modify p f) := by
  intro q h open_
  by_cases same : q = p
  · subst same
    exact ⟨f h, by simp [modify, open_], path h⟩
  · exact ⟨h, by simp [modify, same, open_], rfl⟩

/-- A change of a reader's fields that may mark a retired table for deletion. -/
theorem Accounts.modify (acc : Accounts phase w) (p : Nat) (f : Handle → Handle)
    (path : ∀ h, (f h).path = h.path)
    (discard : ∀ h, w.handles p = some h → (f h).discardPending = true →
      phase h.path = .retired) : Accounts phase (w.modify p f) := by
  have paths := modify_keepsPaths w p f path
  have spares : ∀ q, Spares q phase phase w (w.modify p f) := fun q =>
    ⟨fun _ inPhase => inPhase, fun _ _ member => member, fun _ _ => rfl, List.Subset.refl _, paths⟩
  constructor
  · exact acc.intact
  · exact acc.live
  · exact acc.listed
  · exact fun r member => ⟨(acc.inList r member).1, (acc.inList r member).2.frame r paths⟩
  · exact acc.distinct
  · intro q h open_ pending
    by_cases same : q = p
    · subst same
      simp only [TableStore.modify, Function.update_self, Option.map_eq_some_iff] at open_
      obtain ⟨old, open_, rfl⟩ := open_
      rw [path]
      exact discard old open_ pending
    · simp only [TableStore.modify, Function.update_of_ne same] at open_
      exact acc.discards q h open_ pending
  · exact acc.unused
  · intro q above
    have none_ := acc.fresh q above
    by_cases same : q = p
    · subst same
      simp [TableStore.modify, none_]
    · simpa [TableStore.modify, same] using none_
  · exact acc.flusher.frame _ (spares _)
  · exact acc.compactor.frame _ (fun r member => (acc.inList r member).1) (spares _) (spares _)
      (fun _ retired => retired) (List.Sublist.refl _)

/-- Deleting the file of a retired id. -/
theorem Accounts.removeRetired (acc : Accounts phase w) (x : UInt64)
    (retired : phase x = .retired) : Accounts phase (w.removeTable x) := by
  have files : ∀ id, id ≠ x → (w.removeTable x).ssts.lookup id = w.ssts.lookup id :=
    fun id ne => lookup_remove_of_ne w.ssts x id ne
  have notLive : x ∉ w.live := fun member => (acc.live x member).2.1 retired
  have spares : ∀ q, q ≠ .retired → Spares q phase phase w (w.removeTable x) := fun q other =>
    .touched .retired q x retired other rfl rfl (List.Subset.refl _) files
  refine acc.touch _ .retired x ⟨retired, notLive⟩ (by decide) rfl rfl (List.Subset.refl _) files ?_ ?_
  · exact acc.flusher.frame _ (spares _ (by decide))
  · exact acc.compactor.frame _ (fun r member => (acc.inList r member).1) (spares _ (by decide))
      (spares _ (by decide)) (fun _ retired => retired) (List.Sublist.refl _)

/-- `closeFile` deletes only what was marked for it. -/
theorem Accounts.closeFile (acc : Accounts phase w) (p : Nat) : Accounts phase (w.closeFile p) := by
  rw [TableStore.closeFile]
  cases open_ : w.handles p with
  | none => exact acc
  | some h =>
    have closed := acc.modify p (fun h => { h with fileClosed := true }) (fun _ => rfl)
      (fun h open_ pending => acc.discards p h open_ pending)
    dsimp only
    split
    · exact acc
    · split
      next pending => exact closed.removeRetired h.path (acc.discards p h open_ pending)
      · exact closed

theorem Accounts.closeReader (acc : Accounts phase w) (p : Nat) :
    Accounts phase (w.closeReader p) := by
  have marked := acc.modify p (fun h => { h with closePending := true }) (fun _ => rfl)
    (fun h open_ pending => acc.discards p h open_ pending)
  rw [TableStore.closeReader]
  split
  · exact marked
  · split
    · exact marked.closeFile p
    · exact marked

/-! ### Steps that move an id -/

/-- An id that was never used goes to a worker. -/
theorem Accounts.draw (acc : Accounts phase w) (w' : TableStore) (p : Phase)
    (room : w.db.nextSSTID.toNat + 1 < 2 ^ 64)
    (own : p ≠ .unused ∧ p ≠ .retired ∧ p ≠ .listed)
    (db : w'.db = { w.db with nextSSTID := w.db.nextSSTID + 1 }) (ssts : w'.ssts = w.ssts)
    (finished : w'.finished = w.finished) (handles : w'.handles = w.handles)
    (flusher : (∀ q, q ≠ .unused →
        Spares q phase (Function.update phase (w.db.nextSSTID + 1) p) w w') →
      w'.Making (Function.update phase (w.db.nextSSTID + 1) p) p (w.db.nextSSTID + 1) →
      w'.flusher.Holds (Function.update phase (w.db.nextSSTID + 1) p) w' ∧
        w'.compactor.Holds (Function.update phase (w.db.nextSSTID + 1) p) w') :
    Accounts (Function.update phase (w.db.nextSSTID + 1) p) w' := by
  have unused : phase (w.db.nextSSTID + 1) = .unused :=
    acc.unused _ (lt_next _ _ (UInt64.le_refl _) room)
  have live : w'.live = w.live := by rw [TableStore.live, db, TableStore.live]
  -- the ids in use are others, and they stay where they are
  have others : ∀ id, phase id ≠ .unused →
      Function.update phase (w.db.nextSSTID + 1) p id = phase id := fun id used =>
    Function.update_of_ne (fun same => used (by rw [same, unused])) _ _
  have spares : ∀ q, q ≠ .unused →
      Spares q phase (Function.update phase (w.db.nextSSTID + 1) p) w w' := by
    intro q used
    refine ⟨?_, ?_, fun id _ => by rw [ssts], by rw [finished]; exact List.Subset.refl _,
      .refl handles⟩
    · intro id inPhase
      rw [others id (by rw [inPhase]; exact used), inPhase]
    · intro id _ member
      rwa [live] at member
  have making : w'.Making (Function.update phase (w.db.nextSSTID + 1) p) p
      (w.db.nextSSTID + 1) := by
    refine ⟨Function.update_self .., ?_⟩
    rw [live]
    exact fun member => (acc.live _ member).1 unused
  constructor
  · rw [db]
    exact acc.intact
  · intro id member
    rw [live] at member
    obtain ⟨used, kept, present⟩ := acc.live id member
    rw [others id used]
    exact ⟨used, kept, (spares _ used).present id rfl present⟩
  · intro id listed
    by_cases same : id = w.db.nextSSTID + 1
    · rw [same, Function.update_self] at listed
      exact absurd listed own.2.2
    · rw [Function.update_of_ne same] at listed
      exact (spares .listed (by decide)).present id listed (acc.listed id listed)
  · rw [db]
    intro r member
    obtain ⟨listed, tracked⟩ := acc.inList r member
    exact ⟨(spares .listed (by decide)).kept _ listed, tracked.frame r (.refl handles)⟩
  · rw [db]
    exact acc.distinct
  · rw [handles]
    intro q h open_ pending
    exact (spares .retired (by decide)).kept _ (acc.discards q h open_ pending)
  · rw [db]
    intro id above
    have next : w.db.nextSSTID < w.db.nextSSTID + 1 := lt_next _ _ (UInt64.le_refl _) room
    rw [Function.update_of_ne (ne_of_gt above)]
    exact acc.unused id (lt_trans next above)
  · rw [db, handles]
    exact acc.fresh
  · exact (flusher spares making).1
  · exact (flusher spares making).2

/-- The phases after a change of the list: the inputs are retired, the new table is listed. -/
def relisted (phase : UInt64 → Phase) (inputs : List Reader) (new : Reader) (id : UInt64) : Phase :=
  if id ∈ inputs.map Reader.id then .retired else if id = new.id then .listed else phase id

theorem relisted_of_other {inputs : List Reader} {new : Reader} {id : UInt64}
    (noInput : id ∉ inputs.map Reader.id) (other : id ≠ new.id) :
    relisted phase inputs new id = phase id := by
  rw [relisted, if_neg noInput, if_neg other]

theorem relisted_new {inputs : List Reader} {new : Reader}
    (noInput : new.id ∉ inputs.map Reader.id) : relisted phase inputs new new.id = .listed := by
  rw [relisted, if_neg noInput, if_pos rfl]

theorem Accounts.inputs_listed (acc : Accounts phase w) {inputs : List Reader}
    (inside : inputs ⊆ w.db.sstables) : ∀ id ∈ inputs.map Reader.id, phase id = .listed := by
  intro id member
  obtain ⟨c, input, rfl⟩ := List.mem_map.mp member
  exact (acc.inList c (inside input)).1

/-- Only the inputs and the new table change their phase. -/
theorem Accounts.spares_relisted (acc : Accounts phase w) {inputs : List Reader} {new : Reader}
    (inside : inputs ⊆ w.db.sstables) (live : w'.live = w.live) (ssts : w'.ssts = w.ssts)
    (finished : w'.finished = w.finished) (handles : w'.handles = w.handles) (q : Phase)
    (other : q ≠ phase new.id) (noInput : inputs = [] ∨ q ≠ .listed) :
    Spares q phase (relisted phase inputs new) w w' := by
  refine ⟨?_, fun id _ member => by rwa [live] at member, fun id _ => by rw [ssts],
    by rw [finished]; exact List.Subset.refl _, .refl handles⟩
  intro id inQ
  rw [relisted_of_other, inQ]
  · rcases noInput with none_ | unlisted
    · simp [none_]
    · exact fun input => unlisted (inQ.symm.trans (acc.inputs_listed inside id input))
  · rintro rfl
    exact other inQ.symm

/-- The table of a worker enters the list, and the inputs of a merge leave it. -/
theorem Accounts.relist (acc : Accounts phase w) (w' : TableStore) (p : Phase)
    (kept inputs : List Reader) (new : Reader) (own : p ≠ .unused ∧ p ≠ .retired ∧ p ≠ .listed)
    (inPhase : phase new.id = p) (present : w.Present new.id) (tracked : w.Tracked new)
    (inside : inputs ⊆ w.db.sstables) (part : kept.Sublist w.db.sstables)
    (apart : ∀ r ∈ kept, ∀ c ∈ inputs, r.id ≠ c.id) (gone : ∀ c ∈ inputs, c.id ∉ w.live)
    (db : w'.db = { w.db with sstables := kept ++ [new] }) (ssts : w'.ssts = w.ssts)
    (finished : w'.finished = w.finished) (handles : w'.handles = w.handles)
    (stages : (∀ q, q ≠ p → inputs = [] ∨ q ≠ .listed →
        Spares q phase (relisted phase inputs new) w w') →
      w'.flusher.Holds (relisted phase inputs new) w' ∧
        w'.compactor.Holds (relisted phase inputs new) w') :
    Accounts (relisted phase inputs new) w' := by
  subst inPhase
  have live : w'.live = w.live := by rw [TableStore.live, db, TableStore.live]
  have spares : ∀ q, q ≠ phase new.id → inputs = [] ∨ q ≠ .listed →
      Spares q phase (relisted phase inputs new) w w' :=
    acc.spares_relisted inside live ssts finished handles
  have present' : ∀ id, w.Present id → w'.Present id := fun id present =>
    present.frame id (by rw [ssts]) (by rw [finished]; exact List.Subset.refl _)
  have listed (r : Reader) (member : r ∈ kept) : phase r.id = .listed :=
    (acc.inList r (part.subset member)).1
  have newer (r : Reader) (member : r ∈ kept) : r.id ≠ new.id :=
    fun same => own.2.2 (same ▸ listed r member)
  have newNoInput : new.id ∉ inputs.map Reader.id :=
    fun input => own.2.2 (acc.inputs_listed inside _ input)
  have keptNoInput (r : Reader) (member : r ∈ kept) : r.id ∉ inputs.map Reader.id := by
    intro input
    obtain ⟨c, isInput, same⟩ := List.mem_map.mp input
    exact apart r member c isInput same.symm
  constructor
  · rw [db]
    exact acc.intact
  · intro id member
    rw [live] at member
    obtain ⟨used, unretired, there⟩ := acc.live id member
    rw [relisted, if_neg]
    · split
      · exact ⟨by decide, by decide, present' id there⟩
      · exact ⟨used, unretired, present' id there⟩
    · intro input
      obtain ⟨c, isInput, rfl⟩ := List.mem_map.mp input
      exact gone c isInput member
  · intro id listed
    rw [relisted] at listed
    split at listed
    · cases listed
    · split at listed
      next same => exact present' id (same ▸ present)
      · exact present' id (acc.listed id listed)
  · rw [db]
    intro r member
    rcases List.mem_append.mp member with old | last
    · rw [relisted_of_other (keptNoInput r old) (newer r old)]
      exact ⟨listed r old, (acc.inList r (part.subset old)).2.frame r (.refl handles)⟩
    · rw [List.mem_singleton.mp last]
      exact ⟨relisted_new newNoInput, tracked.frame new (.refl handles)⟩
  · rw [db, List.map_append, List.nodup_append]
    refine ⟨(part.map Reader.id).nodup acc.distinct, List.nodup_singleton _, ?_⟩
    rintro a old b last rfl
    obtain ⟨r, inKept, rfl⟩ := List.mem_map.mp old
    exact newer r inKept (by simpa using last)
  · rw [handles]
    intro q h open_ pending
    exact (spares .retired own.2.1.symm (.inr (by decide))).kept _ (acc.discards q h open_ pending)
  · rw [db]
    intro id above
    exact (spares .unused own.1.symm (.inr (by decide))).kept _ (acc.unused id above)
  · rw [db, handles]
    exact acc.fresh
  · exact (stages spares).1
  · exact (stages spares).2

/-- The flusher works on the file of its own id. -/
theorem Accounts.flusherTouch (acc : Accounts phase w) (w' : TableStore) (x : UInt64)
    (making : w.Making phase .flushing x) (db : w'.db = w.db) (handles : w'.handles = w.handles)
    (more : w.finished ⊆ w'.finished)
    (files : ∀ id, id ≠ x → w'.ssts.lookup id = w.ssts.lookup id)
    (compactor : w'.compactor = w.compactor) (flusher : w'.flusher.Holds phase w') :
    Accounts phase w' := by
  have live : w'.live = w.live := by rw [TableStore.live, db, TableStore.live]
  have spares : ∀ q, q ≠ .flushing → Spares q phase phase w w' := fun q other =>
    .touched .flushing q x making.1 other live handles more files
  refine acc.touch w' .flushing x making (by decide) db handles more files flusher ?_
  rw [compactor]
  exact acc.compactor.frame _ (fun r member => (acc.inList r member).1) (spares _ (by decide))
    (spares _ (by decide)) (fun _ retired => retired) (by rw [db])

/-- The compactor works on the file of its own id. -/
theorem Accounts.compactorTouch (acc : Accounts phase w) (w' : TableStore) (x : UInt64)
    (making : w.Making phase .merging x) (db : w'.db = w.db) (handles : w'.handles = w.handles)
    (more : w.finished ⊆ w'.finished)
    (files : ∀ id, id ≠ x → w'.ssts.lookup id = w.ssts.lookup id)
    (flusher : w'.flusher = w.flusher) (compactor : w'.compactor.Holds phase w') :
    Accounts phase w' := by
  have live : w'.live = w.live := by rw [TableStore.live, db, TableStore.live]
  refine acc.touch w' .merging x making (by decide) db handles more files ?_ compactor
  rw [flusher]
  exact acc.flusher.frame _ (.touched .merging _ x making.1 (by decide) live handles more files)

/-- A new reader gets a handle of its own. -/
theorem Accounts.register (acc : Accounts phase w) (r : Reader)
    (new : r.fileID = w.db.nextFileID + 1) :
    Accounts phase (w.register r) ∧ (w.register r).Tracked r := by
  have free : w.handles r.fileID = none := acc.fresh _ (by omega)
  have paths : w.KeepsPaths (w.register r) := by
    intro p h open_
    have other : p ≠ r.fileID := fun same => by rw [same, free] at open_; cases open_
    exact ⟨h, by simp [TableStore.register, other, open_], rfl⟩
  have spares : ∀ q, Spares q phase phase w (w.register r) := fun q =>
    ⟨fun _ inPhase => inPhase, fun _ _ member => member, fun _ _ => rfl, List.Subset.refl _, paths⟩
  refine ⟨?_, Handle.new r.id, by simp [TableStore.register], rfl⟩
  constructor
  · exact acc.intact
  · exact acc.live
  · exact acc.listed
  · exact fun t member => ⟨(acc.inList t member).1, (acc.inList t member).2.frame t paths⟩
  · exact acc.distinct
  · intro p h open_ pending
    by_cases same : p = r.fileID
    · subst same
      simp only [TableStore.register, Function.update_self, Option.some.injEq] at open_
      rw [← open_] at pending
      cases pending
    · simp only [TableStore.register, Function.update_of_ne same] at open_
      exact acc.discards p h open_ pending
  · exact acc.unused
  · intro p above
    have above : w.db.nextFileID + 1 < p := above
    have other : p ≠ r.fileID := by omega
    simpa [TableStore.register, other] using acc.fresh p (by omega)
  · exact acc.flusher.frame _ (spares _)
  · exact acc.compactor.frame _ (fun r member => (acc.inList r member).1) (spares _) (spares _)
      (fun _ retired => retired) (List.Sublist.refl _)

theorem openTable_ok (id : UInt64) (r : Reader) (complete : Complete w.ssts w.finished id)
    (opened : w.openTable id = .ok r) :
    r.fileID = w.db.nextFileID + 1 ∧ r.id = id ∧ w.Present id := by
  obtain ⟨file, found, done⟩ := complete
  simp only [openTable, found, Except.mapError_eq_ok] at opened
  obtain ⟨fileID, same, -, -⟩ := Sst.openReader_ok _ _ _ r opened
  obtain ⟨r', again⟩ := openReader_again _ 0 id file r opened
  exact ⟨fileID, same, file, r', found, done, again⟩

/-- The live set changes to ids whose tables are present. -/
theorem Accounts.relive (acc : Accounts phase w) (w' : TableStore) (manifest : Manifest.State)
    (intact : Manifest.Intact manifest) (db : w'.db = { w.db with manifest := manifest })
    (ssts : w'.ssts = w.ssts) (finished : w'.finished = w.finished)
    (handles : w'.handles = w.handles)
    (live : ∀ id ∈ manifest.log.liveSet, phase id ≠ .unused ∧ phase id ≠ .retired ∧ w.Present id)
    (flusher : w'.flusher.Holds phase w') (compactor : w'.compactor.Holds phase w') :
    Accounts phase w' := by
  have present : ∀ id, w.Present id → w'.Present id := fun id present =>
    present.frame id (by rw [ssts]) (by rw [finished]; exact List.Subset.refl _)
  refine acc.rebuild w' manifest intact db handles (fun id member => ?_)
    (fun id listed => present id (acc.listed id listed)) flusher compactor
  obtain ⟨used, kept, there⟩ := live id member
  exact ⟨used, kept, present id there⟩

/-- What a call leaves, told by its step. -/
theorem run_eq_step (c : Manifest.Call) (s : Manifest.State) (isOpen : s.log.fileOpen = true) :
    c.run s = (c.step s, none) := by
  rw [← c.run_returns_nil s isOpen]
  rfl

/-- A rotation keeps the live set. -/
theorem Accounts.rotate (acc : Accounts phase w) (w' : TableStore)
    (few : w.live.card ≤ Manifest.maxRecordIDs)
    (db : w'.db = { w.db with manifest := Manifest.Call.maybeCompact.step w.db.manifest })
    (ssts : w'.ssts = w.ssts) (finished : w'.finished = w.finished)
    (handles : w'.handles = w.handles) (flusher : w'.flusher.Holds phase w)
    (compactor : w'.compactor.Holds phase w) : Accounts phase w' := by
  have same := Manifest.Call.maybeCompact_liveSet w.db.manifest acc.intact.isOpen
  have liveEq : w'.live = w.live := by
    rw [TableStore.live, db]
    exact same
  have spares : ∀ q, Spares q phase phase w w' := fun q =>
    .relived q (fun _ _ member => liveEq ▸ member) ssts finished handles
  refine acc.relive w' _ (Manifest.Call.maybeCompact.step_intact _ acc.intact few) db ssts finished
    handles ?_ ?_ ?_
  · rw [same]
    exact acc.live
  · exact flusher.frame _ (spares _)
  · exact compactor.frame _ (fun r member => (acc.inList r member).1) (spares _) (spares _)
      (fun _ retired => retired) (by rw [db])

end TableStore

end PebbleDB.Db
