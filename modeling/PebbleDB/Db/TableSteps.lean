import PebbleDB.Db.Compaction
import PebbleDB.Db.Open
import PebbleDB.Manifest.Crash

/-!
# Table files step by step

The flusher and the compactor write a table to a `.tmp` file, rename it, open a reader,
commit the id to the manifest and publish the reader. The compactor then discards its
inputs; a reader that is still in use is deleted by the `Unref` that releases it last.
The steps here are the ones another goroutine or a crash can come between. Nothing
fails for a reason of the file system, but a table may be refused by its writer.
-/
namespace PebbleDB.Db

open Memtable (SkipList)
open Sst (Reader)

def SstFiles.remove (ssts : SstFiles) (id : UInt64) : SstFiles :=
  ssts.filter fun entry => entry.1 ≠ id

/-- The shared fields of an open `Reader`; `path` is the id in its file name. -/
structure Handle where
  path : UInt64
  refs : Int32
  closePending : Bool
  discardPending : Bool
  fileClosed : Bool
  deriving DecidableEq

def Handle.new (id : UInt64) : Handle := ⟨id, 0, false, false, false⟩

/-- Where `flushImmutable` stands. -/
inductive FlushStage where
  | idle
  | writing (id : UInt64) (imm : SkipList)
  | failed (id : UInt64)
  | closed (id : UInt64)
  | opened (r : Reader)
  | committed (r : Reader)
  | published

/-- Where `doCompaction` stands; the last three are the loop of `Discard` calls. -/
inductive CompactStage where
  | idle
  | picked (compReaders : List Reader) (oldLiveIDs : List UInt64)
  | writing (compReaders : List Reader) (oldLiveIDs : List UInt64) (id : UInt64)
      (expectedEntries : Nat)
  | failed (id : UInt64)
  | closed (compReaders : List Reader) (oldLiveIDs : List UInt64) (id : UInt64)
  | merged (compReaders : List Reader) (oldLiveIDs : List UInt64) (newReader : Reader)
  | built (compReaders : List Reader) (oldLiveIDs : List UInt64) (newReader : Reader)
      (newList : List Reader) (liveIDs : List UInt64)
  | manifested (compReaders : List Reader) (oldLiveIDs : List UInt64) (newReader : Reader)
      (newList : List Reader)
  | vanished (oldLiveIDs : List UInt64) (newReader : Reader)
  | swapped (compReaders : List Reader)
  | discarding (todo : List Reader)
  | closing (r : Reader) (todo : List Reader)
  | marked (r : Reader) (todo : List Reader)

/-- The store, its table files and the open readers by identity. `zeroed` are the `Unref`
calls that have brought a count to zero and not looked at `closePending` yet; `finished`
keeps every table that was closed without an error. -/
structure TableStore where
  db : DB
  tmps : SstFiles
  ssts : SstFiles
  finished : SstFiles
  handles : Nat → Option Handle
  zeroed : List Nat
  flusher : FlushStage
  compactor : CompactStage

/-- `leftover` is what `Close` still renames after a failed `Add`, if it succeeds. -/
inductive TableStep where
  | flushBegin (imm : SkipList)
  | flushGrow (data : Bytes)
  | flushClose (leftover : Option Bytes)
  | flushRemove
  | flushOpen
  | flushCommit
  | flushPublish
  | flushRotate
  | pick
  | mergeBegin
  | mergeGrow (data : Bytes)
  | mergeClose (leftover : Option Bytes)
  | mergeRemove
  | mergeOpen
  | build
  | setFileSet
  | swap
  | rollback
  | compactRotate
  | discardBegin
  | discardMark
  | discardCheck
  | ref (p : Nat)
  | unref (p : Nat)
  | unrefCheck (p : Nat)

namespace TableStore

def live (w : TableStore) : Finset UInt64 := w.db.manifest.log.liveSet

/-! ### Writers and readers -/

/-- `NewWriter` creates the `.tmp` file, `Write` adds to it. -/
def setTmp (w : TableStore) (id : UInt64) (data : Bytes) : TableStore :=
  { w with tmps := w.tmps.write id data }

/-- `Writer.Close`: the finished file is renamed. -/
def renameTmp (w : TableStore) (id : UInt64) (file : Bytes) : TableStore :=
  { w with
    tmps := w.tmps.remove id
    ssts := w.ssts.write id file
    finished := (id, file) :: w.finished }

/-- `Writer.Close` after a failed `Add` renames a table that lacks entries; if it fails
itself it removes the `.tmp` file. -/
def abandonTmp (w : TableStore) (id : UInt64) : Option Bytes → TableStore
  | none => { w with tmps := w.tmps.remove id }
  | some data => { w with tmps := w.tmps.remove id, ssts := w.ssts.write id data }

/-- `os.Remove` of a table file. -/
def removeTable (w : TableStore) (id : UInt64) : TableStore :=
  { w with ssts := w.ssts.remove id }

/-- `OpenReader` of a table file. -/
def openTable (w : TableStore) (id : UInt64) : Except OpenError Reader :=
  match w.ssts.lookup id with
  | none => .error (.missingTable id)
  | some file => (Sst.openReader (w.db.nextFileID + 1) id file).mapError .sst

def register (w : TableStore) (r : Reader) : TableStore :=
  { w with
    db.nextFileID := w.db.nextFileID + 1
    handles := Function.update w.handles r.fileID (some (Handle.new r.id)) }

def modify (w : TableStore) (p : Nat) (f : Handle → Handle) : TableStore :=
  { w with handles := Function.update w.handles p ((w.handles p).map f) }

/-- `closeFile`, under `closeMu`. -/
def closeFile (w : TableStore) (p : Nat) : TableStore :=
  match w.handles p with
  | none => w
  | some h =>
    if h.fileClosed then w
    else
      let closed := w.modify p fun h => { h with fileClosed := true }
      -- whoever closes the file also removes it
      if h.discardPending then closed.removeTable h.path else closed

/-- `Reader.Close`. -/
def closeReader (w : TableStore) (p : Nat) : TableStore :=
  let w := w.modify p fun h => { h with closePending := true }
  match w.handles p with
  | none => w
  | some h => if h.refs = 0 then w.closeFile p else w

/-! ### The flusher -/

def flushBegin (w : TableStore) (imm : SkipList) : TableStore :=
  match w.flusher with
  | .idle =>
    let id := w.db.nextSSTID + 1
    { w.setTmp id [] with db.nextSSTID := id, flusher := .writing id imm }
  | _ => w

def flushGrow (w : TableStore) (data : Bytes) : TableStore :=
  match w.flusher with
  | .writing id _ => w.setTmp id data
  | _ => w

def flushClose (env : Env) (w : TableStore) (leftover : Option Bytes) : TableStore :=
  match w.flusher with
  | .writing id imm =>
    match Sst.writeTable env.sizing defaultBlockSize imm.len imm.entries with
    | .ok file => { w.renameTmp id file with flusher := .closed id }
    | .error _ => { w.abandonTmp id leftover with flusher := .failed id }
  | _ => w

/-- `os.Remove(path)` on the way out of a failed flush. -/
def flushRemove (w : TableStore) : TableStore :=
  match w.flusher with
  | .failed id => { w.removeTable id with flusher := .idle }
  | _ => w

def flushOpen (w : TableStore) : TableStore :=
  match w.flusher with
  | .closed id =>
    match w.openTable id with
    | .error _ => { w with flusher := .failed id }
    | .ok r => { w.register r with flusher := .opened r }
  | _ => w

/-- `AppendNewFile`. -/
def flushCommit (w : TableStore) : TableStore :=
  match w.flusher with
  | .opened r =>
    match (Manifest.Call.newFile r.id).run w.db.manifest with
    | (manifest, none) => { w with db.manifest := manifest, flusher := .committed r }
    | (manifest, some _) =>
      { w.closeReader r.fileID with db.manifest := manifest, flusher := .failed r.id }
  | _ => w

def flushPublish (w : TableStore) : TableStore :=
  match w.flusher with
  | .committed r => { w with db.sstables := w.db.sstables ++ [r], flusher := .published }
  | _ => w

/-- `MaybeCompact`; its error is logged only. -/
def flushRotate (w : TableStore) : TableStore :=
  match w.flusher with
  | .published =>
    { w with db.manifest := Manifest.Call.maybeCompact.step w.db.manifest, flusher := .idle }
  | _ => w

/-! ### The compactor -/

def pick (w : TableStore) : TableStore :=
  match w.compactor with
  | .idle =>
    let compReaders := pickSSTablesForCompactionLocked w.db
    if compReaders.length < 2 then w
    else
      match liveIDsFromReaders w.db.sstables with
      | .error _ => w
      | .ok oldLiveIDs =>
        if readersStillPresent w.db.sstables compReaders then
          { w with compactor := .picked compReaders oldLiveIDs }
        else w
  | _ => w

/-- `mergeSSTables` up to the new writer. -/
def mergeBegin (w : TableStore) : TableStore :=
  match w.compactor with
  | .picked compReaders oldLiveIDs =>
    match sumEntryCounts compReaders with
    -- no id was drawn so far
    | .error _ => { w with compactor := .idle }
    | .ok expectedEntries =>
      let id := w.db.nextSSTID + 1
      { w.setTmp id [] with
        db.nextSSTID := id
        compactor := .writing compReaders oldLiveIDs id expectedEntries }
  | _ => w

def mergeGrow (w : TableStore) (data : Bytes) : TableStore :=
  match w.compactor with
  | .writing _ _ id _ => w.setTmp id data
  | _ => w

def mergeClose (env : Env) (w : TableStore) (leftover : Option Bytes) : TableStore :=
  match w.compactor with
  | .writing compReaders oldLiveIDs id expectedEntries =>
    match Sst.mergeTables env.sizing defaultBlockSize expectedEntries compReaders with
    | .ok file => { w.renameTmp id file with compactor := .closed compReaders oldLiveIDs id }
    | .error _ => { w.abandonTmp id leftover with compactor := .failed id }
  | _ => w

/-- `os.Remove` of the merged table on the way out of a failed compaction. -/
def mergeRemove (w : TableStore) : TableStore :=
  match w.compactor with
  | .failed id => { w.removeTable id with compactor := .idle }
  | _ => w

def mergeOpen (w : TableStore) : TableStore :=
  match w.compactor with
  | .closed compReaders oldLiveIDs id =>
    match w.openTable id with
    | .error _ => { w with compactor := .failed id }
    | .ok r => { w.register r with compactor := .merged compReaders oldLiveIDs r }
  | _ => w

def build (w : TableStore) : TableStore :=
  match w.compactor with
  | .merged compReaders oldLiveIDs newReader =>
    if readersStillPresent w.db.sstables compReaders then
      let newList := buildNewList w.db.sstables compReaders newReader
      match liveIDsFromReaders newList with
      | .error _ => { w.closeReader newReader.fileID with compactor := .failed newReader.id }
      | .ok liveIDs =>
        { w with compactor := .built compReaders oldLiveIDs newReader newList liveIDs }
    -- an input has vanished while the merge ran without the lock
    else { w.closeReader newReader.fileID with compactor := .failed newReader.id }
  | _ => w

def setFileSet (w : TableStore) : TableStore :=
  match w.compactor with
  | .built compReaders oldLiveIDs newReader newList liveIDs =>
    match (Manifest.Call.setFileSet liveIDs).run w.db.manifest with
    | (manifest, none) =>
      { w with
        db.manifest := manifest
        compactor := .manifested compReaders oldLiveIDs newReader newList }
    | (manifest, some _) =>
      { w.closeReader newReader.fileID with
        db.manifest := manifest
        compactor := .failed newReader.id }
  | _ => w

def swap (w : TableStore) : TableStore :=
  match w.compactor with
  | .manifested compReaders oldLiveIDs newReader newList =>
    if readersStillPresent w.db.sstables compReaders then
      { w with db.sstables := newList, compactor := .swapped compReaders }
    -- the manifest has the new set already
    else { w with compactor := .vanished oldLiveIDs newReader }
  | _ => w

/-- The old ids are put back if an input has vanished. -/
def rollback (w : TableStore) : TableStore :=
  match w.compactor with
  | .vanished oldLiveIDs newReader =>
    { w.closeReader newReader.fileID with
      db.manifest := (Manifest.Call.setFileSet oldLiveIDs).step w.db.manifest
      compactor := .failed newReader.id }
  | _ => w

def compactRotate (w : TableStore) : TableStore :=
  match w.compactor with
  | .swapped compReaders =>
    { w with
      db.manifest := Manifest.Call.maybeCompact.step w.db.manifest
      compactor := .discarding compReaders }
  | _ => w

/-! ### `Discard` and `Unref` -/

/-- `closePending.Store(true)` for the next input. -/
def discardBegin (w : TableStore) : TableStore :=
  match w.compactor with
  | .discarding [] => { w with compactor := .idle }
  | .discarding (r :: todo) =>
    { w.modify r.fileID fun h => { h with closePending := true } with compactor := .closing r todo }
  | _ => w

/-- `discardPending.Store(true)`. -/
def discardMark (w : TableStore) : TableStore :=
  match w.compactor with
  | .closing r todo =>
    { w.modify r.fileID fun h => { h with discardPending := true } with
      compactor := .marked r todo }
  | _ => w

/-- The file is closed here if nobody uses it. -/
def discardCheck (w : TableStore) : TableStore :=
  match w.compactor with
  | .marked r todo =>
    let w := { w with compactor := .discarding todo }
    match w.handles r.fileID with
    | none => w
    -- with a reference left, the last `Unref` closes the file
    | some h => if h.refs = 0 then w.closeFile r.fileID else w
  | _ => w

/-- A lookup or a scan takes a reader of the list. -/
def ref (w : TableStore) (p : Nat) : TableStore :=
  if w.db.sstables.any fun r => r.fileID = p then w.modify p fun h => { h with refs := h.refs + 1 }
  else w

/-- `refs.Add(-1)`. -/
def unref (w : TableStore) (p : Nat) : TableStore :=
  match w.handles p with
  | none => w
  | some h =>
    { w.modify p fun h => { h with refs := h.refs - 1 } with
      zeroed := if h.refs - 1 = 0 then p :: w.zeroed else w.zeroed }

/-- The rest of an `Unref` that has brought the count to zero. -/
def unrefCheck (w : TableStore) (p : Nat) : TableStore :=
  if p ∈ w.zeroed then
    let w := { w with zeroed := w.zeroed.erase p }
    match w.handles p with
    | none => w
    | some h => if h.closePending then w.closeFile p else w
  else w

def step (env : Env) (w : TableStore) : TableStep → TableStore
  | .flushBegin imm => w.flushBegin imm
  | .flushGrow data => w.flushGrow data
  | .flushClose leftover => w.flushClose env leftover
  | .flushRemove => w.flushRemove
  | .flushOpen => w.flushOpen
  | .flushCommit => w.flushCommit
  | .flushPublish => w.flushPublish
  | .flushRotate => w.flushRotate
  | .pick => w.pick
  | .mergeBegin => w.mergeBegin
  | .mergeGrow data => w.mergeGrow data
  | .mergeClose leftover => w.mergeClose env leftover
  | .mergeRemove => w.mergeRemove
  | .mergeOpen => w.mergeOpen
  | .build => w.build
  | .setFileSet => w.setFileSet
  | .swap => w.swap
  | .rollback => w.rollback
  | .compactRotate => w.compactRotate
  | .discardBegin => w.discardBegin
  | .discardMark => w.discardMark
  | .discardCheck => w.discardCheck
  | .ref p => w.ref p
  | .unref p => w.unref p
  | .unrefCheck p => w.unrefCheck p

/-- The manifest call that a step makes, if it makes one in this state. -/
def call (w : TableStore) : TableStep → Option Manifest.Call
  | .flushCommit =>
    match w.flusher with
    | .opened r => some (.newFile r.id)
    | _ => none
  | .flushRotate =>
    match w.flusher with
    | .published => some .maybeCompact
    | _ => none
  | .setFileSet =>
    match w.compactor with
    | .built _ _ _ _ liveIDs => some (.setFileSet liveIDs)
    | _ => none
  | .rollback =>
    match w.compactor with
    | .vanished oldLiveIDs _ => some (.setFileSet oldLiveIDs)
    | _ => none
  | .compactRotate =>
    match w.compactor with
    | .swapped _ => some .maybeCompact
    | _ => none
  | _ => none

end TableStore

/-! ### Steps of a worker on its own -/

/-- No table is being written, and none waits to enter the list. -/
def FlushStage.Settled : FlushStage → Prop
  | .writing _ _ => False
  | .committed _ => False
  | _ => True

def CompactStage.Settled : CompactStage → Prop
  | .writing _ _ _ _ => False
  | .manifested _ _ _ _ => False
  | _ => True

/-- The steps that draw no id, rename no file, change no list and do not call the manifest. -/
def TableStep.isLocal : TableStep → Bool
  | .flushGrow _ | .flushRemove | .flushOpen | .pick | .mergeGrow _ | .mergeRemove | .mergeOpen
  | .build | .discardBegin | .discardMark | .discardCheck | .ref _ | .unref _ | .unrefCheck _ => true
  | .flushBegin _ | .flushClose _ | .flushCommit | .flushPublish | .flushRotate | .mergeBegin
  | .mergeClose _ | .setFileSet | .swap | .rollback | .compactRotate => false

namespace TableStore

/-- What such a step leaves: it may remove a table file and settle a worker. -/
structure Local (w w' : TableStore) : Prop where
  sstables : w'.db.sstables = w.db.sstables
  nextSSTID : w'.db.nextSSTID = w.db.nextSSTID
  manifest : w'.db.manifest = w.db.manifest
  files : w'.ssts ⊆ w.ssts
  flusher : w'.flusher = w.flusher ∨ w'.flusher.Settled
  compactor : w'.compactor = w.compactor ∨ w'.compactor.Settled

variable {w w' w'' : TableStore}

theorem Local.same (db : w'.db.sstables = w.db.sstables ∧ w'.db.nextSSTID = w.db.nextSSTID ∧
      w'.db.manifest = w.db.manifest) (files : w'.ssts ⊆ w.ssts) (flusher : w'.flusher = w.flusher)
    (compactor : w'.compactor = w.compactor) : Local w w' :=
  ⟨db.1, db.2.1, db.2.2, files, .inl flusher, .inl compactor⟩

theorem Local.refl (w : TableStore) : Local w w :=
  .same ⟨rfl, rfl, rfl⟩ (List.Subset.refl _) rfl rfl

theorem Local.trans (first : Local w w') (second : Local w' w'') : Local w w'' where
  sstables := second.sstables.trans first.sstables
  nextSSTID := second.nextSSTID.trans first.nextSSTID
  manifest := second.manifest.trans first.manifest
  files := List.Subset.trans second.files first.files
  flusher := by
    rcases second.flusher with same | settled
    · rw [same]
      exact first.flusher
    · exact .inr settled
  compactor := by
    rcases second.compactor with same | settled
    · rw [same]
      exact first.compactor
    · exact .inr settled

theorem Local.settleFlusher (before : Local w w') (stage : FlushStage) (settled : stage.Settled) :
    Local w { w' with flusher := stage } :=
  ⟨before.sstables, before.nextSSTID, before.manifest, before.files, .inr settled, before.compactor⟩

theorem Local.settleCompactor (before : Local w w') (stage : CompactStage)
    (settled : stage.Settled) : Local w { w' with compactor := stage } :=
  ⟨before.sstables, before.nextSSTID, before.manifest, before.files, before.flusher, .inr settled⟩

/-- The readers' fields are nobody's but the readers'. -/
theorem modify_local (w : TableStore) (p : Nat) (f : Handle → Handle) : Local w (w.modify p f) :=
  .same ⟨rfl, rfl, rfl⟩ (List.Subset.refl _) rfl rfl

theorem removeTable_local (w : TableStore) (id : UInt64) : Local w (w.removeTable id) :=
  .same ⟨rfl, rfl, rfl⟩ (List.filter_subset_self _) rfl rfl

theorem closeFile_local (w : TableStore) (p : Nat) : Local w (w.closeFile p) := by
  rw [closeFile]
  split
  · exact .refl w
  next h _ =>
    have closed := w.modify_local p fun h => { h with fileClosed := true }
    split
    · exact .refl w
    · dsimp only
      split
      · exact closed.trans (removeTable_local _ h.path)
      · exact closed

theorem closeReader_local (w : TableStore) (p : Nat) : Local w (w.closeReader p) := by
  have pending := w.modify_local p fun h => { h with closePending := true }
  simp only [closeReader]
  split
  · exact pending
  · split
    · exact pending.trans (closeFile_local _ p)
    · exact pending

theorem register_local (w : TableStore) (r : Reader) : Local w (w.register r) :=
  .same ⟨rfl, rfl, rfl⟩ (List.Subset.refl _) rfl rfl

theorem pick_local (w : TableStore) : Local w w.pick := by
  simp only [pick]
  split
  · split
    · exact .refl w
    · split
      · exact .refl w
      · split
        · exact (Local.refl w).settleCompactor _ trivial
        · exact .refl w
  · exact .refl w

theorem build_local (w : TableStore) : Local w w.build := by
  simp only [build]
  split
  next comp old new _ =>
    have gaveUp := (w.closeReader_local new.fileID).settleCompactor (.failed new.id) trivial
    split
    · split
      · exact gaveUp
      · exact (Local.refl w).settleCompactor _ trivial
    · exact gaveUp
  · exact .refl w

theorem discardCheck_local (w : TableStore) : Local w w.discardCheck := by
  simp only [discardCheck]
  split
  next r todo _ =>
    have next := (Local.refl w).settleCompactor (.discarding todo) trivial
    split
    · exact next
    · split
      · exact next.trans (closeFile_local _ r.fileID)
      · exact next
  · exact .refl w

theorem unrefCheck_local (w : TableStore) (p : Nat) : Local w (w.unrefCheck p) := by
  have counted : Local w { w with zeroed := w.zeroed.erase p } :=
    .same ⟨rfl, rfl, rfl⟩ (List.Subset.refl _) rfl rfl
  simp only [unrefCheck]
  split
  · split
    · exact counted
    · split
      · exact counted.trans (closeFile_local _ p)
      · exact counted
  · exact .refl w

theorem step_local (env : Env) (w : TableStore) (i : TableStep) (isLocal : i.isLocal = true) :
    Local w (w.step env i) := by
  have setTmp_local (id : UInt64) (data : Bytes) : Local w (w.setTmp id data) :=
    .same ⟨rfl, rfl, rfl⟩ (List.Subset.refl _) rfl rfl
  cases i with
  | pick => exact w.pick_local
  | build => exact w.build_local
  | discardCheck => exact w.discardCheck_local
  | unrefCheck p => exact w.unrefCheck_local p
  | flushGrow data =>
    simp only [step, flushGrow]
    split
    · exact setTmp_local _ data
    · exact .refl w
  | flushRemove =>
    simp only [step, flushRemove]
    split
    · exact (w.removeTable_local _).settleFlusher _ trivial
    · exact .refl w
  | flushOpen =>
    simp only [step, flushOpen]
    split
    · split
      · exact (Local.refl w).settleFlusher _ trivial
      · exact (w.register_local _).settleFlusher _ trivial
    · exact .refl w
  | mergeGrow data =>
    simp only [step, mergeGrow]
    split
    · exact setTmp_local _ data
    · exact .refl w
  | mergeRemove =>
    simp only [step, mergeRemove]
    split
    · exact (w.removeTable_local _).settleCompactor _ trivial
    · exact .refl w
  | mergeOpen =>
    simp only [step, mergeOpen]
    split
    · split
      · exact (Local.refl w).settleCompactor _ trivial
      · exact (w.register_local _).settleCompactor _ trivial
    · exact .refl w
  | discardBegin =>
    simp only [step]
    rw [discardBegin.eq_def]
    split
    · exact (Local.refl w).settleCompactor _ trivial
    · exact (w.modify_local _ _).settleCompactor _ trivial
    · exact .refl w
  | discardMark =>
    simp only [step, discardMark]
    split
    · exact (w.modify_local _ _).settleCompactor _ trivial
    · exact .refl w
  | ref p =>
    simp only [step, ref]
    split
    · exact w.modify_local p _
    · exact .refl w
  | unref p =>
    simp only [step, unref]
    split
    · exact .refl w
    · exact .same ⟨rfl, rfl, rfl⟩ (List.Subset.refl _) rfl rfl
  | flushBegin | flushClose | flushCommit | flushPublish | flushRotate | mergeBegin | mergeClose
  | setFileSet | swap | rollback | compactRotate => cases isLocal

end TableStore

end PebbleDB.Db
