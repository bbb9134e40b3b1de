import Mathlib.Data.Finset.Sort
import Mathlib.Data.List.Sort
import PebbleDB.Manifest.Format

/-!
# The manifest log

The directory side is what survives a restart: `CURRENT` and the manifest files it
may name (a file is known by its number). The `Log` side is the open handle with
the live set in memory. Every file operation takes an answer of the operating
system, so that each of them can fail on its own.
-/
namespace PebbleDB.Manifest

open Framing

/-- The manifest number `CURRENT` names, and the content of each manifest file.
`CURRENT` is replaced by a rename, so it is never seen half written. -/
structure Dir where
  current : Option Nat
  files : Nat → Option Bytes

def Dir.empty : Dir := ⟨none, fun _ => none⟩

def Dir.write (d : Dir) (n : Nat) (data : Bytes) : Dir :=
  { d with files := Function.update d.files n (some data) }

def Dir.remove (d : Dir) (n : Nat) : Dir :=
  { d with files := Function.update d.files n none }

/-- The bytes of a manifest file; opening with `O_CREATE` makes a missing one empty. -/
def Dir.read (d : Dir) (n : Nat) : Bytes := (d.files n).getD []

/-- `Log`: `path` is the number of the manifest in use, `fileOpen` whether its handle
still is. -/
structure Log where
  path : Nat
  fileOpen : Bool
  liveSet : Finset UInt64
  recordCount : Nat
  deriving DecidableEq

/-- `LiveIDs`: the live set in ascending order. -/
def Log.liveIDs (l : Log) : List UInt64 :=
  Quot.liftOn l.liveSet.val (fun ids => ids.insertionSort (· ≤ ·)) fun ids ids' same =>
    ((List.perm_insertionSort _ ids).trans (same.trans (List.perm_insertionSort _ ids').symm)
      ).eq_of_pairwise' (List.pairwise_insertionSort _ ids) (List.pairwise_insertionSort _ ids')

theorem Log.mem_liveIDs (l : Log) (id : UInt64) : id ∈ l.liveIDs ↔ id ∈ l.liveSet := by
  obtain ⟨path, fileOpen, ⟨⟨ids⟩, nodup⟩, count⟩ := l
  exact List.mem_insertionSort _

theorem Log.liveIDs_length (l : Log) : l.liveIDs.length = l.liveSet.card := by
  obtain ⟨path, fileOpen, ⟨⟨ids⟩, nodup⟩, count⟩ := l
  exact List.length_insertionSort _ ids

theorem Log.liveIDs_toFinset (l : Log) : l.liveIDs.toFinset = l.liveSet := by
  ext id
  rw [List.mem_toFinset, l.mem_liveIDs]

theorem Log.liveIDs_ascending (l : Log) : l.liveIDs.Pairwise (· < ·) := by
  obtain ⟨path, fileOpen, ⟨⟨ids⟩, nodup⟩, count⟩ := l
  have sorted := List.pairwise_insertionSort (· ≤ ·) ids
  have distinct : (ids.insertionSort (· ≤ ·)).Nodup := (List.perm_insertionSort _ ids).symm.nodup nodup
  exact (sorted.and distinct).imp fun both => lt_of_le_of_ne both.1 both.2

/-- The only ascending list of a set is the one `LiveIDs` returns. -/
theorem Log.liveIDs_eq (l : Log) (ids : List UInt64) (ascending : ids.Pairwise (· < ·))
    (same : l.liveSet = ids.toFinset) : l.liveIDs = ids := by
  have perm : l.liveIDs.Perm ids := by
    rw [List.perm_ext_iff_of_nodup (l.liveIDs_ascending.imp ne_of_lt) (ascending.imp ne_of_lt)]
    intro id
    rw [l.mem_liveIDs, same, List.mem_toFinset]
  exact perm.eq_of_pairwise' (l.liveIDs_ascending.imp le_of_lt) (ascending.imp le_of_lt)

def initialManifest : Nat := 1

/-- `nextManifestName`, a uint64 successor. -/
def nextManifestName (n : Nat) : Nat := if n = 0 then initialManifest else (n + 1) % 2 ^ 64

/-! ### Replay -/

structure Replayed where
  liveSet : Finset UInt64
  recordCount : Nat
  file : Bytes
  err : Option Error
  deriving DecidableEq

/-- The loop of `replay` at offset `validEnd`. A record that cannot be read truncates
the file there (`salvageManifestTail`); an edit that cannot be applied is returned. -/
def replayLoop (data : Bytes) : Nat → Finset UInt64 → Nat → Nat → Replayed
  | 0, live, count, _ => ⟨live, count, data, none⟩
  | fuel + 1, live, count, validEnd =>
    match readRecord (data.drop validEnd) with
    | .error .eof => ⟨live, count, data.take validEnd, none⟩
    | .error .unexpectedEOF => ⟨live, count, data.take validEnd, none⟩
    | .error e => ⟨live, count, data, some e⟩
    | .ok (payload, n) =>
      match applyEdit live payload with
      | .error e => ⟨live, count, data, some e⟩
      | .ok next => replayLoop data fuel next (count + 1) (validEnd + n)

def replay (data : Bytes) : Replayed := replayLoop data (data.length + 1) ∅ 0 0

/-- `Open`: a directory without `CURRENT` starts the initial manifest. -/
def openLog (d : Dir) : Except Error (Log × Dir) :=
  let n := d.current.getD initialManifest
  let result := replay (d.read n)
  match result.err with
  | some e => .error e
  | none => .ok (⟨n, true, result.liveSet, result.recordCount⟩,
      { d.write n result.file with current := some n })

/-! ### Appending -/

/-- The answers to the `Write` and the `Sync` of one append. -/
structure AppendFaults where
  write : Option Nat
  syncFails : Bool
  deriving DecidableEq

def AppendFaults.none : AppendFaults := ⟨.none, false⟩

/-- The log and its directory. -/
structure State where
  log : Log
  dir : Dir

/-- `append`: bytes stored by a failed write or before a failed sync stay in the file. -/
def append (s : State) (e : Edit) (faults : AppendFaults) : State × Option Error :=
  if s.log.fileOpen then
    let data := s.dir.read s.log.path
    match faults.write with
    -- the part that was written stays in the file
    | some n => ({ s with dir := s.dir.write s.log.path (data ++ e.encoded.take n) }, some .io)
    | .none =>
      let dir := s.dir.write s.log.path (data ++ e.encoded)
      if faults.syncFails then ({ s with dir := dir }, some .io)
      else
        ({ log := { s.log with
            liveSet := e.apply s.log.liveSet
            recordCount := s.log.recordCount + 1 }
           dir := dir }, .none)
  else (s, some .io)

def appendNewFile (s : State) (id : UInt64) (faults : AppendFaults) : State × Option Error :=
  append s (.newFile id) faults

/-- `AppendSetFileSet` sorts a copy of the ids first. -/
def appendSetFileSet (s : State) (ids : List UInt64) (faults : AppendFaults) :
    State × Option Error :=
  append s (.setFileSet (ids.insertionSort (· ≤ ·))) faults

/-- `BootstrapIfEmpty` adopts the tables of a directory without a live set. -/
def bootstrapIfEmpty (s : State) (ids : List UInt64) (faults : AppendFaults) :
    State × Option Error :=
  if s.log.liveSet ≠ ∅ ∨ ids = [] then (s, .none) else appendSetFileSet s ids faults

/-! ### Rotation -/

/-- The answers to the file operations of a rotation, in their order. `current` is any
step of `writeCurrent` up to the rename. -/
structure RotateFaults where
  createFails : Bool
  write : Option Nat
  syncFails : Bool
  closeFails : Bool
  currentFails : Bool
  reopenFails : Bool
  removeNewFails : Bool
  removeOldFails : Bool
  deriving DecidableEq

def RotateFaults.none : RotateFaults :=
  ⟨false, .none, false, false, false, false, false, false⟩

def compactRecordThreshold : Nat := 64
def compactSizeThreshold : Nat := 64 * 2 ^ 10

/-- `Stat` of a closed handle fails, which counts as no need. -/
def compactionNeededLocked (s : State) : Bool :=
  if compactRecordThreshold ≤ s.log.recordCount then true
  else if s.log.fileOpen then compactSizeThreshold ≤ (s.dir.read s.log.path).length
  else false

/-- Undo of a failed rotation: `os.Remove(newPath)`, whose own error is ignored. -/
def cleanupNew (s : State) (dir : Dir) (newPath : Nat) (faults : RotateFaults) :
    State × Option Error :=
  ({ s with dir := if faults.removeNewFails then dir else dir.remove newPath }, some .io)

def rotateSnapshotLocked (s : State) (faults : RotateFaults) : State × Option Error :=
  let oldPath := s.log.path
  let newPath := nextManifestName oldPath
  let record := (Edit.setFileSet s.log.liveIDs).encoded
  if faults.createFails then (s, some .io)
  else
    match faults.write with
    -- as long as `CURRENT` names the old file, the new one is removed again
    | some n => cleanupNew s (s.dir.write newPath (record.take n)) newPath faults
    | .none =>
      let dir := s.dir.write newPath record
      if faults.syncFails then cleanupNew s dir newPath faults
      else if faults.closeFails then cleanupNew s dir newPath faults
      else if faults.currentFails then cleanupNew s dir newPath faults
      else
        let dir := { dir with current := some newPath }
        -- the old handle is closed before the new file is opened
        if faults.reopenFails then ({ log := { s.log with fileOpen := false }, dir }, some .io)
        else
          ({ log := { s.log with path := newPath, fileOpen := true, recordCount := 1 }
             dir := if oldPath = newPath ∨ faults.removeOldFails then dir
               else dir.remove oldPath }, .none)

def maybeCompact (s : State) (faults : RotateFaults) : State × Option Error :=
  if compactionNeededLocked s then rotateSnapshotLocked s faults else (s, .none)

/-! ### Replay as a scan -/

/-- The reason a replay stopped decides what is left of the file. -/
def settle (data : Bytes) (validEnd : Nat) (live : Finset UInt64) (count : Nat) :
    Option Error → Replayed
  | none => ⟨live, count, data, none⟩
  | some .eof => ⟨live, count, data.take validEnd, none⟩
  | some .unexpectedEOF => ⟨live, count, data.take validEnd, none⟩
  | some e => ⟨live, count, data, some e⟩

theorem replayLoop_eq_scan (data : Bytes) (fuel : Nat) (live live' : Finset UInt64)
    (count validEnd : Nat)
    (applied : (scan readRecord fuel (data.drop validEnd)).items.foldlM applyEdit live =
      .ok live') :
    replayLoop data fuel live count validEnd =
      settle data (validEnd + (scan readRecord fuel (data.drop validEnd)).consumed) live'
        (count + (scan readRecord fuel (data.drop validEnd)).items.length)
        (scan readRecord fuel (data.drop validEnd)).stop := by
  induction fuel generalizing live count validEnd with
  | zero =>
    simp only [scan, List.foldlM_nil, Except.pure_eq_ok, Except.ok.injEq] at applied
    simp [replayLoop, scan, settle, applied]
  | succ fuel ih =>
    cases h : readRecord (data.drop validEnd) with
    | error e =>
      simp only [scan, h, List.foldlM_nil, Except.pure_eq_ok, Except.ok.injEq] at applied
      cases e <;> simp [replayLoop, scan, h, settle, applied]
    | ok frame =>
      obtain ⟨payload, n⟩ := frame
      simp only [scan, h, List.foldlM_cons, List.drop_drop] at applied
      rw [Except.bind_eq_ok] at applied
      obtain ⟨next, first, later⟩ := applied
      simp only [replayLoop, scan, h, first, List.drop_drop, List.length_cons]
      rw [ih next (count + 1) (validEnd + n) later]
      congr 1 <;> omega

/-- The outcome of a replay whose edits can all be applied. -/
theorem replay_eq_settle (data : Bytes) (live : Finset UInt64)
    (applied : (scan readRecord (data.length + 1) data).items.foldlM applyEdit ∅ = .ok live) :
    replay data = settle data (scan readRecord (data.length + 1) data).consumed live
      (scan readRecord (data.length + 1) data).items.length
      (scan readRecord (data.length + 1) data).stop := by
  have loop := replayLoop_eq_scan data (data.length + 1) ∅ live 0 0
    (by rw [List.drop_zero]; exact applied)
  rwa [List.drop_zero, Nat.zero_add, Nat.zero_add] at loop

/-- Replay succeeds with `live`, all but a torn tail of `data` being whole records. -/
structure Replays (data : Bytes) (live : Finset UInt64) : Prop where
  applied : (scan readRecord (data.length + 1) data).items.foldlM applyEdit ∅ = .ok live
  stopped : (scan readRecord (data.length + 1) data).stop = some .eof ∨
    (scan readRecord (data.length + 1) data).stop = some .unexpectedEOF

/-- The bytes of the manifest end with a whole record. -/
def WholeRecords (data : Bytes) : Prop :=
  (scan readRecord (data.length + 1) data).stop = some .eof

instance (data : Bytes) : Decidable (WholeRecords data) := inferInstanceAs (Decidable (_ = _))

/-- The outcome of a replay that succeeds. -/
theorem Replays.replay_eq {data : Bytes} {live : Finset UInt64} (replays : Replays data live) :
    Manifest.replay data = ⟨live, (scan readRecord (data.length + 1) data).items.length,
      data.take (scan readRecord (data.length + 1) data).consumed, none⟩ := by
  rw [replay_eq_settle data live replays.applied]
  rcases replays.stopped with clean | torn
  · rw [clean, settle]
  · rw [torn, settle]

theorem Replays.replay (data : Bytes) (live : Finset UInt64) (replays : Replays data live) :
    (replay data).liveSet = live ∧ (replay data).err = none ∧
      (replay data).file = data.take (scan readRecord (data.length + 1) data).consumed := by
  rw [replays.replay_eq]
  exact ⟨rfl, rfl, rfl⟩

end PebbleDB.Manifest
