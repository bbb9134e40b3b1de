import PebbleDB.Lib.Crash
import PebbleDB.Manifest.Intact

/-!
# Crashes of the manifest

Every call on the manifest is a short list of file steps. A crash leaves the steps
before it and, inside a `Write`, any front of the bytes. Reopening then finds the live
set from before or after the call; inside a rotation both are the same. The one limit
is the 32-bit length of a record: a file set of more than `maxRecordIDs` ids is written
with a length that has wrapped, and the next `Open` cuts the manifest off there.
-/
namespace PebbleDB.Manifest

open Framing

/-! ### Calls and their file steps -/

inductive Call where
  | newFile (id : UInt64)
  | setFileSet (ids : List UInt64)
  | bootstrapIfEmpty (ids : List UInt64)
  | maybeCompact
  deriving DecidableEq

/-- A call none of whose file operations fails. -/
def Call.run (s : State) : Call → State × Option Error
  | .newFile id => appendNewFile s id .none
  | .setFileSet ids => appendSetFileSet s ids .none
  | .bootstrapIfEmpty ids => Manifest.bootstrapIfEmpty s ids .none
  | .maybeCompact => Manifest.maybeCompact s .none

/-- The file operations of a call, on manifest files by number. -/
inductive FileStep where
  | create (n : Nat)
  | write (n : Nat) (data : Bytes)
  | sync (n : Nat)
  | close (n : Nat)
  | stageCurrent (n : Nat)
  | renameCurrent (n : Nat)
  | reopen (n : Nat)
  | remove (n : Nat)

/-- What a step does to the directory. `stageCurrent` writes `CURRENT.tmp`, which nothing
reads, and syncing, closing or opening a file does not change it. -/
def FileStep.run (d : Dir) : FileStep → Dir
  | .create n => d.write n []
  | .write n data => d.write n (d.read n ++ data)
  | .sync _ => d
  | .close _ => d
  | .stageCurrent _ => d
  | .renameCurrent n => { d with current := some n }
  | .reopen _ => d
  | .remove n => d.remove n

/-- What a crash inside a step leaves: of a write the first `m` bytes, of any other step
nothing. -/
def FileStep.cut (d : Dir) (step : FileStep) (m : Nat) : Dir :=
  match step with
  | .write n data => d.write n (d.read n ++ data.take m)
  | _ => d

def appendSteps (s : State) (e : Edit) : List FileStep :=
  [.write s.log.path e.encoded, .sync s.log.path]

def rotateSteps (s : State) : List FileStep :=
  let oldPath := s.log.path
  let newPath := nextManifestName oldPath
  [.create newPath, .write newPath (Edit.setFileSet s.log.liveIDs).encoded, .sync newPath,
    .close newPath, .stageCurrent newPath, .renameCurrent newPath, .close oldPath,
    .reopen newPath, .remove oldPath]

def Call.steps (s : State) : Call → List FileStep
  | .newFile id => appendSteps s (.newFile id)
  | .setFileSet ids => appendSteps s (.setFileSet (ids.insertionSort (· ≤ ·)))
  | .bootstrapIfEmpty ids =>
    if s.log.liveSet ≠ ∅ ∨ ids = [] then []
    else appendSteps s (.setFileSet (ids.insertionSort (· ≤ ·)))
  | .maybeCompact => if compactionNeededLocked s then rotateSteps s else []

theorem Dir.write_write (d : Dir) (n : Nat) (data data' : Bytes) :
    (d.write n data).write n data' = d.write n data' := by
  simp [Dir.write]

theorem appendSteps_run (s : State) (e : Edit) (isOpen : s.log.fileOpen = true) :
    (append s e .none).1.dir = (appendSteps s e).foldl FileStep.run s.dir := by
  rw [append_none s e isOpen]
  rfl

theorem rotateSteps_run (s : State) :
    (rotateSnapshotLocked s .none).1.dir = (rotateSteps s).foldl FileStep.run s.dir := by
  have ne := nextManifestName_ne s.log.path
  simp [rotateSnapshotLocked, rotateSteps, RotateFaults.none, FileStep.run, ne.symm,
    Dir.write_write]

/-- The steps of a call, all taken, leave the directory of the call. -/
theorem Call.steps_run (s : State) (c : Call) (isOpen : s.log.fileOpen = true) :
    (c.run s).1.dir = (c.steps s).foldl FileStep.run s.dir := by
  cases c with
  | newFile id => exact appendSteps_run s _ isOpen
  | setFileSet ids => exact appendSteps_run s _ isOpen
  | bootstrapIfEmpty ids =>
    simp only [Call.run, Call.steps, Manifest.bootstrapIfEmpty]
    split
    · rfl
    · exact appendSteps_run s _ isOpen
  | maybeCompact =>
    simp only [Call.run, Call.steps, Manifest.maybeCompact]
    split
    · exact rotateSteps_run s
    · rfl

/-- Without a failing file operation every call on an open manifest returns nil. -/
theorem Call.run_returns_nil (s : State) (c : Call) (isOpen : s.log.fileOpen = true) :
    (c.run s).2 = none := by
  cases c with
  | newFile id => exact congrArg Prod.snd (append_none s _ isOpen)
  | setFileSet ids => exact congrArg Prod.snd (append_none s _ isOpen)
  | bootstrapIfEmpty ids =>
    simp only [Call.run, Manifest.bootstrapIfEmpty]
    split
    · rfl
    · exact congrArg Prod.snd (append_none s _ isOpen)
  | maybeCompact =>
    simp only [Call.run, Manifest.maybeCompact]
    split
    · simp [rotateSnapshotLocked, RotateFaults.none]
    · rfl

/-! ### Reopening -/

/-- `Open` succeeds and finds `live`, and so does a further one. -/
def Reopens (d : Dir) (live : Finset UInt64) : Prop :=
  ∃ log dir, openLog d = .ok (log, dir) ∧ log.liveSet = live ∧
    ∃ log' dir', openLog dir = .ok (log', dir') ∧ log'.liveSet = live

/-- Wherever the call is cut off, reopening finds the live set of before or after it,
and that of before if the call is a rotation. -/
def Call.CrashConsistent (s : State) (c : Call) : Prop :=
  Crash.Survives FileStep.run FileStep.cut
    (fun d => (Reopens d s.log.liveSet ∨ Reopens d (c.run s).1.log.liveSet) ∧
      (c = .maybeCompact → Reopens d s.log.liveSet))
    s.dir (c.steps s)

/-- `CURRENT` names a file that replays to `live`. -/
def Dir.Holds (d : Dir) (live : Finset UInt64) : Prop :=
  ∃ n, d.current = some n ∧ Replays (d.read n) live

theorem openLog_intact (d dir : Dir) (log : Log) (opened : openLog d = .ok (log, dir)) :
    Intact ⟨log, dir⟩ := by
  unfold openLog at opened
  simp only at opened
  split at opened
  · cases opened
  next returned =>
    have replays := replays_of_replay _ returned
    have file := (replays.replay _ _).2.2
    cases opened
    -- the file was truncated to the records that were read
    have read : ∀ n, ({ d.write n (replay (d.read n)).file with current := some n } : Dir).read n =
        (replay (d.read n)).file := fun n => Dir.read_write d n _
    refine ⟨rfl, rfl, ?_, ?_⟩
    · rw [read, file]
      exact replays.truncated _ _
    · rw [read, file]
      exact wholeRecords_truncated _

theorem Dir.Holds.reopens (d : Dir) (live : Finset UInt64) (holds : d.Holds live) :
    Reopens d live := by
  obtain ⟨n, current, replays⟩ := holds
  obtain ⟨found, noError, -⟩ := replays.replay
  have opened : openLog d = .ok (⟨n, true, (replay (d.read n)).liveSet,
      (replay (d.read n)).recordCount⟩,
      { d.write n (replay (d.read n)).file with current := some n }) := by
    simp only [openLog, current, Option.getD_some, noError]
  obtain ⟨log', dir', again, -, same⟩ := (openLog_intact d _ _ opened).openLog
  exact ⟨_, _, opened, found, log', dir', again, same.trans found⟩

/-! ### What a crash leaves -/

/-- A cut append leaves the old records and a front of the new one, which counts if it is
all there. -/
theorem appendSteps_leaves (s : State) (e : Edit) (intact : Intact s) (fits : Fits e.payload) :
    Crash.Survives FileStep.run FileStep.cut
      (fun d => (d.read s.log.path = s.dir.read s.log.path ++ e.encoded ∧
        d.Holds (e.apply s.log.liveSet)) ∨
        (d.read s.log.path ≠ s.dir.read s.log.path ++ e.encoded ∧ d.Holds s.log.liveSet)) s.dir
      (appendSteps s e) := by
  have done : (s.dir.write s.log.path (s.dir.read s.log.path ++ e.encoded)).Holds
      (e.apply s.log.liveSet) := by
    refine ⟨s.log.path, intact.current, ?_⟩
    rw [Dir.read_write]
    exact intact.replays.append_edit _ _ e intact.whole fits
  have all := Dir.read_write s.dir s.log.path (s.dir.read s.log.path ++ e.encoded)
  refine Crash.survives_cons ?_ (Crash.survives_cons (fun _ => .inl ⟨all, done⟩)
    (Crash.survives_nil (.inl ⟨all, done⟩)))
  intro m
  by_cases cut : m < e.encoded.length
  · refine .inr ⟨fun same => ?_, s.log.path, intact.current, ?_⟩
    · have short := congrArg List.length same
      simp only [FileStep.cut, Dir.read_write, List.length_append, List.length_take] at short
      omega
    · show Replays ((s.dir.write s.log.path _).read s.log.path) _
      rw [Dir.read_write]
      exact intact.replays.append_torn _ _ e m intact.whole fits cut
  · have whole : e.encoded.take m = e.encoded := List.take_of_length_le (by omega)
    simp only [FileStep.cut, whole]
    exact .inl ⟨all, done⟩

/-- The same, in terms of what the whole call leaves. -/
theorem append_leaves (s : State) (e : Edit) (intact : Intact s) (fits : Fits e.payload) (k m : Nat) :
    let d := Crash.crashed FileStep.run FileStep.cut s.dir (appendSteps s e) k m
    let s' := (append s e .none).1
    (d.read s.log.path = s'.dir.read s.log.path ∧ d.Holds s'.log.liveSet) ∨
      (d.read s.log.path ≠ s'.dir.read s.log.path ∧ d.Holds s.log.liveSet) := by
  have left := appendSteps_leaves s e intact fits k m
  have done := append_none s e intact.isOpen
  simp only [done, Dir.read_write]
  exact left

theorem appendSteps_survives (s : State) (e : Edit) (intact : Intact s) (fits : Fits e.payload) :
    Crash.Survives FileStep.run FileStep.cut
      (fun d => d.Holds s.log.liveSet ∨ d.Holds (e.apply s.log.liveSet)) s.dir
      (appendSteps s e) :=
  (appendSteps_leaves s e intact fits).imp fun _ left => (left.imp And.right And.right).symm

/-- A cut rotation leaves `CURRENT` on the old file, which is untouched until the rename,
or on the new one, which is complete by then. -/
theorem rotateSteps_survives (s : State) (intact : Intact s)
    (fits : Fits (Edit.setFileSet s.log.liveIDs).payload) :
    Crash.Survives FileStep.run FileStep.cut (fun d => d.Holds s.log.liveSet) s.dir
      (rotateSteps s) := by
  have ne := nextManifestName_ne s.log.path
  have snapshot := replays_snapshot s.log fits
  have start : s.dir.Holds s.log.liveSet := ⟨s.log.path, intact.current, intact.replays⟩
  have beforeRename : ∀ data,
      (s.dir.write (nextManifestName s.log.path) data).Holds s.log.liveSet := by
    intro data
    refine ⟨s.log.path, intact.current, ?_⟩
    rw [Dir.read_write_of_ne _ _ _ _ ne.symm]
    exact intact.replays
  have afterRename : ∀ d : Dir, d.read (nextManifestName s.log.path) =
      (Edit.setFileSet s.log.liveIDs).encoded →
      ({ d with current := some (nextManifestName s.log.path) } : Dir).Holds s.log.liveSet :=
    fun d written => ⟨_, rfl, written ▸ snapshot⟩
  have renamed := afterRename (s.dir.write (nextManifestName s.log.path)
    (Edit.setFileSet s.log.liveIDs).encoded) (Dir.read_write ..)
  have removed := afterRename ((s.dir.write (nextManifestName s.log.path)
    (Edit.setFileSet s.log.liveIDs).encoded).remove s.log.path)
    (by rw [Dir.read_remove_of_ne _ _ _ ne, Dir.read_write])
  have created : (s.dir.write (nextManifestName s.log.path) []).read
      (nextManifestName s.log.path) = [] := Dir.read_write ..
  refine Crash.survives_cons (fun _ => start) (Crash.survives_cons (fun m => ?_) ?_)
  · simp only [FileStep.cut, FileStep.run, Dir.write_write]
    exact beforeRename _
  · simp only [FileStep.run, Dir.write_write, created, List.nil_append]
    refine Crash.survives_cons (fun _ => beforeRename _) ?_
    refine Crash.survives_cons (fun _ => beforeRename _) ?_
    refine Crash.survives_cons (fun _ => beforeRename _) ?_
    refine Crash.survives_cons (fun _ => beforeRename _) ?_
    refine Crash.survives_cons (fun _ => renamed) ?_
    refine Crash.survives_cons (fun _ => renamed) ?_
    exact Crash.survives_cons (fun _ => renamed) (Crash.survives_nil removed)

/-! ### Runs -/

/-- The most ids whose file set fits the length field of a record. -/
def maxRecordIDs : Nat := 2 ^ 29 - 2

theorem fits_of_count (ids : List UInt64) (few : ids.length ≤ maxRecordIDs) :
    Fits (Edit.setFileSet ids).payload := by
  rw [Fits, Edit.payload_length]
  rw [maxRecordIDs] at few
  show 5 + ids.length * 8 + 8 < 2 ^ 32
  omega

/-- The file set a call writes out, if it does, is not too long for a record. -/
def Call.Safe (s : State) : Call → Prop
  | .newFile _ => True
  | .setFileSet ids => ids.length ≤ maxRecordIDs
  | .bootstrapIfEmpty ids => ids.length ≤ maxRecordIDs
  | .maybeCompact => s.log.liveSet.card ≤ maxRecordIDs

instance (s : State) : (c : Call) → Decidable (c.Safe s)
  | .newFile _ => inferInstanceAs (Decidable True)
  | .setFileSet _ => inferInstanceAs (Decidable (_ ≤ _))
  | .bootstrapIfEmpty _ => inferInstanceAs (Decidable (_ ≤ _))
  | .maybeCompact => inferInstanceAs (Decidable (_ ≤ _))

def Call.step (s : State) (c : Call) : State := (c.run s).1

theorem Call.newFile_liveSet (s : State) (id : UInt64) (isOpen : s.log.fileOpen = true) :
    ((Call.newFile id).step s).log.liveSet = insert id s.log.liveSet :=
  congrArg (fun result => result.1.log.liveSet) (append_none s (.newFile id) isOpen)

theorem Call.setFileSet_liveSet (s : State) (ids : List UInt64) (isOpen : s.log.fileOpen = true) :
    ((Call.setFileSet ids).step s).log.liveSet = ids.toFinset :=
  (congrArg (fun result => result.1.log.liveSet) (append_none s (.setFileSet _) isOpen)).trans
    (List.toFinset_eq_of_perm _ _ (List.perm_insertionSort _ ids))

theorem Call.maybeCompact_liveSet (s : State) (isOpen : s.log.fileOpen = true) :
    (Call.maybeCompact.step s).log.liveSet = s.log.liveSet :=
  (maybeCompact_none s isOpen).2

theorem fits_newFile (id : UInt64) : Fits (Edit.newFile id).payload := by
  rw [Fits, Edit.payload_length]
  exact (by decide : 9 + 8 < 2 ^ 32)

theorem fits_sorted (ids : List UInt64) (few : ids.length ≤ maxRecordIDs) :
    Fits (Edit.setFileSet (ids.insertionSort (· ≤ ·))).payload :=
  fits_of_count _ (by rw [List.length_insertionSort]; exact few)

theorem fits_liveIDs (l : Log) (few : l.liveSet.card ≤ maxRecordIDs) :
    Fits (Edit.setFileSet l.liveIDs).payload :=
  fits_of_count _ (by rw [l.liveIDs_length]; exact few)

theorem append_intact (s : State) (e : Edit) (intact : Intact s) (fits : Fits e.payload) :
    Intact (append s e .none).1 := by
  obtain ⟨s', appended, intact', -⟩ := intact.append s e fits
  rw [appended]
  exact intact'

theorem Call.step_intact (s : State) (c : Call) (intact : Intact s) (safe : c.Safe s) :
    Intact (c.step s) := by
  cases c with
  | newFile id => exact append_intact s _ intact (fits_newFile id)
  | setFileSet ids => exact append_intact s _ intact (fits_sorted ids safe)
  | bootstrapIfEmpty ids =>
    simp only [Call.step, Call.run, Manifest.bootstrapIfEmpty]
    split
    · exact intact
    · exact append_intact s _ intact (fits_sorted ids safe)
  | maybeCompact =>
    simp only [Call.step, Call.run, Manifest.maybeCompact]
    split
    · exact rotateSnapshotLocked_intact s (fits_liveIDs s.log safe)
    · exact intact

/-- An append is crash consistent when its record fits. -/
theorem append_reopens (s : State) (e : Edit) (intact : Intact s) (fits : Fits e.payload) :
    Crash.Survives FileStep.run FileStep.cut
      (fun d => Reopens d s.log.liveSet ∨ Reopens d (append s e .none).1.log.liveSet) s.dir
      (appendSteps s e) := by
  have live : (append s e .none).1.log.liveSet = e.apply s.log.liveSet := by
    rw [append_none s e intact.isOpen]
  rw [live]
  exact (appendSteps_survives s e intact fits).imp fun d => Or.imp (Dir.Holds.reopens d _)
    (Dir.Holds.reopens d _)

theorem Call.crashConsistent (s : State) (c : Call) (intact : Intact s) (safe : c.Safe s) :
    c.CrashConsistent s := by
  have unchanged : Reopens s.dir s.log.liveSet :=
    Dir.Holds.reopens _ _ ⟨s.log.path, intact.current, intact.replays⟩
  cases c with
  | newFile id =>
    exact (append_reopens s _ intact (fits_newFile id)).imp fun d left => ⟨left, nofun⟩
  | setFileSet ids =>
    exact (append_reopens s _ intact (fits_sorted ids safe)).imp fun d left => ⟨left, nofun⟩
  | bootstrapIfEmpty ids =>
    simp only [Call.CrashConsistent, Call.steps, Call.run, Manifest.bootstrapIfEmpty]
    split
    · exact Crash.survives_nil ⟨.inl unchanged, nofun⟩
    · exact (append_reopens s _ intact (fits_sorted ids safe)).imp fun d left => ⟨left, nofun⟩
  | maybeCompact =>
    simp only [Call.CrashConsistent, Call.steps]
    split
    · exact (rotateSteps_survives s intact (fits_liveIDs s.log safe)).imp fun d holds =>
        ⟨.inl (holds.reopens d _), fun _ => holds.reopens d _⟩
    · exact Crash.survives_nil ⟨.inl unchanged, fun _ => unchanged⟩

/-- On an opened manifest, after any calls and wherever the last one is cut off,
reopening finds the live set of before or after it, as long as every file set that is
written fits a record. -/
theorem crashConsistent_of_safe (d dir : Dir) (log : Log) (calls : List Call) (last : Call)
    (opened : openLog d = .ok (log, dir))
    (safe : Machine.Always Call.step (fun s c => c.Safe s) ⟨log, dir⟩ (calls ++ [last])) :
    last.CrashConsistent (Machine.run Call.step ⟨log, dir⟩ calls) := by
  rw [Machine.always_append] at safe
  obtain ⟨before, atLast, -⟩ := safe
  have intact := Machine.run_invariant Call.step (fun s c => c.Safe s) Intact
    (fun s c => c.step_intact s) ⟨log, dir⟩ calls (openLog_intact d dir log opened) before
  exact last.crashConsistent _ intact atLast

/-- Tables 3 and 7 are adopted and 9 is added; then a file set is replaced. -/
theorem crashConsistent_replace :
    (Call.setFileSet [9, 3]).CrashConsistent
      (Machine.run Call.step ⟨⟨1, true, ∅, 0⟩, freshDir⟩ [.bootstrapIfEmpty [7, 3], .newFile 9]) :=
  crashConsistent_of_safe Dir.empty freshDir ⟨1, true, ∅, 0⟩ [.bootstrapIfEmpty [7, 3], .newFile 9]
    (.setFileSet [9, 3]) rfl (by decide +kernel)

/-! ### A file set that is too long -/

/-- One id more than a record can hold: its length field wraps to 1. -/
theorem readRecord_wrapped (ids : List UInt64) (rest : Bytes)
    (long : ids.length = maxRecordIDs + 1) :
    readRecord ((Edit.setFileSet ids).encoded ++ rest) = .error .unexpectedEOF := by
  have len : (Edit.setFileSet ids).payload.length + 4 = 2 ^ 32 + 1 := by
    rw [Edit.payload_length]
    simp only [long, maxRecordIDs]
    norm_num
  have bytes : (Edit.setFileSet ids).encoded ++ rest = putUint32 (2 ^ 32 + 1) ++
      (putUint32 (checksumIEEE (Edit.setFileSet ids).payload) ++
        (Edit.setFileSet ids).payload ++ rest) := by
    simp only [Edit.encoded, encodeRecord, len, List.append_assoc]
  have field : beDecode (putUint32 (2 ^ 32 + 1)) = 1 := by
    rw [beDecode_putUint32]
    norm_num
  rw [bytes, readRecord, readFull_append 4 _ _ (putUint32_length _)]
  simp only [field]
  rw [if_pos (by omega)]

theorem reopens_wrapped (d : Dir) (n : Nat) (ids : List UInt64) (live : Finset UInt64)
    (current : d.current = some n) (file : d.read n = (Edit.setFileSet ids).encoded)
    (long : ids.length = maxRecordIDs + 1) (reopens : Reopens d live) : live = ∅ := by
  obtain ⟨log, dir, opened, found, -⟩ := reopens
  have failed := readRecord_wrapped ids [] long
  rw [List.append_nil] at failed
  have cutOff : replay (d.read n) = ⟨∅, 0, [], none⟩ := by
    rw [file, replay, replayLoop, List.drop_zero, failed, List.take_zero]
  simp only [openLog, current, Option.getD_some, cutOff, Except.ok.injEq, Prod.mk.injEq] at opened
  rw [← found, ← opened.1]

/-- A file set that is one id too long is lost by a crash at the start of the next
append: `Open` finds no table at all. -/
theorem newFile_loses (s : State) (ids : List UInt64) (id : UInt64)
    (isOpen : s.log.fileOpen = true) (current : s.dir.current = some s.log.path)
    (empty : s.dir.read s.log.path = []) (long : ids.length = maxRecordIDs + 1) :
    ¬(Call.newFile id).CrashConsistent ((Call.setFileSet ids).step s) := by
  intro consistent
  have sortedLong : (ids.insertionSort (· ≤ ·)).length = maxRecordIDs + 1 := by
    rw [List.length_insertionSort, long]
  obtain ⟨first, nonempty⟩ : ∃ first, first ∈ ids.insertionSort (· ≤ ·) :=
    List.exists_mem_of_length_pos (by rw [sortedLong]; exact Nat.succ_pos _)
  have ran : (Call.setFileSet ids).step s = (append s _ .none).1 := rfl
  rw [append_none s _ isOpen, empty, List.nil_append] at ran
  rw [ran] at consistent
  -- nothing of the next record is on disk yet, so the file is the long record alone
  have lost : ∀ live, Reopens (FileStep.cut (s.dir.write s.log.path
      (Edit.setFileSet (ids.insertionSort (· ≤ ·))).encoded)
      (.write s.log.path (Edit.newFile id).encoded) 0) live → live = ∅ := by
    intro live
    refine reopens_wrapped _ s.log.path _ live ?_ ?_ sortedLong
    · exact current
    · simp [FileStep.cut]
  rcases (consistent 0 0).1 with before | after
  · exact Finset.notMem_empty first (lost _ before ▸ List.mem_toFinset.mpr nonempty)
  · exact Finset.insert_ne_empty _ _ (lost _ after)

/-- The ids from 0 on, one more than a record can hold. -/
def tooManyIDs : List UInt64 := (List.range (maxRecordIDs + 1)).map UInt64.ofNat

/-- `AppendSetFileSet` of that many ids returns nil; a crash in the next call then loses
the whole live set. -/
theorem not_crashConsistent_long_file_set :
    (Call.run ⟨⟨1, true, ∅, 0⟩, freshDir⟩ (.setFileSet tooManyIDs)).2 = none ∧
    ¬(Call.newFile 7).CrashConsistent
      (Machine.run Call.step ⟨⟨1, true, ∅, 0⟩, freshDir⟩ [.setFileSet tooManyIDs]) := by
  constructor
  · exact congrArg Prod.snd (append_none ⟨⟨1, true, ∅, 0⟩, freshDir⟩ _ rfl)
  · refine newFile_loses ⟨⟨1, true, ∅, 0⟩, freshDir⟩ tooManyIDs 7 rfl rfl rfl ?_
    rw [tooManyIDs, List.length_map, List.length_range]

end PebbleDB.Manifest
