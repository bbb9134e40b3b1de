import PebbleDB.Lib.Machine
import PebbleDB.Manifest.Log

/-!
# Manifest calls under failing file operations

A run applies `AppendNewFile`, `AppendSetFileSet` and `MaybeCompact` to an open log,
each with its own answers of the operating system. The contract is that reopening
the directory yields the live set of the calls that returned nil. An append that
fails leaves its bytes in the file, and a rotation that fails after `CURRENT` moved
leaves the log with a closed handle and the old path; the steps below say when that
does no harm.
-/
namespace PebbleDB.Manifest

open Framing

inductive Op where
  | newFile (id : UInt64) (faults : AppendFaults)
  | setFileSet (ids : List UInt64) (faults : AppendFaults)
  | maybeCompact (faults : RotateFaults)

def Op.run (s : State) : Op → State × Option Error
  | .newFile id faults => appendNewFile s id faults
  | .setFileSet ids faults => appendSetFileSet s ids faults
  | .maybeCompact faults => Manifest.maybeCompact s faults

/-- What a call that returned nil means for the live set. -/
def Op.effect (live : Finset UInt64) : Op → Finset UInt64
  | .newFile id _ => insert id live
  | .setFileSet ids _ => ids.toFinset
  | .maybeCompact _ => live

/-- The store and the live set of the calls that returned nil so far. -/
structure Run where
  state : State
  expected : Finset UInt64

/-- A log that was just opened. -/
def Run.opened (log : Log) (dir : Dir) : Run := ⟨⟨log, dir⟩, log.liveSet⟩

def Run.step (r : Run) (op : Op) : Run :=
  let result := op.run r.state
  ⟨result.1, if result.2 = none then op.effect r.expected else r.expected⟩

/-- Reopening the directory yields exactly the expected live set. -/
def Run.ReopensExactly (r : Run) : Prop :=
  (openLog r.state.dir).map (fun opened => opened.1.liveSet) = .ok r.expected

/-! ### Scanning the manifest file -/

theorem scan_nil : scan readRecord 1 [] = ⟨[], 0, some .eof⟩ := by
  simp [scan, readRecord, readFull]

theorem readRecord_eof (input : Bytes) (clean : readRecord input = .error .eof) : input = [] := by
  unfold readRecord at clean
  split at clean
  next readHeader =>
    unfold readFull at readHeader
    split at readHeader
    · cases readHeader
    · split at readHeader
      next empty => exact empty
      · cases readHeader
  · cases clean
  · split at clean
    · cases clean
    · split at clean
      · cases clean
      · rw [Except.bind_eq_error] at clean
        rcases clean with failed | ⟨payload, _, returned⟩
        · unfold decodeRecord at failed
          simp only at failed
          repeat' split at failed
          all_goals cases failed
        · cases returned

theorem scan_eof_consumed (fuel : Nat) (data : Bytes)
    (clean : (scan readRecord fuel data).stop = some .eof) :
    (scan readRecord fuel data).consumed = data.length :=
  scan_clean_consumed readRecord readRecord_progress .eof readRecord_eof fuel data clean

/-- Bytes behind whole records are scanned on their own. -/
theorem scan_behind (data rest : Bytes) (whole : WholeRecords data) :
    scan readRecord ((data ++ rest).length + 1) (data ++ rest) =
      ⟨(scan readRecord (data.length + 1) data).items ++
          (scan readRecord (rest.length + 1) rest).items,
        (scan readRecord (data.length + 1) data).consumed +
          (scan readRecord (rest.length + 1) rest).consumed,
        (scan readRecord (rest.length + 1) rest).stop⟩ := by
  have all : data.take (scan readRecord (data.length + 1) data).consumed = data := by
    rw [scan_eof_consumed _ _ whole, List.take_length]
  have joined := scan_accepted readRecord readRecord_progress readRecord_local (data.length + 1)
    data rest ((data ++ rest).length + 1) (by rw [all]; exact Nat.lt_succ_self _)
  rwa [all] at joined

theorem Replays.append (data rest : Bytes) (live live' : Finset UInt64)
    (replays : Replays data live) (whole : WholeRecords data)
    (applied : (scan readRecord (rest.length + 1) rest).items.foldlM applyEdit live = .ok live')
    (stopped : (scan readRecord (rest.length + 1) rest).stop = some .eof ∨
      (scan readRecord (rest.length + 1) rest).stop = some .unexpectedEOF) :
    Replays (data ++ rest) live' := by
  constructor
  · rw [scan_behind data rest whole, List.foldlM_append, replays.applied]
    exact applied
  · rw [scan_behind data rest whole]
    exact stopped

theorem scan_edit (e : Edit) (fits : Fits e.payload) :
    scan readRecord (e.encoded.length + 1) e.encoded =
      ⟨[e.payload], e.encoded.length, some .eof⟩ := by
  have log := scan_log readRecord encodeRecord readRecord_progress [e.payload] []
    (by
      intro payload member
      rw [List.mem_singleton] at member
      subst member
      exact readRecord_encoded e.payload fits)
    (e.encoded.length + 1) (by simp [Edit.encoded])
  rw [List.length_nil, scan_nil] at log
  simpa [Edit.encoded] using log

theorem Replays.append_edit (data : Bytes) (live : Finset UInt64) (e : Edit)
    (replays : Replays data live) (whole : WholeRecords data) (fits : Fits e.payload) :
    Replays (data ++ e.encoded) (e.apply live) := by
  apply replays.append data e.encoded live (e.apply live) whole
  · rw [scan_edit e fits]
    simp [applyEdit_payload live e fits]
  · rw [scan_edit e fits]
    exact .inl rfl

theorem replays_nil : Replays [] ∅ := by
  constructor
  · rw [List.length_nil, scan_nil]
    rfl
  · rw [List.length_nil, scan_nil]
    exact .inl rfl

/-- A cut record behind whole ones changes nothing. -/
theorem Replays.append_torn (data : Bytes) (live : Finset UInt64) (e : Edit) (n : Nat)
    (replays : Replays data live) (whole : WholeRecords data) (fits : Fits e.payload)
    (cut : n < e.encoded.length) : Replays (data ++ e.encoded.take n) live := by
  by_cases none_ : n = 0
  · subst none_
    simpa using replays
  · have torn := readRecord_torn e.payload fits n (by omega) cut
    have stop := scan_error readRecord (e.encoded.take n).length (e.encoded.take n) _ torn
    apply replays.append data _ live live whole
    · rw [stop]
      rfl
    · rw [stop]
      exact .inr rfl

/-! ### Steps that do no harm -/

/-- The whole record is stored although the call returns an error. -/
def AppendFaults.failsWhole (e : Edit) (faults : AppendFaults) : Prop :=
  match faults.write with
  | some n => e.encoded.length ≤ n
  | .none => faults.syncFails = true

instance (e : Edit) : (faults : AppendFaults) → Decidable (faults.failsWhole e)
  | ⟨some n, _⟩ => inferInstanceAs (Decidable (e.encoded.length ≤ n))
  | ⟨.none, syncFails⟩ => inferInstanceAs (Decidable (syncFails = true))

/-- An append is harmless if it stores nothing, or if it starts behind whole records
and a complete record that is reported as failed would not change the live set. -/
structure AppendSafe (s : State) (e : Edit) (faults : AppendFaults) : Prop where
  fits : Fits e.payload
  aligned : faults.write ≠ some 0 → WholeRecords (s.dir.read s.log.path)
  failed : faults.failsWhole e → e.apply s.log.liveSet = s.log.liveSet

instance (s : State) (e : Edit) (faults : AppendFaults) : Decidable (AppendSafe s e faults) :=
  decidable_of_iff
    (Fits e.payload ∧ (faults.write ≠ some 0 → WholeRecords (s.dir.read s.log.path)) ∧
      (faults.failsWhole e → e.apply s.log.liveSet = s.log.liveSet))
    ⟨fun ⟨fits, aligned, failed⟩ => ⟨fits, aligned, failed⟩,
      fun ⟨fits, aligned, failed⟩ => ⟨fits, aligned, failed⟩⟩

/-- A rotation that writes over the file `CURRENT` already names, because an earlier
one could not reopen it, must not stop between the create and the rename. -/
structure RotateSafe (s : State) (faults : RotateFaults) : Prop where
  fits : Fits (Edit.setFileSet s.log.liveIDs).payload
  unstuck : s.dir.current ≠ some s.log.path → faults.createFails = true ∨
    faults.write = none ∧ faults.syncFails = false ∧ faults.closeFails = false ∧
      faults.currentFails = false

instance (s : State) (faults : RotateFaults) : Decidable (RotateSafe s faults) :=
  decidable_of_iff
    (Fits (Edit.setFileSet s.log.liveIDs).payload ∧
      (s.dir.current ≠ some s.log.path → faults.createFails = true ∨
        faults.write = none ∧ faults.syncFails = false ∧ faults.closeFails = false ∧
          faults.currentFails = false))
    ⟨fun ⟨fits, unstuck⟩ => ⟨fits, unstuck⟩, fun ⟨fits, unstuck⟩ => ⟨fits, unstuck⟩⟩

/-- The answers to a call are harmless in the state it finds. A call on a closed
handle touches no file. -/
def Op.Safe (s : State) : Op → Prop
  | .newFile id faults => s.log.fileOpen = true → AppendSafe s (.newFile id) faults
  | .setFileSet ids faults => s.log.fileOpen = true →
      AppendSafe s (.setFileSet (ids.insertionSort (· ≤ ·))) faults
  | .maybeCompact faults => compactionNeededLocked s = true → RotateSafe s faults

instance (s : State) : (op : Op) → Decidable (op.Safe s)
  | .newFile _ _ => inferInstanceAs (Decidable (_ → AppendSafe _ _ _))
  | .setFileSet _ _ => inferInstanceAs (Decidable (_ → AppendSafe _ _ _))
  | .maybeCompact _ => inferInstanceAs (Decidable (_ → RotateSafe _ _))

/-! ### The invariant of a run -/

/-- `CURRENT` names a file that replays to the live set in memory: the open one, or
after a failed reopen the next one. -/
inductive Tracks (s : State) : Prop where
  | inUse (isOpen : s.log.fileOpen = true) (current : s.dir.current = some s.log.path)
      (replays : Replays (s.dir.read s.log.path) s.log.liveSet)
  | stale (closed : s.log.fileOpen = false)
      (current : s.dir.current = some (nextManifestName s.log.path))
      (replays : Replays (s.dir.read (nextManifestName s.log.path)) s.log.liveSet)

structure Run.Consistent (r : Run) : Prop where
  tracks : Tracks r.state
  expected : r.state.log.liveSet = r.expected

theorem nextManifestName_ne (n : Nat) : nextManifestName n ≠ n := by
  unfold nextManifestName initialManifest
  split
  · omega
  · omega

@[simp] theorem Dir.read_write (d : Dir) (n : Nat) (data : Bytes) :
    (d.write n data).read n = data := by
  simp [Dir.write, Dir.read]

theorem Dir.read_write_of_ne (d : Dir) (n m : Nat) (data : Bytes) (ne : m ≠ n) :
    (d.write n data).read m = d.read m := by
  simp [Dir.write, Dir.read, Function.update_of_ne ne]

theorem Dir.read_remove_of_ne (d : Dir) (n m : Nat) (ne : m ≠ n) :
    (d.remove n).read m = d.read m := by
  simp [Dir.remove, Dir.read, Function.update_of_ne ne]

/-- Whatever a failed append stores behind whole records, replay gives the same set. -/
theorem Replays.append_failed (data : Bytes) (live : Finset UInt64) (e : Edit) (n : Nat)
    (replays : Replays data live) (fits : Fits e.payload)
    (aligned : n ≠ 0 → WholeRecords data) (same : e.encoded.length ≤ n → e.apply live = live) :
    Replays (data ++ e.encoded.take n) live := by
  by_cases stored : n = 0
  · subst stored
    simpa using replays
  · by_cases cut : n < e.encoded.length
    · exact replays.append_torn data live e n (aligned stored) fits cut
    · have whole := replays.append_edit data live e (aligned stored) fits
      rw [same (by omega)] at whole
      rw [List.take_of_length_le (by omega)]
      exact whole

theorem append_tracks (s : State) (e : Edit) (faults : AppendFaults) (tracks : Tracks s)
    (safe : s.log.fileOpen = true → AppendSafe s e faults) :
    Tracks (append s e faults).1 ∧
      (append s e faults).1.log.liveSet =
        if (append s e faults).2 = none then e.apply s.log.liveSet else s.log.liveSet := by
  cases tracks with
  | stale closed current replays =>
    -- the write fails on the closed handle
    have refused : append s e faults = (s, some .io) := by simp [append, closed]
    rw [refused]
    exact ⟨.stale closed current replays, by simp⟩
  | inUse isOpen current replays =>
    obtain ⟨fits, aligned, failed⟩ := safe isOpen
    cases write : faults.write with
    | some n =>
      have stored := replays.append_failed _ _ e n fits
        (fun wrote => aligned (by simpa [write] using wrote))
        (fun whole => failed (by simpa [AppendFaults.failsWhole, write] using whole))
      simp only [append, isOpen, write, if_true]
      refine ⟨.inUse isOpen current ?_, by simp⟩
      simpa using stored
    | none =>
      have stored := replays.append_edit _ _ e (aligned (by simp [write])) fits
      cases sync : faults.syncFails with
      | true =>
        rw [failed (by simp [AppendFaults.failsWhole, write, sync])] at stored
        simp only [append, isOpen, write, sync, if_true]
        refine ⟨.inUse isOpen current ?_, by simp⟩
        simpa using stored
      | false =>
        simp only [append, isOpen, write, sync, if_true, Bool.false_eq_true, if_false]
        refine ⟨.inUse rfl current ?_, trivial⟩
        simpa using stored

/-- The snapshot record alone replays to the live set. -/
theorem replays_snapshot (l : Log) (fits : Fits (Edit.setFileSet l.liveIDs).payload) :
    Replays (Edit.setFileSet l.liveIDs).encoded l.liveSet := by
  have whole : WholeRecords [] := by rw [WholeRecords, List.length_nil, scan_nil]
  have replays := replays_nil.append_edit [] ∅ (.setFileSet l.liveIDs) whole fits
  simpa [Edit.apply, l.liveIDs_toFinset] using replays

/-- Undoing a rotation touches only the new file, which `CURRENT` must not name. -/
theorem cleanupNew_tracks (s : State) (data : Bytes) (faults : RotateFaults)
    (isOpen : s.log.fileOpen = true) (current : s.dir.current = some s.log.path)
    (replays : Replays (s.dir.read s.log.path) s.log.liveSet) :
    Tracks (cleanupNew s (s.dir.write (nextManifestName s.log.path) data)
      (nextManifestName s.log.path) faults).1 := by
  have ne := (nextManifestName_ne s.log.path).symm
  refine .inUse isOpen ?_ ?_
  · simp only [cleanupNew]
    split
    · exact current
    · exact current
  · simp only [cleanupNew]
    split
    · rw [Dir.read_write_of_ne _ _ _ _ ne]
      exact replays
    · rw [Dir.read_remove_of_ne _ _ _ ne, Dir.read_write_of_ne _ _ _ _ ne]
      exact replays

/-- Once `CURRENT` is renamed, the new file carries the live set whether or not it
could be reopened. -/
theorem rotated_tracks (s : State) (faults : RotateFaults)
    (fits : Fits (Edit.setFileSet s.log.liveIDs).payload)
    (create : faults.createFails = false) (write : faults.write = none)
    (sync : faults.syncFails = false) (close : faults.closeFails = false)
    (rename : faults.currentFails = false) : Tracks (rotateSnapshotLocked s faults).1 := by
  have ne := nextManifestName_ne s.log.path
  have snapshot := replays_snapshot s.log fits
  simp only [rotateSnapshotLocked, create, write, sync, close, rename, Bool.false_eq_true,
    if_false]
  cases faults.reopenFails with
  | true =>
    refine .stale rfl rfl ?_
    rw [← Dir.read_write s.dir (nextManifestName s.log.path) (Edit.encoded _)] at snapshot
    exact snapshot
  | false =>
    simp only [Bool.false_eq_true, if_false]
    refine .inUse rfl ?_ ?_
    · simp only
      split
      · rfl
      · rfl
    · simp only
      rw [← Dir.read_write s.dir (nextManifestName s.log.path) (Edit.encoded _)] at snapshot
      split
      · exact snapshot
      · rw [Dir.read_remove_of_ne _ _ _ ne]
        exact snapshot

theorem rotateSnapshotLocked_liveSet (s : State) (faults : RotateFaults) :
    (rotateSnapshotLocked s faults).1.log.liveSet = s.log.liveSet := by
  unfold rotateSnapshotLocked cleanupNew
  simp only
  repeat' split
  all_goals rfl

theorem rotate_tracks (s : State) (faults : RotateFaults) (tracks : Tracks s)
    (safe : RotateSafe s faults) : Tracks (rotateSnapshotLocked s faults).1 := by
  cases create : faults.createFails with
  | true =>
    have refused : rotateSnapshotLocked s faults = (s, some .io) := by
      simp [rotateSnapshotLocked, create]
    rw [refused]
    exact tracks
  | false =>
    cases tracks with
    | stale closed current replays =>
      have moved : s.dir.current ≠ some s.log.path := by
        rw [current]
        simpa using nextManifestName_ne s.log.path
      rcases safe.unstuck moved with refused | ⟨write, sync, close, rename⟩
      · rw [create] at refused
        cases refused
      · exact rotated_tracks s faults safe.fits create write sync close rename
    | inUse isOpen current replays =>
      -- up to the rename a failure touches only the file `CURRENT` does not name
      have undone (data : Bytes) := cleanupNew_tracks s data faults isOpen current replays
      cases write : faults.write with
      | some n =>
        simp only [rotateSnapshotLocked, create, write, Bool.false_eq_true, if_false]
        exact undone _
      | none =>
        by_cases passed : faults.syncFails = false ∧ faults.closeFails = false ∧
            faults.currentFails = false
        · obtain ⟨sync, close, rename⟩ := passed
          exact rotated_tracks s faults safe.fits create write sync close rename
        · have stopped : rotateSnapshotLocked s faults =
              cleanupNew s (s.dir.write (nextManifestName s.log.path)
                (Edit.setFileSet s.log.liveIDs).encoded)
                (nextManifestName s.log.path) faults := by
            simp only [rotateSnapshotLocked, create, write, Bool.false_eq_true, if_false]
            split
            · rfl
            · split
              · rfl
              · split
                · rfl
                · simp_all
          rw [stopped]
          exact undone _

theorem Run.step_consistent (r : Run) (op : Op) (inv : r.Consistent) (safe : op.Safe r.state) :
    (r.step op).Consistent := by
  cases op with
  | newFile id faults =>
    obtain ⟨tracks, live⟩ := append_tracks r.state (.newFile id) faults inv.tracks safe
    refine ⟨tracks, ?_⟩
    rw [inv.expected] at live
    exact live
  | setFileSet ids faults =>
    obtain ⟨tracks, live⟩ := append_tracks r.state (.setFileSet (ids.insertionSort (· ≤ ·)))
      faults inv.tracks safe
    refine ⟨tracks, ?_⟩
    have sorted : (ids.insertionSort (· ≤ ·)).toFinset = ids.toFinset :=
      List.toFinset_eq_of_perm _ _ (List.perm_insertionSort _ ids)
    rw [inv.expected] at live
    simp only [Edit.apply, sorted] at live
    exact live
  | maybeCompact faults =>
    have same : (r.step (.maybeCompact faults)).expected = r.expected := by
      simp [Run.step, Op.effect]
    refine ⟨?_, ?_⟩
    · simp only [Run.step, Op.run, maybeCompact]
      split
      next needed => exact rotate_tracks r.state faults inv.tracks (safe needed)
      next => exact inv.tracks
    · rw [same, ← inv.expected]
      simp only [Run.step, Op.run, maybeCompact]
      split
      · exact rotateSnapshotLocked_liveSet r.state faults
      · rfl

theorem Run.Consistent.reopens (r : Run) (inv : r.Consistent) : r.ReopensExactly := by
  obtain ⟨n, current, replays⟩ : ∃ n, r.state.dir.current = some n ∧
      Replays (r.state.dir.read n) r.state.log.liveSet := by
    cases inv.tracks with
    | inUse isOpen current replays => exact ⟨_, current, replays⟩
    | stale closed current replays => exact ⟨_, current, replays⟩
  obtain ⟨live, noError, -⟩ := replays.replay
  rw [Run.ReopensExactly, ← inv.expected, ← live]
  simp only [openLog, current, Option.getD_some, noError]
  rfl

/-! ### A freshly opened log -/

theorem replayLoop_failed (data : Bytes) (fuel : Nat) (live : Finset UInt64)
    (count validEnd : Nat) (e : Error)
    (failed : (scan readRecord fuel (data.drop validEnd)).items.foldlM applyEdit live =
      .error e) : (replayLoop data fuel live count validEnd).err = some e := by
  induction fuel generalizing live count validEnd with
  | zero => cases failed
  | succ fuel ih =>
    cases h : readRecord (data.drop validEnd) with
    | error stop =>
      simp only [scan, h] at failed
      cases failed
    | ok frame =>
      obtain ⟨payload, n⟩ := frame
      simp only [scan, h, List.foldlM_cons, List.drop_drop] at failed
      rw [Except.bind_eq_error] at failed
      rcases failed with first | ⟨next, first, later⟩
      · simp only [replayLoop, h, first]
      · simp only [replayLoop, h, first]
        exact ih next (count + 1) (validEnd + n) later

/-- A replay that returned nil is a replay in the sense of `Replays`. -/
theorem replays_of_replay (data : Bytes) (returned : (replay data).err = none) :
    Replays data (replay data).liveSet := by
  cases applied : (scan readRecord (data.length + 1) data).items.foldlM applyEdit ∅ with
  | error e =>
    have failed := replayLoop_failed data (data.length + 1) ∅ 0 0 e
      (by rw [List.drop_zero]; exact applied)
    rw [replay, failed] at returned
    cases returned
  | ok live =>
    have loop := replay_eq_settle data live applied
    obtain ⟨e, stopped⟩ := scan_stops readRecord readRecord_progress (data.length + 1) data
      (Nat.lt_succ_self _)
    rw [stopped] at loop
    rw [loop] at returned ⊢
    cases e with
    | eof => exact ⟨applied, .inl stopped⟩
    | unexpectedEOF => exact ⟨applied, .inr stopped⟩
    | panic => cases returned
    | io => cases returned

/-- What replay leaves of the file are the records it accepted. -/
theorem scan_truncated (data : Bytes) :
    scan readRecord ((data.take (scan readRecord (data.length + 1) data).consumed).length + 1)
        (data.take (scan readRecord (data.length + 1) data).consumed) =
      ⟨(scan readRecord (data.length + 1) data).items,
        (scan readRecord (data.length + 1) data).consumed, some .eof⟩ :=
  scan_again readRecord readRecord_progress readRecord_local .eof rfl (data.length + 1) data _
    (Nat.lt_succ_self _)

theorem Replays.truncated (data : Bytes) (live : Finset UInt64) (replays : Replays data live) :
    Replays (data.take (scan readRecord (data.length + 1) data).consumed) live := by
  constructor
  · rw [scan_truncated]
    exact replays.applied
  · rw [scan_truncated]
    exact .inl rfl

theorem wholeRecords_truncated (data : Bytes) :
    WholeRecords (data.take (scan readRecord (data.length + 1) data).consumed) := by
  rw [WholeRecords, scan_truncated]

theorem openLog_consistent (d dir : Dir) (log : Log) (opened : openLog d = .ok (log, dir)) :
    (Run.opened log dir).Consistent := by
  unfold openLog at opened
  simp only at opened
  split at opened
  · cases opened
  next returned =>
    have replays := replays_of_replay _ returned
    have file := (replays.replay _ _).2.2
    cases opened
    refine ⟨.inUse rfl rfl ?_, rfl⟩
    have kept := replays.truncated _ _
    rw [← file] at kept
    simpa [Run.opened, Dir.write, Dir.read] using kept

/-- Reopening yields the live set of the calls that returned nil, in every run of
calls on an opened log whose failures are all harmless where they happen. -/
theorem reopensExactly_of_safe (d dir : Dir) (log : Log) (ops : List Op)
    (opened : openLog d = .ok (log, dir))
    (safe : Machine.Always Run.step (fun r op => op.Safe r.state) (Run.opened log dir) ops) :
    (Machine.run Run.step (Run.opened log dir) ops).ReopensExactly :=
  Run.Consistent.reopens _ (Machine.run_invariant Run.step _ Run.Consistent Run.step_consistent _
    ops (openLog_consistent d dir log opened) safe)

/-- The directory after a first `Open`. -/
def freshDir : Dir := ⟨some 1, Function.update (fun _ => none) 1 (some [])⟩

/-- An append whose `Sync` fails on a live id, one that stores nothing, a good one, and
one that is cut inside the record. -/
theorem reopensExactly_mixed_failures :
    (Machine.run Run.step (Run.opened ⟨1, true, ∅, 0⟩ freshDir)
      [.newFile 7 .none, .newFile 7 ⟨none, true⟩, .newFile 8 ⟨some 0, false⟩,
        .newFile 9 .none, .newFile 8 ⟨some 5, false⟩]).ReopensExactly :=
  reopensExactly_of_safe Dir.empty freshDir ⟨1, true, ∅, 0⟩
    [.newFile 7 .none, .newFile 7 ⟨none, true⟩, .newFile 8 ⟨some 0, false⟩,
      .newFile 9 .none, .newFile 8 ⟨some 5, false⟩]
    rfl (by decide +kernel)

/-- Three ways to lose the contract: the record of a failed `Sync` stays; a torn write
swallows the record behind it; a second rotation writes over the file `CURRENT` names. -/
theorem not_reopensExactly_failures :
    ¬(Machine.run Run.step (Run.opened ⟨1, true, ∅, 0⟩ freshDir)
      [.newFile 7 ⟨none, true⟩]).ReopensExactly ∧
    ¬(Machine.run Run.step (Run.opened ⟨1, true, ∅, 0⟩ freshDir)
      [.newFile 7 ⟨some 5, false⟩, .newFile 7 .none]).ReopensExactly ∧
    ¬(Machine.run Run.step (Run.opened ⟨1, true, ∅, 0⟩ freshDir)
      (List.replicate 64 (.newFile 7 .none) ++
        [.maybeCompact { RotateFaults.none with reopenFails := true },
          .maybeCompact { RotateFaults.none with write := some 3 }])).ReopensExactly := by
  unfold Run.ReopensExactly
  decide +kernel

end PebbleDB.Manifest
