import PebbleDB.Manifest.Faults

/-!
# The manifest without I/O errors

As long as no file operation fails, the manifest in use is the one `CURRENT` names, its
handle is open, and it consists of whole records that replay to the live set. Each call
then returns nil and changes the live set as it should, and a reopen finds that set.
-/
namespace PebbleDB.Manifest

structure Intact (s : State) : Prop where
  isOpen : s.log.fileOpen = true
  current : s.dir.current = some s.log.path
  replays : Replays (s.dir.read s.log.path) s.log.liveSet
  whole : WholeRecords (s.dir.read s.log.path)

theorem wholeRecords_nil : WholeRecords [] := by
  rw [WholeRecords, List.length_nil, scan_nil]

theorem WholeRecords.append_edit (data : Bytes) (e : Edit) (whole : WholeRecords data)
    (fits : Fits e.payload) : WholeRecords (data ++ e.encoded) := by
  rw [WholeRecords, scan_behind data e.encoded whole, scan_edit e fits]

/-- An append to an open manifest returns nil and applies its edit. -/
theorem append_none (s : State) (e : Edit) (isOpen : s.log.fileOpen = true) :
    append s e .none = (⟨⟨s.log.path, true, e.apply s.log.liveSet, s.log.recordCount + 1⟩,
      s.dir.write s.log.path (s.dir.read s.log.path ++ e.encoded)⟩, none) := by
  simp [append, isOpen, AppendFaults.none]

theorem Intact.append (s : State) (intact : Intact s) (e : Edit) (fits : Fits e.payload) :
    ∃ s', append s e .none = (s', none) ∧ Intact s' ∧ s'.log.liveSet = e.apply s.log.liveSet := by
  refine ⟨_, append_none s e intact.isOpen, ⟨rfl, intact.current, ?_, ?_⟩, rfl⟩
  · simpa using intact.replays.append_edit _ _ e intact.whole fits
  · simpa using intact.whole.append_edit _ e fits

theorem Intact.appendNewFile (s : State) (intact : Intact s) (id : UInt64) :
    ∃ s', Manifest.appendNewFile s id .none = (s', none) ∧ Intact s' ∧
      s'.log.liveSet = insert id s.log.liveSet := by
  have fits : Fits (Edit.newFile id).payload := by
    rw [Fits, Edit.payload_length]
    exact (by decide : 9 + 8 < 2 ^ 32)
  exact intact.append s (.newFile id) fits

/-- The number of ids whose snapshot fits the length field of a record. -/
def maxLive : Nat := 2 ^ 28

theorem fits_setFileSet (ids : List UInt64) (few : ids.length ≤ maxLive) :
    Fits (Edit.setFileSet ids).payload := by
  rw [Fits, Edit.payload_length]
  rw [maxLive] at few
  show 5 + ids.length * 8 + 8 < 2 ^ 32
  omega

/-- A rotation keeps the live set and leaves a manifest of one record. -/
theorem rotateSnapshotLocked_intact (s : State)
    (fits : Fits (Edit.setFileSet s.log.liveIDs).payload) :
    Intact (rotateSnapshotLocked s .none).1 := by
  have ne := nextManifestName_ne s.log.path
  have snapshot := replays_snapshot s.log fits
  have whole := wholeRecords_nil.append_edit [] _ fits
  rw [List.nil_append] at whole
  -- the old file goes, the new one is read back as written
  have written : (((s.dir.write (nextManifestName s.log.path)
      (Edit.setFileSet s.log.liveIDs).encoded)).remove s.log.path).read
        (nextManifestName s.log.path) =
      (Edit.setFileSet s.log.liveIDs).encoded := by
    rw [Dir.read_remove_of_ne _ _ _ ne, Dir.read_write]
  simp only [rotateSnapshotLocked, RotateFaults.none, Bool.false_eq_true, if_false, or_false,
    if_neg ne.symm]
  refine ⟨rfl, rfl, ?_, ?_⟩
  · exact written.symm ▸ snapshot
  · exact written.symm ▸ whole

/-- A rotation leaves an open manifest with the same live set, whatever fits. -/
theorem maybeCompact_none (s : State) (isOpen : s.log.fileOpen = true) :
    (maybeCompact s .none).1.log.fileOpen = true ∧
      (maybeCompact s .none).1.log.liveSet = s.log.liveSet := by
  rw [maybeCompact]
  split
  · exact ⟨rfl, rotateSnapshotLocked_liveSet s .none⟩
  · exact ⟨isOpen, rfl⟩

theorem Intact.maybeCompact (s : State) (intact : Intact s) (few : s.log.liveSet.card ≤ maxLive) :
    Intact (maybeCompact s .none).1 ∧
      (Manifest.maybeCompact s .none).1.log.liveSet = s.log.liveSet := by
  refine ⟨?_, (maybeCompact_none s intact.isOpen).2⟩
  have fits := fits_setFileSet s.log.liveIDs (by rw [s.log.liveIDs_length]; exact few)
  rw [Manifest.maybeCompact]
  split
  · exact rotateSnapshotLocked_intact s fits
  · exact intact

/-- Reopening succeeds and finds the live set. -/
theorem Intact.openLog (s : State) (intact : Intact s) :
    ∃ log dir, Manifest.openLog s.dir = .ok (log, dir) ∧ Intact ⟨log, dir⟩ ∧
      log.liveSet = s.log.liveSet := by
  obtain ⟨live, noError, file⟩ := intact.replays.replay
  have kept : (replay (s.dir.read s.log.path)).file = s.dir.read s.log.path := by
    rw [file, scan_eof_consumed _ _ intact.whole, List.take_length]
  refine ⟨_, _, by simp only [Manifest.openLog, intact.current, Option.getD_some, noError]; rfl,
    ⟨rfl, rfl, ?_, ?_⟩, live⟩
  · show Replays ((s.dir.write s.log.path _).read s.log.path) _
    rw [Dir.read_write, kept, live]
    exact intact.replays
  · show WholeRecords ((s.dir.write s.log.path _).read s.log.path)
    rw [Dir.read_write, kept]
    exact intact.whole

end PebbleDB.Manifest
