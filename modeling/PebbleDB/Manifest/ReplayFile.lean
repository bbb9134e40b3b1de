import PebbleDB.Manifest.Faults

/-!
# The second reader of the manifest

`ReplayFile` parses a manifest as one slice of bytes, refuses whatever it cannot read and
changes nothing; the audits of a recovered directory rely on it. `Open` reads the file as
a stream, salvages a torn tail and truncates it. After `Open` the file is a sequence of
whole records, on which the two agree record by record.
-/
namespace PebbleDB.Manifest

open Framing

/-! ### ReplayFile -/

/-- The loop of `ReplayFile` at offset `pos`. The total `4 + recordLen` is a uint32 sum. -/
def replayFileLoop (data : Bytes) : Nat → Finset UInt64 → Nat → Except Error (Finset UInt64)
  | 0, live, _ => .ok live
  | fuel + 1, live, pos =>
    if pos < data.length then
      -- a torn record is an error here, unlike in `Open`
      if data.length < pos + 4 then .error .unexpectedEOF
      else
        let recordLen := beDecode ((data.drop pos).take 4)
        let total := (4 + recordLen) % 2 ^ 32
        if data.length < pos + total then .error .unexpectedEOF
        else do
          let payload ← decodeRecord ((data.drop pos).take total)
          let next ← applyEdit live payload
          replayFileLoop data fuel next (pos + total)
    else .ok live

/-- `ReplayFile` on the manifest with this number; a missing file cannot be read. A record
that is decoded has at least eight bytes, so one round for each byte is enough. -/
def replayFile (d : Dir) (n : Nat) : Except Error (List UInt64) :=
  match d.files n with
  | none => .error .io
  | some data => (replayFileLoop data (data.length + 1) ∅ 0).map fun live => live.sort (· ≤ ·)

/-- `manifestLiveIDs` of the structural audit: the ids, and whether there is a manifest. -/
def manifestLiveIDs (d : Dir) : Except Error (List UInt64 × Bool) :=
  match d.current with
  | none => .ok ([], false)
  | some n => (replayFile d n).map fun ids => (ids, true)

/-! ### Whole records -/

/-- One round on a record that the other reader accepts. -/
theorem replayFileLoop_record (data : Bytes) (fuel : Nat) (live : Finset UInt64) (pos : Nat)
    (payload : Bytes) (n : Nat) (read : readRecord (data.drop pos) = .ok (payload, n)) :
    replayFileLoop data (fuel + 1) live pos =
      (do
        let next ← applyEdit live payload
        replayFileLoop data fuel next (pos + n)) := by
  obtain ⟨rest, bytes, rfl, fits⟩ := readRecord_ok _ payload n read
  unfold Fits at fits
  have len : data.length - pos = (encodeRecord payload).length + rest.length := by
    rw [← List.length_drop, bytes, List.length_append]
  rw [encodeRecord_length] at len
  -- the length field is exact, so the slice is the encoded record
  have lenField : beDecode ((data.drop pos).take 4) = payload.length + 4 := by
    rw [bytes, encodeRecord, List.append_assoc, List.append_assoc,
      List.take_left' (putUint32_length _)]
    exact putUint32_mod _ (by omega)
  have total : (4 + (payload.length + 4)) % 2 ^ 32 = (encodeRecord payload).length := by
    rw [encodeRecord_length, Nat.mod_eq_of_lt (by omega)]
    omega
  have slice : (data.drop pos).take (encodeRecord payload).length = encodeRecord payload := by
    rw [bytes, List.take_left]
  rw [replayFileLoop, if_pos (by omega), if_neg (by omega)]
  simp only [lenField, total, slice]
  rw [if_neg (by rw [encodeRecord_length]; omega), decodeRecord_encodeRecord payload fits]
  rfl

/-- On whole records `ReplayFile` applies the edits that the scan finds. -/
theorem replayFileLoop_eq_scan (data : Bytes) (fuel : Nat) (live : Finset UInt64) (pos : Nat)
    (whole : (scan readRecord fuel (data.drop pos)).stop = some .eof) :
    replayFileLoop data fuel live pos =
      (scan readRecord fuel (data.drop pos)).items.foldlM applyEdit live := by
  induction fuel generalizing live pos with
  | zero => cases whole
  | succ fuel ih =>
    cases read : readRecord (data.drop pos) with
    | error e =>
      simp only [scan, read, Option.some.injEq] at whole ⊢
      subst whole
      -- the scan ended cleanly, so no byte is left for the other loop either
      have atEnd : data.length ≤ pos := List.drop_eq_nil_iff.mp (readRecord_eof _ read)
      rw [replayFileLoop, if_neg (by omega)]
      rfl
    | ok frame =>
      obtain ⟨payload, n⟩ := frame
      simp only [scan, read, List.drop_drop] at whole ⊢
      rw [replayFileLoop_record data fuel live pos payload n read, List.foldlM_cons]
      -- both apply the edit first and go on behind the record
      congr 1
      funext next
      exact ih next (pos + n) whole

/-- What a replay accepted is read by `ReplayFile` with the same live set. -/
theorem Replays.replayFileLoop {data : Bytes} {live : Finset UInt64} (replays : Replays data live)
    (whole : WholeRecords data) :
    Manifest.replayFileLoop data (data.length + 1) ∅ 0 = .ok live := by
  have loop := replayFileLoop_eq_scan data (data.length + 1) ∅ 0
  rw [List.drop_zero] at loop
  rw [loop whole]
  exact replays.applied

/-- The sorted ids of a live set are those of any log with that set. -/
theorem sort_eq_liveIDs (log : Log) : log.liveSet.sort (· ≤ ·) = log.liveIDs :=
  (log.liveIDs_eq _ (log.liveSet.sortedLT_sort.pairwise) (Finset.sort_toFinset _ _).symm).symm

/-! ### Both readers after Open -/

/-- Replaying what a replay left changes nothing. -/
theorem Replays.replay_again {data : Bytes} {live : Finset UInt64} (replays : Replays data live) :
    Manifest.replay (Manifest.replay data).file = Manifest.replay data := by
  have again := (replays.truncated data live).replay_eq
  rw [scan_truncated, List.take_take, Nat.min_self] at again
  rw [replays.replay_eq]
  exact again

/-- What an opened log and its directory are: the outcome of a replay, written back. -/
theorem openLog_ok (d dir : Dir) (log : Log) (opened : openLog d = .ok (log, dir)) :
    Replays (d.read log.path) log.liveSet ∧
      log = ⟨log.path, true, (replay (d.read log.path)).liveSet,
        (replay (d.read log.path)).recordCount⟩ ∧
      dir = { d.write log.path (replay (d.read log.path)).file with current := some log.path } := by
  unfold openLog at opened
  dsimp only at opened
  cases failed : (replay (d.read (d.current.getD initialManifest))).err with
  | some e =>
    rw [failed] at opened
    cases opened
  | none =>
    rw [failed] at opened
    cases opened
    exact ⟨replays_of_replay _ failed, rfl, rfl⟩

/-- Once `Open` has succeeded on a manifest, whatever its content, `ReplayFile` and the audit
read exactly the ids of `LiveIDs`, and opening it again neither truncates the file nor changes
the log. No bound on the size is needed: a record whose length wraps in 32 bits makes `Open`
panic, so it is not part of a manifest that was opened. -/
theorem openLog_readers_agree (d dir : Dir) (log : Log) (opened : openLog d = .ok (log, dir)) :
    replayFile dir log.path = .ok log.liveIDs ∧
      manifestLiveIDs dir = .ok (log.liveIDs, true) ∧
      (replay (dir.read log.path)).file = dir.read log.path ∧
      (replay (dir.read log.path)).liveSet = log.liveSet ∧
      openLog dir = .ok (log, dir) := by
  obtain ⟨replays, logEq, dirEq⟩ := openLog_ok d dir log opened
  have again := replays.replay_again
  have first := replays.replay_eq
  have live : (replay (d.read log.path)).liveSet = log.liveSet := by rw [first]
  -- what is on disk now is what the replay left
  have file : dir.files log.path = some (replay (d.read log.path)).file := by
    rw [dirEq]
    exact Function.update_self _ _ _
  have current : dir.current = some log.path := by rw [dirEq]
  have bytes : dir.read log.path = (replay (d.read log.path)).file := by
    rw [Dir.read, file, Option.getD_some]
  have kept : Replays (replay (d.read log.path)).file log.liveSet ∧
      WholeRecords (replay (d.read log.path)).file := by
    rw [first]
    exact ⟨replays.truncated _ _, wholeRecords_truncated _⟩
  have ids : replayFile dir log.path = .ok log.liveIDs := by
    rw [replayFile, file]
    dsimp only
    rw [kept.1.replayFileLoop kept.2, ← sort_eq_liveIDs]
    rfl
  refine ⟨ids, ?_, by rw [bytes, again], by rw [bytes, again, live], ?_⟩
  · rw [manifestLiveIDs, current]
    dsimp only
    rw [ids]
    rfl
  -- the second `Open` writes back the bytes it has read
  · have rewritten : ({ dir.write log.path (replay (d.read log.path)).file with
        current := some log.path } : Dir) = dir := by
      rw [dirEq, Dir.write, Dir.write, Function.update_idem]
    have noError : (replay (d.read log.path)).err = none := by rw [first]
    unfold openLog
    dsimp only
    rw [current, Option.getD_some, bytes, again, noError]
    dsimp only
    rw [rewritten, ← logEq]

/-- Two files are added and a third record is torn: `Open` cuts it off, and from then on
both readers see the two. -/
theorem openLog_readers_agree_torn :
    let data := encodeNewFile 7 ++ encodeNewFile 3 ++ (encodeNewFile 9).take 5
    let d : Dir := ⟨some 1, fun n => if n = 1 then some data else none⟩
    ∃ log dir, openLog d = .ok (log, dir) ∧ replayFile dir log.path = .ok [3, 7] ∧
      dir.read log.path = encodeNewFile 7 ++ encodeNewFile 3 := by
  intro data d
  have replayed : replay (d.read 1) =
      ⟨{3, 7}, 2, encodeNewFile 7 ++ encodeNewFile 3, none⟩ := by decide +kernel
  have opened : openLog d = .ok (⟨1, true, {3, 7}, 2⟩,
      { d.write 1 (encodeNewFile 7 ++ encodeNewFile 3) with current := some 1 }) := by
    unfold openLog
    dsimp only
    rw [show d.current.getD initialManifest = 1 from rfl, replayed]
  have ids : Log.liveIDs ⟨1, true, {3, 7}, 2⟩ = [3, 7] := by decide +kernel
  refine ⟨_, _, opened, ?_, ?_⟩
  · rw [(openLog_readers_agree d _ _ opened).1, ids]
  · show (Function.update d.files 1 (some _) 1).getD [] = _
    rw [Function.update_self]
    rfl

end PebbleDB.Manifest
