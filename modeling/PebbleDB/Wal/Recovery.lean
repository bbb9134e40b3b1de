import PebbleDB.Wal.Replay

/-!
# Recovery on arbitrary bytes

`ReplayFromWithRecovery` both reads the file and truncates it. Whatever the file
holds, the loop comes to an end, a success leaves exactly the bytes in front of the
returned end, and a second call on those bytes finds the same records and changes
nothing. The reader decides about a record from the record's own bytes, which is why
the first pass and the second agree.
-/
namespace PebbleDB.Wal

open Framing

variable {σ : Type}

/-- A record is read again from its own bytes, also one whose tombstone byte is neither
0 nor 1 and which no append has written. -/
theorem readOneRecord_local (limits : ReplayLimits) : Local (readOneRecord limits) := by
  intro input rec n rest returned
  -- the frame says which bytes were read; the checksum over them is the same anywhere
  obtain ⟨crc, more, tomb, framed, flag, rfl, matches_⟩ :=
    readOneRecord_ok limits input rec n returned
  have len : (recordBody rec.key rec.value tomb ++ crc).length =
      recordHeaderSize + rec.key.length + rec.value.length := by
    rw [List.length_append, recordBody_length, framed.crcLen, recordHeaderSize]
    omega
  have again := readOneRecord_frame limits rec.key rec.value crc rest tomb framed.keyFits
    framed.valueFits framed.valid framed.crcLen
  rw [if_pos matches_, ← flag] at again
  rw [framed.bytes, List.take_left' len]
  exact again

/-- A clean end is reported only where nothing is left. -/
theorem readOneRecord_eof (limits : ReplayLimits) (input : Bytes)
    (clean : readOneRecord limits input = .error .eof) : input = [] := by
  rcases readOneRecord_cases limits input with
    ⟨empty, -⟩ | ⟨-, torn⟩ | ⟨e, limit, refused⟩ | ⟨key, value, crc, rest, tomb, framed⟩
  · exact empty
  · rw [torn] at clean
    cases clean
  · rw [refused] at clean
    cases clean
    rcases limit with h | h | h <;> cases h
  · rw [framed.read] at clean
    split at clean <;> cases clean

/-- An offset behind the end of the file is the end of the file. -/
theorem replay_min (limits : ReplayLimits) (start : Nat) (f : σ → Record → σ) (init : σ)
    (data : Bytes) :
    replayFromWithRecovery limits start (total f) init data =
      replayFromWithRecovery limits (min start data.length) (total f) init data := by
  unfold replayFromWithRecovery
  rw [Nat.min_assoc, Nat.min_self]

/-- More rounds of the loop than there are bytes make no difference: it has ended by
itself before. -/
theorem replayLoop_rounds (limits : ReplayLimits) (f : σ → Record → σ) (data : Bytes)
    (extra : Nat) (init : σ) (start : Nat) :
    replayLoop limits (total f) data (data.length + 1 + extra) init start start =
      replayLoop limits (total f) data (data.length + 1) init start start := by
  have enough : (data.drop start).length < data.length + 1 := by
    rw [List.length_drop]
    omega
  rw [replayLoop_eq_scan, replayLoop_eq_scan,
    scan_fuel (readOneRecord limits) (readOneRecord_progress limits) _ extra _ enough]

/-- How a replay of a file within the size limit ends: at the returned end the reader stops
for some reason `e`, which settles the outcome, and the bytes in front of that end are
replayed with the same records and a clean end. -/
theorem replay_ends (limits : ReplayLimits) (start : Nat) (f : σ → Record → σ) (init : σ)
    (data : Bytes) (fits : data.length ≤ limits.withDefaults.maxFileSize) :
    ∃ (rs : List Record) (validEnd : Nat) (e : Error), validEnd ≤ data.length ∧
      readOneRecord limits.withDefaults (data.drop validEnd) = .error e ∧
      replayFromWithRecovery limits start (total f) init data =
        settle data validEnd (rs.foldl f init) (some e) ∧
      replayFromWithRecovery limits start (total f) init (data.take validEnd) =
        ⟨rs.foldl f init, validEnd, data.take validEnd, none⟩ := by
  have progress := readOneRecord_progress limits.withDefaults
  -- the loop starts at the end of the file when `start` lies behind it
  obtain ⟨from_, offset⟩ : ∃ from_, from_ = min start data.length := ⟨_, rfl⟩
  have enough : (data.drop from_).length < data.length + 1 := by
    rw [List.length_drop]
    omega
  obtain ⟨e, stopped⟩ := scan_stops _ progress (data.length + 1) (data.drop from_) enough
  have used := scan_consumed_le _ progress (data.length + 1) (data.drop from_)
  have refused := scan_stopped_at _ (data.length + 1) (data.drop from_) e stopped
  have first := replay_eq_scan limits from_ f init data fits (by omega)
  -- what the first scan consumed is scanned again with a clean end
  have again := scan_again _ progress (readOneRecord_local limits.withDefaults) .eof rfl
    (data.length + 1) (data.drop from_)
  rw [stopped] at first
  generalize scan (readOneRecord limits.withDefaults) (data.length + 1) (data.drop from_) =
    found at *
  rw [List.length_drop] at used
  rw [List.drop_drop] at refused
  have len : (data.take (from_ + found.consumed)).length = from_ + found.consumed := by
    rw [List.length_take]
    omega
  refine ⟨found.items, from_ + found.consumed, e, by omega, refused, ?_, ?_⟩
  · rw [replay_min, ← offset]
    exact first
  · -- the second pass scans the bytes that the first one accepted
    have sameStart : min start (from_ + found.consumed) = from_ := by omega
    have kept : (data.take (from_ + found.consumed)).drop from_ =
        (data.drop from_).take found.consumed := by
      rw [List.drop_take, Nat.add_sub_cancel_left]
    rw [replay_min, len, sameStart, replay_eq_scan limits from_ f init _ (by omega) (by omega),
      kept, len, again _ (by rw [List.length_take]; omega)]
    rfl

/-- Recovery is total and idempotent on any bytes, from any offset and for any limits: more
rounds never change the outcome, and a file that is not refused for its size is read up to
a place inside it where the reader finds no further record; a success leaves the bytes in
front of the returned end, and a second call returns the same and leaves the same; an error
leaves the file. -/
theorem replay_total_idempotent (limits : ReplayLimits) (start : Nat) (f : σ → Record → σ)
    (init : σ) (data : Bytes) :
    let result := replayFromWithRecovery limits start (total f) init data
    (∀ extra, replayLoop limits.withDefaults (total f) data (data.length + 1 + extra) init
        (min start data.length) (min start data.length) =
      replayLoop limits.withDefaults (total f) data (data.length + 1) init
        (min start data.length) (min start data.length)) ∧
    result.validEnd ≤ data.length ∧
    (result.err ≠ some .walTooLarge →
      ∃ e, readOneRecord limits.withDefaults (data.drop result.validEnd) = .error e) ∧
    (result.err = none → result.file = data.take result.validEnd ∧
      replayFromWithRecovery limits start (total f) init result.file = result) ∧
    (result.err ≠ none → result.file = data) := by
  intro result
  refine ⟨fun extra => replayLoop_rounds _ f data extra init _, ?_⟩
  by_cases fits : data.length ≤ limits.withDefaults.maxFileSize
  · obtain ⟨rs, validEnd, e, inside, refused, first, again⟩ :=
      replay_ends limits start f init data fits
    change result = _ at first
    have returned : result.validEnd = validEnd := by
      rw [first]
      cases e <;> rfl
    rw [returned]
    refine ⟨inside, fun _ => ⟨e, refused⟩, ?_⟩
    cases e with
    | eof =>
      -- nothing is left behind the end, so the file is its own front
      have all : data.length ≤ validEnd :=
        List.drop_eq_nil_iff.mp (readOneRecord_eof _ _ refused)
      rw [List.take_of_length_le all] at again ⊢
      rw [first]
      exact ⟨fun _ => ⟨rfl, again⟩, fun failed => absurd rfl failed⟩
    -- a torn tail is cut off, which the caller sees as a success
    | unexpectedEOF =>
      rw [first]
      exact ⟨fun _ => ⟨rfl, again⟩, fun failed => absurd rfl failed⟩
    -- every other reason is returned, and nothing is cut off
    | walTooLarge | keyTooLarge | valueTooLarge | recordTooLarge | io =>
      rw [first]
      exact ⟨nofun, fun _ => rfl⟩
  · have refused : result = ⟨init, 0, data, some .walTooLarge⟩ :=
      replay_too_large limits start f init data (by omega)
    rw [refused]
    exact ⟨Nat.zero_le _, fun other => absurd rfl other, nofun, fun _ => rfl⟩

end PebbleDB.Wal
