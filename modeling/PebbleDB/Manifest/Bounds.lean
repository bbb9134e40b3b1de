import PebbleDB.Manifest.Faults

/-!
# The bounds of a manifest record

`decodeRecord` is given bytes that a crash or a damaged file may have left. It cuts the
payload out at `data[8:total]`, where `total` is `4 + recordLen`, added up in 32 bits. For
the four largest length fields the sum wraps to a number below the header: it passes the
comparison with the length of the data, and the slice expression panics.

## Main result

`decodesInBounds_iff`: these four length fields are the only ones for which the function
does not return, and the payloads that are read back from their encoding are those for
which the sum does not wrap. `replay_panic_iff`: the manifest files on which replay panics
are those with such a length field, and all the bytes it announces, behind whole records.
-/
namespace PebbleDB.Manifest

open Framing Slicing

/-- `decodeRecord` with its slice expressions as they are checked at run time. -/
def decodeRecordChecked (data : Bytes) : Except Fault (Except Error Bytes) :=
  if data.length < 8 then .ok (.error .unexpectedEOF)
  else do
    let recordLen ← bigEndian 4 (← slice data 0 4)
    if recordLen < 4 then .ok (.error .unexpectedEOF)
    else
      let total := (4 + recordLen) % 2 ^ 32
      if data.length < total then .ok (.error .unexpectedEOF)
      else do
        let checksum ← bigEndian 4 (← slice data 4 8)
        let payload ← slice data 8 total
        if checksumIEEE payload ≠ checksum then .ok (.error .unexpectedEOF)
        else .ok (.ok payload)

/-- `4 + recordLen` does not fit 32 bits. -/
def Wraps (data : Bytes) : Prop := 8 ≤ data.length ∧ 2 ^ 32 ≤ 4 + beDecode (data.take 4)

/-- No slice expression is out of range, and an error is returned or the bytes
`data[8:4+recordLen]`, all of which are there. -/
def DecodesInBounds (data : Bytes) : Prop :=
  (∃ e, decodeRecordChecked data = .ok (.error e)) ∨
    4 + beDecode (data.take 4) ≤ data.length ∧
      decodeRecordChecked data = .ok (.ok ((data.take (4 + beDecode (data.take 4))).drop 8))

theorem recordLen_lt (data : Bytes) (header : 8 ≤ data.length) :
    beDecode (data.take 4) < 2 ^ 32 :=
  beDecode_lt_uint32 _ (by rw [List.length_take]; omega)

/-- Behind the header, where the only slice expression is the one for the payload. -/
theorem decodeRecordChecked_header (data : Bytes) (header : 8 ≤ data.length) :
    decodeRecordChecked data =
      let recordLen := beDecode (data.take 4)
      let total := (4 + recordLen) % 2 ^ 32
      if recordLen < 4 then .ok (.error .unexpectedEOF)
      else if data.length < total then .ok (.error .unexpectedEOF)
      else slice data 8 total >>= fun payload =>
        if checksumIEEE payload ≠ beDecode ((data.drop 4).take 4) then
          .ok (.error .unexpectedEOF)
        else .ok (.ok payload) := by
  have first : slice data 0 4 = .ok (data.take 4) := slice_ok data 0 4 (by omega) (by omega)
  have second : slice data 4 8 = .ok ((data.drop 4).take 4) :=
    slice_ok data 4 8 (by omega) (by omega)
  have lenField := bigEndian_ok 4 (data.take 4) (by rw [List.length_take]; omega)
  have crcField := bigEndian_ok 4 ((data.drop 4).take 4)
    (by rw [List.length_take, List.length_drop]; omega)
  rw [List.take_take, Nat.min_self] at lenField crcField
  unfold decodeRecordChecked
  rw [if_neg (by omega)]
  simp only [first, second, lenField, crcField, Except.ok_bind]

/-- The result of `decodeRecord`, in whose error type a panic is one error among others. -/
def faulted : Except Error Bytes → Except Fault (Except Error Bytes)
  | .error .panic => .error .outOfRange
  | result => .ok result

/-- The model that replay uses is right about where it panics. -/
theorem decodeRecordChecked_eq (data : Bytes) :
    decodeRecordChecked data = faulted (decodeRecord data) := by
  by_cases header : data.length < 8
  · unfold decodeRecordChecked decodeRecord
    rw [if_pos header, if_pos header]
    rfl
  rw [decodeRecordChecked_header data (by omega)]
  unfold decodeRecord
  rw [if_neg header]
  dsimp only
  generalize (4 + beDecode (data.take 4)) % 2 ^ 32 = total
  by_cases few : beDecode (data.take 4) < 4
  · rw [if_pos few, if_pos few]
    rfl
  by_cases short : data.length < total
  · rw [if_neg few, if_neg few, if_pos short, if_pos short]
    rfl
  rw [if_neg few, if_neg few, if_neg short, if_neg short]
  by_cases wraps : total < 8
  · rw [slice_error data 8 total (.inl wraps), if_pos wraps]
    rfl
  rw [slice_ok data 8 total (by omega) (by omega), if_neg wraps, Except.ok_bind, ← List.drop_take]
  by_cases good : checksumIEEE ((data.take total).drop 8) = beDecode ((data.drop 4).take 4)
  · rw [if_neg (not_not.mpr good), if_neg (not_not.mpr good)]
    rfl
  · rw [if_pos good, if_pos good]
    rfl

/-- The wrapped total lies in front of the payload. -/
theorem decodeRecord_wraps (data : Bytes) (wraps : Wraps data) :
    decodeRecord data = .error .panic := by
  obtain ⟨header, large⟩ := wraps
  have small := recordLen_lt data header
  unfold decodeRecord
  rw [if_neg (by omega)]
  dsimp only
  rw [if_neg (by omega), if_neg (by omega), if_pos (by omega)]

/-- Without the wrap, the comparisons keep the slice in range. -/
theorem decodeRecord_inBounds (data : Bytes) (fits : ¬Wraps data) :
    decodeRecord data = .error .unexpectedEOF ∨
      4 + beDecode (data.take 4) ≤ data.length ∧
        decodeRecord data = .ok ((data.take (4 + beDecode (data.take 4))).drop 8) := by
  unfold decodeRecord
  by_cases header : data.length < 8
  · exact .inl (by rw [if_pos header])
  have total : (4 + beDecode (data.take 4)) % 2 ^ 32 = 4 + beDecode (data.take 4) := by
    have bound : ¬2 ^ 32 ≤ 4 + beDecode (data.take 4) := fun large => fits ⟨by omega, large⟩
    omega
  rw [if_neg header]
  simp only [total]
  by_cases few : beDecode (data.take 4) < 4
  · exact .inl (by rw [if_pos few])
  by_cases short : data.length < 4 + beDecode (data.take 4)
  · exact .inl (by rw [if_neg few, if_pos short])
  rw [if_neg few, if_neg short, if_neg (by omega)]
  -- everything announced is there; the checksum decides
  by_cases good : checksumIEEE ((data.take (4 + beDecode (data.take 4))).drop 8) =
      beDecode ((data.drop 4).take 4)
  · exact .inr ⟨by omega, by rw [if_neg (not_not.mpr good)]⟩
  · exact .inl (by rw [if_pos good])

/-- A payload that is returned is shorter than the total, which has 32 bits. -/
theorem decodeRecord_fits (data payload : Bytes) (returned : decodeRecord data = .ok payload) :
    Fits payload := by
  have noWrap : ¬Wraps data := by
    intro wraps
    rw [decodeRecord_wraps data wraps] at returned
    cases returned
  have header : 8 ≤ data.length := by
    by_contra short
    unfold decodeRecord at returned
    rw [if_pos (by omega)] at returned
    cases returned
  have bound : ¬2 ^ 32 ≤ 4 + beDecode (data.take 4) := fun large => noWrap ⟨header, large⟩
  rcases decodeRecord_inBounds data noWrap with failed | ⟨inside, is⟩
  · rw [failed] at returned
    cases returned
  · rw [is] at returned
    cases returned
    unfold Fits
    rw [List.length_drop, List.length_take]
    omega

/-- The wrap is the only way to panic. -/
theorem decodeRecord_panic_iff (data : Bytes) : decodeRecord data = .error .panic ↔ Wraps data := by
  constructor
  · intro panics
    by_contra fits
    rcases decodeRecord_inBounds data fits with failed | ⟨-, is⟩
    · rw [failed] at panics
      cases panics
    · rw [is] at panics
      cases panics
  · exact decodeRecord_wraps data

/-! ### Replay -/

/-- The input starts with one of the four length fields and has all the bytes it announces. -/
def Overflows (input : Bytes) : Prop :=
  2 ^ 32 ≤ 4 + beDecode (input.take 4) ∧ 4 + beDecode (input.take 4) ≤ input.length

/-- With fewer bytes the read of the rest is short, and the tail is salvaged. -/
theorem readRecord_panic_iff (input : Bytes) :
    readRecord input = .error .panic ↔ Overflows input := by
  unfold readRecord Overflows
  by_cases short : input.length < 4
  · obtain ⟨e, failed⟩ := readFull_short 4 input short
    rw [failed]
    refine iff_of_false ?_ (by omega)
    cases e
    · simp
    · simp
  rw [readFull_of_le 4 input (by omega)]
  dsimp only
  by_cases few : beDecode (input.take 4) < 4
  · rw [if_pos few]
    exact iff_of_false (by simp) (by omega)
  rw [if_neg few]
  by_cases torn : (input.drop 4).length < beDecode (input.take 4)
  · obtain ⟨e, failed⟩ := readFull_short _ _ torn
    rw [failed]
    rw [List.length_drop] at torn
    exact iff_of_false (by simp) (by omega)
  have length : (input.take 4).length = 4 := by rw [List.length_take]; omega
  rw [readFull_of_le _ _ (by omega)]
  rw [List.length_drop] at torn
  -- the record is there in full; `decodeRecord` is given all of it
  have decoded := decodeRecord_panic_iff
    (input.take 4 ++ (input.drop 4).take (beDecode (input.take 4)))
  rw [Wraps, List.take_left' length, List.length_append, length, List.length_take,
    List.length_drop] at decoded
  rw [Except.bind_eq_error, decoded]
  simp only [Except.pure_eq_ok, reduceCtorEq, and_false, exists_false, or_false]
  omega

/-- An edit that cannot be applied is an error that `applyEdit` returns, not a panic. -/
theorem applyEdit_error (live : Finset UInt64) (payload : Bytes) (e : Error)
    (refused : applyEdit live payload = .error e) : e = .unexpectedEOF := by
  simp only [applyEdit] at refused
  repeat' split at refused
  all_goals cases refused
  all_goals rfl

theorem foldlM_applyEdit_error (payloads : List Bytes) (live : Finset UInt64) (e : Error)
    (refused : payloads.foldlM applyEdit live = .error e) : e = .unexpectedEOF := by
  induction payloads generalizing live with
  | nil => cases refused
  | cons payload payloads ih =>
    rw [List.foldlM_cons, Except.bind_eq_error] at refused
    rcases refused with first | ⟨next, -, later⟩
    · exact applyEdit_error live payload e first
    · exact ih next later

/-- Exactly these manifests make replay panic: whole records whose edits can be applied, and
behind them one of the four length fields with all the bytes it announces. -/
theorem replay_panic_iff (data : Bytes) :
    (replay data).err = some .panic ↔
      ∃ records tail live, data = records ++ tail ∧ WholeRecords records ∧
        Replays records live ∧ Overflows tail := by
  constructor
  · intro panics
    cases applied : (scan readRecord (data.length + 1) data).items.foldlM applyEdit ∅ with
    | error e =>
      -- the loop returns the error of `applyEdit`
      have failed := replayLoop_failed data (data.length + 1) ∅ 0 0 e
        (by rw [List.drop_zero]; exact applied)
      rw [replay, failed, foldlM_applyEdit_error _ _ e applied] at panics
      cases panics
    | ok live =>
      obtain ⟨e, stopped⟩ := scan_stops readRecord readRecord_progress (data.length + 1) data
        (Nat.lt_succ_self _)
      rw [replay_eq_settle data live applied, stopped] at panics
      cases e with
      | panic =>
        refine ⟨_, _, live, (List.take_append_drop _ data).symm, wholeRecords_truncated data,
          ⟨?_, ?_⟩, (readRecord_panic_iff _).mp (scan_stopped_at _ _ _ _ stopped)⟩
        · rw [scan_truncated]
          exact applied
        · exact .inl (wholeRecords_truncated data)
      | eof => cases panics
      | unexpectedEOF => cases panics
      | io => cases panics
  · rintro ⟨records, tail, live, rfl, whole, replays, overflows⟩
    have last := scan_error readRecord tail.length tail .panic
      ((readRecord_panic_iff tail).mpr overflows)
    have all := scan_behind records tail whole
    rw [last, List.append_nil] at all
    have applied : (scan readRecord ((records ++ tail).length + 1)
        (records ++ tail)).items.foldlM applyEdit ∅ = .ok live := by
      rw [all]
      exact replays.applied
    rw [replay_eq_settle _ live applied, all]
    rfl

/-- For all data and payloads: decoding stays within the data if and only if `4 + recordLen`
does not wrap, and a payload comes back from its encoding if and only if it is shorter than
2^32 - 8 bytes. -/
theorem decodesInBounds_iff (data payload : Bytes) :
    (DecodesInBounds data ↔ ¬Wraps data) ∧
      (decodeRecordChecked (encodeRecord payload) = .ok (.ok payload) ↔
        payload.length < 2 ^ 32 - 8) := by
  unfold DecodesInBounds
  rw [decodeRecordChecked_eq, decodeRecordChecked_eq]
  constructor
  · constructor
    · intro inBounds wraps
      rw [decodeRecord_wraps data wraps] at inBounds
      simp [faulted] at inBounds
    · intro fits
      rcases decodeRecord_inBounds data fits with failed | ⟨inside, is⟩
      · exact .inl ⟨.unexpectedEOF, by rw [failed]; rfl⟩
      · exact .inr ⟨inside, by rw [is]; rfl⟩
  · constructor
    · intro returned
      cases decoded : decodeRecord (encodeRecord payload) with
      | error e =>
        rw [decoded] at returned
        cases e <;> cases returned
      | ok decodedPayload =>
        rw [decoded] at returned
        cases returned
        have fits : payload.length + 8 < 2 ^ 32 := decodeRecord_fits _ _ decoded
        omega
    · intro short
      have fits : Fits payload := by
        unfold Fits
        omega
      rw [decodeRecord_encodeRecord payload fits]
      rfl

/-- Eight bytes are enough to panic, and so does a payload of 2^32 - 8 bytes. -/
theorem not_decodesInBounds_wrap :
    decodeRecordChecked [255, 255, 255, 252, 0, 0, 0, 0] = .error .outOfRange ∧
      decodeRecordChecked (encodeRecord (List.replicate (2 ^ 32 - 8) 0)) = .error .outOfRange := by
  constructor
  · decide
  · have size : (List.replicate (2 ^ 32 - 8) (0 : UInt8)).length = 2 ^ 32 - 8 :=
      List.length_replicate
    have wraps : Wraps (encodeRecord (List.replicate (2 ^ 32 - 8) 0)) := by
      constructor
      · rw [encodeRecord_length]
        omega
      · rw [encodeRecord, List.append_assoc, List.take_left' (putUint32_length _), size,
          putUint32_mod _ (by decide)]
        decide
    rw [decodeRecordChecked_eq, decodeRecord_wraps _ wraps]
    rfl

end PebbleDB.Manifest
