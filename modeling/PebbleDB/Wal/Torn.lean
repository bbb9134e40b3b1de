import PebbleDB.Wal.Content

/-!
# A log with a torn tail

A crash can leave any front of the bytes that were being appended. Replay gives back
the records in front of the cut and removes what is left of the record it fell into.
-/
namespace PebbleDB.Wal

open Framing

/-! ### Reading a front of a record -/

/-- A field that is cut off is an unexpected end; a whole one is read as before. -/
theorem readField_take (field rest : Bytes) (m : Nat) :
    readField field.length ((field ++ rest).take m) =
      if field.length ≤ m then .ok (field, rest.take (m - field.length))
      else .error .unexpectedEOF := by
  by_cases whole : field.length ≤ m
  · rw [if_pos whole, List.take_append, List.take_of_length_le whole]
    exact readField_append _ _ _ rfl
  · rw [if_neg whole, List.take_append_of_le_length (by omega)]
    have few : (field.take m).length < field.length := by
      rw [List.length_take]
      omega
    cases result : readField field.length (field.take m) with
    | error e => rw [(readField_error _ _ _ result).1]
    | ok got =>
      have split := (readField_ok _ _ got.1 got.2 result)
      have len := congrArg List.length split.1
      rw [List.length_append, split.2] at len
      omega

/-- Reading a front of a record stops with an unexpected end, whichever field the cut
falls into. -/
theorem Encodable.torn (limits : ReplayLimits) (rec : Record) (encodable : Encodable limits rec) :
    Torn (readOneRecord limits) Record.encoded .unexpectedEOF rec := by
  intro m nonempty cut
  have bounds := (validateRecord_ok_iff limits _ _).mp encodable.valid
  have keyLen := putUint32_mod rec.key.length encodable.keyFits
  have valueLen := putUint32_mod rec.value.length encodable.valueFits
  generalize crcBytes : putUint32 (checksumIEEE (recordBody rec.key rec.value rec.tombByte)) = crc
  have crcLen : crc.length = 4 := by rw [← crcBytes, putUint32_length]
  have bytes : rec.encoded = putUint32 rec.key.length ++ (rec.key ++ (putUint32 rec.value.length ++
      (rec.value ++ ([rec.tombByte] ++ (crc ++ []))))) := by
    rw [← crcBytes]
    simp [Record.encoded, recordBody]
  rw [rec.encoded_length, recordHeaderSize] at cut
  rw [bytes]
  unfold readOneRecord
  by_cases inKeyLen : m < 4
  · -- the only field whose short read is not mapped
    have few : ¬4 ≤ ((putUint32 rec.key.length ++ (rec.key ++ (putUint32 rec.value.length ++
        (rec.value ++ ([rec.tombByte] ++ (crc ++ [])))))).take m).length := by
      rw [List.length_take]
      omega
    have some_ : (putUint32 rec.key.length ++ (rec.key ++ (putUint32 rec.value.length ++
        (rec.value ++ ([rec.tombByte] ++ (crc ++ [])))))).take m ≠ [] := by
      intro empty
      have len := congrArg List.length empty
      simp [List.length_take] at len
      omega
    rw [readFull, if_neg few, if_neg some_]
    rfl
  have head : readFull 4 ((putUint32 rec.key.length ++ (rec.key ++ (putUint32 rec.value.length ++
      (rec.value ++ ([rec.tombByte] ++ (crc ++ [])))))).take m) =
      .ok (putUint32 rec.key.length, (rec.key ++ (putUint32 rec.value.length ++
        (rec.value ++ ([rec.tombByte] ++ (crc ++ []))))).take (m - 4)) := by
    rw [List.take_append, List.take_of_length_le (by rw [putUint32_length]; omega),
      putUint32_length]
    exact readFull_append 4 _ _ (putUint32_length _)
  have valueLenField := readField_take (putUint32 rec.value.length)
  have crcField := readField_take crc
  have tombField := readField_take [rec.tombByte]
  simp only [putUint32_length, crcLen, List.length_singleton] at valueLenField crcField tombField
  rw [head]
  simp only [Except.mapError_ok, Except.ok_bind, keyLen, if_neg (Nat.not_lt.mpr bounds.1),
    readField_take rec.key]
  by_cases inKey : rec.key.length ≤ m - 4
  swap
  · rw [if_neg inKey]
    rfl
  simp only [if_pos inKey, Except.ok_bind, valueLenField]
  by_cases inValueLen : 4 ≤ m - 4 - rec.key.length
  swap
  · rw [if_neg inValueLen]
    rfl
  simp only [if_pos inValueLen, Except.ok_bind, valueLen, if_neg (Nat.not_lt.mpr bounds.2.1),
    encodable.valid, readField_take rec.value]
  by_cases inValue : rec.value.length ≤ m - 4 - rec.key.length - 4
  swap
  · rw [if_neg inValue]
    rfl
  simp only [if_pos inValue, Except.ok_bind, tombField]
  by_cases inTomb : 1 ≤ m - 4 - rec.key.length - 4 - rec.value.length
  swap
  · rw [if_neg inTomb]
    rfl
  simp only [if_pos inTomb, Except.ok_bind, crcField]
  rw [if_neg (by omega)]
  rfl

/-! ### The records between two offsets -/

/-- The records that lie entirely between two offsets of a log whose next record starts
at `pos`. -/
def lyingBetween (offset p : Nat) : Nat → List Record → List Record
  | _, [] => []
  | pos, rec :: rs =>
    let stop := pos + rec.encoded.length
    if offset ≤ pos ∧ stop ≤ p then rec :: lyingBetween offset p stop rs
    else lyingBetween offset p stop rs

theorem lyingBetween_skip (offset p pos : Nat) (front rest : List Record)
    (start : pos + size front = offset) :
    lyingBetween offset p pos (front ++ rest) = lyingBetween offset p offset rest := by
  induction front generalizing pos with
  | nil => rw [List.nil_append, ← start, size_nil, Nat.add_zero]
  | cons rec front ih =>
    have header := rec.encoded_length
    rw [recordHeaderSize] at header
    rw [size, List.flatMap_cons, List.length_append] at start
    rw [List.cons_append, lyingBetween, if_neg (by omega)]
    exact ih _ (by rw [size]; omega)

/-- Once a record reaches beyond the cut, so do all later ones. -/
theorem lyingBetween_past (offset p pos : Nat) (rs : List Record) (past : p < pos) :
    lyingBetween offset p pos rs = [] := by
  induction rs generalizing pos with
  | nil => rfl
  | cons rec rs ih =>
    rw [lyingBetween, if_neg (by omega)]
    exact ih _ (by omega)

theorem lyingBetween_eq_whole (offset p pos : Nat) (rs : List Record) (behind : offset ≤ pos)
    (inside : pos ≤ p) :
    lyingBetween offset p pos rs = whole Record.encoded (p - pos) rs := by
  induction rs generalizing pos with
  | nil => rfl
  | cons rec rs ih =>
    rw [lyingBetween, whole]
    by_cases complete : pos + rec.encoded.length ≤ p
    · rw [if_pos ⟨behind, complete⟩, if_pos (by omega), ih _ (by omega) complete, Nat.sub_add_eq]
    · rw [if_neg (by omega), if_neg (by omega)]
      exact lyingBetween_past offset p _ rs (by omega)

/-! ### Round trip -/

/-- The defaults only ever raise a limit. -/
theorem Encodable.withDefaults (limits : ReplayLimits) (rec : Record)
    (encodable : Encodable limits rec) : Encodable limits.withDefaults rec := by
  refine ⟨encodable.keyFits, encodable.valueFits, ?_⟩
  have bounds := (validateRecord_ok_iff limits _ _).mp encodable.valid
  rw [validateRecord_ok_iff]
  simp only [ReplayLimits.withDefaults]
  refine ⟨?_, ?_, ?_⟩
  · split
    next zero => exact bounds.1.trans (by rw [zero]; exact Nat.zero_le _)
    · exact bounds.1
  · split
    next zero => exact bounds.2.1.trans (by rw [zero]; exact Nat.zero_le _)
    · exact bounds.2.1
  · split
    next zero => simp [zero, recordHeaderSize] at bounds
    · exact bounds.2.2

/-- Replaying the first `p` bytes of a log from one of its record boundaries delivers the
records between the two, and leaves a file that ends with the last of them. -/
theorem replayFromWithRecovery_cut {σ : Type} (limits : ReplayLimits) (f : σ → Record → σ)
    (init : σ) (rs : List Record)
    (encoded : ∀ rec ∈ rs, encodeRecord rec limits = .ok rec.encoded)
    (lengths : ∀ rec ∈ rs, rec.key.length < 2 ^ 32 ∧ rec.value.length < 2 ^ 32)
    (fits : size rs ≤ limits.withDefaults.maxFileSize) (i p : Nat) (inside : p ≤ size rs)
    (boundary : size (rs.take i) ≤ p) :
    let offset := size (rs.take i)
    let delivered := lyingBetween offset p 0 rs
    replayFromWithRecovery limits offset (total f) init ((rs.flatMap Record.encoded).take p) =
      ⟨delivered.foldl f init, offset + size delivered,
        (rs.flatMap Record.encoded).take (offset + size delivered), none⟩ := by
  have encodable : ∀ rec ∈ rs, Encodable limits.withDefaults rec := by
    intro rec member
    have small := lengths rec member
    exact (Encodable.of_encodeRecord limits rec _ (encoded rec member) small.1
      small.2).withDefaults
  have later : ∀ rec ∈ rs.drop i, Encodable limits.withDefaults rec :=
    fun rec member => encodable rec (List.mem_of_mem_drop member)
  have parts : size rs = size (rs.take i) + size (rs.drop i) := by
    rw [← size_append, List.take_append_drop]
  have bytes : rs.flatMap Record.encoded =
      (rs.take i).flatMap Record.encoded ++ (rs.drop i).flatMap Record.encoded := by
    rw [← List.flatMap_append, List.take_append_drop]
  have cutLength : ((rs.flatMap Record.encoded).take p).length = p := by
    rw [List.length_take]
    exact Nat.min_eq_left inside
  have behind : ((rs.flatMap Record.encoded).take p).drop (size (rs.take i)) =
      ((rs.drop i).flatMap Record.encoded).take (p - size (rs.take i)) := by
    rw [List.drop_take, bytes]
    congr 1
    exact List.drop_left
  have delivered : lyingBetween (size (rs.take i)) p 0 rs =
      whole Record.encoded (p - size (rs.take i)) (rs.drop i) := by
    have skip := lyingBetween_skip (size (rs.take i)) p 0 (rs.take i) (rs.drop i) (by omega)
    rw [List.take_append_drop] at skip
    rw [skip]
    exact lyingBetween_eq_whole _ p _ _ (le_refl _) boundary
  have scanned := scan_cut (readOneRecord limits.withDefaults) Record.encoded
    (readOneRecord_progress _) .eof .unexpectedEOF rfl (rs.drop i)
    (fun rec member => (later rec member).reads) (fun rec member => (later rec member).torn)
    (p - size (rs.take i)) (p + 1) (by rw [← size]; omega) (by omega)
  dsimp only
  rw [replay_eq_scan limits _ f init _ (by rw [cutLength]; omega) (by rw [cutLength]; omega),
    behind, cutLength, scanned, delivered, ← size]
  -- the whole records end at the cut, or the rest of the file is a torn record
  by_cases clean : size (whole Record.encoded (p - size (rs.take i)) (rs.drop i)) =
      p - size (rs.take i)
  · rw [if_pos clean, settle, clean, Nat.add_sub_cancel' boundary]
  · have room := whole_length_le Record.encoded (p - size (rs.take i)) (rs.drop i)
    rw [← size] at room
    have cut : size (rs.take i) + size (whole Record.encoded (p - size (rs.take i)) (rs.drop i)) ≤
        p := by
      omega
    rw [if_neg clean, settle, List.take_take, Nat.min_eq_left cut]

/-- Three records, replayed from the second one with the third torn. -/
theorem replayFromWithRecovery_cut_third :
    let rs : List Record := [⟨[97], [1], false⟩, ⟨[98], [], true⟩, ⟨[], [3, 4], false⟩]
    replayFromWithRecovery defaultReplayLimits (size (rs.take 1)) (total collect) []
        ((rs.flatMap Record.encoded).take 40) =
      ⟨(lyingBetween (size (rs.take 1)) 40 0 rs).foldl collect [],
        size (rs.take 1) + size (lyingBetween (size (rs.take 1)) 40 0 rs),
        (rs.flatMap Record.encoded).take
          (size (rs.take 1) + size (lyingBetween (size (rs.take 1)) 40 0 rs)), none⟩ ∧
    lyingBetween (size (rs.take 1)) 40 0 rs = [⟨[98], [], true⟩] :=
  ⟨replayFromWithRecovery_cut defaultReplayLimits collect []
    [⟨[97], [1], false⟩, ⟨[98], [], true⟩, ⟨[], [3, 4], false⟩] (by decide +kernel) (by decide)
    (by decide +kernel) 1 40 (by decide +kernel) (by decide +kernel), by decide +kernel⟩

end PebbleDB.Wal
