import PebbleDB.Wal.Record

/-!
# The limits of an append

`encodeRecord` checks a record before it is written, `readOneRecord` checks it again when
the log is read. Both use `validateRecord`, but the lengths it is given differ: the reader
has them from the 32-bit fields of the record, the writer converts the lengths of the
slices to `uint32`. A key of 2^32 bytes is checked as one of length 0.

## Main result

`limitsHold_iff`: for any limits and any record, the writer accepts exactly the records
within the limits, and the reader takes what it accepts, if and only if no length of 2^32
or more slips through because of its low 32 bits. `not_limitsHold_wrapped` is a record
for which one does; its bytes do not read back.
-/
namespace PebbleDB.Wal

/-- The lengths as they are, against the three limits. -/
def Record.Within (rec : Record) (limits : ReplayLimits) : Prop :=
  rec.key.length ≤ limits.maxKeySize.toNat ∧ rec.value.length ≤ limits.maxValueSize.toNat ∧
    13 + rec.key.length + rec.value.length ≤ limits.maxRecordSize.toNat

/-- A buffer is returned for the records within the limits and for no others, and then the
reader accepts it and gives the record back. -/
structure LimitsHold (limits : ReplayLimits) (rec : Record) : Prop where
  returns_iff : (∃ buf, encodeRecord rec limits = .ok buf) ↔ rec.Within limits
  reads : ∀ buf, encodeRecord rec limits = .ok buf →
    readOneRecord limits buf = .ok (rec, buf.length)

theorem encodeRecord_returns_iff (rec : Record) (limits : ReplayLimits) :
    (∃ buf, encodeRecord rec limits = .ok buf) ↔
      limits.validateRecord (rec.key.length % 2 ^ 32) (rec.value.length % 2 ^ 32) = .ok () := by
  unfold encodeRecord
  constructor
  · rintro ⟨buf, returned⟩
    obtain ⟨_, passed, -⟩ := (Except.bind_eq_ok _ _ _).mp returned
    exact passed
  · intro passed
    exact ⟨rec.encoded, by rw [passed]; rfl⟩

/-- The limits are 32-bit numbers themselves. -/
theorem Record.Within.fits (rec : Record) (limits : ReplayLimits) (within : rec.Within limits) :
    rec.key.length < 2 ^ 32 ∧ rec.value.length < 2 ^ 32 :=
  ⟨within.1.trans_lt limits.maxKeySize.toNat_lt, within.2.1.trans_lt limits.maxValueSize.toNat_lt⟩

theorem Record.within_iff (rec : Record) (limits : ReplayLimits) :
    rec.Within limits ↔
      limits.validateRecord rec.key.length rec.value.length = .ok () :=
  (validateRecord_ok_iff limits rec.key.length rec.value.length).symm

/-- For any limits and a record of any size: the limits hold if and only if a record whose
truncated lengths pass the check has lengths that need no truncation. -/
theorem limitsHold_iff (limits : ReplayLimits) (rec : Record) :
    LimitsHold limits rec ↔
      (limits.validateRecord (rec.key.length % 2 ^ 32) (rec.value.length % 2 ^ 32) = .ok () →
        rec.key.length < 2 ^ 32 ∧ rec.value.length < 2 ^ 32) := by
  constructor
  · intro holds passed
    exact (holds.returns_iff.mp ((encodeRecord_returns_iff rec limits).mpr passed)).fits
  · intro safe
    have returned : ∀ buf, encodeRecord rec limits = .ok buf → Encodable limits rec := by
      intro buf returned
      have fits := safe ((encodeRecord_returns_iff rec limits).mp ⟨buf, returned⟩)
      exact Encodable.of_encodeRecord limits rec buf returned fits.1 fits.2
    refine ⟨⟨?_, ?_⟩, ?_⟩
    · rintro ⟨buf, is⟩
      exact (rec.within_iff limits).mpr (returned buf is).valid
    · intro within
      have encodable : Encodable limits rec :=
        ⟨within.fits.1, within.fits.2, (rec.within_iff limits).mp within⟩
      exact ⟨rec.encoded, encodable.encodeRecord⟩
    · intro buf is
      rw [encodeRecord_ok rec limits buf is]
      have read := Encodable.reads limits rec (returned buf is) []
      rwa [List.append_nil] at read

/-- A key of `n` zero bytes and no value. -/
def zeroKeyRecord (n : Nat) : Record := ⟨List.replicate n 0, [], false⟩

/-- With a length that wraps to 0, the zero bytes of the key are read as the rest of an
empty record and as its checksum. -/
theorem readOneRecord_zeroKeyRecord (limits : ReplayLimits) (n : Nat) (wraps : n % 2 ^ 32 = 0)
    (long : 9 ≤ n) (fits : 13 ≤ limits.maxRecordSize.toNat) :
    readOneRecord limits (zeroKeyRecord n).encoded = .error .unexpectedEOF := by
  have frame := readOneRecord_frame limits [] [] [0, 0, 0, 0]
    (List.replicate (n - 9) 0 ++ [0, 0, 0, 0, 0] ++
      putUint32 (checksumIEEE (recordBody (List.replicate n 0) [] 0))) 0 (by simp) (by simp)
    ((validateRecord_ok_iff limits 0 0).mpr ⟨by simp, by simp, fits⟩) rfl
  have zeros : List.replicate n (0 : UInt8) = List.replicate 9 0 ++ List.replicate (n - 9) 0 := by
    rw [List.replicate_append_replicate, Nat.add_sub_of_le long]
  have field : putUint32 n = [0, 0, 0, 0] := by
    rw [← putUint32_beDecode (putUint32 n) (putUint32_length n), beDecode_putUint32, wraps]
    rfl
  have bytes : (zeroKeyRecord n).encoded = recordBody [] [] 0 ++ [0, 0, 0, 0] ++
      (List.replicate (n - 9) 0 ++ [0, 0, 0, 0, 0] ++
        putUint32 (checksumIEEE (recordBody (List.replicate n 0) [] 0))) := by
    have body : recordBody (List.replicate n 0) [] 0 = recordBody [] [] 0 ++ [0, 0, 0, 0] ++
        (List.replicate (n - 9) 0 ++ [0, 0, 0, 0, 0]) := by
      rw [recordBody, List.length_replicate, field, zeros]
      simp [recordBody, putUint32, beEncode, List.replicate]
    rw [← List.append_assoc, ← body]
    rfl
  rw [bytes, frame, if_neg (by decide +kernel)]

/-- Under the default limits a key of 2^32 zero bytes is accepted, and what is written for
it does not read back. -/
theorem not_limitsHold_wrapped :
    encodeRecord (zeroKeyRecord (2 ^ 32)) defaultReplayLimits =
        .ok (zeroKeyRecord (2 ^ 32)).encoded ∧
      ¬(zeroKeyRecord (2 ^ 32)).Within defaultReplayLimits ∧
      readOneRecord defaultReplayLimits (zeroKeyRecord (2 ^ 32)).encoded =
        .error .unexpectedEOF := by
  have size : (zeroKeyRecord (2 ^ 32)).key.length = 2 ^ 32 := List.length_replicate
  refine ⟨?_, ?_, ?_⟩
  · obtain ⟨buf, returned⟩ := (encodeRecord_returns_iff (zeroKeyRecord (2 ^ 32))
      defaultReplayLimits).mpr (by rw [size]; decide)
    rw [returned, encodeRecord_ok _ _ _ returned]
  · intro within
    exact absurd within.fits.1 (by rw [size]; exact lt_irrefl _)
  · exact readOneRecord_zeroKeyRecord defaultReplayLimits (2 ^ 32) (by decide) (by decide)
      (by decide)

end PebbleDB.Wal
