import PebbleDB.Sst.Reader

/-!
# The range checks of `OpenReader`

The footer names the index and the filter by offset and length. `OpenReader` adds the two
as uint64 and compares the sum, as an int64, with the end of the data. A sum that leaves
the range of int64 turns up negative, or small, and is let through.

## Main result

`sectionsSound_iff`: the checks admit only sections inside the data, unless the footer
holds such a sum. The three cases of a sum are told apart in `section_admitted`.
-/
namespace PebbleDB.Sst

/-- The section ends at `dataEnd` or before, as natural numbers. -/
def Within (offset length dataEnd : Nat) : Prop := offset + length ≤ dataEnd

/-- The end of the section is not an int64, and what the sum wraps to, if it leaves uint64
as well, is not above `dataEnd`. -/
def Wraps (offset length dataEnd : Nat) : Prop :=
  offset < 2 ^ 63 ∧ 2 ^ 63 ≤ offset + length ∧
    (2 ^ 64 ≤ offset + length → offset + length - 2 ^ 64 ≤ dataEnd)

instance (offset length dataEnd : Nat) : Decidable (Within offset length dataEnd) :=
  inferInstanceAs (Decidable (_ ≤ _))

instance (offset length dataEnd : Nat) : Decidable (Wraps offset length dataEnd) :=
  inferInstanceAs (Decidable (_ ∧ _))

namespace Footer

/-- Both sections lie inside the data; a filter of length zero is not read. -/
structure InRange (f : Footer) (dataEnd : Nat) : Prop where
  index : f.indexOffset + f.indexLength ≤ dataEnd
  bloom : 0 < f.bloomLength → f.bloomOffset + f.bloomLength ≤ dataEnd

/-- A section wraps, and the footer has nothing else that `OpenReader` would refuse. -/
structure Overflows (f : Footer) (dataEnd : Nat) : Prop where
  wraps : Wraps f.indexOffset f.indexLength dataEnd ∨
    0 < f.bloomLength ∧ Wraps f.bloomOffset f.bloomLength dataEnd
  index : Within f.indexOffset f.indexLength dataEnd ∨ Wraps f.indexOffset f.indexLength dataEnd
  bloom : 0 < f.bloomLength →
    (Within f.bloomOffset f.bloomLength dataEnd ∨ Wraps f.bloomOffset f.bloomLength dataEnd) ∧
      (f.indexOffset + f.indexLength) % 2 ^ 64 ≤ f.bloomOffset

end Footer

/-- If the checks pass, the sections are inside the data and `OpenReader` does not panic. -/
def SectionsSound (file : Bytes) (footer : Footer) : Prop :=
  checkSections footer (file.length - footerSize) = .ok () →
    footer.InRange (file.length - footerSize) ∧
      ∀ fileID id, openReader fileID id file ≠ .error .panic

/-! ### One section -/

/-- The test on one section, in the three ranges of the sum: below 2^63 it is exact, below
2^64 it is always passed, and above it is about the rest modulo 2^64. -/
theorem section_admitted (offset length dataEnd : Nat) (fitsOffset : offset < 2 ^ 64)
    (fitsLength : length < 2 ^ 64) (size : dataEnd < 2 ^ 63) :
    (¬toInt64 offset < 0 ∧ ¬(dataEnd : Int) < toInt64 (offset + length)) ↔
      Within offset length dataEnd ∨ Wraps offset length dataEnd := by
  have sign : toInt64 offset < 0 ↔ 2 ^ 63 ≤ offset := by
    rw [toInt64, Nat.mod_eq_of_lt fitsOffset]
    split <;> omega
  rw [sign, Within, Wraps]
  by_cases exact_ : offset + length < 2 ^ 63
  · have sum : toInt64 (offset + length) = (offset + length : Nat) := by
      rw [toInt64, Nat.mod_eq_of_lt (by omega), if_pos exact_]
    rw [sum]
    omega
  by_cases negative : offset + length < 2 ^ 64
  · have sum : toInt64 (offset + length) < 0 := by
      rw [toInt64, Nat.mod_eq_of_lt negative, if_neg exact_]
      omega
    omega
  · have rest : (offset + length) % 2 ^ 64 = offset + length - 2 ^ 64 := by omega
    by_cases low : offset < 2 ^ 63
    · have sum : toInt64 (offset + length) = (offset + length - 2 ^ 64 : Nat) := by
        rw [toInt64, rest, if_pos (by omega)]
      rw [sum]
      omega
    · omega

/-! ### The footer -/

/-- What a footer that was read says about its fields and its file. -/
theorem readFooter_fits (file : Bytes) (footer : Footer) (read : readFooter file = .ok footer) :
    footerSize ≤ file.length ∧ footer.indexOffset < 2 ^ 64 ∧ footer.indexLength < 2 ^ 64 ∧
      footer.bloomOffset < 2 ^ 64 ∧ footer.bloomLength < 2 ^ 64 := by
  have field (bytes : Bytes) (n : Nat) : beDecode ((bytes.drop n).take 8) < 2 ^ 64 :=
    lt_of_lt_of_le (beDecode_lt _)
      (Nat.pow_le_pow_right (by decide : 0 < 256) (List.length_take_le 8 _))
  rw [readFooter] at read
  split at read
  · cases read
  next long =>
    obtain ⟨decoded, decode, checked⟩ := (Except.bind_eq_ok _ _ _).mp read
    split at checked
    · cases checked
    split at checked
    · cases checked
    cases checked
    rw [Footer.decode] at decode
    split at decode
    · cases decode
    cases decode
    exact ⟨not_lt.mp long, field _ 0, field _ 8, field _ 16, field _ 24⟩

/-- The checks in terms of the two sections. -/
theorem checkSections_ok_iff (footer : Footer) (dataEnd : Nat) (size : dataEnd < 2 ^ 63)
    (indexOffset : footer.indexOffset < 2 ^ 64) (indexLength : footer.indexLength < 2 ^ 64)
    (bloomOffset : footer.bloomOffset < 2 ^ 64) (bloomLength : footer.bloomLength < 2 ^ 64) :
    checkSections footer dataEnd = .ok () ↔
      (Within footer.indexOffset footer.indexLength dataEnd ∨
        Wraps footer.indexOffset footer.indexLength dataEnd) ∧
      (0 < footer.bloomLength →
        (Within footer.bloomOffset footer.bloomLength dataEnd ∨
          Wraps footer.bloomOffset footer.bloomLength dataEnd) ∧
        (footer.indexOffset + footer.indexLength) % 2 ^ 64 ≤ footer.bloomOffset) := by
  rw [← section_admitted _ _ _ indexOffset indexLength size,
    ← section_admitted _ _ _ bloomOffset bloomLength size, checkSections]
  split
  next refused => exact ⟨nofun, fun ok => absurd refused (not_or.mpr ok.1)⟩
  next index =>
    rw [not_or] at index
    split
    next present =>
      split
      next refused => exact ⟨nofun, fun ok => absurd refused (not_or.mpr (ok.2 present).1)⟩
      next bloom =>
        rw [not_or] at bloom
        split
        next early => exact ⟨nofun, fun ok => absurd early (not_lt.mpr (ok.2 present).2)⟩
        next late => exact ⟨fun _ => ⟨index, fun _ => ⟨bloom, not_lt.mp late⟩⟩, fun _ => rfl⟩
    next absent => exact ⟨fun _ => ⟨index, fun present => absurd present absent⟩, fun _ => rfl⟩

theorem decodeIndexFrom_ne_panic (fuel : Nat) (data : Bytes) :
    decodeIndexFrom fuel data ≠ .error .panic := by
  induction fuel generalizing data with
  | zero => exact nofun
  | succ fuel ih =>
    intro failed
    rw [decodeIndexFrom] at failed
    split at failed
    · cases failed
    split at failed
    · cases failed
    dsimp only at failed
    split at failed
    · cases failed
    split at failed
    · cases failed
    rcases (Except.bind_eq_error _ _ _).mp failed with later | ⟨rest, -, done⟩
    · exact ih _ later
    · cases done

theorem readAt_ne_panic (file : Bytes) (offset length : Nat) (short : Error) (ne : short ≠ .panic) :
    readAt file offset length short ≠ .error .panic := by
  rw [readAt]
  split
  · rintro ⟨⟩
    exact ne rfl
  · exact nofun

/-- Sections inside the file are small enough for `make`. -/
theorem openReader_ne_panic (fileID : Nat) (id : UInt64) (file : Bytes) (footer : Footer)
    (size : file.length < 2 ^ 63) (read : readFooter file = .ok footer)
    (checked : checkSections footer (file.length - footerSize) = .ok ())
    (inRange : footer.InRange (file.length - footerSize)) :
    openReader fileID id file ≠ .error .panic := by
  have small : ¬maxInt < footer.indexLength := by
    have index := inRange.index
    rw [maxInt]
    omega
  intro failed
  rw [openReader, read, Except.ok_bind, checked, Except.ok_bind, if_neg small] at failed
  rcases (Except.bind_eq_error _ _ _).mp failed with first | ⟨indexData, -, failed⟩
  · exact readAt_ne_panic _ _ _ _ (by decide) first
  rcases (Except.bind_eq_error _ _ _).mp failed with index | ⟨entries, -, failed⟩
  · exact decodeIndexFrom_ne_panic _ _ index
  rcases (Except.bind_eq_error _ _ _).mp failed with filter | ⟨bloom, -, done⟩
  · rw [readBloom] at filter
    split at filter
    next present =>
      have bloom := inRange.bloom present
      rw [if_neg (by rw [maxInt]; omega)] at filter
      rcases (Except.bind_eq_error _ _ _).mp filter with short | ⟨data, -, decoded⟩
      · exact readAt_ne_panic _ _ _ _ (by decide) short
      · split at decoded
        · cases decoded
        · cases decoded
    · cases filter
  · cases done

/-- For every file, whatever 64-bit values its footer holds: the checks let through only
sections inside the data, exactly when the footer does not overflow. -/
theorem sectionsSound_iff (file : Bytes) (footer : Footer) (size : file.length < 2 ^ 63)
    (read : readFooter file = .ok footer) :
    SectionsSound file footer ↔ ¬footer.Overflows (file.length - footerSize) := by
  obtain ⟨long, indexOffset, indexLength, bloomOffset, bloomLength⟩ := readFooter_fits file footer read
  have dataEnd : ((file.length : Int) - (footerSize : Nat)) = ((file.length - footerSize : Nat) : Int) := by
    omega
  have checks := checkSections_ok_iff footer (file.length - footerSize) (by omega) indexOffset
    indexLength bloomOffset bloomLength
  rw [← dataEnd] at checks
  constructor
  · -- a section that wraps passes the checks and is not inside the data
    intro sound overflows
    obtain ⟨inRange, -⟩ := sound (checks.mpr ⟨overflows.index, overflows.bloom⟩)
    rcases overflows.wraps with ⟨-, beyond, -⟩ | ⟨present, -, beyond, -⟩
    · have index := inRange.index
      omega
    · have bloom := inRange.bloom present
      omega
  · intro fine passed
    obtain ⟨index, bloom⟩ := checks.mp passed
    have inRange : footer.InRange (file.length - footerSize) := by
      constructor
      · rcases index with within | wraps
        · exact within
        · exact absurd ⟨.inl wraps, .inr wraps, bloom⟩ fine
      · intro present
        rcases (bloom present).1 with within | wraps
        · exact within
        · exact absurd ⟨.inr ⟨present, wraps⟩, index, bloom⟩ fine
    exact ⟨inRange, fun fileID id => openReader_ne_panic fileID id file footer size read passed inRange⟩

/-- A file with an index of one entry and no filter. -/
theorem sectionsSound_small_index :
    let footer : Footer := ⟨0, 21, 0, 0, currentVersion, magicNumber⟩
    let file := encodeIndex [⟨[97], 0, 0⟩] ++ footer.encode
    file.length = 69 ∧ checkSections footer (file.length - footerSize) = .ok () ∧
      SectionsSound file footer := by
  refine ⟨by decide, by decide, (sectionsSound_iff _ _ (by decide) (by decide +kernel)).mpr ?_⟩
  rintro ⟨wraps | ⟨present, -⟩, -, -⟩
  · exact absurd wraps (by decide)
  · cases present

/-- An index length of 2^63 in a file of 48 bytes: the sum is negative as an int64, and the
allocation of the index panics. -/
theorem not_sectionsSound_long_index :
    let footer : Footer := ⟨0, 2 ^ 63, 0, 0, currentVersion, magicNumber⟩
    readFooter footer.encode = .ok footer ∧
      checkSections footer (footer.encode.length - footerSize) = .ok () ∧
      openReader 1 0 footer.encode = .error .panic ∧ ¬SectionsSound footer.encode footer := by
  intro footer
  have passed : checkSections footer (footer.encode.length - footerSize) = .ok () := by decide
  have panics : openReader 1 0 footer.encode = .error .panic := by decide +kernel
  exact ⟨by decide +kernel, passed, panics, fun sound => (sound passed).2 1 0 panics⟩

end PebbleDB.Sst
