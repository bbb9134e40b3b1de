import PebbleDB.Hash
import PebbleDB.Lib.Computation
import PebbleDB.Lib.Framing

/-!
# WAL records

The wire format `keyLen(4) | key | valueLen(4) | value | tombstone(1) | crc(4)`,
the limits it is checked against, and the field-by-field reader. A reader that
runs out of bytes inside a record and one that meets a wrong checksum report the
same `io.ErrUnexpectedEOF`.
-/
namespace PebbleDB.Wal

open Framing

structure Record where
  key : Bytes
  value : Bytes
  tombstone : Bool
  deriving DecidableEq, Repr

inductive Error where
  | walTooLarge
  | keyTooLarge
  | valueTooLarge
  | recordTooLarge
  | eof
  | unexpectedEOF
  | io
  deriving DecidableEq, Repr

/-! ### Limits -/

structure ReplayLimits where
  maxFileSize : Int
  maxKeySize : UInt32
  maxValueSize : UInt32
  maxRecordSize : UInt32
  deriving DecidableEq, Repr

def defaultReplayLimits : ReplayLimits where
  maxFileSize := 64 * 2 ^ 20
  maxKeySize := 0x100000
  maxValueSize := 0x1000000
  maxRecordSize := 0x1100000

/-- Zero fields take the package defaults. -/
def ReplayLimits.withDefaults (l : ReplayLimits) : ReplayLimits where
  maxFileSize := if l.maxFileSize ≤ 0 then defaultReplayLimits.maxFileSize else l.maxFileSize
  maxKeySize := if l.maxKeySize = 0 then defaultReplayLimits.maxKeySize else l.maxKeySize
  maxValueSize := if l.maxValueSize = 0 then defaultReplayLimits.maxValueSize else l.maxValueSize
  maxRecordSize := if l.maxRecordSize = 0 then defaultReplayLimits.maxRecordSize
    else l.maxRecordSize

def recordHeaderSize : Nat := 4 + 4 + 1 + 4

/-- The lengths are uint32 values here; their sum is formed in 64 bits. -/
def ReplayLimits.validateRecord (l : ReplayLimits) (keyLen valueLen : Nat) : Except Error Unit :=
  if l.maxKeySize.toNat < keyLen then .error .keyTooLarge
  else if l.maxValueSize.toNat < valueLen then .error .valueTooLarge
  else if l.maxRecordSize.toNat < recordHeaderSize + keyLen + valueLen then .error .recordTooLarge
  else .ok ()

theorem validateRecord_ok_iff (l : ReplayLimits) (keyLen valueLen : Nat) :
    l.validateRecord keyLen valueLen = .ok () ↔
      keyLen ≤ l.maxKeySize.toNat ∧ valueLen ≤ l.maxValueSize.toNat ∧
        recordHeaderSize + keyLen + valueLen ≤ l.maxRecordSize.toNat := by
  unfold ReplayLimits.validateRecord
  split
  · simp only [reduceCtorEq, false_iff]; omega
  · split
    · simp only [reduceCtorEq, false_iff]; omega
    · split
      · simp only [reduceCtorEq, false_iff]; omega
      · simp only [true_iff]; omega

/-! ### Encoding -/

/-- Everything the checksum covers. Both lengths are truncated to 32 bits. -/
def recordBody (key value : Bytes) (tombByte : UInt8) : Bytes :=
  putUint32 key.length ++ key ++ putUint32 value.length ++ value ++ [tombByte]

def Record.tombByte (rec : Record) : UInt8 := if rec.tombstone then 1 else 0

/-- The bytes `encodeRecord` produces once the limits have passed. -/
def Record.encoded (rec : Record) : Bytes :=
  let buf := recordBody rec.key rec.value rec.tombByte
  buf ++ putUint32 (checksumIEEE buf)

def encodeRecord (rec : Record) (limits : ReplayLimits) : Except Error Bytes := do
  limits.validateRecord (rec.key.length % 2 ^ 32) (rec.value.length % 2 ^ 32)
  return rec.encoded

/-- A record whose lengths fit their fields and pass the limits. -/
structure Encodable (limits : ReplayLimits) (rec : Record) : Prop where
  keyFits : rec.key.length < 2 ^ 32
  valueFits : rec.value.length < 2 ^ 32
  valid : limits.validateRecord rec.key.length rec.value.length = .ok ()

instance (limits : ReplayLimits) (rec : Record) : Decidable (Encodable limits rec) :=
  decidable_of_iff (rec.key.length < 2 ^ 32 ∧ rec.value.length < 2 ^ 32 ∧
      limits.validateRecord rec.key.length rec.value.length = .ok ())
    ⟨fun ⟨keyFits, valueFits, valid⟩ => ⟨keyFits, valueFits, valid⟩,
      fun ⟨keyFits, valueFits, valid⟩ => ⟨keyFits, valueFits, valid⟩⟩

theorem recordBody_length (key value : Bytes) (tombByte : UInt8) :
    (recordBody key value tombByte).length = 9 + key.length + value.length := by
  simp [recordBody]
  omega

theorem Record.encoded_length (rec : Record) :
    rec.encoded.length = recordHeaderSize + rec.key.length + rec.value.length := by
  simp [Record.encoded, recordBody_length, recordHeaderSize]
  omega

theorem encodeRecord_ok (rec : Record) (limits : ReplayLimits) (buf : Bytes)
    (returned : encodeRecord rec limits = .ok buf) : buf = rec.encoded := by
  unfold encodeRecord at returned
  rw [Except.bind_eq_ok] at returned
  obtain ⟨_, _, same⟩ := returned
  exact (Except.ok.inj same).symm

theorem Encodable.of_encodeRecord (limits : ReplayLimits) (rec : Record) (buf : Bytes)
    (returned : encodeRecord rec limits = .ok buf)
    (keyFits : rec.key.length < 2 ^ 32) (valueFits : rec.value.length < 2 ^ 32) :
    Encodable limits rec := by
  refine ⟨keyFits, valueFits, ?_⟩
  unfold encodeRecord at returned
  rw [Nat.mod_eq_of_lt keyFits, Nat.mod_eq_of_lt valueFits, Except.bind_eq_ok] at returned
  obtain ⟨_, passed, _⟩ := returned
  exact passed

theorem Encodable.encodeRecord (limits : ReplayLimits) (rec : Record)
    (encodable : Encodable limits rec) : encodeRecord rec limits = .ok rec.encoded := by
  unfold Wal.encodeRecord
  rw [Nat.mod_eq_of_lt encodable.keyFits, Nat.mod_eq_of_lt encodable.valueFits, encodable.valid]
  rfl

/-! ### Reading -/

def ofShortRead : ShortRead → Error
  | .eof => .eof
  | .unexpectedEOF => .unexpectedEOF

/-- Inside a record both kinds of short read are an unexpected end. -/
def mapRecordEOF : Error → Error
  | .eof => .unexpectedEOF
  | e => e

/-- A read inside a record. -/
def readField (n : Nat) (input : Bytes) : Except Error (Bytes × Bytes) :=
  (readFull n input).mapError (fun e => mapRecordEOF (ofShortRead e))

/-- `readOneRecord` on the input from the current file offset: the record and the
number of bytes it used. Only the first field reports a clean end of file. -/
def readOneRecord (limits : ReplayLimits) (input : Bytes) : Except Error (Record × Nat) := do
  let (keyLenBytes, afterKeyLen) ← (readFull 4 input).mapError ofShortRead
  let keyLen := beDecode keyLenBytes
  if limits.maxKeySize.toNat < keyLen then .error .keyTooLarge else do
  let (key, afterKey) ← readField keyLen afterKeyLen
  let (valueLenBytes, afterValueLen) ← readField 4 afterKey
  let valueLen := beDecode valueLenBytes
  if limits.maxValueSize.toNat < valueLen then .error .valueTooLarge else do
  limits.validateRecord keyLen valueLen
  let (value, afterValue) ← readField valueLen afterValueLen
  let (tombByte, afterTomb) ← readField 1 afterValue
  let (checksumBytes, rest) ← readField 4 afterTomb
  let buf := keyLenBytes ++ key ++ valueLenBytes ++ value ++ tombByte
  if checksumIEEE buf ≠ beDecode checksumBytes then .error .unexpectedEOF else
  .ok (⟨key, value, tombByte = [1]⟩, input.length - rest.length)

theorem readField_append (n : Nat) (a rest : Bytes) (len : a.length = n) :
    readField n (a ++ rest) = .ok (a, rest) := by
  simp [readField, readFull_append n a rest len]

theorem readField_ok (n : Nat) (input a rest : Bytes)
    (returned : readField n input = .ok (a, rest)) : input = a ++ rest ∧ a.length = n := by
  unfold readField at returned
  rw [Except.mapError_eq_ok] at returned
  exact readFull_ok n input a rest returned

theorem readField_error (n : Nat) (input : Bytes) (e : Error)
    (stopped : readField n input = .error e) : e = .unexpectedEOF ∧ input.length < n := by
  unfold readField at stopped
  rw [Except.mapError_eq_error] at stopped
  obtain ⟨short, failed, rfl⟩ := stopped
  refine ⟨by cases short <;> rfl, ?_⟩
  by_contra enough
  simp [readFull, Nat.le_of_not_lt enough] at failed

/-- A complete frame within the limits is decided by its checksum alone. -/
theorem readOneRecord_frame (limits : ReplayLimits) (key value crc rest : Bytes) (tomb : UInt8)
    (keyFits : key.length < 2 ^ 32) (valueFits : value.length < 2 ^ 32)
    (valid : limits.validateRecord key.length value.length = .ok ()) (crcLen : crc.length = 4) :
    readOneRecord limits (recordBody key value tomb ++ crc ++ rest) =
      if checksumIEEE (recordBody key value tomb) = beDecode crc then
        .ok (⟨key, value, tomb = 1⟩, recordHeaderSize + key.length + value.length)
      else .error .unexpectedEOF := by
  have bounds := (validateRecord_ok_iff limits key.length value.length).mp valid
  have keyLen := putUint32_mod key.length keyFits
  have valueLen := putUint32_mod value.length valueFits
  have used : (recordBody key value tomb ++ crc ++ rest).length - rest.length =
      recordHeaderSize + key.length + value.length := by
    simp only [List.length_append, recordBody_length, crcLen, recordHeaderSize]
    omega
  have head : readFull 4 (recordBody key value tomb ++ crc ++ rest) =
      .ok (putUint32 key.length, key ++ (putUint32 value.length ++ (value ++ ([tomb] ++
        (crc ++ rest))))) := by
    rw [← readFull_append 4 (putUint32 key.length) _ (putUint32_length _)]
    simp only [recordBody, List.append_assoc]
  have body : putUint32 key.length ++ key ++ putUint32 value.length ++ value ++ [tomb] =
      recordBody key value tomb := rfl
  unfold readOneRecord
  rw [head]
  simp only [Except.mapError_ok, Except.ok_bind, keyLen, readField_append _ key _ rfl,
    if_neg (Nat.not_lt.mpr bounds.1), readField_append 4 (putUint32 value.length) _
    (putUint32_length _), valueLen, if_neg (Nat.not_lt.mpr bounds.2.1), valid,
    readField_append _ value _ rfl, readField_append 1 [tomb] _ rfl,
    readField_append 4 crc _ crcLen, List.cons.injEq, and_true, body, used]
  by_cases good : checksumIEEE (recordBody key value tomb) = beDecode crc
  · rw [if_pos good, if_neg (not_not.mpr good)]
  · rw [if_neg good, if_pos good]

/-- Encoding then reading gives the record back, whatever follows it in the file. -/
theorem Encodable.reads (limits : ReplayLimits) (rec : Record)
    (encodable : Encodable limits rec) : Reads (readOneRecord limits) Record.encoded rec := by
  intro rest
  have frame := readOneRecord_frame limits rec.key rec.value
    (putUint32 (checksumIEEE (recordBody rec.key rec.value rec.tombByte))) rest rec.tombByte
    encodable.keyFits encodable.valueFits encodable.valid (putUint32_length _)
  have stored := putUint32_mod _ (checksumIEEE_lt (recordBody rec.key rec.value rec.tombByte))
  have flag : decide (rec.tombByte = 1) = rec.tombstone := by
    unfold Record.tombByte
    cases rec.tombstone <;> rfl
  rw [if_pos stored.symm, flag] at frame
  rw [rec.encoded_length]
  exact frame

/-! ### What a read can report -/

/-- The length of the record that begins here, once both length fields are present. -/
def announced (input : Bytes) : Option Nat :=
  let keyLen := beDecode (input.take 4)
  if input.length < 4 + keyLen + 4 then none
  else some (recordHeaderSize + keyLen + beDecode ((input.drop (4 + keyLen)).take 4))

/-- The input ends inside the record that begins it. -/
def Incomplete (input : Bytes) : Prop :=
  input ≠ [] ∧ ∀ n, announced input = some n → input.length < n

private theorem announced_fields (keyLenBytes key valueLenBytes rest : Bytes)
    (keyField : keyLenBytes.length = 4) (keyLen : key.length = beDecode keyLenBytes)
    (valueField : valueLenBytes.length = 4) :
    announced (keyLenBytes ++ (key ++ (valueLenBytes ++ rest))) =
      some (recordHeaderSize + key.length + beDecode valueLenBytes) := by
  have head : (keyLenBytes ++ (key ++ (valueLenBytes ++ rest))).take 4 = keyLenBytes :=
    List.take_left' keyField
  have skip : (keyLenBytes ++ (key ++ (valueLenBytes ++ rest))).drop (4 + key.length) =
      valueLenBytes ++ rest := by
    rw [← List.append_assoc]
    exact List.drop_left' (by rw [List.length_append, keyField])
  unfold announced
  simp only [head, ← keyLen, skip, List.take_left' valueField]
  rw [if_neg (by simp only [List.length_append, keyField, valueField]; omega)]

private theorem announced_short (keyLenBytes rest : Bytes) (keyField : keyLenBytes.length = 4)
    (short : rest.length < beDecode keyLenBytes + 4) :
    announced (keyLenBytes ++ rest) = none := by
  have head : (keyLenBytes ++ rest).take 4 = keyLenBytes := List.take_left' keyField
  unfold announced
  simp only [head]
  rw [if_pos (by rw [List.length_append, keyField]; omega)]

private theorem incomplete_of_none (input : Bytes) (nonempty : input ≠ [])
    (unknown : announced input = none) : Incomplete input :=
  ⟨nonempty, fun n known => by rw [unknown] at known; cases known⟩

private theorem append_ne_nil_of_length (a b : Bytes) (len : a.length = 4) : a ++ b ≠ [] := by
  intro empty
  have zero := congrArg List.length empty
  rw [List.length_append, len] at zero
  simp at zero

/-- Where not even the first length field can be read. -/
private theorem readLength_error (input : Bytes) (kind : ShortRead)
    (failed : readFull 4 input = .error kind) :
    (input = [] ∧ kind = .eof) ∨ (Incomplete input ∧ kind = .unexpectedEOF) := by
  rw [readFull] at failed
  split at failed
  · cases failed
  next few =>
    split at failed
    next empty =>
      cases failed
      exact .inl ⟨empty, rfl⟩
    next nonempty =>
      cases failed
      refine .inr ⟨incomplete_of_none input nonempty ?_, rfl⟩
      unfold announced
      dsimp only
      rw [if_pos (by omega)]

/-- Once both length fields are known, a short read is short of the announced total. -/
private theorem incomplete_of_fields (keyLenBytes key valueLenBytes rest : Bytes)
    (keyField : keyLenBytes.length = 4) (keyLen : key.length = beDecode keyLenBytes)
    (valueField : valueLenBytes.length = 4) (few : rest.length < beDecode valueLenBytes + 1 + 4) :
    Incomplete (keyLenBytes ++ (key ++ (valueLenBytes ++ rest))) := by
  refine ⟨append_ne_nil_of_length _ _ keyField, fun n known => ?_⟩
  rw [announced_fields keyLenBytes key valueLenBytes rest keyField keyLen valueField] at known
  cases known
  simp only [List.length_append, keyField, valueField, recordHeaderSize]
  omega

/-- The bytes of a complete record within the limits, followed by anything. -/
structure Framed (limits : ReplayLimits) (input key value crc rest : Bytes) (tomb : UInt8) :
    Prop where
  bytes : input = recordBody key value tomb ++ crc ++ rest
  crcLen : crc.length = 4
  keyFits : key.length < 2 ^ 32
  valueFits : value.length < 2 ^ 32
  valid : limits.validateRecord key.length value.length = .ok ()

def LimitError (e : Error) : Prop := e = .keyTooLarge ∨ e = .valueTooLarge ∨ e = .recordTooLarge

theorem validateRecord_error (limits : ReplayLimits) (keyLen valueLen : Nat) (e : Error)
    (failed : limits.validateRecord keyLen valueLen = .error e) : LimitError e := by
  unfold ReplayLimits.validateRecord at failed
  split at failed
  · cases failed; exact .inl rfl
  · split at failed
    · cases failed; exact .inr (.inl rfl)
    · split at failed
      · cases failed; exact .inr (.inr rfl)
      · cases failed

/-- The fields of a record in the order they are read. -/
private theorem framed_of_fields (limits : ReplayLimits)
    (keyLenBytes key valueLenBytes value tombByte crc rest : Bytes)
    (keyField : keyLenBytes.length = 4) (keyLen : key.length = beDecode keyLenBytes)
    (valueField : valueLenBytes.length = 4) (valueLen : value.length = beDecode valueLenBytes)
    (tombLen : tombByte.length = 1) (crcLen : crc.length = 4)
    (valid : limits.validateRecord (beDecode keyLenBytes) (beDecode valueLenBytes) = .ok ()) :
    ∃ tomb, Framed limits
      (keyLenBytes ++ (key ++ (valueLenBytes ++ (value ++ (tombByte ++ (crc ++ rest))))))
      key value crc rest tomb := by
  obtain ⟨tomb, rfl⟩ := List.length_eq_one_iff.mp tombLen
  have keyBytes : putUint32 key.length = keyLenBytes := by
    rw [keyLen]
    exact putUint32_beDecode _ keyField
  have valueBytes : putUint32 value.length = valueLenBytes := by
    rw [valueLen]
    exact putUint32_beDecode _ valueField
  refine ⟨tomb, ?_, crcLen, ?_, ?_, ?_⟩
  · rw [recordBody, keyBytes, valueBytes]
    simp only [List.append_assoc]
  · rw [keyLen]
    exact beDecode_lt_uint32 _ keyField
  · rw [valueLen]
    exact beDecode_lt_uint32 _ valueField
  · rw [keyLen, valueLen]
    exact valid

/-- Everything a read can meet: the end of the file, the end of the file inside a
record, a length beyond the limits, or a complete record. -/
theorem readOneRecord_cases (limits : ReplayLimits) (input : Bytes) :
    (input = [] ∧ readOneRecord limits input = .error .eof) ∨
    (Incomplete input ∧ readOneRecord limits input = .error .unexpectedEOF) ∨
    (∃ e, LimitError e ∧ readOneRecord limits input = .error e) ∨
    ∃ key value crc rest tomb, Framed limits input key value crc rest tomb := by
  generalize result : readOneRecord limits input = r
  unfold readOneRecord at result
  cases readLen : readFull 4 input with
  | error kind =>
    rw [readLen] at result
    subst result
    rcases readLength_error input kind readLen with ⟨empty, rfl⟩ | ⟨torn, rfl⟩
    · exact .inl ⟨empty, rfl⟩
    · exact .inr (.inl ⟨torn, rfl⟩)
  | ok field =>
  obtain ⟨keyLenBytes, afterKeyLen⟩ := field
  obtain ⟨rfl, keyField⟩ := readFull_ok _ _ _ _ readLen
  simp only [readLen, Except.mapError_ok, Except.ok_bind] at result
  split at result
  · exact .inr (.inr (.inl ⟨_, .inl rfl, result.symm⟩))
  cases readKey : readField (beDecode keyLenBytes) afterKeyLen with
  | error e =>
    obtain ⟨rfl, few⟩ := readField_error _ _ _ readKey
    rw [readKey] at result
    exact .inr (.inl ⟨incomplete_of_none _ (append_ne_nil_of_length _ _ keyField)
      (announced_short _ _ keyField (by omega)), result.symm⟩)
  | ok field =>
  obtain ⟨key, afterKey⟩ := field
  obtain ⟨rfl, keyLen⟩ := readField_ok _ _ _ _ readKey
  simp only [readKey, Except.ok_bind] at result
  cases readValueLen : readField 4 afterKey with
  | error e =>
    obtain ⟨rfl, few⟩ := readField_error _ _ _ readValueLen
    rw [readValueLen] at result
    exact .inr (.inl ⟨incomplete_of_none _ (append_ne_nil_of_length _ _ keyField)
      (announced_short _ _ keyField (by rw [List.length_append]; omega)), result.symm⟩)
  | ok field =>
  obtain ⟨valueLenBytes, afterValueLen⟩ := field
  obtain ⟨rfl, valueField⟩ := readField_ok _ _ _ _ readValueLen
  simp only [readValueLen, Except.ok_bind] at result
  split at result
  · exact .inr (.inr (.inl ⟨_, .inr (.inl rfl), result.symm⟩))
  have incomplete := incomplete_of_fields keyLenBytes key valueLenBytes afterValueLen keyField keyLen
    valueField
  cases valid : limits.validateRecord (beDecode keyLenBytes) (beDecode valueLenBytes) with
  | error e =>
    rw [valid] at result
    exact .inr (.inr (.inl ⟨e, validateRecord_error _ _ _ _ valid, result.symm⟩))
  | ok _ =>
  simp only [valid, Except.ok_bind] at result
  cases readValue : readField (beDecode valueLenBytes) afterValueLen with
  | error e =>
    obtain ⟨rfl, few⟩ := readField_error _ _ _ readValue
    rw [readValue] at result
    exact .inr (.inl ⟨incomplete (by omega), result.symm⟩)
  | ok field =>
  obtain ⟨value, afterValue⟩ := field
  obtain ⟨rfl, valueLen⟩ := readField_ok _ _ _ _ readValue
  simp only [readValue, Except.ok_bind] at result
  cases readTomb : readField 1 afterValue with
  | error e =>
    obtain ⟨rfl, few⟩ := readField_error _ _ _ readTomb
    rw [readTomb] at result
    exact .inr (.inl ⟨incomplete (by rw [List.length_append]; omega), result.symm⟩)
  | ok field =>
  obtain ⟨tombByte, afterTomb⟩ := field
  obtain ⟨rfl, tombLen⟩ := readField_ok _ _ _ _ readTomb
  simp only [readTomb, Except.ok_bind] at result
  cases readCrc : readField 4 afterTomb with
  | error e =>
    obtain ⟨rfl, few⟩ := readField_error _ _ _ readCrc
    rw [readCrc] at result
    exact .inr (.inl ⟨incomplete (by simp only [List.length_append]; omega), result.symm⟩)
  | ok field =>
  -- every field was there; whether the checksum matches is left open
  obtain ⟨crc, rest⟩ := field
  obtain ⟨rfl, crcLen⟩ := readField_ok _ _ _ _ readCrc
  obtain ⟨tomb, framed⟩ := framed_of_fields limits keyLenBytes key valueLenBytes value tombByte crc
    rest keyField keyLen valueField valueLen tombLen crcLen valid
  exact .inr (.inr (.inr ⟨key, value, crc, rest, tomb, framed⟩))

theorem Framed.read (limits : ReplayLimits) (input key value crc rest : Bytes) (tomb : UInt8)
    (framed : Framed limits input key value crc rest tomb) :
    readOneRecord limits input =
      if checksumIEEE (recordBody key value tomb) = beDecode crc then
        .ok (⟨key, value, tomb = 1⟩, recordHeaderSize + key.length + value.length)
      else .error .unexpectedEOF := by
  rw [framed.bytes]
  exact readOneRecord_frame limits key value crc rest tomb framed.keyFits framed.valueFits
    framed.valid framed.crcLen

/-- A complete record within the limits whose checksum does not match. -/
def BadChecksum (limits : ReplayLimits) (frame : Bytes) : Prop :=
  ∃ key value crc tomb, Framed limits frame key value crc [] tomb ∧
    checksumIEEE (recordBody key value tomb) ≠ beDecode crc

/-- An unexpected end means one of two things, and the reader cannot tell which. -/
theorem readOneRecord_unexpectedEOF (limits : ReplayLimits) (input : Bytes)
    (stopped : readOneRecord limits input = .error .unexpectedEOF) :
    Incomplete input ∨ ∃ frame rest, input = frame ++ rest ∧ BadChecksum limits frame := by
  rcases readOneRecord_cases limits input with
    ⟨-, clean⟩ | ⟨torn, -⟩ | ⟨e, limit, refused⟩ | ⟨key, value, crc, rest, tomb, framed⟩
  · rw [clean] at stopped
    cases stopped
  · exact .inl torn
  · rw [refused] at stopped
    cases stopped
    rcases limit with h | h | h <;> cases h
  · right
    rw [framed.read] at stopped
    split at stopped
    · cases stopped
    next mismatch =>
      refine ⟨recordBody key value tomb ++ crc, rest, framed.bytes, key, value, crc, tomb, ?_,
        mismatch⟩
      exact ⟨by simp, framed.crcLen, framed.keyFits, framed.valueFits, framed.valid⟩

theorem readOneRecord_ok (limits : ReplayLimits) (input : Bytes) (rec : Record) (n : Nat)
    (returned : readOneRecord limits input = .ok (rec, n)) :
    ∃ crc rest tomb, Framed limits input rec.key rec.value crc rest tomb ∧
      rec.tombstone = decide (tomb = 1) ∧
      n = recordHeaderSize + rec.key.length + rec.value.length ∧
      checksumIEEE (recordBody rec.key rec.value tomb) = beDecode crc := by
  rcases readOneRecord_cases limits input with
    ⟨-, clean⟩ | ⟨-, torn⟩ | ⟨e, -, refused⟩ | ⟨key, value, crc, rest, tomb, framed⟩
  · rw [clean] at returned; cases returned
  · rw [torn] at returned; cases returned
  · rw [refused] at returned; cases returned
  · rw [framed.read] at returned
    split at returned
    next match_ =>
      cases returned
      exact ⟨crc, rest, tomb, framed, rfl, rfl, match_⟩
    · cases returned

theorem readOneRecord_badChecksum (limits : ReplayLimits) (frame rest : Bytes)
    (bad : BadChecksum limits frame) :
    readOneRecord limits (frame ++ rest) = .error .unexpectedEOF := by
  obtain ⟨key, value, crc, tomb, framed, mismatch⟩ := bad
  have bytes := framed.bytes
  rw [List.append_nil] at bytes
  rw [bytes, readOneRecord_frame limits key value crc rest tomb framed.keyFits framed.valueFits
    framed.valid framed.crcLen, if_neg mismatch]

/-- A frame with a wrong checksum is complete, so it is not a torn tail. -/
theorem BadChecksum.not_incomplete (limits : ReplayLimits) (frame rest : Bytes)
    (bad : BadChecksum limits frame) : ¬Incomplete (frame ++ rest) := by
  obtain ⟨key, value, crc, tomb, framed, -⟩ := bad
  have bytes := framed.bytes
  rw [List.append_nil] at bytes
  subst bytes
  intro incomplete
  have fields := announced_fields (putUint32 key.length) key (putUint32 value.length)
    (value ++ ([tomb] ++ (crc ++ rest))) (putUint32_length _)
    (putUint32_mod _ framed.keyFits).symm (putUint32_length _)
  rw [putUint32_mod _ framed.valueFits] at fields
  have short := incomplete.2 (recordHeaderSize + key.length + value.length)
    (by simpa only [recordBody, List.append_assoc] using fields)
  simp only [List.length_append, recordBody_length, framed.crcLen, recordHeaderSize] at short
  omega

theorem readOneRecord_progress (limits : ReplayLimits) : Progress (readOneRecord limits) := by
  intro input rec n returned
  obtain ⟨crc, rest, tomb, framed, -, used, -⟩ := readOneRecord_ok limits input rec n returned
  have len := congrArg List.length framed.bytes
  simp only [List.length_append, recordBody_length, framed.crcLen] at len
  simp only [used, recordHeaderSize]
  omega

end PebbleDB.Wal
