import Mathlib.Data.Finset.Insert
import PebbleDB.Hash
import PebbleDB.Lib.Computation
import PebbleDB.Lib.Framing

/-!
# Manifest records

A record is `recordLen(4) | crc(4) | payload` with `recordLen = len(payload) + 4`;
the payload is a tagged edit of the set of live SSTable ids. Reading a frame gives
back exactly the bytes it was written as, so an accepted prefix of a manifest is a
sequence of encoded payloads.
-/
namespace PebbleDB.Manifest

open Framing

inductive Error where
  | eof
  | unexpectedEOF
  | panic
  | io
  deriving DecidableEq, Repr

def tagNewFile : UInt8 := 0x01
def tagDeleteFile : UInt8 := 0x02
def tagSetFileSet : UInt8 := 0x03

/-! ### Encoding -/

/-- The record length is converted to uint32 before it is written. -/
def encodeRecord (payload : Bytes) : Bytes :=
  putUint32 (payload.length + 4) ++ putUint32 (checksumIEEE payload) ++ payload

/-- The edits the log writes. -/
inductive Edit where
  | newFile (id : UInt64)
  | setFileSet (ids : List UInt64)
  deriving DecidableEq, Repr

def Edit.payload : Edit → Bytes
  | .newFile id => tagNewFile :: putUint64 id.toNat
  | .setFileSet ids => tagSetFileSet :: (putUint32 ids.length ++
      ids.flatMap fun id => putUint64 id.toNat)

def encodeNewFile (id : UInt64) : Bytes := encodeRecord (Edit.newFile id).payload

def encodeSetFileSet (ids : List UInt64) : Bytes := encodeRecord (Edit.setFileSet ids).payload

def Edit.encoded (e : Edit) : Bytes := encodeRecord e.payload

/-- What an edit does to the live set. -/
def Edit.apply (live : Finset UInt64) : Edit → Finset UInt64
  | .newFile id => insert id live
  | .setFileSet ids => ids.toFinset

/-! ### Decoding -/

/-- `decodeRecord`. The total `4 + recordLen` is a uint32 sum: for the four largest
lengths it wraps below the header and slicing `data[8:total]` panics. -/
def decodeRecord (data : Bytes) : Except Error Bytes :=
  if data.length < 8 then .error .unexpectedEOF
  else
    let recordLen := beDecode (data.take 4)
    if recordLen < 4 then .error .unexpectedEOF
    else
      let total := (4 + recordLen) % 2 ^ 32
      if data.length < total then .error .unexpectedEOF
      else if total < 8 then .error .panic
      else
        let checksum := beDecode ((data.drop 4).take 4)
        let payload := (data.take total).drop 8
        if checksumIEEE payload ≠ checksum then .error .unexpectedEOF else .ok payload

/-- The ids of a file-set payload after its count. -/
def readIDs : Nat → Bytes → List UInt64
  | 0, _ => []
  | count + 1, data => UInt64.ofNat (beDecode (data.take 8)) :: readIDs count (data.drop 8)

/-- `applyEdit`. A payload comes out of `decodeRecord`, so it is shorter than 2^32 and
the uint32 offsets of its ids do not wrap. -/
def applyEdit (live : Finset UInt64) (payload : Bytes) : Except Error (Finset UInt64) :=
  match payload with
  | [] => .error .unexpectedEOF
  | tag :: body =>
    if tag = tagNewFile then
      if payload.length < 9 then .error .unexpectedEOF
      else .ok (insert (UInt64.ofNat (beDecode (body.take 8))) live)
    else if tag = tagDeleteFile then
      if payload.length < 9 then .error .unexpectedEOF
      else .ok (live.erase (UInt64.ofNat (beDecode (body.take 8))))
    else if tag = tagSetFileSet then
      if payload.length < 5 then .error .unexpectedEOF
      else
        let count := beDecode (body.take 4)
        if payload.length < 5 + count * 8 then .error .unexpectedEOF
        else .ok (readIDs count (body.drop 4)).toFinset
    else .error .unexpectedEOF

/-- One round of `replay`: the header, the rest of the record, and its decoding. A short
read of the rest is salvaged whether or not any byte of it was there. -/
def readRecord (input : Bytes) : Except Error (Bytes × Nat) :=
  match readFull 4 input with
  | .error .eof => .error .eof
  | .error .unexpectedEOF => .error .unexpectedEOF
  | .ok (header, afterHeader) =>
    if beDecode header < 4 then .error .unexpectedEOF
    else
      match readFull (beDecode header) afterHeader with
      | .error _ => .error .unexpectedEOF
      | .ok (rest, _) => do
        let payload ← decodeRecord (header ++ rest)
        return (payload, (header ++ rest).length)

/-! ### Round trips -/

/-- The payload fits the 32-bit length field, with room for the header. -/
def Fits (payload : Bytes) : Prop := payload.length + 8 < 2 ^ 32

instance (payload : Bytes) : Decidable (Fits payload) := inferInstanceAs (Decidable (_ < _))

@[simp] theorem encodeRecord_length (payload : Bytes) :
    (encodeRecord payload).length = payload.length + 8 := by
  simp [encodeRecord]
  omega

theorem decodeRecord_encodeRecord (payload : Bytes) (fits : Fits payload) :
    decodeRecord (encodeRecord payload) = .ok payload := by
  unfold Fits at fits
  have lenField : beDecode ((encodeRecord payload).take 4) = payload.length + 4 := by
    rw [encodeRecord, List.append_assoc, List.take_left' (putUint32_length _)]
    exact putUint32_mod _ (by omega)
  have crcField : beDecode (((encodeRecord payload).drop 4).take 4) = checksumIEEE payload := by
    rw [encodeRecord, List.append_assoc, List.drop_left' (putUint32_length _),
      List.take_left' (putUint32_length _)]
    exact putUint32_mod _ (checksumIEEE_lt payload)
  have total : (4 + (payload.length + 4)) % 2 ^ 32 = payload.length + 8 := by
    rw [Nat.mod_eq_of_lt (by omega)]
    omega
  have body : ((encodeRecord payload).take (payload.length + 8)).drop 8 = payload := by
    rw [List.take_of_length_le (by simp), encodeRecord]
    exact List.drop_left' (by simp)
  unfold decodeRecord
  simp only [encodeRecord_length, lenField, crcField, total, body]
  rw [if_neg (by omega), if_neg (by omega), if_neg (by omega), if_neg (by omega), if_neg (by simp)]

theorem readRecord_encoded (payload : Bytes) (fits : Fits payload) :
    ∀ rest, readRecord (encodeRecord payload ++ rest) =
      .ok (payload, (encodeRecord payload).length) := by
  intro rest
  have header : readFull 4 (encodeRecord payload ++ rest) =
      .ok (putUint32 (payload.length + 4),
        (putUint32 (checksumIEEE payload) ++ payload) ++ rest) := by
    rw [← readFull_append 4 (putUint32 (payload.length + 4)) _ (putUint32_length _)]
    simp only [encodeRecord, List.append_assoc]
  have small : payload.length + 4 < 2 ^ 32 := by
    unfold Fits at fits
    omega
  have lenField := putUint32_mod (payload.length + 4) small
  have remainder := readFull_append (payload.length + 4)
    (putUint32 (checksumIEEE payload) ++ payload) rest (by simp; omega)
  have bytes : putUint32 (payload.length + 4) ++ (putUint32 (checksumIEEE payload) ++ payload) =
      encodeRecord payload := by
    simp [encodeRecord]
  unfold readRecord
  simp only [header, lenField, remainder]
  rw [if_neg (by omega), bytes, decodeRecord_encodeRecord payload fits]
  rfl

/-- A record that fills its length field is accepted only if it is the encoding of its payload. -/
theorem decodeRecord_ok (header rest payload : Bytes) (headerLen : header.length = 4)
    (restLen : rest.length = beDecode header)
    (accepted : decodeRecord (header ++ rest) = .ok payload) :
    header ++ rest = encodeRecord payload ∧ Fits payload := by
  have lenField : (header ++ rest).take 4 = header := List.take_left' headerLen
  have afterLen : (header ++ rest).drop 4 = rest := List.drop_left' headerLen
  have small := beDecode_lt_uint32 header headerLen
  unfold decodeRecord at accepted
  simp only [lenField, afterLen, List.length_append, headerLen, restLen] at accepted
  split at accepted
  · cases accepted
  split at accepted
  · cases accepted
  next atLeast =>
  split at accepted
  · cases accepted
  split at accepted
  · cases accepted
  next noPanic =>
  -- a total that wraps lies below the header, where the slice would have panicked
  have total : (4 + beDecode header) % 2 ^ 32 = 4 + beDecode header := by omega
  have whole : (header ++ rest).take (4 + beDecode header) = header ++ rest :=
    List.take_of_length_le (by rw [List.length_append, headerLen, restLen])
  have body : (header ++ rest).drop 8 = rest.drop 4 := by
    rw [show (8 : Nat) = 4 + 4 from rfl, ← List.drop_drop, afterLen]
  rw [total, whole, body] at accepted
  split at accepted
  · cases accepted
  next good =>
  cases accepted
  have crcLen : (rest.take 4).length = 4 := by
    rw [List.length_take, restLen]
    omega
  have crcBytes : putUint32 (checksumIEEE (rest.drop 4)) = rest.take 4 := by
    rw [not_not.mp good]
    exact putUint32_beDecode _ crcLen
  have lenBytes : putUint32 ((rest.drop 4).length + 4) = header := by
    rw [List.length_drop, restLen, Nat.sub_add_cancel (Nat.le_of_not_lt atLeast)]
    exact putUint32_beDecode _ headerLen
  constructor
  · rw [encodeRecord, lenBytes, crcBytes, List.append_assoc, List.take_append_drop]
  · unfold Fits
    rw [List.length_drop, restLen]
    omega

/-- A record that is read is, byte for byte, the encoding of its payload. -/
theorem readRecord_ok (input payload : Bytes) (n : Nat)
    (returned : readRecord input = .ok (payload, n)) :
    ∃ rest, input = encodeRecord payload ++ rest ∧ n = (encodeRecord payload).length ∧
      Fits payload := by
  unfold readRecord at returned
  split at returned
  · cases returned
  · cases returned
  next header afterHeader readHeader =>
    obtain ⟨rfl, headerLen⟩ := readFull_ok _ _ _ _ readHeader
    split at returned
    · cases returned
    · split at returned
      · cases returned
      next rest more readRest =>
        obtain ⟨rfl, restLen⟩ := readFull_ok _ _ _ _ readRest
        rw [Except.bind_eq_ok] at returned
        obtain ⟨decoded, accepted, same⟩ := returned
        cases same
        obtain ⟨bytes, fits⟩ := decodeRecord_ok header rest payload headerLen restLen accepted
        exact ⟨more, by rw [← bytes, List.append_assoc], by rw [bytes], fits⟩

theorem readRecord_progress : Progress readRecord := by
  intro input payload n returned
  obtain ⟨rest, rfl, rfl, -⟩ := readRecord_ok input payload n returned
  simp only [List.length_append, encodeRecord_length]
  omega

theorem readRecord_local : Local readRecord := by
  intro input payload n rest returned
  obtain ⟨more, rfl, rfl, fits⟩ := readRecord_ok input payload n returned
  rw [List.take_left]
  exact readRecord_encoded payload fits rest

/-- A record cut anywhere inside is an unexpected end. -/
theorem readRecord_torn (payload : Bytes) (fits : Fits payload) (n : Nat) (some_ : 0 < n)
    (cut : n < (encodeRecord payload).length) :
    readRecord ((encodeRecord payload).take n) = .error .unexpectedEOF := by
  have lenTake : ((encodeRecord payload).take n).length = n := by
    rw [List.length_take]
    omega
  rw [encodeRecord_length] at cut
  by_cases few : n < 4
  · have header : readFull 4 ((encodeRecord payload).take n) = .error .unexpectedEOF := by
      unfold readFull
      rw [if_neg (by omega), if_neg]
      intro empty
      rw [empty] at lenTake
      simp at lenTake
      omega
    simp only [readRecord, header]
  · have bytes : (encodeRecord payload).take n = putUint32 (payload.length + 4) ++
        (putUint32 (checksumIEEE payload) ++ payload).take (n - 4) := by
      rw [encodeRecord, List.append_assoc, List.take_append,
        List.take_of_length_le (by simp; omega), putUint32_length]
    have small : payload.length + 4 < 2 ^ 32 := by
      unfold Fits at fits
      omega
    have lenField := putUint32_mod (payload.length + 4) small
    have short : ((putUint32 (checksumIEEE payload) ++ payload).take (n - 4)).length <
        payload.length + 4 := by
      simp only [List.length_take, List.length_append, putUint32_length]
      omega
    obtain ⟨e, failed⟩ := readFull_short (payload.length + 4) _ short
    rw [bytes]
    unfold readRecord
    simp only [readFull_append 4 (putUint32 (payload.length + 4)) _ (putUint32_length _),
      lenField, failed]
    rw [if_neg (by omega)]

/-! ### Edits -/

theorem ofNat_beDecode_putUint64 (id : UInt64) :
    UInt64.ofNat (beDecode (putUint64 id.toNat)) = id := by
  rw [putUint64_mod _ id.toNat_lt, UInt64.ofNat_toNat]

theorem readIDs_encoded (ids : List UInt64) :
    readIDs ids.length (ids.flatMap fun id => putUint64 id.toNat) = ids := by
  induction ids with
  | nil => rfl
  | cons id ids ih =>
    have first : (putUint64 id.toNat ++ ids.flatMap fun id => putUint64 id.toNat).take 8 =
        putUint64 id.toNat := List.take_left' (putUint64_length _)
    have later : (putUint64 id.toNat ++ ids.flatMap fun id => putUint64 id.toNat).drop 8 =
        ids.flatMap fun id => putUint64 id.toNat := List.drop_left' (putUint64_length _)
    simp only [List.length_cons, List.flatMap_cons, readIDs, first, later, ih,
      ofNat_beDecode_putUint64]

theorem Edit.payload_length (e : Edit) :
    e.payload.length = match e with
      | .newFile _ => 9
      | .setFileSet ids => 5 + ids.length * 8 := by
  cases e with
  | newFile id => simp [Edit.payload]
  | setFileSet ids =>
    simp [Edit.payload]
    omega

/-- The log's own edits do what they say. -/
theorem applyEdit_payload (live : Finset UInt64) (e : Edit) (fits : Fits e.payload) :
    applyEdit live e.payload = .ok (e.apply live) := by
  have len := e.payload_length
  cases e with
  | newFile id =>
    have body : (putUint64 id.toNat).take 8 = putUint64 id.toNat :=
      List.take_of_length_le (by simp)
    simp only [Edit.payload] at len
    simp only [applyEdit, Edit.payload, Edit.apply, len, body, ofNat_beDecode_putUint64]
    rfl
  | setFileSet ids =>
    unfold Fits at fits
    simp only [Edit.payload] at len fits
    have count : beDecode ((putUint32 ids.length ++
        ids.flatMap fun id => putUint64 id.toNat).take 4) = ids.length := by
      rw [List.take_left' (putUint32_length _)]
      exact putUint32_mod _ (by omega)
    have rest : (putUint32 ids.length ++ ids.flatMap fun id => putUint64 id.toNat).drop 4 =
        ids.flatMap fun id => putUint64 id.toNat := List.drop_left' (putUint32_length _)
    simp only [applyEdit, Edit.payload, Edit.apply, len, count, rest, readIDs_encoded]
    rw [if_neg (by decide), if_neg (by decide), if_pos trivial, if_neg (by omega), if_neg (by omega)]

end PebbleDB.Manifest
