import PebbleDB.Sst.Block

/-!
# Index and footer

The index lists, block by block, the last key and where the block lies in the file.
The footer is the last 48 bytes of a table and says where index and filter lie.
-/
namespace PebbleDB.Sst

structure IndexEntry where
  lastKey : Bytes
  offset : Nat
  length : Nat
  deriving DecidableEq, Repr

/-- `keyLen(4) | lastKey | offset(8) | length(8)`. -/
def IndexEntry.encoded (e : IndexEntry) : Bytes :=
  putUint32 e.lastKey.length ++ e.lastKey ++ putUint64 e.offset ++ putUint64 e.length

/-- `IndexBlock.Encode`. -/
def encodeIndex (entries : List IndexEntry) : Bytes := entries.flatMap IndexEntry.encoded

/-- The loop of `decodeIndex` on the bytes not read yet. -/
def decodeIndexFrom : Nat → Bytes → Except Error (List IndexEntry)
  | 0, _ => .ok []
  | fuel + 1, data =>
    if data = [] then .ok []
    else if data.length < 4 then .error .corruptIndex
    else
      let keyLen := beDecode (data.take 4)
      let data := data.drop 4
      if data.length < keyLen then .error .corruptIndex
      else
        let lastKey := data.take keyLen
        let data := data.drop keyLen
        if data.length < 16 then .error .corruptIndex
        else do
          let rest ← decodeIndexFrom fuel (data.drop 16)
          .ok (⟨lastKey, beDecode (data.take 8), beDecode ((data.drop 8).take 8)⟩ :: rest)

def decodeIndex (data : Bytes) : Except Error (List IndexEntry) := decodeIndexFrom data.length data

structure IndexEntry.Fits (e : IndexEntry) : Prop where
  key : e.lastKey.length < 2 ^ 32
  offset : e.offset < 2 ^ 64
  length : e.length < 2 ^ 64

theorem IndexEntry.encoded_length (e : IndexEntry) : e.encoded.length = 20 + e.lastKey.length := by
  simp [IndexEntry.encoded]
  omega

theorem decodeIndexFrom_encoded (entries : List IndexEntry) (fits : ∀ e ∈ entries, e.Fits)
    (fuel : Nat) (enough : (encodeIndex entries).length ≤ fuel) :
    decodeIndexFrom fuel (encodeIndex entries) = .ok entries := by
  induction entries generalizing fuel with
  | nil =>
    cases fuel with
    | zero => rfl
    | succ fuel => rfl
  | cons e entries ih =>
    have bytes : encodeIndex (e :: entries) = putUint32 e.lastKey.length ++ (e.lastKey ++
        (putUint64 e.offset ++ (putUint64 e.length ++ encodeIndex entries))) := by
      simp [encodeIndex, IndexEntry.encoded]
    have size : (encodeIndex (e :: entries)).length =
        20 + e.lastKey.length + (encodeIndex entries).length := by
      rw [encodeIndex, List.flatMap_cons, List.length_append, e.encoded_length]
      rfl
    obtain ⟨key, offset, length⟩ := fits e (by simp)
    cases fuel with
    | zero => omega
    | succ fuel =>
      have later := ih (fun x member => fits x (by simp [member])) fuel (by omega)
      have nonempty : encodeIndex (e :: entries) ≠ [] := by
        rw [← List.length_pos_iff, size]
        omega
      rw [decodeIndexFrom, if_neg nonempty, if_neg (by omega), bytes]
      simp only [List.take_left' (putUint32_length _), List.drop_left' (putUint32_length _),
        putUint32_mod _ key, List.take_left, List.drop_left, List.take_left' (putUint64_length _),
        List.drop_left' (putUint64_length _)]
      have sixteen : (putUint64 e.offset ++ (putUint64 e.length ++ encodeIndex entries)).drop 16 =
          encodeIndex entries := by
        rw [← List.append_assoc, List.drop_left' (by simp)]
      have long : ¬(e.lastKey ++ (putUint64 e.offset ++ (putUint64 e.length ++
          encodeIndex entries))).length < e.lastKey.length := by
        rw [List.length_append]
        omega
      have tail : ¬(putUint64 e.offset ++ (putUint64 e.length ++ encodeIndex entries)).length <
          16 := by
        simp only [List.length_append, putUint64_length]
        omega
      rw [if_neg long, if_neg tail, sixteen, later, Except.ok_bind, putUint64_mod _ offset,
        putUint64_mod _ length]

theorem decodeIndex_encodeIndex (entries : List IndexEntry) (fits : ∀ e ∈ entries, e.Fits) :
    decodeIndex (encodeIndex entries) = .ok entries :=
  decodeIndexFrom_encoded entries fits _ (Nat.le_refl _)

/-! ### Footer -/

def footerSize : Nat := 48
def magicNumber : Nat := 0x88e241b3
def currentVersion : Nat := 2

structure Footer where
  indexOffset : Nat
  indexLength : Nat
  bloomOffset : Nat
  bloomLength : Nat
  version : Nat
  magic : Nat
  deriving DecidableEq, Repr

/-- `Footer.Encode`; the last eight bytes are reserved. -/
def Footer.encode (f : Footer) : Bytes :=
  putUint64 f.indexOffset ++ putUint64 f.indexLength ++ putUint64 f.bloomOffset ++
    putUint64 f.bloomLength ++ putUint32 f.version ++ putUint32 f.magic ++ List.replicate 8 0

def Footer.decode (data : Bytes) : Except Error Footer :=
  if data.length < footerSize then .error .corruptFooter
  else .ok ⟨beDecode (data.take 8), beDecode ((data.drop 8).take 8),
    beDecode ((data.drop 16).take 8), beDecode ((data.drop 24).take 8),
    beDecode ((data.drop 32).take 4), beDecode ((data.drop 36).take 4)⟩

/-- `ReadFooter` on the content of a file; seeking before its start fails. -/
def readFooter (file : Bytes) : Except Error Footer :=
  if file.length < footerSize then .error .seek
  else do
    let footer ← Footer.decode (file.drop (file.length - footerSize))
    if footer.magic ≠ magicNumber then .error .badMagic
    else if footer.version ≠ currentVersion then .error .unsupportedVersion
    else .ok footer

@[simp] theorem Footer.encode_length (f : Footer) : f.encode.length = footerSize := by
  simp [Footer.encode, footerSize]

structure Footer.Fits (f : Footer) : Prop where
  indexOffset : f.indexOffset < 2 ^ 64
  indexLength : f.indexLength < 2 ^ 64
  bloomOffset : f.bloomOffset < 2 ^ 64
  bloomLength : f.bloomLength < 2 ^ 64
  version : f.version < 2 ^ 32
  magic : f.magic < 2 ^ 32

theorem Footer.decode_encode (f : Footer) (fits : f.Fits) : Footer.decode f.encode = .ok f := by
  have bytes : f.encode = putUint64 f.indexOffset ++ (putUint64 f.indexLength ++
      (putUint64 f.bloomOffset ++ (putUint64 f.bloomLength ++ (putUint32 f.version ++
        (putUint32 f.magic ++ List.replicate 8 0))))) := by
    simp [Footer.encode]
  have at8 : f.encode.drop 8 = putUint64 f.indexLength ++ (putUint64 f.bloomOffset ++
      (putUint64 f.bloomLength ++ (putUint32 f.version ++ (putUint32 f.magic ++
        List.replicate 8 0)))) := by
    rw [bytes, List.drop_left' (putUint64_length _)]
  have at16 : f.encode.drop 16 = putUint64 f.bloomOffset ++ (putUint64 f.bloomLength ++
      (putUint32 f.version ++ (putUint32 f.magic ++ List.replicate 8 0))) := by
    rw [show 16 = 8 + 8 from rfl, ← List.drop_drop, at8, List.drop_left' (putUint64_length _)]
  have at24 : f.encode.drop 24 = putUint64 f.bloomLength ++ (putUint32 f.version ++
      (putUint32 f.magic ++ List.replicate 8 0)) := by
    rw [show 24 = 16 + 8 from rfl, ← List.drop_drop, at16, List.drop_left' (putUint64_length _)]
  have at32 : f.encode.drop 32 = putUint32 f.version ++ (putUint32 f.magic ++
      List.replicate 8 0) := by
    rw [show 32 = 24 + 8 from rfl, ← List.drop_drop, at24, List.drop_left' (putUint64_length _)]
  have at36 : f.encode.drop 36 = putUint32 f.magic ++ List.replicate 8 0 := by
    rw [show 36 = 32 + 4 from rfl, ← List.drop_drop, at32, List.drop_left' (putUint32_length _)]
  obtain ⟨indexOffset, indexLength, bloomOffset, bloomLength, version, magic⟩ := fits
  rw [Footer.decode, if_neg (by simp), at8, at16, at24, at32, at36, bytes]
  simp only [List.take_left' (putUint64_length _), List.take_left' (putUint32_length _),
    putUint64_mod _ indexOffset, putUint64_mod _ indexLength, putUint64_mod _ bloomOffset,
    putUint64_mod _ bloomLength, putUint32_mod _ version, putUint32_mod _ magic]

/-- The footer at the end of a file is read back. -/
theorem readFooter_append (body : Bytes) (f : Footer) (fits : f.Fits)
    (magic : f.magic = magicNumber) (version : f.version = currentVersion) :
    readFooter (body ++ f.encode) = .ok f := by
  have tail : (body ++ f.encode).drop ((body ++ f.encode).length - footerSize) = f.encode := by
    rw [List.length_append, f.encode_length, Nat.add_sub_cancel, List.drop_left]
  rw [readFooter, if_neg (by rw [List.length_append, f.encode_length]; omega), tail,
    f.decode_encode fits, Except.ok_bind, if_neg (by simp [magic]), if_neg (by simp [version])]

end PebbleDB.Sst
