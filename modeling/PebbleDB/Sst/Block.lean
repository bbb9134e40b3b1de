import PebbleDB.Bytes
import PebbleDB.Lib.Computation

/-!
# Data blocks

A block is the concatenation of its encoded entries. The iterator reads one entry
after another and keeps the last key and value it saw; `Key` and `Value` hand out
copies, so an empty key or value comes out as nil.
-/
namespace PebbleDB

/-- `keyLen(4) | key | valueLen(4) | value | tombstone(1)`. -/
def Entry.encoded (e : Entry) : Bytes :=
  putUint32 e.key.length ++ e.key ++ putUint32 e.value.length ++ e.value ++
    [if e.tombstone then 1 else 0]

/-- Both lengths fit their 32-bit fields. -/
structure Entry.Fits (e : Entry) : Prop where
  key : e.key.length < 2 ^ 32
  value : e.value.length < 2 ^ 32

instance (e : Entry) : Decidable e.Fits :=
  decidable_of_iff (e.key.length < 2 ^ 32 ∧ e.value.length < 2 ^ 32)
    ⟨fun ⟨key, value⟩ => ⟨key, value⟩, fun ⟨key, value⟩ => ⟨key, value⟩⟩

theorem Entry.encoded_length (e : Entry) :
    e.encoded.length = 9 + e.key.length + e.value.length := by
  simp [Entry.encoded]
  omega

namespace Sst

/-- The errors of the table format and of the file operations below it. -/
inductive Error where
  | keyOutOfOrder
  | keyTooLarge
  | invalidBlockSize
  | corruptIndex
  | corruptBloom
  | corruptFooter
  | badMagic
  | unsupportedVersion
  | closed
  | eof
  | unexpectedEOF
  | seek
  | panic
  | fileTooLarge
  | priorityMismatch
  deriving DecidableEq, Repr

/-- `Block.Append`. -/
def appendEntry (block : Bytes) (e : Entry) : Except Error Bytes :=
  if 2 ^ 32 ≤ e.key.length ∨ 2 ^ 32 ≤ e.value.length then .error .keyTooLarge
  else .ok (block ++ e.encoded)

/-- The bytes of a block with the given entries. -/
def blockBytes (es : List Entry) : Bytes := es.flatMap Entry.encoded

structure BlockIterator where
  data : Bytes
  pos : Nat
  key : Slice
  val : Slice
  tombstone : Bool
  deriving DecidableEq, Repr

namespace BlockIterator

def new (data : Bytes) : BlockIterator := ⟨data, 0, none, none, false⟩

/-- `Next`. A length that does not fit leaves the iterator where it stopped reading. -/
def next (it : BlockIterator) : BlockIterator × Bool :=
  if it.data.length < it.pos + 4 then (it, false)
  else
    let keyLen := beDecode ((it.data.drop it.pos).take 4)
    let it := { it with pos := it.pos + 4 }
    if it.data.length < it.pos + keyLen then (it, false)
    else
      let it := { it with
        key := some ((it.data.drop it.pos).take keyLen)
        pos := it.pos + keyLen }
      -- the key stays set when the value is cut off
      if it.data.length < it.pos + 4 then (it, false)
      else
        let valLen := beDecode ((it.data.drop it.pos).take 4)
        let it := { it with pos := it.pos + 4 }
        if it.data.length < it.pos + valLen then (it, false)
        else
          let it := { it with
            val := some ((it.data.drop it.pos).take valLen)
            pos := it.pos + valLen }
          match it.data.drop it.pos with
          | [] => (it, false)
          | tombByte :: _ => ({ it with pos := it.pos + 1, tombstone := tombByte == 1 }, true)

/-- `Key`, a copy. -/
def getKey (it : BlockIterator) : Slice := it.key.bind cloneBytes

/-- `Value`, a copy. -/
def getValue (it : BlockIterator) : Slice := it.val.bind cloneBytes

/-- The entries still to be read. -/
def Remaining (it : BlockIterator) (es : List Entry) : Prop :=
  it.data.drop it.pos = blockBytes es

theorem new_remaining (es : List Entry) : (new (blockBytes es)).Remaining es := List.drop_zero

end BlockIterator

theorem blockBytes_append (es fs : List Entry) :
    blockBytes (es ++ fs) = blockBytes es ++ blockBytes fs := by
  simp [blockBytes]

theorem blockBytes_cons (e : Entry) (es : List Entry) :
    blockBytes (e :: es) = e.encoded ++ blockBytes es := by
  simp [blockBytes]

theorem blockBytes_ne_nil (es : List Entry) (nonempty : es ≠ []) : blockBytes es ≠ [] := by
  cases es with
  | nil => exact absurd rfl nonempty
  | cons e es =>
    intro empty
    have len := congrArg List.length empty
    rw [blockBytes_cons, List.length_append, e.encoded_length, List.length_nil] at len
    omega

theorem appendEntry_ok (block : Bytes) (e : Entry) (fits : e.Fits) :
    appendEntry block e = .ok (block ++ e.encoded) := by
  have key := fits.key
  have value := fits.value
  rw [appendEntry, if_neg (by omega)]

/-- A field in front of more bytes is read in full, and reading goes on behind it. -/
theorem drop_field (data field rest : Bytes) (p : Nat) (here : data.drop p = field ++ rest)
    (more : rest ≠ []) :
    p + field.length < data.length ∧ (data.drop p).take field.length = field ∧
      data.drop (p + field.length) = rest := by
  refine ⟨?_, ?_, ?_⟩
  · have len := congrArg List.length here
    have some_ := List.length_pos_iff.mpr more
    rw [List.length_drop, List.length_append] at len
    omega
  · rw [here, List.take_left]
  · rw [← List.drop_drop, here, List.drop_left]

namespace BlockIterator

/-- One step over an encoded entry. -/
theorem next_entry (it : BlockIterator) (e : Entry) (es : List Entry) (fits : e.Fits)
    (rest : it.Remaining (e :: es)) :
    it.next = ({ it with
      pos := it.pos + e.encoded.length
      key := some e.key
      val := some e.value
      tombstone := e.tombstone }, true) := by
  have bytes : it.data.drop it.pos = putUint32 e.key.length ++ (e.key ++
      (putUint32 e.value.length ++ (e.value ++
        ((if e.tombstone then 1 else 0) :: blockBytes es)))) := by
    rw [rest, blockBytes_cons, Entry.encoded]
    simp
  -- the four fields in front of the tombstone byte
  obtain ⟨in1, keyLen, at1⟩ := drop_field _ _ _ _ bytes (by simp)
  obtain ⟨in2, key, at2⟩ := drop_field _ _ _ _ at1 (by simp [← List.length_eq_zero_iff])
  obtain ⟨in3, valLen, at3⟩ := drop_field _ _ _ _ at2 (by simp)
  obtain ⟨in4, value, at4⟩ := drop_field _ _ _ _ at3 (by simp)
  rw [putUint32_length] at in1 keyLen at1 in2 key at2 in3 valLen at3 in4 value at4
  rw [putUint32_length] at in3 valLen at3 in4 value at4
  have keySize := putUint32_mod _ fits.key
  have valueSize := putUint32_mod _ fits.value
  have flag : ((if e.tombstone then (1 : UInt8) else 0) == 1) = e.tombstone := by
    cases e.tombstone
    · rfl
    · rfl
  rw [next]
  simp only [keyLen, keySize, valLen, valueSize, key, value, at4, flag]
  rw [if_neg (by omega), if_neg (by omega), if_neg (by omega), if_neg (by omega)]
  rw [e.encoded_length]
  simp only [Prod.mk.injEq, and_true, BlockIterator.mk.injEq, true_and]
  omega

/-- After the step the rest of the block is left. -/
theorem next_remaining (it : BlockIterator) (e : Entry) (es : List Entry) (fits : e.Fits)
    (rest : it.Remaining (e :: es)) : it.next.1.Remaining es := by
  rw [it.next_entry e es fits rest, Remaining, ← List.drop_drop, rest, blockBytes_cons,
    List.drop_left]

theorem next_end (it : BlockIterator) (rest : it.Remaining []) : it.next = (it, false) := by
  have short : it.data.length ≤ it.pos := by
    have len := congrArg List.length rest
    simp only [List.length_drop, blockBytes, List.flatMap_nil, List.length_nil] at len
    omega
  rw [next, if_pos (by omega)]

end BlockIterator

end Sst

end PebbleDB
