import Mathlib.Data.List.Lex
import Mathlib.Order.Lattice
import Mathlib.Data.Nat.ModEq
import Mathlib.Tactic.Ring
import Mathlib.Tactic.Positivity
import PebbleDB.Lib.Slicing

/-!
# Byte strings, slices and big-endian integers

Keys and values are byte strings. Go distinguishes a nil slice from an empty
one, and three packages of the store branch on that difference, so a slice is
an optional byte string: `none` is nil. Copying with `append([]byte(nil), s...)`
turns every empty slice into nil.
-/
namespace PebbleDB

instance linearOrderUInt8 : LinearOrder UInt8 where
  le_refl := UInt8.le_refl
  le_trans _ _ _ := UInt8.le_trans
  le_antisymm _ _ := UInt8.le_antisymm
  le_total := UInt8.le_total
  lt_iff_le_not_ge a b := by
    rw [UInt8.lt_iff_toNat_lt, UInt8.le_iff_toNat_le, UInt8.le_iff_toNat_le]
    omega
  toDecidableLE := inferInstance
  toDecidableLT := inferInstance
  toDecidableEq := inferInstance

instance linearOrderUInt64 : LinearOrder UInt64 where
  le_refl := UInt64.le_refl
  le_trans _ _ _ := UInt64.le_trans
  le_antisymm _ _ := UInt64.le_antisymm
  le_total := UInt64.le_total
  lt_iff_le_not_ge a b := by
    rw [UInt64.lt_iff_toNat_lt, UInt64.le_iff_toNat_le, UInt64.le_iff_toNat_le]
    omega
  toDecidableLE := inferInstance
  toDecidableLT := inferInstance
  toDecidableEq := inferInstance

/-- Membership in a list of ids is decided by this instance in all modules. -/
instance lawfulBEqUInt64 : LawfulBEq UInt64 := inferInstance

/-- A byte string; `<` is the lexicographic order of `bytes.Compare`. -/
abbrev Bytes := List UInt8

instance Bytes.lawfulBEq : LawfulBEq Bytes := inferInstance

/-- A Go byte slice: `none` is nil, `some []` an empty slice that is not nil. -/
abbrev Slice := Option Bytes

/-- The bytes of a slice; `bytes.Compare` and `len` see nil as empty. -/
def Slice.bytes (s : Slice) : Bytes := s.getD []

/-- The bytes of a text of ASCII characters. -/
def ascii (text : String) : Bytes := text.toList.map fun c => UInt8.ofNat c.toNat

/-- `append([]byte(nil), b...)`: a copy, nil when there is nothing to copy. -/
def cloneBytes : Bytes → Slice
  | [] => none
  | b :: bs => some (b :: bs)

@[simp] theorem Slice.bytes_none : Slice.bytes none = [] := rfl

@[simp] theorem Slice.bytes_some (b : Bytes) : Slice.bytes (some b) = b := rfl

@[simp] theorem cloneBytes_bytes (b : Bytes) : (cloneBytes b).bytes = b := by
  cases b <;> rfl

@[simp] theorem cloneBytes_eq_none (b : Bytes) : cloneBytes b = none ↔ b = [] := by
  cases b <;> simp [cloneBytes]

theorem cloneBytes_of_ne_nil (b : Bytes) (nonempty : b ≠ []) : cloneBytes b = some b := by
  cases b with
  | nil => exact absurd rfl nonempty
  | cons b bs => rfl

/-- An entry as every layer sees it. -/
structure Entry where
  key : Bytes
  value : Bytes
  tombstone : Bool
  deriving DecidableEq, Repr

/-- Keys strictly ascend. -/
def Ascending (es : List Entry) : Prop := es.Pairwise fun a b => a.key < b.key

instance (es : List Entry) : Decidable (Ascending es) :=
  inferInstanceAs (Decidable (es.Pairwise fun a b => a.key < b.key))

/-- The entry of a key. -/
def findEntry (k : Bytes) (es : List Entry) : Option Entry := es.find? fun e => decide (e.key = k)

theorem findEntry_append (k : Bytes) (es fs : List Entry) :
    findEntry k (es ++ fs) = (findEntry k es).or (findEntry k fs) := List.find?_append

theorem findEntry_eq_none (k : Bytes) (es : List Entry) :
    findEntry k es = none ↔ ∀ e ∈ es, e.key ≠ k := by
  simp [findEntry, List.find?_eq_none]

theorem findEntry_cons (k : Bytes) (e : Entry) (es : List Entry) :
    findEntry k (e :: es) = if e.key = k then some e else findEntry k es := by
  rw [findEntry, List.find?_cons]
  by_cases same : e.key = k
  · simp [same]
  · simp [same, findEntry]

theorem findEntry_key (k : Bytes) (es : List Entry) (e : Entry) (found : findEntry k es = some e) :
    e.key = k ∧ e ∈ es :=
  ⟨by simpa using List.find?_some found, List.mem_of_find?_eq_some found⟩

/-- In ascending order a key has one entry. -/
theorem findEntry_mem (es : List Entry) (ascending : Ascending es) (e : Entry) (member : e ∈ es) :
    findEntry e.key es = some e := by
  induction es with
  | nil => cases member
  | cons x es ih =>
    obtain ⟨above, later⟩ := List.pairwise_cons.mp ascending
    rw [findEntry_cons]
    rcases List.mem_cons.mp member with rfl | behind
    · rw [if_pos rfl]
    · rw [if_neg (above e behind).ne, ih later behind]

/-! ### Big-endian integers -/

/-- The low `width` bytes of `n`, most significant first. -/
def beEncode : Nat → Nat → Bytes
  | 0, _ => []
  | width + 1, n => UInt8.ofNat (n / 256 ^ width) :: beEncode width n

def beDecode (bs : Bytes) : Nat := bs.foldl (fun acc b => acc * 256 + b.toNat) 0

@[simp] theorem beEncode_length (width n : Nat) : (beEncode width n).length = width := by
  induction width with
  | zero => rfl
  | succ width ih => simp [beEncode, ih]

private theorem beDecode_fold (width n acc : Nat) :
    (beEncode width n).foldl (fun acc b => acc * 256 + b.toNat) acc =
      acc * 256 ^ width + n % 256 ^ width := by
  induction width generalizing acc with
  | zero => simp [beEncode, Nat.mod_one]
  | succ width ih =>
    have digit : (UInt8.ofNat (n / 256 ^ width)).toNat = n / 256 ^ width % 256 := by
      simp
    have split : n % 256 ^ (width + 1) =
        n % 256 ^ width + 256 ^ width * (n / 256 ^ width % 256) := Nat.mod_pow_succ
    simp only [beEncode, List.foldl_cons, ih, digit, split]
    ring

@[simp] theorem beDecode_beEncode (width n : Nat) :
    beDecode (beEncode width n) = n % 256 ^ width := by
  simp [beDecode, beDecode_fold]

private theorem foldl_be_acc (bs : Bytes) (acc : Nat) :
    bs.foldl (fun acc b => acc * 256 + b.toNat) acc = acc * 256 ^ bs.length + beDecode bs := by
  induction bs generalizing acc with
  | nil => simp [beDecode]
  | cons b bs ih =>
    simp only [beDecode, List.foldl_cons, List.length_cons]
    rw [ih, ih (0 * 256 + b.toNat)]
    ring

theorem beDecode_cons (b : UInt8) (bs : Bytes) :
    beDecode (b :: bs) = b.toNat * 256 ^ bs.length + beDecode bs := by
  simp only [beDecode, List.foldl_cons]
  rw [foldl_be_acc]
  simp [beDecode]

theorem beDecode_lt (bs : Bytes) : beDecode bs < 256 ^ bs.length := by
  induction bs with
  | nil => simp [beDecode]
  | cons b bs ih =>
    have digit : b.toNat + 1 ≤ 256 := b.toNat_lt
    calc beDecode (b :: bs) = b.toNat * 256 ^ bs.length + beDecode bs := beDecode_cons b bs
      _ < b.toNat * 256 ^ bs.length + 256 ^ bs.length := by omega
      _ = (b.toNat + 1) * 256 ^ bs.length := by ring
      _ ≤ 256 * 256 ^ bs.length := Nat.mul_le_mul_right _ digit
      _ = 256 ^ (b :: bs).length := by rw [List.length_cons, Nat.pow_succ, Nat.mul_comm]

private theorem beEncode_mul_add (width c n : Nat) :
    beEncode width (c * 256 ^ width + n) = beEncode width n := by
  induction width generalizing c with
  | zero => rfl
  | succ width ih =>
    have shift : c * 256 ^ (width + 1) + n = (c * 256) * 256 ^ width + n := by ring
    have digit : ((c * 256) * 256 ^ width + n) / 256 ^ width = c * 256 + n / 256 ^ width := by
      rw [Nat.add_comm, Nat.add_mul_div_right _ _ (by positivity), Nat.add_comm]
    have low : UInt8.ofNat (c * 256 + n / 256 ^ width) = UInt8.ofNat (n / 256 ^ width) := by
      apply UInt8.toNat_inj.mp
      simp
    simp only [beEncode, shift, digit, ih, low]

/-- Decoding a fixed-width field loses nothing. -/
theorem beEncode_beDecode (bs : Bytes) : beEncode bs.length (beDecode bs) = bs := by
  induction bs with
  | nil => rfl
  | cons b bs ih =>
    have top : (b.toNat * 256 ^ bs.length + beDecode bs) / 256 ^ bs.length = b.toNat := by
      rw [Nat.add_comm, Nat.add_mul_div_right _ _ (by positivity),
        Nat.div_eq_of_lt (beDecode_lt bs), Nat.zero_add]
    simp only [List.length_cons, beEncode, beDecode_cons, top, beEncode_mul_add, ih]
    simp

/-- `binary.BigEndian.AppendUint32` of a value already converted to uint32. -/
def putUint32 (n : Nat) : Bytes := beEncode 4 n

def putUint64 (n : Nat) : Bytes := beEncode 8 n

@[simp] theorem putUint32_length (n : Nat) : (putUint32 n).length = 4 := beEncode_length 4 n

@[simp] theorem putUint64_length (n : Nat) : (putUint64 n).length = 8 := beEncode_length 8 n

/-- The conversion `int64(n)` of a uint64. -/
def toInt64 (n : Nat) : Int :=
  if n % 2 ^ 64 < 2 ^ 63 then (n % 2 ^ 64 : Nat) else (n % 2 ^ 64 : Nat) - 2 ^ 64

/-- The conversion `uint64(i)` of an int64. -/
def toUint64 (i : Int) : Nat := (i % 2 ^ 64).toNat

theorem toInt64_toUint64 (i : Int) (low : -2 ^ 63 ≤ i) (high : i < 2 ^ 63) :
    toInt64 (toUint64 i) = i := by
  rw [toInt64, toUint64]
  split
  · omega
  · omega

theorem toUint64_lt (i : Int) : toUint64 i < 2 ^ 64 := by
  rw [toUint64]
  omega

theorem beDecode_putUint32 (n : Nat) : beDecode (putUint32 n) = n % 2 ^ 32 := by
  simp [putUint32]

theorem beDecode_putUint64 (n : Nat) : beDecode (putUint64 n) = n % 2 ^ 64 := by
  simp [putUint64]

theorem putUint32_mod (n : Nat) (small : n < 2 ^ 32) : beDecode (putUint32 n) = n := by
  rw [beDecode_putUint32, Nat.mod_eq_of_lt small]

theorem putUint64_mod (n : Nat) (small : n < 2 ^ 64) : beDecode (putUint64 n) = n := by
  rw [beDecode_putUint64, Nat.mod_eq_of_lt small]

theorem putUint32_beDecode (bs : Bytes) (len : bs.length = 4) : putUint32 (beDecode bs) = bs := by
  have same := beEncode_beDecode bs
  rwa [len] at same

theorem beDecode_lt_uint32 (bs : Bytes) (len : bs.length = 4) : beDecode bs < 2 ^ 32 := by
  have bound := beDecode_lt bs
  rw [len] at bound
  exact bound

theorem putUint64_beDecode (bs : Bytes) (len : bs.length = 8) : putUint64 (beDecode bs) = bs := by
  have same := beEncode_beDecode bs
  rwa [len] at same

theorem beDecode_lt_uint64 (bs : Bytes) (len : bs.length = 8) : beDecode bs < 2 ^ 64 := by
  have bound := beDecode_lt bs
  rw [len] at bound
  exact bound

/-- `binary.BigEndian.Uint32` and `Uint64`, which read the first `width` bytes and panic
if there are fewer. -/
def bigEndian (width : Nat) (bs : Bytes) : Except Slicing.Fault Nat :=
  (Slicing.slice bs 0 width).map beDecode

theorem bigEndian_ok (width : Nat) (bs : Bytes) (inside : width ≤ bs.length) :
    bigEndian width bs = .ok (beDecode (bs.take width)) := by
  rw [bigEndian, Slicing.slice_ok bs 0 width (Nat.zero_le width) inside]
  rfl

/-! ### `io.ReadFull` -/

/-- The two ways a full read can stop short: nothing left at all, or only a part. -/
inductive ShortRead where
  | eof
  | unexpectedEOF
  deriving DecidableEq, Repr

/-- `io.ReadFull` of `n` bytes from the remaining input: the bytes read and the
input after them. A read of zero bytes always succeeds. -/
def readFull (n : Nat) (input : Bytes) : Except ShortRead (Bytes × Bytes) :=
  if n ≤ input.length then .ok (input.take n, input.drop n)
  else if input = [] then .error .eof
  else .error .unexpectedEOF

theorem readFull_of_le (n : Nat) (input : Bytes) (enough : n ≤ input.length) :
    readFull n input = .ok (input.take n, input.drop n) := if_pos enough

theorem readFull_append (n : Nat) (a rest : Bytes) (len : a.length = n) :
    readFull n (a ++ rest) = .ok (a, rest) := by
  subst len
  simp [readFull]

theorem readFull_short (n : Nat) (input : Bytes) (short : input.length < n) :
    ∃ e, readFull n input = .error e := by
  unfold readFull
  rw [if_neg (by omega)]
  split
  · exact ⟨_, rfl⟩
  · exact ⟨_, rfl⟩

theorem readFull_ok (n : Nat) (input a rest : Bytes)
    (returned : readFull n input = .ok (a, rest)) : input = a ++ rest ∧ a.length = n := by
  unfold readFull at returned
  split at returned
  next fits =>
    cases returned
    exact ⟨(List.take_append_drop n input).symm, by simpa using fits⟩
  · split at returned <;> cases returned

end PebbleDB
