import PebbleDB.Hash

/-!
# Bloom filters

A filter sets `k` bits for each key, at positions derived from the two halves of one
FNV-1a hash. The size comes from floating-point formulas; their two results are
arguments here, and everything the code does with them (clamping, rounding up to
whole bytes) is part of the model.

Nothing about the filter depends on the hash itself. The operations are therefore also
given with the hash as a parameter, and what is shown of them holds for every hash; the
code's operations are those at FNV-1a.
-/
namespace PebbleDB.Sst

structure Filter where
  bits : Bytes
  k : Nat
  m : Nat
  deriving DecidableEq, Repr

namespace Filter

/-- A filter of `m` bits without any key. -/
def empty (m k : Nat) : Filter := ⟨List.replicate (m / 8) 0, k, m⟩

/-- `bloom.New`: `rawBits` and `rawHashes` are the values of the two float formulas. -/
def new (rawBits rawHashes : Nat) : Filter :=
  let k := if rawHashes < 1 then 1 else if 30 < rawHashes then 30 else rawHashes
  let m := (rawBits + 7) / 8 * 8
  .empty m k

/-- The position of the `i`-th hash. -/
def position (f : Filter) (key : Bytes) (i : Nat) : Nat :=
  let sum := fnv64a key
  (sum + i * (sum >>> 32)) % 2 ^ 64 % f.m

def mask (j : Nat) : UInt8 := UInt8.ofNat (2 ^ j)

def setBit (bits : Bytes) (idx : Nat) : Bytes := bits.modify (idx / 8) (· ||| mask (idx % 8))

def testBit (bits : Bytes) (idx : Nat) : Bool := bits.getD (idx / 8) 0 &&& mask (idx % 8) != 0

def add (f : Filter) (key : Bytes) : Filter :=
  if f.m = 0 then f
  else { f with bits := (List.range f.k).foldl (fun bits i => setBit bits (f.position key i)) f.bits }

def mayContain (f : Filter) (key : Bytes) : Bool :=
  if f.m = 0 then true else (List.range f.k).all fun i => testBit f.bits (f.position key i)

/-- The same operations with any hash in the place of FNV-1a. -/
def positionBy (hash : Bytes → Nat) (f : Filter) (key : Bytes) (i : Nat) : Nat :=
  let sum := hash key
  (sum + i * (sum >>> 32)) % 2 ^ 64 % f.m

def addBy (hash : Bytes → Nat) (f : Filter) (key : Bytes) : Filter :=
  if f.m = 0 then f
  else { f with
    bits := (List.range f.k).foldl (fun bits i => setBit bits (f.positionBy hash key i)) f.bits }

def mayContainBy (hash : Bytes → Nat) (f : Filter) (key : Bytes) : Bool :=
  if f.m = 0 then true else (List.range f.k).all fun i => testBit f.bits (f.positionBy hash key i)

def encode (f : Filter) : Bytes := putUint32 f.k ++ putUint32 f.m ++ f.bits

def decode (data : Bytes) : Option Filter :=
  if data.length < 8 then none
  else
    let k := beDecode (data.take 4)
    let m := beDecode ((data.drop 4).take 4)
    if m = 0 ∨ k = 0 then none
    else
      let bits := data.drop 8
      let expectedLen := (m + 7) / 8
      if bits.length < expectedLen then none else some ⟨bits.take expectedLen, k, m⟩

/-! ### Bits -/

theorem mask_self (j : Nat) (small : j < 8) : mask j &&& mask j ≠ 0 := by
  have all : ∀ j : Fin 8, mask j &&& mask j ≠ 0 := by decide
  exact all ⟨j, small⟩

theorem or_and_ne_zero (a b c : UInt8) (kept : a &&& c ≠ 0) : (a ||| b) &&& c ≠ 0 := by
  intro zero
  apply kept
  have bits : ((a.toBitVec &&& c.toBitVec) ||| (b.toBitVec &&& c.toBitVec)) = 0#8 := by
    rw [← BitVec.and_or_distrib_right]
    exact congrArg UInt8.toBitVec zero
  exact UInt8.eq_of_toBitVec_eq (BitVec.or_eq_zero_iff.mp bits).1

@[simp] theorem setBit_length (bits : Bytes) (idx : Nat) : (setBit bits idx).length = bits.length :=
  List.length_modify _ _ _

theorem testBit_setBit_self (bits : Bytes) (idx : Nat) (inside : idx / 8 < bits.length) :
    testBit (setBit bits idx) idx = true := by
  simp only [testBit, setBit, List.getD_eq_getElem?_getD, List.getElem?_modify, if_true,
    List.getElem?_eq_getElem inside, Option.map_eq_map, Option.map_some, Option.getD_some,
    bne_iff_ne, ne_eq]
  rw [UInt8.or_comm]
  exact or_and_ne_zero _ _ _ (mask_self _ (Nat.mod_lt _ (by decide)))

theorem testBit_setBit_mono (bits : Bytes) (idx j : Nat) (set : testBit bits j = true) :
    testBit (setBit bits idx) j = true := by
  simp only [testBit, setBit, List.getD_eq_getElem?_getD, bne_iff_ne, ne_eq] at set ⊢
  rw [List.getElem?_modify]
  cases here : bits[j / 8]? with
  | none => simp [here] at set
  | some b =>
    rw [here, Option.getD_some] at set
    by_cases same : idx / 8 = j / 8
    · simpa [same] using or_and_ne_zero _ _ _ set
    · simpa [same] using set

/-! ### No false negatives -/

/-- The bit array has the announced size, and the sizes fit their 32-bit fields. -/
structure Sized (f : Filter) : Prop where
  bits : f.bits.length = f.m / 8
  whole : f.m % 8 = 0
  positive : 0 < f.m
  small : f.m < 2 ^ 32
  hashes : 0 < f.k ∧ f.k < 2 ^ 32

theorem empty_sized (m k : Nat) (whole : m % 8 = 0) (positive : 0 < m) (small : m < 2 ^ 32)
    (hashes : 0 < k ∧ k < 2 ^ 32) : (empty m k).Sized :=
  ⟨List.length_replicate, whole, positive, small, hashes⟩

theorem new_sized (rawBits rawHashes : Nat) (positive : 0 < rawBits)
    (small : (rawBits + 7) / 8 * 8 < 2 ^ 32) : (new rawBits rawHashes).Sized := by
  refine empty_sized _ _ (by simp) (by omega) small ?_
  split
  · omega
  · split
    · omega
    · omega

theorem positionBy_inside (hash : Bytes → Nat) (f : Filter) (sized : f.Sized) (key : Bytes) (i : Nat) :
    f.positionBy hash key i / 8 < f.bits.length := by
  have below : f.positionBy hash key i < f.m := Nat.mod_lt _ sized.positive
  have whole := sized.whole
  rw [sized.bits]
  omega

/-- Setting further bits never clears one. -/
theorem testBit_fold_mono (positions : List Nat) (bits : Bytes) (j : Nat)
    (set : testBit bits j = true) : testBit (positions.foldl setBit bits) j = true := by
  induction positions generalizing bits with
  | nil => exact set
  | cons p positions ih => exact ih (setBit bits p) (testBit_setBit_mono bits p j set)

theorem testBit_fold_self (positions : List Nat) (bits : Bytes) (j : Nat)
    (inside : j / 8 < bits.length) (member : j ∈ positions) :
    testBit (positions.foldl setBit bits) j = true := by
  induction positions generalizing bits with
  | nil => cases member
  | cons p positions ih =>
    rw [List.foldl_cons]
    rcases List.mem_cons.mp member with rfl | later
    · exact testBit_fold_mono positions _ _ (testBit_setBit_self bits j inside)
    · exact ih (setBit bits p) (by simpa using inside) later

theorem foldl_setBit_length (positions : List Nat) (bits : Bytes) :
    (positions.foldl setBit bits).length = bits.length := by
  induction positions generalizing bits with
  | nil => rfl
  | cons p positions ih => rw [List.foldl_cons, ih, setBit_length]

section AnyHash

variable (hash : Bytes → Nat) (f : Filter) (sized : f.Sized)

include sized

theorem addBy_bits (key : Bytes) : f.addBy hash key =
    { f with bits := ((List.range f.k).map (f.positionBy hash key)).foldl setBit f.bits } := by
  rw [addBy, if_neg (Nat.pos_iff_ne_zero.mp sized.positive), List.foldl_map]

theorem mayContainBy_iff (key : Bytes) : f.mayContainBy hash key = true ↔
    ∀ i < f.k, testBit f.bits (f.positionBy hash key i) = true := by
  rw [mayContainBy, if_neg (Nat.pos_iff_ne_zero.mp sized.positive)]
  simp

theorem Sized.addBy (key : Bytes) : (f.addBy hash key).Sized := by
  rw [addBy_bits hash f sized]
  exact ⟨by rw [foldl_setBit_length]; exact sized.bits, sized.whole, sized.positive, sized.small,
    sized.hashes⟩

theorem mayContainBy_addBy_self (key : Bytes) :
    (f.addBy hash key).mayContainBy hash key = true := by
  rw [mayContainBy_iff hash _ (sized.addBy hash f key), addBy_bits hash f sized]
  intro i small
  exact testBit_fold_self _ _ _ (positionBy_inside hash f sized key i)
    (List.mem_map_of_mem (List.mem_range.mpr small))

theorem mayContainBy_addBy_mono (key other : Bytes) (inside : f.mayContainBy hash other = true) :
    (f.addBy hash key).mayContainBy hash other = true := by
  rw [mayContainBy_iff hash f sized] at inside
  rw [mayContainBy_iff hash _ (sized.addBy hash f key), addBy_bits hash f sized]
  intro i small
  exact testBit_fold_mono _ _ _ (inside i small)

end AnyHash

/-! ### The code's hash -/

section Fnv

variable (f : Filter) (sized : f.Sized)

include sized

theorem add_bits (key : Bytes) :
    f.add key = { f with bits := ((List.range f.k).map (f.position key)).foldl setBit f.bits } :=
  addBy_bits fnv64a f sized key

theorem Sized.add (key : Bytes) : (f.add key).Sized := sized.addBy fnv64a f key

theorem mayContain_add_self (key : Bytes) : (f.add key).mayContain key = true :=
  mayContainBy_addBy_self fnv64a f sized key

theorem mayContain_add_mono (key other : Bytes) (inside : f.mayContain other = true) :
    (f.add key).mayContain other = true :=
  mayContainBy_addBy_mono fnv64a f sized key other inside

end Fnv

/-! ### Encoding -/

@[simp] theorem encode_length (f : Filter) : f.encode.length = 8 + f.bits.length := by
  simp [encode]
  omega

theorem add_encode_length (f : Filter) (key : Bytes) :
    (f.add key).encode.length = f.encode.length := by
  rw [encode_length, encode_length, add]
  split
  · rfl
  · rw [← List.foldl_map, foldl_setBit_length]

theorem decode_encode (f : Filter) (sized : f.Sized) : decode f.encode = some f := by
  obtain ⟨bits, whole, positive, small, hashes⟩ := sized
  have kField : beDecode (f.encode.take 4) = f.k := by
    rw [encode, List.append_assoc, List.take_left' (putUint32_length _)]
    exact putUint32_mod _ (by omega)
  have mField : beDecode ((f.encode.drop 4).take 4) = f.m := by
    rw [encode, List.append_assoc, List.drop_left' (putUint32_length _),
      List.take_left' (putUint32_length _)]
    exact putUint32_mod _ small
  have rest : f.encode.drop 8 = f.bits := by
    rw [encode, List.drop_left' (by simp)]
  have len := f.encode_length
  have expected : (f.m + 7) / 8 = f.bits.length := by
    rw [bits]
    omega
  rw [decode, if_neg (by omega)]
  simp only [kField, mField, rest, expected]
  rw [if_neg (by omega), if_neg (by omega), List.take_length]

/-! ### Any number of keys -/

section Added

variable (hash : Bytes → Nat)

theorem Sized.addAllBy (keys : List Bytes) (f : Filter) (sized : f.Sized) :
    (keys.foldl (Filter.addBy hash) f).Sized := by
  induction keys generalizing f with
  | nil => exact sized
  | cons key keys ih => exact ih _ (sized.addBy hash f key)

/-- What was found before is still found after any further keys. -/
theorem mayContainBy_addAll_mono (keys : List Bytes) (f : Filter) (sized : f.Sized) (other : Bytes)
    (inside : f.mayContainBy hash other = true) :
    (keys.foldl (addBy hash) f).mayContainBy hash other = true := by
  induction keys generalizing f with
  | nil => exact inside
  | cons key keys ih =>
    exact ih _ (sized.addBy hash f key) (mayContainBy_addBy_mono hash f sized key other inside)

theorem mayContainBy_addAll (keys : List Bytes) (f : Filter) (sized : f.Sized) (key : Bytes)
    (added : key ∈ keys) : (keys.foldl (addBy hash) f).mayContainBy hash key = true := by
  induction keys generalizing f with
  | nil => cases added
  | cons first keys ih =>
    have sized' := sized.addBy hash f first
    rcases List.mem_cons.mp added with rfl | later
    · exact mayContainBy_addAll_mono hash keys _ sized' key (mayContainBy_addBy_self hash f sized key)
    · exact ih _ sized' later

/-- Whatever the hash, and whatever the filter held before: every key that was added is
found, in the filter and in what is read back from its encoding, and both answer alike for
every key. -/
theorem no_false_negatives (f : Filter) (sized : f.Sized) (keys : List Bytes) :
    let filter := keys.foldl (addBy hash) f
    (∀ key ∈ keys, filter.mayContainBy hash key = true) ∧
      ∃ decoded, decode filter.encode = some decoded ∧
        (∀ key ∈ keys, decoded.mayContainBy hash key = true) ∧
        ∀ key, decoded.mayContainBy hash key = filter.mayContainBy hash key := by
  intro filter
  have found (key : Bytes) (added : key ∈ keys) := mayContainBy_addAll hash keys f sized key added
  exact ⟨found, filter, decode_encode filter (sized.addAllBy hash keys f), found, fun _ => rfl⟩

end Added

/-- Two keys in a filter of sixteen bits and three hashes, at FNV-1a. -/
theorem no_false_negatives_two_keys :
    let filter := ((empty 16 3).add [97]).add [98]
    (empty 16 3).Sized ∧ filter.mayContain [97] = true ∧ filter.mayContain [98] = true ∧
      ∃ decoded, decode filter.encode = some decoded ∧ decoded.mayContain [97] = true := by
  have sized := empty_sized 16 3 (by decide) (by decide) (by decide) (by decide)
  obtain ⟨found, decoded, is, kept, -⟩ := no_false_negatives fnv64a (empty 16 3) sized [[97], [98]]
  exact ⟨sized, found [97] (by decide), found [98] (by decide), decoded, is, kept [97] (by decide)⟩

end Filter

end PebbleDB.Sst
