import PebbleDB.Acceptance.ScanVerifiers
import PebbleDB.Lib.Lex

/-!
# Scans of the keys with a given start

`RangeScanVerifier` compares four scans with the oracle: of all keys, of a part of them
with and without an upper bound, and of the keys that begin with `key_`. The store has no
scan of its own for the last one. The verifier asks for the range from the given start up
to the bound that `nextPrefixBound` computes: the last byte below `0xff` is raised by one
and what stands behind it is cut off.

## Main result

`startsWith_iff_between`: that range holds exactly the keys with the given start, also
when trailing `0xff` bytes are carried over, and when there is no such byte and the range
is open above. `rangeScanVerify_clean` then says what it means that the verifier passes.
-/
namespace PebbleDB.Acceptance

open Db (InRange)

/-! ### `nextPrefixBound` -/

/-- The loop, over the places below `i`, the last one first. -/
def prefixBoundBelow (out : Bytes) : Nat → Slice
  | 0 => none
  | i + 1 =>
    if out.getD i 0 < 0xff then some ((out.set i (out.getD i 0 + 1)).take (i + 1))
    else prefixBoundBelow out i

/-- `nextPrefixBound`; nil stands for "no finite upper bound". -/
def nextPrefixBound (start : Bytes) : Slice := prefixBoundBelow start start.length

/-- The loop does not look at the places from `i` on. -/
theorem prefixBoundBelow_append (p rest : Bytes) (i : Nat) (inside : i ≤ p.length) :
    prefixBoundBelow (p ++ rest) i = prefixBoundBelow p i := by
  induction i with
  | zero => rfl
  | succ i ih =>
    have here : (p ++ rest).getD i 0 = p.getD i 0 := List.getD_append p rest 0 i inside
    rw [prefixBoundBelow, prefixBoundBelow, here, ih (by omega), List.set_append_left _ _ inside,
      List.take_append_of_le_length (by simpa using inside)]

theorem nextPrefixBound_nil : nextPrefixBound [] = none := rfl

/-- The last byte is raised if it can be; if not, the bytes in front of it give the bound. -/
theorem nextPrefixBound_concat (p : Bytes) (b : UInt8) :
    nextPrefixBound (p ++ [b]) = if b < 0xff then some (p ++ [b + 1]) else nextPrefixBound p := by
  have last : (p ++ [b]).getD p.length 0 = b := by simp
  have whole : ((p ++ [b]).set p.length (b + 1)).take (p.length + 1) = p ++ [b + 1] := by simp
  rw [nextPrefixBound, List.length_append, List.length_singleton, prefixBoundBelow, last, whole,
    prefixBoundBelow_append p [b] p.length (le_refl _), nextPrefixBound]

theorem toNat_succ_of_lt (b : UInt8) (room : b < 0xff) : (b + 1).toNat = b.toNat + 1 := by
  have small : b.toNat < 255 := UInt8.lt_iff_toNat_lt.mp room
  rw [UInt8.toNat_add]
  exact Nat.mod_eq_of_lt (Nat.succ_lt_succ small)

theorem covBy_succ_of_lt (b : UInt8) (room : b < 0xff) : b ⋖ b + 1 := by
  have succ := toNat_succ_of_lt b room
  constructor
  · exact UInt8.lt_iff_toNat_lt.mpr (by omega)
  · intro c above below
    have above := UInt8.lt_iff_toNat_lt.mp above
    have below := UInt8.lt_iff_toNat_lt.mp below
    omega

theorem isTop_of_not_lt (b : UInt8) (full : ¬b < 0xff) : IsTop b := by
  intro c
  have large : ¬b.toNat < 255 := fun less => full (UInt8.lt_iff_toNat_lt.mpr less)
  have bound := c.toNat_lt
  exact UInt8.le_iff_toNat_le.mpr (by omega)

/-- A bound has at least one byte. -/
theorem nextPrefixBound_bytes_nil (p : Bytes) :
    (nextPrefixBound p).bytes = [] ↔ nextPrefixBound p = none := by
  induction p using List.reverseRecOn with
  | nil => simp [nextPrefixBound_nil]
  | append_singleton p b ih =>
    rw [nextPrefixBound_concat]
    by_cases room : b < 0xff
    · simp [room]
    · simpa [room] using ih

/-- The range from `p` up to its bound holds the keys that begin with `p`. -/
theorem inRange_nextPrefixBound (p k : Bytes) :
    InRange p (nextPrefixBound p).bytes k ↔ p <+: k := by
  induction p using List.reverseRecOn with
  | nil => simp [nextPrefixBound_nil, InRange, not_lt.mp (List.not_lt_nil k)]
  | append_singleton p b ih =>
    rw [nextPrefixBound_concat]
    by_cases room : b < 0xff
    · rw [if_pos room, List.isPrefix_concat_iff_of_covBy p b (b + 1) (covBy_succ_of_lt b room)]
      simp [InRange]
    · -- `0xff` is carried over: `p` alone bounds from above
      rw [if_neg room, List.isPrefix_concat_iff_of_isTop p b (isTop_of_not_lt b room), ← ih]
      have lower : p ++ [b] ≤ k → p ≤ k :=
        (List.le_of_isPrefix p (p ++ [b]) (List.prefix_append p [b])).trans
      exact ⟨fun both => ⟨⟨lower both.1, both.2⟩, both.1⟩, fun both => ⟨both.2, both.1.2⟩⟩

/-- For all byte strings: `k` begins with `p` if and only if it is at least `p` and below
the bound of `p`, where a nil bound is none. -/
theorem startsWith_iff_between (p k : Bytes) :
    p <+: k ↔ p ≤ k ∧ (nextPrefixBound p = none ∨ k < (nextPrefixBound p).bytes) := by
  rw [← inRange_nextPrefixBound, InRange, nextPrefixBound_bytes_nil]

-- carried over, cut off, and without a bound
example : nextPrefixBound [97, 255, 255] = some [98] ∧ nextPrefixBound [255, 255] = none := by
  decide

/-! ### `RangeScanVerifier` -/

/-- `RangeScanVerifier.Verify`, for a store whose scans yield these pairs without an error. -/
def rangeScanVerify (expected : MapExpectedState) (scan : Bytes → Bytes → List (Bytes × Bytes)) :
    ModuleResult :=
  let live := expected.liveKeys
  let res := emptyModuleResult rangeScanVerifierName
  let res := verifyRange expected live (ascii "full_scan") (scan [] []) res
  let res :=
    if 2 ≤ live.length then
      let mid := live.getD (live.length / 2) []
      let last := live.getD (live.length - 1) []
      -- half-open, without the last key
      let res := verifyRange expected (expectedInRange expected mid last) (ascii "partial_scan")
        (scan mid last) res
      verifyRange expected (expectedInRange expected mid []) (ascii "tail_scan") (scan mid []) res
    else res
  let start := ascii "key_"
  let stop := (nextPrefixBound start).bytes
  let res := verifyRange expected (expectedInRange expected start stop) (ascii "prefix_scan")
    (scan start stop) res
  finalizeModule res

/-- No failure after a range: none before it, and the range is as the oracle has it. -/
theorem verifyRange_failures_nil (expected : MapExpectedState) (range : Bytes → Prop)
    (want : List Bytes) (sorted : want.Pairwise (· < ·))
    (mem : ∀ k, k ∈ want ↔ range k ∧ ∃ v, expected.Live k v) (label : Bytes)
    (pairs : List (Bytes × Bytes)) (res : ModuleResult) :
    (verifyRange expected want label pairs res).failures = [] ↔
      res.failures = [] ∧ ListsLive expected range pairs := by
  rw [listsLive_iff expected range want sorted mem, ← verifyRange_clean expected want sorted label
    pairs res]
  obtain ⟨more, is⟩ := verifyRange_failures expected want label pairs res
  rw [is, List.append_eq_nil_iff, List.append_right_eq_self]

theorem verifyRange_expectedInRange_nil (expected : MapExpectedState) (start stop label : Bytes)
    (pairs : List (Bytes × Bytes)) (res : ModuleResult) :
    (verifyRange expected (expectedInRange expected start stop) label pairs res).failures = [] ↔
      res.failures = [] ∧ ListsLive expected (InRange start stop) pairs :=
  verifyRange_failures_nil expected _ _ (expectedInRange_ascending expected start stop)
    (mem_expectedInRange expected start stop) label pairs res

/-- The verifier records no failure if and only if all its scans are what the oracle says;
the last one is then the list of the live keys that begin with `key_`. -/
theorem rangeScanVerify_clean (expected : MapExpectedState)
    (scan : Bytes → Bytes → List (Bytes × Bytes)) :
    let live := expected.liveKeys
    let mid := live.getD (live.length / 2) []
    let last := live.getD (live.length - 1) []
    let start := ascii "key_"
    (rangeScanVerify expected scan).failures = [] ↔
      ListsLive expected (fun _ => True) (scan [] []) ∧
        (2 ≤ live.length → ListsLive expected (InRange mid last) (scan mid last) ∧
          ListsLive expected (InRange mid []) (scan mid [])) ∧
        ListsLive expected (fun k => start <+: k)
          (scan start (nextPrefixBound start).bytes) := by
  intro live mid last start
  have full := verifyRange_failures_nil expected (fun _ => True) live expected.liveKeys_ascending
    (fun k => by rw [expected.mem_liveKeys]; simp) (ascii "full_scan") (scan [] [])
    (emptyModuleResult rangeScanVerifierName)
  have begins : InRange start (nextPrefixBound start).bytes = fun k => start <+: k :=
    funext fun k => propext (inRange_nextPrefixBound start k)
  rw [rangeScanVerify, finalizeModule_failures, verifyRange_expectedInRange_nil, begins,
    ← and_assoc]
  apply and_congr_left
  intro _
  by_cases several : 2 ≤ live.length
  · rw [if_pos several, verifyRange_expectedInRange_nil, verifyRange_expectedInRange_nil, full]
    simp only [emptyModuleResult, true_and, several, forall_const, and_assoc]
    rfl
  · rw [if_neg several, full]
    simp [emptyModuleResult, several]

end PebbleDB.Acceptance
