import Mathlib.Data.List.AList
import Mathlib.Data.List.Sort
import PebbleDB.Acceptance.Report
import PebbleDB.Db.Scan

/-!
# The scan verifiers

The oracle of a scenario is a map from keys to values and tombstones. `IteratorVerifier`
walks over a full scan and checks every pair for itself, then the scan as a whole;
`verifyRange` compares a scan of a range with the oracle's keys place by place.

## Main result

`scanVerifiers_iff`: whatever sequence of pairs a scan yields, the forward phase of
`IteratorVerifier` records no failure if and only if it is the list of the oracle's live
keys with their values in ascending order, and `verifyRange` records none if and only if
it is the part of that list in the range.

Keys are copied before they are compared, and a copy of the empty key is nil, which both
loops take for "no key before". The key behind an empty one is therefore not compared
with it; the check for duplicates and the fixed order of the oracle's keys make up for it.
-/
namespace PebbleDB.Acceptance

open Db (InRange)

/-! ### The oracle -/

structure ValueSnapshot where
  value : Bytes
  tombstone : Bool
  deriving DecidableEq, Repr

/-- `MapExpectedState`; the order of the entries is one in which Go may range over them. -/
structure MapExpectedState where
  state : AList fun _ : Bytes => ValueSnapshot

namespace MapExpectedState

def get (m : MapExpectedState) (key : Bytes) : Option ValueSnapshot := m.state.lookup key

def liveKeys (m : MapExpectedState) : List Bytes :=
  ((m.state.entries.filter fun e => !e.2.tombstone).map Sigma.fst).insertionSort (· ≤ ·)

/-- The key is in the oracle with this value and is not a tombstone. -/
def Live (m : MapExpectedState) (k v : Bytes) : Prop :=
  ∃ snap, m.get k = some snap ∧ snap.tombstone = false ∧ snap.value = v

end MapExpectedState

def expectedInRange (expected : MapExpectedState) (start stop : Bytes) : List Bytes :=
  expected.liveKeys.filter fun k =>
    !(decide (0 < start.length) && decide (k < start)) &&
      !(decide (0 < stop.length) && decide (stop ≤ k))

/-- The pairs are the oracle's live keys that satisfy `range`, with their values, in
ascending order. -/
structure ListsLive (expected : MapExpectedState) (range : Bytes → Prop)
    (pairs : List (Bytes × Bytes)) : Prop where
  ascending : pairs.Pairwise fun a b => a.1 < b.1
  mem : ∀ k v, (k, v) ∈ pairs ↔ range k ∧ expected.Live k v

/-! ### `IteratorVerifier`, forward phase -/

def iteratorVerifierName : String := "iterator_verifier"

/-- The variables of the loop. -/
structure ForwardState where
  seen : List Bytes
  prev : Slice
  gotKeys : List Bytes
  res : ModuleResult

/-- What the oracle has against a pair. -/
def checkPair (verifier : String) (expected : MapExpectedState) (k v : Bytes) : Option Failure :=
  match expected.get k with
  | none => some (newFailure verifier k .unexpectedKey)
  | some snap =>
    if snap.tombstone then some (newFailure verifier k .unexpectedKey)
    else if v ≠ snap.value then some (newFailure verifier k .valueMismatch)
    else none

/-- `prev != nil && bytes.Compare(prev, k) >= 0`. -/
def outOfOrder (prev : Slice) (k : Bytes) : Bool :=
  match prev with
  | none => false
  | some p => decide (k ≤ p)

/-- One round of the loop over the iterator. -/
def ForwardState.visit (expected : MapExpectedState) (s : ForwardState) (pair : Bytes × Bytes) :
    ForwardState :=
  let k := pair.1
  let res := { s.res with keysVerified := s.res.keysVerified + 1 }
  let res := if k ∈ s.seen then res.fail (newFailure iteratorVerifierName k .duplicateKey) else res
  let res :=
    if outOfOrder s.prev k then res.fail (newFailure iteratorVerifierName k .orderingViolation)
    else res
  let res :=
    match checkPair iteratorVerifierName expected k pair.2 with
    | some f => res.fail f
    | none => res.pass
  ⟨k :: s.seen, cloneBytes k, s.gotKeys ++ [k], res⟩

/-- The first or last key of the scan against that of the oracle, when both have one. -/
def checkBoundary (got want : Option Bytes) (reason : Reason) (res : ModuleResult) : ModuleResult :=
  match got, want with
  | some g, some w =>
    if g ≠ w then res.fail (newFailure iteratorVerifierName g reason) else res.pass
  | _, _ => res

/-- What is checked after the loop: the number of keys, that none is missing, the ends. -/
def ForwardState.finish (live : List Bytes) (s : ForwardState) : ModuleResult :=
  -- exhausted cleanly
  let res := s.res.pass
  let res :=
    if s.gotKeys.length ≠ live.length then
      res.fail (newFailure iteratorVerifierName [] .keyCountMismatch)
    else res
  let res := (live.filter fun key => decide (key ∉ s.seen)).foldl
    (fun res key => res.fail (newFailure iteratorVerifierName key .missingKey)) res
  let res := checkBoundary s.gotKeys.head? live.head? .boundaryFirst res
  checkBoundary s.gotKeys.getLast? live.getLast? .boundaryLast res

/-- `IteratorVerifier.Verify` up to the reverse phase, for a scan that yields these pairs
without an error. -/
def iteratorForward (expected : MapExpectedState) (pairs : List (Bytes × Bytes)) : ModuleResult :=
  let res := { emptyModuleResult iteratorVerifierName with scansPerformed := 1 }
  (pairs.foldl (ForwardState.visit expected) ⟨[], none, [], res⟩).finish expected.liveKeys

/-! ### `verifyRange` -/

def rangeScanVerifierName : String := "range_scan_verifier"

/-- The loop over the places that both lists have; a pair that fails a check is skipped and
does not become `prev`. -/
def rangeLoop (expected : MapExpectedState) :
    Slice → List ((Bytes × Bytes) × Bytes) → ModuleResult → ModuleResult
  | _, [], res => res
  | prev, ((k, v), want) :: rest, res =>
    let res := { res with keysVerified := res.keysVerified + 1 }
    if k ≠ want then
      rangeLoop expected prev rest (res.fail (newFailure rangeScanVerifierName k .rangeKeyMismatch))
    else
      match checkPair rangeScanVerifierName expected k v with
      | some f => rangeLoop expected prev rest (res.fail f)
      | none =>
        let res :=
          if outOfOrder prev k then res.fail (newFailure rangeScanVerifierName k .orderingViolation)
          else res.pass
        rangeLoop expected (cloneBytes k) rest res

/-- `verifyRange`, for a scan of the range that yields these pairs without an error. -/
def verifyRange (expected : MapExpectedState) (want : List Bytes) (label : Bytes)
    (pairs : List (Bytes × Bytes)) (res : ModuleResult) : ModuleResult :=
  let gotKeys := pairs.map Prod.fst
  let res := { res with scansPerformed := res.scansPerformed + 1 }
  let res :=
    if gotKeys.length ≠ want.length then
      res.fail (newFailure rangeScanVerifierName label .rangeCountMismatch)
    else res
  let res := rangeLoop expected none (pairs.zip want) res
  if 0 < want.length ∧ 0 < gotKeys.length then
    if gotKeys.head? = want.head? ∧ gotKeys.getLast? = want.getLast? then res.pass else res
  else if want.length = 0 ∧ gotKeys.length = 0 then res.pass
  else res

/-! ### The oracle's keys -/

namespace MapExpectedState

variable (m : MapExpectedState)

theorem Live.unique (k v v' : Bytes) (first : m.Live k v) (second : m.Live k v') : v = v' := by
  obtain ⟨snap, found, -, rfl⟩ := first
  obtain ⟨snap', found', -, rfl⟩ := second
  rw [found] at found'
  cases found'
  rfl

theorem mem_liveKeys (k : Bytes) : k ∈ m.liveKeys ↔ ∃ v, m.Live k v := by
  simp only [liveKeys, List.mem_insertionSort, List.mem_map, List.mem_filter, Live, get]
  constructor
  · rintro ⟨⟨k, snap⟩, ⟨inside, alive⟩, rfl⟩
    exact ⟨snap.value, snap, AList.mem_lookup_iff.mpr inside, by simpa using alive, rfl⟩
  · rintro ⟨v, snap, found, alive, -⟩
    exact ⟨⟨k, snap⟩, ⟨AList.mem_lookup_iff.mp found, by simpa using alive⟩, rfl⟩

/-- The keys of a map are distinct, so sorting makes them strictly ascend. -/
theorem liveKeys_ascending : m.liveKeys.Pairwise (· < ·) := by
  have distinct : ((m.state.entries.filter fun e => !e.2.tombstone).map Sigma.fst).Nodup :=
    m.state.keys_nodup.sublist (List.filter_sublist.map _)
  have sorted := List.pairwise_insertionSort (· ≤ ·)
    ((m.state.entries.filter fun e => !e.2.tombstone).map Sigma.fst)
  have nodup := (List.perm_insertionSort (· ≤ ·) _).nodup_iff.mpr distinct
  exact (sorted.and nodup).imp fun both => lt_of_le_of_ne both.1 both.2

end MapExpectedState

theorem expectedInRange_ascending (expected : MapExpectedState) (start stop : Bytes) :
    (expectedInRange expected start stop).Pairwise (· < ·) :=
  expected.liveKeys_ascending.filter _

theorem mem_expectedInRange (expected : MapExpectedState) (start stop k : Bytes) :
    k ∈ expectedInRange expected start stop ↔ InRange start stop k ∧ ∃ v, expected.Live k v := by
  have above : ¬(0 < start.length ∧ k < start) ↔ start ≤ k := by
    cases start with
    | nil => exact iff_of_true (by simp) (not_lt.mp (List.not_lt_nil k))
    | cons b start => simp
  have below : ¬(0 < stop.length ∧ stop ≤ k) ↔ stop = [] ∨ k < stop := by
    cases stop with
    | nil => simp
    | cons b stop => simp
  rw [expectedInRange, List.mem_filter, expected.mem_liveKeys, InRange, ← above, ← below, and_comm]
  simp only [Bool.and_eq_true, Bool.not_eq_true', Bool.and_eq_false_iff, decide_eq_false_iff_not,
    not_and_or]

/-- Lists of keys that strictly ascend are determined by their members. -/
theorem ascending_keys_ext (ks ks' : List Bytes) (sorted : ks.Pairwise (· < ·))
    (sorted' : ks'.Pairwise (· < ·)) (same : ∀ k, k ∈ ks ↔ k ∈ ks') : ks = ks' := by
  refine List.Perm.eq_of_pairwise (fun a b _ _ less more => absurd (less.trans more) (lt_irrefl a))
    sorted sorted' ?_
  exact (List.perm_ext_iff_of_nodup (sorted.imp fun less => less.ne)
    (sorted'.imp fun less => less.ne)).mpr same

/-- Told by the oracle's keys of the range: the same keys in the same order, each with its
value. -/
theorem listsLive_iff (expected : MapExpectedState) (range : Bytes → Prop) (ks : List Bytes)
    (sorted : ks.Pairwise (· < ·)) (mem : ∀ k, k ∈ ks ↔ range k ∧ ∃ v, expected.Live k v)
    (pairs : List (Bytes × Bytes)) :
    ListsLive expected range pairs ↔
      pairs.map Prod.fst = ks ∧ ∀ pair ∈ pairs, expected.Live pair.1 pair.2 := by
  constructor
  · intro lists
    refine ⟨ascending_keys_ext _ _ (List.pairwise_map.mpr lists.ascending) sorted ?_,
      fun pair member => ((lists.mem pair.1 pair.2).mp member).2⟩
    intro k
    rw [mem k, List.mem_map]
    constructor
    · rintro ⟨⟨k, v⟩, member, rfl⟩
      obtain ⟨inRange, live⟩ := (lists.mem k v).mp member
      exact ⟨inRange, v, live⟩
    · rintro ⟨inRange, v, live⟩
      exact ⟨(k, v), (lists.mem k v).mpr ⟨inRange, live⟩, rfl⟩
  · rintro ⟨keys, live⟩
    constructor
    · rw [← keys] at sorted
      exact List.pairwise_map.mp sorted
    · intro k v
      have known := mem k
      rw [← keys, List.mem_map] at known
      constructor
      · intro member
        exact ⟨(known.mp ⟨(k, v), member, rfl⟩).1, live (k, v) member⟩
      · rintro ⟨inRange, isLive⟩
        obtain ⟨⟨k, v'⟩, member, rfl⟩ := known.mpr ⟨inRange, v, isLive⟩
        rw [isLive.unique expected k v v' (live _ member)]
        exact member

/-! ### One pair -/

theorem checkPair_none (verifier : String) (expected : MapExpectedState) (k v : Bytes) :
    checkPair verifier expected k v = none ↔ expected.Live k v := by
  rw [checkPair, MapExpectedState.Live]
  cases expected.get k with
  | none => simp
  | some snap =>
    cases dead : snap.tombstone with
    | true => simp [dead]
    | false => simpa [dead] using eq_comm

/-- After a copied key, exactly the keys above it pass both checks. The empty key is nil
then and is only found by the check for duplicates. -/
theorem inOrder_iff (seen : List Bytes) (last k : Bytes) (below : ∀ x ∈ seen, x ≤ last)
    (member : last ∈ seen) : k ∉ seen ∧ outOfOrder (cloneBytes last) k = false ↔ last < k := by
  constructor
  · rintro ⟨fresh, inOrder⟩
    cases last with
    -- the copy of the empty key is nil, which the comparison skips
    | nil => exact Sst.empty_lt k fun isEmpty => fresh (isEmpty ▸ member)
    | cons b last => simpa [outOfOrder, cloneBytes] using inOrder
  · intro above
    refine ⟨fun old => absurd above (not_lt.mpr (below k old)), ?_⟩
    cases last with
    | nil => rfl
    | cons b last => simpa [outOfOrder, cloneBytes] using above

/-! ### The forward phase -/

namespace ForwardState

variable (expected : MapExpectedState)

/-- A round appends to the failures, and appends nothing exactly when all checks pass. -/
theorem visit_failures (s : ForwardState) (pair : Bytes × Bytes) :
    ∃ more, (s.visit expected pair).res.failures = s.res.failures ++ more ∧
      (more = [] ↔ (pair.1 ∉ s.seen ∧ outOfOrder s.prev pair.1 = false) ∧
        expected.Live pair.1 pair.2) := by
  rw [← checkPair_none iteratorVerifierName]
  simp only [visit]
  by_cases old : pair.1 ∈ s.seen
  · cases outOfOrder s.prev pair.1 <;>
      cases checkPair iteratorVerifierName expected pair.1 pair.2 <;> simp [old]
  · cases outOfOrder s.prev pair.1 <;>
      cases checkPair iteratorVerifierName expected pair.1 pair.2 <;> simp [old]

theorem foldl_failures (pairs : List (Bytes × Bytes)) (s : ForwardState) :
    ∃ more, (pairs.foldl (visit expected) s).res.failures = s.res.failures ++ more := by
  induction pairs generalizing s with
  | nil => exact ⟨[], by simp⟩
  | cons pair pairs ih =>
    obtain ⟨first, is, -⟩ := visit_failures expected s pair
    obtain ⟨later, rest⟩ := ih (s.visit expected pair)
    exact ⟨first ++ later, by rw [List.foldl_cons, rest, is, List.append_assoc]⟩

theorem foldl_keys (pairs : List (Bytes × Bytes)) (s : ForwardState) :
    (pairs.foldl (visit expected) s).gotKeys = s.gotKeys ++ pairs.map Prod.fst ∧
      ∀ k, k ∈ (pairs.foldl (visit expected) s).seen ↔ k ∈ s.seen ∨ k ∈ pairs.map Prod.fst := by
  induction pairs generalizing s with
  | nil => simp
  | cons pair pairs ih =>
    obtain ⟨keys, seen⟩ := ih (s.visit expected pair)
    constructor
    · rw [List.foldl_cons, keys]
      simp [visit]
    · intro k
      rw [List.foldl_cons, seen k]
      simp [visit, or_assoc, or_left_comm]

/-- The rest of the loop after a key: no failure is added if and only if the keys go on
ascending and all pairs are live. -/
theorem foldl_clean (pairs : List (Bytes × Bytes)) (s : ForwardState) (last : Bytes)
    (below : ∀ x ∈ s.seen, x ≤ last) (member : last ∈ s.seen) (copied : s.prev = cloneBytes last) :
    (pairs.foldl (visit expected) s).res.failures = s.res.failures ↔
      (last :: pairs.map Prod.fst).Pairwise (· < ·) ∧
        ∀ pair ∈ pairs, expected.Live pair.1 pair.2 := by
  induction pairs generalizing s last with
  | nil => simp
  | cons pair pairs ih =>
    obtain ⟨more, is, clean⟩ := visit_failures expected s pair
    obtain ⟨later, rest⟩ := foldl_failures expected pairs (s.visit expected pair)
    rw [copied, inOrder_iff s.seen last pair.1 below member] at clean
    rw [List.foldl_cons]
    by_cases ok : last < pair.1 ∧ expected.Live pair.1 pair.2
    · -- this round is clean, and its key is the last one for the rest
      have same : (s.visit expected pair).res.failures = s.res.failures := by
        rw [is, clean.mpr ok, List.append_nil]
      have onward := ih (s.visit expected pair) pair.1
        (by
          intro x inside
          rcases List.mem_cons.mp inside with rfl | old
          · exact le_refl _
          · exact (below x old).trans ok.1.le)
        List.mem_cons_self rfl
      rw [← same, onward, List.map_cons, List.forall_mem_cons]
      constructor
      · rintro ⟨ascends, live⟩
        refine ⟨List.pairwise_cons.mpr ⟨?_, ascends⟩, ok.2, live⟩
        intro k inside
        rcases List.mem_cons.mp inside with rfl | behind
        · exact ok.1
        · exact ok.1.trans ((List.pairwise_cons.mp ascends).1 k behind)
      · rintro ⟨ascends, -, live⟩
        exact ⟨(List.pairwise_cons.mp ascends).2, live⟩
    · -- this round adds a failure, and no later one takes it away
      refine iff_of_false (fun unchanged => ?_) ?_
      · rw [rest, is, List.append_assoc, List.append_right_eq_self, List.append_eq_nil_iff] at unchanged
        exact ok (clean.mp unchanged.1)
      · rintro ⟨ascends, live⟩
        exact ok ⟨(List.pairwise_cons.mp ascends).1 pair.1 (by simp), live pair (by simp)⟩

/-- The whole loop; nothing comes before the first key. -/
theorem foldl_clean_start (pairs : List (Bytes × Bytes)) (res : ModuleResult) :
    (pairs.foldl (visit expected) ⟨[], none, [], res⟩).res.failures = res.failures ↔
      (pairs.map Prod.fst).Pairwise (· < ·) ∧ ∀ pair ∈ pairs, expected.Live pair.1 pair.2 := by
  cases pairs with
  | nil => simp
  | cons pair pairs =>
    let s : ForwardState := ⟨[], none, [], res⟩
    obtain ⟨more, is, clean⟩ := visit_failures expected s pair
    obtain ⟨later, rest⟩ := foldl_failures expected pairs (s.visit expected pair)
    have onward := foldl_clean expected pairs (s.visit expected pair) pair.1
      (by simp [visit, s]) List.mem_cons_self rfl
    have fresh : (pair.1 ∉ s.seen ∧ outOfOrder s.prev pair.1 = false) ∧
        expected.Live pair.1 pair.2 ↔ expected.Live pair.1 pair.2 := by
      simp [s, outOfOrder]
    rw [fresh] at clean
    rw [List.foldl_cons, List.map_cons, List.forall_mem_cons]
    constructor
    · intro unchanged
      rw [rest, is, List.append_assoc, List.append_right_eq_self, List.append_eq_nil_iff] at unchanged
      obtain ⟨none_, noLater⟩ := unchanged
      obtain ⟨ascends, live⟩ := onward.mp (by rw [rest, noLater, List.append_nil])
      exact ⟨ascends, clean.mp none_, live⟩
    · rintro ⟨ascends, first, live⟩
      rw [onward.mpr ⟨ascends, live⟩, is, clean.mpr first, List.append_nil]

end ForwardState

theorem foldl_fail (failure : Bytes → Failure) (ks : List Bytes) (res : ModuleResult) :
    (ks.foldl (fun res k => res.fail (failure k)) res).failures = res.failures ++ ks.map failure := by
  induction ks generalizing res with
  | nil => simp
  | cons k ks ih => rw [List.foldl_cons, ih]; simp

theorem checkBoundary_failures (got want : Option Bytes) (reason : Reason) (res : ModuleResult) :
    ∃ more, (checkBoundary got want reason res).failures = res.failures ++ more ∧
      (got = want → more = []) := by
  cases got with
  | none => exact ⟨[], by simp [checkBoundary], fun _ => rfl⟩
  | some g =>
    cases want with
    | none => exact ⟨[], by simp [checkBoundary], fun _ => rfl⟩
    | some w =>
      by_cases same : g = w
      · exact ⟨[], by simp [checkBoundary, same], fun _ => rfl⟩
      · exact ⟨[newFailure iteratorVerifierName g reason], by simp [checkBoundary, same],
          fun equal => absurd (Option.some.inj equal) same⟩

theorem ForwardState.finish_failures (live : List Bytes) (s : ForwardState) :
    ∃ more, (s.finish live).failures = s.res.failures ++ more ∧
      (more = [] → ∀ k ∈ live, k ∈ s.seen) ∧
      (s.gotKeys = live → (∀ k ∈ live, k ∈ s.seen) → more = []) := by
  -- the result after each of the four checks
  let counted : ModuleResult :=
    if s.gotKeys.length ≠ live.length then
      s.res.pass.fail (newFailure iteratorVerifierName [] .keyCountMismatch)
    else s.res.pass
  let missing := live.filter fun key => decide (key ∉ s.seen)
  let complete := missing.foldl
    (fun res key => res.fail (newFailure iteratorVerifierName key .missingKey)) counted
  obtain ⟨first, isFirst, firstOk⟩ :=
    checkBoundary_failures s.gotKeys.head? live.head? .boundaryFirst complete
  obtain ⟨last, isLast, lastOk⟩ := checkBoundary_failures s.gotKeys.getLast? live.getLast?
    .boundaryLast (checkBoundary s.gotKeys.head? live.head? .boundaryFirst complete)
  have isMissing := foldl_fail (fun key => newFailure iteratorVerifierName key .missingKey) missing
    counted
  have isCounted : counted.failures = s.res.failures ++
      if s.gotKeys.length ≠ live.length then [newFailure iteratorVerifierName [] .keyCountMismatch]
      else [] := by
    simp only [counted]
    split <;> simp
  refine ⟨_, by rw [finish, isLast, isFirst, isMissing, isCounted, List.append_assoc,
    List.append_assoc, List.append_assoc], ?_, ?_⟩
  · intro nothing k member
    simp only [List.append_eq_nil_iff, List.map_eq_nil_iff, missing, List.filter_eq_nil_iff,
      decide_eq_true_eq, not_not] at nothing
    exact nothing.2.1 k member
  · intro same present
    have none_ : missing = [] := by
      simp only [missing, List.filter_eq_nil_iff, decide_eq_true_eq, not_not]
      exact present
    rw [none_, firstOk (by rw [same]), lastOk (by rw [same]), same]
    simp

/-- The forward phase is clean if and only if the keys are the oracle's live keys in their
order and each comes with its value. The checks of the endpoints add nothing to that. -/
theorem iteratorForward_clean (expected : MapExpectedState) (pairs : List (Bytes × Bytes)) :
    (iteratorForward expected pairs).failures = [] ↔
      pairs.map Prod.fst = expected.liveKeys ∧ ∀ pair ∈ pairs, expected.Live pair.1 pair.2 := by
  let start : ModuleResult := { emptyModuleResult iteratorVerifierName with scansPerformed := 1 }
  let s := pairs.foldl (ForwardState.visit expected) ⟨[], none, [], start⟩
  obtain ⟨gotKeys, seen⟩ : s.gotKeys = pairs.map Prod.fst ∧
      ∀ k, k ∈ s.seen ↔ k ∈ pairs.map Prod.fst := by
    simpa using ForwardState.foldl_keys expected pairs ⟨[], none, [], start⟩
  have loop : s.res.failures = [] ↔ _ := ForwardState.foldl_clean_start expected pairs start
  obtain ⟨more, is, complete, fine⟩ := s.finish_failures expected.liveKeys
  have whole : (iteratorForward expected pairs).failures = s.res.failures ++ more := is
  rw [whole, List.append_eq_nil_iff, loop]
  constructor
  · rintro ⟨⟨ascends, live⟩, nothing⟩
    refine ⟨ascending_keys_ext _ _ ascends expected.liveKeys_ascending fun k => ?_, live⟩
    -- no key is too many by the values, and none is missing by the last check
    constructor
    · intro inside
      obtain ⟨pair, member, rfl⟩ := List.mem_map.mp inside
      exact (expected.mem_liveKeys _).mpr ⟨pair.2, live pair member⟩
    · intro inside
      exact (seen k).mp (complete nothing k inside)
  · rintro ⟨keys, live⟩
    refine ⟨⟨keys ▸ expected.liveKeys_ascending, live⟩, fine (gotKeys.trans keys) ?_⟩
    intro k inside
    rw [seen k, keys]
    exact inside

/-! ### The range check -/

theorem rangeLoop_failures (expected : MapExpectedState) (prev : Slice)
    (places : List ((Bytes × Bytes) × Bytes)) (res : ModuleResult) :
    ∃ more, (rangeLoop expected prev places res).failures = res.failures ++ more := by
  induction places generalizing prev res with
  | nil => exact ⟨[], by simp [rangeLoop]⟩
  | cons place places ih =>
    obtain ⟨⟨k, v⟩, want⟩ := place
    simp only [rangeLoop]
    split
    · obtain ⟨more, is⟩ := ih prev _
      exact ⟨_, by rw [is, ModuleResult.fail_failures, List.append_assoc]⟩
    · split
      · obtain ⟨more, is⟩ := ih prev _
        exact ⟨_, by rw [is, ModuleResult.fail_failures, List.append_assoc]⟩
      · split
        · obtain ⟨more, is⟩ := ih (cloneBytes k) _
          exact ⟨_, by rw [is, ModuleResult.fail_failures, List.append_assoc]⟩
        · obtain ⟨more, is⟩ := ih (cloneBytes k) _
          exact ⟨more, by rw [is, ModuleResult.pass_failures]⟩

/-- A recorded failure stays. -/
theorem rangeLoop_fail_ne (expected : MapExpectedState) (prev : Slice)
    (places : List ((Bytes × Bytes) × Bytes)) (res : ModuleResult) (f : Failure) :
    (rangeLoop expected prev places (res.fail f)).failures ≠ res.failures := by
  obtain ⟨more, is⟩ := rangeLoop_failures expected prev places (res.fail f)
  rw [is, ModuleResult.fail_failures, List.append_assoc]
  simp

/-- Keys that are compared with an ascending list are never out of order. -/
theorem rangeLoop_clean (expected : MapExpectedState) (prev : Slice)
    (places : List ((Bytes × Bytes) × Bytes)) (res : ModuleResult)
    (sorted : (places.map Prod.snd).Pairwise (· < ·))
    (above : ∀ p, prev = some p → ∀ place ∈ places, p < place.2) :
    (rangeLoop expected prev places res).failures = res.failures ↔
      ∀ place ∈ places, place.1.1 = place.2 ∧ expected.Live place.1.1 place.1.2 := by
  induction places generalizing prev res with
  | nil => simp [rangeLoop]
  | cons place places ih =>
    obtain ⟨⟨k, v⟩, want⟩ := place
    obtain ⟨first, later⟩ := List.pairwise_cons.mp sorted
    rw [List.forall_mem_cons, ← checkPair_none rangeScanVerifierName]
    simp only [rangeLoop]
    by_cases same : k = want
    · subst same
      cases checkPair rangeScanVerifierName expected k v with
      | some f =>
        simp only [ne_eq, not_true, if_false, reduceCtorEq, and_false, false_and, iff_false]
        exact rangeLoop_fail_ne expected prev places _ f
      | none =>
        -- the key is the expected one, and so it is above the one before
        have inOrder : outOfOrder prev k = false := by
          cases prev with
          | none => rfl
          | some p => simpa [outOfOrder] using above p rfl ((k, v), k) (by simp)
        have behind : ∀ p, cloneBytes k = some p → ∀ place ∈ places, p < place.2 := by
          intro p copy place member
          have is : p = k := by simpa [copy] using cloneBytes_bytes k
          rw [is]
          exact first place.2 (List.mem_map_of_mem member)
        simp only [ne_eq, not_true, if_false, inOrder, Bool.false_eq_true, true_and]
        exact ih (cloneBytes k) _ later behind
    · simp only [ne_eq, same, not_false_eq_true, if_true, false_and, iff_false]
      exact rangeLoop_fail_ne expected prev places _ _

/-- Same length and equal keys at all common places: equal lists of keys. -/
theorem zip_keys (pairs : List (Bytes × Bytes)) (want : List Bytes)
    (same : pairs.length = want.length) :
    (∀ place ∈ pairs.zip want, place.1.1 = place.2) ↔ pairs.map Prod.fst = want := by
  induction pairs generalizing want with
  | nil =>
    cases want with
    | nil => simp
    | cons w want => simp at same
  | cons pair pairs ih =>
    cases want with
    | nil => simp at same
    | cons w want =>
      rw [List.zip_cons_cons, List.forall_mem_cons, ih want (by simpa using same), List.map_cons,
        List.cons_eq_cons]

/-- What `verifyRange` checks before the loop: the number of keys. -/
def rangeCounted (want : List Bytes) (label : Bytes) (pairs : List (Bytes × Bytes))
    (res : ModuleResult) : ModuleResult :=
  let res := { res with scansPerformed := res.scansPerformed + 1 }
  if (pairs.map Prod.fst).length ≠ want.length then
    res.fail (newFailure rangeScanVerifierName label .rangeCountMismatch)
  else res

/-- The checks of the endpoints record no failure. -/
theorem verifyRange_ends (expected : MapExpectedState) (want : List Bytes) (label : Bytes)
    (pairs : List (Bytes × Bytes)) (res : ModuleResult) :
    (verifyRange expected want label pairs res).failures =
      (rangeLoop expected none (pairs.zip want) (rangeCounted want label pairs res)).failures := by
  simp only [verifyRange, rangeCounted]
  split
  · split
    · rfl
    · rfl
  · split
    · rfl
    · rfl

theorem verifyRange_failures (expected : MapExpectedState) (want : List Bytes) (label : Bytes)
    (pairs : List (Bytes × Bytes)) (res : ModuleResult) :
    ∃ more, (verifyRange expected want label pairs res).failures = res.failures ++ more := by
  obtain ⟨more, is⟩ := rangeLoop_failures expected none (pairs.zip want)
    (rangeCounted want label pairs res)
  rw [verifyRange_ends, is, rangeCounted]
  split
  · exact ⟨_, by rw [ModuleResult.fail_failures, List.append_assoc]⟩
  · exact ⟨more, rfl⟩

theorem verifyRange_clean (expected : MapExpectedState) (want : List Bytes)
    (sorted : want.Pairwise (· < ·)) (label : Bytes) (pairs : List (Bytes × Bytes))
    (res : ModuleResult) :
    (verifyRange expected want label pairs res).failures = res.failures ↔
      pairs.map Prod.fst = want ∧ ∀ pair ∈ pairs, expected.Live pair.1 pair.2 := by
  let counted : ModuleResult := { res with scansPerformed := res.scansPerformed + 1 }
  rw [verifyRange_ends, rangeCounted]
  by_cases same : pairs.length = want.length
  · have places : ((pairs.zip want).map Prod.snd) = want := List.map_snd_zip same.ge
    have loop := rangeLoop_clean expected none (pairs.zip want) counted (by rwa [places]) (by simp)
    rw [List.length_map, if_neg (not_not.mpr same), loop, ← zip_keys pairs want same]
    constructor
    · intro all
      refine ⟨fun place member => (all place member).1, fun pair member => ?_⟩
      rw [← List.map_fst_zip same.le] at member
      obtain ⟨place, inside, rfl⟩ := List.mem_map.mp member
      exact (all place inside).2
    · rintro ⟨keys, live⟩ place member
      exact ⟨keys place member, live place.1 (List.of_mem_zip member).1⟩
  · rw [List.length_map, if_pos same]
    refine iff_of_false (rangeLoop_fail_ne expected none _ counted _) ?_
    rintro ⟨keys, -⟩
    exact same (by rw [← keys, List.length_map])

/-! ### Both verifiers -/

/-- For every oracle and every sequence of pairs that a scan yields: the forward phase of
`IteratorVerifier` records no failure if and only if the pairs are the oracle's live keys
in ascending order with their values, and `verifyRange` records none if and only if they
are that for the range. -/
theorem scanVerifiers_iff (expected : MapExpectedState) (pairs : List (Bytes × Bytes)) :
    ((iteratorForward expected pairs).failures = [] ↔
        ListsLive expected (fun _ => True) pairs) ∧
      ∀ start stop label res,
        (verifyRange expected (expectedInRange expected start stop) label pairs res).failures =
            res.failures ↔
          ListsLive expected (InRange start stop) pairs := by
  constructor
  · rw [iteratorForward_clean, listsLive_iff expected _ expected.liveKeys
      expected.liveKeys_ascending (by simpa using expected.mem_liveKeys)]
  · intro start stop label res
    have sorted := expectedInRange_ascending expected start stop
    rw [verifyRange_clean expected _ sorted, listsLive_iff expected _ _ sorted
      (mem_expectedInRange expected start stop)]

/-- Two live keys, one of them empty, and a tombstone: the full listing passes, the
listing without the empty key has three failures. -/
example :
    let expected : MapExpectedState :=
      ⟨[⟨[98], [2], false⟩, ⟨[97], [], true⟩, ⟨[], [1], false⟩].toAList⟩
    (iteratorForward expected [([], [1]), ([98], [2])]).failures = [] ∧
      (iteratorForward expected [([98], [2])]).failures.map Failure.reason =
        [.keyCountMismatch, .missingKey, .boundaryFirst] := by
  decide +kernel

end PebbleDB.Acceptance
