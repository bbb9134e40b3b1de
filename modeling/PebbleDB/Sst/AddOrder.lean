import PebbleDB.Sst.Writer

/-!
# The order of the keys of a table

`Add` compares a key with the last one it took. Whether there is one it reads off `lastKey`
being nil, and `lastKey` is a copy of the key: after an empty key there is, for `Add`, no
last key. A table that begins with an empty key therefore takes any second key, a second
empty one among them.

## Main result

`onlyAscending_iff`: for every sequence of calls on a new writer, the keys of the calls that
succeed strictly ascend and all other calls change nothing, if and only if the first two
calls do not both have the empty key. It is enough to look at the first two calls: a key
that is not empty makes `lastKey` a slice that is not nil, and it stays one.
-/
namespace PebbleDB.Sst

structure AddCall where
  key : Slice
  value : Slice
  tombstone : Bool
  deriving DecidableEq, Repr

structure AddCall.Fits (c : AddCall) : Prop where
  key : c.key.bytes.length < 2 ^ 32
  value : c.value.bytes.length < 2 ^ 32

/-- A call with the writer before and after it. -/
structure AddStep where
  before : Writer
  call : AddCall
  result : Option Error
  after : Writer
  deriving DecidableEq, Repr

namespace Writer

/-- `Add` with the writer it leaves, also when it fails. -/
def addCall (w : Writer) (c : AddCall) : Writer × Option Error :=
  if w.lastKey ≠ none ∧ c.key.bytes ≤ w.lastKey.bytes then (w, some .keyOutOfOrder)
  else
    match w.makeRoom (4 + c.key.bytes.length + 4 + c.value.bytes.length + 1) with
    | .error e => (w, some e)
    | .ok room =>
      match appendEntry room.current ⟨c.key.bytes, c.value.bytes, c.tombstone⟩ with
      -- the full block has gone to the file by then
      | .error e => (room, some e)
      | .ok current =>
        ({ room with
            current := current
            bloom := room.bloom.add c.key.bytes
            lastKey := cloneBytes c.key.bytes }, none)

/-- A sequence of calls, call by call. -/
def addSteps : Writer → List AddCall → List AddStep
  | _, [] => []
  | w, c :: calls => ⟨w, c, (w.addCall c).2, (w.addCall c).1⟩ :: addSteps (w.addCall c).1 calls

/-- What a caller sees that gives up at the first error. -/
def untilError : Writer × Option Error → Except Error Writer
  | (w, none) => .ok w
  | (_, some e) => .error e

theorem add_eq_addCall (w : Writer) (c : AddCall) :
    w.add c.key c.value c.tombstone = untilError (w.addCall c) := by
  unfold add addCall
  by_cases refused : w.lastKey ≠ none ∧ c.key.bytes ≤ w.lastKey.bytes
  · rw [if_pos refused, if_pos refused]
    rfl
  rw [if_neg refused, if_neg refused]
  cases w.makeRoom (4 + c.key.bytes.length + 4 + c.value.bytes.length + 1) with
  | error e => rfl
  | ok room =>
    cases appended : appendEntry room.current ⟨c.key.bytes, c.value.bytes, c.tombstone⟩ with
    | error e => simp [appended, untilError]
    | ok current => simp [appended, untilError]

/-- Writing a full block fails only in the file system. -/
theorem makeRoom_error (w : Writer) (size : Nat) (e : Error) (failed : w.makeRoom size = .error e) :
    e = .fileTooLarge := by
  unfold makeRoom at failed
  split at failed
  · unfold flushBlock at failed
    split at failed
    · cases failed
    · rcases (Except.bind_eq_error _ _ _).mp failed with written | ⟨_, _, same⟩
      · rcases writeFile_cases w.file w.current with ⟨is, -⟩ | ⟨is, -⟩
        · rw [is] at written
          cases written
          rfl
        · rw [is] at written
          cases written
      · cases same
  · cases failed

/-- Without a failure of the file system a call either is refused for its key and changes
nothing, or succeeds and remembers the key. -/
theorem addCall_cases (w : Writer) (c : AddCall) (fits : c.Fits)
    (noFault : (w.addCall c).2 ≠ some .fileTooLarge) :
    (∃ last, w.lastKey = some last ∧ c.key.bytes ≤ last ∧ w.addCall c = (w, some .keyOutOfOrder)) ∨
      (∀ last, w.lastKey = some last → last < c.key.bytes) ∧ (w.addCall c).2 = none ∧
        (w.addCall c).1.lastKey = cloneBytes c.key.bytes := by
  have keyFits := fits.key
  have valueFits := fits.value
  by_cases refused : w.lastKey ≠ none ∧ c.key.bytes ≤ w.lastKey.bytes
  · obtain ⟨last, is⟩ := Option.ne_none_iff_exists'.mp refused.1
    refine .inl ⟨last, is, by simpa [is] using refused.2, ?_⟩
    rw [addCall, if_pos refused]
  · right
    refine ⟨?_, ?_⟩
    · intro last is
      rw [is] at refused
      simpa using refused
    · unfold addCall at noFault ⊢
      rw [if_neg refused] at noFault ⊢
      cases made : w.makeRoom (4 + c.key.bytes.length + 4 + c.value.bytes.length + 1) with
      | error e =>
        rw [made, makeRoom_error w _ e made] at noFault
        exact absurd rfl noFault
      | ok room =>
        have appended := appendEntry_ok room.current ⟨c.key.bytes, c.value.bytes, c.tombstone⟩
          ⟨keyFits, valueFits⟩
        simp only [appended]
        exact ⟨trivial, trivial⟩

end Writer

/-- The keys of the calls that returned nil. -/
def acceptedKeys (steps : List AddStep) : List Bytes :=
  (steps.filter fun s => decide (s.result = none)).map fun s => s.call.key.bytes

/-- The keys that are taken strictly ascend; any other call returns `ErrKeyOutOfOrder` and
leaves the writer as it is, with its block, index, filter and last key. -/
structure OnlyAscending (steps : List AddStep) : Prop where
  accepted : (acceptedKeys steps).Pairwise (· < ·)
  refused : ∀ s ∈ steps, s.result ≠ none →
    s.result = some .keyOutOfOrder ∧ s.after = s.before

/-- The first two calls both have the empty key. -/
def BeginsTwiceEmpty (calls : List AddCall) : Prop :=
  ∃ first second rest, calls = first :: second :: rest ∧ first.key.bytes = [] ∧
    second.key.bytes = []

/-- No call fails in the file system. -/
def NoFileError (steps : List AddStep) : Prop := ∀ s ∈ steps, s.result ≠ some .fileTooLarge

theorem acceptedKeys_cons_none (s : AddStep) (steps : List AddStep) (ok : s.result = none) :
    acceptedKeys (s :: steps) = s.call.key.bytes :: acceptedKeys steps := by
  simp [acceptedKeys, ok]

theorem acceptedKeys_cons_some (s : AddStep) (steps : List AddStep) (failed : s.result ≠ none) :
    acceptedKeys (s :: steps) = acceptedKeys steps := by
  simp [acceptedKeys, failed]

namespace Writer

/-- What is asked of a sequence of calls: everything fits its length field, and the file
system does its part. -/
structure Undisturbed (w : Writer) (calls : List AddCall) : Prop where
  fits : ∀ c ∈ calls, c.Fits
  noFault : NoFileError (w.addSteps calls)

section

variable {w : Writer} {c : AddCall} {calls : List AddCall}

theorem Undisturbed.later (calm : w.Undisturbed (c :: calls)) :
    (w.addCall c).1.Undisturbed calls where
  fits x inside := calm.fits x (List.mem_cons_of_mem _ inside)
  noFault s inside := calm.noFault s (List.mem_cons_of_mem _ inside)

theorem Undisturbed.first_cases (calm : w.Undisturbed (c :: calls)) :
    (∃ last, w.lastKey = some last ∧ c.key.bytes ≤ last ∧ w.addCall c = (w, some .keyOutOfOrder)) ∨
      (∀ last, w.lastKey = some last → last < c.key.bytes) ∧ (w.addCall c).2 = none ∧
        (w.addCall c).1.lastKey = cloneBytes c.key.bytes :=
  w.addCall_cases c (calm.fits c List.mem_cons_self) (calm.noFault _ List.mem_cons_self)

/-- The first call on a writer without a last key succeeds. -/
theorem Undisturbed.first_ok (calm : w.Undisturbed (c :: calls)) (nothing : w.lastKey = none) :
    (w.addCall c).2 = none ∧ (w.addCall c).1.lastKey = cloneBytes c.key.bytes := by
  rcases calm.first_cases with ⟨last, is, -⟩ | ⟨-, ok, remembered⟩
  · rw [nothing] at is
    cases is
  · exact ⟨ok, remembered⟩

end

/-- Every call that fails is refused for its key, whatever the state of the writer. -/
theorem addSteps_refused (calls : List AddCall) (w : Writer) (calm : w.Undisturbed calls)
    (s : AddStep) (member : s ∈ w.addSteps calls) (failed : s.result ≠ none) :
    s.result = some .keyOutOfOrder ∧ s.after = s.before := by
  induction calls generalizing w with
  | nil => cases member
  | cons c calls ih =>
    rcases List.mem_cons.mp member with rfl | behind
    · rcases calm.first_cases with ⟨last, -, -, refused⟩ | ⟨-, ok, -⟩
      · dsimp only
        rw [refused]
        exact ⟨rfl, rfl⟩
      · exact absurd ok failed
    · exact ih (w.addCall c).1 calm.later behind

/-- Once a key that is not empty has been taken, the keys taken later are above it and
ascend. -/
theorem acceptedKeys_above (calls : List AddCall) (w : Writer) (last : Bytes) (some_ : last ≠ [])
    (is : w.lastKey = some last) (calm : w.Undisturbed calls) :
    (last :: acceptedKeys (w.addSteps calls)).Pairwise (· < ·) := by
  induction calls generalizing w last with
  | nil => simp [addSteps, acceptedKeys]
  | cons c calls ih =>
    have later := calm.later
    rcases calm.first_cases with ⟨_, _, _, refused⟩ | ⟨above, ok, remembered⟩
    · -- a refused call leaves the writer as it is
      rw [addSteps, acceptedKeys_cons_some _ _ (by rw [refused]; simp)]
      rw [refused] at later ⊢
      exact ih w last some_ is later
    · have less := above last is
      -- nothing is below the empty key, so the new last key is a slice that is not nil
      have nonempty : c.key.bytes ≠ [] := by
        intro empty
        rw [empty] at less
        exact absurd less (List.not_lt_nil last)
      have rest := ih (w.addCall c).1 c.key.bytes nonempty
        (by rw [remembered, cloneBytes_of_ne_nil _ nonempty]) later
      rw [addSteps, acceptedKeys_cons_none _ _ ok, List.pairwise_cons]
      refine ⟨?_, rest⟩
      intro k member
      rcases List.mem_cons.mp member with rfl | behind
      · exact less
      · exact less.trans ((List.pairwise_cons.mp rest).1 k behind)

/-- From a writer without a last key, the keys that are taken ascend if the first one is not
empty. -/
theorem acceptedKeys_of_ne_nil (calls : List AddCall) (c : AddCall) (w : Writer)
    (nothing : w.lastKey = none) (some_ : c.key.bytes ≠ []) (calm : w.Undisturbed (c :: calls)) :
    (acceptedKeys (w.addSteps (c :: calls))).Pairwise (· < ·) ∧
      ∀ k ∈ acceptedKeys (w.addSteps (c :: calls)), k ≠ [] := by
  obtain ⟨ok, remembered⟩ := calm.first_ok nothing
  have later := acceptedKeys_above calls (w.addCall c).1 c.key.bytes some_
    (by rw [remembered, cloneBytes_of_ne_nil _ some_]) calm.later
  rw [addSteps, acceptedKeys_cons_none _ _ ok]
  refine ⟨later, ?_⟩
  intro k member empty
  rcases List.mem_cons.mp member with rfl | behind
  · exact some_ empty
  · have less := (List.pairwise_cons.mp later).1 k behind
    rw [empty] at less
    exact absurd less (List.not_lt_nil _)

theorem newWriter_lastKey (sizing : Sizing) (blockSize : Int) (expectedEntries : Nat) (w : Writer)
    (created : newWriter sizing blockSize expectedEntries = .ok w) : w.lastKey = none := by
  unfold newWriter at created
  split at created
  · cases created
  · cases created
    rfl

/-- A writer that has taken one empty key and no other: its last key is nil again. -/
theorem accepted_behind_empty (calls : List AddCall) (w : Writer) (nothing : w.lastKey = none)
    (calm : w.Undisturbed calls) :
    ([] :: acceptedKeys (w.addSteps calls)).Pairwise (· < ·) ↔
      ∀ c ∈ calls.head?, c.key.bytes ≠ [] := by
  cases calls with
  | nil => simp [addSteps, acceptedKeys]
  | cons c calls =>
    by_cases empty : c.key.bytes = []
    · -- the second empty key is taken as well
      obtain ⟨ok, -⟩ := calm.first_ok nothing
      rw [addSteps, acceptedKeys_cons_none _ _ ok]
      simp [empty]
    · obtain ⟨ascends, nonempty⟩ := acceptedKeys_of_ne_nil calls c w nothing empty calm
      refine iff_of_true (List.pairwise_cons.mpr ⟨?_, ascends⟩) (by simpa using empty)
      intro k member
      exact empty_lt k (nonempty k member)

/-- For every sequence of calls on a new writer, with keys and values shorter than 2^32 bytes
and no failure of the file system: only ascending keys are taken, and the other calls change
nothing, if and only if the first two calls do not both have the empty key. -/
theorem onlyAscending_iff (sizing : Sizing) (blockSize : Int) (expectedEntries : Nat) (w : Writer)
    (created : newWriter sizing blockSize expectedEntries = .ok w) (calls : List AddCall)
    (fits : ∀ c ∈ calls, c.Fits) (noFault : NoFileError (w.addSteps calls)) :
    OnlyAscending (w.addSteps calls) ↔ ¬BeginsTwiceEmpty calls := by
  have nothing := newWriter_lastKey sizing blockSize expectedEntries w created
  have calm : w.Undisturbed calls := ⟨fits, noFault⟩
  have refused := addSteps_refused calls w calm
  -- the other calls are refused in any case, so the order of the keys decides
  have order : OnlyAscending (w.addSteps calls) ↔
      (acceptedKeys (w.addSteps calls)).Pairwise (· < ·) :=
    ⟨OnlyAscending.accepted, fun ascends => ⟨ascends, refused⟩⟩
  rw [order]
  cases calls with
  | nil => simp [addSteps, acceptedKeys, BeginsTwiceEmpty]
  | cons first calls =>
    by_cases empty : first.key.bytes = []
    · -- the copy of the empty key is nil: the second call is a first call again
      obtain ⟨ok, remembered⟩ := calm.first_ok nothing
      have behind := accepted_behind_empty calls (w.addCall first).1
        (by rw [remembered, empty]; rfl) calm.later
      rw [addSteps, acceptedKeys_cons_none _ _ ok]
      dsimp only
      rw [empty, behind]
      cases calls with
      | nil => simp [BeginsTwiceEmpty]
      | cons second rest => simp [BeginsTwiceEmpty, empty]
    · refine iff_of_true (acceptedKeys_of_ne_nil calls first w nothing empty calm).1 ?_
      rintro ⟨_, _, _, same, none_, -⟩
      cases same
      exact empty none_

/-- A new writer with a small filter. -/
def smallWriter : Writer := ⟨[], 4096, [], [], .new 8 1, none, 0⟩

/-- An empty key, a key, and the same key again. -/
theorem onlyAscending_empty_then_key :
    OnlyAscending (smallWriter.addSteps
      [⟨some [], some [1], false⟩, ⟨some [97], some [2], false⟩, ⟨some [97], some [3], false⟩]) := by
  refine (onlyAscending_iff ⟨fun _ => 8, fun _ => 1⟩ 4096 1 smallWriter rfl _ ?_ ?_).mpr ?_
  · intro c member
    simp only [List.mem_cons, List.not_mem_nil, or_false] at member
    rcases member with rfl | rfl | rfl
    · exact ⟨by decide, by decide⟩
    · exact ⟨by decide, by decide⟩
    · exact ⟨by decide, by decide⟩
  · unfold NoFileError
    decide +kernel
  · rintro ⟨_, _, _, same, -, second⟩
    cases same
    cases second

/-- Two calls with the empty key both succeed. -/
theorem not_onlyAscending_two_empty :
    newWriter ⟨fun _ => 8, fun _ => 1⟩ 4096 1 = .ok smallWriter ∧
      acceptedKeys (smallWriter.addSteps [⟨some [], some [1], false⟩, ⟨some [], some [2], false⟩]) =
        [[], []] ∧
      ¬OnlyAscending
        (smallWriter.addSteps [⟨some [], some [1], false⟩, ⟨some [], some [2], false⟩]) := by
  have twice : acceptedKeys (smallWriter.addSteps
      [⟨some [], some [1], false⟩, ⟨some [], some [2], false⟩]) = [[], []] := by
    decide +kernel
  refine ⟨rfl, twice, ?_⟩
  intro only
  have ascends := only.accepted
  rw [twice] at ascends
  simp at ascends

end Writer

end PebbleDB.Sst
