import PebbleDB.Sst.Format
import PebbleDB.Sst.Seek

/-!
# Parsing blocks and index

Blocks carry no checksum, so the lengths in them are whatever the file holds. Here the
loops that read a block and an index are written with every sum and every slice expression
as it is checked at run time (`Slicing`); where none of them faults, they compute what the
functions of `Block`, `Seek` and `Format` say.

The integer type is a parameter: `intMax` has to be at least `len(data) + 2^32`, since a
length of up to 32 bits is added to a position before it is compared with the length of the
data. A 64-bit `int` is that large for every slice that can be allocated.

## Main results

* `blockIterator_safe`: on any bytes `Next` and `Seek` end without a fault, in any order of
  calls, and on the bytes of appended entries `Next` enumerates these entries.
* `indexCodec_bijective`: `decodeIndex` accepts exactly the encodings of index entries.
-/
namespace PebbleDB.Sst

open Slicing

/-! ### Blocks -/

namespace BlockIterator

def nextChecked (intMax : Nat) (it : BlockIterator) : Except Fault (BlockIterator × Bool) := do
  let keyStart ← add intMax it.pos 4
  if it.data.length < keyStart then .ok (it, false)
  else do
    let keyLen ← bigEndian 4 (← sliceFrom it.data it.pos)
    let it := { it with pos := keyStart }
    let keyEnd ← add intMax it.pos keyLen
    if it.data.length < keyEnd then .ok (it, false)
    else do
      let key ← slice it.data it.pos keyEnd
      let it := { it with key := some key, pos := keyEnd }
      let valStart ← add intMax it.pos 4
      if it.data.length < valStart then .ok (it, false)
      else do
        let valLen ← bigEndian 4 (← sliceFrom it.data it.pos)
        let it := { it with pos := valStart }
        let valEnd ← add intMax it.pos valLen
        if it.data.length < valEnd then .ok (it, false)
        else do
          let val ← slice it.data it.pos valEnd
          let it := { it with val := some val, pos := valEnd }
          if it.data.length ≤ it.pos then .ok (it, false)
          else do
            let tombByte ← index it.data it.pos
            let pos ← add intMax it.pos 1
            .ok ({ it with pos := pos, tombstone := tombByte == 1 }, true)

/-- A length field that is there: the bytes are in range, and the number has 32 bits. -/
theorem lengthField (data : Bytes) (pos : Nat) (inside : pos + 4 ≤ data.length) :
    sliceFrom data pos = .ok (data.drop pos) ∧
      bigEndian 4 (data.drop pos) = .ok (beDecode ((data.drop pos).take 4)) ∧
      beDecode ((data.drop pos).take 4) < 2 ^ 32 := by
  have room : 4 ≤ (data.drop pos).length := by
    rw [List.length_drop]
    omega
  refine ⟨sliceFrom_ok data pos (by omega), bigEndian_ok 4 _ room, ?_⟩
  exact beDecode_lt_uint32 _ (by rw [List.length_take]; omega)

/-- `Next` on any bytes: no fault, the cursor stays inside, and after an entry it has moved
by its nine bytes of lengths and flag at least. -/
theorem nextChecked_eq (intMax : Nat) (it : BlockIterator) (inside : it.pos ≤ it.data.length)
    (wide : it.data.length + 2 ^ 32 ≤ intMax) :
    it.nextChecked intMax = .ok it.next ∧ it.next.1.data = it.data ∧
      it.next.1.pos ≤ it.data.length ∧ (it.next.2 = true → it.pos + 9 ≤ it.next.1.pos) := by
  obtain ⟨data, pos, key, val, tombstone⟩ := it
  dsimp only at inside wide ⊢
  unfold nextChecked next
  dsimp only
  rw [add_ok intMax pos 4 (by omega), Except.ok_bind]
  by_cases cut1 : data.length < pos + 4
  · rw [if_pos cut1, if_pos cut1]
    exact ⟨rfl, rfl, inside, by simp⟩
  obtain ⟨from1, keyField, keyBound⟩ := lengthField data pos (by omega)
  rw [if_neg cut1, if_neg cut1, from1, Except.ok_bind, keyField, Except.ok_bind]
  generalize beDecode ((data.drop pos).take 4) = keyLen at keyBound
  rw [add_ok intMax (pos + 4) keyLen (by omega), Except.ok_bind]
  by_cases cut2 : data.length < pos + 4 + keyLen
  · rw [if_pos cut2, if_pos cut2]
    exact ⟨rfl, rfl, by dsimp only; omega, by simp⟩
  rw [if_neg cut2, if_neg cut2, slice_add data (pos + 4) keyLen (by omega), Except.ok_bind,
    add_ok intMax (pos + 4 + keyLen) 4 (by omega), Except.ok_bind]
  by_cases cut3 : data.length < pos + 4 + keyLen + 4
  · rw [if_pos cut3, if_pos cut3]
    exact ⟨rfl, rfl, by dsimp only; omega, by simp⟩
  obtain ⟨from2, valField, valBound⟩ := lengthField data (pos + 4 + keyLen) (by omega)
  rw [if_neg cut3, if_neg cut3, from2, Except.ok_bind, valField, Except.ok_bind]
  generalize beDecode ((data.drop (pos + 4 + keyLen)).take 4) = valLen at valBound
  rw [add_ok intMax (pos + 4 + keyLen + 4) valLen (by omega), Except.ok_bind]
  by_cases cut4 : data.length < pos + 4 + keyLen + 4 + valLen
  · rw [if_pos cut4, if_pos cut4]
    exact ⟨rfl, rfl, by dsimp only; omega, by simp⟩
  rw [if_neg cut4, if_neg cut4, slice_add data (pos + 4 + keyLen + 4) valLen (by omega),
    Except.ok_bind]
  cases here : data.drop (pos + 4 + keyLen + 4 + valLen) with
  | nil =>
    have stop := List.drop_eq_nil_iff.mp here
    rw [if_pos stop]
    exact ⟨rfl, rfl, by dsimp only; omega, by simp⟩
  | cons tombByte rest =>
    have more : ¬data.length ≤ pos + 4 + keyLen + 4 + valLen := by
      intro stop
      rw [List.drop_of_length_le stop] at here
      cases here
    rw [if_neg more, index_ok data rest tombByte _ here, Except.ok_bind,
      add_ok intMax (pos + 4 + keyLen + 4 + valLen) 1 (by omega), Except.ok_bind]
    exact ⟨rfl, rfl, by dsimp only; omega, by intro; dsimp only; omega⟩

/-- The entry the iterator stands on. -/
def entry (it : BlockIterator) : Entry := ⟨it.key.bytes, it.val.bytes, it.tombstone⟩

/-- `for it.Next()`, with the entries seen so far. -/
def nextTurn (intMax : Nat) (s : BlockIterator × List Entry) :
    Except Fault (Turn (BlockIterator × List Entry) (BlockIterator × List Entry)) := do
  match ← s.1.nextChecked intMax with
  | (it, true) => .ok (.again (it, s.2 ++ [it.entry]))
  | (it, false) => .ok (.done (it, s.2))

/-- All calls of `Next` up to the first that returns false: where the iterator is then, and
the entries it stood on. -/
def iterate (intMax fuel : Nat) (it : BlockIterator) :
    Except Fault (Option (BlockIterator × List Entry)) := loop (nextTurn intMax) fuel (it, [])

/-- The loop of `Seek`. -/
def seekTurn (intMax : Nat) (key : Bytes) (it : BlockIterator) :
    Except Fault (Turn BlockIterator (BlockIterator × Bool)) := do
  match ← it.nextChecked intMax with
  | (it, true) => if key ≤ it.key.bytes then .ok (.done (it, true)) else .ok (.again it)
  | (it, false) => .ok (.done ({ it with key := none, val := none }, false))

def seekChecked (intMax fuel : Nat) (it : BlockIterator) (key : Bytes) :
    Except Fault (Option (BlockIterator × Bool)) :=
  loop (seekTurn intMax key) fuel
    { it with pos := 0, key := none, val := none, tombstone := false }

inductive Call where
  | next
  | seek (key : Bytes)

/-- A caller that calls `Next` and `Seek` as it likes, also after `Next` has failed. -/
def callsChecked (intMax fuel : Nat) :
    BlockIterator → List Call → Except Fault (Option BlockIterator)
  | it, [] => .ok (some it)
  | it, .next :: calls => do
    let (it, _) ← it.nextChecked intMax
    callsChecked intMax fuel it calls
  | it, .seek key :: calls => do
    match ← it.seekChecked intMax fuel key with
    | some (it, _) => callsChecked intMax fuel it calls
    | none => .ok none

/-- An iterator over these bytes with its cursor inside them. -/
structure Inside (data : Bytes) (it : BlockIterator) : Prop where
  bytes : it.data = data
  cursor : it.pos ≤ data.length

theorem Inside.new (data : Bytes) : (new data).Inside data := ⟨rfl, Nat.zero_le _⟩

/-- The same loop without the checks. -/
def collectFrom : Nat → BlockIterator × List Entry → BlockIterator × List Entry
  | 0, s => s
  | fuel + 1, s =>
    match s.1.next with
    | (it, true) => collectFrom fuel (it, s.2 ++ [it.entry])
    | (it, false) => (it, s.2)

theorem Inside.after_next (data : Bytes) (it : BlockIterator) (inside : it.Inside data) :
    it.next.1.Inside data := by
  obtain ⟨rfl, bound⟩ := inside
  obtain ⟨-, same, moved, -⟩ := it.nextChecked_eq _ bound (Nat.le_refl _)
  exact ⟨same, moved⟩

theorem Inside.collectFrom (data : Bytes) (fuel : Nat) (s : BlockIterator × List Entry)
    (inside : s.1.Inside data) : (collectFrom fuel s).1.Inside data := by
  induction fuel generalizing s with
  | zero => exact inside
  | succ fuel ih =>
    have kept := inside.after_next data s.1
    rw [BlockIterator.collectFrom]
    rcases step : s.1.next with ⟨it, moved⟩
    rw [step] at kept
    cases moved with
    | true => exact ih _ kept
    | false => exact kept

theorem Inside.seekFrom (data key : Bytes) (fuel : Nat) (it : BlockIterator)
    (inside : it.Inside data) : (seekFrom key fuel it).1.Inside data := by
  induction fuel generalizing it with
  | zero => exact inside
  | succ fuel ih =>
    have kept := inside.after_next data it
    rw [BlockIterator.seekFrom]
    rcases step : it.next with ⟨it', moved⟩
    rw [step] at kept
    cases moved with
    | true =>
      dsimp only
      split
      · exact kept
      · exact ih it' kept
    | false => exact ⟨kept.bytes, kept.cursor⟩

/-- `Seek` starts from the first byte, wherever the cursor is. -/
theorem Inside.seek (data : Bytes) (it : BlockIterator) (inside : it.Inside data) (key : Bytes) :
    (it.seek key).1.Inside data :=
  Inside.seekFrom data key _ _ ⟨inside.bytes, Nat.zero_le _⟩

section

variable (intMax : Nat) (data : Bytes) (wide : data.length + 2 ^ 32 ≤ intMax)

include wide

theorem Inside.next (it : BlockIterator) (inside : it.Inside data) :
    it.nextChecked intMax = .ok it.next ∧ it.next.1.Inside data ∧
      (it.next.2 = true → it.pos + 9 ≤ it.next.1.pos) := by
  obtain ⟨rfl, bound⟩ := inside
  obtain ⟨checked, same, moved, further⟩ := it.nextChecked_eq intMax bound wide
  exact ⟨checked, ⟨same, moved⟩, further⟩

/-- Every turn of the loop over `Next` moves the cursor. -/
theorem iterate_eq (it : BlockIterator) (inside : it.Inside data) (fuel : Nat)
    (enough : data.length < fuel) :
    it.iterate intMax fuel = .ok (some (collectFrom (data.length + 1) (it, []))) := by
  refine loop_eq (nextTurn intMax) (fun s => s.1.Inside data) (fun s => data.length - s.1.pos)
    collectFrom ?_ (it, []) inside fuel (data.length + 1) (by dsimp only; omega)
    (by dsimp only; omega)
  rintro n ⟨it, out⟩ inside
  obtain ⟨checked, kept, further⟩ := inside.next intMax data wide it
  have bound := kept.cursor
  rw [nextTurn, checked, Except.ok_bind, collectFrom]
  rcases step : it.next with ⟨it', moved⟩
  rw [step] at kept further bound
  cases moved with
  | true =>
    have advance := further rfl
    dsimp only at advance bound
    exact .inl ⟨(it', out ++ [it'.entry]), rfl, kept, by dsimp only; omega, rfl⟩
  | false => exact .inr rfl

theorem seekChecked_eq (it : BlockIterator) (bytes : it.data = data) (key : Bytes) (fuel : Nat)
    (enough : data.length < fuel) :
    it.seekChecked intMax fuel key = .ok (some (it.seek key)) := by
  unfold seekChecked seek
  rw [bytes]
  refine loop_eq (seekTurn intMax key) (fun it => it.Inside data) (fun it => data.length - it.pos)
    (seekFrom key) ?_ _ ⟨rfl, Nat.zero_le _⟩ fuel (data.length + 1) (by dsimp only; omega)
    (by dsimp only; omega)
  intro n it inside
  obtain ⟨checked, kept, further⟩ := inside.next intMax data wide it
  have bound := kept.cursor
  rw [seekTurn, checked, Except.ok_bind, seekFrom]
  rcases step : it.next with ⟨it', moved⟩
  rw [step] at kept further bound
  cases moved with
  | true =>
    have advance := further rfl
    dsimp only at advance bound ⊢
    by_cases reached : key ≤ it'.key.bytes
    · rw [if_pos reached, if_pos reached]
      exact .inr rfl
    · rw [if_neg reached, if_neg reached]
      exact .inl ⟨it', rfl, kept, by omega, rfl⟩
  | false => exact .inr rfl

theorem callsChecked_ok (calls : List Call) (it : BlockIterator) (inside : it.Inside data)
    (fuel : Nat) (enough : data.length < fuel) :
    ∃ it', callsChecked intMax fuel it calls = .ok (some it') ∧ it'.Inside data := by
  induction calls generalizing it with
  | nil => exact ⟨it, rfl, inside⟩
  | cons call calls ih =>
    cases call with
    | next =>
      obtain ⟨checked, kept, -⟩ := inside.next intMax data wide it
      rw [callsChecked, checked, Except.ok_bind]
      exact ih it.next.1 kept
    | seek key =>
      have checked := seekChecked_eq intMax data wide it inside.bytes key fuel enough
      rw [callsChecked, checked, Except.ok_bind]
      exact ih (it.seek key).1 (inside.seek data it key)

end

/-- On encoded entries the loop hands out these entries and stops at the end. -/
theorem collectFrom_entries (es : List Entry) (fits : ∀ e ∈ es, e.Fits) (it : BlockIterator)
    (rest : it.Remaining es) (out : List Entry) (fuel : Nat) (enough : es.length < fuel) :
    ∃ it', collectFrom fuel (it, out) = (it', out ++ es) ∧ it'.next = (it', false) := by
  induction es generalizing it out fuel with
  | nil =>
    cases fuel with
    | zero => exact absurd enough (Nat.not_lt_zero _)
    | succ fuel =>
      have stop := it.next_end rest
      refine ⟨it, ?_, stop⟩
      rw [collectFrom, stop, List.append_nil]
  | cons e es ih =>
    cases fuel with
    | zero => exact absurd enough (Nat.not_lt_zero _)
    | succ fuel =>
      have step := it.next_entry e es (fits e (by simp)) rest
      have onward := it.next_remaining e es (fits e (by simp)) rest
      rw [List.length_cons] at enough
      obtain ⟨it', collected, stop⟩ := ih (fun x member => fits x (by simp [member])) it.next.1
        onward (out ++ [e]) fuel (by omega)
      refine ⟨it', ?_, stop⟩
      rw [step] at collected
      rw [collectFrom, step]
      simpa [entry] using collected

end BlockIterator

/-- A block after a sequence of `Append` calls, none of which was refused. -/
theorem foldlM_appendEntry (es : List Entry) (block data : Bytes)
    (appended : es.foldlM appendEntry block = .ok data) :
    data = block ++ blockBytes es ∧ ∀ e ∈ es, e.Fits := by
  induction es generalizing block with
  | nil =>
    cases appended
    simp [blockBytes]
  | cons e es ih =>
    rw [List.foldlM_cons] at appended
    obtain ⟨block', first, later⟩ := (Except.bind_eq_ok _ _ _).mp appended
    unfold appendEntry at first
    split at first
    · cases first
    next small =>
      cases first
      obtain ⟨bytes, fits⟩ := ih _ later
      refine ⟨by rw [bytes, blockBytes_cons, List.append_assoc], ?_⟩
      intro x member
      rcases List.mem_cons.mp member with rfl | behind
      · exact ⟨by omega, by omega⟩
      · exact fits x behind

/-- For any bytes, and an integer type that holds `len(data) + 2^32`:

* iterating with `Next` meets no fault and ends, with a result that more turns do not change;
* so does `Seek` for any target, from any state of the iterator;
* any sequence of the two calls meets no fault;
* if the bytes come from a sequence of `Append` calls, `Next` stands on exactly these
  entries, one after another, and then returns false. -/
theorem blockIterator_safe (data : Bytes) (intMax : Nat) (wide : data.length + 2 ^ 32 ≤ intMax) :
    (∃ result, ∀ fuel, data.length < fuel →
      (BlockIterator.new data).iterate intMax fuel = .ok (some result)) ∧
    (∀ it : BlockIterator, it.data = data → ∀ target, ∃ result, ∀ fuel, data.length < fuel →
      it.seekChecked intMax fuel target = .ok (some result)) ∧
    (∀ calls fuel, data.length < fuel →
      ∃ it, BlockIterator.callsChecked intMax fuel (BlockIterator.new data) calls =
        .ok (some it)) ∧
    ∀ es : List Entry, es.foldlM appendEntry [] = .ok data →
      ∃ it, (∀ fuel, data.length < fuel →
        (BlockIterator.new data).iterate intMax fuel = .ok (some (it, es))) ∧
        it.nextChecked intMax = .ok (it, false) := by
  have start := BlockIterator.Inside.new data
  refine ⟨?_, ?_, ?_, ?_⟩
  · exact ⟨_, BlockIterator.iterate_eq intMax data wide _ start⟩
  · intro it bytes target
    exact ⟨_, BlockIterator.seekChecked_eq intMax data wide it bytes target⟩
  · intro calls fuel enough
    obtain ⟨it, ran, -⟩ := BlockIterator.callsChecked_ok intMax data wide calls _ start fuel enough
    exact ⟨it, ran⟩
  · intro es appended
    obtain ⟨bytes, fits⟩ := foldlM_appendEntry es [] data appended
    rw [List.nil_append] at bytes
    have size := length_le_blockBytes es
    rw [← bytes] at size
    obtain ⟨it, collected, stop⟩ := BlockIterator.collectFrom_entries es fits
      (BlockIterator.new data) (bytes ▸ BlockIterator.new_remaining es) [] (data.length + 1)
      (by omega)
    have last := start.collectFrom data (data.length + 1) (BlockIterator.new data, [])
    rw [collected] at last
    refine ⟨it, ?_, ?_⟩
    · intro fuel enough
      rw [BlockIterator.iterate_eq intMax data wide _ start fuel enough, collected,
        List.nil_append]
    · rw [(last.next intMax data wide it).1, stop]

/-- Two entries and a 64-bit `int`. -/
theorem blockIterator_safe_two_entries :
    ∃ it, (∀ fuel, 21 < fuel →
      (BlockIterator.new (blockBytes [⟨[97], [1], false⟩, ⟨[98], [], true⟩])).iterate (2 ^ 63 - 1)
          fuel = .ok (some (it, [⟨[97], [1], false⟩, ⟨[98], [], true⟩]))) ∧
      it.nextChecked (2 ^ 63 - 1) = .ok (it, false) :=
  (blockIterator_safe (blockBytes [⟨[97], [1], false⟩, ⟨[98], [], true⟩]) (2 ^ 63 - 1)
    (by decide)).2.2.2 [⟨[97], [1], false⟩, ⟨[98], [], true⟩] (by decide)

/-! ### The index -/

/-- The loop of `decodeIndex`, with the position and the entries so far. -/
def indexTurn (intMax : Nat) (data : Bytes) (s : Nat × List IndexEntry) :
    Except Fault (Turn (Nat × List IndexEntry) (Except Error (List IndexEntry))) :=
  if data.length ≤ s.1 then .ok (.done (.ok s.2))
  else do
    let keyStart ← add intMax s.1 4
    if data.length < keyStart then .ok (.done (.error .corruptIndex))
    else do
      let keyLen ← bigEndian 4 (← sliceFrom data s.1)
      let keyEnd ← add intMax keyStart keyLen
      if data.length < keyEnd then .ok (.done (.error .corruptIndex))
      else do
        let lastKey ← slice data keyStart keyEnd
        let entryEnd ← add intMax keyEnd 16
        if data.length < entryEnd then .ok (.done (.error .corruptIndex))
        else do
          let offset ← bigEndian 8 (← sliceFrom data keyEnd)
          let pos ← add intMax keyEnd 8
          let length ← bigEndian 8 (← sliceFrom data pos)
          let pos ← add intMax pos 8
          .ok (.again (pos, s.2 ++ [⟨lastKey, offset, length⟩]))

def decodeIndexChecked (intMax fuel : Nat) (data : Bytes) :
    Except Fault (Option (Except Error (List IndexEntry))) :=
  loop (indexTurn intMax data) fuel (0, [])

/-- What is still to be decoded, behind the entries so far. -/
def decodeIndexRest (data : Bytes) (fuel : Nat) (s : Nat × List IndexEntry) :
    Except Error (List IndexEntry) := (decodeIndexFrom fuel (data.drop s.1)).map (s.2 ++ ·)

/-- Eight bytes that are there. -/
theorem offsetField (data : Bytes) (pos : Nat) (inside : pos + 8 ≤ data.length) :
    sliceFrom data pos = .ok (data.drop pos) ∧
      bigEndian 8 (data.drop pos) = .ok (beDecode ((data.drop pos).take 8)) := by
  refine ⟨sliceFrom_ok data pos (by omega), bigEndian_ok 8 _ ?_⟩
  rw [List.length_drop]
  omega

theorem indexTurn_eq (intMax : Nat) (data : Bytes) (wide : data.length + 2 ^ 32 ≤ intMax)
    (n : Nat) (s : Nat × List IndexEntry) (inside : s.1 ≤ data.length) :
    (∃ s', indexTurn intMax data s = .ok (.again s') ∧ s'.1 ≤ data.length ∧
      data.length - s'.1 < data.length - s.1 ∧
      decodeIndexRest data (n + 1) s = decodeIndexRest data n s') ∨
    indexTurn intMax data s = .ok (.done (decodeIndexRest data (n + 1) s)) := by
  obtain ⟨pos, entries⟩ := s
  unfold indexTurn decodeIndexRest
  dsimp only at inside ⊢
  rw [decodeIndexFrom]
  by_cases stop : data.length ≤ pos
  · rw [if_pos stop, List.drop_of_length_le stop, if_pos rfl]
    exact .inr (by simp [Except.map])
  have more : data.drop pos ≠ [] := fun empty => stop (List.drop_eq_nil_iff.mp empty)
  rw [if_neg stop, if_neg more, add_ok intMax pos 4 (by omega), Except.ok_bind, List.length_drop]
  by_cases cut1 : data.length < pos + 4
  · rw [if_pos cut1, if_pos (by omega)]
    exact .inr rfl
  obtain ⟨from1, keyField, keyBound⟩ := BlockIterator.lengthField data pos (by omega)
  rw [if_neg cut1, if_neg (by omega), from1, Except.ok_bind, keyField, Except.ok_bind]
  dsimp only
  rw [List.drop_drop]
  generalize beDecode ((data.drop pos).take 4) = keyLen at keyBound
  rw [add_ok intMax (pos + 4) keyLen (by omega), Except.ok_bind, List.length_drop]
  by_cases cut2 : data.length < pos + 4 + keyLen
  · rw [if_pos cut2, if_pos (by omega)]
    exact .inr rfl
  rw [if_neg cut2, if_neg (by omega), slice_add data (pos + 4) keyLen (by omega), Except.ok_bind,
    add_ok intMax (pos + 4 + keyLen) 16 (by omega), Except.ok_bind, List.drop_drop,
    List.length_drop]
  by_cases cut3 : data.length < pos + 4 + keyLen + 16
  · rw [if_pos cut3, if_pos (by omega)]
    exact .inr rfl
  obtain ⟨from2, offset⟩ := offsetField data (pos + 4 + keyLen) (by omega)
  obtain ⟨from3, length⟩ := offsetField data (pos + 4 + keyLen + 8) (by omega)
  rw [if_neg cut3, if_neg (by omega), from2, Except.ok_bind, offset, Except.ok_bind,
    add_ok intMax (pos + 4 + keyLen) 8 (by omega), Except.ok_bind, from3, Except.ok_bind, length,
    Except.ok_bind, add_ok intMax (pos + 4 + keyLen + 8) 8 (by omega), Except.ok_bind,
    List.drop_drop, List.drop_drop]
  refine .inl ⟨_, rfl, by dsimp only; omega, by dsimp only; omega, ?_⟩
  cases decodeIndexFrom n (data.drop (pos + 4 + keyLen + 16)) with
  | error e => rfl
  | ok rest => simp [Except.map]

/-- A turn that does not stop has read the encoding of an entry. -/
theorem decodeIndexFrom_entry (fuel : Nat) (data : Bytes) (entries : List IndexEntry)
    (more : data ≠ []) (accepted : decodeIndexFrom (fuel + 1) data = .ok entries) :
    ∃ e tail rest, entries = e :: rest ∧ data = e.encoded ++ tail ∧ e.Fits ∧
      decodeIndexFrom fuel tail = .ok rest := by
  rw [decodeIndexFrom, if_neg more] at accepted
  by_cases cut1 : data.length < 4
  · rw [if_pos cut1] at accepted
    cases accepted
  rw [if_neg cut1] at accepted
  dsimp only at accepted
  have keyField : (data.take 4).length = 4 := by rw [List.length_take]; omega
  have keyBound := beDecode_lt_uint32 _ keyField
  have keyBytes := putUint32_beDecode _ keyField
  generalize beDecode (data.take 4) = keyLen at accepted keyBound keyBytes
  by_cases cut2 : (data.drop 4).length < keyLen
  · rw [if_pos cut2] at accepted
    cases accepted
  rw [if_neg cut2] at accepted
  by_cases cut3 : ((data.drop 4).drop keyLen).length < 16
  · rw [if_pos cut3] at accepted
    cases accepted
  rw [if_neg cut3] at accepted
  obtain ⟨rest, decoded, same⟩ := (Except.bind_eq_ok _ _ _).mp accepted
  cases same
  -- key, offset and length have the sizes their fields announce
  have keyLength : ((data.drop 4).take keyLen).length = keyLen := by rw [List.length_take]; omega
  generalize tailIs : (data.drop 4).drop keyLen = tail at cut3 decoded
  have offsetLength : (tail.take 8).length = 8 := by rw [List.length_take]; omega
  have lengthLength : ((tail.drop 8).take 8).length = 8 := by
    rw [List.length_take, List.length_drop]
    omega
  refine ⟨_, tail.drop 16, rest, rfl, ?_, ⟨by rw [keyLength]; exact keyBound,
    beDecode_lt_uint64 _ offsetLength, beDecode_lt_uint64 _ lengthLength⟩, decoded⟩
  have sixteen : tail.drop 16 = (tail.drop 8).drop 8 := by rw [List.drop_drop]
  rw [IndexEntry.encoded, keyLength, keyBytes, putUint64_beDecode _ offsetLength,
    putUint64_beDecode _ lengthLength, sixteen]
  simp only [List.append_assoc, List.take_append_drop]
  rw [← tailIs, List.take_append_drop, List.take_append_drop]

/-- What is accepted is the encoding of the entries that are returned. -/
theorem decodeIndexFrom_sound (fuel : Nat) (data : Bytes) (entries : List IndexEntry)
    (enough : data.length ≤ fuel) (accepted : decodeIndexFrom fuel data = .ok entries) :
    (∀ e ∈ entries, e.Fits) ∧ encodeIndex entries = data := by
  induction fuel generalizing data entries with
  | zero =>
    cases accepted
    exact ⟨by simp, (List.eq_nil_of_length_eq_zero (Nat.le_zero.mp enough)).symm⟩
  | succ fuel ih =>
    by_cases empty : data = []
    · rw [decodeIndexFrom, if_pos empty] at accepted
      cases accepted
      exact ⟨by simp, empty.symm⟩
    · obtain ⟨e, tail, rest, rfl, rfl, fits, decoded⟩ :=
        decodeIndexFrom_entry fuel data entries empty accepted
      rw [List.length_append, e.encoded_length] at enough
      obtain ⟨allFit, bytes⟩ := ih tail rest (by omega) decoded
      refine ⟨?_, by rw [encodeIndex, List.flatMap_cons, ← encodeIndex, bytes]⟩
      intro x member
      rcases List.mem_cons.mp member with rfl | behind
      · exact fits
      · exact allFit x behind

theorem decodeIndexFrom_error (fuel : Nat) (data : Bytes) (e : Error)
    (refused : decodeIndexFrom fuel data = .error e) : e = .corruptIndex := by
  induction fuel generalizing data with
  | zero => cases refused
  | succ fuel ih =>
    rw [decodeIndexFrom] at refused
    dsimp only at refused
    split at refused
    · cases refused
    · split at refused
      · cases refused
        rfl
      · split at refused
        · cases refused
          rfl
        · split at refused
          · cases refused
            rfl
          · rcases (Except.bind_eq_error _ _ _).mp refused with later | ⟨_, _, same⟩
            · exact ih _ later
            · cases same

theorem decodeIndexFrom_iff (fuel : Nat) (data : Bytes) (entries : List IndexEntry)
    (enough : data.length ≤ fuel) :
    decodeIndexFrom fuel data = .ok entries ↔
      (∀ e ∈ entries, e.Fits) ∧ encodeIndex entries = data := by
  constructor
  · exact decodeIndexFrom_sound fuel data entries enough
  · rintro ⟨fits, rfl⟩
    exact decodeIndexFrom_encoded entries fits fuel enough

/-- More turns than bytes change nothing. -/
theorem decodeIndexFrom_fuel (data : Bytes) (fuel : Nat) (enough : data.length ≤ fuel) :
    decodeIndexFrom fuel data = decodeIndex data := by
  cases decoded : decodeIndex data with
  | ok entries =>
    exact (decodeIndexFrom_iff fuel data entries enough).mpr
      ((decodeIndexFrom_iff _ data entries (Nat.le_refl _)).mp decoded)
  | error e =>
    cases again : decodeIndexFrom fuel data with
    | ok entries =>
      have accepted := (decodeIndexFrom_iff _ data entries (Nat.le_refl _)).mpr
        ((decodeIndexFrom_iff fuel data entries enough).mp again)
      rw [decodeIndex, accepted] at decoded
      cases decoded
    | error e' =>
      rw [decodeIndexFrom_error _ _ _ decoded, decodeIndexFrom_error _ _ _ again]

/-- On any bytes the loop ends without a fault. -/
theorem decodeIndexChecked_eq (intMax : Nat) (data : Bytes)
    (wide : data.length + 2 ^ 32 ≤ intMax) (fuel : Nat) (enough : data.length < fuel) :
    decodeIndexChecked intMax fuel data = .ok (some (decodeIndex data)) := by
  have whole : decodeIndexRest data (data.length + 1) (0, []) = decodeIndex data := by
    rw [decodeIndexRest, List.drop_zero, decodeIndexFrom_fuel data _ (Nat.le_succ _)]
    cases decodeIndex data with
    | error e => rfl
    | ok entries => rfl
  rw [← whole]
  exact loop_eq (indexTurn intMax data) (fun s => s.1 ≤ data.length) (fun s => data.length - s.1)
    (decodeIndexRest data) (indexTurn_eq intMax data wide) (0, []) (Nat.zero_le _) fuel
    (data.length + 1) (by dsimp only; omega) (by dsimp only; omega)

/-- For any bytes, and an integer type that holds `len(data) + 2^32`: `decodeIndex` ends
without a fault; it returns a list of entries if and only if the bytes are the encoding of
this list; and if they are the encoding of none, it returns `ErrCorruptIndex`. -/
theorem indexCodec_bijective (data : Bytes) (intMax : Nat)
    (wide : data.length + 2 ^ 32 ≤ intMax) :
    ∃ result, (∀ fuel, data.length < fuel →
        decodeIndexChecked intMax fuel data = .ok (some result)) ∧
      (∀ entries, result = .ok entries ↔
        (∀ e ∈ entries, e.Fits) ∧ encodeIndex entries = data) ∧
      ((¬∃ entries, (∀ e ∈ entries, e.Fits) ∧ encodeIndex entries = data) →
        result = .error .corruptIndex) := by
  have accepts := fun entries => decodeIndexFrom_iff data.length data entries (Nat.le_refl _)
  refine ⟨decodeIndex data, decodeIndexChecked_eq intMax data wide, accepts, ?_⟩
  intro none_
  cases decoded : decodeIndex data with
  | ok entries => exact absurd ⟨entries, (accepts entries).mp decoded⟩ none_
  | error e => rw [decodeIndexFrom_error _ _ _ decoded]

/-- An index of one entry and a 64-bit `int`. -/
theorem indexCodec_bijective_one_entry :
    ∃ result, (∀ fuel, 21 < fuel → decodeIndexChecked (2 ^ 63 - 1) fuel
        (encodeIndex [⟨[97], 0, 2 ^ 64 - 1⟩]) = .ok (some result)) ∧
      result = .ok [⟨[97], 0, 2 ^ 64 - 1⟩] := by
  obtain ⟨result, ends, accepts, -⟩ := indexCodec_bijective
    (encodeIndex [⟨[97], 0, 2 ^ 64 - 1⟩]) (2 ^ 63 - 1) (by decide)
  refine ⟨result, ends, (accepts _).mpr ⟨?_, rfl⟩⟩
  intro e member
  rw [List.mem_singleton.mp member]
  exact ⟨by decide, by decide, by decide⟩

end PebbleDB.Sst
