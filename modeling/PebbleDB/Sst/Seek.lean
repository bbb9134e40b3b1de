import PebbleDB.Iterator.MergeIterator
import PebbleDB.Sst.RoundTrip

/-!
# Seeking in a table

`Iterator.Seek` finds the block of a key through the index and walks inside the block to
the first entry at the key or above it. Wherever the iterator stood before, it then
yields the entries of the table from that key on.
-/
namespace PebbleDB.Sst

namespace BlockIterator

/-- The loop of `Seek`. -/
def seekFrom (key : Bytes) : Nat → BlockIterator → BlockIterator × Bool
  | 0, it => (it, false)
  | fuel + 1, it =>
    match it.next with
    -- the end of the block, or an entry that does not parse
    | (it, false) => ({ it with key := none, val := none }, false)
    | (it, true) => if key ≤ it.key.bytes then (it, true) else seekFrom key fuel it

def seek (it : BlockIterator) (key : Bytes) : BlockIterator × Bool :=
  seekFrom key (it.data.length + 1) { it with pos := 0, key := none, val := none, tombstone := false }

end BlockIterator

namespace Iterator

/-- The loop of `Seek` over the blocks from `blockIdx` on. -/
def seekBlocks (key : Bytes) : Nat → Nat → Iterator → Asking (Iterator × Option Error)
  | 0, _, it => .done ({ it with valid := false }, none)
  | fuel + 1, blockIdx, it =>
    match it.reader.index[blockIdx]? with
    | none => .done ({ it with valid := false }, none)
    | some entry => .ask (blockIdx, entry) fun
      | .error e => .done ({ it with err := some e, valid := false }, some e)
      | .ok blockData =>
        match (BlockIterator.new blockData).seek key with
        | (blockIt, true) =>
          .done ({ it with
              nextBlock := blockIdx + 1
              blockIt := some blockIt
              key := blockIt.getKey
              value := blockIt.getValue
              tombstone := blockIt.tombstone
              valid := true }, none)
        -- no entry of this block reaches the key: the next block
        | (_, false) => seekBlocks key fuel (blockIdx + 1) it

def askSeek (it : Iterator) (key : Bytes) : Asking (Iterator × Option Error) :=
  let it := { it with err := none }
  if it.reader.index.length = 0 then .done ({ it with valid := false }, none)
  else if key.length = 0 then
    -- back to the first entry
    (askAdvance { it with nextBlock := 0, blockIt := none }).map fun it => (it, it.err)
  else
    let idx := Search.search it.reader.index.length (reaches it.reader.index key)
    if it.reader.index.length ≤ idx then .done ({ it with valid := false }, none)
    else seekBlocks key (it.reader.index.length + 1) idx it

def seek (it : Iterator) (key : Bytes) : Iterator × Option Error :=
  (it.askSeek key).run (it.reader.readBlockWith noFaults)

/-- `iterAdapter` and `sstableIter` with their `Seek`. -/
def seekAdapter : Iterator.SeekInterface Iterator Error where
  toInterface := adapter
  seek := seek

end Iterator

/-! ### Inside a block -/

/-- The walk stops at the first entry that is not below the key. -/
theorem BlockIterator.seekFrom_entry (key : Bytes) (front : List Entry) (e : Entry)
    (back : List Entry) (fits : ∀ x ∈ front ++ e :: back, x.Fits)
    (below : ∀ x ∈ front, x.key < key) (reached : key ≤ e.key) (fuel : Nat) (it : BlockIterator)
    (rest : it.Remaining (front ++ e :: back)) (enough : front.length < fuel) :
    ∃ it', seekFrom key fuel it = (it', true) ∧ it'.key = some e.key ∧ it'.val = some e.value ∧
      it'.tombstone = e.tombstone ∧ it'.Remaining back := by
  induction front generalizing fuel it with
  | nil =>
    cases fuel with
    | zero => omega
    | succ fuel =>
      have step := it.next_entry e back (fits e (by simp)) rest
      have onward := it.next_remaining e back (fits e (by simp)) rest
      refine ⟨it.next.1, ?_, ?_, ?_, ?_, onward⟩
      · rw [seekFrom, step]
        simp only [Slice.bytes_some, reached, if_true]
      · rw [step]
      · rw [step]
      · rw [step]
  | cons x front ih =>
    cases fuel with
    | zero => omega
    | succ fuel =>
      have fitsHere : x.Fits := fits x (by simp)
      have step := it.next_entry x _ fitsHere rest
      have onward := it.next_remaining x _ fitsHere rest
      rw [step] at onward
      -- an entry in front of the key is passed over
      have skip : ¬key ≤ x.key := not_le.mpr (below x (by simp))
      obtain ⟨it', found, more⟩ := ih (fun y member => fits y (by simp [member]))
        (fun y member => below y (by simp [member])) fuel _ onward (by simpa using enough)
      refine ⟨it', ?_, more⟩
      rw [seekFrom, step]
      simp only [Slice.bytes_some, skip, if_false]
      exact found

theorem BlockIterator.seek_entry (key : Bytes) (front : List Entry) (e : Entry) (back : List Entry)
    (fits : ∀ x ∈ front ++ e :: back, x.Fits) (below : ∀ x ∈ front, x.key < key)
    (reached : key ≤ e.key) :
    ∃ it', (BlockIterator.new (blockBytes (front ++ e :: back))).seek key = (it', true) ∧
      it'.key = some e.key ∧ it'.val = some e.value ∧ it'.tombstone = e.tombstone ∧
      it'.Remaining back := by
  -- every entry takes at least a byte, so the rounds suffice
  have room := length_le_blockBytes (front ++ e :: back)
  rw [List.length_append, List.length_cons] at room
  exact seekFrom_entry key front e back fits below reached
    ((blockBytes (front ++ e :: back)).length + 1) _ (new_remaining _) (by omega)

/-- The first entry at the key or above it, in a block that reaches the key. -/
theorem exists_first_from (key : Bytes) (block : List Entry) (nonempty : block ≠ [])
    (reached : key ≤ lastKeyOf block) :
    ∃ front e back, block = front ++ e :: back ∧ (∀ x ∈ front, x.key < key) ∧ key ≤ e.key := by
  obtain ⟨last, member, lastKey⟩ := lastKeyOf_mem block nonempty
  have some_ : (block.find? fun e => decide (key ≤ e.key)).isSome = true := by
    rw [List.find?_isSome]
    exact ⟨last, member, by simpa [lastKey] using reached⟩
  obtain ⟨e, found⟩ := Option.isSome_iff_exists.mp some_
  obtain ⟨atLeast, front, back, split, skipped⟩ := List.find?_eq_some_iff_append.mp found
  exact ⟨front, e, back, split, fun x inside => by simpa using skipped x inside,
    by simpa using atLeast⟩

/-! ### Over the blocks -/

/-- What the readers ask for, whatever they are answered: blocks of their own index. -/
theorem Reader.askGet_all (r : Reader) (key : Bytes) :
    (r.askGet key).All (·.2 ∈ r.index) fun _ => True := by
  rw [askGet]
  split
  · dsimp only
    split
    · trivial
    next e found => exact ⟨List.mem_of_getElem? found, fun _ => trivial⟩
  · trivial

theorem Iterator.advanceFrom_all (fuel : Nat) (it : Iterator) :
    (advanceFrom fuel it).All (·.2 ∈ it.reader.index) fun it' => it'.reader = it.reader := by
  induction fuel generalizing it with
  | zero => rfl
  | succ fuel ih =>
    rw [advanceFrom]
    split
    · rfl
    · dsimp only
      split
      · rfl
      next entry found =>
        refine ⟨List.mem_of_getElem? found, ?_⟩
        rintro (e | blockData)
        · rfl
        · exact ih { it with
            blockIt := some (.new blockData), nextBlock := it.nextBlock + 1 }

theorem Iterator.askNext_all (it : Iterator) :
    it.askNext.All (·.2 ∈ it.reader.index) fun it' => it'.reader = it.reader := by
  rw [askNext]
  split
  · exact advanceFrom_all _ it
  · rfl

theorem Iterator.seekBlocks_all (key : Bytes) (fuel n : Nat) (it : Iterator) :
    (seekBlocks key fuel n it).All (·.2 ∈ it.reader.index)
      fun sought => sought.1.reader = it.reader := by
  induction fuel generalizing n with
  | zero => rfl
  | succ fuel ih =>
    rw [seekBlocks]
    split
    · rfl
    next entry found =>
      refine ⟨List.mem_of_getElem? found, ?_⟩
      rintro (e | blockData)
      · rfl
      · dsimp only
        split
        · rfl
        · exact ih (n + 1)

theorem Iterator.askSeek_all (it : Iterator) (key : Bytes) :
    (it.askSeek key).All (·.2 ∈ it.reader.index) fun sought => sought.1.reader = it.reader := by
  rw [askSeek]
  dsimp only
  split
  · rfl
  · split
    · have all := advanceFrom_all (it.reader.index.length + 2)
        { it with err := none, nextBlock := 0, blockIt := none }
      exact all.map _ (fun it => (it, it.err)) fun _ same => same
    · split
      · rfl
      · exact seekBlocks_all key _ _ { it with err := none }

theorem Reader.askIterator_all (r : Reader) :
    r.askIterator.All (·.2 ∈ r.index) fun it => it.reader = r :=
  Iterator.advanceFrom_all _ (.start r)

theorem Reader.newIterator_reader (r : Reader) : r.newIterator.reader = r :=
  r.askIterator_all.run _ _

theorem Iterator.next_reader (it : Iterator) : it.next.reader = it.reader :=
  it.askNext_all.run _ _

theorem Iterator.seek_reader (it : Iterator) (key : Bytes) :
    (it.seek key).1.reader = it.reader :=
  (it.askSeek_all key).run _ _

/-- The block at the index position holds the first entry at the key or above it. -/
theorem Iterator.seekBlocks_yields (key : Bytes) (fuel n : Nat) (it : Iterator) (front : List Entry)
    (e : Entry) (rear : List Entry) (after : List (List Entry)) (clean : it.err = none)
    (fits : ∀ x ∈ (front ++ e :: rear) ++ after.flatten, x.Fits) (below : ∀ x ∈ front, x.key < key)
    (reached : key ≤ e.key)
    (blocks : List.Forall₂ (Indexes it.reader) (it.reader.index.drop n)
      ((front ++ e :: rear) :: after)) :
    let sought := (seekBlocks key (fuel + 1) n it).run (it.reader.readBlockWith noFaults)
    sought.2 = none ∧ Iterator.Yields adapter sought.1 (e :: (rear ++ after.flatten)) := by
  intro sought
  obtain ⟨ie, onward, ⟨-, -, bytes⟩, later, split⟩ := List.forall₂_cons_right_iff.mp blocks
  -- the list of blocks from `n` on is not empty, so `n` is a place in the index
  have found : it.reader.index[n]? = some ie := by
    rw [← List.head?_drop, split, List.head?_cons]
  have behind : it.reader.index.drop (n + 1) = onward := by
    rw [← List.tail_drop, split, List.tail_cons]
  obtain ⟨blockIt, here, atKey, atValue, atTombstone, remaining⟩ :=
    BlockIterator.seek_entry key front e rear
      (fun x member => fits x (List.mem_append_left _ member)) below reached
  have rearFits : ∀ x ∈ rear ++ after.flatten, x.Fits := by
    intro x member
    refine fits x ?_
    rw [List.append_assoc, List.cons_append]
    exact List.mem_append_right _ (List.mem_cons_of_mem e member)
  have stands : sought = ({ it with
      nextBlock := n + 1, blockIt := some blockIt, key := blockIt.getKey
      value := blockIt.getValue, tombstone := blockIt.tombstone, valid := true }, none) := by
    simp only [sought, seekBlocks, found, Query.Prog.run, Reader.readBlockWith, noFaults,
      Reader.answer, bytes, here]
  rw [stands]
  -- the rest of the block and the blocks behind it are still to come
  have ahead := ahead_noFaults { it with
      nextBlock := n + 1, blockIt := some blockIt, key := blockIt.getKey
      value := blockIt.getValue, tombstone := blockIt.tombstone, valid := true }
    rear after clean remaining (by rwa [behind])
  exact ⟨rfl, yields_of_serves _ _ (serves_cons noFaults _ e _ none rearFits rfl
    (getKey_next blockIt e.key atKey) (getValue_next blockIt e.value atValue) atTombstone ahead
    (advanceWith_serves noFaults _ rearFits none _ ahead))⟩

/-- After `Seek` the iterator yields the entries from the key on. -/
theorem Reader.Stores.seek (r : Reader) (es : List Entry) (stores : r.Stores es) (it : Iterator)
    (of : it.reader = r) (key : Bytes) :
    (it.seek key).2 = none ∧
      Iterator.Yields Iterator.adapter (it.seek key).1 (Iterator.fromKey key es) := by
  subst of
  obtain ⟨ascending, fits, blocks, rfl, layout⟩ := stores
  rw [Iterator.seek, Iterator.askSeek]
  by_cases noBlocks : it.reader.index.length = 0
  · have empty : blocks = [] := by
      rw [← List.length_eq_zero_iff, ← layout.length_eq, noBlocks]
    simp only [noBlocks, if_true, empty]
    exact ⟨rfl, rfl⟩
  simp only [noBlocks, if_false]
  by_cases noKey : key.length = 0
  · -- every key is at least the empty one
    have whole : Iterator.fromKey key blocks.flatten = blocks.flatten := by
      rw [List.length_eq_zero_iff.mp noKey, Iterator.fromKey, List.filter_eq_self]
      exact fun e _ => decide_eq_true (not_lt.mp (List.not_lt_nil e.key))
    have ahead := Iterator.ahead_noFaults { it with err := none, nextBlock := 0, blockIt := none }
      [] blocks rfl rfl layout
    simp only [noKey, if_true, whole, Query.Prog.run_map]
    exact ⟨Iterator.advance_err _ _ fits ahead, Iterator.advance_yields _ fits _ ahead⟩
  simp only [noKey, if_false]
  -- the index leads to the first block whose last key reaches the key
  obtain ⟨before, rest, rfl, low, high, position, back⟩ :=
    search_blocks it.reader key blocks ascending layout
  obtain ⟨inner, across⟩ := ascending_flatten _ ascending
  have below : ∀ e ∈ before.flatten, e.key < key := by
    intro e member
    obtain ⟨b, inside, inB⟩ := List.mem_flatten.mp member
    exact (le_lastKeyOf b (inner b (by simp [inside])) e inB).trans_lt (low b inside)
  rw [List.flatten_append] at ascending fits ⊢
  rw [position]
  cases rest with
  | nil =>
    -- the key lies behind the last block
    have length := layout.length_eq
    rw [List.append_nil] at length
    rw [if_pos (by omega), List.flatten_nil, Iterator.fromKey_append key _ [] below (by simp)]
    exact ⟨rfl, rfl⟩
  | cons block after =>
    -- the key lies in the block behind `before`, or in front of it
    have inside : before.length < it.reader.index.length := by
      have length := layout.length_eq
      rw [List.length_append, List.length_cons] at length
      omega
    obtain ⟨_, _, ⟨filled, -, -⟩, -, -⟩ := List.forall₂_cons_right_iff.mp back
    obtain ⟨front, e, rear, rfl, frontBelow, reached⟩ :=
      exists_first_from key block filled (high block after rfl)
    have shape : before.flatten ++ ((front ++ e :: rear) :: after).flatten =
        (before.flatten ++ front) ++ e :: (rear ++ after.flatten) := by
      simp
    rw [shape] at ascending
    rw [if_neg (by omega), shape, Iterator.fromKey_split key _ e _ ascending ?_ reached]
    · exact Iterator.seekBlocks_yields key _ before.length { it with err := none } front e rear
        after rfl (fun x member => fits x (List.mem_append_right _ member)) frontBelow reached back
    · intro x member
      rcases List.mem_append.mp member with early | inBlock
      · exact below x early
      · exact frontBelow x inBlock

/-! ### The lower bound -/

/-- The error `Seek` returns is the one the iterator keeps. -/
theorem Iterator.seekBlocks_err (key : Bytes) (fuel n : Nat) (it : Iterator)
    (clean : it.err = none) :
    (seekBlocks key fuel n it).All (fun _ => True) fun sought => sought.1.err = sought.2 := by
  induction fuel generalizing n with
  | zero => exact clean
  | succ fuel ih =>
    rw [seekBlocks]
    split
    · exact clean
    · refine ⟨trivial, ?_⟩
      rintro (e | blockData)
      · rfl
      · dsimp only
        split
        · exact clean
        · exact ih (n + 1)

theorem Iterator.seek_err (it : Iterator) (key : Bytes) : (it.seek key).1.err = (it.seek key).2 := by
  rw [seek, askSeek]
  dsimp only
  split
  · rfl
  · split
    · rw [Query.Prog.run_map]
    · split
      · rfl
      · exact (seekBlocks_err key _ _ { it with err := none } rfl).run _ _

/-- The iterator stands on the smallest entry from the key on, if there is one, and the
caller's loop walks over it and all entries behind it. -/
structure Iterator.LowerBound (it : Iterator) (es : List Entry) (key : Bytes) : Prop where
  valid_iff : it.valid = true ↔ ∃ e ∈ es, key ≤ e.key
  smallest : it.valid = true → ∃ e ∈ es, key ≤ e.key ∧ (∀ x ∈ es, key ≤ x.key → e.key ≤ x.key) ∧
    it.getKey.bytes = e.key ∧ it.getValue.bytes = e.value ∧ it.tombstone = e.tombstone
  rest : ∀ fuel, es.length < fuel →
    it.walk fuel = (es.filter fun e => decide (key ≤ e.key), none)

theorem Iterator.lowerBound_of_yields (it : Iterator) (es : List Entry) (key : Bytes)
    (ascending : Ascending es) (noErr : it.err = none)
    (yields : Iterator.Yields adapter it (Iterator.fromKey key es)) : it.LowerBound es key := by
  have walks (fuel : Nat) (enough : es.length < fuel) :
      it.walk fuel = (Iterator.fromKey key es, none) :=
    walk_yields _ it noErr yields fuel
      ((Iterator.fromKey_sublist key es).length_le.trans_lt enough)
  have sorted : Ascending (Iterator.fromKey key es) :=
    ascending.sublist (Iterator.fromKey_sublist key es)
  cases left : Iterator.fromKey key es with
  | nil =>
    -- no entry is left, and the iterator has nothing to show
    rw [left] at yields
    have stopped : it.valid = false := yields
    have none_ : ¬∃ e ∈ es, key ≤ e.key := by
      rintro ⟨e, member, above⟩
      have inside := (Iterator.mem_fromKey key es e).mpr ⟨member, above⟩
      rw [left] at inside
      cases inside
    exact ⟨by simp [stopped, none_], by simp [stopped], walks⟩
  | cons e later =>
    rw [left] at yields sorted
    obtain ⟨valid, shownKey, shown, shownTombstone, -, -⟩ := yields
    obtain ⟨member, above⟩ := (Iterator.mem_fromKey key es e).mp (by rw [left]; simp)
    refine ⟨⟨fun _ => ⟨e, member, above⟩, fun _ => valid⟩, fun _ => ?_, walks⟩
    refine ⟨e, member, above, ?_, ?_, ?_, shownTombstone⟩
    · intro x inside reached
      have kept := (Iterator.mem_fromKey key es x).mpr ⟨inside, reached⟩
      rw [left] at kept
      rcases List.mem_cons.mp kept with rfl | behind
      · exact le_refl _
      · exact ((List.pairwise_cons.mp sorted).1 x behind).le
    · rw [show it.getKey = cloneBytes e.key from shownKey, cloneBytes_bytes]
    · rw [show it.getValue = cloneBytes e.value from congrArg Prod.snd shown, cloneBytes_bytes]

/-- `Seek` in a table that was written from ascending entries. Nothing is asked of the
iterator but that it belongs to the table: it may be new, in the middle, at the end, or
wherever another `Seek` left it. -/
theorem Iterator.seek_lowerBound (sizing : Sizing) (blockSize : Int) (expectedEntries : Nat)
    (es : List Entry) (file : Bytes) (ascending : Ascending es)
    (written : writeTable sizing blockSize expectedEntries es = .ok file)
    (fileID : Nat) (id : UInt64) (r : Reader) (opened : openReader fileID id file = .ok r)
    (it : Iterator) (of : it.reader = r) (key : Bytes) :
    (it.seek key).2 = none ∧ (it.seek key).1.reader = r ∧ (it.seek key).1.LowerBound es key := by
  have stores := writeTable_stores sizing blockSize expectedEntries es file ascending written
    fileID id r opened
  obtain ⟨noErr, yields⟩ := stores.seek r es it of key
  refine ⟨noErr, ?_, lowerBound_of_yields _ es key ascending ((seek_err it key).trans noErr) yields⟩
  rw [seek_reader, of]

/-- Two blocks, and a target between them, from an iterator that has walked to the end. -/
theorem Iterator.seek_lowerBound_between :
    let blocks : List (List Entry) := [[⟨[], [1], false⟩, ⟨[97], [], false⟩], [⟨[99], [], true⟩]]
    let filter := Writer.filterOf (.new 40 7) blocks.flatten
    let ended := (readerOf 1 1 blocks filter).newIterator.next.next.next
    writeTable ⟨fun _ => 40, fun _ => 7⟩ 22 3 blocks.flatten = .ok (tableFile blocks filter) ∧
      openReader 1 1 (tableFile blocks filter) = .ok (readerOf 1 1 blocks filter) ∧
      ended.valid = false ∧ (ended.seek [98]).1.LowerBound blocks.flatten [98] := by
  intro blocks filter ended
  have written : writeTable ⟨fun _ => 40, fun _ => 7⟩ 22 3 blocks.flatten =
      .ok (tableFile blocks filter) := by
    decide +kernel
  have opened : openReader 1 1 (tableFile blocks filter) = .ok (readerOf 1 1 blocks filter) := by
    decide +kernel
  have bound := seek_lowerBound ⟨fun _ => 40, fun _ => 7⟩ 22 3 blocks.flatten _ (by decide) written
    1 1 _ opened ended (by decide +kernel) [98]
  exact ⟨written, opened, by decide +kernel, bound.2.2⟩

end PebbleDB.Sst
