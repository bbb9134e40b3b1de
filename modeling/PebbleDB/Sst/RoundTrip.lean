import PebbleDB.Sst.Iterator
import PebbleDB.Sst.Writer

/-!
# What is written is read back

A table made by `Add` and `Close` from strictly ascending entries opens, its iterator
walks exactly these entries, and a lookup finds a key if and only if it was added. The
number of blocks, entries larger than a block, the place of an absent key between the
blocks and the size of the filter make no difference. The one other outcome is a file
that would outgrow the largest file offset.
-/
namespace PebbleDB.Sst

/-- A caller's loop: `for it.Valid() { ..; it.Next() }`, and the error it looks at then. -/
def Iterator.walk : Nat → Iterator → List Entry × Option Error
  | 0, it => ([], it.err)
  | fuel + 1, it =>
    if it.valid then
      let rest := walk fuel it.next
      (⟨it.getKey.bytes, it.getValue.bytes, it.tombstone⟩ :: rest.1, rest.2)
    else ([], it.err)

/-- What a caller gets from an open table that was made of the entries. -/
structure Reader.Serves (r : Reader) (es : List Entry) : Prop where
  walks : ∀ fuel, es.length < fuel → r.newIterator.walk fuel = (es, none)
  finds : ∀ e ∈ es, ∃ value, r.get e.key = .ok ⟨value, true, e.tombstone⟩ ∧ value.bytes = e.value
  misses : ∀ key, (∀ e ∈ es, e.key ≠ key) → r.get key = .ok .miss
  passes : ∀ e ∈ es, r.mayContain e.key = true

/-- The loop sees what the iterator yields. -/
theorem Iterator.walk_yields (es : List Entry) (it : Iterator) (noErr : it.err = none)
    (yields : Iterator.Yields Iterator.adapter it es) (fuel : Nat) (enough : es.length < fuel) :
    it.walk fuel = (es, none) := by
  induction es generalizing it fuel with
  | nil =>
    cases fuel with
    | zero => rw [walk, noErr]
    | succ fuel =>
      have done : it.valid = false := yields
      rw [walk, done, noErr]
      rfl
  | cons e es ih =>
    cases fuel with
    | zero => exact absurd enough (Nat.not_lt_zero _)
    | succ fuel =>
      obtain ⟨valid, key, kept, tombstone, noErr', later⟩ := yields
      have shown : (⟨it.getKey.bytes, it.getValue.bytes, it.tombstone⟩ : Entry) = e := by
        rw [show it.getKey = cloneBytes e.key from key,
          show it.getValue = cloneBytes e.value from congrArg Prod.snd kept,
          show it.tombstone = e.tombstone from tombstone, cloneBytes_bytes, cloneBytes_bytes]
      rw [walk, show it.valid = true from valid, if_pos rfl, shown,
        ih it.next noErr' later fuel (Nat.lt_of_succ_lt_succ enough)]

theorem Reader.Stores.newIterator_err (r : Reader) (es : List Entry) (stores : r.Stores es) :
    r.newIterator.err = none := by
  obtain ⟨-, fits, blocks, rfl, layout⟩ := stores
  exact Iterator.advance_err _ _ fits (Iterator.ahead_noFaults
    (.start r) [] blocks rfl rfl layout)

theorem Reader.Holds.serves (r : Reader) (es : List Entry) (holds : r.Holds es) : r.Serves es where
  walks fuel enough := Iterator.walk_yields es r.newIterator (holds.newIterator_err r es)
    (holds.yields r es) fuel enough
  finds e member := by
    rw [holds.get r es e.key, findEntry_mem es holds.ascending e member]
    exact ⟨_, rfl, cloneBytes_bytes e.value⟩
  misses key absent := by
    rw [holds.get r es key, (findEntry_eq_none key es).mpr absent]
    rfl
  passes := holds.filter

/-- The round trip, for a filter of any size. `tableBytes` bounds the length of the file. -/
theorem newWriter_roundTrip (sizing : Sizing) (blockSize : Int) (expectedEntries m k : Nat)
    (es : List Entry) (fileID : Nat) (id : UInt64) (positive : 0 < blockSize)
    (bits : m % 8 = 0 ∧ 0 < m ∧ m < 2 ^ 32) (hashes : 0 < k ∧ k < 2 ^ 32)
    (ascending : Ascending es) (fits : ∀ e ∈ es, e.Fits) :
    ∃ w, newWriter sizing blockSize expectedEntries = .ok w ∧
      let written := ({ w with bloom := .empty m k } : Writer).addAll es >>= Writer.close
      (written = .error .fileTooLarge ∧ maxInt < tableBytes (.empty m k) es ∨
        ∃ file r, written = .ok file ∧ openReader fileID id file = .ok r ∧ r.Serves es) := by
  obtain ⟨w, created⟩ := newWriter_ok sizing blockSize expectedEntries positive
  have sized := Filter.empty_sized m k bits.1 bits.2.1 bits.2.2 hashes
  refine ⟨w, created, ?_⟩
  rcases newWriter_reopen sizing blockSize expectedEntries w created (.empty m k) sized es ascending
    fits fileID id with outgrown | ⟨file, r, written, opened, holds, -⟩
  · exact .inl outgrown
  · exact .inr ⟨file, r, written, opened, holds.serves r es⟩

/-- Two blocks, one of them a single entry larger than the block size; the empty key, an
empty value and a tombstone. -/
theorem newWriter_roundTrip_blocks :
    let es : List Entry := [⟨[], [1], false⟩, ⟨[97], [], false⟩, ⟨[98], [], true⟩,
      ⟨[99], List.replicate 40 7, false⟩]
    ∃ w file r, newWriter ⟨fun _ => 40, fun _ => 7⟩ 32 4 = .ok w ∧
      ({ w with bloom := .empty 64 3 } : Writer).addAll es >>= Writer.close = .ok file ∧
      openReader 1 1 file = .ok r ∧ r.Serves es := by
  intro es
  obtain ⟨w, created, ⟨-, outgrown⟩ | ⟨file, r, written, opened, serves⟩⟩ :=
    newWriter_roundTrip ⟨fun _ => 40, fun _ => 7⟩ 32 4 64 3 es 1 1 (by decide) (by decide)
      (by decide) (by decide) (by decide)
  · exact absurd outgrown (by decide)
  · exact ⟨w, file, r, created, written, opened, serves⟩

end PebbleDB.Sst
