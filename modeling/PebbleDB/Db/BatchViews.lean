import Mathlib.Data.List.AList
import Mathlib.Data.List.Sort
import PebbleDB.Db.GroupCommit
import PebbleDB.Db.Scan
import PebbleDB.Iterator.MergeOutput

/-!
# Point and range views of the pending batch

`Get` walks the pending batch backwards and takes the first record of its key. `Scan`
folds the batch into a Go map, collects the keys of the map in whatever order the runtime
ranges over it, and sorts them. The fold and the sort are written out here, for every
order of the range; the snapshot is always the sorted list that the scans use. Both views
then speak of the last record of a key.
-/
namespace PebbleDB.Db

open Wal (Record)

/-! ### The map and its order -/

/-- `byKey`: each record replaces an earlier one of its key. -/
def latestByKey (batch : List Record) : AList fun _ : Bytes => Record :=
  batch.foldl (fun byKey rec => byKey.insert rec.key rec) ∅

/-- `keys` is the order in which the map is ranged over. -/
def snapshotPendingBatch (batch : List Record) (keys : List Bytes) : List Entry :=
  (keys.insertionSort (· ≤ ·)).filterMap fun k => ((latestByKey batch).lookup k).map entryOf

theorem lookup_latestByKey (batch : List Record) (k : Bytes) :
    (latestByKey batch).lookup k = lastRecord k batch := by
  induction batch using List.reverseRecOn with
  | nil => rfl
  | append_singleton batch rec ih =>
    rw [latestByKey, List.foldl_append, List.foldl_cons, List.foldl_nil, lastRecord_append,
      lastRecord_singleton]
    by_cases same : rec.key = k
    · subst same
      simp
    · rw [AList.lookup_insert_ne (Ne.symm same), if_neg same, Option.none_or]
      exact ih

theorem entryOf_lastRecord_key (k : Bytes) (batch : List Record) (rec : Record)
    (last : lastRecord k batch = some rec) : (entryOf rec).key = k := by
  have same : rec.key = k := by simpa using List.find?_some last
  exact same

section Ranged

variable {batch : List Record} {keys : List Bytes} (ranged : keys.Perm (latestByKey batch).keys)

include ranged

/-- Sorting distinct keys leaves no two equal ones next to each other. -/
theorem snapshotPendingBatch_ascending : Ascending (snapshotPendingBatch batch keys) := by
  have sorted := List.pairwise_insertionSort (· ≤ ·) keys
  have nodup : (keys.insertionSort (· ≤ ·)).Nodup := (List.perm_insertionSort _ keys).nodup_iff.mpr
    (ranged.nodup_iff.mpr (latestByKey batch).keys_nodup)
  have strict : (keys.insertionSort (· ≤ ·)).Pairwise (· < ·) :=
    (sorted.and nodup).imp fun ⟨le, ne⟩ => lt_of_le_of_ne le ne
  refine strict.filterMap _ ?_
  intro a b less x isX y isY
  rw [lookup_latestByKey] at isX isY
  obtain ⟨rec, lastA, rfl⟩ := Option.map_eq_some_iff.mp isX
  obtain ⟨rec', lastB, rfl⟩ := Option.map_eq_some_iff.mp isY
  rwa [entryOf_lastRecord_key a batch rec lastA, entryOf_lastRecord_key b batch rec' lastB]

theorem mem_snapshotPendingBatch (e : Entry) : e ∈ snapshotPendingBatch batch keys ↔
    (lastRecord e.key batch).map entryOf = some e := by
  simp only [snapshotPendingBatch, List.mem_filterMap, List.mem_insertionSort, lookup_latestByKey]
  constructor
  · rintro ⟨k, -, found⟩
    obtain ⟨rec, last, rfl⟩ := Option.map_eq_some_iff.mp found
    rwa [entryOf_lastRecord_key k batch rec last]
  · intro found
    refine ⟨e.key, ?_, found⟩
    rw [ranged.mem_iff, ← AList.mem_keys, ← AList.lookup_isSome, lookup_latestByKey]
    cases last : lastRecord e.key batch with
    | none => simp [last] at found
    | some rec => rfl

/-- In whatever order the map is ranged over, the snapshot is the sorted one. -/
theorem snapshotPendingBatch_eq : snapshotPendingBatch batch keys = sortedBatch batch := by
  apply Iterator.ascending_ext
  · exact snapshotPendingBatch_ascending ranged
  · exact sortedBatch_ascending batch
  · intro e
    rw [mem_snapshotPendingBatch ranged, Iterator.mem_iff_findEntry _ (sortedBatch_ascending batch),
      findEntry_sortedBatch]

end Ranged

theorem snapshotPendingBatch_eq_unsorted :
    let batch : List Record := [⟨[98], [1], false⟩, ⟨[97], [2], false⟩, ⟨[98], [], true⟩]
    snapshotPendingBatch batch [[98], [97]] = sortedBatch batch :=
  snapshotPendingBatch_eq (by decide)

/-! ### Both views -/

theorem mem_findEntry (es : List Entry) (ascending : Ascending es) (k : Bytes) (e : Entry) :
    e ∈ es ∧ e.key = k ↔ findEntry k es = some e := by
  constructor
  · rintro ⟨member, rfl⟩
    exact findEntry_mem es ascending e member
  · intro found
    exact (findEntry_key k es e found).symm

/-- What `lookupPendingBatch` returns for a key with this entry in the snapshot. -/
def entryAnswer (e : Entry) : MemLookup :=
  if e.tombstone then (none, .tombstone) else (cloneBytes e.value, .hit)

theorem entryAnswer_hit (e : Entry) (v : Slice) :
    entryAnswer e = (v, .hit) ↔ e.tombstone = false ∧ cloneBytes e.value = v := by
  rw [entryAnswer]
  cases e.tombstone <;> simp

theorem entryAnswer_tombstone (e : Entry) :
    entryAnswer e = (none, .tombstone) ↔ e.tombstone = true := by
  rw [entryAnswer]
  cases e.tombstone <;> simp

theorem entryAnswer_ne_miss (e : Entry) : entryAnswer e ≠ (none, .miss) := by
  rw [entryAnswer]
  cases e.tombstone <;> simp

theorem lookupPendingBatch_lastRecord (batch : List Record) (key : Bytes) :
    lookupPendingBatch batch key =
      (((lastRecord key batch).map entryOf).map entryAnswer).getD (none, .miss) := by
  rw [lookupPendingBatch_eq]
  cases lastRecord key batch with
  | none => rfl
  | some rec =>
    simp only [Option.map_some, Option.getD_some, memAnswer, entryAnswer, entryOf]
    cases rec.tombstone <;> rfl

section Ranged

variable {batch : List Record} {keys : List Bytes} (ranged : keys.Perm (latestByKey batch).keys)

include ranged

theorem findEntry_snapshotPendingBatch (key : Bytes) :
    findEntry key (snapshotPendingBatch batch keys) = (lastRecord key batch).map entryOf := by
  ext e
  rw [← mem_findEntry _ (snapshotPendingBatch_ascending ranged), mem_snapshotPendingBatch ranged]
  constructor
  · rintro ⟨found, rfl⟩
    exact found
  · intro found
    obtain ⟨rec, last, rfl⟩ := Option.map_eq_some_iff.mp found
    have same := entryOf_lastRecord_key key batch rec last
    exact ⟨by rw [same, last, Option.map_some], same⟩

/-- The snapshot has an entry for the keys of the batch and for no others. -/
theorem snapshotPendingBatch_keys (key : Bytes) :
    (∃ e ∈ snapshotPendingBatch batch keys, e.key = key) ↔ ∃ rec ∈ batch, rec.key = key := by
  constructor
  · rintro ⟨e, member, rfl⟩
    obtain ⟨rec, is, same⟩ := Option.map_eq_some_iff.mp ((mem_snapshotPendingBatch ranged e).mp member)
    exact ⟨rec, List.mem_reverse.mp (List.mem_of_find?_eq_some is), congrArg Entry.key same⟩
  · rintro ⟨rec, member, same⟩
    obtain ⟨last, is⟩ := Option.ne_none_iff_exists'.mp (lastRecord_ne_none key batch rec member same)
    have found := findEntry_snapshotPendingBatch ranged key
    rw [is, Option.map_some] at found
    exact ⟨entryOf last, (mem_findEntry _ (snapshotPendingBatch_ascending ranged) _ _).mpr found⟩

/-- In whatever order the map is ranged over, the snapshot has the keys of the batch, each once
and in ascending order, and the lookup of a key returns a hit, a tombstone or a miss exactly
when the snapshot has a live entry with that value, a tombstone, or nothing for the key. -/
theorem lookupPendingBatch_agrees_snapshot :
    Ascending (snapshotPendingBatch batch keys) ∧
      (∀ key, (∃ e ∈ snapshotPendingBatch batch keys, e.key = key) ↔ ∃ rec ∈ batch, rec.key = key) ∧
      ∀ key,
        (∀ v, lookupPendingBatch batch key = (v, .hit) ↔
          ∃ e ∈ snapshotPendingBatch batch keys,
            e.key = key ∧ e.tombstone = false ∧ cloneBytes e.value = v) ∧
        (lookupPendingBatch batch key = (none, .tombstone) ↔
          ∃ e ∈ snapshotPendingBatch batch keys, e.key = key ∧ e.tombstone = true) ∧
        (lookupPendingBatch batch key = (none, .miss) ↔
          ∀ e ∈ snapshotPendingBatch batch keys, e.key ≠ key) := by
  have ascending := snapshotPendingBatch_ascending ranged
  refine ⟨ascending, snapshotPendingBatch_keys ranged, fun key => ?_⟩
  -- a key has at most one entry, so its entries are what `findEntry` finds
  have entries (p : Entry → Prop) : (∃ e ∈ snapshotPendingBatch batch keys, e.key = key ∧ p e) ↔
      ∃ e, findEntry key (snapshotPendingBatch batch keys) = some e ∧ p e := by
    simp only [← mem_findEntry _ ascending, and_assoc]
  simp only [entries, ← findEntry_eq_none, findEntry_snapshotPendingBatch ranged,
    lookupPendingBatch_lastRecord]
  cases (lastRecord key batch).map entryOf with
  | none => simp
  | some e => simp [entryAnswer_hit, entryAnswer_tombstone, entryAnswer_ne_miss]

end Ranged

/-- Two writes and a delete: the deleted key is a tombstone in both views. -/
theorem lookupPendingBatch_agrees_deleted :
    let batch : List Record := [⟨[98], [1], false⟩, ⟨[97], [2], false⟩, ⟨[98], [], true⟩]
    snapshotPendingBatch batch [[98], [97]] = [⟨[97], [2], false⟩, ⟨[98], [], true⟩] ∧
      ∃ e ∈ snapshotPendingBatch batch [[98], [97]], e.key = [98] ∧ e.tombstone = true :=
  ⟨by decide +kernel,
    ((lookupPendingBatch_agrees_snapshot (by decide)).2.2 [98]).2.1.mp (by decide +kernel)⟩

end PebbleDB.Db
