import PebbleDB.Iterator.Faults
import PebbleDB.Sst.Iterator
import PebbleDB.Sst.Writer

/-!
# Merging tables

`MergeReadersKeepTombstones` feeds a writer with the merge of its readers, whose
priorities are their positions: later tables are newer. The merged table then has,
for each key, the entry of the newest table that knows it. The exception is the
empty key: the iterators return it as nil, which the merge takes for the end.
-/
namespace PebbleDB.Sst

/-- The function that the merge hands every entry to. -/
def addTo (w : Writer) (key value : Slice) (tombstone : Bool) : Writer × Option Error :=
  match w.add key value tombstone with
  | .error e => (w, some e)
  | .ok w => (w, none)

/-- `mergeReaders`, with reads that may fail; the failures are those of the readers one by
one. -/
def mergeReadersWith (faults : Nat → BlockFaults) (readers : List Reader) (w : Writer)
    (keepTombstones : Bool) : Writer × Option Error :=
  if readers.length = 0 then (w, none)
  else
    let adapters := readers.mapIdx fun i r => r.newIteratorWith (faults i)
    -- later tables are newer
    let priorities := (List.range' 0 readers.length).map Int.ofNat
    Iterator.forEachMerged FaultyIterator.adapter .priorityMismatch adapters priorities
      (!keepTombstones) addTo ((readers.map Reader.maxEntries).sum + 1) w

def mergeReadersKeepTombstones (faults : Nat → BlockFaults) (readers : List Reader) (w : Writer) :
    Writer × Option Error :=
  mergeReadersWith faults readers w true

/-- The life of a writer that takes a merge: what `Close` leaves, or the first error. -/
def mergeTablesWith (sizing : Sizing) (blockSize : Int) (expectedEntries : Nat)
    (faults : Nat → BlockFaults) (readers : List Reader) : Except Error Bytes := do
  let w ← newWriter sizing blockSize expectedEntries
  match mergeReadersKeepTombstones faults readers w with
  | (_, some e) => .error e
  | (w, none) => w.close

def mergeReaders (readers : List Reader) (w : Writer) (keepTombstones : Bool) :
    Writer × Option Error :=
  mergeReadersWith (fun _ => noFaults) readers w keepTombstones

def mergeTables (sizing : Sizing) (blockSize : Int) (expectedEntries : Nat)
    (readers : List Reader) : Except Error Bytes :=
  mergeTablesWith sizing blockSize expectedEntries (fun _ => noFaults) readers

/-- The entry of the newest table that has the key; tables are listed oldest first. -/
def newest (k : Bytes) (tables : List (List Entry)) : Option Entry :=
  tables.reverse.findSome? (findEntry k)

theorem newest_cons (k : Bytes) (es : List Entry) (tables : List (List Entry)) :
    newest k (es :: tables) = (newest k tables).or (findEntry k es) := by
  rw [newest, List.reverse_cons, List.findSome?_append, newest]
  congr 1
  cases found : findEntry k es <;> simp [List.findSome?, found]

theorem newest_eq_none (k : Bytes) (tables : List (List Entry)) :
    newest k tables = none ↔ ∀ es ∈ tables, ∀ e ∈ es, e.key ≠ k := by
  simp [newest, List.findSome?_eq_none_iff, findEntry_eq_none]

theorem newest_mem (k : Bytes) (tables : List (List Entry)) (e : Entry)
    (found : newest k tables = some e) : ∃ es ∈ tables, e ∈ es ∧ e.key = k := by
  obtain ⟨es, member, inside⟩ := List.exists_of_findSome?_eq_some found
  obtain ⟨key, mem⟩ := findEntry_key k es e inside
  exact ⟨es, List.mem_reverse.mp member, mem, key⟩

/-! ### Priorities are positions -/

/-- The sources of a merge, numbered from `n` on. -/
def viewFrom : Nat → List (List Entry) → Iterator.View
  | _, [] => []
  | n, es :: tables => (es, Int.ofNat n) :: viewFrom (n + 1) tables

theorem resolveFrom_viewFrom (k : Bytes) (tables : List (List Entry)) (n : Nat)
    (best : Int × Option Entry) (below : best.1 < n) :
    (Iterator.resolveFrom k best (viewFrom n tables)).2 = (newest k tables).or best.2 := by
  induction tables generalizing n best with
  | nil => rfl
  | cons es tables ih =>
    rw [viewFrom, Iterator.resolveFrom, newest_cons]
    cases found : findEntry k es with
    | none => rw [ih (n + 1) best (by omega), Option.or_none]
    | some e =>
      have higher : best.1 < Int.ofNat n := below
      simp only
      rw [if_pos higher, ih (n + 1) _ (by simp only [Int.ofNat_eq_natCast]; omega)]
      cases newest k tables <;> rfl

theorem resolve_viewFrom (k : Bytes) (n : Nat) (tables : List (List Entry)) :
    Iterator.resolve k (viewFrom n tables) = newest k tables := by
  rw [Iterator.resolve, resolveFrom_viewFrom k tables n _ (by simp only; omega), Option.or_none]

theorem viewFrom_mem (tables : List (List Entry)) (n : Nat) (v : List Entry × Int)
    (member : v ∈ viewFrom n tables) : v.1 ∈ tables ∧ 0 ≤ v.2 := by
  induction tables generalizing n with
  | nil => cases member
  | cons es tables ih =>
    rcases List.mem_cons.mp member with rfl | later
    · exact ⟨List.mem_cons_self, Int.natCast_nonneg n⟩
    · obtain ⟨inside, nonneg⟩ := ih (n + 1) later
      exact ⟨List.mem_cons_of_mem _ inside, nonneg⟩

theorem viewFrom_append (n : Nat) (front back : List (List Entry)) :
    viewFrom n (front ++ back) = viewFrom n front ++ viewFrom (n + front.length) back := by
  induction front generalizing n with
  | nil => rfl
  | cons es front ih =>
    rw [List.cons_append, viewFrom, ih, viewFrom, List.cons_append, List.length_cons]
    congr 3
    omega

theorem viewFrom_priority (n : Nat) (tables : List (List Entry)) :
    ∀ v ∈ viewFrom n tables, (n : Int) ≤ v.2 ∧ v.2 < n + tables.length := by
  induction tables generalizing n with
  | nil => simp [viewFrom]
  | cons es tables ih =>
    rw [viewFrom]
    refine List.forall_mem_cons.mpr ⟨by simp, fun v member => ?_⟩
    have := ih (n + 1) v member
    simp only [List.length_cons]
    omega

theorem viewFrom_mergeable (n : Nat) (tables : List (List Entry))
    (ascending : ∀ es ∈ tables, Ascending es) (keyed : ∀ es ∈ tables, ∀ e ∈ es, e.key ≠ []) :
    Iterator.Mergeable (viewFrom n tables) := by
  constructor
  · intro v member
    exact ascending v.1 (viewFrom_mem tables n v member).1
  · intro v member
    exact keyed v.1 (viewFrom_mem tables n v member).1
  · intro v member
    exact (viewFrom_mem tables n v member).2

section Sources

variable (readers : List Reader) (tables : List (List Entry))
  (stores : List.Forall₂ Reader.Stores readers tables)

/-- The sources that `ForEachMerged` builds, numbered from `n` on. -/
def sourcesFrom (faults : Nat → BlockFaults) (n : Nat) (readers : List Reader) :
    List (Iterator.Source FaultyIterator) :=
  List.zipWith (fun it priority => ⟨it, priority⟩)
    (readers.mapIdx fun i r => r.newIteratorWith (faults i))
    ((List.range' n readers.length).map Int.ofNat)

theorem sourcesFrom_cons (faults : Nat → BlockFaults) (n : Nat) (r : Reader)
    (readers : List Reader) :
    sourcesFrom faults n (r :: readers) = ⟨r.newIteratorWith (faults 0), Int.ofNat n⟩ ::
      sourcesFrom (fun j => faults (j + 1)) (n + 1) readers := by
  simp only [sourcesFrom, List.mapIdx_cons, List.length_cons, List.range'_succ, List.map_cons,
    List.zipWith_cons_cons]

include stores in
theorem sourcesFrom_shows (n : Nat) :
    List.Forall₂ (Iterator.Shows FaultyIterator.adapter)
      (sourcesFrom (fun _ => noFaults) n readers) (viewFrom n tables) := by
  induction stores generalizing n with
  | nil => exact .nil
  | @cons r es readers tables first _ ih =>
    rw [sourcesFrom_cons]
    exact .cons ⟨(first.serves r es).yields, rfl⟩ (ih (n + 1))

include stores in
theorem remaining_viewFrom (n : Nat) :
    Iterator.remaining (viewFrom n tables) ≤ (readers.map Reader.maxEntries).sum := by
  induction stores generalizing n with
  | nil => exact Nat.le_refl _
  | @cons r es readers tables first _ ih =>
    have here := first.length_le r es
    have later := ih (n + 1)
    simp only [Iterator.remaining] at later
    simp only [Iterator.remaining, viewFrom, List.map_cons, List.sum_cons]
    omega

end Sources

theorem mergeReadersWith_eq (faults : Nat → BlockFaults) (readers : List Reader) (w : Writer) :
    mergeReadersWith faults readers w true = Iterator.forEachMergedFrom FaultyIterator.adapter
      false addTo ((readers.map Reader.maxEntries).sum + 1) (sourcesFrom faults 0 readers) w := by
  rw [mergeReadersWith]
  split
  next none_ =>
    rw [List.length_eq_zero_iff.mp none_]
    rfl
  next =>
    simp only [Iterator.forEachMerged, List.length_map, List.length_range', List.length_mapIdx,
      ne_eq, not_true, if_false, Bool.not_true]
    rfl

theorem FaultyIterator.adapter_key (f : FaultyIterator) : FaultyIterator.adapter.key f ≠ some [] :=
  Iterator.adapter_key f.it

/-! ### The merged table -/

/-- Handing entries to the writer one by one. -/
theorem feed_addTo (out : List Entry) (w : Writer) :
    match w.addAll out with
    | .ok w' => Iterator.feed addTo w out = (w', none)
    | .error e => (Iterator.feed addTo w out).2 = some e := by
  induction out generalizing w with
  | nil => rfl
  | cons e out ih =>
    rw [Writer.addAll, Iterator.feed, addTo]
    cases w.add (cloneBytes e.key) (cloneBytes e.value) e.tombstone with
    | error err => rfl
    | ok w' => exact ih w'

/-- Sources without the empty key: the writer receives the newest entry of every key. -/
theorem merge_has {ι : Type} (I : Iterator.Interface ι Error) (fuel n : Nat)
    (srcs : List (Iterator.Source ι)) (tables : List (List Entry))
    (shows : List.Forall₂ (Iterator.Shows I) srcs (viewFrom n tables))
    (ascending : ∀ es ∈ tables, Ascending es) (fits : ∀ es ∈ tables, ∀ e ∈ es, e.Fits)
    (keyed : ∀ es ∈ tables, ∀ e ∈ es, e.key ≠ [])
    (enough : Iterator.remaining (viewFrom n tables) < fuel) (w : Writer) (start : Filter)
    (fresh : w.Has start []) :
    (Iterator.forEachMergedFrom I false addTo fuel srcs w).2 = some .fileTooLarge ∨
      ∃ w' out, Iterator.forEachMergedFrom I false addTo fuel srcs w = (w', none) ∧
        w'.Has start out ∧ ∀ k, findEntry k out = newest k tables := by
  obtain ⟨out, sorted, resolved, calls⟩ := Iterator.forEachMergedFrom_feed I fuel srcs _ shows
    (viewFrom_mergeable n tables ascending keyed) enough
  have found (k : Bytes) : findEntry k out = newest k tables := by
    rw [resolved, resolve_viewFrom]
  have fitsOut : ∀ e ∈ out, e.Fits := by
    intro e member
    have is := findEntry_mem out sorted e member
    rw [found] at is
    obtain ⟨es, inTables, inside, -⟩ := newest_mem e.key tables e is
    exact fits es inTables e inside
  rw [calls addTo w]
  have fed := feed_addTo out w
  rcases fresh.addAll start out sorted fitsOut w [] (by simp) with ⟨tooLarge, -⟩ | ⟨w', ok, has⟩
  · rw [tooLarge] at fed
    exact .inl fed
  · rw [ok] at fed
    exact .inr ⟨w', out, fed, has, found⟩

theorem remaining_viewFrom_eq (n : Nat) (tables : List (List Entry)) :
    Iterator.remaining (viewFrom n tables) = (tables.map List.length).sum := by
  induction tables generalizing n with
  | nil => rfl
  | cons es tables ih =>
    have later := ih (n + 1)
    rw [Iterator.remaining] at later
    rw [viewFrom, Iterator.remaining, List.map_cons, List.sum_cons, later, List.map_cons,
      List.sum_cons]

/-- A merge of sources that do not fail completes. Its output never has the empty key, and
without the empty key it has the newest entry of every key. -/
theorem merge_completes {ι : Type} (I : Iterator.Interface ι Error)
    (copies : ∀ it, I.key it ≠ some []) (fuel n : Nat) (srcs : List (Iterator.Source ι))
    (tables : List (List Entry)) (shows : List.Forall₂ (Iterator.Shows I) srcs (viewFrom n tables))
    (ascending : ∀ es ∈ tables, Ascending es) (fits : ∀ es ∈ tables, ∀ e ∈ es, e.Fits)
    (enough : (tables.map List.length).sum < fuel) (w : Writer) (start : Filter)
    (fresh : w.Has start []) :
    (Iterator.forEachMergedFrom I false addTo fuel srcs w).2 = some .fileTooLarge ∨
      ∃ w' out, Iterator.forEachMergedFrom I false addTo fuel srcs w = (w', none) ∧
        w'.Has start out ∧ findEntry [] out = none ∧
        ((∀ es ∈ tables, ∀ e ∈ es, e.key ≠ []) → ∀ k, findEntry k out = newest k tables) := by
  by_cases keyed : ∀ es ∈ tables, ∀ e ∈ es, e.key ≠ []
  · rcases merge_has I fuel n srcs tables shows ascending fits keyed
      (by rwa [remaining_viewFrom_eq]) w start fresh with tooLarge | ⟨w', out, merged, has, found⟩
    · exact .inl tooLarge
    · refine .inr ⟨w', out, merged, has, ?_, fun _ => found⟩
      rw [found, newest_eq_none]
      exact keyed
  · -- only the tables behind the last one with the empty key take part
    obtain ⟨front, stuck, back, rfl, held, behind⟩ := List.exists_last_of_not_forall _ tables keyed
    rw [viewFrom_append] at shows
    have showsFront := List.forall₂_take_append srcs _ _ shows
    have showsRest := List.forall₂_drop_append srcs _ _ shows
    obtain ⟨stuckSource, backSources, showsStuck, showsBack, rest⟩ :=
      List.forall₂_cons_right_iff.mp showsRest
    have split := List.take_append_drop (viewFrom n front).length srcs
    rw [rest] at split
    -- its first entry is that of the empty key
    obtain ⟨first, more, rfl, emptyKey⟩ : ∃ first more, stuck = first :: more ∧ first.key = [] := by
      push Not at held
      obtain ⟨e, member, key⟩ := held
      cases stuck with
      | nil => cases member
      | cons first more =>
        refine ⟨first, more, rfl, ?_⟩
        rcases List.mem_cons.mp member with rfl | later
        · exact key
        · have order := (List.pairwise_cons.mp (ascending (first :: more) (by simp))).1 e later
          rw [key] at order
          exact absurd order (List.not_lt_nil _)
    obtain ⟨⟨valid, key, -⟩, -⟩ := showsStuck
    have noKey : I.key stuckSource.it = none := by rw [key, emptyKey]; rfl
    rw [← split, Iterator.forEachMergedFrom_stuck I copies addTo stuckSource valid noKey fuel _ _ _
      showsFront ?_ w]
    · rcases merge_has I fuel _ backSources back showsBack
        (fun es member => ascending es (by simp [member])) (fun es member => fits es (by simp [member]))
        behind (by
          rw [remaining_viewFrom_eq]
          simp only [List.map_append, List.sum_append, List.map_cons, List.sum_cons] at enough
          omega) w start fresh with tooLarge | ⟨w', out, merged, has, found⟩
      · exact .inl tooLarge
      · refine .inr ⟨w', out, merged, has, ?_, fun all => absurd all keyed⟩
        rw [found, newest_eq_none]
        exact behind
    · -- tables further behind have higher priorities
      intro t inBack
      obtain ⟨source, member, rfl⟩ := List.mem_map.mp inBack
      obtain ⟨v, inView, -, same⟩ := showsBack.exists_right source member
      have high := viewFrom_priority _ back v inView
      refine ⟨by omega, fun s inFront => ?_⟩
      obtain ⟨source', member', rfl⟩ := List.mem_map.mp inFront
      obtain ⟨v', inView', -, same'⟩ := showsFront.exists_right source' member'
      have low := viewFrom_priority n front v' inView'
      omega

theorem mergeReaders_completes (readers : List Reader) (tables : List (List Entry))
    (stores : List.Forall₂ Reader.Stores readers tables) (w : Writer) (start : Filter)
    (fresh : w.Has start []) :
    (mergeReaders readers w true).2 = some .fileTooLarge ∨
      ∃ w' out, mergeReaders readers w true = (w', none) ∧ w'.Has start out ∧
        findEntry [] out = none ∧
        ((∀ es ∈ tables, ∀ e ∈ es, e.key ≠ []) → ∀ k, findEntry k out = newest k tables) := by
  rw [mergeReaders, mergeReadersWith_eq]
  apply merge_completes FaultyIterator.adapter FaultyIterator.adapter_key _ 0 _ tables
    (sourcesFrom_shows readers tables stores 0) ?_ ?_ ?_ w start fresh
  · intro es member
    obtain ⟨r, -, stored⟩ := stores.exists_left es member
    exact stored.ascending
  · intro es member
    obtain ⟨r, -, stored⟩ := stores.exists_left es member
    exact stored.fits
  · rw [← remaining_viewFrom_eq 0]
    exact Nat.lt_succ_of_le (remaining_viewFrom readers tables stores 0)

theorem Table.unique (file : Bytes) (es fs : List Entry) (left : Table file es)
    (right : Table file fs) : es = fs := by
  obtain ⟨footer, index, readF, readI, stores⟩ := left
  obtain ⟨footer', index', readF', readI', stores'⟩ := right
  rw [readF] at readF'
  cases readF'
  rw [readI] at readI'
  cases readI'
  exact stores.unique _ es fs stores'

/-- The merge keeps the newest entry of every key if and only if no table has the
empty key. -/
theorem mergeTables_newest_iff (sizing : Sizing) (blockSize : Int) (expectedEntries : Nat)
    (readers : List Reader) (tables : List (List Entry)) (positive : 0 < blockSize)
    (stores : List.Forall₂ Reader.Stores readers tables)
    (noIoError : mergeTables sizing blockSize expectedEntries readers ≠ .error .fileTooLarge) :
    (∃ file es, mergeTables sizing blockSize expectedEntries readers = .ok file ∧ Table file es ∧
        ∀ k, findEntry k es = newest k tables) ↔
      ∀ es ∈ tables, ∀ e ∈ es, e.key ≠ [] := by
  cases created : newWriter sizing blockSize expectedEntries with
  | error e =>
    rw [newWriter, if_neg (by omega)] at created
    cases created
  | ok w =>
    have fresh : w.Has w.bloom [] := newWriter_has sizing blockSize expectedEntries w created _
    rw [mergeTables, mergeTablesWith, created, Except.ok_bind, mergeReadersKeepTombstones,
      ← mergeReaders] at noIoError ⊢
    rcases mergeReaders_completes readers tables stores w w.bloom fresh with
      tooLarge | ⟨w', out, ok, has, noEmpty, found⟩
    · cases result : mergeReaders readers w true with
      | mk w' err =>
        rw [result] at tooLarge noIoError
        cases tooLarge
        exact absurd rfl noIoError
    rw [ok] at noIoError ⊢
    rcases has.close w' w.bloom out with
      ⟨tooLarge, -⟩ | ⟨blocks, rfl, nonempty, ascending, fits, closed, small⟩
    · exact absurd tooLarge noIoError
    have table := table_tableFile blocks (Writer.filterOf w.bloom blocks.flatten) nonempty ascending
      fits small
    constructor
    · rintro ⟨file, es, merged, table', newest_⟩
      -- the table was written without an empty key, so none of the inputs had one
      cases closed.symm.trans merged
      rw [Table.unique _ _ _ table table', newest_, newest_eq_none] at noEmpty
      exact noEmpty
    · intro keyed
      exact ⟨_, _, closed, table, found keyed⟩

/-- Two tables that share a key, one of its entries a tombstone. -/
theorem mergeTables_newest_overwritten :
    let sizing : Sizing := ⟨fun _ => 40, fun _ => 7⟩
    let older : List Entry := [⟨[97], [1], false⟩, ⟨[98], [2], false⟩]
    let newer : List Entry := [⟨[97], [], true⟩, ⟨[99], [], false⟩]
    let readers := [readerOf 1 1 [older] (Writer.filterOf (.new 24 7) older),
      readerOf 2 2 [newer] (Writer.filterOf (.new 24 7) newer)]
    ∃ file es, mergeTables sizing 4096 4 readers = .ok file ∧ Table file es ∧
      ∀ k, findEntry k es = newest k [older, newer] := by
  intro sizing older newer readers
  have stores : List.Forall₂ Reader.Stores readers [older, newer] :=
    .cons (stores_tableFile [older] _ (by decide) (by decide) (by decide) (by decide) _ _ _)
      (.cons (stores_tableFile [newer] _ (by decide) (by decide) (by decide) (by decide) _ _ _) .nil)
  exact (mergeTables_newest_iff sizing 4096 4 readers [older, newer] (by decide) stores
    (by decide +kernel)).mpr (by decide)

/-- A table with the empty key: the merge never gets past it, and what lies behind it is
lost. Both inputs are what a writer makes of their entries. -/
theorem not_mergeTables_newest_empty_key :
    let sizing : Sizing := ⟨fun n => if n = 1 then 16 else 24, fun _ => 7⟩
    let older : List Entry := [⟨[], [1], false⟩, ⟨[97], [2], false⟩]
    let newer : List Entry := [⟨[98], [3], false⟩]
    let readers := [readerOf 1 1 [older] (Writer.filterOf (.new 24 7) older),
      readerOf 2 2 [newer] (Writer.filterOf (.new 16 7) newer)]
    (writeTable sizing 4096 2 older >>= openReader 1 1) = .ok readers[0] ∧
      (writeTable sizing 4096 1 newer >>= openReader 2 2) = .ok readers[1] ∧
      List.Forall₂ Reader.Stores readers [older, newer] ∧
      ¬∃ file es, mergeTables sizing 4096 3 readers = .ok file ∧ Table file es ∧
        ∀ k, findEntry k es = newest k [older, newer] := by
  intro sizing older newer readers
  refine ⟨by decide +kernel, by decide +kernel, ?_, ?_⟩
  · exact .cons (stores_tableFile [older] _ (by decide) (by decide) (by decide) (by decide) _ _ _)
      (.cons (stores_tableFile [newer] _ (by decide) (by decide) (by decide) (by decide) _ _ _) .nil)
  · rintro ⟨file, es, merged, table, found⟩
    have single : mergeTables sizing 4096 3 readers = .ok (tableFile [newer]
        (Writer.filterOf (.new 24 7) newer)) := by
      decide +kernel
    rw [single] at merged
    cases merged
    have only := Table.unique _ _ _ table (table_tableFile [newer] _ (by decide) (by decide)
      (by decide) (by decide +kernel))
    have lost := found [97]
    rw [only] at lost
    exact absurd lost (by decide)

end PebbleDB.Sst
