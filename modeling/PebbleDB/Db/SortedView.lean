import PebbleDB.Db.Compaction
import PebbleDB.Db.Scan

/-!
# Scans as the sorted view of the layers

A scan should show, in key order, the live value that the newest layer knows of every key
in its range. Three things in the code stand against that. A source that stands on the
empty key returns nil and hides itself and the sources before it, so a scan from the
empty key must not meet one. The priority of a queued memtable falls by one for each
newer one and becomes negative behind 1,000,000 of them, where no entry can win. And the
priorities of the tables count upward from 0, so with enough tables they pass those of
the memory layers, which are newer.
-/
namespace PebbleDB.Db

open Memtable (SkipList Slot)
open Wal (Record)
open Iterator (View fromKey live resolve resolveFrom Mergeable)

namespace DB

variable (db : DB) (tables : List (List Entry))

/-- The entry of the newest layer that has the key: the pending batch, the active memtable,
the queue from its newest memtable on, the tables from the newest on. -/
def newestEntry (k : Bytes) : Option Entry :=
  ((lastRecord k db.pendingBatch).map entryOf).or
    ((findEntry k db.active.entries).or
      ((db.pendingFlush.reverse.findSome? fun entry => findEntry k entry.mem.entries).or
        (Sst.newest k tables)))

/-- Every key in any layer is one of the given keys. -/
structure StoresOnly (stored : Bytes → Prop) : Prop where
  batch : ∀ rec ∈ db.pendingBatch, stored rec.key
  active : ∀ e ∈ db.active.entries, stored e.key
  queue : ∀ entry ∈ db.pendingFlush, ∀ e ∈ entry.mem.entries, stored e.key
  tables : ∀ es ∈ tables, ∀ e ∈ es, stored e.key

end DB

/-- Iterating over the scan until it is not valid shows, without an error, exactly the
pairs of the range with the live values of their newest layers, in ascending order. -/
def SortedView (db : DB) (tables : List (List Entry)) (start stop : Bytes) : Prop :=
  ∃ it pairs bound, db.scan start stop = .ok it ∧
    (∀ fuel ≥ bound, it.collect fuel = (pairs, none)) ∧
    pairs.Pairwise (fun a b => a.1 < b.1) ∧
    ∀ k v, (k, v) ∈ pairs ↔ InRange start stop k ∧
      ∃ e, db.newestEntry tables k = some e ∧ e.tombstone = false ∧ e.value = v

/-! ### Priorities and ages -/

theorem resolveFrom_append (k : Bytes) (best : Int × Option Entry) (front back : View) :
    resolveFrom k best (front ++ back) = resolveFrom k (resolveFrom k best front) back := by
  induction front generalizing best with
  | nil => rfl
  | cons v front ih =>
    rw [List.cons_append, resolveFrom, resolveFrom]
    cases findEntry k v.1 with
    | none => exact ih best
    | some e => exact ih _

/-- Sources that do not beat the best entry leave it. -/
theorem resolveFrom_unbeaten (k : Bytes) (best : Int × Option Entry) (view : View)
    (unbeaten : ∀ v ∈ view, findEntry k v.1 ≠ none → v.2 ≤ best.1) :
    resolveFrom k best view = best := by
  induction view with
  | nil => rfl
  | cons v view ih =>
    obtain ⟨here, later⟩ := List.forall_mem_cons.mp unbeaten
    rw [resolveFrom]
    cases found : findEntry k v.1 with
    | none => exact ih later
    | some e =>
      have notAbove : ¬best.1 < v.2 := not_lt.mpr (here (by simp [found]))
      simp only [notAbove, if_false]
      exact ih later

theorem descending_mem (p : Int) (layers : List (List Entry)) (v : List Entry × Int)
    (member : v ∈ descending p layers) : v.1 ∈ layers ∧ p - layers.length < v.2 ∧ v.2 ≤ p := by
  induction layers generalizing p with
  | nil => cases member
  | cons es layers ih =>
    rw [List.length_cons]
    rcases List.mem_cons.mp member with rfl | later
    · exact ⟨List.mem_cons_self, by simp only; omega, le_refl p⟩
    · obtain ⟨inside, low, high⟩ := ih (p - 1) later
      exact ⟨List.mem_cons_of_mem _ inside, by omega, by omega⟩

theorem descending_append (p : Int) (front back : List (List Entry)) :
    descending p (front ++ back) = descending p front ++ descending (p - front.length) back := by
  induction front generalizing p with
  | nil => simp [descending]
  | cons es front ih =>
    rw [List.cons_append, descending, ih, descending, List.cons_append, List.length_cons]
    congr 3
    omega

/-- Among layers with falling priorities the first one that has the key decides. -/
theorem resolveFrom_descending (k : Bytes) (p : Int) (layers : List (List Entry))
    (nonneg : 0 ≤ p - layers.length + 1) :
    layers.findSome? (findEntry k) = none ∧
        resolveFrom k (-1, none) (descending p layers) = (-1, none) ∨
      ∃ e priority, layers.findSome? (findEntry k) = some e ∧ p - layers.length < priority ∧
        resolveFrom k (-1, none) (descending p layers) = (priority, some e) := by
  induction layers generalizing p with
  | nil => exact .inl ⟨rfl, rfl⟩
  | cons es layers ih =>
    rw [List.length_cons] at nonneg ⊢
    rw [descending, resolveFrom, List.findSome?_cons]
    cases found : findEntry k es with
    | none =>
      rcases ih (p - 1) (by omega) with missing | ⟨e, priority, first, low, is⟩
      · exact .inl missing
      · exact .inr ⟨e, priority, first, by omega, is⟩
    | some e =>
      have wins : (-1 : Int) < p := by omega
      refine .inr ⟨e, p, rfl, by omega, ?_⟩
      simp only [wins, if_true]
      apply resolveFrom_unbeaten
      intro v member _
      have := (descending_mem _ _ v member).2.2
      simp only
      omega

namespace DB

variable (db : DB) (tables : List (List Entry))

/-- The lowest priority of a memory layer depends on the length of the queue alone. -/
theorem topPriority_sub : db.topPriority - db.memoryLayers.length + 1 =
    1000000 - db.pendingFlush.length := by
  rw [topPriority, memoryLayers]
  split
  · simp only [scanPriorityPendingBatch, List.length_append, List.length_cons, List.length_nil,
      List.length_map, List.length_reverse]
    omega
  · simp only [scanPriorityActive, List.nil_append, List.length_cons, List.length_map,
      List.length_reverse]
    omega

theorem newestEntry_eq (k : Bytes) : db.newestEntry tables k =
    (db.memoryLayers.findSome? (findEntry k)).or (Sst.newest k tables) := by
  have batch := findEntry_sortedBatch k db.pendingBatch
  rw [newestEntry, memoryLayers, List.findSome?_append, List.findSome?_cons, List.findSome?_map,
    ← batch]
  have queue : (db.pendingFlush.reverse.findSome? (findEntry k ∘ fun entry => entry.mem.entries)) =
      db.pendingFlush.reverse.findSome? fun entry => findEntry k entry.mem.entries := rfl
  rw [queue]
  split
  · rw [List.findSome?_cons]
    cases findEntry k (sortedBatch db.pendingBatch) with
    | some e => rfl
    | none =>
      rw [List.findSome?_nil]
      cases findEntry k db.active.entries <;> rfl
  next none_ =>
    rw [List.eq_nil_of_length_eq_zero (Nat.eq_zero_of_not_pos none_)]
    cases findEntry k db.active.entries <;> rfl

/-- While the memory layers keep the higher priorities, the best entry is the newest. -/
theorem resolve_scanView (k : Bytes) (short : db.pendingFlush.length ≤ 1000000)
    (covered : db.pendingFlush.length + tables.length ≤ 1000001 ∨ Sst.newest k tables = none) :
    resolve k (db.scanView tables) = db.newestEntry tables k := by
  have lowest := db.topPriority_sub
  rw [db.newestEntry_eq tables k, resolve, scanView, resolveFrom_append]
  rcases resolveFrom_descending k db.topPriority db.memoryLayers (by omega) with
    ⟨missing, start⟩ | ⟨e, priority, first, low, start⟩
  · rw [missing, start, Option.none_or]
    exact Sst.resolve_viewFrom k 0 tables
  · rw [first, start, resolveFrom_unbeaten]
    · rfl
    · -- a table with the key lies below the lowest memory layer
      intro v member has
      rcases covered with few | absent
      · have high := (Sst.viewFrom_priority 0 tables v member).2
        simp only [Nat.cast_zero, zero_add] at high ⊢
        omega
      · obtain ⟨inside, -⟩ := Sst.viewFrom_mem tables 0 v member
        exact absurd ((findEntry_eq_none k v.1).mpr
          ((Sst.newest_eq_none k tables).mp absent v.1 inside)) has

theorem StoresOnly.layers (stored : Bytes → Prop) (only : db.StoresOnly tables stored) :
    ∀ v ∈ db.scanView tables, ∀ e ∈ v.1, stored e.key := by
  intro v member e inside
  rcases List.mem_append.mp member with memory | table
  · obtain ⟨isLayer, -⟩ := descending_mem _ _ v memory
    rcases List.mem_append.mp isLayer with batch | rest
    · split at batch
      · rw [List.mem_singleton.mp batch] at inside
        -- an entry of the snapshot is some record of the batch
        have found := findEntry_mem _ (sortedBatch_ascending _) e inside
        rw [findEntry_sortedBatch] at found
        obtain ⟨rec, last, rfl⟩ := Option.map_eq_some_iff.mp found
        exact only.batch rec (List.mem_reverse.mp (List.mem_of_find?_eq_some last))
      · cases batch
    · rcases List.mem_cons.mp rest with same | queue
      · rw [same] at inside
        exact only.active e inside
      · obtain ⟨entry, inQueue, same⟩ := List.mem_map.mp queue
        rw [← same] at inside
        exact only.queue entry (List.mem_reverse.mp inQueue) e inside
  · exact only.tables v.1 (Sst.viewFrom_mem tables 0 v table).1 e inside

theorem StoresOnly.imp (stored more : Bytes → Prop) (only : db.StoresOnly tables stored)
    (weaker : ∀ k, stored k → more k) : db.StoresOnly tables more :=
  ⟨fun rec member => weaker _ (only.batch rec member), fun e member => weaker _ (only.active e member),
    fun entry inQueue e member => weaker _ (only.queue entry inQueue e member),
    fun es inTables e member => weaker _ (only.tables es inTables e member)⟩

/-- With at most a million queued memtables no priority is negative. -/
theorem scanView_mergeable (stores : List.Forall₂ Sst.Reader.Stores db.sstables tables)
    (start : Bytes) (short : db.pendingFlush.length ≤ 1000000)
    (keyed : ∀ v ∈ db.scanView tables, ∀ e ∈ v.1, start ≤ e.key → e.key ≠ []) :
    Mergeable ((db.scanView tables).map fun v => (fromKey start v.1, v.2)) := by
  have lowest := db.topPriority_sub
  constructor
  · intro v member
    obtain ⟨w, inView, rfl⟩ := List.mem_map.mp member
    have ascending : Ascending w.1 := by
      rcases List.mem_append.mp inView with memory | table
      · exact (db.memoryLayers_spec w.1 (descending_mem _ _ w memory).1).1
      · obtain ⟨r, -, stored⟩ := stores.exists_left w.1 (Sst.viewFrom_mem tables 0 w table).1
        exact stored.ascending
    exact ascending.sublist (Iterator.fromKey_sublist start w.1)
  · intro v member e inside
    obtain ⟨w, inView, rfl⟩ := List.mem_map.mp member
    obtain ⟨inLayer, above⟩ := (Iterator.mem_fromKey start w.1 e).mp inside
    exact keyed w inView e inLayer above
  · intro v member
    obtain ⟨w, inView, rfl⟩ := List.mem_map.mp member
    rcases List.mem_append.mp inView with memory | table
    · have := (descending_mem _ _ w memory).2.1
      simp only
      omega
    · exact (Sst.viewFrom_mem tables 0 w table).2

theorem exists_descending (p : Int) (layers : List (List Entry)) (es : List Entry)
    (member : es ∈ layers) : ∃ v ∈ descending p layers, v.1 = es := by
  induction layers generalizing p with
  | nil => cases member
  | cons first layers ih =>
    rcases List.mem_cons.mp member with rfl | later
    · exact ⟨(es, p), List.mem_cons_self, rfl⟩
    · obtain ⟨v, inside, is⟩ := ih (p - 1) later
      exact ⟨v, List.mem_cons_of_mem _ inside, is⟩

theorem StoresOnly.newest (stored : Bytes → Prop) (only : db.StoresOnly tables stored) (k : Bytes)
    (e : Entry) (found : db.newestEntry tables k = some e) : stored k := by
  rw [db.newestEntry_eq tables k] at found
  cases memory : db.memoryLayers.findSome? (findEntry k) with
  | some x =>
    obtain ⟨es, isLayer, here⟩ := List.exists_of_findSome?_eq_some memory
    obtain ⟨v, inView, rfl⟩ := exists_descending db.topPriority _ es isLayer
    obtain ⟨key, inside⟩ := findEntry_key k v.1 x here
    rw [← key]
    exact only.layers db tables stored v (List.mem_append_left _ inView) x inside
  | none =>
    rw [memory, Option.none_or] at found
    obtain ⟨es, member, inside, key⟩ := Sst.newest_mem k tables e found
    rw [← key]
    exact only.tables es member e inside

/-- What a store holds is what it has an entry for. -/
theorem storesOnly_newest : db.StoresOnly tables fun k => db.newestEntry tables k ≠ none where
  batch rec member := by
    simp only [newestEntry, ne_eq, Option.or_eq_none_iff, Option.map_eq_none_iff, lastRecord]
    exact fun absent => by simpa using List.find?_eq_none.mp absent.1 rec (List.mem_reverse.mpr member)
  active e member := by
    simp only [newestEntry, ne_eq, Option.or_eq_none_iff, findEntry_eq_none]
    exact fun absent => absent.2.1 e member rfl
  queue entry inQueue e member := by
    simp only [newestEntry, ne_eq, Option.or_eq_none_iff, List.findSome?_eq_none_iff,
      findEntry_eq_none]
    exact fun absent => absent.2.2.1 entry (List.mem_reverse.mpr inQueue) e member rfl
  tables es inTables e member := by
    simp only [newestEntry, ne_eq, Option.or_eq_none_iff, Sst.newest_eq_none]
    exact fun absent => absent.2.2.2 es inTables e member rfl

end DB

/-! ### Scans that go wrong -/

section Scans

variable (db : DB) (tables : List (List Entry))
  (stores : List.Forall₂ Sst.Reader.Stores db.sstables tables) (opened : db.closed = false)
  (start stop : Bytes)

theorem minKeyFrom_blind {ι ε : Type} (I : Iterator.Interface ι ε) (srcs : List (Iterator.Source ι))
    (blind : ∀ s ∈ srcs, I.valid s.it = false ∨ I.key s.it = none) :
    Iterator.minKeyFrom I none srcs = none := by
  induction srcs with
  | nil => rfl
  | cons s srcs ih =>
    obtain ⟨here, later⟩ := List.forall_mem_cons.mp blind
    rw [Iterator.minKeyFrom]
    rcases here with invalid | noKey
    · rw [invalid]
      exact ih later
    · rw [noKey]
      simp only [true_or, ite_self]
      exact ih later

include stores opened in
/-- Where every source is empty or stands on the empty key, nothing is shown. -/
theorem scan_nothing
    (blind : ∀ v ∈ db.scanView tables, ∀ e es, fromKey start v.1 = e :: es → e.key = []) :
    ∃ it, db.scan start stop = .ok it ∧ ∀ fuel, it.collect fuel = ([], none) := by
  obtain ⟨srcs, sought, shows, -⟩ := exists_sought db tables stores start
  have none_ : Iterator.minKeyAcrossSources scanInterface.toInterface srcs = none := by
    apply minKeyFrom_blind
    intro s member
    obtain ⟨v, inside, yields, -⟩ := shows.exists_right s member
    obtain ⟨w, inView, rfl⟩ := List.mem_map.mp inside
    cases left : fromKey start w.1 with
    | nil =>
      rw [left] at yields
      exact .inl yields
    | cons e es =>
      rw [left] at yields
      right
      rw [yields.2.1, blind w inView e es left]
      rfl
  have started := scan_eq db opened start stop srcs sought
  have bound : db.scanBound = (db.scanBound - 1) + 1 := by
    rw [DB.scanBound]
    rfl
  rw [Iterator.MergeIterator.advance, bound, Iterator.mergeStep, none_] at started
  refine ⟨_, started, fun fuel => ?_⟩
  cases fuel with
  | zero => rfl
  | succ fuel => rfl

include stores opened in
/-- A sorted view shows what the merge makes of the sources. -/
theorem SortedView.newest_of_live (view : SortedView db tables start stop)
    (mergeable : Mergeable ((db.scanView tables).map fun v => (fromKey start v.1, v.2)))
    (k v : Bytes) (inRange : InRange start stop k) (isLive : live k (db.scanView tables) = some v) :
    ∃ e, db.newestEntry tables k = some e ∧ e.tombstone = false ∧ e.value = v := by
  obtain ⟨it, pairs, bound, scanned, collected, -, exactly⟩ := view
  obtain ⟨it', pairs', scanned', collected', -, shown⟩ :=
    scan_live db tables stores opened start stop mergeable
  rw [scanned] at scanned'
  cases scanned'
  have same : pairs = pairs' := by
    have first := collected (max bound db.scanBound) (by omega)
    have second := collected' (max bound db.scanBound) (by omega)
    exact (Prod.mk.inj (first.symm.trans second)).1
  exact ((exactly k v).mp (same ▸ (shown k v).mpr ⟨inRange, isLive⟩)).2

include stores opened in
/-- Where only sources of negative priority have an entry, no entry wins: the scan shows the
empty key with an empty value. -/
theorem scan_nameless (negative : ∀ v ∈ db.scanView tables, v.1 = [] ∨ v.2 < 0)
    (keyed : ∀ v ∈ db.scanView tables, ∀ e ∈ v.1, e.key ≠ [])
    (some_ : ∃ v ∈ db.scanView tables, fromKey start v.1 ≠ []) :
    ∃ it, db.scan start stop = .ok it ∧ ∀ fuel, ([], []) ∈ (it.collect (fuel + 1)).1 := by
  obtain ⟨srcs, sought, shows, -⟩ := exists_sought db tables stores start
  have keyed' : ∀ v ∈ (db.scanView tables).map fun v => (fromKey start v.1, v.2),
      ∀ e ∈ v.1, e.key ≠ [] := by
    intro v member e inside
    obtain ⟨w, inView, rfl⟩ := List.mem_map.mp member
    exact keyed w inView e ((Iterator.fromKey_sublist start w.1).subset inside)
  have smallest := Iterator.minKeyAcrossSources_spec scanInterface.toInterface srcs _
    (Iterator.heads_of_shows _ srcs _ shows keyed')
  cases found : Iterator.minKeyAcrossSources scanInterface.toInterface srcs with
  | none =>
    rw [found] at smallest
    obtain ⟨v, inView, nonempty⟩ := some_
    exact absurd (smallest _ (List.mem_map_of_mem inView)) nonempty
  | some m =>
    obtain ⟨srcs', advanced, -⟩ := Iterator.advanceAll_ok scanInterface.toInterface m srcs _ shows
    have winner : Iterator.winnerFrom scanInterface.toInterface m ⟨-1, none, none, false⟩ srcs =
        ⟨-1, none, none, false⟩ := by
      apply Iterator.winnerFrom_unbeaten
      intro s member stands
      obtain ⟨v, inside, yields, same⟩ := shows.exists_right s member
      obtain ⟨w, inView, rfl⟩ := List.mem_map.mp inside
      rcases negative w inView with empty | below
      · rw [empty] at yields
        have invalid : scanInterface.valid s.it = false := yields
        simp [Iterator.standsOn, invalid] at stands
      · rw [same]
        exact Int.le_sub_one_of_lt below
    have started := scan_eq db opened start stop srcs sought
    have bound : db.scanBound = (db.scanBound - 1) + 1 := by
      rw [DB.scanBound]
      rfl
    rw [Iterator.MergeIterator.advance, bound, Iterator.mergeStep, found] at started
    simp only [winner, advanced, Except.ok_bind, Bool.false_and, Bool.false_eq_true,
      if_false] at started
    refine ⟨_, started, fun fuel => ?_⟩
    rw [ScanIterator.collect, if_pos]
    · simp only [Slice.bytes_none]
      split
      · exact List.mem_cons_self
      · exact List.mem_cons_self
    · -- the empty key lies before every end
      simp only [ScanIterator.valid, Iterator.MergeIterator.isValid, Option.isNone_none,
        Bool.and_self, Bool.not_true, Bool.false_eq_true, if_false, Slice.bytes_none]
      split
      · rfl
      next bounded =>
        apply decide_eq_true
        exact Sst.empty_lt stop (fun none_ => bounded (by rw [none_]; rfl))

/-! ### One store -/

include stores opened in
/-- A scan of one open store is the sorted view, if the store has nothing at an empty start, at
most a million queued memtables (or nothing at the start or above), and at most 1,000,001
queued memtables and tables (or no key of the range that fits a table). -/
theorem scan_sortedView (noEmpty : start = [] → db.newestEntry tables [] = none)
    (short : db.pendingFlush.length ≤ 1000000 ∨ ∀ k, db.newestEntry tables k ≠ none → k < start)
    (covered : db.pendingFlush.length + tables.length ≤ 1000001 ∨
      ∀ k, db.newestEntry tables k ≠ none → InRange start stop k → 2 ^ 32 ≤ k.length) :
    SortedView db tables start stop := by
  have only := db.storesOnly_newest tables
  rcases short with short | below
  · have keyed : ∀ v ∈ db.scanView tables, ∀ e ∈ v.1, start ≤ e.key → e.key ≠ [] := by
      intro v member e inside above isEmpty
      rw [isEmpty] at above
      refine only.layers db tables _ v member e inside ?_
      rw [isEmpty]
      exact noEmpty (le_antisymm above (not_lt.mp (List.not_lt_nil start)))
    obtain ⟨it, pairs, scanned, collected, sorted, exactly⟩ := scan_live db tables stores opened
      start stop (db.scanView_mergeable tables stores start short keyed)
    refine ⟨it, pairs, db.scanBound, scanned, collected, sorted, fun k v => ?_⟩
    rw [exactly k v]
    -- in the range the best entry is the newest one
    refine and_congr_right fun inRange => ?_
    have newest : resolve k (db.scanView tables) = db.newestEntry tables k := by
      refine db.resolve_scanView tables k short (covered.imp_right fun long => ?_)
      rw [Sst.newest_eq_none]
      rintro es inTables e inside rfl
      obtain ⟨r, -, stored'⟩ := stores.exists_left es inTables
      have fits := (stored'.fits e inside).key
      have tooLong := long e.key (only.tables es inTables e inside) inRange
      omega
    rw [live, newest]
    cases db.newestEntry tables k with
    | none => simp
    | some e => cases dead : e.tombstone <;> simp [dead]
  · -- no source has an entry in the range
    obtain ⟨it, scanned, nothing⟩ := scan_nothing db tables stores opened start stop (by
      intro v member e es left
      have inside : e ∈ fromKey start v.1 := by rw [left]; simp
      obtain ⟨inLayer, above⟩ := (Iterator.mem_fromKey start v.1 e).mp inside
      exact absurd (below e.key (only.layers db tables _ v member e inLayer))
        (not_lt.mpr above))
    refine ⟨it, [], 0, scanned, fun fuel _ => nothing fuel, List.Pairwise.nil, fun k v => ?_⟩
    simp only [List.not_mem_nil, false_iff, not_and, not_exists]
    intro inRange e newest
    exact absurd (below k (Option.ne_none_iff_exists'.mpr ⟨e, newest⟩)) (not_lt.mpr inRange.1)

end Scans

/-! ### States of a given shape -/

/-- A memtable with one live entry. -/
def singleton (k v : Bytes) : SkipList := SkipList.new.put k v fun _ => false

theorem entries_singleton (k v : Bytes) : (singleton k v).entries = [⟨k, v, false⟩] := by
  rw [singleton, SkipList.entries, SkipList.toMap_put, SkipList.toMap_new]
  rfl

theorem entries_new : SkipList.new.entries = [] := by
  rw [SkipList.entries, SkipList.toMap_new]
  rfl

/-- A store with `q` queued memtables whose lowest memory layer has the single entry. -/
def lowestHolds (q : Nat) (k v : Bytes) (readers : List Sst.Reader) : DB :=
  match q with
  | 0 => { emptyDB with active := singleton k v, sstables := readers }
  | q + 1 => { emptyDB with
      pendingFlush := ⟨singleton k v, 0⟩ :: List.replicate q ⟨SkipList.new, 0⟩
      sstables := readers }

section Lowest

variable (q : Nat) (k v : Bytes) (readers : List Sst.Reader)

theorem lowestHolds_closed : (lowestHolds q k v readers).closed = false := by
  cases q <;> rfl

theorem lowestHolds_queue : (lowestHolds q k v readers).pendingFlush.length = q := by
  cases q with
  | zero => rfl
  | succ q => simp [lowestHolds]

theorem lowestHolds_sstables : (lowestHolds q k v readers).sstables = readers := by
  cases q <;> rfl

theorem lowestHolds_memory : (lowestHolds q k v readers).memoryLayers =
    List.replicate q [] ++ [[⟨k, v, false⟩]] := by
  have noBatch : sortedBatch [] = [] := rfl
  cases q with
  | zero => simp [lowestHolds, DB.memoryLayers, emptyDB, noBatch, entries_singleton]
  | succ q =>
    simp only [lowestHolds, DB.memoryLayers, emptyDB, noBatch, List.length_nil, lt_self_iff_false,
      if_false, List.nil_append, entries_new, List.reverse_cons, List.reverse_replicate,
      List.map_append, List.map_replicate, List.map_cons, List.map_nil, entries_singleton,
      List.replicate_succ, List.cons_append]

theorem lowestHolds_view (tables : List (List Entry)) :
    (lowestHolds q k v readers).scanView tables =
      descending 1000000 (List.replicate q []) ++
        ([⟨k, v, false⟩], 1000000 - (q : Int)) :: Sst.viewFrom 0 tables := by
  have top : (lowestHolds q k v readers).topPriority = 1000000 := by cases q <;> rfl
  rw [DB.scanView, top, lowestHolds_memory, descending_append, List.length_replicate, descending,
    descending, List.append_assoc]
  rfl

theorem lowestHolds_newest (tables : List (List Entry)) (j : Bytes) :
    (lowestHolds q k v readers).newestEntry tables j =
      if k = j then some ⟨k, v, false⟩ else Sst.newest j tables := by
  have empties : (List.replicate q ([] : List Entry)).findSome? (findEntry j) = none := by
    rw [List.findSome?_eq_none_iff]
    intro es member
    rw [List.eq_of_mem_replicate member]
    rfl
  rw [DB.newestEntry_eq, lowestHolds_memory, List.findSome?_append, empties, Option.none_or,
    List.findSome?_cons, findEntry_cons]
  by_cases same : k = j
  · simp [same]
  · simp [same, findEntry]

theorem lowestHolds_only (tables : List (List Entry)) (stored : Bytes → Prop) (known : stored k)
    (rest : ∀ es ∈ tables, ∀ e ∈ es, stored e.key) :
    (lowestHolds q k v readers).StoresOnly tables stored := by
  constructor
  · cases q <;> simp [lowestHolds, emptyDB]
  · cases q with
    | zero => simp [lowestHolds, emptyDB, entries_singleton, known]
    | succ q => simp [lowestHolds, emptyDB, entries_new]
  · cases q with
    | zero => simp [lowestHolds, emptyDB]
    | succ q =>
      refine List.forall_mem_cons.mpr ⟨by simp [entries_singleton, known], ?_⟩
      intro entry member
      rw [List.eq_of_mem_replicate member]
      simp [entries_new]
  · exact rest

theorem resolveFrom_blank (j : Bytes) (view : View) (blank : ∀ w ∈ view, w.1 = [])
    (best : Int × Option Entry) : resolveFrom j best view = best := by
  apply resolveFrom_unbeaten
  intro w member has
  rw [blank w member] at has
  exact absurd rfl has

/-- A newest table with a position above the priority of the memtable wins over it. -/
theorem lowestHolds_resolve (t : Nat) (old : Bytes) (few : q ≤ 1000000) (many : 1000000 < q + t) :
    resolve k ((lowestHolds q k v readers).scanView (List.replicate t [] ++ [[⟨k, old, false⟩]])) =
      some ⟨k, old, false⟩ := by
  have single (x : Bytes) : findEntry k [⟨k, x, false⟩] = some ⟨k, x, false⟩ := by
    rw [findEntry_cons, if_pos rfl]
  have memory : (-1 : Int) < 1000000 - q := by omega
  have table : (1000000 - q : Int) < Int.ofNat (0 + t) := by
    simp only [Nat.zero_add, Int.ofNat_eq_natCast]
    omega
  rw [resolve, lowestHolds_view, resolveFrom_append, resolveFrom_blank k (descending _ _),
    resolveFrom, single, Sst.viewFrom_append]
  · simp only [memory, if_true]
    rw [resolveFrom_append, resolveFrom_blank k (Sst.viewFrom 0 _), List.length_replicate,
      Sst.viewFrom, Sst.viewFrom, resolveFrom, single]
    · simp only [table, if_true, resolveFrom]
    · exact fun w member => List.eq_of_mem_replicate (Sst.viewFrom_mem _ 0 w member).1
  · exact fun w member => List.eq_of_mem_replicate (descending_mem _ _ w member).1

end Lowest

/-- A table without entries. -/
def blankTable : Sst.Reader := Sst.readerOf 0 0 [] (.new 8 7)

theorem blankTables_store (n : Nat) : List.Forall₂ Sst.Reader.Stores (List.replicate n blankTable)
    (List.replicate n []) := by
  have blank : blankTable.Stores [] := ⟨List.Pairwise.nil, by simp, [], rfl, .nil⟩
  induction n with
  | zero => exact .nil
  | succ n ih => exact .cons blank ih

theorem tableOf_stores_single (k v : Bytes) (fitsKey : k.length < 2 ^ 32) (fitsValue : v.length < 2 ^ 32) :
    (tableOf 1 [⟨k, v, false⟩]).Stores [⟨k, v, false⟩] := by
  refine (tableOf_holds 1 _ (by simp) (List.pairwise_singleton _ _)
    (by simpa using ⟨fitsKey, fitsValue⟩) ⟨?_, by simp⟩).toStores
  have filter : (Sst.Writer.filterOf (.new 16 7) [⟨k, v, false⟩]).encode.length = 10 := by
    have sized := Sst.Filter.new_sized 16 7 (by omega) (by omega)
    have bits := (sized.add (Sst.Filter.new 16 7) k).bits
    have two : ((Sst.Filter.new 16 7).add k).m = 16 := by rw [Sst.Filter.add_bits _ sized]; rfl
    rw [Sst.Writer.filterOf, List.foldl_cons, List.foldl_nil, Sst.Filter.encode, List.length_append,
      List.length_append, putUint32_length, putUint32_length, bits, two]
  have data : (Sst.dataOf [[⟨k, v, false⟩]]).length = 9 + k.length + v.length := by
    simp [Sst.dataOf, Sst.blockBytes, Entry.encoded_length]
  have index : (Sst.encodeIndex (Sst.indexFrom 0 [[⟨k, v, false⟩]])).length = 20 + k.length := by
    simp [Sst.encodeIndex, Sst.indexFrom, Sst.IndexEntry.encoded_length, Sst.lastKeyOf]
  show (Sst.tableFile [[⟨k, v, false⟩]] (Sst.Writer.filterOf (.new 16 7) [⟨k, v, false⟩])).length ≤
    Sst.maxInt
  rw [Sst.tableFile_length, filter, data, index, Sst.footerSize, Sst.maxInt]
  omega

/-! ### The theorem -/

section Exact

variable (q s : Nat) (stored : Bytes → Prop) (start stop : Bytes)

/-- Every scan of the range over a store with `q` queued memtables and `s` tables, with only
the given keys in it, is the sorted view. -/
def AlwaysSorted : Prop :=
  ∀ db tables, db.closed = false → db.pendingFlush.length = q →
    List.Forall₂ Sst.Reader.Stores db.sstables tables → tables.length = s →
    db.StoresOnly tables stored → SortedView db tables start stop

/-- A scan that meets the empty key does not show it. -/
theorem AlwaysSorted.empty_key (always : AlwaysSorted q s stored start stop) (zero : start = []) :
    ¬stored [] := by
  intro held
  subst zero
  have stores := blankTables_store s
  rw [← lowestHolds_sstables q [] [1] (List.replicate s blankTable)] at stores
  have shown := always _ _ (lowestHolds_closed q [] [1] _) (lowestHolds_queue q [] [1] _) stores
    (by simp) (lowestHolds_only q [] [1] _ _ stored held (by simp))
  obtain ⟨it, pairs, bound, scanned, collected, -, exactly⟩ := shown
  obtain ⟨it', scanned', nothing⟩ := scan_nothing _ _ stores (lowestHolds_closed q [] [1] _) [] stop (by
    intro v member e es left
    have inside : e ∈ v.1 := (Iterator.fromKey_sublist [] v.1).subset (by rw [left]; simp)
    exact (lowestHolds_only q [] [1] _ (List.replicate s []) (· = []) rfl (by simp)).layers _ _ _ v
      member e inside)
  rw [scanned] at scanned'
  cases scanned'
  have none_ := (collected bound (Nat.le_refl _)).symm.trans (nothing bound)
  cases none_
  have missing := (exactly [] [1]).mpr ⟨⟨le_refl _, ?_⟩, ⟨[], [1], false⟩, ?_, rfl, rfl⟩
  · cases missing
  · by_cases unbounded : stop = []
    · exact .inl unbounded
    · exact .inr (Sst.empty_lt stop unbounded)
  · rw [lowestHolds_newest, if_pos rfl]

theorem AlwaysSorted.keyed (always : AlwaysSorted q s stored start stop) (k : Bytes) (held : stored k)
    (above : start ≤ k) : k ≠ [] := by
  rintro rfl
  have zero : start = [] := le_antisymm above (not_lt.mp (List.not_lt_nil start))
  exact always.empty_key q s stored start stop zero held

/-- A memtable behind a million others has a negative priority and cannot win. -/
theorem AlwaysSorted.queue (always : AlwaysSorted q s stored start stop) :
    q ≤ 1000000 ∨ ∀ k, stored k → k < start := by
  by_contra wrong
  push Not at wrong
  obtain ⟨long, k, held, above⟩ := wrong
  have nonempty := always.keyed q s stored start stop k held above
  have stores := blankTables_store s
  rw [← lowestHolds_sstables q k [1] (List.replicate s blankTable)] at stores
  have shown := always _ _ (lowestHolds_closed q k [1] _) (lowestHolds_queue q k [1] _) stores
    (by simp) (lowestHolds_only q k [1] _ _ stored held (by simp))
  obtain ⟨it, pairs, bound, scanned, collected, -, exactly⟩ := shown
  have view := lowestHolds_view q k [1] (List.replicate s blankTable) (List.replicate s [])
  have keys := (lowestHolds_only q k [1] (List.replicate s blankTable) (List.replicate s []) (· = k)
    rfl (by simp)).layers
  obtain ⟨it', scanned', nameless⟩ := scan_nameless _ _ stores (lowestHolds_closed q k [1] _) start
    stop (by
      intro v member
      rw [view] at member
      rcases List.mem_append.mp member with empty | rest
      · exact .inl (List.eq_of_mem_replicate (descending_mem _ _ v empty).1)
      · rcases List.mem_cons.mp rest with rfl | table
        · right
          simp only
          omega
        · exact .inl (List.eq_of_mem_replicate (Sst.viewFrom_mem _ 0 v table).1))
    (fun v member e inside => by rw [keys v member e inside]; exact nonempty)
    ⟨([⟨k, [1], false⟩], 1000000 - (q : Int)), by rw [view]; simp, by simp [fromKey, above]⟩
  rw [scanned] at scanned'
  cases scanned'
  have first := nameless bound
  rw [collected (bound + 1) (Nat.le_succ _)] at first
  obtain ⟨-, e, newest, -⟩ := (exactly [] []).mp first
  rw [lowestHolds_newest, if_neg nonempty, (Sst.newest_eq_none [] _).mpr (by simp)] at newest
  cases newest

/-- With enough tables the newest of them passes the lowest memory layer. -/
theorem AlwaysSorted.tables (always : AlwaysSorted q s stored start stop) :
    q + s ≤ 1000001 ∨ ∀ k, stored k → InRange start stop k → 2 ^ 32 ≤ k.length := by
  by_contra wrong
  push Not at wrong
  obtain ⟨many, k, held, inRange, short⟩ := wrong
  have nonempty := always.keyed q s stored start stop k held inRange.1
  have queue : q ≤ 1000000 := by
    rcases always.queue q s stored start stop with few | none_
    · exact few
    · exact absurd (none_ k held) (not_lt.mpr inRange.1)
  obtain ⟨t, rfl⟩ : ∃ t, s = t + 1 := ⟨s - 1, by omega⟩
  -- all layers are empty but the lowest memory layer and the newest table
  let readers := List.replicate t blankTable ++ [tableOf 1 [⟨k, [1], false⟩]]
  let tables : List (List Entry) := List.replicate t [] ++ [[⟨k, [1], false⟩]]
  have stores : List.Forall₂ Sst.Reader.Stores (lowestHolds q k [2] readers).sstables tables := by
    rw [lowestHolds_sstables]
    exact List.rel_append (blankTables_store t)
      (.cons (tableOf_stores_single k [1] short (by simp)) .nil)
  have only : (lowestHolds q k [2] readers).StoresOnly tables (· = k) := by
    apply lowestHolds_only
    · rfl
    · intro es member e inside
      rcases List.mem_append.mp member with empty | single
      · rw [List.eq_of_mem_replicate empty] at inside
        cases inside
      · rw [List.mem_singleton.mp single] at inside
        rw [List.mem_singleton.mp inside]
  have shown := always _ tables (lowestHolds_closed q k [2] readers)
    (lowestHolds_queue q k [2] readers) stores (by simp [tables])
    (only.imp _ _ _ stored (fun j same => same ▸ held))
  have mergeable := DB.scanView_mergeable _ tables stores start (by rwa [lowestHolds_queue])
    fun v member e inside _ => by
      rw [only.layers _ _ _ v member e inside]
      exact nonempty
  -- the scan shows the value of the table, the newest one is in memory
  obtain ⟨e, newest, -, value⟩ := shown.newest_of_live _ tables stores
    (lowestHolds_closed q k [2] readers) start stop mergeable k [1] inRange (by
      rw [live, lowestHolds_resolve q k [2] readers t [1] queue (by omega)]
      rfl)
  rw [lowestHolds_newest, if_pos rfl] at newest
  cases newest
  cases value

/-- A scan is the sorted view of every store with `q` queued memtables and `s` tables that
holds the given keys only, if and only if it does not start at an empty key that may be
stored, the queue is at most a million long (or no key lies at the start or above), and
queue and tables together are at most 1,000,001 (or no key of the range fits a table). -/
theorem scan_sortedView_iff : AlwaysSorted q s stored start stop ↔
    (start = [] → ¬stored []) ∧ (q ≤ 1000000 ∨ ∀ k, stored k → k < start) ∧
      (q + s ≤ 1000001 ∨ ∀ k, stored k → InRange start stop k → 2 ^ 32 ≤ k.length) := by
  constructor
  · intro always
    exact ⟨always.empty_key q s stored start stop, always.queue q s stored start stop,
      always.tables q s stored start stop⟩
  · rintro ⟨noEmpty, short, covered⟩ db tables opened rfl stores rfl only
    have held (k : Bytes) (has : db.newestEntry tables k ≠ none) : stored k := by
      obtain ⟨e, newest⟩ := Option.ne_none_iff_exists'.mp has
      exact only.newest db tables stored k e newest
    exact scan_sortedView db tables stores opened start stop
      (fun zero => not_not.mp fun has => noEmpty zero (held [] has))
      (short.imp_right fun below k has => below k (held k has))
      (covered.imp_right fun long k has => long k (held k has))

end Exact

/-- The empty key in the active memtable: `Get` finds it, but a scan of everything shows
nothing at all, not even the key in the newer pending batch. -/
theorem not_sortedView_empty_key :
    let db := { emptyDB with
      pendingBatch := [⟨[98], [2], false⟩]
      active := (SkipList.new.put [] [1] fun _ => false).put [99] [3] fun _ => false }
    db.get [] = .ok (some [1]) ∧ db.get [98] = .ok (some [2]) ∧
      (db.scan [] []).toOption.map ScanIterator.valid = some false ∧ ¬SortedView db [] [] [] := by
  intro db
  have atEnd : (db.scan [] []).toOption.map ScanIterator.valid = some false := by decide +kernel
  refine ⟨by decide +kernel, by decide +kernel, atEnd, ?_⟩
  rintro ⟨it, pairs, bound, scanned, collected, -, exactly⟩
  rw [scanned] at atEnd
  have invalid : it.valid = false := Option.some.inj atEnd
  have nothing := collected (bound + 1) (Nat.le_succ _)
  rw [ScanIterator.collect, invalid] at nothing
  cases nothing
  have missing := (exactly [98] [2]).mpr
    ⟨⟨by decide, .inl rfl⟩, ⟨[98], [2], false⟩, by decide +kernel, rfl, rfl⟩
  cases missing

end PebbleDB.Db
