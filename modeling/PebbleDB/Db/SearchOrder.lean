import PebbleDB.Db.Interleaving
import PebbleDB.Db.Node

/-!
# The search order across a reopen

Lookups search `db.sstables` from its end. `loadSSTables` rebuilds the list from the
sorted live ids, so a reopen keeps the order only if the list is sorted by id. A table
draws its id when its file is begun and enters the list when it is done; two workers that
overlap may do these in opposite orders.
-/
namespace PebbleDB.Db

open Memtable (SkipList)
open Sst (Reader)

namespace Workers

/-- The tables that have an id but are not in the list yet. -/
def pending (w : Workers) : List Reader := w.flusher.readers ++ w.compactor.readers

/-- The list is strictly ascending by id, and once the manifest has the same tables,
`loadSSTables` puts them in the same order. -/
structure SearchOrderKept (w : Workers) : Prop where
  ascending : w.db.sstables.Pairwise fun s t => s.id < t.id
  reopened : w.db.manifest.log.liveSet = idSet w.db.sstables → ∀ ssts fileID readers,
    loadSSTables ssts fileID w.db.manifest.log.liveIDs = .ok readers →
      readers.map Reader.id = w.db.sstables.map Reader.id

/-- As `Open` leaves it: the list is sorted and the counter is at its highest id. -/
structure Opened (w : Workers) : Prop where
  flusher : w.flusher = .idle
  compactor : w.compactor = .idle
  ascending : w.db.sstables.Pairwise fun s t => s.id < t.id
  below : ∀ t ∈ w.db.sstables, t.id ≤ w.db.nextSSTID

/-- When a table enters the list, no table with a lower id is still on its way. The
counter does not wrap around. -/
def Safe (w : Workers) : WorkerStep → Prop
  | .flushWrite _ => w.db.nextSSTID.toNat + 1 < 2 ^ 64
  | .merge => w.db.nextSSTID.toNat + 1 < 2 ^ 64
  | .flushPublish => ∀ t ∈ w.flusher.readers, ∀ n ∈ w.compactor.readers, t.id < n.id
  | .swap => ∀ t ∈ w.flusher.readers, ∀ n ∈ w.compactor.readers, n.id < t.id
  | _ => True

instance (w : Workers) : (i : WorkerStep) → Decidable (w.Safe i)
  | .flushWrite _ => inferInstanceAs (Decidable (_ < _))
  | .merge => inferInstanceAs (Decidable (_ < _))
  | .flushPublish => inferInstanceAs (Decidable (∀ t ∈ _, ∀ n ∈ _, _))
  | .swap => inferInstanceAs (Decidable (∀ t ∈ _, ∀ n ∈ _, _))
  | .flushCommit | .flushRotate | .pick | .build | .setFileSet | .rollback | .compactRotate =>
    .isTrue trivial

end Workers

/-- The list a compaction has built is a part of the present one, followed by its table. -/
def CompactorAt.Extends (sstables : List Reader) : CompactorAt → Prop
  | .built _ _ newReader newList _ => ∃ kept, newList = kept ++ [newReader] ∧ kept.Sublist sstables
  | .manifested _ _ newReader newList =>
    ∃ kept, newList = kept ++ [newReader] ∧ kept.Sublist sstables
  | _ => True

theorem CompactorAt.Extends.mono {sstables more : List Reader} (c : CompactorAt)
    (part : sstables.Sublist more) (extends_ : c.Extends sstables) : c.Extends more := by
  cases c with
  | built comp old new list ids =>
    obtain ⟨kept, eq, inside⟩ := extends_
    exact ⟨kept, eq, inside.trans part⟩
  | manifested comp old new list =>
    obtain ⟨kept, eq, inside⟩ := extends_
    exact ⟨kept, eq, inside.trans part⟩
  | idle | picked | merged | swapped | vanished => trivial

namespace Workers

structure Ordered (w : Workers) : Prop where
  ascending : w.db.sstables.Pairwise fun s t => s.id < t.id
  above : ∀ t ∈ w.db.sstables, ∀ p ∈ w.pending, t.id < p.id
  below : ∀ t ∈ w.db.sstables ++ w.pending, t.id ≤ w.db.nextSSTID
  extends_ : w.compactor.Extends w.db.sstables

variable {w : Workers}

theorem Opened.ordered (opened : w.Opened) : w.Ordered := by
  have none_ : w.pending = [] := by
    rw [pending, opened.flusher, opened.compactor]
    rfl
  refine ⟨opened.ascending, ?_, ?_, ?_⟩
  · rw [none_]
    exact fun _ _ p member => absurd member List.not_mem_nil
  · rw [none_, List.append_nil]
    exact opened.below
  · rw [opened.compactor]
    trivial

theorem Ordered.searchOrderKept (inv : w.Ordered) : w.SearchOrderKept := by
  refine ⟨inv.ascending, ?_⟩
  intro same ssts fileID readers loaded
  rw [(loadSSTables_ok ssts fileID _ readers loaded).1]
  exact w.db.manifest.log.liveIDs_eq _ (List.pairwise_map.mpr inv.ascending) same

/-! ### What every step keeps -/

/-- A step that draws no id and leaves the list. -/
theorem Ordered.keep (inv : w.Ordered) (w' : Workers) (list : w'.db.sstables = w.db.sstables)
    (next : w'.db.nextSSTID = w.db.nextSSTID) (fewer : w'.pending ⊆ w.pending)
    (extends_ : w'.compactor.Extends w'.db.sstables) : w'.Ordered := by
  refine ⟨?_, ?_, ?_, extends_⟩
  · rw [list]
    exact inv.ascending
  · rw [list]
    exact fun t member p waits => inv.above t member p (fewer waits)
  · rw [list, next]
    intro t member
    apply inv.below t
    rcases List.mem_append.mp member with old | waits
    · exact List.mem_append_left _ old
    · exact List.mem_append_right _ (fewer waits)

/-- A step that draws the next id, for a new table or in vain. -/
theorem Ordered.draw (inv : w.Ordered) (w' : Workers) (opened : List Reader)
    (list : w'.db.sstables = w.db.sstables) (next : w'.db.nextSSTID = w.db.nextSSTID + 1)
    (room : w.db.nextSSTID.toNat + 1 < 2 ^ 64) (more : w'.pending ⊆ opened ++ w.pending)
    (fresh : ∀ t ∈ opened, t.id = w.db.nextSSTID + 1)
    (extends_ : w'.compactor.Extends w'.db.sstables) : w'.Ordered := by
  have old : ∀ t ∈ w.db.sstables ++ w.pending, t.id < w.db.nextSSTID + 1 :=
    fun t member => lt_next t.id _ (inv.below t member) room
  refine ⟨?_, ?_, ?_, extends_⟩
  · rw [list]
    exact inv.ascending
  · rw [list]
    intro t member p waits
    rcases List.mem_append.mp (more waits) with new | before
    · rw [fresh p new]
      exact old t (List.mem_append_left _ member)
    · exact inv.above t member p before
  · rw [list, next]
    intro t member
    rcases List.mem_append.mp member with listed | waits
    · exact le_of_lt (old t (List.mem_append_left _ listed))
    · rcases List.mem_append.mp (more waits) with new | before
      · rw [fresh t new]
      · exact le_of_lt (old t (List.mem_append_right _ before))

theorem flushWrite_ordered (env : Env) (inv : w.Ordered) (imm : SkipList)
    (room : w.db.nextSSTID.toNat + 1 < 2 ^ 64) : (w.flushWrite env imm).Ordered := by
  rw [flushWrite]
  cases at_ : w.flusher with
  | idle =>
    have waiting : w.pending = w.compactor.readers := by
      rw [pending, at_]
      rfl
    cases table : writeMemtable env w.db imm with
    | error e =>
      refine inv.draw _ [] rfl rfl room ?_ (fun t member => absurd member List.not_mem_nil)
        inv.extends_
      rw [List.nil_append, waiting]
      exact List.Subset.refl _
    | ok t =>
      obtain ⟨file, _, opened⟩ := writeMemtable_ok env _ _ t table
      refine inv.draw _ [t] rfl rfl room ?_ ?_ inv.extends_
      · rw [waiting]
        exact List.Subset.refl _
      · intro x member
        rw [List.mem_singleton.mp member]
        exact (Sst.openReader_ok _ _ _ t opened).2.1
  | written t | committed t | published => exact inv

theorem flushCommit_ordered (inv : w.Ordered) : w.flushCommit.Ordered := by
  rw [flushCommit]
  cases at_ : w.flusher with
  | written t =>
    have waiting : w.pending = [t] ++ w.compactor.readers := by
      rw [pending, at_]
      rfl
    cases appended : Manifest.appendNewFile w.db.manifest t.id .none with
    | mk manifest err =>
      simp only [appended]
      cases err with
      | some e =>
        refine inv.keep _ rfl rfl ?_ inv.extends_
        rw [waiting]
        exact List.subset_append_right _ _
      | none =>
        refine inv.keep _ rfl rfl ?_ inv.extends_
        rw [waiting]
        exact List.Subset.refl _
  | idle | committed t | published => exact inv

/-- The table goes behind all listed ones and in front of all that are on their way. -/
theorem flushPublish_ordered (inv : w.Ordered) (safe : w.Safe .flushPublish) :
    w.flushPublish.Ordered := by
  rw [Safe] at safe
  rw [flushPublish]
  cases at_ : w.flusher with
  | committed t =>
    have waiting : w.pending = [t] ++ w.compactor.readers := by
      rw [pending, at_]
      rfl
    rw [at_] at safe
    refine ⟨?_, ?_, ?_, inv.extends_.mono _ (List.sublist_append_left _ _)⟩
    · refine List.pairwise_append.mpr ⟨inv.ascending, List.pairwise_singleton _ _, ?_⟩
      intro s listed x new
      rw [List.mem_singleton.mp new]
      exact inv.above s listed t (by rw [waiting]; simp)
    · intro s member p waits
      rcases List.mem_append.mp member with listed | new
      · exact inv.above s listed p (by rw [waiting]; exact List.mem_append_right _ waits)
      · rw [List.mem_singleton.mp new]
        exact safe t (by simp [FlusherAt.readers]) p waits
    · intro s member
      apply inv.below s
      rw [waiting, ← List.append_assoc]
      exact member
  | idle | written t | published => exact inv

theorem flushRotate_ordered (inv : w.Ordered) : w.flushRotate.Ordered := by
  rw [flushRotate]
  cases at_ : w.flusher with
  | published =>
    refine inv.keep _ rfl rfl ?_ inv.extends_
    rw [pending, pending, at_]
    exact List.Subset.refl _
  | idle | written t | committed t => exact inv

theorem pick_ordered (inv : w.Ordered) : w.pick.Ordered := by
  rw [pick]
  cases at_ : w.compactor with
  | idle =>
    have waiting : w.pending = w.flusher.readers ++ [] := by
      rw [pending, at_]
      rfl
    dsimp only
    split
    · exact inv
    · split
      · exact inv
      · split
        · exact inv.keep _ rfl rfl (by rw [waiting]; exact List.Subset.refl _) trivial
        · exact inv
  | picked | merged | built | manifested | swapped | vanished => exact inv

theorem merge_ordered (env : Env) (inv : w.Ordered) (room : w.db.nextSSTID.toNat + 1 < 2 ^ 64) :
    (w.merge env).Ordered := by
  rw [merge]
  cases at_ : w.compactor with
  | picked comp old =>
    have waiting : w.pending = w.flusher.readers ++ [] := by
      rw [pending, at_]
      rfl
    cases result : mergeSSTables env w.db comp with
    | error e =>
      simp only [result]
      refine inv.draw _ [] rfl rfl room ?_ (fun t member => absurd member List.not_mem_nil) trivial
      rw [List.nil_append, waiting]
      exact List.Subset.refl _
    | ok table =>
      simp only [result]
      cases table with
      | none => exact inv.keep _ rfl rfl (by rw [waiting]; exact List.Subset.refl _) trivial
      | some newReader =>
        refine inv.draw _ [newReader] rfl rfl room ?_ ?_ trivial
        · rw [waiting, List.append_nil]
          intro t member
          simpa [pending, CompactorAt.readers, or_comm] using member
        · intro t member
          rw [List.mem_singleton.mp member]
          exact (mergeSSTables_ok env _ _ newReader result).2
  | idle | merged | built | manifested | swapped | vanished => exact inv

theorem build_ordered (inv : w.Ordered) : w.build.Ordered := by
  rw [build]
  cases at_ : w.compactor with
  | merged comp old newReader =>
    have waiting : w.pending = w.flusher.readers ++ [newReader] := by
      rw [pending, at_]
      rfl
    have gaveUp : ({ w with compactor := .idle } : Workers).Ordered := by
      refine inv.keep _ rfl rfl ?_ trivial
      rw [waiting]
      exact fun t member => List.mem_append_left _ (by simpa [pending, CompactorAt.readers] using member)
    dsimp only
    split
    · cases named : liveIDsFromReaders (buildNewList w.db.sstables comp newReader) with
      | error e => exact gaveUp
      | ok liveIDs =>
        refine inv.keep _ rfl rfl (by rw [waiting]; exact List.Subset.refl _) ?_
        exact ⟨_, rfl, List.filter_sublist⟩
    · exact gaveUp
  | idle | picked | built | manifested | swapped | vanished => exact inv

theorem setFileSet_ordered (inv : w.Ordered) : w.setFileSet.Ordered := by
  have extends_ := inv.extends_
  rw [setFileSet]
  cases at_ : w.compactor with
  | built comp old newReader newList liveIDs =>
    have waiting : w.pending = w.flusher.readers ++ [newReader] := by
      rw [pending, at_]
      rfl
    rw [at_] at extends_
    cases appended : Manifest.appendSetFileSet w.db.manifest liveIDs .none with
    | mk manifest err =>
      simp only [appended]
      cases err with
      | some e =>
        refine inv.keep _ rfl rfl ?_ trivial
        rw [waiting]
        exact fun t member => List.mem_append_left _ (by simpa [pending, CompactorAt.readers] using member)
      | none => exact inv.keep _ rfl rfl (by rw [waiting]; exact List.Subset.refl _) extends_
  | idle | picked | merged | manifested | swapped | vanished => exact inv

/-- The merged table goes to the end; its id must be the highest there. -/
theorem swap_ordered (inv : w.Ordered) (safe : w.Safe .swap) : w.swap.Ordered := by
  have extends_ := inv.extends_
  rw [Safe] at safe
  rw [swap]
  cases at_ : w.compactor with
  | manifested comp old newReader newList =>
    have waiting : w.pending = w.flusher.readers ++ [newReader] := by
      rw [pending, at_]
      rfl
    rw [at_] at extends_ safe
    obtain ⟨kept, rfl, part⟩ := extends_
    have fewer : w.flusher.readers ⊆ w.pending := by
      rw [waiting]
      exact List.subset_append_left _ _
    have new : newReader ∈ w.pending := by
      rw [waiting]
      simp
    dsimp only
    split
    · refine ⟨?_, ?_, ?_, trivial⟩
      · refine List.pairwise_append.mpr
          ⟨inv.ascending.sublist part, List.pairwise_singleton _ _, ?_⟩
        intro s listed x last
        rw [List.mem_singleton.mp last]
        exact inv.above s (part.subset listed) newReader new
      · intro s member p waits
        have waits : p ∈ w.flusher.readers := by
          simpa [pending, CompactorAt.readers] using waits
        rcases List.mem_append.mp member with listed | last
        · exact inv.above s (part.subset listed) p (fewer waits)
        · rw [List.mem_singleton.mp last]
          exact safe p waits newReader (by simp [CompactorAt.readers])
      · intro s member
        apply inv.below s
        simp only [pending, CompactorAt.readers, List.append_nil, List.mem_append,
          List.mem_singleton] at member
        rcases member with (listed | rfl) | waits
        · exact List.mem_append_left _ (part.subset listed)
        · exact List.mem_append_right _ new
        · exact List.mem_append_right _ (fewer waits)
    · refine inv.keep _ rfl rfl ?_ trivial
      intro t member
      exact fewer (by simpa [pending, CompactorAt.readers] using member)
  | idle | picked | merged | built | swapped | vanished => exact inv

theorem rollback_ordered (inv : w.Ordered) : w.rollback.Ordered := by
  rw [rollback]
  cases at_ : w.compactor with
  | vanished old =>
    refine inv.keep _ rfl rfl ?_ trivial
    rw [pending, pending, at_]
    exact List.Subset.refl _
  | idle | picked | merged | built | manifested | swapped => exact inv

theorem compactRotate_ordered (inv : w.Ordered) : w.compactRotate.Ordered := by
  rw [compactRotate]
  cases at_ : w.compactor with
  | swapped =>
    refine inv.keep _ rfl rfl ?_ trivial
    rw [pending, pending, at_]
    exact List.Subset.refl _
  | idle | picked | merged | built | manifested | vanished => exact inv

theorem step_ordered (env : Env) (w : Workers) (i : WorkerStep) (inv : w.Ordered)
    (safe : w.Safe i) : (w.step env i).Ordered := by
  cases i with
  | flushWrite imm => exact flushWrite_ordered env inv imm safe
  | flushCommit => exact flushCommit_ordered inv
  | flushPublish => exact flushPublish_ordered inv safe
  | flushRotate => exact flushRotate_ordered inv
  | pick => exact pick_ordered inv
  | merge => exact merge_ordered env inv safe
  | build => exact build_ordered inv
  | setFileSet => exact setFileSet_ordered inv
  | swap => exact swap_ordered inv safe
  | rollback => exact rollback_ordered inv
  | compactRotate => exact compactRotate_ordered inv

/-- In every interleaving in which a table enters the list only when no table with a lower
id is on its way, the list stays sorted by id. -/
theorem searchOrderKept_of_safe (env : Env) (w : Workers) (steps : List WorkerStep)
    (opened : w.Opened) (safe : Machine.Always (step env) Safe w steps) :
    (Machine.run (step env) w steps).SearchOrderKept :=
  (Machine.run_invariant (step env) Safe Ordered (step_ordered env) w steps opened.ordered
    safe).searchOrderKept

/-- A store just created that compacts two tables. -/
def twoTables : Workers := ⟨{ emptyDB with compactThreshold := 2 }, .idle, .idle⟩

theorem twoTables_opened : twoTables.Opened :=
  ⟨rfl, rfl, List.Pairwise.nil, fun _ member => absurd member List.not_mem_nil⟩

/-- The flush draws id 3 and the compaction id 4; they overlap, but the flush is listed
first. -/
theorem searchOrderKept_overlapping :
    let w := Machine.run (step smallEnv) twoTables (WorkerRun.flush [97] ++ WorkerRun.flush [98] ++
      [.pick, .flushWrite (SkipList.new.put [99] [1] fun _ => false), .merge, .flushCommit,
        .flushPublish, .build, .setFileSet, .swap, .compactRotate, .flushRotate])
    w.SearchOrderKept ∧ w.db.sstables.map Reader.id = [3, 4] :=
  ⟨searchOrderKept_of_safe smallEnv twoTables _ twoTables_opened (by decide +kernel),
    by decide +kernel⟩

/-- The compaction draws id 3, a flush with id 4 is listed during the merge, and the merged
table goes behind it. -/
theorem not_searchOrderKept_flush_during_merge :
    twoTables.Opened ∧ ¬(Machine.run (step smallEnv) twoTables (WorkerRun.flush [97] ++
      WorkerRun.flush [98] ++ [.pick, .merge] ++ WorkerRun.flush [99] ++
      [.build, .setFileSet, .swap])).SearchOrderKept := by
  refine ⟨twoTables_opened, ?_⟩
  intro kept
  have list : ¬((Machine.run (step smallEnv) twoTables (WorkerRun.flush [97] ++
      WorkerRun.flush [98] ++ [.pick, .merge] ++ WorkerRun.flush [99] ++
      [.build, .setFileSet, .swap])).db.sstables.map Reader.id).Pairwise (· < ·) := by
    decide +kernel
  exact list (List.pairwise_map.mpr kept.ascending)

end Workers

end PebbleDB.Db
