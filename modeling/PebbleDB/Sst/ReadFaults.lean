import PebbleDB.Sst.Merge

/-!
# Tables whose reads fail

The count and the merge with a failure of `readBlock` for any block. An iterator serves the blocks before the first failing one and keeps the error;
callers see it through `Next`, so not at all when the first block fails: the iterator is
then invalid from the start, and nobody calls `Next`.
-/
namespace PebbleDB.Sst

/-! ### What a failing iterator serves -/

theorem served_prefix (faults : BlockFaults) (i : Nat) (blocks : List (List Entry)) :
    (served faults i blocks).1 <+: blocks.flatten := by
  induction blocks generalizing i with
  | nil => exact List.prefix_rfl
  | cons block blocks ih =>
    rw [served]
    split
    · exact List.nil_prefix
    · rw [List.flatten_cons]
      exact List.prefix_append_right_inj block |>.mpr (ih (i + 1))

/-- Everything is served exactly when no block fails. -/
theorem served_faultless (faults : BlockFaults) (i : Nat) (blocks : List (List Entry)) :
    ((served faults i blocks).2 = none ↔ ∀ j < blocks.length, faults (i + j) = none) ∧
      ((served faults i blocks).2 = none → (served faults i blocks).1 = blocks.flatten) := by
  induction blocks generalizing i with
  | nil => simp [served]
  | cons block blocks ih =>
    obtain ⟨iff_, whole⟩ := ih (i + 1)
    rw [served]
    cases here : faults i with
    | some e =>
      refine ⟨⟨by simp, fun all => ?_⟩, by simp⟩
      have first := all 0 (by simp)
      rw [Nat.add_zero, here] at first
      cases first
    | none =>
      refine ⟨⟨fun none_ => ?_, fun all => iff_.mpr fun j small => ?_⟩, fun none_ => ?_⟩
      · rintro (_ | j) small
        · exact here
        · have := iff_.mp none_ j (by simpa using small)
          rwa [Nat.add_right_comm] at this
      · have := all (j + 1) (by simpa using small)
        rwa [Nat.add_right_comm]
      · rw [List.flatten_cons, ← whole none_]

/-- What a new iterator serves of a table under the given failures. -/
structure Reader.Serving (r : Reader) (es : List Entry) (faults : BlockFaults)
    (part : List Entry) (fault : Option Error) : Prop where
  serves : Iterator.Serves FaultyIterator.adapter fault (r.newIteratorWith faults) part
  within : part <+: es
  bounded : part.length ≤ r.maxEntries
  whole : fault = none → part = es
  faultless : fault = none ↔ ∀ i < r.index.length, faults i = none
  started : r.index ≠ [] → faults 0 = none → part ≠ []
  swallowed : r.index ≠ [] → faults 0 ≠ none → part = []
  empty : r.index = [] ↔ es = []

theorem Reader.Stores.serving (r : Reader) (es : List Entry) (stores : r.Stores es)
    (faults : BlockFaults) : ∃ part fault, r.Serving es faults part fault := by
  have small := stores.length_le r es
  obtain ⟨-, fits, blocks, rfl, layout⟩ := stores
  have within := served_prefix faults 0 blocks
  obtain ⟨faultless, whole⟩ := served_faultless faults 0 blocks
  have count := layout.length_eq
  have shape : r.index = [] ∧ blocks = [] ∨
      r.index ≠ [] ∧ ∃ first more, blocks = first :: more ∧ first ≠ [] := by
    cases blocks with
    | nil => exact .inl ⟨List.forall₂_nil_right_iff.mp layout, rfl⟩
    | cons first more =>
      obtain ⟨ie, onward, ⟨filled, -, -⟩, -, split⟩ := List.forall₂_cons_right_iff.mp layout
      exact .inr ⟨by simp [split], first, more, rfl, filled⟩
  refine ⟨(served faults 0 blocks).1, (served faults 0 blocks).2, ?_, within,
    within.length_le.trans small, whole, ?_, ?_, ?_, ?_⟩
  · exact Iterator.advanceWith_serves faults _ (fun e member => fits e (within.subset member)) _
      (.start r) ⟨rfl, [], blocks, rfl, rfl, rfl, layout⟩
  · rw [count]
    simpa using faultless
  · intro some_ readable
    rcases shape with ⟨none_, -⟩ | ⟨-, first, more, rfl, filled⟩
    · exact absurd none_ some_
    · rw [served, readable]
      exact fun none_ => filled (List.append_eq_nil_iff.mp none_).1
  · intro some_ failing
    rcases shape with ⟨none_, -⟩ | ⟨-, first, more, rfl, filled⟩
    · exact absurd none_ some_
    · obtain ⟨e, is⟩ := Option.ne_none_iff_exists'.mp failing
      rw [served, is]
  · rcases shape with ⟨none_, rfl⟩ | ⟨some_, first, more, rfl, filled⟩
    · simp [none_]
    · simp [some_, filled]

/-! ### The two passes -/

/-- No read of a block fails. -/
def AllRead (faults : Nat → BlockFaults) (readers : List Reader) : Prop :=
  ∀ j r, readers[j]? = some r → ∀ i < r.index.length, faults j i = none

/-- No read of a first block fails. -/
def FirstRead (faults : Nat → BlockFaults) (readers : List Reader) : Prop :=
  ∀ j r, readers[j]? = some r → r.index ≠ [] → faults j 0 = none

/-- What the iterators of a list of tables serve, each with its own failures. -/
inductive ServingAll : (Nat → BlockFaults) → List Reader → List (List Entry) →
    List (List Entry × Option Error) → Prop
  | nil {faults} : ServingAll faults [] [] []
  | cons {faults r es v readers tables view} (first : r.Serving es (faults 0) v.1 v.2)
      (later : ServingAll (fun j => faults (j + 1)) readers tables view) :
      ServingAll faults (r :: readers) (es :: tables) (v :: view)

theorem exists_servingAll (readers : List Reader) (tables : List (List Entry))
    (stores : List.Forall₂ Reader.Stores readers tables) (faults : Nat → BlockFaults) :
    ∃ view, ServingAll faults readers tables view := by
  induction stores generalizing faults with
  | nil => exact ⟨[], .nil⟩
  | @cons r es readers tables first _ ih =>
    obtain ⟨part, fault, serving⟩ := first.serving r es (faults 0)
    obtain ⟨view, later⟩ := ih fun j => faults (j + 1)
    exact ⟨(part, fault) :: view, .cons serving later⟩

namespace ServingAll

variable {faults : Nat → BlockFaults} {readers : List Reader} {tables : List (List Entry)}
  {view : List (List Entry × Option Error)} (serving : ServingAll faults readers tables view)

include serving

theorem servesView (n : Nat) : List.Forall₂ (Iterator.ServesView FaultyIterator.adapter)
    (sourcesFrom faults n readers) view := by
  induction serving generalizing n with
  | nil => exact .nil
  | cons first _ ih =>
    rw [sourcesFrom_cons]
    exact .cons first.serves (ih (n + 1))

/-- Where no fault is reported, the sources yield what they serve. -/
theorem shows (n : Nat) (quiet : ∀ v ∈ view, reported v.1 v.2 = none) :
    List.Forall₂ (Iterator.Shows FaultyIterator.adapter) (sourcesFrom faults n readers)
      (viewFrom n (view.map Prod.fst)) := by
  induction serving generalizing n with
  | nil => exact .nil
  | @cons faults r es v readers tables view first _ ih =>
    obtain ⟨here, later⟩ := List.forall_mem_cons.mp quiet
    rw [sourcesFrom_cons]
    refine .cons ⟨?_, rfl⟩ (ih (n + 1) later)
    have serves := first.serves
    rw [reported] at here
    by_cases nothing : v.1 = []
    · rw [nothing] at serves ⊢
      exact serves
    · rw [if_neg nothing] at here
      rw [here] at serves
      exact serves.yields

theorem count_le : (view.map fun v => v.1.length).sum ≤ (readers.map Reader.maxEntries).sum := by
  induction serving with
  | nil => exact Nat.le_refl _
  | cons first _ ih =>
    have here := first.bounded
    simp only [List.map_cons, List.sum_cons]
    omega

/-- What is served keeps the properties of the entries stored. -/
theorem forall_part (P : Entry → Prop) (all : ∀ es ∈ tables, ∀ e ∈ es, P e) :
    ∀ part ∈ view.map Prod.fst, ∀ e ∈ part, P e := by
  induction serving with
  | nil => simp
  | cons first _ ih =>
    obtain ⟨here, later⟩ := List.forall_mem_cons.mp all
    rw [List.map_cons]
    exact List.forall_mem_cons.mpr
      ⟨fun e member => here e (first.within.subset member), ih later⟩

theorem ascending (all : ∀ es ∈ tables, Ascending es) :
    ∀ part ∈ view.map Prod.fst, Ascending part := by
  induction serving with
  | nil => simp
  | cons first _ ih =>
    obtain ⟨here, later⟩ := List.forall_mem_cons.mp all
    rw [List.map_cons]
    exact List.forall_mem_cons.mpr ⟨here.sublist first.within.sublist, ih later⟩

theorem faultless : (∀ v ∈ view, v.2 = none) ↔ AllRead faults readers := by
  induction serving with
  | nil => simp [AllRead]
  | @cons faults r es v readers tables view first _ ih =>
    rw [List.forall_mem_cons, ih, first.faultless]
    exact (List.forall_getElem?_cons (fun j r => ∀ i < r.index.length, faults j i = none) r readers).symm

theorem whole (none_ : ∀ v ∈ view, v.2 = none) : view.map Prod.fst = tables := by
  induction serving with
  | nil => rfl
  | cons first _ ih =>
    obtain ⟨here, later⟩ := List.forall_mem_cons.mp none_
    rw [List.map_cons, first.whole here, ih later]

/-- When all first blocks are read, every fault is reported. -/
theorem faultless_of_quiet (first : FirstRead faults readers)
    (quiet : ∀ v ∈ view, reported v.1 v.2 = none) : ∀ v ∈ view, v.2 = none := by
  induction serving with
  | nil => simp
  | @cons faults r es v readers tables view here _ ih =>
    obtain ⟨readable, later⟩ := (List.forall_getElem?_cons _ r readers).mp first
    obtain ⟨hereQuiet, laterQuiet⟩ := List.forall_mem_cons.mp quiet
    refine List.forall_mem_cons.mpr ⟨?_, ih later laterQuiet⟩
    by_cases noBlocks : r.index = []
    · exact here.faultless.mpr (by simp [noBlocks])
    · rwa [reported, if_neg (here.started noBlocks (readable noBlocks))] at hereQuiet

/-- A failure of first blocks only is reported nowhere. -/
theorem quiet_of_first (only : ∀ j i, i ≠ 0 → faults j i = none) :
    ∀ v ∈ view, reported v.1 v.2 = none := by
  induction serving with
  | nil => simp
  | @cons faults r es v readers tables view here _ ih =>
    refine List.forall_mem_cons.mpr ⟨?_, ih fun j i => only (j + 1) i⟩
    rw [reported]
    split
    · rfl
    next some_ =>
      apply here.faultless.mpr
      rintro (_ | i) small
      · by_contra failing
        exact some_ (here.swallowed (fun none_ => by simp [none_] at small) failing)
      · exact only 0 (i + 1) (by omega)

end ServingAll

/-! ### The merge -/

section Merge

variable (sizing : Sizing) (blockSize : Int) (expectedEntries : Nat) (faults : Nat → BlockFaults)
  (readers : List Reader) (tables : List (List Entry)) (view : List (List Entry × Option Error))
  (stores : List.Forall₂ Reader.Stores readers tables)
  (serving : ServingAll faults readers tables view)

include stores serving in
/-- A merge that meets no fault leaves a table that can be opened, unless the file outgrows
the largest offset or its filter cannot be decoded. -/
theorem mergeTablesWith_completes (positive : 0 < blockSize)
    (quiet : ∀ v ∈ view, reported v.1 v.2 = none) (fileID : Nat) (id : UInt64) :
    mergeTablesWith sizing blockSize expectedEntries faults readers = .error .fileTooLarge ∨
      ∃ file out, mergeTablesWith sizing blockSize expectedEntries faults readers = .ok file ∧
        (openReader fileID id file = .error .corruptBloom ∨
          ∃ r, openReader fileID id file = .ok r ∧ r.Stores out) ∧ findEntry [] out = none ∧
        ((∀ part ∈ view.map Prod.fst, ∀ e ∈ part, e.key ≠ []) →
          ∀ k, findEntry k out = newest k (view.map Prod.fst)) := by
  have ascending := serving.ascending fun es member => by
    obtain ⟨r, -, stored⟩ := stores.exists_left es member
    exact stored.ascending
  have fits := serving.forall_part Entry.Fits fun es member => by
    obtain ⟨r, -, stored⟩ := stores.exists_left es member
    exact stored.fits
  have enough := serving.count_le
  cases created : newWriter sizing blockSize expectedEntries with
  | error e =>
    rw [newWriter, if_neg (by omega)] at created
    cases created
  | ok w =>
    have fresh : w.Has w.bloom [] := newWriter_has sizing blockSize expectedEntries w created _
    rw [mergeTablesWith, created, Except.ok_bind, mergeReadersKeepTombstones,
      mergeReadersWith_eq]
    rcases merge_completes FaultyIterator.adapter FaultyIterator.adapter_key
      ((readers.map Reader.maxEntries).sum + 1) 0 _ _ (serving.shows 0 quiet) ascending fits
      (Nat.lt_succ_of_le (by rw [List.map_map]; exact enough)) w w.bloom fresh with
      tooLarge | ⟨w', out, merged, has, noEmpty, found⟩
    · left
      cases result : Iterator.forEachMergedFrom FaultyIterator.adapter false addTo
          ((readers.map Reader.maxEntries).sum + 1) (sourcesFrom faults 0 readers) w with
      | mk w' err =>
        rw [result] at tooLarge
        cases tooLarge
        rfl
    · rw [merged]
      rcases has.stores w' w.bloom out fileID id with tooLarge | ⟨file, closed, opened⟩
      · exact .inl tooLarge
      · exact .inr ⟨file, out, closed, opened, noEmpty, found⟩

include serving in
/-- A merge that returns a file has met no fault. -/
theorem mergeTablesWith_quiet (keyed : ∀ es ∈ tables, ∀ e ∈ es, e.key ≠ []) (file : Bytes)
    (merged : mergeTablesWith sizing blockSize expectedEntries faults readers = .ok file) :
    ∀ v ∈ view, reported v.1 v.2 = none := by
  obtain ⟨w, -, more⟩ := (Except.bind_eq_ok _ _ _).mp merged
  rw [mergeReadersKeepTombstones, mergeReadersWith_eq] at more
  have nil_ : (Iterator.forEachMergedFrom FaultyIterator.adapter false addTo
      ((readers.map Reader.maxEntries).sum + 1) (sourcesFrom faults 0 readers) w).2 = none := by
    cases result : Iterator.forEachMergedFrom FaultyIterator.adapter false addTo
        ((readers.map Reader.maxEntries).sum + 1) (sourcesFrom faults 0 readers) w with
    | mk w' err =>
      rw [result] at more
      cases err with
      | none => rfl
      | some e => cases more
  have keyedParts := serving.forall_part (·.key ≠ []) keyed
  have noFault := Iterator.forEachMergedFrom_nil FaultyIterator.adapter addTo _ _ view
    (serving.servesView 0) (fun v member => keyedParts v.1 (List.mem_map_of_mem member))
    (Nat.lt_succ_of_le serving.count_le) w nil_
  intro v member
  rw [reported]
  split
  · rfl
  next some_ => exact noFault v member some_

end Merge

end PebbleDB.Sst
