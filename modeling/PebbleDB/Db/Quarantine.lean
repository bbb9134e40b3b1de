import PebbleDB.Db.Orphans

/-!
# The quarantine directory

`removeOrphanSSTFiles` moves the tables that the manifest does not list "instead of deleting
them, so recoverable inconsistencies are not permanently destroyed". The name in the
quarantine directory is made of the id alone, and `os.Rename` replaces a file that is there.
`Open` counts new ids from the highest live one, so the id of a table that was cut off and
moved away is drawn again.

## Main results

* `evidence_kept_iff`: over every run of flushes, compactions, crashes and reopens from an
  empty directory, the moved files keep their content as long as no flush or compaction draws
  an id that is in quarantine; exactly, as long as no `Open` moves a table onto a name with
  other content.
* `not_evidence_kept_second_crash`: two flushes that are cut off, each followed by an
  `Open`, leave only the second table.

`Archive.step_life`: where no rename fails, the runs here are the runs of `Lifetime`.
-/
namespace PebbleDB.Db

open Sst (Reader)

/-! ### Moving orphans away -/

/-- The table files of the directory, those of `quarantine/` by their ids, and every file
that was moved there so far. -/
structure TableFiles where
  ssts : SstFiles
  quarantine : SstFiles
  moved : List (UInt64 × Bytes)

namespace TableFiles

/-- `quarantineSSTPath`. The file stays where it is if the directory cannot be made or the
rename fails. -/
def quarantineSSTPath (fails : List UInt64) (f : TableFiles) (id : UInt64) : TableFiles :=
  if id ∈ fails then f
  else
    match f.ssts.lookup id with
    | none => f
    -- `os.Rename` replaces a file of that name
    | some file => ⟨f.ssts.remove id, f.quarantine.write id file, (id, file) :: f.moved⟩

/-- The loop of `removeOrphanSSTFiles` over discovered ids. -/
def removeOrphans (live : Finset UInt64) (fails : List UInt64) : List UInt64 → TableFiles → TableFiles
  | [], f => f
  | id :: existing, f =>
    if id ∈ live then removeOrphans live fails existing f
    else removeOrphans live fails existing (f.quarantineSSTPath fails id)

/-- Everything that was moved is still there as it was. -/
def Kept (f : TableFiles) : Prop := ∀ entry ∈ f.moved, f.quarantine.lookup entry.1 = some entry.2

instance decidableKept (f : TableFiles) : Decidable f.Kept :=
  inferInstanceAs (Decidable (∀ entry ∈ f.moved, f.quarantine.lookup entry.1 = some entry.2))

/-- What is in quarantine was moved there. -/
def Known (f : TableFiles) : Prop :=
  ∀ id file, f.quarantine.lookup id = some file → (id, file) ∈ f.moved

/-- No name of the directory is in quarantine. -/
def Apart (f : TableFiles) : Prop := ∀ id ∈ f.ssts.map Prod.fst, f.quarantine.lookup id = none

/-- No table that the loop moves has the name of another one in quarantine. -/
def Clear (live : Finset UInt64) (fails existing : List UInt64) (f : TableFiles) : Prop :=
  ∀ id ∈ existing, id ∉ live → id ∉ fails → ∀ file, f.ssts.lookup id = some file →
    ∀ old, f.quarantine.lookup id = some old → old = file

end TableFiles

/-! ### Lifetimes with a quarantine directory -/

/-- A directory with its quarantine directory, and the store that is open on it. -/
structure Archive where
  life : Lifetime
  quarantine : SstFiles
  moved : List (UInt64 × Bytes)

namespace Archive

def empty : Archive := ⟨.empty, [], []⟩

def files (a : Archive) : TableFiles := ⟨a.life.store.ssts, a.quarantine, a.moved⟩

def withFiles (life : Lifetime) (f : TableFiles) : Archive :=
  ⟨{ life with store.ssts := f.ssts }, f.quarantine, f.moved⟩

/-- The ids that the loop of `removeOrphanSSTFiles` gets to, if the step is an `Open` that
may get there. -/
def examined (a : Archive) (i : LifeStep) : Option (List UInt64) :=
  match i, a.life.running with
  | .openDB _, false => some (discoverSSTIDs a.life.store.ssts)
  | .crashOpen (.quarantine n), false => some ((discoverSSTIDs a.life.store.ssts).take n)
  | _, _ => none

/-- The files after the loop; it is only reached when the tables have been loaded. -/
def cleaned (a : Archive) (fails existing : List UInt64) : TableFiles :=
  match openTables a.life.dir a.life.store.ssts a.life.store.db.nextFileID with
  | .error _ => a.files
  | .ok tables => a.files.removeOrphans tables.manifest.log.liveSet fails existing

/-- A step of the lifetime, with the ids whose files cannot be moved. -/
def step (env : Env) (a : Archive) (input : LifeStep × List UInt64) : Archive :=
  match a.examined input.1 with
  | none => { a with life := a.life.step env input.1 }
  | some existing => withFiles (a.life.step env input.1) (a.cleaned input.2 existing)

/-- The `Open` does not move a table onto a name with other content. -/
def Spares (a : Archive) (input : LifeStep × List UInt64) : Prop :=
  ∀ existing, a.examined input.1 = some existing →
    ∀ tables, openTables a.life.dir a.life.store.ssts a.life.store.db.nextFileID = .ok tables →
      a.files.Clear tables.manifest.log.liveSet input.2 existing

end Archive

/-- The id that the step draws. -/
def TableStore.draws (w : TableStore) : TableStep → Option UInt64
  | .flushBegin _ =>
    match w.flusher with
    | .idle => some (w.db.nextSSTID + 1)
    | _ => none
  | .mergeBegin =>
    match w.compactor with
    | .picked compReaders _ =>
      match sumEntryCounts compReaders with
      | .error _ => none
      | .ok _ => some (w.db.nextSSTID + 1)
    | _ => none
  | _ => none

namespace Archive

/-- A flush or compaction does not draw an id that is in quarantine. -/
def DrawsFresh (a : Archive) (input : LifeStep × List UInt64) : Prop :=
  match input.1 with
  | .table i => ∀ id, a.life.store.draws i = some id → a.quarantine.lookup id = none
  | _ => True

instance decidableDrawsFresh (a : Archive) :
    (input : LifeStep × List UInt64) → Decidable (a.DrawsFresh input)
  | (.table i, _) =>
    decidable_of_iff ((a.life.store.draws i).all fun id => (a.quarantine.lookup id).isNone)
      (by simp [DrawsFresh, Option.all_eq_true])
  | (.crash, _) | (.crashIn .., _) | (.openDB _, _) | (.crashOpen _, _) => .isTrue trivial

/-- In every state of the run, each file that was moved to quarantine is there with its
content. -/
def EvidenceKept (env : Env) (inputs : List (LifeStep × List UInt64)) : Prop :=
  ∀ before, before <+: inputs → (Machine.run (step env) empty before).files.Kept

end Archive

/-! ### The loop -/

namespace TableFiles

open TableStore (lookup_write_self lookup_remove_self lookup_remove_of_ne)

variable {f : TableFiles}

/-- What one rename does, if it is done. -/
theorem quarantineSSTPath_cases (fails : List UInt64) (f : TableFiles) (id : UInt64) :
    ((id ∈ fails ∨ f.ssts.lookup id = none) ∧ f.quarantineSSTPath fails id = f) ∨
      ∃ file, id ∉ fails ∧ f.ssts.lookup id = some file ∧ f.quarantineSSTPath fails id =
        ⟨f.ssts.remove id, f.quarantine.write id file, (id, file) :: f.moved⟩ := by
  rw [quarantineSSTPath]
  split
  next failing => exact .inl ⟨.inl failing, rfl⟩
  next moves =>
    cases f.ssts.lookup id with
    | none => exact .inl ⟨.inr rfl, rfl⟩
    | some file => exact .inr ⟨file, moves, rfl, rfl⟩

theorem Known.quarantineSSTPath (known : f.Known) (fails : List UInt64) (id : UInt64) :
    (f.quarantineSSTPath fails id).Known := by
  rcases quarantineSSTPath_cases fails f id with ⟨-, same⟩ | ⟨file, -, -, moved⟩
  · rwa [same]
  · rw [moved]
    intro other content found
    by_cases same : other = id
    · subst same
      rw [lookup_write_self] at found
      cases found
      exact List.mem_cons_self
    · rw [lookup_write_of_ne _ _ _ _ same] at found
      exact List.mem_cons_of_mem _ (known other content found)

/-- The rename replaces what is there under the name. -/
theorem moved_kept_iff (known : f.Known) (kept : f.Kept) (id : UInt64) (file : Bytes) :
    Kept ⟨f.ssts.remove id, f.quarantine.write id file, (id, file) :: f.moved⟩ ↔
      ∀ old, f.quarantine.lookup id = some old → old = file := by
  constructor
  · intro after old found
    have there := after (id, old) (List.mem_cons_of_mem _ (known id old found))
    simp only [lookup_write_self] at there
    exact (Option.some.inj there).symm
  · intro same entry member
    rcases List.mem_cons.mp member with rfl | before
    · exact lookup_write_self _ _ _
    · -- an earlier file of this name has the content that is written over it
      have there := kept entry before
      by_cases is : entry.1 = id
      · rw [is] at there
        rw [is, lookup_write_self, same entry.2 there]
      · simp only
        rwa [lookup_write_of_ne _ _ _ _ is]

theorem removeOrphans_moved (live : Finset UInt64) (fails existing : List UInt64) (f : TableFiles) :
    f.moved ⊆ (f.removeOrphans live fails existing).moved := by
  induction existing generalizing f with
  | nil => exact List.Subset.refl _
  | cons first existing ih =>
    rw [removeOrphans]
    split
    · exact ih f
    · rcases quarantineSSTPath_cases fails f first with ⟨-, same⟩ | ⟨file, -, -, moved⟩
      · rw [same]
        exact ih f
      · rw [moved]
        exact fun entry member => ih _ (List.mem_cons_of_mem _ member)

/-- A name that is not in the directory is not written in quarantine. -/
theorem removeOrphans_absent (live : Finset UInt64) (fails existing : List UInt64) (f : TableFiles)
    (id : UInt64) (absent : f.ssts.lookup id = none) :
    (f.removeOrphans live fails existing).quarantine.lookup id = f.quarantine.lookup id := by
  induction existing generalizing f with
  | nil => rfl
  | cons first existing ih =>
    rw [removeOrphans]
    split
    · exact ih f absent
    · rcases quarantineSSTPath_cases fails f first with ⟨-, same⟩ | ⟨file, -, found, moved⟩
      · rw [same]
        exact ih f absent
      · -- only a file that is there is moved
        have other : id ≠ first := by
          rintro rfl
          rw [absent] at found
          cases found
        rw [moved, ih _ ((lookup_remove_of_ne _ _ _ other).trans absent)]
        exact lookup_write_of_ne _ _ _ _ other

theorem Known.removeOrphans (known : f.Known) (live : Finset UInt64) (fails existing : List UInt64) :
    (f.removeOrphans live fails existing).Known := by
  induction existing generalizing f with
  | nil => exact known
  | cons first existing ih =>
    rw [TableFiles.removeOrphans]
    split
    · exact ih known
    · exact ih (known.quarantineSSTPath fails first)

/-- A table that stays does not count. -/
theorem clear_cons_of_stays {live : Finset UInt64} {fails existing : List UInt64} {id : UInt64}
    (stays : id ∈ live ∨ id ∈ fails ∨ f.ssts.lookup id = none) :
    f.Clear live fails (id :: existing) ↔ f.Clear live fails existing := by
  constructor
  · exact fun clear other member => clear other (List.mem_cons_of_mem _ member)
  · intro clear other member dead moves file found
    rcases List.mem_cons.mp member with rfl | later
    · rcases stays with isLive | failing | absent
      · exact absurd isLive dead
      · exact absurd failing moves
      · rw [absent] at found
        cases found
    · exact clear other later dead moves file found

/-- A table that is moved is looked at once; the names of the others are as they were. -/
theorem clear_cons_of_moved {live : Finset UInt64} {fails existing : List UInt64} {id : UInt64}
    {file : Bytes} (dead : id ∉ live) (moves : id ∉ fails) (found : f.ssts.lookup id = some file) :
    f.Clear live fails (id :: existing) ↔
      (∀ old, f.quarantine.lookup id = some old → old = file) ∧
        Clear live fails existing
          ⟨f.ssts.remove id, f.quarantine.write id file, (id, file) :: f.moved⟩ := by
  constructor
  · refine fun clear => ⟨clear id List.mem_cons_self dead moves file found, ?_⟩
    intro other member dead moves content there
    by_cases same : other = id
    · rw [same, lookup_remove_self] at there
      cases there
    · simp only [lookup_remove_of_ne _ _ _ same, lookup_write_of_ne _ _ _ _ same] at there ⊢
      exact clear other (List.mem_cons_of_mem _ member) dead moves content there
  · rintro ⟨first, clear⟩ other member dead moves content there
    by_cases same : other = id
    · subst same
      rw [found] at there
      cases there
      exact first
    · have later := clear other ((List.mem_cons.mp member).resolve_left same) dead moves content
      simp only [lookup_remove_of_ne _ _ _ same, lookup_write_of_ne _ _ _ _ same] at later
      exact later there

/-- The loop keeps what is in quarantine exactly if it moves nothing onto other content. -/
theorem removeOrphans_kept_iff (live : Finset UInt64) (fails existing : List UInt64)
    (f : TableFiles) (known : f.Known) (kept : f.Kept) :
    (f.removeOrphans live fails existing).Kept ↔ f.Clear live fails existing := by
  induction existing generalizing f with
  | nil => exact iff_of_true kept fun _ member => absurd member List.not_mem_nil
  | cons id existing ih =>
    have known' := known.quarantineSSTPath fails id
    rw [removeOrphans]
    split
    next isLive => rw [ih f known kept, clear_cons_of_stays (.inl isLive)]
    next dead =>
      rcases quarantineSSTPath_cases fails f id with ⟨stays, same⟩ | ⟨file, moves, found, moved⟩
      · rw [same, ih f known kept, clear_cons_of_stays (.inr stays)]
      · rw [moved] at known' ⊢
        rw [clear_cons_of_moved dead moves found]
        by_cases first : ∀ old, f.quarantine.lookup id = some old → old = file
        · rw [ih _ known' ((moved_kept_iff known kept id file).mpr first)]
          exact (and_iff_right first).symm
        · -- the loop does not come back to the name, so the old content stays lost
          refine iff_of_false (fun after => first fun old there => ?_) fun both => first both.1
          have entry : (id, old) ∈ (id, file) :: f.moved :=
            List.mem_cons_of_mem _ (known id old there)
          have now := after (id, old) (removeOrphans_moved live fails existing _ entry)
          simp only at now
          rw [removeOrphans_absent _ _ _ _ _ (lookup_remove_self _ _), lookup_write_self] at now
          exact (Option.some.inj now).symm

theorem Apart.quarantineSSTPath (apart : f.Apart) (fails : List UInt64) (id : UInt64) :
    (f.quarantineSSTPath fails id).Apart := by
  rcases quarantineSSTPath_cases fails f id with ⟨-, same⟩ | ⟨file, -, -, moved⟩
  · rwa [same]
  · rw [moved]
    intro other member
    obtain ⟨entry, left, rfl⟩ := List.mem_map.mp member
    obtain ⟨there, differs⟩ := List.mem_filter.mp left
    have apartEntry := apart entry.1 (List.mem_map_of_mem there)
    rwa [lookup_write_of_ne _ _ _ _ (of_decide_eq_true differs)]

theorem Apart.removeOrphans (apart : f.Apart) (live : Finset UInt64) (fails existing : List UInt64) :
    (f.removeOrphans live fails existing).Apart := by
  induction existing generalizing f with
  | nil => exact apart
  | cons first existing ih =>
    rw [TableFiles.removeOrphans]
    split
    · exact ih apart
    · exact ih (apart.quarantineSSTPath fails first)

theorem Apart.clear (apart : f.Apart) (live : Finset UInt64) (fails existing : List UInt64) :
    f.Clear live fails existing := by
  intro id _ _ _ file found old there
  have named : id ∈ f.ssts.map Prod.fst := by
    obtain ⟨_, _, split_, _⟩ := List.lookup_eq_some_iff.mp found
    simp [split_]
  rw [apart id named] at there
  cases there

theorem quarantineSSTPath_ssts (fails : List UInt64) (f : TableFiles) (id : UInt64) :
    (f.quarantineSSTPath fails id).ssts =
      f.ssts.filter fun entry => entry.1 ∈ fails ∨ entry.1 ≠ id := by
  rcases quarantineSSTPath_cases fails f id with ⟨stays, same⟩ | ⟨file, moves, -, moved⟩
  · rw [same, List.filter_eq_self.mpr]
    intro entry member
    refine decide_eq_true ?_
    by_contra gone
    push Not at gone
    obtain ⟨elsewhere, is⟩ := gone
    rcases stays with failing | absent
    · exact elsewhere (is ▸ failing)
    · have differs := List.lookup_eq_none_iff.mp absent entry member
      simp [is] at differs
  · rw [moved]
    refine List.filter_congr fun entry _ => decide_eq_decide.mpr ⟨.inr, fun either => ?_⟩
    rcases either with failing | differs
    · exact fun is => moves (is ▸ failing)
    · exact differs

/-- What the loop leaves in the directory. -/
theorem removeOrphans_ssts (live : Finset UInt64) (fails existing : List UInt64) (f : TableFiles) :
    (f.removeOrphans live fails existing).ssts =
      f.ssts.filter fun entry => entry.1 ∈ live ∨ entry.1 ∈ fails ∨ entry.1 ∉ existing := by
  induction existing generalizing f with
  | nil => simp [removeOrphans]
  | cons id existing ih =>
    rw [removeOrphans]
    split
    next isLive =>
      rw [ih]
      refine List.filter_congr fun entry _ => decide_eq_decide.mpr ?_
      by_cases same : entry.1 = id
      · simp [same, isLive]
      · simp [same]
    next dead =>
      rw [ih, quarantineSSTPath_ssts, List.filter_filter]
      refine List.filter_congr fun entry _ => ?_
      rw [← Bool.decide_and, decide_eq_decide, List.mem_cons, not_or]
      have stays : entry.1 ∈ live → entry.1 ≠ id := fun isLive same => dead (same ▸ isLive)
      tauto

end TableFiles

/-! ### The names a run can use -/

/-- The id whose table file has no name in the directory yet. -/
def FlushStage.pending : FlushStage → List UInt64
  | .writing id _ => [id]
  | _ => []

def CompactStage.pending : CompactStage → List UInt64
  | .writing _ _ id _ => [id]
  | _ => []

theorem FlushStage.Settled.pending {s : FlushStage} (settled : s.Settled) : s.pending = [] := by
  cases s with
  | writing => exact settled.elim
  | idle | failed | closed | opened | committed | published => rfl

theorem CompactStage.Settled.pending {s : CompactStage} (settled : s.Settled) :
    s.pending = [] := by
  cases s with
  | writing => exact settled.elim
  | idle | picked | failed | closed | merged | built | manifested | vanished | swapped | discarding
  | closing | marked => rfl

namespace TableStore

/-- The ids that are names in the directory, or will be without another draw. -/
def names (w : TableStore) : List UInt64 :=
  w.ssts.map Prod.fst ++ (w.flusher.pending ++ w.compactor.pending)

/-- A step that adds no name. -/
structure Fewer (w w' : TableStore) : Prop where
  files : w'.ssts.map Prod.fst ⊆ w.ssts.map Prod.fst
  flusher : w'.flusher.pending ⊆ w.flusher.pending
  compactor : w'.compactor.pending ⊆ w.compactor.pending

variable {w w' : TableStore}

theorem Fewer.names (fewer : Fewer w w') : w'.names ⊆ w.names := by
  intro id member
  simp only [TableStore.names, List.mem_append] at member ⊢
  exact member.imp (fun file => fewer.files file)
    (Or.imp (fun own => fewer.flusher own) fun own => fewer.compactor own)

theorem names_remove (ssts : SstFiles) (id : UInt64) :
    (ssts.remove id).map Prod.fst ⊆ ssts.map Prod.fst :=
  List.map_subset _ (List.filter_subset_self _)

theorem names_write (ssts : SstFiles) (id : UInt64) (file : Bytes) :
    (ssts.write id file).map Prod.fst ⊆ id :: ssts.map Prod.fst :=
  List.cons_subset_cons _ (names_remove ssts id)

theorem Fewer.ofLocal (step : Local w w') : Fewer w w' where
  files := List.map_subset _ step.files
  flusher := by
    rcases step.flusher with same | settled
    · rw [same]
      exact List.Subset.refl _
    · rw [settled.pending]
      exact List.nil_subset _
  compactor := by
    rcases step.compactor with same | settled
    · rw [same]
      exact List.Subset.refl _
    · rw [settled.pending]
      exact List.nil_subset _

/-- The manifest and the list are about names that are there already. -/
theorem Fewer.db (fewer : Fewer w w') (db : DB) : Fewer w { w' with db := db } :=
  ⟨fewer.files, fewer.flusher, fewer.compactor⟩

theorem Fewer.dropFlusher (fewer : Fewer w w') (stage : FlushStage) (none_ : stage.pending = []) :
    Fewer w { w' with flusher := stage } :=
  ⟨fewer.files, by rw [none_]; exact List.nil_subset _, fewer.compactor⟩

theorem Fewer.dropCompactor (fewer : Fewer w w') (stage : CompactStage)
    (none_ : stage.pending = []) : Fewer w { w' with compactor := stage } :=
  ⟨fewer.files, fewer.flusher, by rw [none_]; exact List.nil_subset _⟩

theorem Fewer.refl (w : TableStore) : Fewer w w := .ofLocal (.refl w)

theorem flushCommit_fewer (w : TableStore) : Fewer w w.flushCommit := by
  rw [flushCommit]
  split
  next r _ =>
    split
    · exact ((Fewer.refl w).db _).dropFlusher _ rfl
    · -- the reader of the refused table is closed again
      exact ((Fewer.ofLocal (w.closeReader_local r.fileID)).db _).dropFlusher _ rfl
  · exact .refl w

theorem setFileSet_fewer (w : TableStore) : Fewer w w.setFileSet := by
  rw [setFileSet]
  split
  next new _ _ _ =>
    split
    · exact ((Fewer.refl w).db _).dropCompactor _ rfl
    · exact ((Fewer.ofLocal (w.closeReader_local new.fileID)).db _).dropCompactor _ rfl
  · exact .refl w

theorem rollback_fewer (w : TableStore) : Fewer w w.rollback := by
  rw [rollback]
  split
  next new _ => exact ((Fewer.ofLocal (w.closeReader_local new.fileID)).db _).dropCompactor _ rfl
  · exact .refl w

/-- The steps that neither draw an id nor rename a file. -/
theorem step_fewer (env : Env) (w : TableStore) (i : TableStep) (flushBegin_ : ∀ imm, i ≠ .flushBegin imm)
    (flushClose_ : ∀ leftover, i ≠ .flushClose leftover) (mergeBegin_ : i ≠ .mergeBegin)
    (mergeClose_ : ∀ leftover, i ≠ .mergeClose leftover) : Fewer w (w.step env i) := by
  cases i with
  | flushBegin imm => exact absurd rfl (flushBegin_ imm)
  | flushClose leftover => exact absurd rfl (flushClose_ leftover)
  | mergeBegin => exact absurd rfl mergeBegin_
  | mergeClose leftover => exact absurd rfl (mergeClose_ leftover)
  | flushCommit => exact flushCommit_fewer w
  | setFileSet => exact setFileSet_fewer w
  | rollback => exact rollback_fewer w
  | flushPublish =>
    simp only [step, flushPublish]
    split
    · exact ((Fewer.refl w).db _).dropFlusher _ rfl
    · exact .refl w
  | flushRotate =>
    simp only [step, flushRotate]
    split
    · exact ((Fewer.refl w).db _).dropFlusher _ rfl
    · exact .refl w
  | swap =>
    simp only [step, swap]
    split
    · split
      · exact ((Fewer.refl w).db _).dropCompactor _ rfl
      · exact (Fewer.refl w).dropCompactor _ rfl
    · exact .refl w
  | compactRotate =>
    simp only [step, compactRotate]
    split
    · exact ((Fewer.refl w).db _).dropCompactor _ rfl
    · exact .refl w
  | flushGrow | flushRemove | flushOpen | pick | mergeGrow | mergeRemove | mergeOpen | build
  | discardBegin | discardMark | discardCheck | ref | unref | unrefCheck =>
    exact .ofLocal (step_local env w _ rfl)

/-- A rename gives the file the name that was drawn for it. -/
theorem names_of_renamed {id : UInt64} (own : id ∈ w.names)
    (files : w'.ssts.map Prod.fst ⊆ id :: w.ssts.map Prod.fst)
    (flusher : w'.flusher.pending ⊆ w.flusher.pending)
    (compactor : w'.compactor.pending ⊆ w.compactor.pending) : w'.names ⊆ w.names := by
  intro other member
  rw [names, List.mem_append, List.mem_append] at member
  rcases member with file | making | making
  · rcases List.mem_cons.mp (files file) with rfl | before
    · exact own
    · exact List.mem_append_left _ before
  · exact List.mem_append_right _ (List.mem_append_left _ (flusher making))
  · exact List.mem_append_right _ (List.mem_append_right _ (compactor making))

/-- Whether the writer finishes, gives up or leaves a part behind. -/
theorem abandonTmp_names (w : TableStore) (id : UInt64) (leftover : Option Bytes) :
    (w.abandonTmp id leftover).ssts.map Prod.fst ⊆ id :: w.ssts.map Prod.fst := by
  cases leftover with
  | none => exact List.subset_cons_self _ _
  | some data => exact names_write _ _ _

theorem flushClose_names (env : Env) (w : TableStore) (leftover : Option Bytes) :
    (w.flushClose env leftover).names ⊆ w.names := by
  rw [flushClose]
  split
  next id imm at_ =>
    have own : id ∈ w.names := by simp [names, at_, FlushStage.pending]
    split
    · exact names_of_renamed own (names_write _ _ _) (List.nil_subset _) (List.Subset.refl _)
    · refine names_of_renamed own (abandonTmp_names w id leftover) (List.nil_subset _) ?_
      cases leftover <;> exact List.Subset.refl _
  · exact List.Subset.refl _

theorem mergeClose_names (env : Env) (w : TableStore) (leftover : Option Bytes) :
    (w.mergeClose env leftover).names ⊆ w.names := by
  rw [mergeClose]
  split
  next comp old id n at_ =>
    have own : id ∈ w.names := by simp [names, at_, CompactStage.pending]
    split
    · exact names_of_renamed own (names_write _ _ _) (List.Subset.refl _) (List.nil_subset _)
    · refine names_of_renamed own (abandonTmp_names w id leftover) ?_ (List.nil_subset _)
      cases leftover <;> exact List.Subset.refl _
  · exact List.Subset.refl _

/-- The only new name is the id that the step draws. -/
theorem step_names (env : Env) (w : TableStore) (i : TableStep) (id : UInt64)
    (member : id ∈ (w.step env i).names) : id ∈ w.names ∨ w.draws i = some id := by
  by_cases quiet : (∀ imm, i ≠ .flushBegin imm) ∧ (∀ leftover, i ≠ .flushClose leftover) ∧
      i ≠ .mergeBegin ∧ ∀ leftover, i ≠ .mergeClose leftover
  · exact .inl ((step_fewer env w i quiet.1 quiet.2.1 quiet.2.2.1 quiet.2.2.2).names member)
  cases i with
  | flushClose leftover => exact .inl (flushClose_names env w leftover member)
  | mergeClose leftover => exact .inl (mergeClose_names env w leftover member)
  | flushBegin imm =>
    simp only [step, flushBegin] at member
    cases at_ : w.flusher with
    | idle =>
      simp only [at_, names, setTmp, FlushStage.pending, List.mem_append, List.mem_singleton] at member
      rcases member with file | rfl | making
      · exact .inl (List.mem_append_left _ file)
      · exact .inr (by simp only [draws, at_])
      · exact .inl (List.mem_append_right _ (List.mem_append_right _ making))
    | writing | failed | closed | opened | committed | published =>
      rw [at_] at member
      exact .inl member
  | mergeBegin =>
    simp only [step, mergeBegin] at member
    cases at_ : w.compactor with
    | picked comp old =>
      cases counted : sumEntryCounts comp with
      | error e =>
        simp only [at_, counted] at member
        have fewer : Fewer w { w with compactor := .idle } := (Fewer.refl w).dropCompactor _ rfl
        exact .inl (fewer.names member)
      | ok n =>
        simp only [at_, counted, names, setTmp, CompactStage.pending, List.mem_append,
          List.mem_singleton] at member
        rcases member with file | making | rfl
        · exact .inl (List.mem_append_left _ file)
        · exact .inl (List.mem_append_right _ (List.mem_append_left _ making))
        · exact .inr (by simp only [draws, at_, counted])
    | idle | writing | failed | closed | merged | built | manifested | vanished | swapped | discarding
    | closing | marked =>
      rw [at_] at member
      exact .inl member
  | flushGrow | flushRemove | flushOpen | flushCommit | flushPublish | flushRotate | pick | mergeGrow
  | mergeRemove | mergeOpen | build | setFileSet | swap | rollback | compactRotate | discardBegin
  | discardMark | discardCheck | ref | unref | unrefCheck => simp at quiet

end TableStore

/-! ### Steps -/

namespace Lifetime

/-- The names of the directory, and those that a running store has drawn. -/
def names (s : Lifetime) : List UInt64 :=
  if s.running then s.store.names else s.store.ssts.map Prod.fst

theorem files_names (s : Lifetime) : s.store.ssts.map Prod.fst ⊆ s.names := by
  rw [names]
  split
  · exact List.subset_append_left _ _
  · exact List.Subset.refl _

theorem names_of_stopped {s s' : Lifetime} (stopped : s'.running = false)
    (files : s'.store.ssts = s.store.ssts) : s'.names ⊆ s.names := by
  have fewer := files_names s
  rw [← files] at fewer
  rwa [names, stopped]

theorem halt_names (s : Lifetime) (dir : Manifest.Dir) (done : Option UInt64) :
    (s.halt dir done).names ⊆ s.names :=
  names_of_stopped rfl rfl

theorem crashOpen_names {s : Lifetime} (stopped : s.running = false) (point : OpenPoint)
    (files : (s.openCut point).2 = s.store.ssts) : (s.crashOpen point).names ⊆ s.names :=
  names_of_stopped stopped files

end Lifetime

namespace Archive

variable {a : Archive}

def Apart (a : Archive) : Prop := ∀ id ∈ a.life.names, a.quarantine.lookup id = none

theorem examined_stopped {i : LifeStep} {existing : List UInt64}
    (examines : a.examined i = some existing) : a.life.running = false := by
  cases running : a.life.running with
  | false => rfl
  | true => cases i <;> simp [examined, running] at examines

/-- A step that is not an `Open` at its loop adds no name but the one it draws. -/
theorem step_names (env : Env) (i : LifeStep) (away : a.examined i = none) (id : UInt64)
    (member : id ∈ (a.life.step env i).names) :
    id ∈ a.life.names ∨ ∃ t, i = .table t ∧ a.life.store.draws t = some id := by
  cases running : a.life.running with
  | true =>
    cases i with
    | table t =>
      simp only [Lifetime.step, running, Lifetime.names, if_true] at member ⊢
      exact (TableStore.step_names env _ t id member).imp_right fun drawn => ⟨t, rfl, drawn⟩
    | crash =>
      simp only [Lifetime.step, running] at member
      exact .inl (Lifetime.halt_names _ _ _ member)
    | crashIn t k m =>
      simp only [Lifetime.step, running, Lifetime.crashIn] at member
      split at member
      · exact .inl (Lifetime.halt_names _ _ _ member)
      · exact .inl (Lifetime.halt_names _ _ _ member)
    | openDB | crashOpen =>
      simp only [Lifetime.step, running] at member
      exact .inl member
  | false =>
    cases i with
    | openDB => simp [examined, running] at away
    | crashOpen point =>
      simp only [Lifetime.step, running] at member
      refine .inl (Lifetime.crashOpen_names running point ?_ member)
      cases point with
      | quarantine => simp [examined, running] at away
      | current => rfl
      | replayed | bootstrap =>
        simp only [Lifetime.openCut]
        split <;> rfl
    | table | crash | crashIn =>
      simp only [Lifetime.step, running] at member
      exact .inl member

theorem cleaned_known (known : a.files.Known) (fails existing : List UInt64) :
    (a.cleaned fails existing).Known := by
  rw [cleaned]
  split
  · exact known
  · exact known.removeOrphans _ fails existing

theorem cleaned_apart (apart : a.files.Apart) (fails existing : List UInt64) :
    (a.cleaned fails existing).Apart := by
  rw [cleaned]
  split
  · exact apart
  · exact apart.removeOrphans _ fails existing

theorem step_known (env : Env) (a : Archive) (input : LifeStep × List UInt64)
    (known : a.files.Known) : (a.step env input).files.Known := by
  rw [step]
  split
  · exact known
  · exact cleaned_known known _ _

/-- One step keeps the evidence exactly if it spares it. -/
theorem step_kept_iff (env : Env) (a : Archive) (input : LifeStep × List UInt64)
    (known : a.files.Known) (kept : a.files.Kept) :
    (a.step env input).files.Kept ↔ a.Spares input := by
  rw [step, Spares]
  cases examines : a.examined input.1 with
  | none => exact iff_of_true kept (by simp)
  | some existing =>
    simp only [Option.some.injEq, forall_eq']
    show (a.cleaned input.2 existing).Kept ↔ _
    rw [cleaned]
    cases loads : openTables a.life.dir a.life.store.ssts a.life.store.db.nextFileID with
    | error => exact iff_of_true kept (by simp)
    | ok tables =>
      simp only [Except.ok.injEq, forall_eq']
      exact TableFiles.removeOrphans_kept_iff _ _ _ _ known kept

/-- `Open` starts with idle workers, so all names it leaves are those of files. -/
theorem opened_names (env : Env) {i : LifeStep} {existing : List UInt64}
    (examines : a.examined i = some existing) (f : TableFiles) :
    (withFiles (a.life.step env i) f).life.names ⊆ f.ssts.map Prod.fst := by
  have stopped := examined_stopped examines
  cases i with
  | openDB =>
    simp only [withFiles, Lifetime.step, stopped, Lifetime.openDB]
    split
    · simp [Lifetime.names]
    · simp [Lifetime.names, TableStore.names, Lifetime.started, FlushStage.pending, CompactStage.pending]
  -- the workers of the last run may stand anywhere, but nothing is running
  | crashOpen => simp [withFiles, Lifetime.step, stopped, Lifetime.crashOpen, Lifetime.names]
  | table | crash | crashIn => simp [examined] at examines

theorem step_apart (env : Env) (a : Archive) (input : LifeStep × List UInt64) (apart : a.Apart)
    (fresh : a.DrawsFresh input) : (a.step env input).Apart := by
  intro id member
  rw [step] at member ⊢
  cases examines : a.examined input.1 with
  | none =>
    rw [examines] at member
    -- nothing is moved, and the only new name is one that is not in quarantine
    rcases step_names env input.1 examines id member with before | ⟨t, is, drawn⟩
    · exact apart id before
    · rw [DrawsFresh, is] at fresh
      exact fresh id drawn
  | some existing =>
    rw [examines] at member
    have files : a.files.Apart := fun id file => apart id (Lifetime.files_names a.life file)
    exact cleaned_apart files input.2 existing id (opened_names env examines _ member)

/-- With a fresh id for each table, no orphan has the name of an earlier one. -/
theorem Apart.spares (apart : a.Apart) (input : LifeStep × List UInt64) : a.Spares input := by
  intro existing _ tables _
  have files : a.files.Apart := fun id file => apart id (Lifetime.files_names a.life file)
  exact files.clear _ _ _

/-! ### Where no rename fails -/

theorem withFiles_life (life : Lifetime) (f : TableFiles) (same : f.ssts = life.store.ssts) :
    (withFiles life f).life = life := by
  rw [withFiles, same]

/-- The files that the loop leaves are those that `Open` leaves. -/
theorem cleaned_ssts (env : Env) (i : LifeStep) {existing : List UInt64}
    (examines : a.examined i = some existing) :
    (a.cleaned [] existing).ssts = (a.life.step env i).store.ssts := by
  have stopped := examined_stopped examines
  cases i with
  | table | crash | crashIn => simp [examined] at examines
  | openDB compactThreshold =>
    simp only [examined, stopped, Option.some.injEq] at examines
    simp only [cleaned, Lifetime.step, stopped, Lifetime.openDB]
    cases loads : openTables a.life.dir a.life.store.ssts a.life.store.db.nextFileID with
    | error => rfl
    | ok tables =>
      simp only [Lifetime.started, (openTables_ok _ _ _ _ loads).2, removeOrphanSSTFiles, examines]
      rw [TableFiles.removeOrphans_ssts]
      simp [files]
  | crashOpen point =>
    cases point with
    | current | replayed | bootstrap => simp [examined] at examines
    | quarantine n =>
      simp only [examined, stopped, Option.some.injEq] at examines
      simp only [cleaned, Lifetime.step, stopped, Lifetime.crashOpen, Lifetime.openCut]
      cases loads : openTables a.life.dir a.life.store.ssts a.life.store.db.nextFileID with
      | error => rfl
      | ok tables =>
        simp only [TableFiles.removeOrphans_ssts, examines]
        simp [files]

/-- The store and its directory are those of the lifetime. -/
theorem step_life (env : Env) (a : Archive) (i : LifeStep) :
    (a.step env (i, [])).life = a.life.step env i := by
  rw [step]
  cases examines : a.examined i with
  | none => rfl
  | some existing => exact withFiles_life _ _ (cleaned_ssts env i examines)

theorem run_life (env : Env) (inputs : List LifeStep) (a : Archive) :
    (Machine.run (step env) a (inputs.map fun i => (i, []))).life =
      Machine.run (Lifetime.step env) a.life inputs := by
  induction inputs generalizing a with
  | nil => rfl
  | cons i inputs ih =>
    simp only [List.map_cons, Machine.run_cons]
    rw [ih, step_life]

/-! ### Runs -/

/-- From an empty directory, over every run of flushes, compactions, crashes and reopens with
any renames that fail: the moved tables keep their content if no flush or compaction draws an
id that is in quarantine, and exactly if no `Open` moves a table onto a name with other
content. -/
theorem evidence_kept_iff (env : Env) (inputs : List (LifeStep × List UInt64)) :
    (Machine.Always (step env) DrawsFresh empty inputs → EvidenceKept env inputs) ∧
      (EvidenceKept env inputs ↔ Machine.Always (step env) Spares empty inputs) := by
  have iff : EvidenceKept env inputs ↔ Machine.Always (step env) Spares empty inputs :=
    Machine.along_iff_always (step env) Spares (fun a => a.files.Known) (fun a => a.files.Kept)
      (step_known env) (step_kept_iff env) empty inputs (by simp [TableFiles.Known, files, empty])
      (by simp [TableFiles.Kept, files, empty])
  refine ⟨fun fresh => iff.mpr ?_, iff⟩
  -- along such a run no name of the directory is in quarantine
  exact Machine.Always.of_invariant (step_apart env) (fun _ input apart _ => apart.spares input)
    empty inputs (fun _ _ => rfl) fresh

/-- A compaction is cut off after its record: `Open` moves its two inputs away, and the next
flush draws an id above that of the merged table. -/
theorem evidence_kept_compaction :
    let compaction : List TableStep := TableStore.flush [97] ++ TableStore.flush [98] ++
      [.pick, .mergeBegin, .mergeClose none, .mergeOpen, .build, .setFileSet]
    let inputs := ([.openDB 2] ++ compaction.map .table ++ [.crash, .openDB 2] ++
      (TableStore.flush [99]).map .table : List LifeStep).map fun i => (i, ([] : List UInt64))
    let a := Machine.run (step smallEnv) empty inputs
    (a.quarantine.map Prod.fst = [2, 1] ∧ a.life.store.ssts.map Prod.fst = [4, 3]) ∧
      EvidenceKept smallEnv inputs :=
  ⟨by decide +kernel, (evidence_kept_iff smallEnv _).1 (by decide +kernel)⟩

/-- Two flushes are cut off before their records, with an `Open` after each: both tables have
the id 2, and the first one is lost. -/
theorem not_evidence_kept_second_crash :
    let inputs := ([.openDB 4] ++ (TableStore.flush [97]).map .table ++ Lifetime.unrecorded [98] ++
      [.crash, .openDB 4] ++ Lifetime.unrecorded [99] ++ [.crash, .openDB 4] : List LifeStep).map
        fun i => (i, ([] : List UInt64))
    let a := Machine.run (step smallEnv) empty inputs
    a.moved.map Prod.fst = [2, 2] ∧ a.quarantine.map Prod.fst = [2] ∧
      ¬EvidenceKept smallEnv inputs := by
  intro inputs a
  have lost : ¬a.files.Kept := by decide +kernel
  exact ⟨by decide +kernel, by decide +kernel, fun kept => lost (kept inputs (List.prefix_refl _))⟩

end Archive

end PebbleDB.Db
