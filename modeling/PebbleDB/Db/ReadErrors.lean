import PebbleDB.Db.Compaction
import PebbleDB.Sst.ReadFaults

/-!
# Read errors during a compaction

`mergeSSTables` reads every input twice, once to count its entries and once to merge
them. Both passes look at the error of an iterator only after `Next`, so the failure of
a first block goes unseen: the count is too low, or the merged table lacks the input. A
failure of any later block ends the merge with its error, before the list of live tables
or the manifest is touched.
-/
namespace PebbleDB.Db

/-- `doCompaction` from the merge of the picked readers on. A failed merge has drawn an id
if the count succeeded. -/
def compactWith (env : Env) (db : DB) (faults : ReadFaults) (compReaders : List Sst.Reader) :
    DB × Option CompactError :=
  match mergeSSTablesWith env db faults compReaders with
  | .error e =>
    match sumEntryCountsWith (faults .count) compReaders with
    | .error _ => (db, some (.sst e))
    | .ok _ => ({ db with nextSSTID := db.nextSSTID + 1 }, some (.sst e))
  | .ok none => (db, none)
  | .ok (some newReader) =>
    let db := { db with nextSSTID := db.nextSSTID + 1, nextFileID := db.nextFileID + 1 }
    let newList := buildNewList db.sstables compReaders newReader
    match liveIDsFromReaders newList with
    | .error e => (db, some e)
    | .ok liveIDs =>
      match Manifest.appendSetFileSet db.manifest liveIDs .none with
      | (manifest, some e) => ({ db with manifest := manifest }, some (.manifest e))
      | (manifest, none) =>
        ({ db with
            sstables := newList
            manifest := (Manifest.maybeCompact manifest .none).1 }, none)

/-- What a merge under failing reads must do: a result comes only from inputs whose blocks
were all read, and has all their entries; an error leaves the inputs live. -/
structure Surfaces (env : Env) (db : DB) (readers : List Sst.Reader) (tables : List (List Entry))
    (faults : ReadFaults) : Prop where
  read : ∀ result, mergeSSTablesWith env db faults readers = .ok result →
    ∀ pass, Sst.AllRead (faults pass) readers
  merged : ∀ r, mergeSSTablesWith env db faults readers = .ok (some r) →
    ∃ out, r.Stores out ∧ ∀ k, findEntry k out = Sst.newest k tables
  nothing : mergeSSTablesWith env db faults readers = .ok none → ∀ es ∈ tables, es = []
  live : ∀ e, mergeSSTablesWith env db faults readers = .error e →
    (compactWith env db faults readers).1.sstables = db.sstables ∧
      (compactWith env db faults readers).1.manifest = db.manifest ∧
      (compactWith env db faults readers).2 = some (.sst e)

/-- Only the given reads fail. -/
def Within (fails : Pass → Nat → Nat → Prop) (faults : ReadFaults) : Prop :=
  ∀ pass j i, faults pass j i ≠ none → fails pass j i

section Merge

variable (env : Env) (db : DB) (readers : List Sst.Reader) (tables : List (List Entry))
  (faults : ReadFaults)

/-- A failed merge stops the compaction before it changes anything but the next id. -/
theorem compactWith_error (e : Sst.Error)
    (failed : mergeSSTablesWith env db faults readers = .error e) :
    (compactWith env db faults readers).1.sstables = db.sstables ∧
      (compactWith env db faults readers).1.manifest = db.manifest ∧
      (compactWith env db faults readers).2 = some (.sst e) := by
  rw [compactWith, failed]
  cases sumEntryCountsWith (faults .count) readers with
  | error _ => exact ⟨rfl, rfl, rfl⟩
  | ok _ => exact ⟨rfl, rfl, rfl⟩

end Merge

/-! ### The count -/

section Count

variable {faults : Nat → Sst.BlockFaults} {readers : List Sst.Reader} {tables : List (List Entry)}
  {view : List (List Entry × Option Sst.Error)} (serving : Sst.ServingAll faults readers tables view)

include serving

/-- The count is that of the entries served, unless a fault is reported. -/
theorem sumEntryCountsWith_quiet (quiet : ∀ v ∈ view, Sst.reported v.1 v.2 = none) :
    ∃ n, sumEntryCountsWith faults readers = .ok n := by
  induction serving with
  | nil => exact ⟨0, rfl⟩
  | @cons faults r es v readers tables view first _ ih =>
    obtain ⟨here, later⟩ := List.forall_mem_cons.mp quiet
    obtain ⟨rest, counted⟩ := ih later
    refine ⟨v.1.length + rest, ?_⟩
    rw [sumEntryCountsWith, Sst.Reader.entryCountWith, Sst.countEntries_serves _ _ _ _ 0
      first.serves (Nat.lt_succ_of_le first.bounded), here]
    simp only [Except.ok_bind, counted, Nat.zero_add]

theorem quiet_of_sumEntryCountsWith (n : Nat) (counted : sumEntryCountsWith faults readers = .ok n) :
    ∀ v ∈ view, Sst.reported v.1 v.2 = none := by
  induction serving generalizing n with
  | nil => simp
  | @cons faults r es v readers tables view first _ ih =>
    obtain ⟨m, here, more⟩ := (Except.bind_eq_ok _ _ _).mp counted
    obtain ⟨rest, later, -⟩ := (Except.bind_eq_ok _ _ _).mp more
    refine List.forall_mem_cons.mpr ⟨?_, ih rest later⟩
    rw [Sst.Reader.entryCountWith, Sst.countEntries_serves _ _ _ _ 0 first.serves
      (Nat.lt_succ_of_le first.bounded)] at here
    cases fault : Sst.reported v.1 v.2 with
    | none => rfl
    | some e =>
      rw [fault] at here
      cases here

end Count

section Merge

variable (env : Env) (db : DB) (readers : List Sst.Reader) (tables : List (List Entry))
  (stores : List.Forall₂ Sst.Reader.Stores readers tables)

/-- A file that fits, and that can be opened again. -/
def Room (result : Except Sst.Error (Option Sst.Reader)) : Prop :=
  result ≠ .error .fileTooLarge ∧ result ≠ .error .corruptBloom

include stores in
/-- Failures of first blocks only: the merge completes, without the empty key. -/
theorem mergeSSTablesWith_completes (faults : ReadFaults) (many : 2 ≤ readers.length)
    (only : ∀ pass j i, i ≠ 0 → faults pass j i = none)
    (room : Room (mergeSSTablesWith env db faults readers)) :
    ∃ r out, mergeSSTablesWith env db faults readers = .ok (some r) ∧ r.Stores out ∧
      findEntry [] out = none := by
  obtain ⟨counts, servingCount⟩ := Sst.exists_servingAll readers tables stores (faults .count)
  obtain ⟨view, serving⟩ := Sst.exists_servingAll readers tables stores (faults .merge)
  obtain ⟨n, counted⟩ := sumEntryCountsWith_quiet servingCount
    (servingCount.quiet_of_first (only .count))
  rw [mergeSSTablesWith, if_neg (by omega), counted, Except.ok_bind] at room ⊢
  rcases Sst.mergeTablesWith_completes env.sizing defaultBlockSize n (faults .merge) readers tables
    view stores serving (by decide) (serving.quiet_of_first (only .merge)) (db.nextFileID + 1)
    (db.nextSSTID + 1) with tooLarge | ⟨file, out, merged, refused | ⟨r, opened, stored⟩, noEmpty, -⟩
  · rw [tooLarge] at room
    exact absurd rfl room.1
  · rw [merged, Except.ok_bind, refused] at room
    exact absurd rfl room.2
  · refine ⟨r, out, ?_, stored, noEmpty⟩
    rw [merged, Except.ok_bind, opened, Except.ok_bind]

include stores in
/-- With readable first blocks and without the empty key, a result means that neither pass
met a fault, and that it holds the newest entries. -/
theorem mergeSSTablesWith_faultless (faults : ReadFaults) (many : 2 ≤ readers.length)
    (first : ∀ pass, Sst.FirstRead (faults pass) readers)
    (keyed : ∀ es ∈ tables, ∀ e ∈ es, e.key ≠ []) (result : Option Sst.Reader)
    (ok : mergeSSTablesWith env db faults readers = .ok result) :
    (∀ pass, Sst.AllRead (faults pass) readers) ∧
      ∃ r out, result = some r ∧ r.Stores out ∧ ∀ k, findEntry k out = Sst.newest k tables := by
  obtain ⟨counts, servingCount⟩ := Sst.exists_servingAll readers tables stores (faults .count)
  obtain ⟨view, serving⟩ := Sst.exists_servingAll readers tables stores (faults .merge)
  rw [mergeSSTablesWith, if_neg (by omega)] at ok
  obtain ⟨n, counted, more⟩ := (Except.bind_eq_ok _ _ _).mp ok
  obtain ⟨file, merged, opening⟩ := (Except.bind_eq_ok _ _ _).mp more
  obtain ⟨r, opened, done⟩ := (Except.bind_eq_ok _ _ _).mp opening
  cases done
  -- a pass that reports nothing has read every block, since the first ones were readable
  have quietCount := quiet_of_sumEntryCountsWith servingCount n counted
  have quiet := Sst.mergeTablesWith_quiet env.sizing defaultBlockSize n (faults .merge) readers
    tables view serving keyed file merged
  have noFault := serving.faultless_of_quiet (first .merge) quiet
  have noCount := servingCount.faultless_of_quiet (first .count) quietCount
  constructor
  · intro pass
    cases pass with
    | count => exact servingCount.faultless.mp noCount
    | merge => exact serving.faultless.mp noFault
  · rcases Sst.mergeTablesWith_completes env.sizing defaultBlockSize n (faults .merge) readers tables
      view stores serving (by decide) quiet (db.nextFileID + 1) (db.nextSSTID + 1) with
      tooLarge | ⟨file', out, merged', opens, -, found⟩
    · rw [tooLarge] at merged
      cases merged
    · rw [merged] at merged'
      cases merged'
      rw [opened] at opens
      rcases opens with refused | ⟨r', same, stored⟩
      · cases refused
      · cases same
        rw [serving.whole noFault] at found
        exact ⟨r, out, rfl, stored, found keyed⟩

include stores in
/-- Without the empty key, and with readable first blocks, no failure is missed. -/
theorem surfaces_of_firstRead (faults : ReadFaults)
    (enough : 2 ≤ readers.length ∨ ∀ r ∈ readers, r.index = [])
    (first : ∀ pass, Sst.FirstRead (faults pass) readers)
    (keyed : ∀ es ∈ tables, ∀ e ∈ es, e.key ≠ []) : Surfaces env db readers tables faults := by
  have noBlocks (few : ¬2 ≤ readers.length) : ∀ r ∈ readers, r.index = [] :=
    enough.resolve_left few
  have faultless (many : 2 ≤ readers.length) := mergeSSTablesWith_faultless env db readers tables
    stores faults many first keyed
  constructor
  · intro result ok pass
    by_cases many : 2 ≤ readers.length
    · exact (faultless many result ok).1 pass
    · intro j r is i small
      rw [noBlocks many r (List.mem_of_getElem? is)] at small
      exact absurd small (by simp)
  · intro r ok
    have many : 2 ≤ readers.length := by
      by_contra few
      rw [mergeSSTablesWith, if_pos (by omega)] at ok
      cases ok
    obtain ⟨-, r', out, same, stored, found⟩ := faultless many (some r) ok
    cases same
    exact ⟨out, stored, found⟩
  · intro ok es member
    by_cases many : 2 ≤ readers.length
    · obtain ⟨-, r, out, same, -⟩ := faultless many none ok
      cases same
    · obtain ⟨r, inside, stored⟩ := stores.exists_left es member
      obtain ⟨part, fault, serves⟩ := stored.serving r es Sst.noFaults
      exact serves.empty.mp (noBlocks many r inside)
  · intro e failed
    exact compactWith_error env db readers faults e failed

/-- One read that fails. -/
def failAt (pass : Pass) (j i : Nat) : ReadFaults := fun p a b =>
  if p = pass ∧ a = j ∧ b = i then some .eof else none

theorem failAt_eq (pass : Pass) (j i : Nat) : failAt pass j i pass j i = some .eof := by
  simp [failAt]

theorem failAt_cases (pass p : Pass) (j i a b : Nat) :
    failAt pass j i p a b = none ∨
      failAt pass j i p a b = some .eof ∧ p = pass ∧ a = j ∧ b = i := by
  by_cases here : p = pass ∧ a = j ∧ b = i
  · right
    simp [failAt, here]
  · left
    simp only [failAt, here, if_false]

include stores in
/-- Whatever reads fail among those that may, the merge surfaces the failure, if and only if
there are two inputs at least (or nothing to merge), no first block of an input may fail in
either pass, and no input has the empty key. -/
theorem mergeSSTables_surfaces_iff (fails : Pass → Nat → Nat → Prop)
    (room : ∀ faults, Within fails faults →
      (∀ pass j i, faults pass j i ≠ some .fileTooLarge ∧ faults pass j i ≠ some .corruptBloom) →
      Room (mergeSSTablesWith env db faults readers)) :
    (∀ faults, Within fails faults → Surfaces env db readers tables faults) ↔
      (2 ≤ readers.length ∨ ∀ r ∈ readers, r.index = []) ∧
        (∀ pass j r, readers[j]? = some r → r.index ≠ [] → ¬fails pass j 0) ∧
        ∀ es ∈ tables, ∀ e ∈ es, e.key ≠ [] := by
  constructor
  · intro surfaces
    have noFailure : Within fails fun _ _ => Sst.noFaults := fun _ _ _ failing => absurd rfl failing
    have calm := surfaces _ noFailure
    -- fewer than two inputs are not read at all
    have few (less : readers.length < 2) (faults : ReadFaults) :
        mergeSSTablesWith env db faults readers = .ok none := by
      rw [mergeSSTablesWith, if_pos less]
    refine ⟨?_, ?_, ?_⟩
    · by_cases many : 2 ≤ readers.length
      · exact .inl many
      · right
        intro r member
        obtain ⟨es, inside, stored⟩ := stores.exists_right r member
        obtain ⟨part, fault, serves⟩ := stored.serving r es Sst.noFaults
        exact serves.empty.mpr (calm.nothing (few (by omega) _) es inside)
    · intro pass j r is some_ mayFail
      -- that single failure is not reported
      have within : Within fails (failAt pass j 0) := by
        intro p a b failing
        rcases failAt_cases pass p j 0 a b with none_ | ⟨-, rfl, rfl, rfl⟩
        · exact absurd none_ failing
        · exact mayFail
      have completed : ∃ result, mergeSSTablesWith env db (failAt pass j 0) readers = .ok result := by
        by_cases many : 2 ≤ readers.length
        · have onlyFirst (p : Pass) (a b : Nat) (later : b ≠ 0) : failAt pass j 0 p a b = none := by
            rcases failAt_cases pass p j 0 a b with none_ | ⟨-, -, -, zero⟩
            · exact none_
            · exact absurd zero later
          have noSpace := room _ within fun p a b => by
            rcases failAt_cases pass p j 0 a b with none_ | ⟨eof, -⟩
            · simp [none_]
            · simp [eof]
          obtain ⟨r, -, ok, -⟩ := mergeSSTablesWith_completes env db readers tables stores _
            many onlyFirst noSpace
          exact ⟨some r, ok⟩
        · exact ⟨none, few (by omega) _⟩
      obtain ⟨result, ok⟩ := completed
      have read := (surfaces _ within).read result ok pass j r is 0 (List.length_pos_iff.mpr some_)
      rw [failAt_eq] at read
      cases read
    · by_cases many : 2 ≤ readers.length
      · obtain ⟨r, out, ok, stored, noEmpty⟩ := mergeSSTablesWith_completes env db readers tables
          stores _ many (fun _ _ _ _ => rfl) (room _ noFailure fun _ _ _ => by simp)
        obtain ⟨out', stored', found⟩ := calm.merged r ok
        rw [stored.unique r out out' stored', found, Sst.newest_eq_none] at noEmpty
        exact noEmpty
      · intro es member
        rw [calm.nothing (few (by omega) _) es member]
        simp
  · rintro ⟨enough, readable, keyed⟩ faults within
    refine surfaces_of_firstRead env db readers tables stores faults enough ?_ keyed
    intro pass j r is some_
    by_contra failing
    exact readable pass j r is some_ (within pass j 0 failing)

end Merge

/-- Two inputs, the first with two blocks: its second block may fail to be merged. -/
theorem mergeSSTables_surfaces_second_block :
    let a : List Entry := [⟨[97], [1], false⟩]
    let b : List Entry := [⟨[98], [], true⟩]
    let c : List Entry := [⟨[98], [2], false⟩]
    let readers := [Sst.readerOf 1 1 [a, b] (Sst.Writer.filterOf (.new 24 7) (a ++ b)), tableOf 2 c]
    let fails : Pass → Nat → Nat → Prop := fun pass j i => pass = .merge ∧ j = 0 ∧ i = 1
    ∀ faults, Within fails faults → Surfaces smallEnv emptyDB readers [a ++ b, c] faults := by
  intro a b c readers fails
  have stores : List.Forall₂ Sst.Reader.Stores readers [a ++ b, c] :=
    .cons (Sst.stores_tableFile [a, b] _ (by decide) (by decide) (by decide) (by decide +kernel) _ _ _)
      (.cons (tableOf_holds 2 c (by decide) (by decide) (by decide) (by decide)).toStores .nil)
  have room : ∀ faults, Within fails faults →
      (∀ pass j i, faults pass j i ≠ some .fileTooLarge ∧ faults pass j i ≠ some .corruptBloom) →
      Room (mergeSSTablesWith smallEnv emptyDB faults readers) := by
    intro faults within others
    -- the pattern is told by the answer to that one read
    have single : faults = fun pass j i =>
        if pass = .merge ∧ j = 0 ∧ i = 1 then faults .merge 0 1 else none := by
      funext pass j i
      split
      next here => rw [here.1, here.2.1, here.2.2]
      next other =>
        by_contra failing
        exact other (within pass j i failing)
    have other := others .merge 0 1
    rw [single]
    generalize faults .merge 0 1 = answer at other
    cases answer with
    | none => exact ⟨by decide +kernel, by decide +kernel⟩
    | some e =>
      cases e <;> first
        | exact absurd rfl other.1
        | exact absurd rfl other.2
        | exact ⟨by decide +kernel, by decide +kernel⟩
  exact (mergeSSTables_surfaces_iff smallEnv emptyDB readers [a ++ b, c] stores fails room).mpr
    ⟨.inl (by decide), fun pass j r _ _ may => absurd may.2.2 (by decide), by decide⟩

/-- The first block of the newer table cannot be read during the merge: the compaction
reports success, and the live table it leaves does not know what that table held. -/
theorem not_mergeSSTables_surfaces_first_block :
    let a : List Entry := [⟨[97], [1], false⟩]
    let b : List Entry := [⟨[98], [2], false⟩]
    let db := { emptyDB with sstables := [tableOf 1 a, tableOf 2 b], nextSSTID := 2, nextFileID := 2 }
    let after := compactWith smallEnv db (failAt .merge 1 0) db.sstables
    List.Forall₂ Sst.Reader.Stores db.sstables [a, b] ∧
      lookupSSTReaders db.sstables [98] = .ok (some [2], true) ∧
      after.2 = none ∧ after.1.sstables.length = 1 ∧ lookupSSTReaders after.1.sstables [98] = .ok (none, false) ∧
      ¬Surfaces smallEnv db db.sstables [a, b] (failAt .merge 1 0) := by
  intro a b db after
  refine ⟨?_, by decide +kernel, by decide +kernel, by decide +kernel, by decide +kernel, ?_⟩
  · exact .cons (tableOf_holds 1 a (by decide) (by decide) (by decide) (by decide)).toStores
      (.cons (tableOf_holds 2 b (by decide) (by decide) (by decide) (by decide)).toStores .nil)
  · intro surfaces
    have completes : (mergeSSTablesWith smallEnv db (failAt .merge 1 0) db.sstables).toOption.isSome =
        true := by
      decide +kernel
    cases merged : mergeSSTablesWith smallEnv db (failAt .merge 1 0) db.sstables with
    | error e =>
      rw [merged] at completes
      cases completes
    | ok result =>
      have read := surfaces.read result merged .merge 1 (tableOf 2 b) rfl 0 (by decide)
      rw [failAt_eq] at read
      cases read

end PebbleDB.Db
