import PebbleDB.Db.Flush

/-!
# Compaction

`doCompaction` picks the two oldest tables, merges them into a new one and replaces
the list of live tables by the untouched ones followed by the merged one. The list
is searched from its end, so its order is the age that lookups see.
-/
namespace PebbleDB.Db

def defaultCompactPickCount : Nat := 2

inductive CompactError where
  | invalidPath (digits : List Nat)
  | sst (e : Sst.Error)
  | manifest (e : Manifest.Error)
  deriving DecidableEq, Repr

/-! ### File names -/

/-- `sstIDFromPath`: the pattern accepts exactly eight digits. -/
def sstIDFromPath (digits : List Nat) : Except CompactError UInt64 :=
  if digits.length = 8 then .ok (UInt64.ofNat (Nat.ofDigits 10 digits.reverse))
  else .error (.invalidPath digits)

def liveIDsFromReaders : List Sst.Reader → Except CompactError (List UInt64)
  | [] => .ok []
  | r :: readers => do
    let id ← sstIDFromPath (sstFileDigits r.id)
    let ids ← liveIDsFromReaders readers
    .ok (id :: ids)

/-! ### The steps of a compaction -/

/-- The oldest tables, or none below the threshold. -/
def pickSSTablesForCompactionLocked (db : DB) : List Sst.Reader :=
  if (db.sstables.length : Int) < db.compactThreshold then []
  else
    let n := min defaultCompactPickCount db.sstables.length
    if n < 2 then [] else db.sstables.take n

/-- Readers are compared by identity. -/
def readersStillPresent (all subset : List Sst.Reader) : Bool :=
  subset.all fun want => all.any fun r => r.fileID = want.fileID

/-- `mergeSSTables` reads its inputs twice. -/
inductive Pass where
  | count
  | merge
  deriving DecidableEq, Repr

/-- The failures of `readBlock`: by pass, number of the input and number of the block. -/
abbrev ReadFaults := Pass → Nat → Sst.BlockFaults

/-- The counts that `mergeSSTables` adds up. -/
def sumEntryCountsWith : (Nat → Sst.BlockFaults) → List Sst.Reader → Except Sst.Error Nat
  | _, [] => .ok 0
  | faults, r :: readers => do
    let n ← r.entryCountWith (faults 0)
    let rest ← sumEntryCountsWith (fun j => faults (j + 1)) readers
    .ok (n + rest)

def sumEntryCounts : List Sst.Reader → Except Sst.Error Nat :=
  sumEntryCountsWith fun _ => Sst.noFaults

/-- The reader of the merged table; nothing for less than two tables. -/
def mergeSSTablesWith (env : Env) (db : DB) (faults : ReadFaults) (readers : List Sst.Reader) :
    Except Sst.Error (Option Sst.Reader) :=
  if readers.length < 2 then .ok none
  else do
    let expectedEntries ← sumEntryCountsWith (faults .count) readers
    let file ← Sst.mergeTablesWith env.sizing defaultBlockSize expectedEntries (faults .merge) readers
    let merged ← Sst.openReader (db.nextFileID + 1) (db.nextSSTID + 1) file
    .ok (some merged)

def mergeSSTables (env : Env) (db : DB) : List Sst.Reader → Except Sst.Error (Option Sst.Reader) :=
  mergeSSTablesWith env db fun _ _ => Sst.noFaults

/-- The list that replaces the live tables: the merged table goes to the end. -/
def buildNewList (sstables compReaders : List Sst.Reader) (newReader : Sst.Reader) :
    List Sst.Reader :=
  (sstables.filter fun r => !compReaders.any fun c => c.fileID = r.fileID) ++ [newReader]

/-- `doCompaction` without another goroutine in between, every file operation succeeding.
The presence checks and the rollback are for tables that others removed meanwhile. -/
def doCompaction (env : Env) (db : DB) : Except CompactError DB :=
  let compReaders := pickSSTablesForCompactionLocked db
  if compReaders.length < 2 then .ok db
  else do
    -- `oldLiveIDs`, which only a rollback would use
    let _ ← liveIDsFromReaders db.sstables
    if !readersStillPresent db.sstables compReaders then .ok db
    else
      match mergeSSTables env db compReaders with
      | .error e => .error (.sst e)
      | .ok none => .ok db
      | .ok (some newReader) =>
        let db := { db with nextSSTID := db.nextSSTID + 1, nextFileID := db.nextFileID + 1 }
        let newList := buildNewList db.sstables compReaders newReader
        let liveIDs ← liveIDsFromReaders newList
        match Manifest.appendSetFileSet db.manifest liveIDs .none with
        | (_, some e) => .error (.manifest e)
        | (manifest, none) =>
          .ok { db with
            sstables := newList
            manifest := (Manifest.maybeCompact manifest .none).1 }

/-! ### Ids and file names -/

/-- A file name with eight digits gives its id back. -/
theorem sstIDFromPath_ok (id id' : UInt64) (ok : sstIDFromPath (sstFileDigits id) = .ok id') :
    id' = id := by
  rw [sstIDFromPath] at ok
  split at ok
  · cases ok
    rw [ofDigits_sstFileDigits, UInt64.ofNat_toNat]
  · cases ok

theorem liveIDsFromReaders_ok (readers : List Sst.Reader) (ids : List UInt64)
    (ok : liveIDsFromReaders readers = .ok ids) : ids = readers.map Sst.Reader.id := by
  induction readers generalizing ids with
  | nil =>
    cases ok
    rfl
  | cons r readers ih =>
    obtain ⟨id, first, rest⟩ := (Except.bind_eq_ok _ _ _).mp ok
    obtain ⟨later, found, done⟩ := (Except.bind_eq_ok _ _ _).mp rest
    cases done
    rw [sstIDFromPath_ok r.id id first, ih later found, List.map_cons]

/-! ### What it does to the tables -/

theorem readersStillPresent_of_subset (all subset : List Sst.Reader) (inside : subset ⊆ all) :
    readersStillPresent all subset = true := by
  rw [readersStillPresent, List.all_eq_true]
  intro want member
  rw [List.any_eq_true]
  exact ⟨want, inside member, by simp⟩

/-- With distinct readers, exactly the picked ones are dropped. -/
theorem buildNewList_take (sstables : List Sst.Reader) (n : Nat) (newReader : Sst.Reader)
    (distinct : (sstables.map Sst.Reader.fileID).Nodup) :
    buildNewList sstables (sstables.take n) newReader = sstables.drop n ++ [newReader] := by
  rw [buildNewList]
  congr 1
  rw [← List.take_append_drop n sstables, List.map_append, List.nodup_append] at distinct
  obtain ⟨-, -, apart⟩ := distinct
  conv_lhs => rw [← List.take_append_drop n sstables, List.filter_append]
  have dropped : (sstables.take n).filter
      (fun r => !(sstables.take n).any fun c => decide (c.fileID = r.fileID)) = [] := by
    rw [List.filter_eq_nil_iff]
    intro r member
    simp only [Bool.not_eq_true', Bool.not_eq_false, List.any_eq_true, decide_eq_true_eq]
    exact ⟨r, member, rfl⟩
  have kept : (sstables.drop n).filter
      (fun r => !(sstables.take n).any fun c => decide (c.fileID = r.fileID)) =
      sstables.drop n := by
    rw [List.filter_eq_self]
    intro r member
    simp only [Bool.not_eq_true', List.any_eq_false, decide_eq_true_eq]
    intro c inside same
    exact apart _ (List.mem_map_of_mem inside) _ (List.mem_map_of_mem member) same
  simp only [List.take_append_drop] at *
  rw [dropped, kept, List.nil_append]

/-- The merged table takes the next identity and the next id. -/
theorem mergeSSTables_ok (env : Env) (db : DB) (readers : List Sst.Reader) (merged : Sst.Reader)
    (ok : mergeSSTables env db readers = .ok (some merged)) :
    merged.fileID = db.nextFileID + 1 ∧ merged.id = db.nextSSTID + 1 := by
  rw [mergeSSTables, mergeSSTablesWith] at ok
  split at ok
  · cases ok
  · obtain ⟨expected, _, ok⟩ := (Except.bind_eq_ok _ _ _).mp ok
    obtain ⟨file, _, ok⟩ := (Except.bind_eq_ok _ _ _).mp ok
    obtain ⟨t, opened, ok⟩ := (Except.bind_eq_ok _ _ _).mp ok
    cases ok
    obtain ⟨fileID, id, -, -⟩ := Sst.openReader_ok _ _ _ _ opened
    exact ⟨fileID, id⟩

theorem pick_subset (db : DB) : pickSSTablesForCompactionLocked db ⊆ db.sstables := by
  rw [pickSSTablesForCompactionLocked]
  split
  · exact List.nil_subset _
  · dsimp only
    split
    · exact List.nil_subset _
    · exact List.take_subset _ _

/-- A completed `doCompaction` has either found nothing to pick, or replaced the picked
tables by the merged one. -/
theorem doCompaction_ok (env : Env) (db db' : DB) (completed : doCompaction env db = .ok db') :
    ((pickSSTablesForCompactionLocked db).length < 2 ∧ db' = db) ∨
      ∃ newReader manifest,
        mergeSSTables env db (pickSSTablesForCompactionLocked db) = .ok (some newReader) ∧
        db' = { db with
          nextSSTID := db.nextSSTID + 1
          nextFileID := db.nextFileID + 1
          sstables := buildNewList db.sstables (pickSSTablesForCompactionLocked db) newReader
          manifest := manifest } := by
  simp only [doCompaction] at completed
  split at completed
  next few =>
    cases completed
    exact .inl ⟨few, rfl⟩
  next many =>
    obtain ⟨_, -, more⟩ := (Except.bind_eq_ok _ _ _).mp completed
    rw [readersStillPresent_of_subset _ _ (pick_subset db)] at more
    simp only [Bool.not_true, Bool.false_eq_true, if_false] at more
    cases merging : mergeSSTables env db (pickSSTablesForCompactionLocked db) with
    | error e =>
      rw [merging] at more
      cases more
    | ok result =>
      rw [merging] at more
      cases result with
      | none =>
        -- only fewer than two tables give no reader
        rw [mergeSSTables, mergeSSTablesWith, if_neg many] at merging
        obtain ⟨_, -, merging⟩ := (Except.bind_eq_ok _ _ _).mp merging
        obtain ⟨_, -, merging⟩ := (Except.bind_eq_ok _ _ _).mp merging
        obtain ⟨_, -, merging⟩ := (Except.bind_eq_ok _ _ _).mp merging
        cases merging
      | some newReader =>
        obtain ⟨liveIDs, -, committed⟩ := (Except.bind_eq_ok _ _ _).mp more
        split at committed
        · cases committed
        · cases committed
          exact .inr ⟨newReader, _, rfl, rfl⟩

section Tables

variable (env : Env) (db : DB) (tables : List (List Entry))
  (holds : List.Forall₂ Sst.Reader.Holds db.sstables tables)
  (distinct : (db.sstables.map Sst.Reader.fileID).Nodup)
  (keyed : ∀ es ∈ tables, ∀ e ∈ es, e.key ≠ [])
  (atThreshold : db.compactThreshold ≤ db.sstables.length)

include atThreshold in
theorem pick_eq : pickSSTablesForCompactionLocked db =
    if db.sstables.length < 2 then [] else db.sstables.take 2 := by
  have count : defaultCompactPickCount = 2 := rfl
  rw [pickSSTablesForCompactionLocked, if_neg (by omega)]
  by_cases few : db.sstables.length < 2
  · have small : min defaultCompactPickCount db.sstables.length < 2 := by omega
    simp only [small, few, if_true]
  · have two : min defaultCompactPickCount db.sstables.length = 2 := by omega
    simp only [two, few, if_false, lt_self_iff_false]

include atThreshold in
/-- A single table is left alone. -/
theorem doCompaction_single (few : db.sstables.length < 2) : doCompaction env db = .ok db := by
  rw [doCompaction, pick_eq db atThreshold, if_pos few]
  rfl

end Tables

/-- A table with one block, as a flush writes it under `smallEnv`. -/
def tableOf (id : Nat) (es : List Entry) : Sst.Reader :=
  Sst.readerOf id (UInt64.ofNat id) [es]
    (Sst.Writer.filterOf (.new (8 * es.length + 8) 7) es)

theorem tableOf_holds (id : Nat) (es : List Entry) (nonempty : es ≠ [])
    (ascending : Ascending es) (fits : ∀ e ∈ es, e.Fits)
    (small : (tableOf id es).file.length ≤ Sst.maxInt ∧ 8 * es.length + 8 < 2 ^ 32) :
    (tableOf id es).Holds es := by
  have flat : [es].flatten = es := List.flatten_singleton
  have sized := Sst.Filter.new_sized (8 * es.length + 8) 7 (by omega) (by omega)
  have stores := Sst.stores_tableFile [es] (Sst.Writer.filterOf (.new (8 * es.length + 8) 7) es)
    (by simpa using nonempty) (by rwa [flat]) (by rwa [flat]) small.1 id (UInt64.ofNat id)
    (some (Sst.Writer.filterOf (.new (8 * es.length + 8) 7) es))
  rw [flat] at stores
  exact ⟨stores, fun e member => Sst.filterOf_mem es _ sized e member⟩

end PebbleDB.Db
