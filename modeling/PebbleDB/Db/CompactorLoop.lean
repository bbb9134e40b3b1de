import Mathlib.Logic.Relation
import PebbleDB.Db.Compaction

/-!
# The rounds of the compactor

After a signal the compactor calls `doCompaction` again and again, with `compactMu` held,
until a call fails or fewer tables are left than the threshold. A round that merges takes
one table away. It needs two tables, though, while the loop goes on from the threshold:
with a threshold of one, a single table is never merged and never too few, and the loop
does not end.
-/
namespace PebbleDB.Db

/-- `maybeTriggerCompaction`: whether a signal is sent to the compactor. -/
def maybeTriggerCompaction (db : DB) : Bool :=
  !(db.closed || decide (db.compactThreshold ≤ 0) ||
    decide ((db.sstables.length : Int) < db.compactThreshold))

/-- The inner loop of `compactor`, for at most `fuel` rounds: left with the error of a
compaction, or with the store once there are too few tables. -/
def compactorLoop (env : Env) : Nat → DB → Option (Except CompactError DB)
  | 0, _ => none
  | fuel + 1, db =>
    match doCompaction env db with
    | .error e => some (.error e)
    | .ok db =>
      -- `more`
      if db.compactThreshold ≤ db.sstables.length then compactorLoop env fuel db
      else some (.ok db)

/-- The live readers are different pointers, and none is one that a merge will create. -/
structure DistinctReaders (db : DB) : Prop where
  nodup : (db.sstables.map Sst.Reader.fileID).Nodup
  known : ∀ r ∈ db.sstables, r.fileID ≤ db.nextFileID

/-- Any number of completed compactions. -/
def Rounds (env : Env) : DB → DB → Prop :=
  Relation.ReflTransGen fun db db' => doCompaction env db = .ok db'

/-- The loop is left with fewer tables than the threshold after finitely many rounds, and
each round that changes the store takes one table away. -/
structure CompactorEnds (env : Env) (db : DB) : Prop where
  exits : ∃ fuel db', compactorLoop env fuel db = some (.ok db') ∧
    (db'.sstables.length : Int) < db'.compactThreshold
  reduces : ∀ before after, Rounds env db before → doCompaction env before = .ok after →
    after = before ∨ after.sstables.length + 1 = before.sstables.length

/-! ### One round -/

section Round

variable (env : Env) (db db' : DB) (completed : doCompaction env db = .ok db')

theorem pick_length_lt_two : (pickSSTablesForCompactionLocked db).length < 2 ↔
    (db.sstables.length : Int) < db.compactThreshold ∨ db.sstables.length < 2 := by
  have count : defaultCompactPickCount = 2 := rfl
  by_cases below : (db.sstables.length : Int) < db.compactThreshold
  · simp [pickSSTablesForCompactionLocked, below]
  · rw [pick_eq db (not_lt.mp below)]
    by_cases few : db.sstables.length < 2
    · simp [few]
    · simp only [few, if_false, List.length_take, below, or_self, iff_false]
      omega

include completed in
/-- What a round does to the number of tables; it never leaves none of them. -/
theorem doCompaction_count (distinct : DistinctReaders db) :
    (((db.sstables.length : Int) < db.compactThreshold ∨ db.sstables.length < 2) ∧ db' = db) ∨
      (2 ≤ db.sstables.length ∧ db'.sstables.length + 1 = db.sstables.length ∧
        db'.compactThreshold = db.compactThreshold ∧ DistinctReaders db') := by
  rcases doCompaction_ok env db db' completed with ⟨few, same⟩ | ⟨r, manifest, merged, rfl⟩
  · exact .inl ⟨(pick_length_lt_two db).mp few, same⟩
  · by_cases few : (pickSSTablesForCompactionLocked db).length < 2
    · rw [mergeSSTables, mergeSSTablesWith, if_pos few] at merged
      cases merged
    · have enough := mt (pick_length_lt_two db).mpr few
      rw [not_or, not_lt, not_lt] at enough
      obtain ⟨atThreshold, two⟩ := enough
      have fresh := (mergeSSTables_ok env db _ r merged).1
      have picked : pickSSTablesForCompactionLocked db = db.sstables.take 2 := by
        rw [pick_eq db atThreshold, if_neg (by omega)]
      have list := buildNewList_take db.sstables 2 r distinct.nodup
      refine .inr ⟨two, ?_, rfl, ?_, ?_⟩
      · simp only [picked, list, List.length_append, List.length_drop, List.length_singleton]
        omega
      · -- the kept readers are some of the old ones, and the merged one is new
        simp only [picked, list, List.map_append, List.map_cons, List.map_nil]
        refine List.nodup_append.mpr ⟨?_, List.nodup_singleton _, ?_⟩
        · exact distinct.nodup.sublist ((List.drop_sublist 2 _).map _)
        · rintro id inside _ last rfl
          obtain ⟨old, member, rfl⟩ := List.mem_map.mp inside
          have known := distinct.known old (List.mem_of_mem_drop member)
          rw [List.mem_singleton.mp last] at known
          omega
      · simp only [picked, list]
        intro x member
        rcases List.mem_append.mp member with old | new
        · exact (distinct.known x (List.mem_of_mem_drop old)).trans (Nat.le_succ _)
        · rw [List.mem_singleton.mp new]
          exact fresh.le

end Round

theorem DistinctReaders.rounds (env : Env) (db db' : DB) (distinct : DistinctReaders db)
    (reached : Rounds env db db') : DistinctReaders db' := by
  induction reached with
  | refl => exact distinct
  | tail _ completed ih =>
    rcases doCompaction_count env _ _ completed ih with ⟨-, rfl⟩ | ⟨-, -, -, kept⟩
    · exact ih
    · exact kept

/-! ### The loop -/

/-- From a threshold of two on, one round more than there are tables is enough. The
induction is on the rounds; each that does not leave the loop has taken a table away. -/
theorem compactorLoop_exits (env : Env) (fuel : Nat) (db : DB) (distinct : DistinctReaders db)
    (two : 2 ≤ db.compactThreshold) (enough : db.sstables.length < fuel)
    (succeeds : ∀ e, compactorLoop env fuel db ≠ some (.error e)) :
    ∃ db', compactorLoop env fuel db = some (.ok db') ∧
      (db'.sstables.length : Int) < db'.compactThreshold := by
  induction fuel generalizing db with
  | zero => omega
  | succ fuel ih =>
    rw [compactorLoop] at succeeds ⊢
    cases completed : doCompaction env db with
    | error e =>
      rw [completed] at succeeds
      exact absurd rfl (succeeds e)
    | ok db' =>
      rw [completed] at succeeds
      dsimp only at succeeds ⊢
      by_cases more : db'.compactThreshold ≤ db'.sstables.length
      · rw [if_pos more] at succeeds ⊢
        rcases doCompaction_count env db db' completed distinct with
          ⟨nothing, rfl⟩ | ⟨-, fewer, threshold, kept⟩
        · omega
        · exact ih db' kept (threshold ▸ two) (by omega) succeeds
      · rw [if_neg more]
        exact ⟨db', rfl, not_le.mp more⟩

/-- With a threshold of one and any table, no number of rounds leaves too few tables. -/
theorem compactorLoop_spins (env : Env) (fuel : Nat) (db db' : DB) (distinct : DistinctReaders db)
    (one : db.compactThreshold ≤ 1) (some_ : db.sstables ≠ []) :
    compactorLoop env fuel db ≠ some (.ok db') := by
  induction fuel generalizing db with
  | zero => simp [compactorLoop]
  | succ fuel ih =>
    rw [compactorLoop]
    cases completed : doCompaction env db with
    | error e => simp
    | ok after =>
      have positive := List.length_pos_iff.mpr some_
      dsimp only
      rcases doCompaction_count env db after completed distinct with
        ⟨-, rfl⟩ | ⟨two, fewer, threshold, kept⟩
      · rw [if_pos (by omega)]
        exact ih after distinct one some_
      · rw [if_pos (by omega)]
        exact ih after kept (threshold ▸ one) (List.length_pos_iff.mp (by omega))

/-- With a positive threshold and no failing compaction, the loop ends if and only if the
threshold is at least two or there is no table at all. -/
theorem compactorEnds_iff (env : Env) (db : DB) (distinct : DistinctReaders db)
    (positive : 1 ≤ db.compactThreshold)
    (succeeds : ∀ fuel e, compactorLoop env fuel db ≠ some (.error e)) :
    CompactorEnds env db ↔ 2 ≤ db.compactThreshold ∨ db.sstables = [] := by
  constructor
  · rintro ⟨⟨fuel, db', left, -⟩, -⟩
    by_contra stuck
    rw [not_or] at stuck
    exact compactorLoop_spins env fuel db db' distinct (by omega) stuck.2 left
  · intro condition
    constructor
    · rcases condition with two | none_
      · obtain ⟨db', left, few⟩ := compactorLoop_exits env (db.sstables.length + 1) db distinct two
          (Nat.lt_succ_self _) (succeeds _)
        exact ⟨_, db', left, few⟩
      · -- the first round finds nothing, and nothing is less than the threshold
        have below : (db.sstables.length : Int) < db.compactThreshold := by
          rw [none_, List.length_nil]
          omega
        have nothing : doCompaction env db = .ok db := by
          simp only [doCompaction]
          rw [if_pos ((pick_length_lt_two db).mpr (.inl below))]
        refine ⟨1, db, ?_, below⟩
        rw [compactorLoop, nothing]
        exact if_neg (not_le.mpr below)
    · intro before after reached completed
      rcases doCompaction_count env before after completed (distinct.rounds env db before reached) with
        ⟨-, same⟩ | ⟨-, fewer, -, -⟩
      · exact .inl same
      · exact .inr fewer

/-- Two tables and a threshold of two: one round merges them. -/
theorem compactorEnds_two_tables :
    let db := { emptyDB with
      sstables := [tableOf 1 [⟨[97], [1], false⟩], tableOf 2 [⟨[98], [2], false⟩]]
      compactThreshold := 2
      nextSSTID := 2
      nextFileID := 2 }
    maybeTriggerCompaction db = true ∧ CompactorEnds smallEnv db := by
  intro db
  refine ⟨by decide +kernel, (compactorEnds_iff smallEnv db ⟨by decide, by decide⟩ (by decide) ?_).mpr
    (.inl (by decide))⟩
  have first : (compactorLoop smallEnv 1 db).map (fun left => left.toOption.isSome) = some true := by
    decide +kernel
  intro fuel e failed
  cases fuel with
  | zero => cases failed
  | succ fuel =>
    -- the first round leaves the loop
    rw [compactorLoop] at first failed
    cases completed : doCompaction smallEnv db with
    | error e =>
      rw [completed] at first
      cases first
    | ok db' =>
      rw [completed] at first failed
      dsimp only at first failed
      split at failed
      next more =>
        rw [if_pos more] at first
        cases first
      next => cases failed

/-- One table and a threshold of one: the compactor is signalled, every `doCompaction`
succeeds without an effect, and the loop never ends. -/
theorem not_compactorEnds_threshold_one :
    let db := { emptyDB with
      sstables := [tableOf 1 [⟨[97], [1], false⟩]]
      compactThreshold := 1
      nextSSTID := 1
      nextFileID := 1 }
    maybeTriggerCompaction db = true ∧ doCompaction smallEnv db = .ok db ∧
      (∀ fuel, compactorLoop smallEnv fuel db = none) ∧ ¬CompactorEnds smallEnv db := by
  intro db
  have nothing := doCompaction_single smallEnv db (by decide) (by decide)
  have spins (fuel : Nat) : compactorLoop smallEnv fuel db = none := by
    induction fuel with
    | zero => rfl
    | succ fuel ih =>
      rw [compactorLoop, nothing]
      exact (if_pos (by decide)).trans ih
  refine ⟨by decide +kernel, nothing, spins, ?_⟩
  rintro ⟨⟨fuel, db', left, -⟩, -⟩
  rw [spins fuel] at left
  cases left

end PebbleDB.Db
