import Mathlib.Data.Finset.Sort
import PebbleDB.Db.Compaction
import PebbleDB.Db.Open
import PebbleDB.Lib.SlashPath

/-!
# The names of table files

A table with an id is stored as `sst_%08d.sst` in the directory of the store, and two
functions go back from names to ids: `discoverSSTIDs` over the entries of the directory,
`sstIDFromPath` for the path of an open table. The format pads to at least eight digits;
the pattern both functions match with asks for exactly eight.

The models of `Open` and `Compaction` keep only the digits of a name. Here the names are
the bytes they are on disk, and the two are connected (`discoverSSTIDs_eq`,
`sstIDFromPath_eq`).

## Main result

`sstNames_inverse_iff`: names and ids are inverse exactly for the ids below 10^8.
-/
namespace PebbleDB.Db.FileName

def slash : UInt8 := 0x2f
def dot : UInt8 := 0x2e

/-- The character of a decimal digit. -/
def digitByte (d : Nat) : UInt8 := UInt8.ofNat (48 + d)

def isDigit (b : UInt8) : Bool := decide (48 ≤ b.toNat ∧ b.toNat ≤ 57)

/-- `fmt.Sprintf("sst_%08d.sst", id)` -/
def sstFileName (id : UInt64) : Bytes :=
  ascii "sst_" ++ (sstFileDigits id).map digitByte ++ ascii ".sst"

def sstFilePath (dir : Bytes) (id : UInt64) : Bytes := SlashPath.join slash dot dir (sstFileName id)

/-- What the group of `^sst_(\d{8})\.sst$` matches. -/
def sstFilePattern (name : Bytes) : Option Bytes :=
  let group := (name.drop 4).take 8
  if name.take 4 = ascii "sst_" ∧ group.length = 8 ∧ group.all isDigit = true ∧
      name.drop 12 = ascii ".sst" then some group
  else none

inductive ParseError where
  | malformed
  | outOfRange
  deriving DecidableEq, Repr

/-- The loop of `strconv.ParseUint` in base 10. -/
def parseDigits : Nat → Bytes → Except ParseError UInt64
  | n, [] => .ok (UInt64.ofNat n)
  | n, b :: bs =>
    if isDigit b = false then .error .malformed
    else if 2 ^ 64 ≤ n * 10 + (b.toNat - 48) then .error .outOfRange
    else parseDigits (n * 10 + (b.toNat - 48)) bs

def parseUint (text : Bytes) : Except ParseError UInt64 :=
  if text = [] then .error .malformed else parseDigits 0 text

inductive PathError where
  | noMatch (path : Bytes)
  | badNumber (path : Bytes) (e : ParseError)
  deriving DecidableEq, Repr

def sstIDFromPath (path : Bytes) : Except PathError UInt64 :=
  match sstFilePattern (SlashPath.base slash dot path) with
  | none => .error (.noMatch path)
  | some digits => (parseUint digits).mapError (.badNumber path)

structure DirEntry where
  name : Bytes
  isDir : Bool
  deriving DecidableEq, Repr

/-- The id of a directory entry; others are skipped. -/
def DirEntry.sstID (e : DirEntry) : Option UInt64 :=
  if e.isDir then none
  else (sstFilePattern e.name).bind fun digits => (parseUint digits).toOption

def discoverSSTIDs (entries : List DirEntry) : List UInt64 :=
  (entries.filterMap DirEntry.sstID).insertionSort (· ≤ ·)

/-- The entry of a table in the directory it is stored in. -/
def tableEntry (dir : Bytes) (id : UInt64) : DirEntry :=
  ⟨SlashPath.base slash dot (sstFilePath dir id), false⟩

/-! ### Digits -/

theorem digitByte_toNat (d : Nat) (small : d < 10) : (digitByte d).toNat = 48 + d := by
  rw [digitByte, UInt8.toNat_ofNat']
  omega

theorem isDigit_digitByte (d : Nat) (small : d < 10) : isDigit (digitByte d) = true := by
  rw [isDigit, digitByte_toNat d small, decide_eq_true_eq]
  omega

theorem sstFileDigits_lt (id : UInt64) (d : Nat) (member : d ∈ sstFileDigits id) : d < 10 := by
  simp only [sstFileDigits, List.mem_reverse, List.mem_append, List.mem_replicate] at member
  rcases member with digit | ⟨-, rfl⟩
  · exact Nat.digits_lt_base (by decide) digit
  · decide

/-- Reading the digits one by one, behind those read so far. -/
theorem parseDigits_map (ds : List Nat) (small : ∀ d ∈ ds, d < 10) (n : Nat)
    (fits : n * 10 ^ ds.length + Nat.ofDigits 10 ds.reverse < 2 ^ 64) :
    parseDigits n (ds.map digitByte) =
      .ok (UInt64.ofNat (n * 10 ^ ds.length + Nat.ofDigits 10 ds.reverse)) := by
  induction ds generalizing n with
  | nil => simp [parseDigits]
  | cons d ds ih =>
    have digit := small d (by simp)
    have value : (digitByte d).toNat - 48 = d := by rw [digitByte_toNat d digit]; omega
    have total : n * 10 ^ (d :: ds).length + Nat.ofDigits 10 (d :: ds).reverse =
        (n * 10 + d) * 10 ^ ds.length + Nat.ofDigits 10 ds.reverse := by
      rw [List.reverse_cons, Nat.ofDigits_append, Nat.ofDigits_singleton, List.length_reverse,
        List.length_cons, Nat.pow_succ]
      ring
    rw [total] at fits ⊢
    have room : n * 10 + d ≤ (n * 10 + d) * 10 ^ ds.length :=
      Nat.le_mul_of_pos_right _ (Nat.pow_pos (by decide))
    rw [List.map_cons, parseDigits, isDigit_digitByte d digit, if_neg (by decide), value,
      if_neg (by omega)]
    exact ih (fun x member => small x (by simp [member])) _ fits

/-- The digits of a name are read back as the id. -/
theorem parseUint_sstFileDigits (id : UInt64) :
    parseUint ((sstFileDigits id).map digitByte) = .ok id := by
  have some_ : (sstFileDigits id).map digitByte ≠ [] := by
    have eight := eight_le_sstFileDigits id
    intro empty
    have none_ := congrArg List.length empty
    rw [List.length_map, List.length_nil] at none_
    omega
  have value := ofDigits_sstFileDigits id
  rw [parseUint, if_neg some_, parseDigits_map _ (sstFileDigits_lt id) 0
    (by rw [value, Nat.zero_mul, Nat.zero_add]; exact id.toNat_lt), value, Nat.zero_mul,
    Nat.zero_add, UInt64.ofNat_toNat]

/-! ### Names -/

/-- The pattern against a name of the right form: eight digits, no more and no less. -/
theorem sstFilePattern_sstFileName (id : UInt64) :
    sstFilePattern (sstFileName id) =
      if sstNamed id then some ((sstFileDigits id).map digitByte) else none := by
  have atLeast := eight_le_sstFileDigits id
  have bytes : ((sstFileDigits id).map digitByte).length = (sstFileDigits id).length :=
    List.length_map _
  have digits : ∀ b ∈ (sstFileDigits id).map digitByte, isDigit b = true := by
    intro b member
    obtain ⟨d, inside, rfl⟩ := List.mem_map.mp member
    exact isDigit_digitByte d (sstFileDigits_lt id d inside)
  unfold sstFilePattern sstFileName sstNamed
  generalize (sstFileDigits id).map digitByte = text at bytes digits
  have front : (ascii "sst_").length = 4 := rfl
  have head : (ascii "sst_" ++ text ++ ascii ".sst").take 4 = ascii "sst_" := by
    rw [List.append_assoc, List.take_left' front]
  have behind : (ascii "sst_" ++ text ++ ascii ".sst").drop 4 = text ++ ascii ".sst" := by
    rw [List.append_assoc, List.drop_left' front]
  have tail : (ascii "sst_" ++ text ++ ascii ".sst").drop 12 = text.drop 8 ++ ascii ".sst" := by
    rw [show 12 = 4 + 8 from rfl, ← List.drop_drop, behind,
      List.drop_append_of_le_length (by omega)]
  have group : (text ++ ascii ".sst").take 8 = text.take 8 :=
    List.take_append_of_le_length (by omega)
  dsimp only
  rw [head, behind, tail, group, ← bytes]
  by_cases eight : text.length = 8
  · rw [List.take_of_length_le eight.le, List.drop_of_length_le eight.le,
      if_pos ⟨rfl, eight, List.all_eq_true.mpr digits, rfl⟩, if_pos (decide_eq_true eight)]
  · -- with nine digits or more, something stands between the eighth and the ending
    rw [if_neg, if_neg (by simpa using eight)]
    rintro ⟨-, -, -, ending⟩
    have sizes := congrArg List.length ending
    rw [List.length_append, List.length_drop] at sizes
    omega

theorem sstFileName_plain (id : UInt64) : SlashPath.Plain slash dot (sstFileName id) := by
  have long : 16 ≤ (sstFileName id).length := by
    have eight := eight_le_sstFileDigits id
    rw [sstFileName, List.length_append, List.length_append, List.length_map]
    show 16 ≤ 4 + _ + 4
    omega
  refine ⟨?_, ?_, ?_, ?_⟩
  · rintro empty
    simp [empty] at long
  · rintro empty
    simp [empty] at long
  · rintro empty
    simp [empty] at long
  · intro member
    rw [sstFileName, List.mem_append, List.mem_append] at member
    rcases member with (first | digit) | last
    · exact absurd first (by decide)
    · obtain ⟨d, inside, is⟩ := List.mem_map.mp digit
      have value := digitByte_toNat d (sstFileDigits_lt id d inside)
      rw [is] at value
      have : slash.toNat = 47 := rfl
      omega
    · exact absurd last (by decide)

theorem base_sstFilePath (dir : Bytes) (id : UInt64) :
    SlashPath.base slash dot (sstFilePath dir id) = sstFileName id :=
  SlashPath.base_join dir (sstFileName id) (sstFileName_plain id)

/-! ### Back to the ids -/

theorem sstIDFromPath_sstFilePath (dir : Bytes) (id : UInt64) :
    sstIDFromPath (sstFilePath dir id) =
      if sstNamed id then .ok id else .error (.noMatch (sstFilePath dir id)) := by
  rw [sstIDFromPath, base_sstFilePath, sstFilePattern_sstFileName]
  cases sstNamed id with
  | true =>
    have parsed := parseUint_sstFileDigits id
    simp [parsed]
  | false => simp

theorem sstID_tableEntry (dir : Bytes) (id : UInt64) :
    (tableEntry dir id).sstID = if sstNamed id then some id else none := by
  rw [DirEntry.sstID, tableEntry, base_sstFilePath, if_neg (by simp), sstFilePattern_sstFileName]
  cases sstNamed id with
  | true =>
    have parsed := parseUint_sstFileDigits id
    simp [parsed, Except.toOption]
  | false => simp

/-- The tables that are found in a directory of tables. -/
theorem filterMap_tableEntry (dir : Bytes) (ids : List UInt64) :
    (ids.map (tableEntry dir)).filterMap DirEntry.sstID = ids.filter sstNamed := by
  induction ids with
  | nil => rfl
  | cons id ids ih =>
    rw [List.map_cons, List.filterMap_cons, sstID_tableEntry, ih]
    cases named : sstNamed id with
    | true => simp [named]
    | false => simp [named]

/-- The model of `Open`, which has the digits of a name only, finds the same ids. -/
theorem discoverSSTIDs_eq (dir : Bytes) (ssts : SstFiles) :
    discoverSSTIDs ((ssts.map Prod.fst).map (tableEntry dir)) = Db.discoverSSTIDs ssts := by
  rw [discoverSSTIDs, Db.discoverSSTIDs, filterMap_tableEntry]

/-- So does the model of `Compaction` for the path of a table. -/
theorem sstIDFromPath_eq (dir : Bytes) (id id' : UInt64) :
    sstIDFromPath (sstFilePath dir id) = .ok id' ↔
      Db.sstIDFromPath (sstFileDigits id) = .ok id' := by
  rw [sstIDFromPath_sstFilePath, Db.sstIDFromPath, ofDigits_sstFileDigits, UInt64.ofNat_toNat,
    sstNamed]
  by_cases eight : (sstFileDigits id).length = 8
  · simp [eight]
  · simp [eight]

/-- For every directory, id and finite set of ids: the id comes back from the path of its
table, and the ids of a directory with exactly the tables of the set are found in ascending
order, if and only if the ids are below 10^8. -/
theorem sstNames_inverse_iff (dir : Bytes) :
    (∀ id, sstIDFromPath (sstFilePath dir id) = .ok id ↔ id.toNat < 10 ^ 8) ∧
      ∀ (ids : Finset UInt64) (entries : List DirEntry),
        entries.Perm (ids.toList.map (tableEntry dir)) →
          (discoverSSTIDs entries = ids.sort ↔ ∀ id ∈ ids, id.toNat < 10 ^ 8) := by
  simp only [← sstNamed_iff]
  constructor
  · intro id
    rw [sstIDFromPath_sstFilePath]
    cases sstNamed id with
    | true => simp
    | false => simp
  · intro ids entries listed
    have found : (discoverSSTIDs entries).Perm (ids.toList.filter sstNamed) := by
      rw [← filterMap_tableEntry dir]
      exact (List.perm_insertionSort _ _).trans (listed.filterMap _)
    constructor
    · intro same id member
      have inside : id ∈ discoverSSTIDs entries := by rw [same]; simpa using member
      exact (List.mem_filter.mp (found.mem_iff.mp inside)).2
    · intro small
      have all : ids.toList.filter sstNamed = ids.toList :=
        List.filter_eq_self.mpr fun id member => small id (by simpa using member)
      rw [all] at found
      -- two ascending lists of the same ids
      exact List.Perm.eq_of_pairwise (fun a b _ _ => le_antisymm)
        (List.pairwise_insertionSort (· ≤ ·) _) (ids.pairwise_sort (· ≤ ·))
        (found.trans (ids.sort_perm_toList (· ≤ ·)).symm)

/-- The first id with nine digits: its path is refused and its file is not found. -/
theorem not_inverse_nine_digits :
    sstFilePath (ascii "db") 100000000 = ascii "db/sst_100000000.sst" ∧
      sstIDFromPath (ascii "db/sst_100000000.sst") =
        .error (.noMatch (ascii "db/sst_100000000.sst")) ∧
      discoverSSTIDs [tableEntry (ascii "db") 100000000] = [] := by
  decide +kernel

end PebbleDB.Db.FileName
