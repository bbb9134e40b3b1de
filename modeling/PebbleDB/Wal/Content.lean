import PebbleDB.Wal.Truncate

/-!
# The content of an undamaged log

As long as no write fails, `wal.log` is a sequence of whole records. `Stores` names
that sequence; appends extend it, truncations at a record boundary drop a front.
-/
namespace PebbleDB.Wal

open Framing

/-- The records a scan of the whole file finds. -/
def records (limits : ReplayLimits) (file : Bytes) : List Record :=
  (scan (readOneRecord limits) (file.length + 1) file).items

/-- The bytes a sequence of records takes. -/
def size (rs : List Record) : Nat := (rs.flatMap Record.encoded).length

/-- The file consists of exactly these records. -/
structure Stores (limits : ReplayLimits) (file : Bytes) (rs : List Record) : Prop where
  bytes : file = rs.flatMap Record.encoded
  encodable : ∀ r ∈ rs, Encodable limits r

@[simp] theorem size_nil : size [] = 0 := rfl

@[simp] theorem size_append (rs ss : List Record) : size (rs ++ ss) = size rs + size ss := by
  simp [size]

@[simp] theorem size_cons (r : Record) (rs : List Record) :
    size (r :: rs) = recordHeaderSize + r.key.length + r.value.length + size rs := by
  rw [size, List.flatMap_cons, List.length_append, r.encoded_length, size]

theorem eq_nil_of_size (rs : List Record) (none_ : size rs = 0) : rs = [] := by
  cases rs with
  | nil => rfl
  | cons r rs =>
    rw [size_cons, recordHeaderSize] at none_
    omega

variable {limits : ReplayLimits} {file : Bytes} {rs : List Record}

theorem Stores.length (stores : Stores limits file rs) : file.length = size rs := by
  rw [stores.bytes, size]

theorem Stores.records (stores : Stores limits file rs) : Wal.records limits file = rs := by
  have scanned := scan_log (readOneRecord limits) Record.encoded (readOneRecord_progress limits)
    rs [] (fun r member => (stores.encodable r member).reads limits r) (file.length + 1)
    (by rw [List.append_nil, ← stores.bytes]; omega)
  rw [List.append_nil, ← stores.bytes] at scanned
  rw [Wal.records, scanned]
  have empty : (scan (readOneRecord limits) (([] : Bytes).length + 1) []).items = [] := by
    rw [scan_error (readOneRecord limits) _ [] .eof rfl]
  rw [empty, List.append_nil]

/-- Without faults nothing is ever stored in part. -/
theorem stored_whole (limits : ReplayLimits) (i : Nat) (batch : List Record) :
    (stored limits .none i batch).2 = [] := by
  induction batch generalizing i with
  | nil => rfl
  | cons rec batch ih =>
    rw [stored]
    cases encodeRecord rec limits with
    | error e => rfl
    | ok buf => exact ih (i + 1)

/-- An append without faults adds whole records: the batch, or a part of it when a record
is refused. -/
theorem Stores.append (stores : Stores limits file rs) (batch : List Record)
    (small : ∀ r ∈ batch, r.key.length < 2 ^ 32 ∧ r.value.length < 2 ^ 32) :
    ∃ added, Stores limits (appendBatch limits file batch .none).1 (rs ++ added) ∧
      ((appendBatch limits file batch .none).2 = none → added = batch) := by
  refine ⟨(stored limits .none 0 batch).1, ⟨?_, ?_⟩, ?_⟩
  · rw [appendBatch_file, stored_whole, List.append_nil, List.flatMap_append, ← stores.bytes]
  · intro r member
    rcases List.mem_append.mp member with old | new
    · exact stores.encodable r old
    · exact stored_encodable limits .none 0 batch small r new
  · intro returned
    rcases (appendBatch_nil_iff limits file ⟨batch, .none⟩).mp returned with empty | through
    · have none_ : batch = [] := empty
      rw [none_]
      rfl
    · exact congrArg Prod.fst (through.stored_all limits ⟨batch, .none⟩)

/-- What an append without faults stores is a front of the batch. -/
theorem size_stored_le (limits : ReplayLimits) (i : Nat) (batch : List Record) :
    size (stored limits .none i batch).1 ≤ size batch := by
  induction batch generalizing i with
  | nil => exact Nat.le_refl _
  | cons rec batch ih =>
    rw [stored]
    cases encodeRecord rec limits with
    | error e => exact Nat.zero_le _
    | ok buf =>
      have later := ih (i + 1)
      simp only [Faults.none, size_cons]
      exact Nat.add_le_add_left later _

theorem appendBatch_length_le (limits : ReplayLimits) (file : Bytes) (batch : List Record) :
    (appendBatch limits file batch .none).1.length ≤ file.length + size batch := by
  rw [appendBatch_file, stored_whole, List.append_nil, List.length_append]
  exact Nat.add_le_add_left (size_stored_le limits 0 batch) _

/-- Without faults a batch of records within the limits is stored as a whole. -/
theorem appendBatch_valid (limits : ReplayLimits) (file : Bytes) (batch : List Record)
    (valid : ∀ r ∈ batch,
      limits.validateRecord (r.key.length % 2 ^ 32) (r.value.length % 2 ^ 32) = .ok ()) :
    appendBatch limits file batch .none = (file ++ batch.flatMap Record.encoded, none) := by
  have stores : stored limits .none 0 batch = (batch, []) :=
    appendRecords_ok limits .none 0 file batch
      ((appendRecords_nil_iff limits .none 0 file batch).mpr ⟨valid, fun _ _ => rfl⟩)
  have returned : (appendBatch limits file batch .none).2 = none := by
    refine (appendBatch_nil_iff limits file ⟨batch, .none⟩).mpr ?_
    by_cases empty : batch = []
    · exact .inl empty
    · exact .inr ⟨empty, valid, fun _ _ => rfl, rfl⟩
  refine Prod.ext ?_ returned
  rw [appendBatch_file, stores, List.append_nil]

/-- `AppendBatch` refuses the record. -/
def Refused (limits : ReplayLimits) (rec : Record) : Prop := ∃ e, encodeRecord rec limits = .error e

/-- Without faults a batch fails exactly if one of its records is refused. -/
theorem appendRecords_refused_iff (limits : ReplayLimits) (i : Nat) (file : Bytes)
    (batch : List Record) :
    (appendRecords limits .none i file batch).2 ≠ none ↔ ∃ rec ∈ batch, Refused limits rec := by
  induction batch generalizing i file with
  | nil => simp [appendRecords]
  | cons rec batch ih =>
    rw [appendRecords, appendRecordLocked]
    cases encoded : encodeRecord rec limits with
    | error e => simp [Refused, encoded]
    | ok buf =>
      show (appendRecords limits .none (i + 1) (file ++ buf) batch).2 ≠ none ↔ _
      rw [ih, List.exists_mem_cons_iff]
      constructor
      · exact .inr
      · rintro (⟨e, refused⟩ | later)
        · rw [encoded] at refused
          cases refused
        · exact later

theorem appendBatch_refused_iff (limits : ReplayLimits) (file : Bytes) (batch : List Record) :
    (appendBatch limits file batch .none).2 ≠ none ↔ ∃ rec ∈ batch, Refused limits rec := by
  rw [appendBatch, ← appendRecords_refused_iff limits 0 file batch]
  by_cases empty : batch = []
  · simp [empty, appendRecords]
  · rw [if_neg empty]
    cases appendRecords limits .none 0 file batch with
    | mk stored err =>
      cases err with
      | none => simp [Faults.none]
      | some e => simp

/-- Dropping the bytes of the first records leaves the others. -/
theorem Stores.drop (front rest : List Record) (stores : Stores limits file (front ++ rest)) :
    Stores limits (file.drop (size front)) rest := by
  refine ⟨?_, fun r member => stores.encodable r (by simp [member])⟩
  rw [stores.bytes, List.flatMap_append, size, List.drop_left]

/-- A replay that starts at a record boundary delivers the records behind it and keeps
the file. -/
theorem Stores.replay {σ : Type} (front rest : List Record)
    (stores : Stores limits file (front ++ rest)) (defaults : limits.withDefaults = limits)
    (fits : file.length ≤ limits.maxFileSize) (f : σ → Record → σ) (init : σ) :
    replayFromWithRecovery limits (size front) (total f) init file =
      ⟨rest.foldl f init, size (front ++ rest), file, none⟩ := by
  have tail := stores.drop front rest
  have inside : size front ≤ file.length := by
    rw [stores.length, size_append]
    omega
  have scanned := scan_log (readOneRecord limits) Record.encoded (readOneRecord_progress limits)
    rest [] (fun r member => (tail.encodable r member).reads limits r) (file.length + 1)
    (by rw [List.append_nil, ← tail.bytes, List.length_drop]; omega)
  have stopped : scan (readOneRecord limits) (([] : Bytes).length + 1) [] =
      ⟨[], 0, some .eof⟩ := scan_error (readOneRecord limits) _ [] .eof rfl
  rw [List.append_nil, ← tail.bytes, stopped] at scanned
  rw [replay_eq_scan limits (size front) f init file (by rw [defaults]; exact fits) inside,
    defaults, scanned, tail.bytes, List.append_nil, Nat.add_zero, settle, size_append, size, size]

end PebbleDB.Wal
