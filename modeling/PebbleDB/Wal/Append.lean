import PebbleDB.Wal.Replay

/-!
# Appending batches when writes fail

`AppendBatch` writes its records one after another and syncs once. A failed or
short write leaves the bytes already stored in the append-only file, and the
group-commit layer retries the batch on the same file. Replay reads frames from
the front, so what matters is where a failed call stopped: between two records it
only leaves extra whole records behind, inside a record everything logged later
sits behind bytes that are no frame.
-/
namespace PebbleDB.Wal

/-- What the operating system answers to one `AppendBatch`: `write i = some n` makes
the `i`-th `Write` fail after storing its first `n` bytes. -/
structure Faults where
  write : Nat → Option Nat
  syncFails : Bool

def Faults.none : Faults := ⟨fun _ => Option.none, false⟩

/-- `os.File.Write` on a file opened for appending. -/
def osWrite (file buf : Bytes) : Option Nat → Bytes × Option Error
  | .none => (file ++ buf, .none)
  | some n => (file ++ buf.take n, some .io)

def appendRecordLocked (limits : ReplayLimits) (file : Bytes) (rec : Record)
    (fault : Option Nat) : Bytes × Option Error :=
  match encodeRecord rec limits with
  | .error e => (file, some e)
  | .ok buf => osWrite file buf fault

/-- The loop of `AppendBatch`; `i` counts the writes so far. -/
def appendRecords (limits : ReplayLimits) (faults : Faults) :
    Nat → Bytes → List Record → Bytes × Option Error
  | _, file, [] => (file, .none)
  | i, file, rec :: records =>
    match appendRecordLocked limits file rec (faults.write i) with
    | (file, some e) => (file, some e)
    | (file, .none) => appendRecords limits faults (i + 1) file records

def appendBatch (limits : ReplayLimits) (file : Bytes) (records : List Record)
    (faults : Faults) : Bytes × Option Error :=
  if records = [] then (file, .none)
  else
    match appendRecords limits faults 0 file records with
    | (file, some e) => (file, some e)
    -- one `Sync` for the whole batch
    | (file, .none) => if faults.syncFails then (file, some .io) else (file, .none)

/-! ### Where a call stops -/

/-- The records whose bytes are stored completely, and the part of the next one. -/
def stored (limits : ReplayLimits) (faults : Faults) :
    Nat → List Record → List Record × Bytes
  | _, [] => ([], [])
  | i, rec :: records =>
    match encodeRecord rec limits with
    | .error _ => ([], [])
    | .ok buf =>
      match faults.write i with
      -- a write can report an error although every byte is there
      | some n => if n < buf.length then ([], buf.take n) else ([rec], [])
      | .none =>
        let later := stored limits faults (i + 1) records
        (rec :: later.1, later.2)

theorem appendRecords_stored (limits : ReplayLimits) (faults : Faults) (i : Nat) (file : Bytes)
    (records : List Record) :
    (appendRecords limits faults i file records).1 =
      file ++ ((stored limits faults i records).1.flatMap Record.encoded ++
        (stored limits faults i records).2) := by
  induction records generalizing i file with
  | nil => simp [appendRecords, stored]
  | cons rec records ih =>
    cases encoding : encodeRecord rec limits with
    | error e => simp [appendRecords, appendRecordLocked, stored, encoding]
    | ok buf =>
      have bytes := encodeRecord_ok rec limits buf encoding
      cases fault : faults.write i with
      | none =>
        simp only [appendRecords, appendRecordLocked, stored, encoding, fault, osWrite, ih]
        simp [bytes]
      | some n =>
        by_cases short : n < buf.length
        · simp [appendRecords, appendRecordLocked, stored, encoding, fault, osWrite, short]
        · have whole : buf.take n = buf := List.take_of_length_le (by omega)
          simp only [appendRecords, appendRecordLocked, stored, encoding, fault, osWrite, short,
            if_false, whole]
          simp [bytes]

/-- A loop that reports no error stored every record of the batch. -/
theorem appendRecords_ok (limits : ReplayLimits) (faults : Faults) (i : Nat) (file : Bytes)
    (records : List Record) (returned : (appendRecords limits faults i file records).2 = .none) :
    stored limits faults i records = (records, []) := by
  induction records generalizing i file with
  | nil => rfl
  | cons rec records ih =>
    cases encoding : encodeRecord rec limits with
    | error e => simp [appendRecords, appendRecordLocked, encoding] at returned
    | ok buf =>
      cases fault : faults.write i with
      | some n => simp [appendRecords, appendRecordLocked, encoding, fault, osWrite] at returned
      | none =>
        simp only [appendRecords, appendRecordLocked, encoding, fault, osWrite] at returned
        simp [stored, encoding, fault, ih (i + 1) (file ++ buf) returned]

/-- Only records that pass the limits are ever stored. -/
theorem stored_encodable (limits : ReplayLimits) (faults : Faults) (i : Nat)
    (records : List Record)
    (fits : ∀ r ∈ records, r.key.length < 2 ^ 32 ∧ r.value.length < 2 ^ 32) :
    ∀ r ∈ (stored limits faults i records).1, Encodable limits r := by
  induction records generalizing i with
  | nil => simp [stored]
  | cons rec records ih =>
    have first := fits rec (by simp)
    have later := ih (i + 1) (fun r member => fits r (by simp [member]))
    cases encoding : encodeRecord rec limits with
    | error e => simp [stored, encoding]
    | ok buf =>
      have valid := Encodable.of_encodeRecord limits rec buf encoding first.1 first.2
      intro r member
      cases fault : faults.write i with
      | none =>
        simp only [stored, encoding, fault, List.mem_cons] at member
        rcases member with rfl | member
        · exact valid
        · exact later r member
      | some n =>
        by_cases short : n < buf.length
        · simp [stored, encoding, fault, short] at member
        · simp only [stored, encoding, fault, short, if_false, List.mem_singleton] at member
          exact member ▸ valid

/-! ### Sequences of calls -/

structure Call where
  records : List Record
  faults : Faults

/-- The call left a non-empty part of a record at the end of the file. -/
def Call.stopsInside (limits : ReplayLimits) (call : Call) : Prop :=
  (stored limits call.faults 0 call.records).2 ≠ []

/-- A batch whose records all pass the limits, with no failing write and no failing
sync. -/
structure Call.GoesThrough (limits : ReplayLimits) (call : Call) : Prop where
  nonempty : call.records ≠ []
  valid : ∀ r ∈ call.records,
    limits.validateRecord (r.key.length % 2 ^ 32) (r.value.length % 2 ^ 32) = .ok ()
  writes : ∀ i < call.records.length, call.faults.write i = .none
  sync : call.faults.syncFails = false

instance (limits : ReplayLimits) (call : Call) : Decidable (call.stopsInside limits) :=
  inferInstanceAs (Decidable (_ ≠ _))

instance (limits : ReplayLimits) (call : Call) : Decidable (call.GoesThrough limits) :=
  decidable_of_iff
    (call.records ≠ [] ∧
      (∀ r ∈ call.records,
        limits.validateRecord (r.key.length % 2 ^ 32) (r.value.length % 2 ^ 32) = .ok ()) ∧
      (∀ i < call.records.length, call.faults.write i = .none) ∧ call.faults.syncFails = false)
    ⟨fun ⟨nonempty, valid, writes, sync⟩ => ⟨nonempty, valid, writes, sync⟩,
      fun ⟨nonempty, valid, writes, sync⟩ => ⟨nonempty, valid, writes, sync⟩⟩

/-- A WAL file and the records whose batch has been acknowledged. -/
structure LogState where
  file : Bytes
  acked : List Record
  deriving DecidableEq, Repr

def LogState.append (limits : ReplayLimits) (s : LogState) (call : Call) : LogState :=
  let result := appendBatch limits s.file call.records call.faults
  ⟨result.1, if result.2 = .none then s.acked ++ call.records else s.acked⟩

/-- A run of calls on a WAL that holds the records `pre`. -/
def runCalls (limits : ReplayLimits) (pre : List Record) (calls : List Call) : LogState :=
  calls.foldl (LogState.append limits) ⟨pre.flatMap Record.encoded, []⟩

theorem appendRecords_nil_iff (limits : ReplayLimits) (faults : Faults) (i : Nat) (file : Bytes)
    (records : List Record) :
    (appendRecords limits faults i file records).2 = .none ↔
      (∀ r ∈ records,
        limits.validateRecord (r.key.length % 2 ^ 32) (r.value.length % 2 ^ 32) = .ok ()) ∧
      ∀ j < records.length, faults.write (i + j) = .none := by
  induction records generalizing i file with
  | nil => simp [appendRecords]
  | cons rec records ih =>
    have shift : (∀ j < records.length + 1, faults.write (i + j) = .none) ↔
        faults.write i = .none ∧ ∀ j < records.length, faults.write (i + 1 + j) = .none := by
      constructor
      · intro all
        refine ⟨all 0 (by omega), fun j below => ?_⟩
        rw [Nat.add_assoc, Nat.add_comm 1 j]
        exact all (j + 1) (by omega)
      · rintro ⟨first, later⟩ j below
        cases j with
        | zero => exact first
        | succ j =>
          rw [← Nat.add_assoc, Nat.add_right_comm]
          exact later j (by omega)
    rw [List.forall_mem_cons, List.length_cons, shift]
    cases valid : limits.validateRecord (rec.key.length % 2 ^ 32) (rec.value.length % 2 ^ 32) with
    | error e =>
      have encoding : encodeRecord rec limits = .error e := by
        rw [encodeRecord, valid]
        rfl
      simp [appendRecords, appendRecordLocked, encoding]
    | ok u =>
      have encoding : encodeRecord rec limits = .ok rec.encoded := by
        rw [encodeRecord, valid]
        rfl
      cases fault : faults.write i with
      | some n => simp [appendRecords, appendRecordLocked, encoding, fault, osWrite]
      | none =>
        simp only [appendRecords, appendRecordLocked, encoding, fault, osWrite, true_and]
        exact ih (i + 1) _

/-- The file after a call: what was stored is appended, whether or not the call fails. -/
theorem appendBatch_file (limits : ReplayLimits) (file : Bytes) (records : List Record)
    (faults : Faults) :
    (appendBatch limits file records faults).1 =
      file ++ ((stored limits faults 0 records).1.flatMap Record.encoded ++
        (stored limits faults 0 records).2) := by
  rw [← appendRecords_stored]
  unfold appendBatch
  by_cases empty : records = []
  · subst empty
    simp [appendRecords]
  · rw [if_neg empty]
    cases h : appendRecords limits faults 0 file records with
    | mk after err =>
      cases err with
      | some e => rfl
      | none => dsimp only; split <;> rfl

/-- A call returns nil when it has nothing to write or when it goes through. -/
theorem appendBatch_nil_iff (limits : ReplayLimits) (file : Bytes) (call : Call) :
    (appendBatch limits file call.records call.faults).2 = .none ↔
      call.records = [] ∨ call.GoesThrough limits := by
  have loop := appendRecords_nil_iff limits call.faults 0 file call.records
  simp only [Nat.zero_add] at loop
  unfold appendBatch
  by_cases empty : call.records = []
  · simp [empty]
  · rw [if_neg empty]
    cases h : appendRecords limits call.faults 0 file call.records with
    | mk after err =>
      rw [h] at loop
      cases err with
      | some e =>
        simp only [empty, false_or, reduceCtorEq, false_iff] at loop ⊢
        exact fun through => loop ⟨through.valid, through.writes⟩
      | none =>
        obtain ⟨valid, writes⟩ := loop.mp rfl
        cases sync : call.faults.syncFails with
        | true =>
          simp only [empty, false_or, if_true, reduceCtorEq, false_iff]
          exact fun through => by simp [through.sync] at sync
        | false =>
          simp only [Bool.false_eq_true, if_false, true_iff]
          exact .inr ⟨empty, valid, writes, sync⟩

theorem LogState.append_acked (limits : ReplayLimits) (s : LogState) (call : Call) :
    (s.append limits call).acked =
      if call.GoesThrough limits then s.acked ++ call.records else s.acked := by
  simp only [LogState.append, appendBatch_nil_iff]
  by_cases empty : call.records = []
  · simp [empty]
  · simp [empty]

theorem Call.GoesThrough.stored_all (limits : ReplayLimits) (call : Call)
    (through : call.GoesThrough limits) :
    stored limits call.faults 0 call.records = (call.records, []) := by
  apply appendRecords_ok limits call.faults 0 [] call.records
  rw [appendRecords_nil_iff]
  refine ⟨through.valid, fun j below => ?_⟩
  rw [Nat.zero_add]
  exact through.writes j below

/-- The invariant of a run: whole records, among them every acknowledged one in
order, and after them nothing unless some call stopped inside a record. -/
structure Recoverable (limits : ReplayLimits) (torn : Prop) (s : LogState) (rs : List Record)
    (tail : Bytes) : Prop where
  file : s.file = rs.flatMap Record.encoded ++ tail
  encodable : ∀ r ∈ rs, Encodable limits r
  acked : s.acked.Sublist rs
  clean : ¬torn → tail = []

/-- One call keeps the invariant, provided it does not go through behind torn bytes. -/
theorem Recoverable.append (limits : ReplayLimits) (torn : Prop) (s : LogState) (rs : List Record)
    (tail : Bytes) (call : Call) (inv : Recoverable limits torn s rs tail)
    (fits : ∀ r ∈ call.records, r.key.length < 2 ^ 32 ∧ r.value.length < 2 ^ 32)
    (clean : torn → ¬call.GoesThrough limits) :
    ∃ rs' tail', Recoverable limits (torn ∨ call.stopsInside limits) (s.append limits call)
      rs' tail' := by
  have bytes : (s.append limits call).file =
      s.file ++ ((stored limits call.faults 0 call.records).1.flatMap Record.encoded ++
        (stored limits call.faults 0 call.records).2) :=
    appendBatch_file limits s.file call.records call.faults
  have acked := s.append_acked limits call
  by_cases dirty : torn
  · -- the new bytes lie behind the torn ones and nothing is acknowledged
    refine ⟨rs, tail ++ ((stored limits call.faults 0 call.records).1.flatMap Record.encoded ++
      (stored limits call.faults 0 call.records).2), ?_, inv.encodable, ?_, ?_⟩
    · rw [bytes, inv.file, List.append_assoc]
    · rw [acked, if_neg (clean dirty)]
      exact inv.acked
    · intro untouched
      exact absurd (Or.inl dirty) untouched
  · refine ⟨rs ++ (stored limits call.faults 0 call.records).1,
      (stored limits call.faults 0 call.records).2, ?_, ?_, ?_, ?_⟩
    · rw [bytes, inv.file, inv.clean dirty, List.append_nil, List.flatMap_append,
        List.append_assoc]
    · intro r member
      rcases List.mem_append.mp member with old | new
      · exact inv.encodable r old
      · exact stored_encodable limits call.faults 0 call.records fits r new
    · rw [acked]
      split
      next ok =>
        rw [ok.stored_all limits call]
        exact inv.acked.append (List.Sublist.refl _)
      · exact inv.acked.trans (List.sublist_append_left _ _)
    · intro untouched
      by_contra partly
      exact untouched (Or.inr partly)

theorem Recoverable.run (limits : ReplayLimits) (torn : Prop) (s : LogState) (rs : List Record)
    (tail : Bytes) (calls : List Call) (inv : Recoverable limits torn s rs tail)
    (fits : ∀ call ∈ calls, ∀ r ∈ call.records,
      r.key.length < 2 ^ 32 ∧ r.value.length < 2 ^ 32)
    (clean : torn → ∀ call ∈ calls, ¬call.GoesThrough limits)
    (ordered : calls.Pairwise fun earlier later =>
      earlier.stopsInside limits → ¬later.GoesThrough limits) :
    ∃ torn' rs' tail', Recoverable limits torn' (calls.foldl (LogState.append limits) s)
      rs' tail' := by
  induction calls generalizing torn s rs tail with
  | nil => exact ⟨torn, rs, tail, inv⟩
  | cons call calls ih =>
    obtain ⟨first, later⟩ := List.pairwise_cons.mp ordered
    obtain ⟨rs', tail', inv'⟩ := inv.append limits torn s rs tail call (fits call (by simp))
      (fun dirty => clean dirty call (by simp))
    apply ih _ _ _ _ inv' (fun c member => fits c (by simp [member]))
    · rintro (dirty | stopped) c member
      · exact clean dirty c (by simp [member])
      · exact first c member stopped
    · exact later

/-- Everything acknowledged on the file comes back, in order, from a replay. -/
def AckedDelivered (limits : ReplayLimits) (s : LogState) : Prop :=
  s.acked.Sublist (replayFromWithRecovery limits 0 (total collect) [] s.file).state

/-- In a run in which no call goes through once an earlier one has stopped inside a
record, every acknowledged record is delivered by a later replay. -/
theorem ackedDelivered_of_clean_stops (limits : ReplayLimits) (pre : List Record)
    (calls : List Call)
    (existing : ∀ r ∈ pre, Encodable limits.withDefaults r)
    (fits : ∀ call ∈ calls, ∀ r ∈ call.records,
      r.key.length < 2 ^ 32 ∧ r.value.length < 2 ^ 32)
    (ordered : calls.Pairwise fun earlier later =>
      earlier.stopsInside limits.withDefaults → ¬later.GoesThrough limits.withDefaults)
    (size : (runCalls limits.withDefaults pre calls).file.length ≤
      limits.withDefaults.maxFileSize) :
    AckedDelivered limits (runCalls limits.withDefaults pre calls) := by
  have initial : Recoverable limits.withDefaults False ⟨pre.flatMap Record.encoded, []⟩ pre [] :=
    ⟨by simp, existing, by simp, by simp⟩
  obtain ⟨torn, rs, tail, inv⟩ := initial.run limits.withDefaults False _ pre [] calls fits
    (by simp) ordered
  change Recoverable limits.withDefaults torn (runCalls limits.withDefaults pre calls) rs tail
    at inv
  unfold AckedDelivered
  rw [inv.file] at size ⊢
  rw [replay_records limits collect [] rs tail inv.encodable size]
  -- the records of the invariant are delivered before anything found in the tail
  have front (stop : Option Error) (items : List Record) (n : Nat) (data : Bytes) :
      (settle data n (items.foldl collect (rs.foldl collect [])) stop).state = rs ++ items := by
    have all : items.foldl collect (rs.foldl collect []) = rs ++ items := by
      rw [collect_foldl, collect_foldl, List.nil_append]
    rw [all]
    unfold settle
    split <;> rfl
  rw [front]
  exact inv.acked.trans (List.sublist_append_left _ _)

/-- A sync that fails after a complete write, then the retry: both copies are there
and the acknowledged one is delivered. -/
theorem ackedDelivered_failed_sync :
    AckedDelivered ⟨0, 0, 0, 0⟩
      (runCalls (⟨0, 0, 0, 0⟩ : ReplayLimits).withDefaults []
        [⟨[⟨[97], [2], false⟩], ⟨fun _ => none, true⟩⟩, ⟨[⟨[97], [2], false⟩], .none⟩]) :=
  ackedDelivered_of_clean_stops ⟨0, 0, 0, 0⟩ []
    [⟨[⟨[97], [2], false⟩], ⟨fun _ => none, true⟩⟩, ⟨[⟨[97], [2], false⟩], .none⟩]
    (by simp) (by simp) (by decide +kernel) (by decide +kernel)

/-- A write cut after five bytes, then the retry that is acknowledged: replay reads
the torn header together with the retried record and delivers nothing. -/
theorem not_ackedDelivered_torn_retry :
    ¬AckedDelivered ⟨0, 0, 0, 0⟩
      (runCalls (⟨0, 0, 0, 0⟩ : ReplayLimits).withDefaults []
        [⟨[⟨[97], [2], false⟩], ⟨fun _ => some 5, false⟩⟩, ⟨[⟨[97], [2], false⟩], .none⟩]) := by
  unfold AckedDelivered
  decide +kernel

end PebbleDB.Wal
