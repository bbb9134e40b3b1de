import PebbleDB.Wal.Record

/-!
# WAL replay

`ReplayFromWithRecovery` reads records until the file ends. A clean end stops it,
an unexpected end truncates the file to the last valid byte and still succeeds,
and any other error is returned with the file as it was.
-/
namespace PebbleDB.Wal

open Framing

variable {σ : Type}

/-- The outcome of a replay: what the callback made of the delivered records, the
offset after the last valid one, the file afterwards and the returned error. -/
structure Replay (σ : Type) where
  state : σ
  validEnd : Nat
  file : Bytes
  err : Option Error
  deriving DecidableEq, Repr

/-- The loop of `ReplayFromWithRecovery` at file offset `pos`. Every record uses at
least one byte, so one round more than there are bytes is enough. -/
def replayLoop (limits : ReplayLimits) (fn : σ → Record → Except Error σ) (data : Bytes) :
    Nat → σ → Nat → Nat → Replay σ
  | 0, state, _, validEnd => ⟨state, validEnd, data, none⟩
  | fuel + 1, state, pos, validEnd =>
    match readOneRecord limits (data.drop pos) with
    | .error .eof => ⟨state, validEnd, data, none⟩
    -- the one case in which the file is truncated
    | .error .unexpectedEOF => ⟨state, validEnd, data.take validEnd, none⟩
    | .error e => ⟨state, validEnd, data, some e⟩
    | .ok (rec, n) =>
      match fn state rec with
      -- `validEnd` has moved before `fn` is called
      | .error e => ⟨state, pos + n, data, some e⟩
      | .ok next => replayLoop limits fn data fuel next (pos + n) (pos + n)

/-- `ReplayFromWithRecovery` on the bytes of `wal.log`; a missing file replays like
an empty one. -/
def replayFromWithRecovery (limits : ReplayLimits) (startOffset : Nat)
    (fn : σ → Record → Except Error σ) (init : σ) (data : Bytes) : Replay σ :=
  let limits := limits.withDefaults
  if limits.maxFileSize < data.length then ⟨init, 0, data, some .walTooLarge⟩
  else
    let start := min startOffset data.length
    replayLoop limits fn data (data.length + 1) init start start

/-- A callback that never fails, as `Open` passes one. -/
def total (f : σ → Record → σ) : σ → Record → Except Error σ := fun state rec => .ok (f state rec)

/-- The callback that keeps every delivered record. -/
def collect : List Record → Record → List Record := fun delivered rec => delivered ++ [rec]

theorem collect_foldl (rs delivered : List Record) :
    rs.foldl collect delivered = delivered ++ rs := by
  induction rs generalizing delivered with
  | nil => simp
  | cons r rs ih => simp [collect, ih]

/-- How the reason a scan stopped turns into the file and the error returned. -/
def settle (data : Bytes) (validEnd : Nat) (state : σ) : Option Error → Replay σ
  | none => ⟨state, validEnd, data, none⟩
  | some .eof => ⟨state, validEnd, data, none⟩
  | some .unexpectedEOF => ⟨state, validEnd, data.take validEnd, none⟩
  | some e => ⟨state, validEnd, data, some e⟩

theorem replayLoop_eq_scan (limits : ReplayLimits) (f : σ → Record → σ) (data : Bytes)
    (fuel : Nat) (state : σ) (pos : Nat) :
    replayLoop limits (total f) data fuel state pos pos =
      settle data (pos + (scan (readOneRecord limits) fuel (data.drop pos)).consumed)
        ((scan (readOneRecord limits) fuel (data.drop pos)).items.foldl f state)
        (scan (readOneRecord limits) fuel (data.drop pos)).stop := by
  induction fuel generalizing state pos with
  | zero => rfl
  | succ fuel ih =>
    cases h : readOneRecord limits (data.drop pos) with
    | error e => cases e <;> simp [replayLoop, scan, h, settle]
    | ok frame =>
      obtain ⟨rec, n⟩ := frame
      simp only [replayLoop, scan, h, total, List.drop_drop, List.foldl_cons, ← Nat.add_assoc]
      exact ih (f state rec) (pos + n)

/-- A replay is a scan of the file from its start offset. -/
theorem replay_eq_scan (limits : ReplayLimits) (start : Nat) (f : σ → Record → σ) (init : σ)
    (data : Bytes) (fits : data.length ≤ limits.withDefaults.maxFileSize)
    (inside : start ≤ data.length) :
    replayFromWithRecovery limits start (total f) init data =
      settle data
        (start + (scan (readOneRecord limits.withDefaults) (data.length + 1)
          (data.drop start)).consumed)
        ((scan (readOneRecord limits.withDefaults) (data.length + 1)
          (data.drop start)).items.foldl f init)
        (scan (readOneRecord limits.withDefaults) (data.length + 1) (data.drop start)).stop := by
  unfold replayFromWithRecovery
  dsimp only
  rw [if_neg (by omega), Nat.min_eq_left inside]
  exact replayLoop_eq_scan limits.withDefaults f data (data.length + 1) init start

/-- No record is too large for the file: that error comes from the size of the file only. -/
theorem readOneRecord_ne_walTooLarge (limits : ReplayLimits) (input : Bytes) :
    readOneRecord limits input ≠ .error .walTooLarge := by
  intro failed
  rcases readOneRecord_cases limits input with
    ⟨-, clean⟩ | ⟨-, torn⟩ | ⟨e, limit, refused⟩ | ⟨key, value, crc, rest, tomb, framed⟩
  · rw [clean] at failed
    cases failed
  · rw [torn] at failed
    cases failed
  · rw [refused] at failed
    cases failed
    rcases limit with h | h | h <;> cases h
  · rw [framed.read] at failed
    split at failed <;> cases failed

private theorem replayLoop_bounds (limits : ReplayLimits) (f : σ → Record → σ) (data : Bytes)
    (fuel : Nat) (state : σ) (pos validEnd : Nat) :
    (replayLoop limits (total f) data fuel state pos validEnd).file.length ≤ data.length ∧
      (replayLoop limits (total f) data fuel state pos validEnd).err ≠ some .walTooLarge := by
  induction fuel generalizing state pos validEnd with
  | zero => exact ⟨Nat.le_refl _, nofun⟩
  | succ fuel ih =>
    rw [replayLoop]
    cases read : readOneRecord limits (data.drop pos) with
    | error e =>
      cases e with
      | walTooLarge => exact absurd read (readOneRecord_ne_walTooLarge limits _)
      | unexpectedEOF => exact ⟨List.length_take_le' _ _, nofun⟩
      | eof | keyTooLarge | valueTooLarge | recordTooLarge | io =>
        exact ⟨Nat.le_refl _, nofun⟩
    | ok frame => exact ih (f state frame.1) (pos + frame.2) (pos + frame.2)

/-- A replay never lengthens the file. -/
theorem replay_length_le (limits : ReplayLimits) (start : Nat) (f : σ → Record → σ) (init : σ)
    (data : Bytes) :
    (replayFromWithRecovery limits start (total f) init data).file.length ≤ data.length := by
  unfold replayFromWithRecovery
  dsimp only
  split
  · exact Nat.le_refl _
  · exact (replayLoop_bounds _ f data _ init _ _).1

/-- A replay without an error has passed the size check. -/
theorem replay_fits (limits : ReplayLimits) (start : Nat) (f : σ → Record → σ) (init : σ)
    (data : Bytes) (noError : (replayFromWithRecovery limits start (total f) init data).err = none) :
    data.length ≤ limits.withDefaults.maxFileSize := by
  by_contra tooLarge
  rw [replayFromWithRecovery, if_pos (by omega)] at noError
  cases noError

/-- The size check is the only source of its error. -/
theorem replay_walTooLarge_iff (limits : ReplayLimits) (start : Nat) (f : σ → Record → σ)
    (init : σ) (data : Bytes) :
    (replayFromWithRecovery limits start (total f) init data).err = some .walTooLarge ↔
      limits.withDefaults.maxFileSize < data.length := by
  unfold replayFromWithRecovery
  dsimp only
  split
  next large => exact ⟨fun _ => large, fun _ => rfl⟩
  next fits =>
    exact ⟨fun failed => absurd failed (replayLoop_bounds _ f data _ init _ _).2,
      fun large => absurd large fits⟩

/-- Replay of whole records followed by anything: the records are delivered first. -/
theorem replay_records (limits : ReplayLimits) (f : σ → Record → σ) (init : σ)
    (rs : List Record) (rest : Bytes)
    (encodable : ∀ r ∈ rs, Encodable limits.withDefaults r)
    (fits : (rs.flatMap Record.encoded ++ rest).length ≤ limits.withDefaults.maxFileSize) :
    replayFromWithRecovery limits 0 (total f) init (rs.flatMap Record.encoded ++ rest) =
      settle (rs.flatMap Record.encoded ++ rest)
        ((rs.flatMap Record.encoded).length +
          (scan (readOneRecord limits.withDefaults) (rest.length + 1) rest).consumed)
        ((scan (readOneRecord limits.withDefaults) (rest.length + 1) rest).items.foldl f
          (rs.foldl f init))
        (scan (readOneRecord limits.withDefaults) (rest.length + 1) rest).stop := by
  rw [replay_eq_scan limits 0 f init _ fits (Nat.zero_le _), List.drop_zero,
    scan_log (readOneRecord limits.withDefaults) Record.encoded
      (readOneRecord_progress limits.withDefaults) rs rest
      (fun r member => (encodable r member).reads) _ (Nat.lt_succ_self _)]
  simp only [Nat.zero_add, List.foldl_append]

/-- Replay stops at the first bytes that are not a valid record. -/
theorem replay_stop (limits : ReplayLimits) (f : σ → Record → σ) (init : σ)
    (rs : List Record) (rest : Bytes) (e : Error)
    (encodable : ∀ r ∈ rs, Encodable limits.withDefaults r)
    (fits : (rs.flatMap Record.encoded ++ rest).length ≤ limits.withDefaults.maxFileSize)
    (stopped : readOneRecord limits.withDefaults rest = .error e) :
    replayFromWithRecovery limits 0 (total f) init (rs.flatMap Record.encoded ++ rest) =
      settle (rs.flatMap Record.encoded ++ rest) (rs.flatMap Record.encoded).length
        (rs.foldl f init) (some e) := by
  rw [replay_records limits f init rs rest encodable fits, scan_error _ _ _ e stopped]
  rfl

/-! ### Corruption in the middle of the file -/

/-- What the salvage policy promises for a file of valid records `rs` followed by
`rest`: damage in front of further records is reported with the file untouched,
and a truncation only ever removes a torn record at the end of the file. -/
structure ReportsCorruption (limits : ReplayLimits) (f : σ → Record → σ) (init : σ)
    (rs : List Record) (rest : Bytes) : Prop where
  damage : ∀ frame later, rest = frame ++ later.flatMap Record.encoded → later ≠ [] →
    (∀ r ∈ later, Encodable limits.withDefaults r) → BadChecksum limits.withDefaults frame →
    let result := replayFromWithRecovery limits 0 (total f) init (rs.flatMap Record.encoded ++ rest)
    result.err ≠ none ∧ result.file = rs.flatMap Record.encoded ++ rest
  truncation :
    (replayFromWithRecovery limits 0 (total f) init (rs.flatMap Record.encoded ++ rest)).file ≠
      rs.flatMap Record.encoded ++ rest → Incomplete rest

theorem replay_too_large (limits : ReplayLimits) (start : Nat) (f : σ → Record → σ) (init : σ)
    (data : Bytes) (large : limits.withDefaults.maxFileSize < data.length) :
    replayFromWithRecovery limits start (total f) init data =
      ⟨init, 0, data, some .walTooLarge⟩ := by
  unfold replayFromWithRecovery
  dsimp only
  rw [if_pos large]

/-- A wrong checksum after the valid records truncates the file there and succeeds. -/
theorem replay_badChecksum (limits : ReplayLimits) (f : σ → Record → σ) (init : σ)
    (rs : List Record) (frame tail : Bytes)
    (encodable : ∀ r ∈ rs, Encodable limits.withDefaults r)
    (fits : (rs.flatMap Record.encoded ++ (frame ++ tail)).length ≤
      limits.withDefaults.maxFileSize)
    (bad : BadChecksum limits.withDefaults frame) :
    replayFromWithRecovery limits 0 (total f) init (rs.flatMap Record.encoded ++ (frame ++ tail)) =
      ⟨rs.foldl f init, (rs.flatMap Record.encoded).length, rs.flatMap Record.encoded, none⟩ := by
  rw [replay_stop limits f init rs _ .unexpectedEOF encodable fits
    (readOneRecord_badChecksum limits.withDefaults frame tail bad)]
  simp [settle]

theorem BadChecksum.ne_nil (limits : ReplayLimits) (frame : Bytes)
    (bad : BadChecksum limits frame) : frame ≠ [] := by
  obtain ⟨key, value, crc, tomb, framed, -⟩ := bad
  intro empty
  have len := congrArg List.length framed.bytes
  simp [empty, recordBody_length] at len
  omega

/-- The salvage promise is kept exactly when no complete record with a wrong
checksum follows the valid ones, or the file is refused for its size. -/
theorem reportsCorruption_iff (limits : ReplayLimits) (f : σ → Record → σ) (init : σ)
    (rs : List Record) (rest : Bytes)
    (encodable : ∀ r ∈ rs, Encodable limits.withDefaults r)
    (noRecord : ∀ frame, readOneRecord limits.withDefaults rest ≠ .ok frame) :
    ReportsCorruption limits f init rs rest ↔
      ∀ frame tail, rest = frame ++ tail → BadChecksum limits.withDefaults frame →
        limits.withDefaults.maxFileSize < (rs.flatMap Record.encoded ++ rest).length := by
  constructor
  · rintro promise frame tail rfl bad
    by_contra fits
    have salvaged := replay_badChecksum limits f init rs frame tail encodable (by omega) bad
    have nonempty := bad.ne_nil
    have changed : rs.flatMap Record.encoded ≠ rs.flatMap Record.encoded ++ (frame ++ tail) := by
      intro same
      have empty := List.self_eq_append_right.mp same
      exact nonempty (List.append_eq_nil_iff.mp empty).1
    have torn := promise.truncation (by rw [salvaged]; exact changed)
    exact bad.not_incomplete limits.withDefaults frame tail torn
  · intro refused
    constructor
    · rintro frame later split _ _ bad
      have large := refused frame _ split bad
      dsimp only
      rw [replay_too_large limits 0 f init _ large]
      exact ⟨by simp, rfl⟩
    · intro changed
      by_cases large : limits.withDefaults.maxFileSize < (rs.flatMap Record.encoded ++ rest).length
      · rw [replay_too_large limits 0 f init _ large] at changed
        exact absurd rfl changed
      cases stopped : readOneRecord limits.withDefaults rest with
      | ok frame => exact absurd stopped (noRecord frame)
      | error e =>
        rw [replay_stop limits f init rs rest e encodable (by omega) stopped] at changed
        -- only an unexpected end touches the file
        cases e with
        | unexpectedEOF =>
          rcases readOneRecord_unexpectedEOF limits.withDefaults rest stopped with
            torn | ⟨frame, tail, split, bad⟩
          · exact torn
          · exact absurd (refused frame tail split bad) large
        | _ => exact absurd rfl changed

/-- The record `b ↦ 2` with its value byte changed to 3 on disk. -/
def flippedFrame : Bytes :=
  recordBody [98] [3] 0 ++ putUint32 (checksumIEEE (recordBody [98] [2] 0))

theorem flippedFrame_bad (limits : ReplayLimits) (small : limits.validateRecord 1 1 = .ok ()) :
    BadChecksum limits flippedFrame :=
  ⟨[98], [3], putUint32 (checksumIEEE (recordBody [98] [2] 0)), 0,
    ⟨by simp [flippedFrame], rfl, by decide, by decide, small⟩, by decide +kernel⟩

theorem reportsCorruption_flipped_iff :
    ReportsCorruption ⟨0, 0, 0, 0⟩ collect [] [⟨[97], [1], false⟩] flippedFrame ↔
      ∀ frame tail, flippedFrame = frame ++ tail →
        BadChecksum (⟨0, 0, 0, 0⟩ : ReplayLimits).withDefaults frame →
        (⟨0, 0, 0, 0⟩ : ReplayLimits).withDefaults.maxFileSize <
          ([(⟨[97], [1], false⟩ : Record)].flatMap Record.encoded ++ flippedFrame).length :=
  reportsCorruption_iff ⟨0, 0, 0, 0⟩ collect [] [⟨[97], [1], false⟩] flippedFrame
    (by
      intro r member
      rw [List.mem_singleton] at member
      subst member
      exact ⟨by decide, by decide, by decide⟩)
    (by
      intro frame read
      have bad := readOneRecord_badChecksum (⟨0, 0, 0, 0⟩ : ReplayLimits).withDefaults flippedFrame
        [] (flippedFrame_bad _ (by decide))
      rw [List.append_nil] at bad
      rw [bad] at read
      cases read)

/-- A flipped bit in the second of three records: replay succeeds with one record
and the file is cut there. -/
theorem not_reportsCorruption_flipped :
    ¬ReportsCorruption ⟨0, 0, 0, 0⟩ collect [] [⟨[97], [1], false⟩]
      (flippedFrame ++ [(⟨[99], [4], false⟩ : Record)].flatMap Record.encoded) := by
  intro promise
  have small : ReplayLimits.validateRecord (⟨0, 0, 0, 0⟩ : ReplayLimits).withDefaults 1 1 =
      .ok () := by decide
  have reported := promise.damage flippedFrame [⟨[99], [4], false⟩] rfl (by decide)
    (by
      intro r member
      rw [List.mem_singleton] at member
      subst member
      exact ⟨by decide, by decide, small⟩)
    (flippedFrame_bad _ small)
  exact reported.1 (by decide +kernel)

end PebbleDB.Wal
