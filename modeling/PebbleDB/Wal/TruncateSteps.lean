import PebbleDB.Lib.Crash
import PebbleDB.Wal.Content
import PebbleDB.Wal.Recovery

/-!
# TruncateBefore, file step by file step

`TruncateBefore` makes the old log durable, copies the tail into a temporary file, makes
the copy durable, and only then renames it over `wal.log`; a cut at or behind the end of
the file empties it instead. Every one of these calls can fail. The calls are modelled
with the steps they carry out on the disk, so that a crash can come between any two of
them or inside a write, and can lose whatever was not synced.
-/
namespace PebbleDB.Wal

open Framing Crash

/-! ### The disk and its steps -/

/-- The file `w.file` is open on: none, `wal.log`, or a file that was renamed away. -/
inductive Handle where
  | closed
  | wal
  | replaced
  deriving DecidableEq, Repr

/-- The two files `TruncateBefore` works on, each with the length that is known to be
durable, and the open handle. -/
structure LogDisk where
  wal : Bytes
  walSynced : Nat
  tmp : Option Bytes
  tmpSynced : Nat
  handle : Handle
  deriving DecidableEq, Repr

inductive FileStep where
  | syncWal
  | openTmp
  | writeTmp (chunk : Bytes)
  | syncTmp
  | removeTmp
  | closeWal
  | renameTmp
  | truncateWal
  | openWal
  deriving DecidableEq, Repr

def LogDisk.step (d : LogDisk) : FileStep → LogDisk
  | .syncWal => { d with walSynced := d.wal.length }
  | .openTmp => { d with tmp := some [], tmpSynced := 0 }
  | .writeTmp chunk => { d with tmp := d.tmp.map (· ++ chunk) }
  | .syncTmp => { d with tmpSynced := (d.tmp.getD []).length }
  | .removeTmp => { d with tmp := none }
  | .closeWal => { d with handle := .closed }
  | .renameTmp =>
    match d.tmp with
    | none => d
    | some t =>
      -- a handle still open on the old file would keep writing to it
      { wal := t, walSynced := d.tmpSynced, tmp := none, tmpSynced := 0,
        handle := if d.handle = .wal then .replaced else d.handle }
  | .truncateWal => { d with wal := [], walSynced := 0 }
  | .openWal => { d with handle := .wal }

/-- A write can be interrupted; a rename and a truncation to zero happen or do not. -/
def LogDisk.cut (d : LogDisk) : FileStep → Nat → LogDisk
  | .writeTmp chunk, m => d.step (.writeTmp (chunk.take m))
  | _, _ => d

/-- The content of `wal.log` after a crash that keeps its first `kept` bytes at least. What
was synced is kept in any case. -/
def LogDisk.left (d : LogDisk) (kept : Nat) : Bytes := d.wal.take (max d.walSynced kept)

/-! ### The calls -/

inductive TruncateFailure where
  | os
  | truncateIncomplete (offset : Nat)
  deriving DecidableEq, Repr

/-- What the operating system answers to the calls of one `TruncateBefore`. The `i`-th
`ReadAt` fails with `none` or returns at most the given number of bytes, with or without
`io.EOF`; the `i`-th write to the temporary file fails after storing some bytes, or
succeeds with `none`. -/
structure TruncateAnswers where
  syncFails : Bool
  statFails : Bool
  openTmpFails : Bool
  readAt : Nat → Option Nat
  writeTmp : Nat → Option Nat
  syncTmpFails : Bool
  removeTmpFails : Bool
  closeFails : Bool
  renameFails : Bool
  truncateFails : Bool
  openFails : Bool
  seekFails : Bool

abbrev FileCall := Performed FileStep TruncateFailure

variable (os : TruncateAnswers)

/-- The loop of `copyWalTailLocked` at offset `off`, before its `i`-th `ReadAt`. -/
def copyTailSteps (data : Bytes) : Nat → Nat → Nat → FileCall
  | 0, _, _ => .done
  | fuel + 1, i, off =>
    if off < data.length then
      let n := min chunkSize (data.length - off)
      match os.readAt i with
      | none => .fail .os
      | some count =>
        let readN := min count n
        -- an empty read is not progress, also at `io.EOF`
        if readN = 0 then .fail (.truncateIncomplete off)
        else
          let chunk := (data.drop off).take readN
          match os.writeTmp i with
          -- a failed write may have stored a part of the chunk
          | some stored => ⟨[.writeTmp (chunk.take stored)], some .os⟩
          | none =>
            (Performed.mk [.writeTmp chunk] none).andThen
              (copyTailSteps data fuel (i + 1) (off + readN))
    else .done

def copyWalTailLockedSteps (data : Bytes) (truncateAt : Nat) : FileCall :=
  (Performed.attempt os.openTmpFails .os .openTmp).andThen <|
    (copyTailSteps os data (data.length - truncateAt) 0 truncateAt).andThen <|
      .attempt os.syncTmpFails .os .syncTmp

/-- `os.Remove(tmpPath)`, whose error is dropped. -/
def removeTmpSteps : FileCall := ⟨if os.removeTmpFails then [] else [.removeTmp], none⟩

/-- `w.file.Close()`: the descriptor is gone also when an error is reported. -/
def closeSteps : FileCall := ⟨[.closeWal], if os.closeFails then some .os else none⟩

def reopenAppendSteps : FileCall :=
  (Performed.attempt os.openFails .os .openWal).andThen (.check os.seekFails .os)

def reopenEmptyLockedSteps : FileCall :=
  (closeSteps os).andThen <|
    (Performed.attempt os.truncateFails .os .truncateWal).andThen <|
      .attempt os.openFails .os .openWal

/-- `TruncateBefore` once the cut is known to lie inside the log: the copy, the close and
the rename, each with what its error path undoes. -/
def replaceLogSteps (data : Bytes) (truncateAt : Nat) : FileCall :=
  ((copyWalTailLockedSteps os data truncateAt).orElse (removeTmpSteps os)).andThen <|
    ((closeSteps os).orElse ((removeTmpSteps os).andThen (reopenAppendSteps os))).andThen <|
      ((Performed.attempt os.renameFails .os .renameTmp).orElse
        ((removeTmpSteps os).andThen (reopenAppendSteps os))).andThen
        (reopenAppendSteps os)

/-- `TruncateBefore` behind its `Sync`. -/
def truncateSyncedSteps (data : Bytes) (truncateAt : Int) : FileCall :=
  (Performed.check os.statFails .os).andThen <|
    -- nothing is left of the log: no copy is made
    if data.length ≤ truncateAt then reopenEmptyLockedSteps os
    else replaceLogSteps os data truncateAt.toNat

/-- `TruncateBefore` on a log with the bytes `data`. -/
def truncateBeforeSteps (data : Bytes) (truncateAt : Int) : FileCall :=
  if truncateAt ≤ 0 then .done
  else
    (Performed.attempt os.syncFails .os .syncWal).andThen (truncateSyncedSteps os data truncateAt)

/-! ### Steps that leave the log alone -/

/-- The log holds `x` and nothing of it can be lost. -/
structure LogDisk.Whole (d : LogDisk) (x : Bytes) : Prop where
  content : d.wal = x
  durable : x.length ≤ d.walSynced

theorem LogDisk.Whole.left {d : LogDisk} {x : Bytes} (whole : d.Whole x) (kept : Nat) :
    d.left kept = x := by
  rw [LogDisk.left, whole.content]
  exact List.take_of_length_le (Nat.le_trans whole.durable (Nat.le_max_left _ _))

def FileStep.Quiet : FileStep → Prop
  | .renameTmp | .truncateWal => False
  | _ => True

theorem LogDisk.Whole.quiet {d : LogDisk} {x : Bytes} (whole : d.Whole x) (s : FileStep)
    (quiet : s.Quiet) : (d.step s).Whole x := by
  cases s with
  | renameTmp | truncateWal => exact quiet.elim
  | syncWal => exact ⟨whole.content, Nat.le_of_eq (congrArg List.length whole.content).symm⟩
  | openTmp | writeTmp _ | syncTmp | removeTmp | closeWal | openWal =>
    exact ⟨whole.content, whole.durable⟩

theorem LogDisk.Whole.cut {d : LogDisk} {x : Bytes} (whole : d.Whole x) (s : FileStep) (m : Nat) :
    (d.cut s m).Whole x := by
  cases s with
  | writeTmp chunk => exact whole.quiet (.writeTmp (chunk.take m)) trivial
  | syncWal | openTmp | syncTmp | removeTmp | closeWal | renameTmp | truncateWal | openWal =>
    exact whole

/-- Whatever the crash loses, the log is completely the old one or completely the new. -/
def LogDisk.Atomic (old new : Bytes) (d : LogDisk) : Prop := d.Whole old ∨ d.Whole new

variable {os} {old new t : Bytes}

theorem LogDisk.Atomic.quiet {d : LogDisk} (atomic : d.Atomic old new) (s : FileStep)
    (quiet : s.Quiet) : (d.step s).Atomic old new :=
  atomic.imp (fun whole => whole.quiet s quiet) (fun whole => whole.quiet s quiet)

theorem LogDisk.Atomic.cut {d : LogDisk} (atomic : d.Atomic old new) (s : FileStep) (m : Nat) :
    (d.cut s m).Atomic old new :=
  atomic.imp (fun whole => whole.cut s m) (fun whole => whole.cut s m)

/-- What a call of this module does when it starts with `pre`: `wal.log` is never anything
but the old or the new content, and a return without an error leaves `post`. -/
abbrev Keeps (old new : Bytes) (pre : LogDisk → Prop) (call : FileCall) (post : LogDisk → Prop) :
    Prop :=
  Triple LogDisk.step LogDisk.cut (LogDisk.Atomic old new) pre call post

section Rules

variable {pre post : LogDisk → Prop}

theorem keeps_quiet (s : FileStep) (quiet : s.Quiet) (err : Option TruncateFailure)
    (start : ∀ d, pre d → d.Atomic old new) (after : ∀ d, pre d → err = none → post (d.step s)) :
    Keeps old new pre ⟨[s], err⟩ post :=
  Triple.single err (fun d holds m => (start d holds).cut s m)
    (fun d holds => (start d holds).quiet s quiet) after

theorem keeps_attempt_quiet (s : FileStep) (quiet : s.Quiet) (fails : Bool) (e : TruncateFailure)
    (start : ∀ d, pre d → d.Atomic old new) (after : ∀ d, pre d → post (d.step s)) :
    Keeps old new pre (.attempt fails e s) post :=
  Triple.attempt fails e start (fun d holds m => (start d holds).cut s m)
    (fun d holds => (start d holds).quiet s quiet) after

theorem keeps_removeTmp : Keeps old new (LogDisk.Atomic old new) (removeTmpSteps os)
    (LogDisk.Atomic old new) := by
  rw [removeTmpSteps]
  split
  · exact Triple.done (fun _ holds => holds) (fun _ holds => holds)
  · exact keeps_quiet .removeTmp trivial none (fun _ holds => holds)
      (fun _ holds _ => holds.quiet .removeTmp trivial)

/-- Reopening leaves the log as it is and the handle on it. -/
theorem keeps_reopenAppend (start : ∀ d, pre d → d.Atomic old new)
    (after : ∀ d, pre d → post (d.step .openWal)) :
    Keeps old new pre (reopenAppendSteps os) post := by
  apply Triple.andThen (fun d => d.Atomic old new ∧ post d)
  · exact keeps_attempt_quiet .openWal trivial _ _ start
      (fun d holds => ⟨(start d holds).quiet .openWal trivial, after d holds⟩)
  · exact (Triple.check _ _ (fun _ holds => holds.1)).post_imp (fun _ holds => holds.2)

/-- What both error paths after the copy do. -/
theorem keeps_cleanup : Keeps old new (LogDisk.Atomic old new)
    ((removeTmpSteps os).andThen (reopenAppendSteps os)) fun _ => True :=
  keeps_removeTmp.andThen _ (keeps_reopenAppend (fun _ holds => holds) (fun _ _ => trivial))

end Rules

/-! ### The copy -/

/-- The old log is untouched and the temporary file holds `t`. -/
structure LogDisk.Copying (old t : Bytes) (d : LogDisk) : Prop where
  whole : d.Whole old
  tmp : d.tmp = some t

/-- And the temporary file is durable. -/
structure LogDisk.Copied (old t : Bytes) (d : LogDisk) : Prop where
  whole : d.Whole old
  tmp : d.tmp = some t
  durable : t.length ≤ d.tmpSynced

theorem LogDisk.Copying.write {d : LogDisk} (copying : d.Copying old t) (chunk : Bytes) :
    (d.step (.writeTmp chunk)).Copying old (t ++ chunk) :=
  ⟨copying.whole.quiet (.writeTmp chunk) trivial, by
    show d.tmp.map (· ++ chunk) = some (t ++ chunk)
    rw [copying.tmp]
    rfl⟩

/-- The loop copies the rest of the log whatever the sizes of the chunks, or fails. -/
theorem keeps_copyTail (fuel i off : Nat) (t : Bytes) (enough : old.length - off ≤ fuel) :
    Keeps old new (LogDisk.Copying old t) (copyTailSteps os old fuel i off)
      (LogDisk.Copying old (t ++ old.drop off)) := by
  have start : ∀ d : LogDisk, d.Copying old t → d.Atomic old new := fun _ copying =>
    .inl copying.whole
  -- at the end of the log the copy is complete
  have finished (behind : old.length ≤ off) : Keeps old new (LogDisk.Copying old t) .done
      (LogDisk.Copying old (t ++ old.drop off)) := by
    rw [List.drop_eq_nil_of_le behind, List.append_nil]
    exact Triple.done start fun _ copying => copying
  induction fuel generalizing i off t with
  | zero => exact finished (by omega)
  | succ fuel ih =>
    rw [copyTailSteps]
    split
    next more =>
      cases os.readAt i with
      | none => exact Triple.fail _ start
      | some count =>
        dsimp only
        split
        · exact Triple.fail _ start
        next read =>
          generalize amount : min count (min chunkSize (old.length - off)) = readN at read
          cases os.writeTmp i with
          -- the temporary file is damaged, but the log is not
          | some stored =>
            exact keeps_quiet (.writeTmp _) trivial _ start fun _ _ failed => nomatch failed
          | none =>
            -- the chunk is appended, and the rest of the log starts behind it
            have rest : t ++ old.drop off =
                t ++ (old.drop off).take readN ++ old.drop (off + readN) := by
              rw [List.append_assoc, ← List.drop_drop, List.take_append_drop]
            have later : ∀ d : LogDisk, d.Copying old (t ++ (old.drop off).take readN) →
                d.Atomic old new := fun _ copying => .inl copying.whole
            rw [rest]
            apply Triple.andThen (LogDisk.Copying old (t ++ (old.drop off).take readN))
            · exact keeps_quiet (.writeTmp _) trivial none start fun _ copying _ => copying.write _
            · refine ih (i + 1) (off + readN) _ (by omega) later fun behind => ?_
              rw [List.drop_eq_nil_of_le behind, List.append_nil]
              exact Triple.done later fun _ copying => copying
    next done => exact finished (by omega)

theorem keeps_copyWalTail (truncateAt : Nat) :
    Keeps old new (fun d => d.Whole old) (copyWalTailLockedSteps os old truncateAt)
      (LogDisk.Copied old (old.drop truncateAt)) := by
  apply Triple.andThen (LogDisk.Copying old [])
  · exact keeps_attempt_quiet .openTmp trivial _ _ (fun _ whole => .inl whole)
      fun _ whole => ⟨whole.quiet .openTmp trivial, rfl⟩
  apply Triple.andThen _ (keeps_copyTail _ 0 truncateAt [] (Nat.le_refl _))
  -- only with the `Sync` does the copy survive the rename and a crash behind it
  refine keeps_attempt_quiet .syncTmp trivial _ _ (fun _ copying => .inl copying.whole) ?_
  intro d copying
  refine ⟨copying.whole.quiet .syncTmp trivial, copying.tmp, Nat.le_of_eq ?_⟩
  show _ = (d.tmp.getD []).length
  rw [copying.tmp]
  rfl

/-! ### The whole call -/

theorem LogDisk.Copied.rename {d : LogDisk} (copied : d.Copied old t) :
    (d.step .renameTmp).Whole t := by
  rw [LogDisk.step, copied.tmp]
  exact ⟨rfl, copied.durable⟩

/-- The log holds `x` durably and the next append goes to it. -/
def LogDisk.Serves (x : Bytes) (d : LogDisk) : Prop := d.Whole x ∧ d.handle = .wal

theorem keeps_replaceLog (truncateAt : Nat) (tail : new = old.drop truncateAt) :
    Keeps old new (fun d => d.Whole old) (replaceLogSteps os old truncateAt)
      (LogDisk.Serves new) := by
  subst tail
  have start : ∀ d : LogDisk, d.Copied old (old.drop truncateAt) →
      d.Atomic old (old.drop truncateAt) := fun _ copied => .inl copied.whole
  apply Triple.andThen _ ((keeps_copyWalTail truncateAt).orElse
    (keeps_removeTmp.post_imp fun _ _ => trivial))
  apply Triple.andThen (LogDisk.Copied old (old.drop truncateAt))
  · refine Triple.orElse (keeps_quiet .closeWal trivial _ start ?_) keeps_cleanup
    exact fun _ copied _ => ⟨copied.whole.quiet .closeWal trivial, copied.tmp, copied.durable⟩
  apply Triple.andThen (fun d => d.Whole (old.drop truncateAt))
  · -- the only step that changes the log: by now the new content is complete and durable
    refine Triple.orElse ?_ keeps_cleanup
    exact Triple.attempt _ _ start (fun d copied m => (start d copied).cut .renameTmp m)
      (fun _ copied => .inr copied.rename) (fun _ copied => copied.rename)
  · exact keeps_reopenAppend (fun _ whole => .inr whole)
      fun _ whole => ⟨whole.quiet .openWal trivial, rfl⟩

theorem keeps_reopenEmpty :
    Keeps old [] (fun d => d.Whole old) (reopenEmptyLockedSteps os) (LogDisk.Serves []) := by
  have emptied : ∀ d : LogDisk, (d.step .truncateWal).Whole [] := fun _ => ⟨rfl, Nat.le_refl 0⟩
  apply Triple.andThen (fun d => d.Whole old)
  · exact keeps_quiet .closeWal trivial _ (fun _ whole => .inl whole)
      fun _ whole _ => whole.quiet .closeWal trivial
  apply Triple.andThen (fun d => d.Whole [])
  · exact Triple.attempt _ _ (fun _ whole => .inl whole)
      (fun _ whole _ => .inl whole) (fun d _ => .inr (emptied d)) (fun d _ => emptied d)
  · exact keeps_attempt_quiet .openWal trivial _ _ (fun _ whole => .inr whole)
      fun _ whole => ⟨whole.quiet .openWal trivial, rfl⟩

variable (os)

theorem keeps_truncateSynced (truncateAt : Int) (tail : new = old.drop truncateAt.toNat) :
    Keeps old new (fun d => d.Whole old) (truncateSyncedSteps os old truncateAt)
      (LogDisk.Serves new) := by
  apply Triple.andThen _ (Triple.check _ _ fun _ whole => .inl whole)
  split
  next all =>
    have nothing : new = [] := by rw [tail, List.drop_eq_nil_of_le (by omega)]
    rw [nothing]
    exact keeps_reopenEmpty
  · exact keeps_replaceLog truncateAt.toNat tail

/-- A call has nothing to do, fails before its first step, or first makes the log durable. -/
theorem truncateBeforeSteps_cases (data : Bytes) (truncateAt : Int) :
    (truncateAt ≤ 0 ∧ truncateBeforeSteps os data truncateAt = .done) ∨
    truncateBeforeSteps os data truncateAt = .fail .os ∨
    truncateBeforeSteps os data truncateAt =
      ⟨.syncWal :: (truncateSyncedSteps os data truncateAt).steps,
        (truncateSyncedSteps os data truncateAt).err⟩ := by
  rw [truncateBeforeSteps]
  split
  next nothing => exact .inl ⟨nothing, rfl⟩
  next =>
    cases os.syncFails with
    | true => exact .inr (.inl rfl)
    | false => exact .inr (.inr rfl)

theorem LogDisk.synced (d : LogDisk) : (d.step .syncWal).Whole d.wal := ⟨rfl, Nat.le_refl _⟩

/-- A call on an open log that returns nil leaves exactly the tail, with the log open. -/
theorem truncateBeforeSteps_nil (d : LogDisk) (truncateAt : Int) (opened : d.handle = .wal)
    (returned : (truncateBeforeSteps os d.wal truncateAt).err = none) :
    ((truncateBeforeSteps os d.wal truncateAt).steps.foldl LogDisk.step d).wal =
        d.wal.drop truncateAt.toNat ∧
      ((truncateBeforeSteps os d.wal truncateAt).steps.foldl LogDisk.step d).handle = .wal := by
  rcases truncateBeforeSteps_cases os d.wal truncateAt with
    ⟨nothing, call⟩ | call | call
  · rw [call, Int.toNat_of_nonpos nothing]
    exact ⟨rfl, opened⟩
  · rw [call] at returned
    cases returned
  · rw [call] at returned ⊢
    obtain ⟨whole, open_⟩ := (keeps_truncateSynced os truncateAt rfl _ d.synced).2 returned
    exact ⟨whole.content, open_⟩

/-- Wherever a crash interrupts the call, the log is the old one or the new one. Before the
first `Sync` has returned this needs that the crash itself loses nothing of the old log. -/
theorem truncateBeforeSteps_crash (d : LogDisk) (truncateAt : Int) (k m kept : Nat)
    (point : k ≤ (truncateBeforeSteps os d.wal truncateAt).steps.length)
    (unsynced : k = 0 → d.wal.length ≤ max d.walSynced kept) :
    (crashed LogDisk.step LogDisk.cut d (truncateBeforeSteps os d.wal truncateAt).steps k m).left
        kept = d.wal ∨
      (crashed LogDisk.step LogDisk.cut d (truncateBeforeSteps os d.wal truncateAt).steps k m).left
        kept = d.wal.drop truncateAt.toNat := by
  have atStart (first : k = 0) : d.left kept = d.wal := List.take_of_length_le (unsynced first)
  rcases truncateBeforeSteps_cases os d.wal truncateAt with ⟨-, call⟩ | call | call
  · rw [call] at point ⊢
    exact .inl (atStart (Nat.le_zero.mp point))
  · rw [call] at point ⊢
    exact .inl (atStart (Nat.le_zero.mp point))
  · rw [call]
    cases k with
    | zero => exact .inl (atStart rfl)
    | succ k =>
      -- from the `Sync` on, the whole old log is durable
      have survives := (keeps_truncateSynced os truncateAt rfl _ d.synced).1 k m
      exact survives.imp (fun whole => whole.left kept) (fun whole => whole.left kept)

/-! ### Calls that succeed -/

/-- No call fails, and every `ReadAt` returns at least one byte. -/
structure TruncateAnswers.Succeed (os : TruncateAnswers) : Prop where
  sync : os.syncFails = false
  stat : os.statFails = false
  openTmp : os.openTmpFails = false
  read : ∀ i, ∃ count, os.readAt i = some count ∧ 0 < count
  write : ∀ i, os.writeTmp i = none
  syncTmp : os.syncTmpFails = false
  close : os.closeFails = false
  rename : os.renameFails = false
  truncate : os.truncateFails = false
  reopen : os.openFails = false
  seek : os.seekFails = false

variable {os}

theorem TruncateAnswers.Succeed.copyTail (well : os.Succeed) (data : Bytes) (fuel i off : Nat) :
    (copyTailSteps os data fuel i off).err = none := by
  induction fuel generalizing i off with
  | zero => rfl
  | succ fuel ih =>
    rw [copyTailSteps]
    split
    next more =>
      obtain ⟨count, read, positive⟩ := well.read i
      have chunk : 0 < chunkSize := by decide
      simp only [read, well.write i]
      rw [if_neg (by omega), Performed.andThen_err]
      exact ⟨rfl, ih _ _⟩
    · rfl

@[simp] theorem closeSteps_err : (closeSteps os).err = none ↔ os.closeFails = false := by
  cases fails : os.closeFails <;> simp [closeSteps, fails]

theorem TruncateAnswers.Succeed.reopenAppend (well : os.Succeed) :
    (reopenAppendSteps os).err = none := by
  rw [reopenAppendSteps, Performed.andThen_err, Performed.attempt_err, Performed.check_err]
  exact ⟨well.reopen, well.seek⟩

theorem TruncateAnswers.Succeed.truncateBefore (well : os.Succeed) (data : Bytes)
    (truncateAt : Int) : (truncateBeforeSteps os data truncateAt).err = none := by
  have copied : (copyWalTailLockedSteps os data truncateAt.toNat).err = none := by
    simp [copyWalTailLockedSteps, well.openTmp, well.syncTmp, well.copyTail]
  have replaced : (replaceLogSteps os data truncateAt.toNat).err = none := by
    simp [replaceLogSteps, copied, well.close, well.rename, well.reopenAppend]
  have emptied : (reopenEmptyLockedSteps os).err = none := by
    simp [reopenEmptyLockedSteps, well.close, well.truncate, well.reopen]
  rw [truncateBeforeSteps]
  split
  · rfl
  · rw [Performed.andThen_err, Performed.attempt_err, truncateSyncedSteps, Performed.andThen_err,
      Performed.check_err]
    refine ⟨well.sync, well.stat, ?_⟩
    split
    · exact emptied
    · exact replaced

/-! ### The content alone -/

/-- The loop with its steps is the loop on contents: where the first comes through, the second
does so with the same chunks. -/
theorem copyTailFrom_of_steps (data : Bytes) (fuel i off : Nat) (tmp : Bytes)
    (enough : data.length - off ≤ fuel) (returned : (copyTailSteps os data fuel i off).err = none) :
    copyTailFrom data (fun i => (os.readAt i).getD 0) fuel i off tmp =
      .ok (tmp ++ data.drop off) := by
  induction fuel generalizing i off tmp with
  | zero => rw [copyTailFrom, List.drop_eq_nil_of_le (by omega), List.append_nil]
  | succ fuel ih =>
    rw [copyTailSteps] at returned
    rw [copyTailFrom]
    split
    next more =>
      rw [if_pos more] at returned
      cases read : os.readAt i with
      | none =>
        rw [read] at returned
        cases returned
      | some count =>
        rw [read] at returned
        dsimp only [Option.getD_some] at returned ⊢
        split at returned
        · cases returned
        next some_ =>
          cases written : os.writeTmp i with
          | some stored =>
            rw [written] at returned
            cases returned
          | none =>
            rw [written, Performed.andThen_err] at returned
            rw [if_neg some_, ih _ _ _ (by omega) returned.2, List.append_assoc,
              ← List.drop_drop, List.take_append_drop]
    · rw [List.drop_eq_nil_of_le (by omega), List.append_nil]

/-- A call that returns nil leaves the content that `truncateBefore` computes. -/
theorem truncateBefore_of_steps (d : LogDisk) (truncateAt : Int) (opened : d.handle = .wal)
    (returned : (truncateBeforeSteps os d.wal truncateAt).err = none) :
    Wal.truncateBefore d.wal truncateAt (fun i => (os.readAt i).getD 0) =
      .ok ((truncateBeforeSteps os d.wal truncateAt).steps.foldl LogDisk.step d).wal := by
  rw [(truncateBeforeSteps_nil os d truncateAt opened returned).1, Wal.truncateBefore]
  rw [truncateBeforeSteps] at returned
  split
  next nothing => rw [Int.toNat_of_nonpos nothing, List.drop_zero]
  next positive =>
    rw [if_neg positive, truncateSyncedSteps, Performed.andThen_err, Performed.andThen_err]
      at returned
    split
    next all => rw [List.drop_eq_nil_of_le (by omega)]
    next part =>
      obtain ⟨-, -, replaced⟩ := returned
      rw [if_neg part, replaceLogSteps, Performed.andThen_err, Performed.orElse_err,
        copyWalTailLockedSteps, Performed.andThen_err, Performed.andThen_err] at replaced
      exact copyTailFrom_of_steps d.wal _ 0 _ [] (Nat.le_refl _) replaced.1.2.1

/-! ### Appending afterwards -/

/-- `AppendBatch` on the open handle. Nothing is stored through a closed one, and what is
stored through one whose file was renamed away never reaches `wal.log`. -/
def LogDisk.append (limits : ReplayLimits) (d : LogDisk) (call : Call) : LogDisk × Option Error :=
  match d.handle with
  | .wal =>
    let result := appendBatch limits d.wal call.records call.faults
    let durable := call.records ≠ [] ∧ result.2 = none
    ({ d with wal := result.1, walSynced := if durable then result.1.length else d.walSynced },
      result.2)
  | .replaced => (d, (appendBatch limits [] call.records call.faults).2)
  | .closed => (d, (appendBatch limits [] call.records ⟨fun _ => some 0, true⟩).2)

/-- A sequence of appends that all return nil. -/
def LogDisk.appendAll (limits : ReplayLimits) : LogDisk → List Call → Option LogDisk
  | d, [] => some d
  | d, call :: calls =>
    match d.append limits call with
    | (after, none) => after.appendAll limits calls
    | (_, some _) => none

/-- An append that returned nil has stored its batch as whole records. -/
theorem appendBatch_returned (limits : ReplayLimits) (file : Bytes) (call : Call)
    (returned : (appendBatch limits file call.records call.faults).2 = none)
    (small : ∀ r ∈ call.records, r.key.length < 2 ^ 32 ∧ r.value.length < 2 ^ 32) :
    (appendBatch limits file call.records call.faults).1 =
        file ++ call.records.flatMap Record.encoded ∧
      ∀ r ∈ call.records, Encodable limits r := by
  have all : stored limits call.faults 0 call.records = (call.records, []) := by
    rcases (appendBatch_nil_iff limits file call).mp returned with empty | through
    · rw [empty]
      rfl
    · exact through.stored_all limits call
  have encodable := stored_encodable limits call.faults 0 call.records small
  rw [all] at encodable
  rw [appendBatch_file, all, List.append_nil]
  exact ⟨rfl, encodable⟩

theorem LogDisk.appendAll_some (limits : ReplayLimits) (d final : LogDisk) (calls : List Call)
    (opened : d.handle = .wal) (appended : d.appendAll limits calls = some final)
    (small : ∀ r ∈ calls.flatMap Call.records, r.key.length < 2 ^ 32 ∧ r.value.length < 2 ^ 32) :
    final.wal = d.wal ++ (calls.flatMap Call.records).flatMap Record.encoded ∧
      ∀ r ∈ calls.flatMap Call.records, Encodable limits r := by
  induction calls generalizing d with
  | nil =>
    cases appended
    exact ⟨(List.append_nil _).symm, nofun⟩
  | cons call calls ih =>
    rw [List.flatMap_cons] at small ⊢
    rw [LogDisk.appendAll, LogDisk.append, opened] at appended
    dsimp only at appended
    cases returned : (appendBatch limits d.wal call.records call.faults).2 with
    | some e =>
      rw [returned] at appended
      cases appended
    | none =>
      rw [returned] at appended
      obtain ⟨stored_, encodable⟩ := appendBatch_returned limits d.wal call returned
        fun r member => small r (List.mem_append_left _ member)
      obtain ⟨content, later⟩ := ih ⟨_, _, d.tmp, d.tmpSynced, .wal⟩ rfl appended
        fun r member => small r (List.mem_append_right _ member)
      refine ⟨?_, fun r member => (List.mem_append.mp member).elim (encodable r) (later r)⟩
      rw [content, stored_, List.flatMap_append, List.append_assoc]

/-- The bytes are whole records, and these. -/
def ConsistsOf (limits : ReplayLimits) (bytes : Bytes) (rs : List Record) : Prop :=
  scan (readOneRecord limits) (bytes.length + 1) bytes = ⟨rs, bytes.length, some .eof⟩

theorem consistsOf_encoded (limits : ReplayLimits) (rs : List Record)
    (encodable : ∀ r ∈ rs, Encodable limits r) :
    ConsistsOf limits (rs.flatMap Record.encoded) rs := by
  have scanned := scan_log (readOneRecord limits) Record.encoded (readOneRecord_progress limits)
    rs [] (fun r member => (encodable r member).reads limits r)
    ((rs.flatMap Record.encoded).length + 1) (by rw [List.append_nil]; exact Nat.lt_succ_self _)
  have atEnd : scan (readOneRecord limits) (([] : Bytes).length + 1) [] =
      ⟨[], 0, some .eof⟩ := scan_error (readOneRecord limits) _ [] .eof rfl
  rwa [List.append_nil, atEnd, List.append_nil] at scanned

theorem ConsistsOf.append {limits : ReplayLimits} {front back : Bytes} {rs ss : List Record}
    (first : ConsistsOf limits front rs) (second : ConsistsOf limits back ss) :
    ConsistsOf limits (front ++ back) (rs ++ ss) := by
  have accepted := scan_accepted (readOneRecord limits) (readOneRecord_progress limits)
    (readOneRecord_local limits) (front.length + 1) front back ((front ++ back).length + 1)
  rw [first, second, List.take_length] at accepted
  rw [ConsistsOf, accepted (Nat.lt_succ_self _), List.length_append]

theorem ConsistsOf.replay {limits : ReplayLimits} {bytes : Bytes} {rs : List Record}
    (consists : ConsistsOf limits.withDefaults bytes rs)
    (fits : bytes.length ≤ limits.withDefaults.maxFileSize) :
    replayFromWithRecovery limits 0 (total collect) [] bytes = ⟨rs, bytes.length, bytes, none⟩ := by
  rw [replay_eq_scan limits 0 collect [] bytes fits (Nat.zero_le _), List.drop_zero, consists,
    collect_foldl, List.nil_append, Nat.zero_add, settle]

variable (os)

/-- `TruncateBefore` on an open log drops exactly a front of it: it returns nil if no call of
the operating system fails and every `ReadAt` makes some progress, and whenever it returns nil
the log is the old one without its first `min (max truncateAt 0) size` bytes. What is appended
then stands behind that tail, so that replay delivers the records of the tail, if it consists
of whole ones, and the new ones after them. At every crash point the log is completely the old
or completely the new one, also where unsynced bytes are lost; only before the first `Sync`
has returned must the crash not lose bytes of the old log itself. -/
theorem truncateBefore_drops_front (limits : ReplayLimits) (d : LogDisk) (truncateAt : Int)
    (opened : d.handle = .wal) :
    let call := truncateBeforeSteps os d.wal truncateAt
    let after := call.steps.foldl LogDisk.step d
    let tail := d.wal.drop (min (max truncateAt 0) d.wal.length).toNat
    (os.Succeed → call.err = none) ∧
    (call.err = none → after.wal = tail ∧
      ∀ calls final, after.appendAll limits.withDefaults calls = some final →
        (∀ r ∈ calls.flatMap Call.records, r.key.length < 2 ^ 32 ∧ r.value.length < 2 ^ 32) →
        final.wal = tail ++ (calls.flatMap Call.records).flatMap Record.encoded ∧
        ∀ rs, ConsistsOf limits.withDefaults tail rs →
          final.wal.length ≤ limits.withDefaults.maxFileSize →
          replayFromWithRecovery limits 0 (total collect) [] final.wal =
            ⟨rs ++ calls.flatMap Call.records, final.wal.length, final.wal, none⟩) ∧
    (∀ k ≤ call.steps.length, ∀ m kept, (k = 0 → d.wal.length ≤ max d.walSynced kept) →
      (crashed LogDisk.step LogDisk.cut d call.steps k m).left kept = d.wal ∨
        (crashed LogDisk.step LogDisk.cut d call.steps k m).left kept = tail) := by
  intro call after tail
  -- a negative offset cuts nothing and one behind the end cuts everything
  have cutAt : tail = d.wal.drop truncateAt.toNat := by
    rcases Int.le_total d.wal.length truncateAt with all | part
    · rw [List.drop_eq_nil_of_le (by omega)]
      exact List.drop_eq_nil_of_le (by omega)
    · show d.wal.drop (min (max truncateAt 0) d.wal.length).toNat = _
      congr 1
      omega
  refine ⟨fun well => well.truncateBefore d.wal truncateAt, fun returned => ?_, ?_⟩
  · obtain ⟨content, open_⟩ := truncateBeforeSteps_nil os d truncateAt opened returned
    rw [← cutAt] at content
    refine ⟨content, fun calls final appended small => ?_⟩
    obtain ⟨stored_, encodable⟩ := LogDisk.appendAll_some _ after final calls open_ appended small
    rw [show after.wal = tail from content] at stored_
    refine ⟨stored_, fun rs consists fits => ?_⟩
    -- whole records behind whole records are whole records
    apply ConsistsOf.replay _ fits
    rw [stored_]
    exact consists.append (consistsOf_encoded _ _ encodable)
  · intro k point m kept unsynced
    rw [cutAt]
    exact truncateBeforeSteps_crash os d truncateAt k m kept point unsynced

/-- Every call succeeds, and every `ReadAt` returns three bytes at most. -/
def shortReads : TruncateAnswers where
  syncFails := false
  statFails := false
  openTmpFails := false
  readAt := fun _ => some 3
  writeTmp := fun _ => none
  syncTmpFails := false
  removeTmpFails := false
  closeFails := false
  renameFails := false
  truncateFails := false
  openFails := false
  seekFails := false

theorem truncateBefore_of_steps_short_reads :
    Wal.truncateBefore [1, 2, 3, 4, 5, 6] 2 (fun _ => 3) = .ok [3, 4, 5, 6] :=
  (@truncateBefore_of_steps shortReads ⟨[1, 2, 3, 4, 5, 6], 0, none, 0, .wal⟩ 2 rfl
    (by decide +kernel)).trans (by decide +kernel)

/-- A log of two records, nothing of it synced, cut between them; one append follows. -/
theorem truncateBefore_drops_front_two_records :
    let log : List Record := [⟨[97], [1], false⟩, ⟨[98], [2], true⟩]
    let d : LogDisk := ⟨log.flatMap Record.encoded, 0, none, 0, .wal⟩
    let after := (truncateBeforeSteps shortReads d.wal 15).steps.foldl LogDisk.step d
    let calls : List Call := [⟨[⟨[99], [3], false⟩], .none⟩]
    ∃ final, after.appendAll (⟨0, 0, 0, 0⟩ : ReplayLimits).withDefaults calls = some final ∧
      replayFromWithRecovery ⟨0, 0, 0, 0⟩ 0 (total collect) [] final.wal =
        ⟨[⟨[98], [2], true⟩, ⟨[99], [3], false⟩], final.wal.length, final.wal, none⟩ := by
  intro log d after calls
  have exact_ := truncateBefore_drops_front shortReads ⟨0, 0, 0, 0⟩ d 15 rfl
  have appended : after.appendAll (⟨0, 0, 0, 0⟩ : ReplayLimits).withDefaults calls =
      some ⟨[(⟨[98], [2], true⟩ : Record), ⟨[99], [3], false⟩].flatMap Record.encoded, 30, none, 0,
        .wal⟩ := by decide +kernel
  refine ⟨_, appended, ?_⟩
  exact ((exact_.2.1 (by decide +kernel)).2 calls _ appended (by decide)).2
    [⟨[98], [2], true⟩] (by unfold ConsistsOf; decide +kernel) (by decide +kernel)

end PebbleDB.Wal
