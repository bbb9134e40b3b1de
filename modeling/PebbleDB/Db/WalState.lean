import PebbleDB.Bytes

/-!
# The flush checkpoint

Between the manifest commit of a flushed table and the end of the log truncation the
file `wal.flush` names the table and the offset in `wal.log` up to which it covers the
log. `Open` starts its replay there, if the table is live and the log is long enough.
-/
namespace PebbleDB.Db

structure WalFlushState where
  freezeOffset : Int
  sstID : UInt64
  deriving DecidableEq, Repr

inductive WalStateError where
  | corruptWalFlushState (got : Nat)
  deriving DecidableEq, Repr

def walFlushStateSize : Nat := 16

/-- The buffer that `writeWalFlushState` writes; a rename puts it in place whole. -/
def WalFlushState.encoded (st : WalFlushState) : Bytes :=
  putUint64 (toUint64 st.freezeOffset) ++ putUint64 st.sstID.toNat

/-- `readWalFlushState` and the file afterwards: one that is too short is removed. -/
def readWalFlushState : Option Bytes → Except WalStateError (Option WalFlushState) × Option Bytes
  | none => (.ok none, none)
  | some data =>
    if data.length < walFlushStateSize then (.error (.corruptWalFlushState data.length), none)
    else
      (.ok (some ⟨toInt64 (beDecode (data.take 8)),
        UInt64.ofNat (beDecode ((data.drop 8).take 8))⟩), some data)

/-- `walReplayStartOffset` for the live set of the manifest and the size of `wal.log`; a
missing log counts like an empty one. -/
def walReplayStartOffset (live : Finset UInt64) (walFlush : Option Bytes) (walSize : Nat) :
    Except WalStateError Int :=
  match (readWalFlushState walFlush).1 with
  | .error e => .error e
  | .ok none => .ok 0
  | .ok (some st) =>
    if st.sstID ∉ live then .ok 0
    else if st.freezeOffset < 0 then .ok 0
    else if walSize < st.freezeOffset then .ok 0
    else .ok st.freezeOffset

theorem WalFlushState.encoded_length (st : WalFlushState) :
    st.encoded.length = walFlushStateSize := by
  simp [WalFlushState.encoded, walFlushStateSize]

/-- A checkpoint whose offset is an int64 is read back as it was written. -/
theorem readWalFlushState_encoded (st : WalFlushState) (low : -2 ^ 63 ≤ st.freezeOffset)
    (high : st.freezeOffset < 2 ^ 63) :
    readWalFlushState (some st.encoded) = (.ok (some st), some st.encoded) := by
  have offset : st.encoded.take 8 = putUint64 (toUint64 st.freezeOffset) := by
    rw [WalFlushState.encoded, List.take_left' (putUint64_length _)]
  have id : (st.encoded.drop 8).take 8 = putUint64 st.sstID.toNat := by
    rw [WalFlushState.encoded, List.drop_left' (putUint64_length _),
      List.take_of_length_le (by rw [putUint64_length])]
  rw [readWalFlushState, if_neg (by rw [st.encoded_length]; exact Nat.lt_irrefl _), offset, id,
    putUint64_mod _ (toUint64_lt _), putUint64_mod _ st.sstID.toNat_lt,
    toInt64_toUint64 _ low high, UInt64.ofNat_toNat]

/-- Where the replay can start: at the front, or at the offset of a checkpoint whose table
is live and whose offset lies inside the log. -/
theorem walReplayStartOffset_cases (live : Finset UInt64) (walFlush : Option Bytes)
    (walSize : Nat) (offset : Int) (returned : walReplayStartOffset live walFlush walSize = .ok offset) :
    offset = 0 ∨ ∃ st, (readWalFlushState walFlush).1 = .ok (some st) ∧ offset = st.freezeOffset ∧
      st.sstID ∈ live ∧ 0 ≤ st.freezeOffset ∧ st.freezeOffset ≤ walSize := by
  rw [walReplayStartOffset] at returned
  split at returned
  · cases returned
  · cases returned
    exact .inl rfl
  next st read =>
    split at returned
    · cases returned
      exact .inl rfl
    next member =>
      split at returned
      · cases returned
        exact .inl rfl
      · split at returned
        · cases returned
          exact .inl rfl
        · cases returned
          exact .inr ⟨st, read, rfl, not_not.mp member, by omega, by omega⟩

end PebbleDB.Db
