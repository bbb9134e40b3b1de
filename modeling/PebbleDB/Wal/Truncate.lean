import PebbleDB.Wal.Append

/-!
# Dropping the front of the log

`TruncateBefore` copies the tail of `wal.log` chunk by chunk into a temporary file
that then replaces it by a rename. Each `ReadAt` may answer with fewer bytes than it
was asked for; what matters is that it answers with some.
-/
namespace PebbleDB.Wal

def chunkSize : Nat := 64 * 1024

inductive TruncateError where
  | truncateIncomplete (offset : Nat)
  deriving DecidableEq, Repr

/-- The loop of `copyWalTailLocked` at offset `off`; `reads i` bounds the answer to the
`i`-th `ReadAt`. -/
def copyTailFrom (data : Bytes) (reads : Nat → Nat) :
    Nat → Nat → Nat → Bytes → Except TruncateError Bytes
  | 0, _, _, tmp => .ok tmp
  | fuel + 1, i, off, tmp =>
    if off < data.length then
      let n := min chunkSize (data.length - off)
      let readN := min (reads i) n
      if readN = 0 then .error (.truncateIncomplete off)
      else copyTailFrom data reads fuel (i + 1) (off + readN) (tmp ++ (data.drop off).take readN)
    else .ok tmp

def copyWalTailLocked (data : Bytes) (truncateAt : Nat) (reads : Nat → Nat) :
    Except TruncateError Bytes :=
  copyTailFrom data reads (data.length - truncateAt) 0 truncateAt []

/-- The content of `wal.log` after `TruncateBefore`. -/
def truncateBefore (data : Bytes) (truncateAt : Int) (reads : Nat → Nat) :
    Except TruncateError Bytes :=
  if truncateAt ≤ 0 then .ok data
  else if data.length ≤ truncateAt then .ok []
  else copyWalTailLocked data truncateAt.toNat reads

theorem copyTailFrom_ok (data : Bytes) (reads : Nat → Nat) (progress : ∀ i, 0 < reads i)
    (fuel i off : Nat) (tmp : Bytes) (enough : data.length - off ≤ fuel) :
    copyTailFrom data reads fuel i off tmp = .ok (tmp ++ data.drop off) := by
  induction fuel generalizing i off tmp with
  | zero =>
    have done : data.drop off = [] := List.drop_eq_nil_of_le (by omega)
    rw [copyTailFrom, done, List.append_nil]
  | succ fuel ih =>
    rw [copyTailFrom]
    split
    next more =>
      have positive := progress i
      have chunk : 0 < chunkSize := by decide
      simp only
      -- the answer is positive, so the offset moves on
      have some_ : min (reads i) (min chunkSize (data.length - off)) ≠ 0 := by omega
      rw [if_neg some_, ih _ _ _ (by omega), List.append_assoc, ← List.drop_drop,
        List.take_append_drop]
    next done =>
      rw [List.drop_eq_nil_of_le (by omega), List.append_nil]

/-- Whatever the chunks, exactly the first `truncateAt` bytes are dropped. -/
theorem truncateBefore_ok (data : Bytes) (truncateAt : Int) (reads : Nat → Nat)
    (progress : ∀ i, 0 < reads i) :
    truncateBefore data truncateAt reads = .ok (data.drop truncateAt.toNat) := by
  rw [truncateBefore]
  split
  next none_ => rw [Int.toNat_of_nonpos none_, List.drop_zero]
  next =>
    split
    next all => rw [List.drop_eq_nil_of_le (by omega)]
    next part =>
      rw [copyWalTailLocked, copyTailFrom_ok data reads progress _ 0 _ [] (Nat.le_refl _),
        List.nil_append]

end PebbleDB.Wal
