import PebbleDB.Sst.Cache
import PebbleDB.Sst.Seek

/-!
# Reads through the block cache

All open tables share one block cache, whose keys are the number of a reader and the offset
of a block. `Get` and the iterators are computations that ask for blocks, so any number of
them can run at once, each waiting for a block at some point. A block
comes from the cache or from the file. Of the cache nothing is assumed but that it returns
what was once added under the same key; whether it still has it is for the run to say.

## Main result

`transparent_of_safe`: as long as no index names one offset with two lengths, the numbers of
readers do not start over, and no block of a closed file is taken from the cache, all
answers and results are the same as without the cache.
-/
namespace PebbleDB.Sst

open Query (Prog)

/-! ### Many readers at once -/

/-- What a call returns; the iterator is the one it leaves behind. -/
inductive ReadResult where
  | lookup (result : Except Error Lookup)
  | iterator (it : Iterator) (err : Option Error)

/-- A call on a reader, named by its place in the list of readers. -/
structure ReadJob where
  reader : Nat
  prog : Asking ReadResult

inductive ReadCall where
  | openReader (id : UInt64) (file : Bytes)
  | get (reader : Nat) (key : Bytes)
  | newIterator (reader : Nat)
  /-- `Next` on the iterator that a job has returned. -/
  | next (job : Nat)
  | seek (job : Nat) (key : Bytes)
  /-- A job gets the block it asks for. The cache, if there is one, has a miss or returns
  the given one of the blocks that were ever added under the key. -/
  | block (job : Nat) (hit : Option Nat)
  /-- The file of a reader is closed. -/
  | close (reader : Nat)

/-- All readers, all calls and everything `readBlock` has returned. `counter` is
`nextReaderFileID`. -/
structure Reads where
  readers : List Reader
  counter : Nat
  jobs : List ReadJob
  answers : List (Except Error Bytes)

namespace Reads

def start (counter : Nat) : Reads := ⟨[], counter, [], []⟩

/-- The reader of a job and the block it waits for. -/
def pending (s : Reads) (job : Nat) : Option (Reader × IndexEntry) := do
  let j ← s.jobs[job]?
  let e ← j.prog.question
  let r ← s.readers[j.reader]?
  pure (r, e.2)

def answer (s : Reads) (job : Nat) (a : Except Error Bytes) : Reads :=
  { s with
    jobs := s.jobs.modify job fun j => { j with prog := j.prog.feed a }
    answers := s.answers ++ [a] }

def addJob (s : Reads) (reader : Nat) (prog : Reader → Asking ReadResult) : Reads :=
  match s.readers[reader]? with
  | none => s
  | some r => { s with jobs := s.jobs ++ [⟨reader, prog r⟩] }

/-- A job that has returned an iterator goes on with it. -/
def resume (prog : Iterator → Asking ReadResult) (j : ReadJob) : ReadJob :=
  match j.prog with
  | .done (.iterator it _) => { j with prog := prog it }
  | _ => j

/-- Everything but the reading of a block. -/
def act (s : Reads) : ReadCall → Reads
  | .openReader id file =>
    match openReader ((s.counter + 1) % 2 ^ 64) id file with
    | .error _ => s
    | .ok r => { s with readers := s.readers ++ [r], counter := (s.counter + 1) % 2 ^ 64 }
  | .get reader key => s.addJob reader fun r => (r.askGet key).map .lookup
  | .newIterator reader => s.addJob reader fun r => r.askIterator.map fun it => .iterator it it.err
  | .next job => { s with
      jobs := s.jobs.modify job (resume fun it => it.askNext.map fun it => .iterator it it.err) }
  | .seek job key => { s with
      jobs := s.jobs.modify job
        (resume fun it => (it.askSeek key).map fun sought => .iterator sought.1 sought.2) }
  | .block _ _ => s
  | .close reader => { s with
      readers := s.readers.modify reader fun r => { r with fileClosed := true } }

/-- Without a cache. -/
def step (s : Reads) : ReadCall → Reads
  | .block job _ =>
    match s.pending job with
    | none => s
    | some (r, e) => s.answer job (r.answer e)
  | call => s.act call

end Reads

/-- With a cache: also every block that was ever added, with its key. -/
structure CachedReads where
  reads : Reads
  added : List (BlockCacheKey × Bytes)

namespace CachedReads

/-- What the cache returns. -/
def lookup (c : CachedReads) (key : BlockCacheKey) (hit : Option Nat) : Option Bytes := do
  let n ← hit
  let entry ← (c.added.filter fun entry => entry.1 = key)[n]?
  pure entry.2

/-- `readBlock`. The miss, the reading of the file and the `add` are one step: an `add` that
comes later only takes hits away. -/
def readBlock (c : CachedReads) (r : Reader) (e : IndexEntry) (hit : Option Nat) :
    Except Error Bytes × List (BlockCacheKey × Bytes) :=
  let key : BlockCacheKey := ⟨r.fileID, e.offset⟩
  match c.lookup key hit with
  | some data => (.ok data, c.added)
  | none =>
    match r.readBlock e.offset e.length with
    | .error err => (.error err, c.added)
    | .ok blockData => (.ok blockData, c.added ++ [(key, blockData)])

def step (c : CachedReads) : ReadCall → CachedReads
  | .block job hit =>
    match c.reads.pending job with
    | none => c
    | some (r, e) =>
      let read := c.readBlock r e hit
      ⟨c.reads.answer job read.1, read.2⟩
  | call => { c with reads := c.reads.act call }

end CachedReads

/-- No offset has two lengths. -/
def OneLength (index : List IndexEntry) : Prop :=
  ∀ e ∈ index, ∀ e' ∈ index, e.offset = e'.offset → e.length = e'.length

instance OneLength.decidable (index : List IndexEntry) : Decidable (OneLength index) :=
  inferInstanceAs (Decidable (∀ _ ∈ _, _))

/-- A table that can be opened has one length for every offset. -/
def OpensOneLength : Except Error Reader → Prop
  | .error _ => True
  | .ok r => OneLength r.index

instance OpensOneLength.decidable : (opened : Except Error Reader) →
    Decidable (OpensOneLength opened)
  | .error _ => .isTrue trivial
  | .ok r => OneLength.decidable r.index

namespace CachedReads

/-- The cache returns nothing for a file that is closed. -/
def NoStaleHit (c : CachedReads) (hit : Option Nat) : Option (Reader × IndexEntry) → Prop
  | none => True
  | some (r, e) => r.fileClosed = true → c.lookup ⟨r.fileID, e.offset⟩ hit = none

instance decidableNoStaleHit (c : CachedReads) (hit : Option Nat) :
    (pending : Option (Reader × IndexEntry)) → Decidable (c.NoStaleHit hit pending)
  | none => .isTrue trivial
  | some (_, _) => inferInstanceAs (Decidable (_ = true → _ = none))

/-- What the cache does not tell apart does not happen: an index with two lengths for one
offset, a number of a reader used again, a hit for a file that is closed. -/
def Safe (c : CachedReads) : ReadCall → Prop
  | .openReader id file =>
    c.reads.counter + 1 < 2 ^ 64 ∧
      OpensOneLength (openReader ((c.reads.counter + 1) % 2 ^ 64) id file)
  | .block job hit => c.NoStaleHit hit (c.reads.pending job)
  | _ => True

instance decidableSafe (c : CachedReads) : (call : ReadCall) → Decidable (c.Safe call)
  | .openReader _ _ => inferInstanceAs (Decidable (_ ∧ OpensOneLength _))
  | .block job hit => c.decidableNoStaleHit hit (c.reads.pending job)
  | .get _ _ | .newIterator _ | .next _ | .seek _ _ | .close _ => .isTrue trivial

end CachedReads

/-! ### What is in the cache -/

/-- What the file of a reader has at the place of a block, closed or not. -/
def Reader.blockAt (r : Reader) (e : IndexEntry) : Except Error Bytes :=
  ({ r with fileClosed := false } : Reader).answer e

theorem Reader.answer_open (r : Reader) (e : IndexEntry) (still : r.fileClosed = false) :
    r.answer e = r.blockAt e := by
  rw [blockAt, ← still]

theorem Reader.blockAt_of_answer (r : Reader) (e : IndexEntry) (block : Bytes)
    (read : r.answer e = .ok block) : r.blockAt e = .ok block := by
  cases closed : r.fileClosed with
  | false => rw [← r.answer_open e closed, read]
  | true =>
    rw [answer, readBlock, closed, if_pos rfl] at read
    cases read

/-- The results of a job that works on a table with this index. -/
def ReadResult.Of (index : List IndexEntry) : ReadResult → Prop
  | .lookup _ => True
  | .iterator it _ => it.reader.index = index

/-- The job asks for blocks of its reader. -/
def ReadJob.Fits (readers : List Reader) (j : ReadJob) : Prop :=
  ∃ r, readers[j.reader]? = some r ∧ j.prog.All (·.2 ∈ r.index) (ReadResult.Of r.index)

namespace Reads

/-- What holds of the readers and their jobs in every run: one number, one table. -/
structure Kept (s : Reads) : Prop where
  numbered : ∀ r ∈ s.readers, r.fileID ≤ s.counter
  apart : ∀ r ∈ s.readers, ∀ r' ∈ s.readers, r.fileID = r'.fileID →
    r.index = r'.index ∧ r.file = r'.file
  lengths : ∀ r ∈ s.readers, OneLength r.index
  jobs : ∀ j ∈ s.jobs, j.Fits s.readers

variable {s : Reads}

theorem kept_start (counter : Nat) : (start counter).Kept := by
  constructor
  · nofun
  · nofun
  · nofun
  · nofun

theorem openReader_kept (inv : s.Kept) (id : UInt64) (file : Bytes)
    (below : s.counter + 1 < 2 ^ 64)
    (lengths : OpensOneLength (Sst.openReader ((s.counter + 1) % 2 ^ 64) id file)) :
    (s.act (.openReader id file)).Kept := by
  rw [act]
  rw [Nat.mod_eq_of_lt below] at lengths ⊢
  cases opened : Sst.openReader (s.counter + 1) id file with
  | error e => exact inv
  | ok r =>
    rw [opened] at lengths
    have number := (openReader_ok _ _ _ _ opened).1
    -- below `2 ^ 64` the counter does not start over
    have new (r' : Reader) (old : r' ∈ s.readers) : r'.fileID ≠ r.fileID := by
      have := inv.numbered r' old
      omega
    constructor
    · simp only [List.mem_append, List.mem_singleton]
      rintro r' (old | rfl)
      · exact Nat.le_succ_of_le (inv.numbered r' old)
      · exact number.le
    · simp only [List.mem_append, List.mem_singleton]
      rintro r₁ (old₁ | rfl) r₂ (old₂ | rfl) same
      · exact inv.apart r₁ old₁ r₂ old₂ same
      · exact absurd same (new r₁ old₁)
      · exact absurd same.symm (new r₂ old₂)
      · exact ⟨rfl, rfl⟩
    · simp only [List.mem_append, List.mem_singleton]
      rintro r' (old | rfl)
      · exact inv.lengths r' old
      · exact lengths
    · intro j member
      obtain ⟨r', at_, all⟩ := inv.jobs j member
      exact ⟨r', by rw [List.getElem?_append_left (List.getElem?_eq_some_iff.mp at_).1, at_], all⟩

theorem addJob_kept (inv : s.Kept) (reader : Nat) (prog : Reader → Asking ReadResult)
    (all : ∀ r, (prog r).All (·.2 ∈ r.index) (ReadResult.Of r.index)) :
    (s.addJob reader prog).Kept := by
  rw [addJob]
  split
  · exact inv
  next r found =>
    refine ⟨inv.numbered, inv.apart, inv.lengths, ?_⟩
    simp only [List.mem_append, List.mem_singleton]
    rintro j (old | rfl)
    · exact inv.jobs j old
    · exact ⟨r, found, all r⟩

theorem addJob_readers (s : Reads) (reader : Nat) (prog : Reader → Asking ReadResult) :
    (s.addJob reader prog).readers = s.readers ∧ (s.addJob reader prog).counter = s.counter := by
  rw [addJob]
  split
  · exact ⟨rfl, rfl⟩
  · exact ⟨rfl, rfl⟩

/-- A change of one job that leaves it with its reader. -/
theorem modifyJob_kept (inv : s.Kept) (job : Nat) (f : ReadJob → ReadJob)
    (fits : ∀ j, j.Fits s.readers → (f j).Fits s.readers) (answers : List (Except Error Bytes)) :
    ({ s with jobs := s.jobs.modify job f, answers := answers } : Reads).Kept := by
  refine ⟨inv.numbered, inv.apart, inv.lengths, fun j member => ?_⟩
  obtain ⟨old, inside, rfl | rfl⟩ := List.mem_modify f job s.jobs j member
  · exact inv.jobs _ inside
  · exact fits old (inv.jobs old inside)

theorem resume_fits (readers : List Reader) (prog : Iterator → Asking ReadResult)
    (all : ∀ it, (prog it).All (·.2 ∈ it.reader.index) (ReadResult.Of it.reader.index))
    (j : ReadJob) (fits : j.Fits readers) : (resume prog j).Fits readers := by
  obtain ⟨r, found, now⟩ := fits
  rw [resume]
  split
  next it err returned =>
    -- the iterator belongs to the reader, so what it asks for does too
    have of : ReadResult.Of r.index (.iterator it err) :=
      Prog.All.result j.prog now _ (by rw [returned]; rfl)
    have asks := all it
    rw [show it.reader.index = r.index from of] at asks
    exact ⟨r, found, asks⟩
  · exact ⟨r, found, now⟩

theorem close_kept (inv : s.Kept) (reader : Nat) : (s.act (.close reader)).Kept := by
  -- closing a file changes neither its number nor its content
  have before (r : Reader) (member : r ∈ (s.act (.close reader)).readers) :
      ∃ old ∈ s.readers, r.fileID = old.fileID ∧ r.index = old.index ∧ r.file = old.file := by
    obtain ⟨old, inside, rfl | rfl⟩ := List.mem_modify _ reader s.readers r member
    · exact ⟨_, inside, rfl, rfl, rfl⟩
    · exact ⟨old, inside, rfl, rfl, rfl⟩
  constructor
  · intro r member
    obtain ⟨old, inside, number, -, -⟩ := before r member
    rw [number]
    exact inv.numbered old inside
  · intro r member r' member' same
    obtain ⟨old, inside, number, index, file⟩ := before r member
    obtain ⟨old', inside', number', index', file'⟩ := before r' member'
    rw [index, file, index', file']
    exact inv.apart old inside old' inside' (by rw [← number, ← number', same])
  · intro r member
    obtain ⟨old, inside, -, index, -⟩ := before r member
    rw [index]
    exact inv.lengths old inside
  · intro j member
    obtain ⟨r, found, all⟩ := inv.jobs j member
    -- the job may belong to the reader that is closed; its index is the same
    refine ⟨if reader = j.reader then { r with fileClosed := true } else r, ?_, ?_⟩
    · rw [act, List.getElem?_modify, found]
      rfl
    · split
      · exact all
      · exact all

/-- One step, apart from the blocks. -/
theorem act_kept (inv : s.Kept) (c : CachedReads) (of : c.reads = s) (call : ReadCall)
    (safe : c.Safe call) : (s.act call).Kept := by
  subst of
  cases call with
  | openReader id file => exact openReader_kept inv id file safe.1 safe.2
  | get reader key =>
    exact addJob_kept inv reader _ fun r => (r.askGet_all key).map _ ReadResult.lookup
      fun _ _ => trivial
  | newIterator reader =>
    exact addJob_kept inv reader _ fun r => r.askIterator_all.map _
      (fun it => ReadResult.iterator it it.err) fun it same => congrArg Reader.index same
  | next job =>
    refine modifyJob_kept inv job _ (resume_fits _ _ fun it => ?_) _
    exact it.askNext_all.map _ (fun it => ReadResult.iterator it it.err)
      fun it' same => congrArg Reader.index same
  | seek job key =>
    refine modifyJob_kept inv job _ (resume_fits _ _ fun it => ?_) _
    exact (it.askSeek_all key).map _ (fun sought => ReadResult.iterator sought.1 sought.2)
      fun sought same => congrArg Reader.index same
  | block job hit => exact inv
  | close reader => exact close_kept inv reader

theorem answer_kept (inv : s.Kept) (job : Nat) (a : Except Error Bytes) :
    (s.answer job a).Kept := by
  refine modifyJob_kept inv job (fun j => { j with prog := j.prog.feed a }) ?_ _
  rintro j ⟨r, found, all⟩
  exact ⟨r, found, all.feed a j.prog⟩

/-- A job that waits for a block waits for one of its reader. -/
theorem pending_mem (inv : s.Kept) (job : Nat) (r : Reader) (e : IndexEntry)
    (waits : s.pending job = some (r, e)) : r ∈ s.readers ∧ e ∈ r.index := by
  simp only [pending, Option.bind_eq_bind, Option.bind_eq_some_iff, Option.pure_def,
    Option.some.injEq, Prod.mk.injEq] at waits
  obtain ⟨j, at_, e', asks, r', found, rfl, rfl⟩ := waits
  obtain ⟨r'', found', all⟩ := inv.jobs j (List.mem_of_getElem? at_)
  -- the reader it fits and the reader it is given are the same
  rw [found] at found'
  cases found'
  exact ⟨List.mem_of_getElem? found, all.question _ e' asks⟩

end Reads

namespace CachedReads

/-- Every block in the cache is what the file of its reader has at the offset. -/
structure Kept (c : CachedReads) : Prop where
  reads : c.reads.Kept
  known : ∀ entry ∈ c.added, entry.1.fileID ≤ c.reads.counter
  content : ∀ entry ∈ c.added, ∀ r ∈ c.reads.readers, r.fileID = entry.1.fileID →
    ∀ e ∈ r.index, e.offset = entry.1.offset → r.blockAt e = .ok entry.2

theorem lookup_mem (c : CachedReads) (key : BlockCacheKey) (hit : Option Nat) (data : Bytes)
    (found : c.lookup key hit = some data) : (key, data) ∈ c.added := by
  simp only [lookup, Option.bind_eq_bind, Option.bind_eq_some_iff, Option.pure_def,
    Option.some.injEq] at found
  obtain ⟨n, -, entry, at_, rfl⟩ := found
  obtain ⟨member, same⟩ := List.mem_filter.mp (List.mem_of_getElem? at_)
  rwa [← show entry.1 = key by simpa using same]

variable {c : CachedReads}

/-- A block from the cache is the block of the file. -/
theorem readBlock_answer (inv : c.Kept) (r : Reader) (e : IndexEntry) (hit : Option Nat)
    (inReaders : r ∈ c.reads.readers) (inIndex : e ∈ r.index)
    (fresh : c.NoStaleHit hit (some (r, e))) : (c.readBlock r e hit).1 = r.answer e := by
  rw [readBlock]
  cases found : c.lookup ⟨r.fileID, e.offset⟩ hit with
  | some data =>
    -- a hit, so the file is still open
    have still : r.fileClosed = false := by
      by_contra closed
      rw [fresh (by simpa using closed)] at found
      cases found
    have stored := inv.content _ (c.lookup_mem _ _ _ found) r inReaders rfl e inIndex rfl
    rw [r.answer_open e still, stored]
  | none =>
    rw [Reader.answer]
    cases r.readBlock e.offset e.length with
    | error err => rfl
    | ok blockData => rfl

/-- A block that is added is the block of the file, for every index entry with its offset. -/
theorem readBlock_kept (inv : c.Kept) (r : Reader) (e : IndexEntry) (hit : Option Nat)
    (inReaders : r ∈ c.reads.readers) (inIndex : e ∈ r.index) (job : Nat) (a : Except Error Bytes) :
    Kept ⟨c.reads.answer job a, (c.readBlock r e hit).2⟩ := by
  have old : Kept ⟨c.reads.answer job a, c.added⟩ :=
    ⟨Reads.answer_kept inv.reads job a, inv.known, inv.content⟩
  rw [readBlock]
  cases c.lookup ⟨r.fileID, e.offset⟩ hit with
  | some data => exact old
  | none =>
    dsimp only
    cases read : r.readBlock e.offset e.length with
    | error err => exact old
    | ok blockData =>
      refine ⟨old.reads, ?_, ?_⟩
      · simp only [List.mem_append, List.mem_singleton]
        rintro entry (before | rfl)
        · exact inv.known entry before
        · exact inv.reads.numbered r inReaders
      · simp only [List.mem_append, List.mem_singleton]
        rintro entry (before | rfl)
        · exact inv.content entry before
        · intro r' inReaders' sameNumber e' inIndex' sameOffset
          obtain ⟨index, file⟩ := inv.reads.apart r' inReaders' r inReaders sameNumber
          rw [index] at inIndex'
          -- the key has no length in it: two entries with one offset must agree on it
          have sameLength := inv.reads.lengths r inReaders e' inIndex' e inIndex sameOffset
          have block := r.blockAt_of_answer e blockData read
          rw [Reader.blockAt, Reader.answer, Reader.readBlock] at block ⊢
          dsimp only at block ⊢
          rw [file, show e'.offset = e.offset from sameOffset, sameLength]
          exact block

/-- Steps that leave the readers alone leave the cache right. -/
theorem kept_of_readers (inv : c.Kept) (s : Reads) (reads : s.Kept)
    (same : s.readers = c.reads.readers ∧ s.counter = c.reads.counter) : Kept ⟨s, c.added⟩ where
  reads := reads
  known := by simpa only [same.2] using inv.known
  content := by simpa only [same.1] using inv.content

theorem openReader_kept (inv : c.Kept) (id : UInt64) (file : Bytes)
    (safe : c.Safe (.openReader id file)) :
    Kept { c with reads := c.reads.act (.openReader id file) } := by
  have reads := Reads.act_kept inv.reads c rfl _ safe
  rw [Reads.act] at reads ⊢
  rw [Nat.mod_eq_of_lt safe.1] at reads ⊢
  cases opened : openReader (c.reads.counter + 1) id file with
  | error e => exact inv
  | ok r =>
    rw [opened] at reads
    have number := (openReader_ok _ _ _ _ opened).1
    refine ⟨reads, fun entry member => Nat.le_succ_of_le (inv.known entry member), ?_⟩
    simp only [List.mem_append, List.mem_singleton]
    rintro entry member r' (old | rfl) same
    · exact inv.content entry member r' old same
    · -- a new number: nothing in the cache has it
      have known := inv.known entry member
      omega

theorem close_kept (inv : c.Kept) (reader : Nat) :
    Kept { c with reads := c.reads.act (.close reader) } := by
  refine ⟨Reads.close_kept inv.reads reader, inv.known, fun entry member r inside => ?_⟩
  obtain ⟨old, before, rfl | rfl⟩ := List.mem_modify _ reader c.reads.readers r inside
  · exact inv.content entry member _ before
  · exact inv.content entry member old before

/-- One step: the cache stays right, and the readers do what they do without it. -/
theorem step_kept (c : CachedReads) (call : ReadCall) (inv : c.Kept) (safe : c.Safe call) :
    (c.step call).Kept ∧ (c.step call).reads = c.reads.step call := by
  have reads := Reads.act_kept inv.reads c rfl call safe
  cases call with
  | openReader id file => exact ⟨openReader_kept inv id file safe, rfl⟩
  | get reader key =>
    exact ⟨kept_of_readers inv _ reads (c.reads.addJob_readers reader _), rfl⟩
  | newIterator reader =>
    exact ⟨kept_of_readers inv _ reads (c.reads.addJob_readers reader _), rfl⟩
  | next job => exact ⟨kept_of_readers inv _ reads ⟨rfl, rfl⟩, rfl⟩
  | seek job key => exact ⟨kept_of_readers inv _ reads ⟨rfl, rfl⟩, rfl⟩
  | close reader => exact ⟨close_kept inv reader, rfl⟩
  | block job hit =>
    -- the one call in which the two machines do different things
    rw [Safe] at safe
    rw [step, Reads.step]
    cases waits : c.reads.pending job with
    | none => exact ⟨inv, rfl⟩
    | some waiting =>
      obtain ⟨r, e⟩ := waiting
      rw [waits] at safe
      obtain ⟨inReaders, inIndex⟩ := Reads.pending_mem inv.reads job r e waits
      refine ⟨readBlock_kept inv r e hit inReaders inIndex job _, ?_⟩
      dsimp only
      rw [readBlock_answer inv r e hit inReaders inIndex safe]

/-- The cache is transparent: with it the readers return what they return without it, block
by block and call by call. -/
theorem transparent_of_safe (counter : Nat) (calls : List ReadCall)
    (safe : Machine.Always step Safe ⟨.start counter, []⟩ calls) :
    (Machine.run step ⟨.start counter, []⟩ calls).reads =
      Machine.run Reads.step (.start counter) calls := by
  have init : Kept ⟨.start counter, []⟩ := ⟨Reads.kept_start counter, nofun, nofun⟩
  have together := Machine.run_view_of_always step Safe Reads.step reads id Kept
    (fun c call inv safe => (step_kept c call inv safe).1)
    (fun c call inv safe => (step_kept c call inv safe).2) _ calls init safe
  rwa [List.map_id] at together

/-- Two blocks of a table, one of them from the cache the second time, for a lookup and for an
iterator. -/
theorem transparent_second_read :
    let file := tableFile [[⟨[97], [1], false⟩], [⟨[98], [2], false⟩]] ⟨[255], 1, 8⟩
    let calls : List ReadCall := [.openReader 1 file, .get 0 [97], .block 0 none, .get 0 [97],
      .block 1 (some 0), .newIterator 0, .block 2 (some 0), .seek 2 [98], .block 2 none]
    let cached := Machine.run step ⟨.start 0, []⟩ calls
    (cached.reads.answers.length, cached.added.length) = (4, 2) ∧
      cached.reads = Machine.run Reads.step (.start 0) calls := by
  refine ⟨by decide +kernel, transparent_of_safe _ _ (by decide +kernel)⟩

end CachedReads

/-- What `Get` has returned, by job. -/
def Reads.lookups (s : Reads) : List (Option (Except Error Lookup)) :=
  s.jobs.map fun j =>
    match j.prog with
    | .done (.lookup result) => some result
    | _ => none

/-- An index that names offset 0 twice, with the length of one entry and of two: after the
short block has been read, the cache returns it for the long one, and the second key is not
found. -/
theorem CachedReads.not_transparent_two_lengths :
    let first : Entry := ⟨[97], [1], false⟩
    let second : Entry := ⟨[98], [2], false⟩
    let data := blockBytes [first, second]
    let index := encodeIndex [⟨[97], 0, (blockBytes [first]).length⟩, ⟨[98], 0, data.length⟩]
    let footer : Footer := ⟨data.length, index.length, 0, 0, currentVersion, magicNumber⟩
    let calls : List ReadCall := [.openReader 1 (data ++ index ++ footer.encode),
      .get 0 [97], .block 0 none, .get 0 [98], .block 1 (some 0)]
    (Machine.run Reads.step (.start 0) calls).lookups =
        [some (.ok ⟨some [1], true, false⟩), some (.ok ⟨some [2], true, false⟩)] ∧
      (Machine.run step ⟨.start 0, []⟩ calls).reads.lookups =
        [some (.ok ⟨some [1], true, false⟩), some (.ok .miss)] := by
  decide +kernel

/-- A block of a closed file: without the cache the lookup fails. -/
example :
    let file := tableFile [[⟨[97], [1], false⟩]] ⟨[255], 1, 8⟩
    let calls : List ReadCall := [.openReader 1 file, .get 0 [97], .block 0 none, .close 0,
      .get 0 [97], .block 1 (some 0)]
    (Machine.run Reads.step (.start 0) calls).lookups =
        [some (.ok ⟨some [1], true, false⟩), some (.error .closed)] ∧
      (Machine.run CachedReads.step ⟨.start 0, []⟩ calls).reads.lookups =
        [some (.ok ⟨some [1], true, false⟩), some (.ok ⟨some [1], true, false⟩)] := by
  decide +kernel

end PebbleDB.Sst
