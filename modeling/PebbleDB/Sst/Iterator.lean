import PebbleDB.Iterator.Faults
import PebbleDB.Sst.Reader

/-!
# Walking a table

An iterator loads block after block through the index and hands out copies of the
entries. The read of a block may fail; `Ahead` says which entries an iterator has still to
visit, and the error it then meets. Without failures a new iterator yields exactly the
entries its table stores.
-/
namespace PebbleDB.Sst

/-- `nextBlock` is the `blockIdx + 1` of the source, where the index starts at -1. -/
structure Iterator where
  reader : Reader
  nextBlock : Nat
  blockIt : Option BlockIterator
  key : Slice
  value : Slice
  tombstone : Bool
  valid : Bool
  err : Option Error

/-- The error that `readBlock` returns for a block, by the block's place in the index. -/
abbrev BlockFaults := Nat → Option Error

def noFaults : BlockFaults := fun _ => none

def Reader.readBlockWith (r : Reader) (faults : BlockFaults) (block : Nat × IndexEntry) :
    Except Error Bytes :=
  match faults block.1 with
  | some e => .error e
  | none => r.answer block.2

namespace Iterator

/-- An iterator that has read nothing. -/
def start (r : Reader) : Iterator := ⟨r, 0, none, none, none, false, false, none⟩

/-- The loop of `advance`; every round but the last moves on to another block. -/
def advanceFrom : Nat → Iterator → Asking Iterator
  | 0, it => .done it
  | fuel + 1, it =>
    match it.blockIt.map BlockIterator.next with
    | some (blockIt, true) =>
      .done { it with
        blockIt := some blockIt
        key := blockIt.getKey
        value := blockIt.getValue
        tombstone := blockIt.tombstone
        valid := true }
    -- no block so far, or the current one is at its end
    | stopped =>
      let it := { it with blockIt := stopped.map Prod.fst, nextBlock := it.nextBlock + 1 }
      match it.reader.index[it.nextBlock - 1]? with
      | none => .done { it with valid := false }
      | some entry => .ask (it.nextBlock - 1, entry) fun
        | .error e => .done { it with err := some e, valid := false }
        | .ok blockData => advanceFrom fuel { it with blockIt := some (.new blockData) }

def askAdvance (it : Iterator) : Asking Iterator := advanceFrom (it.reader.index.length + 2) it

def askNext (it : Iterator) : Asking Iterator := if it.valid then it.askAdvance else .done it

def advanceWith (faults : BlockFaults) (it : Iterator) : Iterator :=
  it.askAdvance.run (it.reader.readBlockWith faults)

def nextWith (faults : BlockFaults) (it : Iterator) : Iterator :=
  it.askNext.run (it.reader.readBlockWith faults)

def advance (it : Iterator) : Iterator := it.advanceWith noFaults

def next (it : Iterator) : Iterator := it.nextWith noFaults

/-- `Key`, a copy. -/
def getKey (it : Iterator) : Slice := it.key.bind cloneBytes

/-- `Value`, a copy. -/
def getValue (it : Iterator) : Slice := it.value.bind cloneBytes

/-- `iterAdapter`: `Next` also returns the error of the iterator. -/
def adapter : Iterator.Interface Iterator Error where
  valid := valid
  key := getKey
  value := getValue
  isTombstone := tombstone
  next := fun it => (it.next, it.next.err)

end Iterator

/-- An iterator whose reads may fail. -/
structure FaultyIterator where
  it : Iterator
  faults : BlockFaults

def FaultyIterator.next (f : FaultyIterator) : FaultyIterator := ⟨f.it.nextWith f.faults, f.faults⟩

/-- `iterAdapter`. -/
def FaultyIterator.adapter : Iterator.Interface FaultyIterator Error where
  valid := fun f => f.it.valid
  key := fun f => f.it.getKey
  value := fun f => f.it.getValue
  isTombstone := fun f => f.it.tombstone
  next := fun f => (f.next, f.next.it.err)

/-- `NewIterator`. -/
def Reader.askIterator (r : Reader) : Asking Iterator :=
  (Iterator.start r).askAdvance

def Reader.newIteratorWith (r : Reader) (faults : BlockFaults) : FaultyIterator :=
  ⟨r.askIterator.run (r.readBlockWith faults), faults⟩

def Reader.newIterator (r : Reader) : Iterator := (r.newIteratorWith noFaults).it

/-- A bound on the entries an iterator can visit: every block lies in the file. -/
def Reader.maxEntries (r : Reader) : Nat := r.index.length * r.file.length

/-- The loop of `EntryCount`. -/
def countEntries : Nat → FaultyIterator → Nat → Except Error Nat
  | 0, _, n => .ok n
  | fuel + 1, f, n =>
    if f.it.valid then
      match f.next.it.err with
      | some e => .error e
      | none => countEntries fuel f.next (n + 1)
    else .ok n

def Reader.entryCountWith (r : Reader) (faults : BlockFaults) : Except Error Nat :=
  countEntries (r.maxEntries + 1) (r.newIteratorWith faults) 0

/-- The entries of the blocks before the first failing one, and its error. -/
def served (faults : BlockFaults) : Nat → List (List Entry) → List Entry × Option Error
  | _, [] => ([], none)
  | i, block :: blocks =>
    match faults i with
    | some e => ([], some e)
    | none => (block ++ (served faults (i + 1) blocks).1, (served faults (i + 1) blocks).2)

theorem served_noFaults (i : Nat) (blocks : List (List Entry)) :
    served noFaults i blocks = (blocks.flatten, none) := by
  induction blocks generalizing i with
  | nil => rfl
  | cons block blocks ih =>
    rw [served, ih]
    rfl

namespace Iterator

/-- The rest of the current block and the blocks behind it hold the given entries, up to the
first block that cannot be read; `fault` is the error it fails with. -/
def Ahead (faults : BlockFaults) (it : Iterator) (es : List Entry) (fault : Option Error) : Prop :=
  it.err = none ∧ ∃ rest blocks, es = rest ++ (served faults it.nextBlock blocks).1 ∧
    fault = (served faults it.nextBlock blocks).2 ∧
    (match it.blockIt with
      | none => rest = []
      | some blockIt => blockIt.Remaining rest) ∧
    List.Forall₂ (Indexes it.reader) (it.reader.index.drop it.nextBlock) blocks

theorem ahead_noFaults (it : Iterator) (rest : List Entry) (blocks : List (List Entry))
    (clean : it.err = none)
    (current : match it.blockIt with
      | none => rest = []
      | some blockIt => blockIt.Remaining rest)
    (layout : List.Forall₂ (Indexes it.reader) (it.reader.index.drop it.nextBlock) blocks) :
    it.Ahead noFaults (rest ++ blocks.flatten) none :=
  ⟨clean, rest, blocks, by rw [served_noFaults], by rw [served_noFaults], current, layout⟩

/-- The state of the loop when the current block has nothing left. -/
theorem blockIt_end (blockIt : Option BlockIterator)
    (done : match blockIt with
      | none => ([] : List Entry) = []
      | some blockIt => blockIt.Remaining []) :
    blockIt.map BlockIterator.next = blockIt.map fun b => (b, false) := by
  cases blockIt with
  | none => rfl
  | some b => rw [Option.map_some, Option.map_some, b.next_end done]

variable (faults : BlockFaults)

/-- Stepping inside a block. -/
theorem advanceFrom_block (fuel : Nat) (it : Iterator) (b : BlockIterator) (e : Entry)
    (rest : List Entry) (fits : e.Fits) (here : it.blockIt = some b)
    (remaining : b.Remaining (e :: rest)) :
    advanceFrom (fuel + 1) it = .done { it with
      blockIt := some b.next.1
      key := cloneBytes e.key
      value := cloneBytes e.value
      tombstone := e.tombstone
      valid := true } := by
  rw [advanceFrom, here, Option.map_some, b.next_entry e rest fits remaining]
  rfl

/-- Moving on to the next block. -/
theorem advanceFrom_load (fuel : Nat) (it : Iterator) (ie : IndexEntry) (data : Bytes)
    (done : it.blockIt.map BlockIterator.next = it.blockIt.map fun b => (b, false))
    (entry : it.reader.index[it.nextBlock]? = some ie) (readable : faults it.nextBlock = none)
    (read : it.reader.readBlock ie.offset ie.length = .ok data) :
    (advanceFrom (fuel + 1) it).run (it.reader.readBlockWith faults) =
      (advanceFrom fuel { it with nextBlock := it.nextBlock + 1, blockIt := some (.new data) }).run
        (it.reader.readBlockWith faults) := by
  rw [advanceFrom, done]
  cases it.blockIt with
  | none =>
    simp only [Option.map_none, Nat.add_sub_cancel, entry, Query.Prog.run, Reader.readBlockWith,
      readable, Reader.answer, read]
  | some b =>
    simp only [Option.map_some, Nat.add_sub_cancel, entry, Query.Prog.run, Reader.readBlockWith,
      readable, Reader.answer, read]

/-- The end of the table, or a block that cannot be read. -/
theorem advanceFrom_stop (fuel : Nat) (it : Iterator)
    (done : it.blockIt.map BlockIterator.next = it.blockIt.map fun b => (b, false))
    (noErr : it.err = none) (fault : Option Error)
    (stop : match it.reader.index[it.nextBlock]? with
      | none => fault = none
      | some _ => fault = faults it.nextBlock ∧ fault ≠ none) :
    ((advanceFrom (fuel + 1) it).run (it.reader.readBlockWith faults)).valid = false ∧
      ((advanceFrom (fuel + 1) it).run (it.reader.readBlockWith faults)).err = fault := by
  rw [advanceFrom, done]
  cases entry : it.reader.index[it.nextBlock]? with
  | none =>
    rw [entry] at stop
    subst stop
    cases it.blockIt with
    | none => simp only [Option.map_none, Nat.add_sub_cancel, entry, Query.Prog.run, noErr, and_self]
    | some b => simp only [Option.map_some, Nat.add_sub_cancel, entry, Query.Prog.run, noErr, and_self]
  | some ie =>
    rw [entry] at stop
    obtain ⟨same, failing⟩ := stop
    obtain ⟨e, rfl⟩ := Option.ne_none_iff_exists'.mp failing
    cases it.blockIt with
    | none =>
      simp only [Option.map_none, Nat.add_sub_cancel, entry, Query.Prog.run, Reader.readBlockWith,
        ← same, and_self]
    | some b =>
      simp only [Option.map_some, Nat.add_sub_cancel, entry, Query.Prog.run, Reader.readBlockWith,
        ← same, and_self]

theorem advanceWith_entry (it : Iterator) (e : Entry) (es : List Entry) (fault : Option Error)
    (fits : e.Fits) (ahead : it.Ahead faults (e :: es) fault) :
    (it.advanceWith faults).valid = true ∧ (it.advanceWith faults).key = cloneBytes e.key ∧
      (it.advanceWith faults).value = cloneBytes e.value ∧
      (it.advanceWith faults).tombstone = e.tombstone ∧
      (it.advanceWith faults).Ahead faults es fault := by
  obtain ⟨noErr, rest, blocks, whole, rfl, current, layout⟩ := ahead
  cases rest with
  | cons e' rest =>
    obtain ⟨rfl, rfl⟩ := List.cons.inj whole
    cases here : it.blockIt with
    | none =>
      rw [here] at current
      cases current
    | some b =>
      rw [here] at current
      rw [advanceWith, askAdvance, advanceFrom_block _ it b e rest fits here current]
      exact ⟨rfl, rfl, rfl, rfl, noErr, rest, blocks, rfl, rfl,
        b.next_remaining e rest fits current, layout⟩
  | nil =>
    have done := blockIt_end it.blockIt current
    -- something is served from the blocks ahead, so there is one and it can be read
    cases blocks with
    | nil => cases whole
    | cons first more =>
      obtain ⟨ie, onward, ⟨filled, -, read⟩, later, split⟩ := List.forall₂_cons_right_iff.mp layout
      obtain ⟨e', inner, rfl⟩ := List.exists_cons_of_ne_nil filled
      have entry : it.reader.index[it.nextBlock]? = some ie := by
        rw [← List.head?_drop, split, List.head?_cons]
      have behind : it.reader.index.drop (it.nextBlock + 1) = onward := by
        rw [← List.tail_drop, split, List.tail_cons]
      rw [served] at whole ⊢
      cases readable : faults it.nextBlock with
      | some err =>
        rw [readable] at whole
        cases whole
      | none =>
        rw [readable] at whole
        obtain ⟨rfl, rfl⟩ := List.cons.inj whole
        have fresh := BlockIterator.new_remaining (e :: inner)
        rw [advanceWith, askAdvance, advanceFrom_load faults _ it ie _ done entry readable read,
          advanceFrom_block _ _ _ e inner fits rfl fresh]
        refine ⟨rfl, rfl, rfl, rfl, noErr, inner, more, rfl, rfl, ?_, ?_⟩
        · exact BlockIterator.next_remaining _ e inner fits fresh
        · show List.Forall₂ _ (it.reader.index.drop (it.nextBlock + 1)) more
          rw [behind]
          exact later

theorem advanceWith_end (it : Iterator) (fault : Option Error) (ahead : it.Ahead faults [] fault) :
    (it.advanceWith faults).valid = false ∧ (it.advanceWith faults).err = fault := by
  obtain ⟨noErr, rest, blocks, whole, rfl, current, layout⟩ := ahead
  obtain ⟨rfl, nothing⟩ := List.append_eq_nil_iff.mp whole.symm
  apply advanceFrom_stop faults _ it (blockIt_end it.blockIt current) noErr
  cases blocks with
  | nil =>
    rw [← List.head?_drop, List.forall₂_nil_right_iff.mp layout, List.head?_nil]
    rfl
  | cons first more =>
    obtain ⟨ie, onward, ⟨filled, -, -⟩, -, split⟩ := List.forall₂_cons_right_iff.mp layout
    rw [← List.head?_drop, split, List.head?_cons]
    rw [served] at nothing ⊢
    cases failing : faults it.nextBlock with
    | some e => simp
    | none =>
      -- a block that can be read has entries to serve
      rw [failing] at nothing
      exact absurd (List.append_eq_nil_iff.mp nothing).1 filled

/-- The error of an advance: the fault, if no entry is left before it. -/
theorem advanceWith_err (it : Iterator) (es : List Entry) (fault : Option Error)
    (fits : ∀ e ∈ es, e.Fits) (ahead : it.Ahead faults es fault) :
    (it.advanceWith faults).err = if es = [] then fault else none := by
  cases es with
  | nil => exact (advanceWith_end faults it fault ahead).2
  | cons e es => exact (advanceWith_entry faults it e es fault (fits e (by simp)) ahead).2.2.2.2.1

/-- A copy of a copy. -/
theorem cloneBytes_bind (b : Bytes) : (cloneBytes b).bind cloneBytes = cloneBytes b := by
  cases b <;> rfl

/-- An iterator that stands on an entry serves it and then what an advance leads to. -/
theorem serves_cons (it : Iterator) (e : Entry) (es : List Entry) (fault : Option Error)
    (fits : ∀ x ∈ es, x.Fits) (valid : it.valid = true) (key : it.key = cloneBytes e.key)
    (value : it.value = cloneBytes e.value) (tombstone : it.tombstone = e.tombstone)
    (ahead : it.Ahead faults es fault)
    (later : Iterator.Serves FaultyIterator.adapter fault ⟨it.advanceWith faults, faults⟩ es) :
    Iterator.Serves FaultyIterator.adapter fault ⟨it, faults⟩ (e :: es) := by
  have step : (FaultyIterator.mk it faults).next = ⟨it.advanceWith faults, faults⟩ := by
    rw [FaultyIterator.next, nextWith, askNext, if_pos valid, advanceWith]
  have shown : it.getKey = cloneBytes e.key := by rw [getKey, key, cloneBytes_bind]
  have shown' : it.getValue = cloneBytes e.value := by rw [getValue, value, cloneBytes_bind]
  refine ⟨valid, shown, Prod.ext shown shown', tombstone, ?_, ?_⟩
  · simp only [FaultyIterator.adapter, step]
    exact advanceWith_err faults it es fault fits ahead
  · simp only [FaultyIterator.adapter, step]
    exact later

theorem advanceWith_serves (es : List Entry) (fits : ∀ e ∈ es, e.Fits) (fault : Option Error)
    (it : Iterator) (ahead : it.Ahead faults es fault) :
    Iterator.Serves FaultyIterator.adapter fault ⟨it.advanceWith faults, faults⟩ es := by
  induction es generalizing it with
  | nil => exact (advanceWith_end faults it fault ahead).1
  | cons e es ih =>
    obtain ⟨valid, key, value, tombstone, onward⟩ :=
      advanceWith_entry faults it e es fault (fits e (by simp)) ahead
    have fitsLater : ∀ x ∈ es, x.Fits := fun x member => fits x (by simp [member])
    exact serves_cons faults _ e es fault fitsLater valid key value tombstone onward
      (ih fitsLater _ onward)

/-! ### Without failures -/

/-- What an iterator serves without failures it yields. -/
theorem yields_of_serves (it : Iterator) (es : List Entry)
    (serves : Iterator.Serves FaultyIterator.adapter none ⟨it, noFaults⟩ es) :
    Iterator.Yields adapter it es := by
  induction es generalizing it with
  | nil => exact serves
  | cons e es ih =>
    obtain ⟨valid, key, kept, tombstone, noErr, later⟩ := serves
    rw [ite_self] at noErr
    exact ⟨valid, key, kept, tombstone, noErr, ih _ later⟩

theorem advance_err (it : Iterator) (es : List Entry) (fits : ∀ e ∈ es, e.Fits)
    (ahead : it.Ahead noFaults es none) : it.advance.err = none :=
  (advanceWith_err noFaults it es none fits ahead).trans (ite_self _)

theorem advance_yields (es : List Entry) (fits : ∀ e ∈ es, e.Fits) (it : Iterator)
    (ahead : it.Ahead noFaults es none) : Iterator.Yields adapter it.advance es :=
  yields_of_serves _ es (advanceWith_serves noFaults es fits none it ahead)

/-- The merge never gets an empty slice from a table: copies of nothing are nil. -/
theorem adapter_key (it : Iterator) : adapter.key it ≠ some [] := by
  show it.getKey ≠ some []
  rw [getKey]
  cases it.key with
  | none => simp
  | some b => cases b <;> simp [cloneBytes]

end Iterator

/-- A new iterator serves what the table stores. -/
theorem Reader.Stores.serves (r : Reader) (es : List Entry) (stores : r.Stores es) :
    Iterator.Serves FaultyIterator.adapter none (r.newIteratorWith noFaults) es := by
  obtain ⟨-, fits, blocks, rfl, layout⟩ := stores
  exact Iterator.advanceWith_serves noFaults _ fits none _
    (Iterator.ahead_noFaults (.start r) [] blocks rfl rfl layout)

theorem Reader.Stores.yields (r : Reader) (es : List Entry) (stores : r.Stores es) :
    Iterator.Yields Iterator.adapter r.newIterator es :=
  Iterator.yields_of_serves _ es (stores.serves r es)

/-- What an iterator yields is determined. -/
theorem yields_unique (it : Iterator) (es fs : List Entry)
    (left : Iterator.Yields Iterator.adapter it es) (right : Iterator.Yields Iterator.adapter it fs) :
    es = fs := by
  induction es generalizing it fs with
  | nil =>
    cases fs with
    | nil => rfl
    | cons f fs => simp [Iterator.Yields, right.1] at left
  | cons e es ih =>
    cases fs with
    | nil => simp [Iterator.Yields, left.1] at right
    | cons f fs =>
      obtain ⟨-, key, kept, tombstone, -, later⟩ := left
      obtain ⟨-, key', kept', tombstone', -, later'⟩ := right
      have keys : e.key = f.key := by
        rw [← cloneBytes_bytes e.key, ← key, key', cloneBytes_bytes]
      have values : e.value = f.value := by
        rw [← cloneBytes_bytes e.value, (Prod.mk.inj (kept.symm.trans kept')).2, cloneBytes_bytes]
      have heads : e = f := by
        cases e
        cases f
        simp_all
      rw [heads, ih _ fs later later']

theorem Reader.Stores.unique (r : Reader) (es fs : List Entry) (left : r.Stores es)
    (right : r.Stores fs) : es = fs :=
  yields_unique r.newIterator es fs (left.yields r es) (right.yields r fs)

/-! ### The count -/

/-- The fault as callers of `Next` see it: not at all when nothing is served before it. -/
def reported (part : List Entry) (fault : Option Error) : Option Error :=
  if part = [] then none else fault

/-- The count stops at the fault, if the iterator gets to an entry at all. -/
theorem countEntries_serves (es : List Entry) (fault : Option Error) (fuel : Nat)
    (f : FaultyIterator) (n : Nat) (serves : Iterator.Serves FaultyIterator.adapter fault f es)
    (enough : es.length < fuel) :
    countEntries fuel f n =
      match reported es fault with
      | some e => .error e
      | none => .ok (n + es.length) := by
  induction es generalizing fuel f n with
  | nil =>
    cases fuel with
    | zero => omega
    | succ fuel =>
      have invalid : f.it.valid = false := serves
      simp [countEntries, invalid, reported]
  | cons e es ih =>
    cases fuel with
    | zero => omega
    | succ fuel =>
      obtain ⟨valid, -, -, -, next, later⟩ := serves
      have valid' : f.it.valid = true := valid
      have next' : f.next.it.err = if es = [] then fault else none := next
      have onward := ih fuel f.next (n + 1) later (by simpa using enough)
      rw [countEntries, if_pos valid', next', reported, if_neg (List.cons_ne_nil e es)]
      by_cases last : es = []
      · -- the fault is that of the last entry's `Next`
        subst last
        cases fault with
        | some err => rfl
        | none => exact onward
      · rw [reported, if_neg last] at onward
        rw [if_neg last]
        simp only
        rw [onward]
        cases fault with
        | some err => rfl
        | none =>
          simp only [List.length_cons]
          congr 1
          omega

theorem readBlock_length (r : Reader) (offset length : Nat) (data : Bytes)
    (read : r.readBlock offset length = .ok data) : data.length ≤ r.file.length := by
  rw [Reader.readBlock] at read
  split at read
  · cases read
  · split at read
    · cases read
    · rw [readAt] at read
      split at read
      · cases read
      · cases read
        rw [List.length_take, List.length_drop]
        omega

theorem Reader.Stores.length_le (r : Reader) (es : List Entry) (stores : r.Stores es) :
    es.length ≤ r.maxEntries := by
  obtain ⟨-, -, blocks, rfl, layout⟩ := stores
  rw [Reader.maxEntries]
  generalize r.index = index at layout
  induction layout with
  | nil => simp
  | @cons _ block _ _ first _ ih =>
    have inBlock := length_le_blockBytes block
    have inFile := readBlock_length r _ _ _ first.2.2
    rw [List.flatten_cons, List.length_append, List.length_cons, Nat.add_mul, Nat.one_mul]
    omega

end PebbleDB.Sst
