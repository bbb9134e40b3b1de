import PebbleDB.Lib.Lists
import PebbleDB.Lib.Computation
import PebbleDB.Lib.Search
import PebbleDB.Sst.Bloom
import PebbleDB.Sst.Format

/-!
# Reading tables

`OpenReader` checks the footer and loads index and filter. A point lookup asks the
filter, searches the index for the first block whose last key is not below the
target and scans that block. `Stores` says which entries the blocks of a table hold,
`Holds` that the filter lets lookups through to all of them; a lookup is then
described by that list.
-/
namespace PebbleDB.Sst

/-- An open table: `fileID` tells readers apart, `id` is the number in the file name. -/
structure Reader where
  fileID : Nat
  id : UInt64
  file : Bytes
  index : List IndexEntry
  bloom : Option Filter
  fileClosed : Bool
  deriving DecidableEq, Repr

/-- The largest length of a slice; `make` panics beyond it. -/
def maxInt : Nat := 2 ^ 63 - 1

/-- `io.ReadFull` or `ReadAt` of `length` bytes at `offset`. -/
def readAt (file : Bytes) (offset length : Nat) (short : Error) : Except Error Bytes :=
  if (file.drop offset).length < length then .error short
  else .ok ((file.drop offset).take length)

/-- The range checks of `OpenReader` on the sections named by the footer. -/
def checkSections (footer : Footer) (dataEnd : Int) : Except Error Unit :=
  if toInt64 footer.indexOffset < 0 ∨
      dataEnd < toInt64 (footer.indexOffset + footer.indexLength) then .error .corruptIndex
  else if 0 < footer.bloomLength then
    if toInt64 footer.bloomOffset < 0 ∨
        dataEnd < toInt64 (footer.bloomOffset + footer.bloomLength) then .error .corruptBloom
    -- the filter must not reach into the index
    else if footer.bloomOffset < (footer.indexOffset + footer.indexLength) % 2 ^ 64 then
      .error .corruptBloom
    else .ok ()
  else .ok ()

def readBloom (file : Bytes) (footer : Footer) : Except Error (Option Filter) :=
  if 0 < footer.bloomLength then
    if maxInt < footer.bloomLength then .error .panic
    else do
      let bloomData ← readAt file footer.bloomOffset footer.bloomLength .eof
      match Filter.decode bloomData with
      | none => .error .corruptBloom
      | some filter => .ok (some filter)
  else .ok none

def openReader (fileID : Nat) (id : UInt64) (file : Bytes) : Except Error Reader := do
  let footer ← readFooter file
  checkSections footer (file.length - footerSize)
  if maxInt < footer.indexLength then .error .panic
  else
    let indexData ← readAt file footer.indexOffset footer.indexLength .unexpectedEOF
    let index ← decodeIndex indexData
    let bloom ← readBloom file footer
    .ok ⟨fileID, id, file, index, bloom, false⟩

theorem openReader_ok (fileID : Nat) (id : UInt64) (file : Bytes) (r : Reader)
    (opened : openReader fileID id file = .ok r) :
    r.fileID = fileID ∧ r.id = id ∧ r.file = file ∧ r.fileClosed = false := by
  obtain ⟨footer, _, opened⟩ := (Except.bind_eq_ok _ _ _).mp opened
  obtain ⟨_, _, opened⟩ := (Except.bind_eq_ok _ _ _).mp opened
  split at opened
  · cases opened
  · obtain ⟨indexData, _, opened⟩ := (Except.bind_eq_ok _ _ _).mp opened
    obtain ⟨index, _, opened⟩ := (Except.bind_eq_ok _ _ _).mp opened
    obtain ⟨bloom, _, opened⟩ := (Except.bind_eq_ok _ _ _).mp opened
    cases opened
    exact ⟨rfl, rfl, rfl, rfl⟩

/-- What `OpenReader` returns, for a file whose footer and index are known. -/
theorem openReader_index (file : Bytes) (footer : Footer) (index : List IndexEntry)
    (foot : readFooter file = .ok footer)
    (loaded : (readAt file footer.indexOffset footer.indexLength .unexpectedEOF >>= decodeIndex) =
      .ok index)
    (fileID : Nat) (id : UInt64) (r : Reader) (opened : openReader fileID id file = .ok r) :
    ∃ bloom, r = ⟨fileID, id, file, index, bloom, false⟩ := by
  obtain ⟨footer', same, opened⟩ := (Except.bind_eq_ok _ _ _).mp opened
  rw [foot] at same
  cases same
  obtain ⟨_, -, opened⟩ := (Except.bind_eq_ok _ _ _).mp opened
  split at opened
  · cases opened
  · obtain ⟨indexData, read, opened⟩ := (Except.bind_eq_ok _ _ _).mp opened
    obtain ⟨index', decoded, opened⟩ := (Except.bind_eq_ok _ _ _).mp opened
    obtain ⟨bloom, -, opened⟩ := (Except.bind_eq_ok _ _ _).mp opened
    rw [read, Except.ok_bind, decoded] at loaded
    cases loaded
    cases opened
    exact ⟨bloom, rfl⟩

namespace Reader

def readBlock (r : Reader) (offset length : Nat) : Except Error Bytes :=
  if r.fileClosed then .error .closed
  else if toInt64 offset < 0 then .error .seek
  else readAt r.file offset length .eof

/-- `readBlock` of a reader without a cache, for the block an index entry names. -/
def answer (r : Reader) (e : IndexEntry) : Except Error Bytes := r.readBlock e.offset e.length

def mayContain (r : Reader) (key : Bytes) : Bool :=
  match r.bloom with
  | none => true
  | some filter => filter.mayContain key

end Reader

/-- The results of `Reader.Get` besides its error. -/
structure Lookup where
  value : Slice
  found : Bool
  tombstone : Bool
  deriving DecidableEq, Repr

def Lookup.miss : Lookup := ⟨none, false, false⟩

/-- The loop of `Reader.Get` over one block. -/
def scanBlock (key : Bytes) : Nat → BlockIterator → Lookup
  | 0, _ => .miss
  | fuel + 1, it =>
    match it.next with
    | (_, false) => .miss
    | (it, true) =>
      if key = it.getKey.bytes then ⟨it.getValue, true, it.tombstone⟩
      -- the keys ascend, so the rest of the block is behind it
      else if key < it.getKey.bytes then .miss
      else scanBlock key fuel it

/-- The test that `Get` searches the index with. -/
def reaches (index : List IndexEntry) (key : Bytes) (i : Nat) : Bool :=
  match index[i]? with
  | none => false
  | some e => decide (key ≤ e.lastKey)

/-- A computation that asks for blocks, each by its place in the index and the entry there.
The code that reads blocks is written in this form; it runs from the file, from a file that
fails and through the block cache. -/
abbrev Asking (β : Type) : Type := Query.Prog (Nat × IndexEntry) (Except Error Bytes) β

def Reader.askGet (r : Reader) (key : Bytes) : Asking (Except Error Lookup) :=
  if r.mayContain key then
    let idx := Search.search r.index.length (reaches r.index key)
    match r.index[idx]? with
    | none => .done (.ok .miss)
    | some e => .ask (idx, e) fun answer => .done (do
      let blockData ← answer
      .ok (scanBlock key (blockData.length + 1) (.new blockData)))
  -- the filter is in memory: a miss there asks for nothing
  else .done (.ok .miss)

def Reader.get (r : Reader) (key : Bytes) : Except Error Lookup :=
  (r.askGet key).run fun block => r.answer block.2

/-! ### What a reader holds -/

def lastKeyOf (block : List Entry) : Bytes := ((block.getLast?).map Entry.key).getD []

/-- An index entry names a block: its last key, and where its bytes lie. -/
def Indexes (r : Reader) (ie : IndexEntry) (block : List Entry) : Prop :=
  block ≠ [] ∧ ie.lastKey = lastKeyOf block ∧
    r.readBlock ie.offset ie.length = .ok (blockBytes block)

/-- The blocks of the table, read through the index, are the given entries. -/
structure Reader.Stores (r : Reader) (es : List Entry) : Prop where
  ascending : Ascending es
  fits : ∀ e ∈ es, e.Fits
  blocks : ∃ blocks : List (List Entry), blocks.flatten = es ∧
    List.Forall₂ (Indexes r) r.index blocks

/-- The table stores the entries, and its filter excludes none of them. -/
structure Reader.Holds (r : Reader) (es : List Entry) : Prop extends r.Stores es where
  filter : ∀ e ∈ es, r.mayContain e.key = true

/-- What a lookup returns for the entry of its key. -/
def lookupOf : Option Entry → Lookup
  | none => .miss
  | some e => ⟨cloneBytes e.value, true, e.tombstone⟩

@[simp] theorem getKey_next (it : BlockIterator) (b : Bytes) (key : it.key = some b) :
    it.getKey = cloneBytes b := by
  rw [BlockIterator.getKey, key, Option.bind_some]

@[simp] theorem getValue_next (it : BlockIterator) (b : Bytes) (val : it.val = some b) :
    it.getValue = cloneBytes b := by
  rw [BlockIterator.getValue, val, Option.bind_some]

theorem scanBlock_eq (key : Bytes) (es : List Entry) (ascending : Ascending es)
    (fits : ∀ e ∈ es, e.Fits) (fuel : Nat) (it : BlockIterator) (rest : it.Remaining es)
    (enough : es.length < fuel) : scanBlock key fuel it = lookupOf (findEntry key es) := by
  induction es generalizing fuel it with
  | nil =>
    cases fuel with
    | zero => omega
    | succ fuel =>
      rw [scanBlock, it.next_end rest]
      rfl
  | cons e es ih =>
    obtain ⟨first, later⟩ := List.pairwise_cons.mp ascending
    cases fuel with
    | zero => omega
    | succ fuel =>
      have onward := it.next_remaining e es (fits e (by simp)) rest
      have step := it.next_entry e es (fits e (by simp)) rest
      rw [step] at onward
      rw [scanBlock, step]
      simp only
      rw [getKey_next _ e.key rfl, getValue_next _ e.value rfl, cloneBytes_bytes, findEntry_cons]
      by_cases same : key = e.key
      · rw [if_pos same, if_pos same.symm]
        rfl
      · rw [if_neg same, if_neg (Ne.symm same)]
        by_cases past : key < e.key
        · -- the block is sorted, so the key cannot come later
          have absent : findEntry key es = none := by
            rw [findEntry_eq_none]
            intro x member
            exact (past.trans (first x member)).ne'
          rw [if_pos past, absent]
          rfl
        · rw [if_neg past]
          exact ih later (fun x member => fits x (by simp [member])) fuel _ onward
            (by simpa using enough)

/-- Block boundaries of a sorted table: inside a block keys ascend, and all keys of a
block lie below those of the next. -/
theorem ascending_flatten (blocks : List (List Entry)) (ascending : Ascending blocks.flatten) :
    (∀ block ∈ blocks, Ascending block) ∧
      blocks.Pairwise fun a b => ∀ x ∈ a, ∀ y ∈ b, x.key < y.key :=
  List.pairwise_flatten.mp ascending

theorem le_lastKeyOf (block : List Entry) (ascending : Ascending block) (e : Entry)
    (member : e ∈ block) : e.key ≤ lastKeyOf block := by
  have nonempty : block ≠ [] := List.ne_nil_of_mem member
  rw [lastKeyOf, List.getLast?_eq_some_getLast nonempty, Option.map_some, Option.getD_some]
  obtain ⟨front, split⟩ : ∃ front, block = front ++ [block.getLast nonempty] :=
    ⟨block.dropLast, (List.dropLast_append_getLast nonempty).symm⟩
  rw [split] at ascending member
  rcases List.mem_append.mp member with early | last
  · have below := (List.pairwise_append.mp ascending).2.2 e early (block.getLast nonempty) (by simp)
    exact below.le
  · rw [List.mem_singleton] at last
    rw [← last]

theorem lastKeyOf_mem (block : List Entry) (nonempty : block ≠ []) :
    ∃ e ∈ block, e.key = lastKeyOf block := by
  refine ⟨block.getLast nonempty, List.getLast_mem nonempty, ?_⟩
  rw [lastKeyOf, List.getLast?_eq_some_getLast nonempty]
  rfl

/-- The position of a key among the blocks: everything before has only smaller keys,
everything after only larger ones. -/
theorem find_in_block (key : Bytes) (before after : List (List Entry)) (block : List Entry)
    (ascending : Ascending (before ++ block :: after).flatten)
    (nonempty : block ≠ []) (low : ∀ b ∈ before, lastKeyOf b < key) (high : key ≤ lastKeyOf block) :
    findEntry key (before ++ block :: after).flatten = findEntry key block := by
  obtain ⟨inner, across⟩ := ascending_flatten _ ascending
  obtain ⟨-, tail, -⟩ := List.pairwise_append.mp across
  obtain ⟨last, inBlock, lastKey⟩ := lastKeyOf_mem block nonempty
  have noneBefore : findEntry key before.flatten = none := by
    rw [findEntry_eq_none]
    intro e member
    obtain ⟨b, inside, inB⟩ := List.mem_flatten.mp member
    exact ((le_lastKeyOf b (inner b (by simp [inside])) e inB).trans_lt (low b inside)).ne
  have noneAfter : findEntry key after.flatten = none := by
    rw [findEntry_eq_none]
    intro e member
    obtain ⟨b, inside, inB⟩ := List.mem_flatten.mp member
    have above := (List.pairwise_cons.mp tail).1 b inside last inBlock e inB
    rw [lastKey] at above
    exact (high.trans_lt above).ne'
  rw [List.flatten_append, List.flatten_cons, findEntry_append, findEntry_append, noneBefore,
    noneAfter, Option.none_or, Option.or_none]

theorem search_index (key : Bytes) (before rest : List IndexEntry)
    (low : ∀ e ∈ before, e.lastKey < key) (high : ∀ e ∈ rest, key ≤ e.lastKey) :
    Search.search (before ++ rest).length (reaches (before ++ rest) key) = before.length := by
  have left (i : Nat) (small : i < before.length) : reaches (before ++ rest) key i = false := by
    rw [reaches, List.getElem?_append_left small, List.getElem?_eq_getElem small]
    simpa using low _ (List.getElem_mem small)
  have right (i : Nat) (large : before.length ≤ i) (inside : i < (before ++ rest).length) :
      reaches (before ++ rest) key i = true := by
    have inRest : i - before.length < rest.length := by
      rw [List.length_append] at inside
      omega
    rw [reaches, List.getElem?_append_right large, List.getElem?_eq_getElem inRest]
    simpa using high _ (List.getElem_mem inRest)
  apply Search.search_eq
  · rw [List.length_append]
    omega
  · intro a b ordered inside holds
    by_cases small : a < before.length
    · rw [left a small] at holds
      cases holds
    · exact right b (by omega) inside
  · exact left
  · exact right _ (Nat.le_refl _)

/-- The blocks that end below the key come first. -/
theorem split_blocks (key : Bytes) (blocks : List (List Entry)) :
    ∃ before rest, blocks = before ++ rest ∧ (∀ b ∈ before, lastKeyOf b < key) ∧
      ∀ block after, rest = block :: after → key ≤ lastKeyOf block := by
  induction blocks with
  | nil => exact ⟨[], [], rfl, by simp, by simp⟩
  | cons b blocks ih =>
    obtain ⟨before, rest, whole, low, high⟩ := ih
    by_cases below : lastKeyOf b < key
    · refine ⟨b :: before, rest, by rw [whole]; rfl, ?_, high⟩
      intro c member
      rcases List.mem_cons.mp member with rfl | inside
      · exact below
      · exact low c inside
    · refine ⟨[], b :: blocks, rfl, by simp, ?_⟩
      rintro block after ⟨rfl, rfl⟩
      exact not_lt.mp below

/-- The last keys of the blocks ascend. -/
theorem lastKeyOf_ascending (blocks : List (List Entry)) (ascending : Ascending blocks.flatten)
    (nonempty : ∀ b ∈ blocks, b ≠ []) :
    blocks.Pairwise fun a b => lastKeyOf a < lastKeyOf b := by
  obtain ⟨-, across⟩ := ascending_flatten _ ascending
  apply across.imp_of_mem
  intro a b inA inB below
  obtain ⟨x, memberX, keyX⟩ := lastKeyOf_mem a (nonempty a inA)
  obtain ⟨y, memberY, keyY⟩ := lastKeyOf_mem b (nonempty b inB)
  rw [← keyX, ← keyY]
  exact below x memberX y memberY

theorem length_le_blockBytes (es : List Entry) : es.length ≤ (blockBytes es).length := by
  induction es with
  | nil => exact Nat.zero_le _
  | cons e es ih =>
    rw [blockBytes_cons, List.length_append, e.encoded_length, List.length_cons]
    omega

/-- The search of the index stops at the first block that ends at the key or above it. -/
theorem search_blocks (r : Reader) (key : Bytes) (blocks : List (List Entry))
    (ascending : Ascending blocks.flatten) (layout : List.Forall₂ (Indexes r) r.index blocks) :
    ∃ before rest, blocks = before ++ rest ∧ (∀ b ∈ before, lastKeyOf b < key) ∧
      (∀ block after, rest = block :: after → key ≤ lastKeyOf block) ∧
      Search.search r.index.length (reaches r.index key) = before.length ∧
      List.Forall₂ (Indexes r) (r.index.drop before.length) rest := by
  have nonempty : ∀ block ∈ blocks, block ≠ [] := fun block member =>
    let ⟨_, _, indexed⟩ := layout.exists_left block member
    indexed.1
  have lasts := lastKeyOf_ascending blocks ascending nonempty
  obtain ⟨before, rest, rfl, low, high⟩ := split_blocks key blocks
  have front := List.forall₂_take_append _ _ _ layout
  have back := List.forall₂_drop_append _ _ _ layout
  have lowIndex : ∀ ie ∈ r.index.take before.length, ie.lastKey < key := by
    intro ie member
    obtain ⟨block, inside, indexed⟩ := front.exists_right ie member
    rw [indexed.2.1]
    exact low block inside
  have highIndex : ∀ ie ∈ r.index.drop before.length, key ≤ ie.lastKey := by
    intro ie member
    obtain ⟨block, inside, indexed⟩ := back.exists_right ie member
    rw [indexed.2.1]
    -- the first of these blocks reaches the key, and last keys ascend
    cases rest with
    | nil => cases inside
    | cons first after =>
      have start := high first after rfl
      rcases List.mem_cons.mp inside with rfl | later
      · exact start
      · have tail := (List.pairwise_append.mp lasts).2.1
        exact start.trans ((List.pairwise_cons.mp tail).1 block later).le
  have here := search_index key _ _ lowIndex highIndex
  rw [List.take_append_drop, front.length_eq] at here
  exact ⟨before, rest, rfl, low, high, here, back⟩

/-- `Get` returns the entry of the key, or a miss. -/
theorem Reader.Holds.get (r : Reader) (es : List Entry) (holds : r.Holds es) (key : Bytes) :
    r.get key = .ok (lookupOf (findEntry key es)) := by
  obtain ⟨⟨ascending, fits, blocks, rfl, layout⟩, filter⟩ := holds
  rw [Reader.get, Reader.askGet]
  split
  next =>
    obtain ⟨inner, across⟩ := ascending_flatten blocks ascending
    obtain ⟨before, rest, rfl, low, high, here, back⟩ := search_blocks r key blocks ascending layout
    simp only [here]
    cases rest with
    | nil =>
      rw [List.append_nil] at layout inner ⊢
      have absent : findEntry key before.flatten = none := by
        rw [findEntry_eq_none]
        intro e member
        obtain ⟨b, inside, inB⟩ := List.mem_flatten.mp member
        exact ((le_lastKeyOf b (inner b inside) e inB).trans_lt (low b inside)).ne
      rw [← layout.length_eq, List.getElem?_length, absent]
      rfl
    | cons block after =>
      obtain ⟨ie, tail, ⟨filled, -, bytes⟩, -, onward⟩ := List.forall₂_cons_right_iff.mp back
      have found : r.index[before.length]? = some ie := by
        rw [← List.head?_drop, onward, List.head?_cons]
      have inBlock : ∀ e ∈ block, e ∈ (before ++ block :: after).flatten :=
        fun e member => List.mem_flatten.mpr ⟨block, by simp, member⟩
      rw [found, find_in_block key before after block ascending filled low (high block after rfl)]
      simp only [Query.Prog.run, Reader.answer]
      rw [bytes, Except.ok_bind, scanBlock_eq key block (inner block (by simp))
        (fun e member => fits e (inBlock e member)) _ _ (BlockIterator.new_remaining block)
        (Nat.lt_succ_of_le (length_le_blockBytes block))]
  next excluded =>
    -- the filter has no false negatives
    have absent : findEntry key blocks.flatten = none := by
      rw [findEntry_eq_none]
      rintro e member rfl
      exact excluded (filter e member)
    rw [absent]
    rfl

end PebbleDB.Sst
