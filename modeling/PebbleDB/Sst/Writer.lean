import PebbleDB.Sst.Reader

/-!
# Writing tables

Entries are collected in a block until the next one would exceed the block size; a
full block goes to the file and into the index. `Close` appends index, filter and
footer. The only failure of the file system in this module is a file that outgrows
the largest offset.
-/
namespace PebbleDB.Sst

/-- The floating-point formulas behind the size of a filter, by expected entries. -/
structure Sizing where
  bits : Nat → Nat
  hashes : Nat → Nat

/-- The filter for `n` entries has at least one bit, and its size fits 32 bits. -/
structure Sizing.Fits (sizing : Sizing) (n : Nat) : Prop where
  positive : 0 < sizing.bits n
  small : (sizing.bits n + 7) / 8 * 8 < 2 ^ 32

structure Writer where
  file : Bytes
  blockSize : Int
  current : Bytes
  index : List IndexEntry
  bloom : Filter
  lastKey : Slice
  offset : Nat
  deriving DecidableEq, Repr

def newWriter (sizing : Sizing) (blockSize : Int) (expectedEntries : Nat) : Except Error Writer :=
  if blockSize ≤ 0 then .error .invalidBlockSize
  else
    let expectedEntries := if expectedEntries < 1 then 1 else expectedEntries
    .ok ⟨[], blockSize, [], [], .new (sizing.bits expectedEntries) (sizing.hashes expectedEntries),
      none, 0⟩

/-- `file.Write`. -/
def writeFile (file data : Bytes) : Except Error Bytes :=
  if maxInt < file.length + data.length then .error .fileTooLarge else .ok (file ++ data)

namespace Writer

def flushBlock (w : Writer) : Except Error Writer :=
  if w.current.length = 0 then .ok w
  else do
    let file ← writeFile w.file w.current
    .ok { w with
      file := file
      index := w.index ++ [⟨w.lastKey.bytes, w.offset, w.current.length⟩]
      offset := (w.offset + w.current.length) % 2 ^ 64
      current := [] }

/-- `Add` starts a new block when the entry does not fit the current one. -/
def makeRoom (w : Writer) (entrySize : Nat) : Except Error Writer :=
  if w.blockSize < w.current.length + entrySize ∧ 0 < w.current.length then w.flushBlock else .ok w

/-- `Close` writes the last block. -/
def flushLast (w : Writer) : Except Error Writer :=
  if 0 < w.current.length then w.flushBlock else .ok w

/-- What a failed `Add` leaves behind is removed with the file by every caller. -/
def add (w : Writer) (key value : Slice) (tombstone : Bool) : Except Error Writer :=
  -- an empty key leaves `lastKey` nil, and the next key is not compared with it
  if w.lastKey ≠ none ∧ key.bytes ≤ w.lastKey.bytes then .error .keyOutOfOrder
  else do
    let w ← w.makeRoom (4 + key.bytes.length + 4 + value.bytes.length + 1)
    let current ← appendEntry w.current ⟨key.bytes, value.bytes, tombstone⟩
    .ok { w with
      current := current
      bloom := w.bloom.add key.bytes
      lastKey := cloneBytes key.bytes }

/-- The content of the finished file. -/
def close (w : Writer) : Except Error Bytes := do
  let w ← w.flushLast
  let indexData := encodeIndex w.index
  let indexOffset := w.offset
  let file ← writeFile w.file indexData
  let bloomData := w.bloom.encode
  let bloomOffset := (indexOffset + indexData.length) % 2 ^ 64
  let file ← writeFile file bloomData
  let footer : Footer := ⟨indexOffset, indexData.length, bloomOffset, bloomData.length,
    currentVersion, magicNumber⟩
  writeFile file footer.encode

/-- The loop of a caller that adds entries one by one. -/
def addAll : Writer → List Entry → Except Error Writer
  | w, [] => .ok w
  | w, e :: es => do
    let w ← w.add (cloneBytes e.key) (cloneBytes e.value) e.tombstone
    addAll w es

end Writer

/-- The whole life of a writer. -/
def writeTable (sizing : Sizing) (blockSize : Int) (expectedEntries : Nat) (es : List Entry) :
    Except Error Bytes := do
  let w ← newWriter sizing blockSize expectedEntries
  let w ← w.addAll es
  w.close

/-! ### The layout of a table -/

/-- The index of blocks that lie one behind the other from an offset on. -/
def indexFrom : Nat → List (List Entry) → List IndexEntry
  | _, [] => []
  | offset, block :: blocks =>
    ⟨lastKeyOf block, offset, (blockBytes block).length⟩ ::
      indexFrom (offset + (blockBytes block).length) blocks

def dataOf (blocks : List (List Entry)) : Bytes := blocks.flatMap blockBytes

/-- A whole table. -/
def tableFile (blocks : List (List Entry)) (filter : Filter) : Bytes :=
  let data := dataOf blocks
  let indexData := encodeIndex (indexFrom 0 blocks)
  let footer : Footer := ⟨data.length, indexData.length, data.length + indexData.length,
    filter.encode.length, currentVersion, magicNumber⟩
  data ++ indexData ++ filter.encode ++ footer.encode

/-- The reader of a whole table. -/
def readerOf (fileID : Nat) (id : UInt64) (blocks : List (List Entry)) (filter : Filter) : Reader :=
  ⟨fileID, id, tableFile blocks filter, indexFrom 0 blocks, some filter, false⟩

theorem indexFrom_append (offset : Nat) (blocks more : List (List Entry)) :
    indexFrom offset (blocks ++ more) =
      indexFrom offset blocks ++ indexFrom (offset + (dataOf blocks).length) more := by
  induction blocks generalizing offset with
  | nil => rfl
  | cons block blocks ih =>
    rw [List.cons_append, indexFrom, indexFrom, ih, List.cons_append, dataOf, dataOf,
      List.flatMap_cons, List.length_append, Nat.add_assoc]

theorem dataOf_append (blocks more : List (List Entry)) :
    dataOf (blocks ++ more) = dataOf blocks ++ dataOf more := List.flatMap_append

/-- The blocks are the entries one behind the other. -/
theorem dataOf_eq (blocks : List (List Entry)) : dataOf blocks = blockBytes blocks.flatten := by
  induction blocks with
  | nil => rfl
  | cons block blocks ih =>
    rw [List.flatten_cons, blockBytes_append, ← ih, dataOf, List.flatMap_cons, dataOf]

/-- A bound on the length of the table, whatever the blocks: every entry may end one. -/
def tableBytes (filter : Filter) (es : List Entry) : Nat :=
  (blockBytes es).length + (es.map fun e => 20 + e.key.length).sum + filter.encode.length +
    footerSize

/-- The writer has taken the entries: whole blocks in the file, the rest collected. -/
structure Writer.Took (w : Writer) (start : Filter) (blocks : List (List Entry))
    (tail : List Entry) : Prop where
  ascending : Ascending (blocks.flatten ++ tail)
  fits : ∀ e ∈ blocks.flatten ++ tail, e.Fits
  nonempty : ∀ block ∈ blocks, block ≠ []
  file : w.file = dataOf blocks
  small : w.file.length ≤ maxInt
  current : w.current = blockBytes tail
  index : w.index = indexFrom 0 blocks
  offset : w.offset = w.file.length
  lastKey : w.lastKey = cloneBytes (lastKeyOf (blocks.flatten ++ tail))
  bloom : w.bloom = (blocks.flatten ++ tail).foldl (fun f e => f.add e.key) start

/-- The same without the block boundaries. -/
def Writer.Has (w : Writer) (start : Filter) (es : List Entry) : Prop :=
  ∃ blocks tail, es = blocks.flatten ++ tail ∧ w.Took start blocks tail

theorem empty_lt (b : Bytes) (nonempty : b ≠ []) : ([] : Bytes) < b := by
  cases b with
  | nil => exact absurd rfl nonempty
  | cons x xs => exact List.nil_lt_cons x xs

/-- The index names one key of every block. -/
theorem encodeIndex_indexFrom_le (blocks : List (List Entry)) (offset : Nat)
    (nonempty : ∀ block ∈ blocks, block ≠ []) :
    (encodeIndex (indexFrom offset blocks)).length ≤
      (blocks.flatten.map fun e => 20 + e.key.length).sum := by
  induction blocks generalizing offset with
  | nil => simp [indexFrom, encodeIndex]
  | cons block blocks ih =>
    obtain ⟨e, inside, key⟩ := lastKeyOf_mem block (nonempty block (by simp))
    have named : 20 + e.key.length ≤ (block.map fun e => 20 + e.key.length).sum :=
      List.single_le_sum (by simp) _ (List.mem_map_of_mem inside)
    have later := ih (offset + (blockBytes block).length) fun b member => nonempty b (by simp [member])
    rw [indexFrom, encodeIndex, List.flatMap_cons, List.length_append, IndexEntry.encoded_length,
      ← encodeIndex, List.flatten_cons, List.map_append, List.sum_append]
    show 20 + (lastKeyOf block).length + _ ≤ _
    rw [← key]
    omega

theorem lastKeyOf_append (front tail : List Entry) (nonempty : tail ≠ []) :
    lastKeyOf (front ++ tail) = lastKeyOf tail := by
  rw [lastKeyOf, lastKeyOf, List.getLast?_append_of_ne_nil front nonempty]

theorem writeFile_cases (file data : Bytes) :
    writeFile file data = .error .fileTooLarge ∧ maxInt < (file ++ data).length ∨
      writeFile file data = .ok (file ++ data) ∧ (file ++ data).length ≤ maxInt := by
  rw [writeFile, List.length_append]
  split
  next outgrown => exact .inl ⟨rfl, outgrown⟩
  next fits => exact .inr ⟨rfl, not_lt.mp fits⟩

/-- A new writer, whatever its filter, has taken nothing. -/
theorem newWriter_has (sizing : Sizing) (blockSize : Int) (expectedEntries : Nat) (w : Writer)
    (created : newWriter sizing blockSize expectedEntries = .ok w) (filter : Filter) :
    ({ w with bloom := filter } : Writer).Has filter [] := by
  rw [newWriter] at created
  split at created
  · cases created
  · cases created
    refine ⟨[], [], rfl, ?_⟩
    constructor
    · exact List.Pairwise.nil
    · simp
    · simp
    · rfl
    · exact Nat.zero_le _
    · rfl
    · rfl
    · rfl
    · rfl
    · rfl

namespace Writer

theorem Took.flushBlock (w : Writer) (start : Filter) (blocks : List (List Entry))
    (tail : List Entry) (took : w.Took start blocks tail) (some_ : tail ≠ []) :
    w.flushBlock = .error .fileTooLarge ∧ maxInt < (blockBytes (blocks.flatten ++ tail)).length ∨
      ∃ w', w.flushBlock = .ok w' ∧ w'.Took start (blocks ++ [tail]) [] := by
  obtain ⟨ascending, fits, nonempty, file, small, current, index, offset, lastKey, bloom⟩ := took
  have filled : w.current.length ≠ 0 := by
    rw [current, List.length_eq_zero_iff.ne]
    exact blockBytes_ne_nil tail some_
  have same : (blocks ++ [tail]).flatten ++ [] = blocks.flatten ++ tail := by simp
  rw [Writer.flushBlock, if_neg filled]
  rcases writeFile_cases w.file w.current with ⟨tooLarge, outgrown⟩ | ⟨written, fitsFile⟩
  · left
    rw [file, current, dataOf_eq, ← blockBytes_append] at outgrown
    rw [tooLarge, Except.error_bind]
    exact ⟨rfl, outgrown⟩
  · right
    rw [written, Except.ok_bind]
    refine ⟨_, rfl, ?_⟩
    constructor
    · rwa [same]
    · rwa [same]
    · intro block member
      rcases List.mem_append.mp member with old | new
      · exact nonempty block old
      · rw [List.mem_singleton.mp new]
        exact some_
    · rw [dataOf_append, file, current, dataOf, dataOf, List.flatMap_singleton]
    · exact fitsFile
    · rfl
    · show w.index ++ [_] = _
      rw [indexFrom_append, index, lastKey, cloneBytes_bytes, lastKeyOf_append _ _ some_, offset,
        file, current, Nat.zero_add]
      rfl
    · -- no wrap-around: the file stays below 2^63 bytes
      show (w.offset + w.current.length) % 2 ^ 64 = (w.file ++ w.current).length
      have bound : (w.file ++ w.current).length < 2 ^ 64 :=
        Nat.lt_of_le_of_lt fitsFile (by decide)
      rw [offset, ← List.length_append, Nat.mod_eq_of_lt bound]
    · show w.lastKey = _
      rw [same, lastKey]
    · show w.bloom = _
      rw [same, bloom]

/-- Appending one entry to the collected ones. -/
theorem Took.append (w : Writer) (start : Filter) (blocks : List (List Entry))
    (tail : List Entry) (took : w.Took start blocks tail) (e : Entry) (fitsEntry : e.Fits)
    (above : ∀ x ∈ blocks.flatten ++ tail, x.key < e.key) :
    Took { w with
      current := w.current ++ e.encoded
      bloom := w.bloom.add e.key
      lastKey := cloneBytes e.key } start blocks (tail ++ [e]) := by
  obtain ⟨ascending, fits, nonempty, file, small, current, index, offset, lastKey, bloom⟩ := took
  constructor
  · rw [← List.append_assoc]
    exact List.pairwise_append.mpr ⟨ascending, List.pairwise_singleton _ _, by simpa using above⟩
  · intro x member
    rw [← List.append_assoc] at member
    rcases List.mem_append.mp member with old | new
    · exact fits x old
    · rw [List.mem_singleton.mp new]
      exact fitsEntry
  · exact nonempty
  · exact file
  · exact small
  · rw [current, blockBytes_append, blockBytes_cons]
    simp [blockBytes]
  · exact index
  · exact offset
  · rw [← List.append_assoc, lastKeyOf_append _ _ (by simp)]
    rfl
  · rw [← List.append_assoc, List.foldl_append, ← bloom]
    rfl

/-- `Add` of an entry behind all others succeeds while the file can grow. -/
theorem Has.add (w : Writer) (start : Filter) (es : List Entry) (has : w.Has start es)
    (key value : Slice) (tombstone : Bool) (fits : (Entry.mk key.bytes value.bytes tombstone).Fits)
    (above : ∀ x ∈ es, x.key < key.bytes) :
    w.add key value tombstone = .error .fileTooLarge ∧ maxInt < (blockBytes es).length ∨
      ∃ w', w.add key value tombstone = .ok w' ∧
        w'.Has start (es ++ [⟨key.bytes, value.bytes, tombstone⟩]) := by
  obtain ⟨blocks, tail, rfl, took⟩ := has
  have inOrder : ¬(w.lastKey ≠ none ∧ key.bytes ≤ w.lastKey.bytes) := by
    rintro ⟨known, notAbove⟩
    rw [took.lastKey, Ne, cloneBytes_eq_none] at known
    rw [took.lastKey, cloneBytes_bytes] at notAbove
    have some_ : blocks.flatten ++ tail ≠ [] := by
      intro empty
      rw [empty] at known
      exact known rfl
    obtain ⟨x, member, last⟩ := lastKeyOf_mem _ some_
    exact absurd (above x member) (by rw [last]; exact not_lt.mpr notAbove)
  rw [Writer.add, if_neg inOrder, makeRoom]
  split
  next full =>
    have some_ : tail ≠ [] := by
      rintro rfl
      rw [took.current] at full
      exact absurd full.2 (by simp [blockBytes])
    rcases took.flushBlock w start blocks tail some_ with
      ⟨tooLarge, outgrown⟩ | ⟨w', flushed, took'⟩
    · left
      rw [tooLarge, Except.error_bind]
      exact ⟨rfl, outgrown⟩
    · right
      rw [flushed, Except.ok_bind, appendEntry_ok _ _ fits, Except.ok_bind]
      refine ⟨_, rfl, blocks ++ [tail], [⟨key.bytes, value.bytes, tombstone⟩], by simp, ?_⟩
      exact took'.append w' start _ _ ⟨key.bytes, value.bytes, tombstone⟩ fits (by simpa using above)
  next =>
    right
    rw [Except.ok_bind, appendEntry_ok _ _ fits, Except.ok_bind]
    refine ⟨_, rfl, blocks, tail ++ [⟨key.bytes, value.bytes, tombstone⟩], by simp, ?_⟩
    exact took.append w start _ _ ⟨key.bytes, value.bytes, tombstone⟩ fits above

/-- Ascending entries are all taken while the file can grow. -/
theorem Has.addAll (start : Filter) (out : List Entry) (ascending : Ascending out)
    (fits : ∀ e ∈ out, e.Fits) (w : Writer) (es : List Entry) (has : w.Has start es)
    (above : ∀ x ∈ es, ∀ e ∈ out, x.key < e.key) :
    w.addAll out = .error .fileTooLarge ∧ maxInt < (blockBytes (es ++ out)).length ∨
      ∃ w', w.addAll out = .ok w' ∧ w'.Has start (es ++ out) := by
  induction out generalizing w es with
  | nil => exact .inr ⟨w, rfl, by rwa [List.append_nil]⟩
  | cons e out ih =>
    obtain ⟨first, later⟩ := List.pairwise_cons.mp ascending
    have added := has.add w start es (cloneBytes e.key) (cloneBytes e.value) e.tombstone
      (by rw [cloneBytes_bytes, cloneBytes_bytes]; exact fits e (by simp))
      (by rw [cloneBytes_bytes]; exact fun x member => above x member e (by simp))
    rw [cloneBytes_bytes, cloneBytes_bytes] at added
    rw [Writer.addAll]
    rcases added with ⟨tooLarge, outgrown⟩ | ⟨w', ok, has'⟩
    · left
      rw [tooLarge, Except.error_bind, blockBytes_append, List.length_append]
      exact ⟨rfl, by omega⟩
    · rw [ok, Except.ok_bind]
      have rest := ih later (fun x member => fits x (by simp [member])) w' _ has' (by
        intro x member y inside
        rcases List.mem_append.mp member with old | new
        · exact above x old y (by simp [inside])
        · rw [List.mem_singleton.mp new]
          exact first y inside)
      rwa [List.append_assoc] at rest

/-- An entry that was added fits its length fields. -/
theorem fits_of_add (w w' : Writer) (key value : Slice) (tombstone : Bool)
    (added : w.add key value tombstone = .ok w') :
    (Entry.mk key.bytes value.bytes tombstone).Fits := by
  rw [Writer.add] at added
  split at added
  · cases added
  · obtain ⟨w₁, -, more⟩ := (Except.bind_eq_ok _ _ _).mp added
    obtain ⟨current, appended, -⟩ := (Except.bind_eq_ok _ _ _).mp more
    rw [appendEntry] at appended
    split at appended
    · cases appended
    next small =>
      simp only [not_or, not_le] at small
      exact ⟨small.1, small.2⟩

theorem fits_of_addAll (es : List Entry) (w w' : Writer) (added : w.addAll es = .ok w') :
    ∀ e ∈ es, e.Fits := by
  induction es generalizing w with
  | nil => simp
  | cons e es ih =>
    obtain ⟨w₁, first, later⟩ := (Except.bind_eq_ok _ _ _).mp added
    have fits := fits_of_add w w₁ _ _ _ first
    rw [cloneBytes_bytes, cloneBytes_bytes] at fits
    exact List.forall_mem_cons.mpr ⟨fits, ih w₁ later⟩

/-- The filter after the entries. -/
def filterOf (start : Filter) (es : List Entry) : Filter :=
  es.foldl (fun f e => f.add e.key) start

theorem filterOf_encode_length (start : Filter) (es : List Entry) :
    (filterOf start es).encode.length = start.encode.length := by
  induction es generalizing start with
  | nil => rfl
  | cons e es ih => exact (ih (start.add e.key)).trans (start.add_encode_length e.key)

/-- `Close` writes the last block first. -/
theorem Took.flushLast (w : Writer) (start : Filter) (blocks : List (List Entry))
    (tail : List Entry) (took : w.Took start blocks tail) :
    w.flushLast = .error .fileTooLarge ∧ maxInt < (blockBytes (blocks.flatten ++ tail)).length ∨
      ∃ w' blocks', w.flushLast = .ok w' ∧ blocks'.flatten = blocks.flatten ++ tail ∧
        w'.Took start blocks' [] := by
  rw [Writer.flushLast]
  split
  next some_ =>
    have nonempty : tail ≠ [] := by
      rintro rfl
      rw [took.current] at some_
      exact absurd some_ (by simp [blockBytes])
    rcases took.flushBlock w start blocks tail nonempty with tooLarge | ⟨w', ok, took'⟩
    · exact .inl tooLarge
    · exact .inr ⟨w', _, ok, by simp, took'⟩
  next nothing =>
    have empty : tail = [] := by
      by_contra some_
      rw [took.current, List.length_pos_iff] at nothing
      exact nothing (blockBytes_ne_nil tail some_)
    subst empty
    exact .inr ⟨w, blocks, rfl, by simp, took⟩

/-- `Close` lays out the table. -/
theorem Has.close (w : Writer) (start : Filter) (es : List Entry) (has : w.Has start es) :
    w.close = .error .fileTooLarge ∧ maxInt < tableBytes start es ∨
      ∃ blocks, blocks.flatten = es ∧
      (∀ block ∈ blocks, block ≠ []) ∧ Ascending es ∧ (∀ e ∈ es, e.Fits) ∧
      w.close = .ok (tableFile blocks (filterOf start es)) ∧
      (tableFile blocks (filterOf start es)).length ≤ maxInt := by
  obtain ⟨blocks, tail, rfl, took⟩ := has
  rw [Writer.close]
  rcases took.flushLast w start blocks tail with ⟨tooLarge, outgrown⟩ | ⟨w', blocks', ok, same, took'⟩
  · left
    rw [tooLarge, Except.error_bind, tableBytes]
    exact ⟨rfl, by omega⟩
  have filter : w'.bloom = filterOf start (blocks.flatten ++ tail) := by
    rw [took'.bloom, List.append_nil, same]
    rfl
  -- every part of the file is part of the bound
  have data : w'.file.length = (blockBytes (blocks.flatten ++ tail)).length := by
    rw [took'.file, dataOf_eq, same]
  have index : (encodeIndex w'.index).length ≤
      ((blocks.flatten ++ tail).map fun e => 20 + e.key.length).sum := by
    rw [took'.index, ← same]
    exact encodeIndex_indexFrom_le blocks' 0 took'.nonempty
  have bits : w'.bloom.encode.length = start.encode.length := by
    rw [filter, filterOf_encode_length]
  rw [ok, Except.ok_bind]
  simp only
  rcases writeFile_cases w'.file (encodeIndex w'.index) with ⟨tooLarge, outgrown⟩ | ⟨wrote, small⟩
  · left
    rw [List.length_append] at outgrown
    rw [tooLarge, Except.error_bind, tableBytes]
    exact ⟨rfl, by omega⟩
  rw [wrote, Except.ok_bind]
  rcases writeFile_cases (w'.file ++ encodeIndex w'.index) w'.bloom.encode with
    ⟨tooLarge, outgrown⟩ | ⟨wrote', small'⟩
  · left
    rw [List.length_append, List.length_append] at outgrown
    rw [tooLarge, Except.error_bind, tableBytes]
    exact ⟨rfl, by omega⟩
  rw [wrote', Except.ok_bind]
  have bound : w'.offset + (encodeIndex w'.index).length < 2 ^ 64 := by
    rw [took'.offset, ← List.length_append]
    exact Nat.lt_of_le_of_lt small (by decide)
  have whole (footer : Footer) (is : footer = ⟨w'.offset, (encodeIndex w'.index).length,
      (w'.offset + (encodeIndex w'.index).length) % 2 ^ 64, w'.bloom.encode.length,
      currentVersion, magicNumber⟩) :
      w'.file ++ encodeIndex w'.index ++ w'.bloom.encode ++ footer.encode =
        tableFile blocks' (filterOf start (blocks.flatten ++ tail)) := by
    rw [is, Nat.mod_eq_of_lt bound, tableFile, ← filter, took'.offset, took'.file, took'.index]
  rcases writeFile_cases (w'.file ++ encodeIndex w'.index ++ w'.bloom.encode)
    (Footer.encode ⟨w'.offset, (encodeIndex w'.index).length,
      (w'.offset + (encodeIndex w'.index).length) % 2 ^ 64, w'.bloom.encode.length,
      currentVersion, magicNumber⟩) with ⟨tooLarge, outgrown⟩ | ⟨wrote'', small''⟩
  · left
    rw [List.length_append, List.length_append, List.length_append, Footer.encode_length]
      at outgrown
    rw [tableBytes]
    exact ⟨tooLarge, by omega⟩
  · right
    rw [whole _ rfl] at wrote'' small''
    have ascending := took'.ascending
    have fits := took'.fits
    rw [List.append_nil, same] at ascending fits
    exact ⟨blocks', same, took'.nonempty, ascending, fits, wrote'', small''⟩

end Writer

/-! ### Reading a written table back -/

/-- The file is a table with the given entries: what its footer and index lead to. -/
def Table (file : Bytes) (es : List Entry) : Prop :=
  ∃ footer index, readFooter file = .ok footer ∧
    (readAt file footer.indexOffset footer.indexLength .unexpectedEOF >>= decodeIndex) =
      .ok index ∧
    Reader.Stores ⟨0, 0, file, index, none, false⟩ es

theorem readAt_middle (before field after : Bytes) (short : Error) :
    readAt (before ++ field ++ after) before.length field.length short = .ok field := by
  have rest : (before ++ field ++ after).drop before.length = field ++ after := by
    rw [List.append_assoc, List.drop_left]
  rw [readAt, rest, if_neg (by simp), List.take_left]

theorem toInt64_small (n : Nat) (small : n ≤ maxInt) : toInt64 n = n := by
  have bound : n < 2 ^ 63 := Nat.lt_of_le_of_lt small (by decide)
  have wide : n < 2 ^ 64 := by omega
  rw [toInt64, Nat.mod_eq_of_lt wide, if_pos bound]

/-- Blocks that lie one behind the other are read through their index. -/
theorem indexes_indexFrom (r : Reader) (blocks : List (List Entry)) (before after : Bytes)
    (opened : r.fileClosed = false) (whole : r.file = before ++ dataOf blocks ++ after)
    (small : r.file.length ≤ maxInt) (nonempty : ∀ block ∈ blocks, block ≠ []) :
    List.Forall₂ (Indexes r) (indexFrom before.length blocks) blocks := by
  induction blocks generalizing before with
  | nil => exact .nil
  | cons block blocks ih =>
    have split : r.file = before ++ blockBytes block ++ (dataOf blocks ++ after) := by
      rw [whole]
      simp [dataOf]
    have offset : before.length ≤ maxInt := by
      rw [split] at small
      simp only [List.length_append] at small
      omega
    refine .cons ⟨nonempty block (by simp), rfl, ?_⟩ ?_
    · rw [Reader.readBlock, opened, toInt64_small _ offset, if_neg (by simp), if_neg (by omega),
        split, readAt_middle]
    · have later := ih (before ++ blockBytes block) (by rw [split, ← List.append_assoc])
        fun b member => nonempty b (by simp [member])
      rwa [List.length_append] at later

theorem indexFrom_fits (blocks : List (List Entry)) (offset : Nat)
    (fits : ∀ e ∈ blocks.flatten, e.Fits) (nonempty : ∀ block ∈ blocks, block ≠ [])
    (small : offset + (dataOf blocks).length ≤ maxInt) :
    ∀ ie ∈ indexFrom offset blocks, ie.Fits := by
  induction blocks generalizing offset with
  | nil => simp [indexFrom]
  | cons block blocks ih =>
    rw [dataOf, List.flatMap_cons, List.length_append] at small
    intro ie member
    rcases List.mem_cons.mp member with rfl | later
    · obtain ⟨e, inside, key⟩ := lastKeyOf_mem block (nonempty block (by simp))
      have wide : maxInt < 2 ^ 64 := by decide
      refine ⟨?_, ?_, ?_⟩
      · show (lastKeyOf block).length < 2 ^ 32
        rw [← key]
        exact (fits e (by simp [inside])).key
      · show offset < 2 ^ 64
        omega
      · show (blockBytes block).length < 2 ^ 64
        omega
    · refine ih _ (fun e inside => fits e (by simp [List.mem_flatten.mp inside])) ?_ ?_ ie later
      · exact fun b inside => nonempty b (by simp [inside])
      · rw [dataOf]
        omega

/-- Sections that lie one behind the other inside the file pass the checks. -/
theorem checkSections_ok (footer : Footer) (dataEnd : Nat)
    (inOrder : footer.indexOffset + footer.indexLength ≤ footer.bloomOffset)
    (inside : footer.bloomOffset + footer.bloomLength ≤ dataEnd) (small : dataEnd ≤ maxInt) :
    checkSections footer dataEnd = .ok () := by
  have wide : maxInt < 2 ^ 64 := by decide
  rw [checkSections, toInt64_small footer.indexOffset (by omega), toInt64_small _ (by omega),
    toInt64_small footer.bloomOffset (by omega), toInt64_small _ (by omega), if_neg (by omega)]
  split
  · rw [if_neg (by omega), if_neg (by omega)]
  · rfl

section Written

variable (blocks : List (List Entry)) (filter : Filter)
  (nonempty : ∀ block ∈ blocks, block ≠ []) (ascending : Ascending blocks.flatten)
  (fits : ∀ e ∈ blocks.flatten, e.Fits) (small : (tableFile blocks filter).length ≤ maxInt)

/-- The footer of the table. -/
def footerOf (blocks : List (List Entry)) (filter : Filter) : Footer :=
  let indexLength := (encodeIndex (indexFrom 0 blocks)).length
  ⟨(dataOf blocks).length, indexLength, (dataOf blocks).length + indexLength,
    filter.encode.length, currentVersion, magicNumber⟩

theorem tableFile_length : (tableFile blocks filter).length = (dataOf blocks).length +
    (encodeIndex (indexFrom 0 blocks)).length + filter.encode.length + footerSize := by
  simp only [tableFile, List.length_append, Footer.encode_length]

include small in
theorem readFooter_tableFile :
    readFooter (tableFile blocks filter) = .ok (footerOf blocks filter) := by
  have len := tableFile_length blocks filter
  have wide : maxInt < 2 ^ 64 := by decide
  refine readFooter_append _ _ ?_ rfl rfl
  constructor
  · show (dataOf blocks).length < 2 ^ 64
    omega
  · show (encodeIndex (indexFrom 0 blocks)).length < 2 ^ 64
    omega
  · show (dataOf blocks).length + (encodeIndex (indexFrom 0 blocks)).length < 2 ^ 64
    omega
  · show filter.encode.length < 2 ^ 64
    omega
  · show currentVersion < 2 ^ 32
    decide
  · show magicNumber < 2 ^ 32
    decide

include nonempty fits small in
theorem readIndex_tableFile :
    (readAt (tableFile blocks filter) (footerOf blocks filter).indexOffset
      (footerOf blocks filter).indexLength .unexpectedEOF >>= decodeIndex) =
      .ok (indexFrom 0 blocks) := by
  have read : readAt (tableFile blocks filter) (footerOf blocks filter).indexOffset
      (footerOf blocks filter).indexLength .unexpectedEOF =
      .ok (encodeIndex (indexFrom 0 blocks)) := by
    rw [tableFile, List.append_assoc]
    exact readAt_middle (dataOf blocks) (encodeIndex (indexFrom 0 blocks)) _ _
  have len := tableFile_length blocks filter
  rw [read, Except.ok_bind]
  exact decodeIndex_encodeIndex _ (indexFrom_fits blocks 0 fits nonempty (by omega))

include nonempty ascending fits small in
theorem stores_tableFile (fileID : Nat) (id : UInt64) (bloom : Option Filter) :
    Reader.Stores ⟨fileID, id, tableFile blocks filter, indexFrom 0 blocks, bloom, false⟩
      blocks.flatten := by
  have whole : tableFile blocks filter = [] ++ dataOf blocks ++
      (encodeIndex (indexFrom 0 blocks) ++ (filter.encode ++ (footerOf blocks filter).encode)) := by
    rw [tableFile, List.nil_append, List.append_assoc, List.append_assoc]
    rfl
  exact ⟨ascending, fits, blocks, rfl, indexes_indexFrom _ blocks [] _ rfl whole small nonempty⟩

include nonempty ascending fits small in
theorem table_tableFile : Table (tableFile blocks filter) blocks.flatten :=
  ⟨_, _, readFooter_tableFile blocks filter small,
    readIndex_tableFile blocks filter nonempty fits small,
    stores_tableFile blocks filter nonempty ascending fits small 0 0 none⟩

include small in
theorem checkSections_tableFile :
    checkSections (footerOf blocks filter) ((tableFile blocks filter).length - footerSize) =
      .ok () := by
  have len := tableFile_length blocks filter
  have dataEnd : ((tableFile blocks filter).length : Int) - footerSize =
      ((tableFile blocks filter).length - footerSize : Nat) := by
    omega
  rw [dataEnd]
  apply checkSections_ok
  · exact Nat.le_refl _
  · show (dataOf blocks).length + (encodeIndex (indexFrom 0 blocks)).length +
      filter.encode.length ≤ _
    omega
  · omega

include small in
theorem readBloom_tableFile :
    readBloom (tableFile blocks filter) (footerOf blocks filter) =
      (Filter.decode filter.encode).elim (.error .corruptBloom) fun f => .ok (some f) := by
  have len := tableFile_length blocks filter
  have positive : 0 < filter.encode.length := by simp [Filter.encode]
  have read : readAt (tableFile blocks filter) (footerOf blocks filter).bloomOffset
      (footerOf blocks filter).bloomLength .eof = .ok filter.encode := by
    have at_ : (footerOf blocks filter).bloomOffset =
        (dataOf blocks ++ encodeIndex (indexFrom 0 blocks)).length := by
      rw [List.length_append]
      rfl
    rw [at_, tableFile]
    exact readAt_middle _ filter.encode _ _
  rw [readBloom, if_pos (show 0 < (footerOf blocks filter).bloomLength from positive),
    if_neg (show ¬maxInt < (footerOf blocks filter).bloomLength by
      show ¬maxInt < filter.encode.length
      omega), read, Except.ok_bind]
  cases Filter.decode filter.encode with
  | none => rfl
  | some f => rfl

include nonempty fits small in
/-- `OpenReader` accepts what `Close` wrote, but for a filter that cannot be decoded. -/
theorem openReader_tableFile_eq (fileID : Nat) (id : UInt64) :
    openReader fileID id (tableFile blocks filter) =
      (Filter.decode filter.encode).elim (.error .corruptBloom) fun f =>
        .ok ⟨fileID, id, tableFile blocks filter, indexFrom 0 blocks, some f, false⟩ := by
  have len := tableFile_length blocks filter
  obtain ⟨indexData, read, decoded⟩ := (Except.bind_eq_ok _ _ _).mp
    (readIndex_tableFile blocks filter nonempty fits small)
  rw [openReader, readFooter_tableFile blocks filter small, Except.ok_bind,
    checkSections_tableFile blocks filter small, Except.ok_bind,
    if_neg (show ¬maxInt < (footerOf blocks filter).indexLength by
      show ¬maxInt < (encodeIndex (indexFrom 0 blocks)).length
      omega), read, Except.ok_bind, decoded, Except.ok_bind,
    readBloom_tableFile blocks filter small]
  cases Filter.decode filter.encode with
  | none => rfl
  | some f => rfl

include nonempty fits small in
theorem openReader_tableFile (sized : filter.Sized) (fileID : Nat) (id : UInt64) :
    openReader fileID id (tableFile blocks filter) = .ok (readerOf fileID id blocks filter) := by
  rw [openReader_tableFile_eq blocks filter nonempty fits small, filter.decode_encode sized]
  rfl

end Written

theorem filterOf_sized (es : List Entry) (start : Filter) (sized : start.Sized) :
    (Writer.filterOf start es).Sized := by
  induction es generalizing start with
  | nil => exact sized
  | cons e es ih => exact ih (start.add e.key) (sized.add start e.key)

theorem filterOf_mono (es : List Entry) (start : Filter) (sized : start.Sized) (key : Bytes)
    (inside : start.mayContain key = true) : (Writer.filterOf start es).mayContain key = true := by
  induction es generalizing start with
  | nil => exact inside
  | cons e es ih =>
    exact ih (start.add e.key) (sized.add start e.key)
      (Filter.mayContain_add_mono start sized e.key key inside)

theorem filterOf_mem (es : List Entry) (start : Filter) (sized : start.Sized) (e : Entry)
    (member : e ∈ es) : (Writer.filterOf start es).mayContain e.key = true := by
  induction es generalizing start with
  | nil => cases member
  | cons x es ih =>
    rcases List.mem_cons.mp member with rfl | later
    · exact filterOf_mono es _ (sized.add start e.key) e.key
        (Filter.mayContain_add_self start sized e.key)
    · exact ih (start.add x.key) (sized.add start x.key) later

/-- A table that a writer leaves stores the entries it took, whatever became of the filter. -/
theorem Writer.Has.stores (w : Writer) (start : Filter) (es : List Entry) (has : w.Has start es)
    (fileID : Nat) (id : UInt64) :
    w.close = .error .fileTooLarge ∨ ∃ file, w.close = .ok file ∧
      (openReader fileID id file = .error .corruptBloom ∨
        ∃ r, openReader fileID id file = .ok r ∧ r.Stores es) := by
  rcases has.close w start es with
    ⟨tooLarge, -⟩ | ⟨blocks, rfl, nonempty, ascending, fits, ok, small⟩
  · exact .inl tooLarge
  · refine .inr ⟨_, ok, ?_⟩
    rw [openReader_tableFile_eq blocks _ nonempty fits small]
    cases Filter.decode (filterOf start blocks.flatten).encode with
    | none => exact .inl rfl
    | some f => exact .inr ⟨_, rfl, stores_tableFile blocks _ nonempty ascending fits small _ _ _⟩

/-- A writer that took the entries, once closed and opened again, serves them. -/
theorem Writer.Has.reopen (w : Writer) (start : Filter) (es : List Entry) (has : w.Has start es)
    (sized : start.Sized) (fileID : Nat) (id : UInt64) :
    w.close = .error .fileTooLarge ∧ maxInt < tableBytes start es ∨ ∃ file r, w.close = .ok file ∧
      openReader fileID id file = .ok r ∧ r.Holds es ∧ r.fileID = fileID ∧ r.id = id := by
  rcases has.close w start es with tooLarge | ⟨blocks, rfl, nonempty, ascending, fits, ok, small⟩
  · exact .inl tooLarge
  · right
    have opened := openReader_tableFile blocks _ nonempty fits small
      (filterOf_sized _ start sized) fileID id
    refine ⟨_, _, ok, opened, ⟨?_, ?_⟩, rfl, rfl⟩
    · exact stores_tableFile blocks _ nonempty ascending fits small fileID id _
    · exact fun e member => filterOf_mem _ start sized e member

/-- The filter of a new writer is well sized when the formulas are. -/
theorem newWriter_sized (sizing : Sizing) (blockSize : Int) (expectedEntries : Nat) (w : Writer)
    (created : newWriter sizing blockSize expectedEntries = .ok w)
    (sized : sizing.Fits (max expectedEntries 1)) : w.bloom.Sized := by
  have clamped : (if expectedEntries < 1 then 1 else expectedEntries) = max expectedEntries 1 := by
    split
    · omega
    · omega
  rw [newWriter] at created
  split at created
  · cases created
  · cases created
    rw [clamped]
    exact Filter.new_sized _ _ sized.positive sized.small

theorem newWriter_ok (sizing : Sizing) (blockSize : Int) (expectedEntries : Nat)
    (positive : 0 < blockSize) : ∃ w, newWriter sizing blockSize expectedEntries = .ok w := by
  rw [newWriter, if_neg (by omega)]
  exact ⟨_, rfl⟩

/-- A new writer with a filter of any size: what it was given in ascending order it serves
when it is opened again, unless the file outgrows the largest offset. -/
theorem newWriter_reopen (sizing : Sizing) (blockSize : Int) (expectedEntries : Nat) (w : Writer)
    (created : newWriter sizing blockSize expectedEntries = .ok w) (filter : Filter)
    (sized : filter.Sized) (es : List Entry) (ascending : Ascending es) (fits : ∀ e ∈ es, e.Fits)
    (fileID : Nat) (id : UInt64) :
    let written := ({ w with bloom := filter } : Writer).addAll es >>= Writer.close
    written = .error .fileTooLarge ∧ maxInt < tableBytes filter es ∨
      ∃ file r, written = .ok file ∧ openReader fileID id file = .ok r ∧ r.Holds es ∧
        r.fileID = fileID ∧ r.id = id := by
  have fresh := newWriter_has sizing blockSize expectedEntries w created filter
  rcases fresh.addAll filter es ascending fits _ [] (by simp) with
    ⟨tooLarge, outgrown⟩ | ⟨w', ok, has⟩
  · left
    rw [List.nil_append] at outgrown
    rw [tooLarge, Except.error_bind, tableBytes]
    exact ⟨rfl, by omega⟩
  · simp only [ok, Except.ok_bind]
    exact has.reopen w' filter es sized fileID id

/-- A table written from ascending entries and opened again serves them. -/
theorem writeTable_reopen (sizing : Sizing) (blockSize : Int) (expectedEntries : Nat)
    (es : List Entry) (positive : 0 < blockSize) (sized : sizing.Fits (max expectedEntries 1))
    (ascending : Ascending es) (fits : ∀ e ∈ es, e.Fits) (fileID : Nat) (id : UInt64) :
    writeTable sizing blockSize expectedEntries es = .error .fileTooLarge ∨
      ∃ file r, writeTable sizing blockSize expectedEntries es = .ok file ∧
        openReader fileID id file = .ok r ∧ r.Holds es ∧ r.fileID = fileID ∧ r.id = id := by
  obtain ⟨w, created⟩ := newWriter_ok sizing blockSize expectedEntries positive
  have written := newWriter_reopen sizing blockSize expectedEntries w created w.bloom
    (newWriter_sized sizing _ _ w created sized) es ascending fits fileID id
  rw [writeTable, created, Except.ok_bind]
  exact written.imp_left And.left

/-- A written table can be opened and serves what was written. -/
theorem writeTable_ok (sizing : Sizing) (blockSize : Int) (expectedEntries : Nat)
    (es : List Entry) (file : Bytes) (sized : sizing.Fits (max expectedEntries 1))
    (ascending : Ascending es) (written : writeTable sizing blockSize expectedEntries es = .ok file)
    (fileID : Nat) (id : UInt64) :
    ∃ r, openReader fileID id file = .ok r ∧ r.Holds es ∧ r.fileID = fileID ∧ r.id = id := by
  obtain ⟨w, created, more⟩ := (Except.bind_eq_ok _ _ _).mp written
  obtain ⟨w', added, -⟩ := (Except.bind_eq_ok _ _ _).mp more
  have positive : 0 < blockSize := by
    by_contra nonpos
    rw [newWriter, if_pos (by omega)] at created
    cases created
  rcases writeTable_reopen sizing blockSize expectedEntries es positive sized ascending
    (Writer.fits_of_addAll es w w' added) fileID id with tooLarge | ⟨file', r, ok, opened⟩
  · rw [tooLarge] at written
    cases written
  · rw [ok] at written
    cases written
    exact ⟨r, opened⟩

/-- An open table that was written from ascending entries stores them, whatever the size
of its filter. -/
theorem writeTable_stores (sizing : Sizing) (blockSize : Int) (expectedEntries : Nat)
    (es : List Entry) (file : Bytes) (ascending : Ascending es)
    (written : writeTable sizing blockSize expectedEntries es = .ok file)
    (fileID : Nat) (id : UInt64) (r : Reader) (opened : openReader fileID id file = .ok r) :
    r.Stores es := by
  obtain ⟨w, created, more⟩ := (Except.bind_eq_ok _ _ _).mp written
  obtain ⟨w', added, closed⟩ := (Except.bind_eq_ok _ _ _).mp more
  have fits := Writer.fits_of_addAll es w w' added
  have has : w'.Has w.bloom es := by
    have fresh := newWriter_has sizing blockSize expectedEntries w created w.bloom
    rcases fresh.addAll w.bloom es ascending fits _ [] (by simp) with
      ⟨tooLarge, -⟩ | ⟨w'', ok, has⟩
    · rw [show w.addAll es = _ from tooLarge] at added
      cases added
    · rw [show w.addAll es = _ from ok] at added
      cases added
      exact has
  rcases has.close w' w.bloom es with ⟨tooLarge, -⟩ | ⟨blocks, rfl, nonempty, -, -, ok, small⟩
  · rw [tooLarge] at closed
    cases closed
  · rw [ok] at closed
    cases closed
    obtain ⟨bloom, rfl⟩ := openReader_index _ _ _ (readFooter_tableFile blocks _ small)
      (readIndex_tableFile blocks _ nonempty fits small) fileID id r opened
    exact stores_tableFile blocks _ nonempty ascending fits small fileID id bloom

end PebbleDB.Sst
