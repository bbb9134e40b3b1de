import PebbleDB.Iterator.MergeIterator

/-!
# What a merge puts out

`MergeOf` says, without the algorithm, what the merge of sources with priorities is: every
key that some source has, once, in ascending order, with the entry of the source whose
priority is highest. `ForEachMerged` hands out this list, without its tombstones if they are
omitted, and a `MergeIterator` walks over the part of it from a key on.

The sources here are arbitrary iterators that list ascending entries without the empty key and
do not fail. Whether they return nil or an empty slice for an empty value is left open. What
they must do is leave the slices alone that they have handed out: a merge reads the key and
the value of the winner after it has called `Next` on it. A `MergeIterator` is an iterator
itself and does not, so a merge of merge iterators shows wrong entries.
-/
namespace PebbleDB.Iterator

variable {ι ε σ : Type}

/-! ### Sources by their bytes -/

/-- The iterator hands out entries with these bytes and never fails. -/
def Lists (I : Interface ι ε) : ι → List Entry → Prop
  | it, [] => I.valid it = false
  | it, e :: es => I.valid it = true ∧ (I.key it).bytes = e.key ∧
      (I.value it).bytes = e.value ∧ I.isTombstone it = e.tombstone ∧
      (I.next it).2 = none ∧ Lists I (I.next it).1 es

/-- `Next` leaves the bytes alone that `Key` and `Value` returned before. -/
def Keeps (I : Interface ι ε) (it : ι) : Prop :=
  (I.kept it).1.bytes = (I.key it).bytes ∧ (I.kept it).2.bytes = (I.value it).bytes

/-- Every iterator that stands on an entry, with ascending entries and no empty key ahead of
it, keeps its slices. -/
def Steady (I : Interface ι ε) : Prop :=
  ∀ it e es, Lists I it (e :: es) → Ascending (e :: es) → (∀ x ∈ e :: es, x.key ≠ []) → Keeps I it

/-- The same iterators with slices that are copied once more, so that an empty one is nil. -/
def copied (I : Interface ι ε) : Interface ι ε :=
  { I with kept := fun it => (cloneBytes (I.kept it).1.bytes, cloneBytes (I.kept it).2.bytes) }

def Winner.copied (w : Winner) : Winner :=
  { w with key := cloneBytes w.key.bytes, value := cloneBytes w.value.bytes }

theorem Lists.yields (I : Interface ι ε) (steady : Steady I) (it : ι) (es : List Entry)
    (lists : Lists I it es) (ascending : Ascending es) (keyed : ∀ e ∈ es, e.key ≠ []) :
    Yields (copied I) it es := by
  induction es generalizing it with
  | nil => exact lists
  | cons e es ih =>
    obtain ⟨keyKept, valueKept⟩ := steady it e es lists ascending keyed
    obtain ⟨valid, key, value, tombstone, noError, rest⟩ := lists
    obtain ⟨here, later⟩ := List.forall_mem_cons.mp keyed
    have kept : (copied I).kept it = (cloneBytes e.key, cloneBytes e.value) := by
      simp only [copied, keyKept, valueKept, key, value]
    refine ⟨valid, ?_, kept, tombstone, noError,
      ih _ rest (List.pairwise_cons.mp ascending).2 later⟩
    -- a slice with bytes in it is not nil
    rw [cloneBytes_of_ne_nil e.key here]
    show I.key it = some e.key
    cases is : I.key it with
    | none =>
      rw [is] at key
      exact absurd key.symm here
    | some b =>
      rw [is] at key
      exact congrArg some key

theorem seekAll_copied (I : SeekInterface ι ε) (key : Bytes) (srcs : List (Source ι)) :
    seekAll { toInterface := copied I.toInterface, seek := I.seek } key srcs = seekAll I key srcs := by
  induction srcs with
  | nil => rfl
  | cons s srcs ih =>
    rw [seekAll, seekAll, ih]

theorem winnerFrom_copied (I : Interface ι ε) (m : Bytes) (srcs : List (Source ι)) (w : Winner) :
    winnerFrom (copied I) m w.copied srcs = (winnerFrom I m w srcs).copied := by
  induction srcs generalizing w with
  | nil => rfl
  | cons s srcs ih =>
    rw [winnerFrom, winnerFrom]
    have stands : standsOn (copied I) m s = standsOn I m s := rfl
    rw [stands]
    split
    · rw [show w.copied.priority = w.priority from rfl]
      split
      · exact ih ⟨s.priority, (I.kept s.it).1, (I.kept s.it).2, I.isTombstone s.it⟩
      · exact ih w
    · exact ih w

theorem minKeyAcrossSources_copied (I : Interface ι ε) (srcs : List (Source ι)) :
    minKeyAcrossSources (copied I) srcs = minKeyAcrossSources I srcs := by
  have loop (acc : Slice) : minKeyFrom (copied I) acc srcs = minKeyFrom I acc srcs := by
    induction srcs generalizing acc with
    | nil => rfl
    | cons s srcs ih =>
      rw [minKeyFrom, minKeyFrom, ih, ih]
      rfl
  exact loop none

theorem advanceAll_copied (I : Interface ι ε) (m : Bytes) (srcs : List (Source ι)) :
    advanceAll (copied I) m srcs = advanceAll I m srcs := by
  induction srcs with
  | nil => rfl
  | cons s srcs ih =>
    rw [advanceAll, advanceAll, ih]
    rfl

/-- A step hands out the same bytes and leaves the same sources. -/
theorem mergeStep_copied (I : Interface ι ε) (omitTombstones : Bool) (fuel : Nat)
    (srcs : List (Source ι)) :
    mergeStep (copied I) omitTombstones fuel srcs =
      (mergeStep I omitTombstones fuel srcs).map (Option.map fun won => (won.1.copied, won.2)) := by
  induction fuel generalizing srcs with
  | zero => rfl
  | succ fuel ih =>
    rw [mergeStep, mergeStep, minKeyAcrossSources_copied]
    cases minKeyAcrossSources I srcs with
    | none => rfl
    | some m =>
      have winner := winnerFrom_copied I m srcs ⟨-1, none, none, false⟩
      dsimp only
      rw [advanceAll_copied, show winnerFrom (copied I) m ⟨-1, none, none, false⟩ srcs = _ from winner]
      cases advanceAll I m srcs with
      | error e => rfl
      | ok srcs' =>
        -- copying a value does not change whether the winner is skipped
        rw [Except.ok_bind, Except.ok_bind]
        rw [show (winnerFrom I m ⟨-1, none, none, false⟩ srcs).copied.tombstone =
          (winnerFrom I m ⟨-1, none, none, false⟩ srcs).tombstone from rfl]
        split
        · exact ih srcs'
        · rfl

/-- A function that looks at the bytes of its arguments. -/
def byBytes (fn : σ → Bytes → Bytes → Bool → σ × Option ε) :
    σ → Slice → Slice → Bool → σ × Option ε :=
  fun acc key value tombstone => fn acc key.bytes value.bytes tombstone

theorem forEachMergedFrom_copied (I : Interface ι ε) (omitTombstones : Bool)
    (fn : σ → Bytes → Bytes → Bool → σ × Option ε) (fuel : Nat) (srcs : List (Source ι)) (acc : σ) :
    forEachMergedFrom (copied I) omitTombstones (byBytes fn) fuel srcs acc =
      forEachMergedFrom I omitTombstones (byBytes fn) fuel srcs acc := by
  induction fuel generalizing srcs acc with
  | zero => rfl
  | succ fuel ih =>
    rw [forEachMergedFrom, forEachMergedFrom, mergeStep_copied]
    rcases mergeStep I omitTombstones (fuel + 1) srcs with e | _ | ⟨winner, srcs'⟩
    · rfl
    · rfl
    · have same : byBytes fn acc winner.copied.key winner.copied.value winner.copied.tombstone =
          byBytes fn acc winner.key winner.value winner.tombstone := by
        rw [byBytes, byBytes, Winner.copied, cloneBytes_bytes, cloneBytes_bytes]
      dsimp only [Except.map, Option.map]
      rw [same]
      rcases byBytes fn acc winner.key winner.value winner.tombstone with ⟨acc', _ | err⟩
      · exact ih srcs' acc'
      · rfl

/-! ### The merge of the sources -/

/-- Every key of the sources once, ascending, with the entry of the source that has the
highest priority among those that have the key. -/
structure MergeOf (view : View) (out : List Entry) : Prop where
  ascending : Ascending out
  keys : ∀ k, (∃ e ∈ out, e.key = k) ↔ ∃ v ∈ view, ∃ e ∈ v.1, e.key = k
  best : ∀ e ∈ out, ∃ v ∈ view, e ∈ v.1 ∧
    ∀ w ∈ view, (∃ x ∈ w.1, x.key = e.key) → w.2 ≤ v.2

/-- The loop ends with the best of its start and the sources that have the key. -/
theorem resolveFrom_best (k : Bytes) (view : View) (best : Int × Option Entry) :
    best.1 ≤ (resolveFrom k best view).1 ∧
      (∀ w ∈ view, findEntry k w.1 ≠ none → w.2 ≤ (resolveFrom k best view).1) ∧
      (resolveFrom k best view = best ∨
        ∃ v ∈ view, ∃ e, findEntry k v.1 = some e ∧ resolveFrom k best view = (v.2, some e)) := by
  induction view generalizing best with
  | nil => exact ⟨le_refl _, by simp, .inl rfl⟩
  | cons v view ih =>
    rw [resolveFrom]
    cases here : findEntry k v.1 with
    | none =>
      obtain ⟨more, bound, from_⟩ := ih best
      refine ⟨more, List.forall_mem_cons.mpr ⟨fun has => absurd here has, bound⟩, ?_⟩
      rcases from_ with kept | ⟨w, member, x, found, is⟩
      · exact .inl kept
      · exact .inr ⟨w, List.mem_cons_of_mem _ member, x, found, is⟩
    | some e =>
      dsimp only
      -- ties are kept by the earlier source; the bound only needs `≤`
      obtain ⟨more, bound, from_⟩ := ih (if best.1 < v.2 then (v.2, some e) else best)
      have start : best.1 ≤ (if best.1 < v.2 then (v.2, some e) else best).1 ∧
          v.2 ≤ (if best.1 < v.2 then (v.2, some e) else best).1 := by
        split
        next better => exact ⟨better.le, le_refl _⟩
        next notBetter => exact ⟨le_refl _, not_lt.mp notBetter⟩
      refine ⟨start.1.trans more,
        List.forall_mem_cons.mpr ⟨fun _ => start.2.trans more, bound⟩, ?_⟩
      rcases from_ with kept | ⟨w, member, x, found, is⟩
      · rw [kept]
        split
        · exact .inr ⟨v, List.mem_cons_self, e, here, rfl⟩
        · exact .inl rfl
      · exact .inr ⟨w, List.mem_cons_of_mem _ member, x, found, is⟩

/-- A list of the best entries is the merge. -/
theorem mergeOf_of_resolve (view : View) (priority : ∀ v ∈ view, 0 ≤ v.2) (out : List Entry)
    (ascending : Ascending out) (entries : ∀ k, findEntry k out = resolve k view) :
    MergeOf view out where
  ascending := ascending
  keys := by
    intro k
    constructor
    · rintro ⟨e, member, rfl⟩
      have found := entries e.key
      rw [findEntry_mem out ascending e member] at found
      obtain ⟨-, v, inView, inside⟩ := resolve_some e.key view e found.symm
      exact ⟨v, inView, e, inside, rfl⟩
    · rintro ⟨v, inView, e, inside, rfl⟩
      -- a key that some source has is resolved
      have present : findEntry e.key v.1 ≠ none := fun none_ =>
        (findEntry_eq_none e.key v.1).mp none_ e inside rfl
      have resolved : resolve e.key view ≠ none :=
        resolveFrom_ne_none e.key view priority _ (.inl (by decide)) (.inr ⟨v, inView, present⟩)
      rw [← entries] at resolved
      obtain ⟨x, found⟩ := Option.ne_none_iff_exists'.mp resolved
      obtain ⟨key, member⟩ := findEntry_key e.key out x found
      exact ⟨x, member, key⟩
  best := by
    intro e member
    have found := entries e.key
    rw [findEntry_mem out ascending e member, resolve] at found
    obtain ⟨-, bound, from_⟩ := resolveFrom_best e.key view (-1, none)
    rcases from_ with start | ⟨v, inView, x, there, is⟩
    -- the start has no entry, but one was found
    · rw [start] at found
      cases found
    · rw [is] at found bound
      cases found
      refine ⟨v, inView, (findEntry_key e.key v.1 e there).2, fun w inView' has => ?_⟩
      obtain ⟨y, inW, same⟩ := has
      exact bound w inView' fun none_ => (findEntry_eq_none e.key w.1).mp none_ y inW same

/-! ### Without tombstones -/

/-- The live keys of the sources, ascending, with their values. -/
structure LiveList (view : View) (out : List Entry) : Prop where
  ascending : Ascending out
  mem : ∀ e, e ∈ out ↔ e.tombstone = false ∧ live e.key view = some e.value

theorem ascending_ext (out out' : List Entry) (ascending : Ascending out)
    (ascending' : Ascending out') (same : ∀ e, e ∈ out ↔ e ∈ out') : out = out' := by
  refine List.Perm.eq_of_pairwise ?_ ascending ascending' ?_
  · intro a b _ _ below above
    exact absurd (below.trans above) (lt_irrefl _)
  · have nodup (l : List Entry) (sorted : Ascending l) : l.Nodup :=
      sorted.imp fun below same => below.ne (congrArg Entry.key same)
    exact (List.perm_ext_iff_of_nodup (nodup out ascending) (nodup out' ascending')).mpr same

theorem mem_iff_findEntry (out : List Entry) (ascending : Ascending out) (e : Entry) :
    e ∈ out ↔ findEntry e.key out = some e :=
  ⟨findEntry_mem out ascending e, fun found => (findEntry_key e.key out e found).2⟩

/-- The live part of a merge. -/
theorem liveList_filter (view : View) (out : List Entry) (ascending : Ascending out)
    (entries : ∀ k, findEntry k out = resolve k view) :
    LiveList view (out.filter fun e => !e.tombstone) where
  ascending := ascending.filter _
  mem := by
    intro e
    rw [List.mem_filter, Bool.not_eq_true', and_comm]
    refine and_congr_right fun alive => ?_
    rw [live, ← entries]
    constructor
    · intro member
      rw [findEntry_mem out ascending e member, Option.bind_some, alive]
      rfl
    · intro isLive
      obtain ⟨x, found, value⟩ := Option.bind_eq_some_iff.mp isLive
      obtain ⟨key, member⟩ := findEntry_key e.key out x found
      split at value
      · cases value
      next living =>
        -- the entry that was found is the entry itself
        have same : x = e := by
          obtain ⟨xKey, xValue, xTombstone⟩ := x
          obtain ⟨eKey, eValue, eTombstone⟩ := e
          simp_all
        rwa [← same]

/-- A step puts its winner before what is left. -/
theorem LiveStep.liveList {I : Interface ι ε} {view view' : View} {winner : Winner}
    {srcs' : List (Source ι)} (step : LiveStep I view winner srcs' view') (out : List Entry)
    (later : LiveList view' out) :
    LiveList view (⟨winner.key.bytes, winner.value.bytes, false⟩ :: out) := by
  have above (e : Entry) (member : e ∈ out) : winner.key.bytes < e.key := by
    -- up to the winner's key nothing is live any more
    have isLive := ((later.mem e).mp member).2
    rw [step.onward] at isLive
    by_contra notAbove
    rw [if_pos (not_lt.mp notAbove)] at isLive
    cases isLive
  refine ⟨List.pairwise_cons.mpr ⟨above, later.ascending⟩, fun e => ?_⟩
  rw [List.mem_cons, later.mem, step.onward]
  obtain ⟨key, value, tombstone⟩ := e
  dsimp only
  -- below the winner nothing is live, at its key it is the winner, above nothing changes
  rcases lt_trichotomy key winner.key.bytes with less | rfl | more
  · simp [step.below key less, less.le, less.ne]
  · simp only [Entry.mk.injEq, true_and, le_refl, if_true, step.here, Option.some.injEq]
    simp [and_comm, eq_comm]
  · simp [more.ne', not_le.mpr more]

/-! ### Whole runs -/

/-- Calls `fn` on one entry after another until it fails. -/
def feedBytes (fn : σ → Bytes → Bytes → Bool → σ × Option ε) : σ → List Entry → σ × Option ε
  | acc, [] => (acc, none)
  | acc, e :: es =>
    match fn acc e.key e.value e.tombstone with
    | (acc, some err) => (acc, some err)
    | (acc, none) => feedBytes fn acc es

theorem feed_byBytes (fn : σ → Bytes → Bytes → Bool → σ × Option ε) (acc : σ) (es : List Entry) :
    feed (byBytes fn) acc es = feedBytes fn acc es := by
  induction es generalizing acc with
  | nil => rfl
  | cons e es ih =>
    have same : byBytes fn acc (cloneBytes e.key) (cloneBytes e.value) e.tombstone =
        fn acc e.key e.value e.tombstone := by
      rw [byBytes, cloneBytes_bytes, cloneBytes_bytes]
    rw [feed, feedBytes, same]
    rcases fn acc e.key e.value e.tombstone with ⟨acc', _ | err⟩
    · exact ih acc'
    · rfl

/-- A step that omits tombstones does not hand one out. -/
theorem mergeStep_alive (I : Interface ι ε) (fuel : Nat) (srcs srcs' : List (Source ι))
    (winner : Winner) (step : mergeStep I true fuel srcs = .ok (some (winner, srcs'))) :
    winner.tombstone = false := by
  induction fuel generalizing srcs with
  | zero => cases step
  | succ fuel ih =>
    rw [mergeStep] at step
    split at step
    · cases step
    next m _ =>
      obtain ⟨advanced, -, step⟩ := (Except.bind_eq_ok _ _ _).mp step
      split at step
      · exact ih advanced step
      next alive =>
        cases step
        simpa using alive

/-- The whole merge with omitted tombstones. The induction is on the rounds; each takes at
least one entry from the sources. -/
theorem forEachMergedFrom_live (I : Interface ι ε) (fuel : Nat) (srcs : List (Source ι))
    (view : View) (shows : List.Forall₂ (Shows I) srcs view) (mergeable : Mergeable view)
    (enough : remaining view < fuel) :
    ∃ out, LiveList view out ∧
      ∀ (σ : Type) (fn : σ → Bytes → Bytes → Bool → σ × Option ε) (acc : σ),
        forEachMergedFrom I true (byBytes fn) fuel srcs acc = feedBytes fn acc out := by
  induction fuel generalizing srcs view with
  | zero => omega
  | succ fuel ih =>
    rcases mergeStep_live I (fuel + 1) srcs view shows mergeable enough with
      ⟨done, nothing⟩ | ⟨winner, srcs', view', found, step⟩
    -- no live key is left, and the loop ends
    · refine ⟨[], ⟨List.Pairwise.nil, fun e => by simp [nothing e.key]⟩, fun σ fn acc => ?_⟩
      rw [forEachMergedFrom, done]
      rfl
    · have fewer := step.fewer
      obtain ⟨out, later, calls⟩ := ih srcs' view' step.shows step.mergeable (by omega)
      refine ⟨_, step.liveList out later, fun σ fn acc => ?_⟩
      -- one call of `fn` for the winner, then the rest of the sources
      have alive := mergeStep_alive I (fuel + 1) srcs srcs' winner found
      rw [forEachMergedFrom, found, feedBytes]
      dsimp only [byBytes]
      rw [alive]
      rcases fn acc winner.key.bytes winner.value.bytes false with ⟨acc', _ | err⟩
      · exact calls σ fn acc'
      · rfl

/-- A caller's loop: `for m.Valid() { ..; m.Next() }`, and the error it looks at then. -/
def MergeIterator.walk (I : Interface ι ε) (bound : Nat) :
    Nat → MergeIterator ι ε → List Entry × Option ε
  | 0, m => ([], m.err)
  | fuel + 1, m =>
    if m.isValid then
      let rest := walk I bound fuel (m.next I bound).1
      (⟨m.key, m.value.bytes, false⟩ :: rest.1, rest.2)
    else ([], m.err)

/-- The walk goes over the live keys that are left, from the one it stands on. -/
theorem MergeIterator.walk_positioned (I : Interface ι ε) (bound fuel : Nat) (m : MergeIterator ι ε)
    (view : View) (positioned : Positioned I m view) (room : remaining view < bound)
    (enough : remaining view < fuel) :
    ∃ out, LiveList view out ∧ m.walk I bound fuel = (out, none) := by
  induction fuel generalizing m view with
  | zero => omega
  | succ fuel ih =>
    obtain ⟨noErr, ⟨atEnd, nothing⟩ | ⟨valid, here, below, view', shows, mergeable, fewer, onward⟩⟩ :=
      positioned
    · refine ⟨[], ⟨List.Pairwise.nil, fun e => by simp [nothing e.key]⟩, ?_⟩
      have invalid : m.isValid = false := by rw [isValid, atEnd, Bool.false_and]
      rw [walk, invalid, noErr]
      rfl
    · have next : m.next I bound = m.advance I bound := by rw [MergeIterator.next, noErr]
      obtain ⟨-, after⟩ := m.advance_positioned I bound view' noErr shows mergeable (by omega)
      rw [← next] at after
      obtain ⟨out, later, rest⟩ := ih _ view' after (by omega) (by omega)
      -- the entry it stands on is the winner of a step
      have step : LiveStep I view ⟨0, some m.key, m.value, false⟩ m.sources view' :=
        ⟨here, below, shows, mergeable, fewer, onward⟩
      refine ⟨_, step.liveList out later, ?_⟩
      have isValid : m.isValid = true := by
        rw [MergeIterator.isValid, valid, noErr]
        rfl
      rw [walk, isValid, if_pos rfl, rest]
      rfl

/-! ### Copied values in a merge iterator -/

def MergeIterator.copied (m : MergeIterator ι ε) : MergeIterator ι ε :=
  { m with value := cloneBytes m.value.bytes }

theorem MergeIterator.advance_copied (I : Interface ι ε) (bound : Nat) (m : MergeIterator ι ε) :
    m.copied.advance (Iterator.copied I) bound =
      ((m.advance I bound).1.copied, (m.advance I bound).2) := by
  rw [advance, advance, mergeStep_copied, show m.copied.sources = m.sources from rfl]
  rcases mergeStep I true bound m.sources with e | _ | ⟨winner, srcs'⟩
  · rfl
  · rfl
  · simp only [Except.map, Option.map, MergeIterator.copied, Winner.copied, cloneBytes_bytes]

theorem MergeIterator.walk_copied (I : Interface ι ε) (bound fuel : Nat) (m : MergeIterator ι ε) :
    m.copied.walk (Iterator.copied I) bound fuel = m.walk I bound fuel := by
  induction fuel generalizing m with
  | zero => rfl
  | succ fuel ih =>
    have moved : (m.copied.next (Iterator.copied I) bound).1 = (m.next I bound).1.copied := by
      rw [next, next, show m.copied.err = m.err from rfl]
      cases m.err with
      | some e => rfl
      | none => exact congrArg Prod.fst (m.advance_copied I bound)
    rw [walk, walk, moved, ih, show m.copied.isValid = m.isValid from rfl,
      show m.copied.value.bytes = m.value.bytes from cloneBytes_bytes _]
    rfl

/-! ### Correctness -/

/-- `Seek` of a source: it goes on with the entries from the key on. -/
def Seeks (I : SeekInterface ι ε) (key : Bytes) (s : Source ι) (v : List Entry × Int) : Prop :=
  (I.seek s.it key).2 = none ∧ Lists I.toInterface (I.seek s.it key).1 (fromKey key v.1) ∧
    s.priority = v.2

theorem shows_of_lists (I : Interface ι ε) (steady : Steady I) (its : List ι) (view : View)
    (lists : List.Forall₂ (fun it v => Lists I it v.1) its view) (mergeable : Mergeable view) :
    List.Forall₂ (Shows (copied I))
      (List.zipWith (fun it priority => ⟨it, priority⟩) its (view.map Prod.snd)) view := by
  induction lists with
  | nil => exact .nil
  | @cons it v its view first _ ih =>
    have here := mergeable.tail.1
    exact .cons ⟨first.yields I steady it v.1 here.1 here.2, rfl⟩ (ih mergeable.tail.2)

/-- The merge from a key on has the live keys that are not below it. -/
theorem liveList_fromKey (view : View) (out : List Entry) (key : Bytes)
    (all : LiveList view out) :
    LiveList (view.map fun v => (fromKey key v.1, v.2)) (fromKey key out) where
  ascending := all.ascending.filter _
  mem := by
    intro e
    rw [mem_fromKey, all.mem, live, live, resolve_fromKey]
    by_cases above : key ≤ e.key
    · simp [above]
    · simp [above]

theorem Mergeable.fromKey (view : View) (mergeable : Mergeable view) (key : Bytes) :
    Mergeable (view.map fun v => (fromKey key v.1, v.2)) := by
  constructor
  · intro v member
    obtain ⟨w, inside, rfl⟩ := List.mem_map.mp member
    exact (mergeable.ascending w inside).filter _
  · intro v member e inV
    obtain ⟨w, inside, rfl⟩ := List.mem_map.mp member
    exact mergeable.keyed w inside e ((fromKey_sublist key w.1).subset inV)
  · intro v member
    obtain ⟨w, inside, rfl⟩ := List.mem_map.mp member
    exact mergeable.priority w inside

/-- With copied values the sources yield their entries. -/
theorem yields_of_seeks (I : SeekInterface ι ε) (steady : Steady I.toInterface) (key : Bytes)
    (srcs : List (Source ι)) (view : View) (seeks : List.Forall₂ (Seeks I key) srcs view)
    (mergeable : Mergeable view) :
    List.Forall₂ (fun s v => (I.seek s.it key).2 = none ∧
      Yields (copied I.toInterface) (I.seek s.it key).1 (fromKey key v.1) ∧ s.priority = v.2)
      srcs view := by
  induction seeks with
  | nil => exact .nil
  | @cons s v srcs view first _ ih =>
    obtain ⟨noError, lists, priority⟩ := first
    obtain ⟨⟨ascending, keyed⟩, later⟩ := mergeable.tail
    refine .cons ⟨noError, ?_, priority⟩ (ih later)
    exact lists.yields _ steady _ _ (ascending.filter _)
      fun e member => keyed e ((fromKey_sublist key v.1).subset member)

/-- `Seek` and the walk behind it, for an iterator in any state whose sources can seek. -/
theorem MergeIterator.walk_seek (I : SeekInterface ι ε) (steady : Steady I.toInterface)
    (view : View) (mergeable : Mergeable view) (out : List Entry) (all : LiveList view out) (key : Bytes) (m : MergeIterator ι ε)
    (seeks : List.Forall₂ (Seeks I key) m.sources view) (bound fuel : Nat)
    (room : remaining view < bound) (enough : remaining view < fuel) :
    (m.seek I bound key).2 = none ∧
      (m.seek I bound key).1.walk I.toInterface bound fuel = (Iterator.fromKey key out, none) := by
  have copies := yields_of_seeks I steady key m.sources view seeks mergeable
  obtain ⟨srcs, sought, shows⟩ := seekAll_shows
    { toInterface := Iterator.copied I.toInterface, seek := I.seek } key m.sources view copies
  have few := remaining_fromKey key view
  have seeked : seekAll I key m.sources = .ok srcs := by
    rw [← sought, seekAll_copied]
  rw [MergeIterator.seek, seeked]
  dsimp only
  -- the seek leaves the sources at the key; the advance takes the first winner
  have moved := ({ m with err := none, sources := srcs } : MergeIterator ι ε).copied.advance_positioned
    (Iterator.copied I.toInterface) bound _ rfl shows (mergeable.fromKey view key) (by omega)
  rw [advance_copied] at moved
  obtain ⟨noError, positioned⟩ := moved
  obtain ⟨rest, living, walked⟩ := walk_positioned _ bound fuel _ _ positioned (by omega) (by omega)
  rw [walk_copied] at walked
  refine ⟨noError, walked.trans ?_⟩
  have wanted := liveList_fromKey view out key all
  rw [ascending_ext rest _ living.ascending wanted.ascending fun e =>
    (living.mem e).trans (wanted.mem e).symm]

/-- What the merge of the sources must do: `ForEachMerged` hands out the merge of their
entries, with or without the tombstones, and a `MergeIterator` shows the live part of it from
the key of `Seek` on. All of it ends once the rounds exceed the number of entries. -/
def Correct (I : SeekInterface ι ε) (mismatch : ε) (its : List ι) (view : View) : Prop :=
  ∃ out, MergeOf view out ∧ ∀ bound > remaining view,
    (∀ (σ : Type) (fn : σ → Bytes → Bytes → Bool → σ × Option ε) (acc : σ),
      forEachMerged I.toInterface mismatch its (view.map Prod.snd) false (byBytes fn) bound acc =
          feedBytes fn acc out ∧
        forEachMerged I.toInterface mismatch its (view.map Prod.snd) true (byBytes fn) bound acc =
          feedBytes fn acc (out.filter fun e => !e.tombstone)) ∧
    ∀ (key : Bytes) (m : MergeIterator ι ε), List.Forall₂ (Seeks I key) m.sources view →
      (m.seek I bound key).2 = none ∧
        (m.seek I bound key).1.walk I.toInterface bound bound =
          ((out.filter fun e => !e.tombstone).filter fun e => decide (key ≤ e.key), none)

theorem correct_of_steady (I : SeekInterface ι ε) (steady : Steady I.toInterface) (mismatch : ε)
    (its : List ι) (view : View)
    (lists : List.Forall₂ (fun it v => Lists I.toInterface it v.1) its view)
    (mergeable : Mergeable view) : Correct I mismatch its view := by
  have shows := shows_of_lists I.toInterface steady its view lists mergeable
  have counts : its.length = (view.map Prod.snd).length := by
    rw [List.length_map]
    exact lists.length_eq
  -- the list does not depend on the rounds or on `fn`
  obtain ⟨out, ascending, entries, -⟩ := forEachMergedFrom_feed (copied I.toInterface)
    (remaining view + 1) _ view shows mergeable (Nat.lt_succ_self _) (σ := Unit)
  have living := liveList_filter view out ascending entries
  refine ⟨out, mergeOf_of_resolve view mergeable.priority out ascending entries,
    fun bound room => ⟨fun σ fn acc => ?_, fun key m seeks => ?_⟩⟩
  · rw [forEachMerged, forEachMerged, if_neg (not_not.mpr counts), if_neg (not_not.mpr counts)]
    constructor
    -- with these rounds the list has the same entries, so it is the same list
    · obtain ⟨out', ascending', entries', calls⟩ := forEachMergedFrom_feed (copied I.toInterface)
        bound _ view shows mergeable room (σ := σ)
      have same : out' = out := ascending_ext out' out ascending' ascending fun e => by
        rw [mem_iff_findEntry out' ascending', mem_iff_findEntry out ascending, entries', entries]
      rw [← forEachMergedFrom_copied, calls, feed_byBytes, same]
    · obtain ⟨out', living', calls⟩ := forEachMergedFrom_live (copied I.toInterface) bound _ view
        shows mergeable room
      rw [← forEachMergedFrom_copied, calls, ascending_ext out' _ living'.ascending living.ascending fun e =>
        (living'.mem e).trans (living.mem e).symm]
  · exact m.walk_seek I steady view mergeable _ living key seeks bound bound room room

/-- The merge of one source is its list. -/
theorem mergeOf_single (es out : List Entry) (priority : Int) (ascending : Ascending es)
    (merge : MergeOf [(es, priority)] out) : out = es := by
  have inside (e : Entry) (member : e ∈ out) : e ∈ es := by
    obtain ⟨v, single, inV, -⟩ := merge.best e member
    rwa [List.mem_singleton.mp single] at inV
  refine ascending_ext out es merge.ascending ascending fun e => ⟨inside e, fun member => ?_⟩
  obtain ⟨x, inOut, same⟩ := (merge.keys e.key).mpr ⟨_, List.mem_singleton.mpr rfl, e, member, rfl⟩
  -- both are the entry of the key in an ascending list
  have found := findEntry_mem es ascending x (inside x inOut)
  rw [same, findEntry_mem es ascending e member] at found
  cases found
  exact inOut

/-- The first call of `fn` gets what the slices of the first entry hold after `Next`. -/
theorem keeps_of_correct (I : SeekInterface ι ε) (mismatch : ε) (it : ι) (e : Entry)
    (es : List Entry) (lists : Lists I.toInterface it (e :: es)) (ascending : Ascending (e :: es))
    (keyed : ∀ x ∈ e :: es, x.key ≠ []) (correct : Correct I mismatch [it] [(e :: es, 0)]) :
    Keeps I.toInterface it := by
  obtain ⟨out, merge, runs⟩ := correct
  rw [mergeOf_single _ out 0 ascending merge] at runs
  obtain ⟨valid, key, value, -, noError, -⟩ := lists
  have some_ : I.key it = some e.key := by
    cases is : I.key it with
    | none =>
      rw [is] at key
      exact absurd key.symm (keyed e List.mem_cons_self)
    | some b =>
      rw [is] at key
      exact congrArg some key
  have stands : standsOn I.toInterface e.key ⟨it, 0⟩ = true := by simp [standsOn, valid, some_]
  have step : I.next it = ((I.next it).1, none) := by rw [← noError]
  -- a function that keeps its first arguments and stops
  obtain ⟨run, -⟩ := (runs _ (Nat.lt_succ_self _)).1 (Bytes × Bytes)
    (fun _ key value _ => ((key, value), some mismatch)) ([], [])
  simp only [forEachMerged, List.map_cons, List.map_nil, List.length_singleton, ne_eq, not_true,
    if_false, List.zipWith_cons_cons, List.zipWith_nil_left, forEachMergedFrom, mergeStep,
    minKeyAcrossSources, minKeyFrom, valid, some_, true_or, if_true, winnerFrom, stands, advanceAll,
    Except.ok_bind, Bool.and_false, Bool.false_eq_true, byBytes, feedBytes,
    show (-1 : Int) < 0 by decide] at run
  rw [step] at run
  obtain ⟨sameKey, sameValue⟩ := Prod.mk.inj (Prod.mk.inj run).1
  exact ⟨by rw [sameKey, key], by rw [sameValue, value]⟩

/-- Iterators are merged correctly, whatever they list, if and only if they keep the slices
they have handed out. -/
theorem merge_correct_iff_steady (I : SeekInterface ι ε) (mismatch : ε) :
    (∀ (its : List ι) (view : View),
        List.Forall₂ (fun it v => Lists I.toInterface it v.1) its view → Mergeable view →
          Correct I mismatch its view) ↔ Steady I.toInterface := by
  constructor
  · intro correct it e es lists ascending keyed
    refine keeps_of_correct I mismatch it e es lists ascending keyed
      (correct [it] [(e :: es, 0)] (.cons lists .nil) ⟨?_, ?_, ?_⟩)
    · exact List.forall_mem_singleton.mpr ascending
    · exact List.forall_mem_singleton.mpr keyed
    · exact List.forall_mem_singleton.mpr (le_refl _)
  · intro steady its view
    exact correct_of_steady I steady mismatch its view

/-- Iterators over lists: the whole list and what is left of it. -/
def overLists : SeekInterface (List Entry × List Entry) Unit where
  valid it := !it.2.isEmpty
  key it := it.2.head?.map Entry.key
  value it := it.2.head?.map Entry.value
  isTombstone it := (it.2.head?.map Entry.tombstone).getD false
  next it := ((it.1, it.2.tail), none)
  seek it key := ((it.1, fromKey key it.1), none)

/-- Two sources over lists, with a key in both of them, one of them deleted by the newer
source, and an empty value that is not nil. -/
theorem merge_correct_over_lists :
    let newer : List Entry := [⟨[97], [1], false⟩, ⟨[99], [], true⟩]
    let older : List Entry := [⟨[97], [2], false⟩, ⟨[98], [], false⟩, ⟨[99], [3], false⟩]
    let its := [(newer, newer), (older, older)]
    let m : MergeIterator (List Entry × List Entry) Unit :=
      ⟨[⟨(newer, []), 1⟩, ⟨(older, older), 0⟩], [], none, false, none⟩
    ∃ out, MergeOf [(newer, 1), (older, 0)] out ∧
      forEachMerged overLists.toInterface () its [1, 0] false
          (byBytes fun acc key value tombstone => (acc ++ [Entry.mk key value tombstone], none)) 6 [] =
        feedBytes (fun acc key value tombstone => (acc ++ [Entry.mk key value tombstone], none)) [] out ∧
      (m.seek overLists 6 [98]).1.walk overLists.toInterface 6 6 = ([⟨[98], [], false⟩], none) ∧
      ([⟨[98], [], false⟩] : List Entry) =
        (out.filter fun e => !e.tombstone).filter fun e => decide ([98] ≤ e.key) := by
  intro newer older its m
  obtain ⟨out, is, runs⟩ := (merge_correct_iff_steady overLists ()).mpr
    (fun _ _ _ _ _ _ => ⟨rfl, rfl⟩) its [(newer, 1), (older, 0)]
    (.cons ⟨rfl, rfl, rfl, rfl, rfl, rfl, rfl, rfl, rfl, rfl, rfl⟩
      (.cons ⟨rfl, rfl, rfl, rfl, rfl, rfl, rfl, rfl, rfl, rfl, rfl, rfl, rfl, rfl, rfl, rfl⟩ .nil))
    ⟨by decide, by decide, by decide⟩
  obtain ⟨calls, walks⟩ := runs 6 (by decide)
  have sought := (walks [98] m (.cons ⟨rfl, ⟨rfl, rfl, rfl, rfl, rfl, rfl⟩, rfl⟩
    (.cons ⟨rfl, ⟨rfl, rfl, rfl, rfl, rfl, rfl, rfl, rfl, rfl, rfl, rfl⟩, rfl⟩ .nil))).2
  have walked : (m.seek overLists 6 [98]).1.walk overLists.toInterface 6 6 = ([⟨[98], [], false⟩], none) := by
    decide
  refine ⟨out, is, (calls _ _ []).1, walked, ?_⟩
  exact congrArg Prod.fst (walked.symm.trans sought)

/-! ### Merge iterators as sources -/

/-- A `MergeIterator` as a source, with the capacities of its buffers. -/
structure Buffered (ι ε : Type) where
  merge : MergeIterator ι ε
  keyCap : Nat
  valueCap : Nat

namespace Buffered

/-- The capacity after `append(buf[:0], bytes...)`; `grow` is that of a new array. -/
def appended (grow : Nat → Nat) (cap : Nat) (bytes : Bytes) : Nat :=
  if bytes.length ≤ cap then cap else grow bytes.length

/-- How a slice of the buffer with the old bytes reads after `append(buf[:0], bytes...)`. -/
def overwritten (cap : Nat) (bytes old : Bytes) : Bytes :=
  -- without room the bytes go to a new array
  if bytes.length ≤ cap then bytes.take old.length ++ old.drop bytes.length else old

/-- `Key`: the buffer itself, nil as long as there is none. -/
def key (b : Buffered ι ε) : Slice := if b.keyCap = 0 then none else some b.merge.key

/-- The buffers after `advance`: an error leaves them, at the end they are dropped. -/
def moved (grow : Nat → Nat) (b : Buffered ι ε) (m : MergeIterator ι ε) : Buffered ι ε :=
  if m.valid then
    ⟨m, appended grow b.keyCap m.key,
      match m.value with
      | none => 0
      | some value => appended grow b.valueCap value⟩
  else if m.err.isSome then { b with merge := m }
  else ⟨m, 0, 0⟩

/-- How the slices read after `Next`: the next entry is in them, as far as it reaches. -/
def kept (b : Buffered ι ε) (m : MergeIterator ι ε) : Slice × Slice :=
  if m.valid then
    (b.key.map (overwritten b.keyCap m.key),
      match m.value with
      | none => b.merge.value
      | some value => b.merge.value.map (overwritten b.valueCap value))
  else (b.key, b.merge.value)

/-- `MergeIterator` as an `Iterator`. -/
def interface (I : SeekInterface ι ε) (bound : Nat) (grow : Nat → Nat) :
    SeekInterface (Buffered ι ε) ε where
  valid b := b.merge.isValid
  key := key
  value b := b.merge.value
  isTombstone _ := false
  next b := (b.moved grow (b.merge.next I.toInterface bound).1, (b.merge.next I.toInterface bound).2)
  kept b := b.kept (b.merge.next I.toInterface bound).1
  seek b key := (b.moved grow (b.merge.seek I bound key).1, (b.merge.seek I bound key).2)

end Buffered

/-- One merge iterator over two entries: a merge of it alone hands out the second entry twice. -/
theorem not_merge_correct_nested :
    let es : List Entry := [⟨[97], [1], false⟩, ⟨[98], [2], false⟩]
    let I := Buffered.interface overLists 3 (max 8)
    let it := (I.seek ⟨⟨[⟨(es, es), 0⟩], [], none, false, none⟩, 0, 0⟩ []).1
    Lists I.toInterface it es ∧ Mergeable [(es, 0)] ∧
      forEachMerged I.toInterface () [it] [0] false
          (byBytes fun acc key value tombstone => (acc ++ [Entry.mk key value tombstone], none)) 3 [] =
        ([⟨[98], [2], false⟩, ⟨[98], [2], false⟩], none) ∧
      ¬Correct I () [it] [(es, 0)] := by
  intro es I it
  have lists : Lists I.toInterface it es :=
    ⟨by decide, by decide, by decide, by decide, by decide, by decide, by decide, by decide,
      by decide, by decide, by rw [Lists]; decide⟩
  refine ⟨lists, ⟨by decide, by decide, by decide⟩, by decide, fun correct => ?_⟩
  obtain ⟨key, -⟩ := keeps_of_correct I () it _ _ lists (by decide) (by decide) correct
  exact absurd key (by decide)

end PebbleDB.Iterator
