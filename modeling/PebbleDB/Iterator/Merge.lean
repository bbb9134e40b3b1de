import PebbleDB.Bytes
import PebbleDB.Lib.Computation
import Mathlib.Data.List.Forall2

/-!
# Merging sorted iterators

`ForEachMerged` repeatedly takes the smallest key any source stands on, hands out the
entry of the source with the highest priority among those that stand on it, and
advances all of them. The smallest key is a slice whose nil value means that no
source is left; an iterator that stands on the empty key returns nil as well, so the
results below are for sources without the empty key, and the last section says what
is left in any case.
-/
namespace PebbleDB.Iterator

/-- The Go interface, as far as merging uses it. `kept` is how the slices that `Key` and
`Value` returned read once `Next` has been called: an iterator that hands out copies leaves
them alone, one that hands out its buffers may have written something else into them. -/
structure Interface (ι ε : Type) where
  valid : ι → Bool
  key : ι → Slice
  value : ι → Slice
  isTombstone : ι → Bool
  next : ι → ι × Option ε
  kept : ι → Slice × Slice := fun it => (key it, value it)

structure Source (ι : Type) where
  it : ι
  priority : Int

variable {ι ε σ : Type}

def minKeyFrom (I : Interface ι ε) : Slice → List (Source ι) → Slice
  | minKey, [] => minKey
  | minKey, s :: srcs =>
    if I.valid s.it then
      -- nil means that nothing was found so far
      if minKey = none ∨ (I.key s.it).bytes < minKey.bytes then minKeyFrom I (I.key s.it) srcs
      else minKeyFrom I minKey srcs
    else minKeyFrom I minKey srcs

def minKeyAcrossSources (I : Interface ι ε) (srcs : List (Source ι)) : Slice :=
  minKeyFrom I none srcs

/-- The source stands on the key. -/
def standsOn (I : Interface ι ε) (minKey : Bytes) (s : Source ι) : Bool :=
  I.valid s.it && decide ((I.key s.it).bytes = minKey)

structure Winner where
  priority : Int
  key : Slice
  value : Slice
  tombstone : Bool

/-- The selection loop of `mergeStep`. Nobody looks at the slices of the winner before `Next`
has been called on its source, so the winner has what they hold then. -/
def winnerFrom (I : Interface ι ε) (minKey : Bytes) : Winner → List (Source ι) → Winner
  | best, [] => best
  | best, s :: srcs =>
    if standsOn I minKey s then
      if best.priority < s.priority then
        winnerFrom I minKey ⟨s.priority, (I.kept s.it).1, (I.kept s.it).2, I.isTombstone s.it⟩ srcs
      else winnerFrom I minKey best srcs
    else winnerFrom I minKey best srcs

/-- Advances every source that stands on the key; the first error ends the merge. -/
def advanceAll (I : Interface ι ε) (minKey : Bytes) : List (Source ι) → Except ε (List (Source ι))
  | [] => .ok []
  | s :: srcs =>
    if standsOn I minKey s then
      match I.next s.it with
      | (_, some e) => .error e
      | (it, none) => do
        let rest ← advanceAll I minKey srcs
        .ok (⟨it, s.priority⟩ :: rest)
    else do
      let rest ← advanceAll I minKey srcs
      .ok (s :: rest)

/-- `none` when no source is left. -/
def mergeStep (I : Interface ι ε) (omitTombstones : Bool) :
    Nat → List (Source ι) → Except ε (Option (Winner × List (Source ι)))
  | 0, _ => .ok none
  | fuel + 1, srcs =>
    match minKeyAcrossSources I srcs with
    | none => .ok none
    | some minKey => do
      let winner := winnerFrom I minKey ⟨-1, none, none, false⟩ srcs
      let srcs ← advanceAll I minKey srcs
      -- the key is deleted: the next one is tried
      if winner.tombstone && omitTombstones then mergeStep I omitTombstones fuel srcs
      else .ok (some (winner, srcs))

/-- The loop of `ForEachMerged`; `fn` may change a state and fail. -/
def forEachMergedFrom (I : Interface ι ε) (omitTombstones : Bool)
    (fn : σ → Slice → Slice → Bool → σ × Option ε) : Nat → List (Source ι) → σ → σ × Option ε
  | 0, _, acc => (acc, none)
  | fuel + 1, srcs, acc =>
    match mergeStep I omitTombstones (fuel + 1) srcs with
    | .error e => (acc, some e)
    | .ok none => (acc, none)
    | .ok (some (winner, srcs)) =>
      match fn acc winner.key winner.value winner.tombstone with
      | (acc, some e) => (acc, some e)
      | (acc, none) => forEachMergedFrom I omitTombstones fn fuel srcs acc

def forEachMerged (I : Interface ι ε) (priorityMismatch : ε) (its : List ι)
    (priorities : List Int) (omitTombstones : Bool)
    (fn : σ → Slice → Slice → Bool → σ × Option ε) (fuel : Nat) (acc : σ) : σ × Option ε :=
  if its.length ≠ priorities.length then (acc, some priorityMismatch)
  else forEachMergedFrom I omitTombstones fn fuel
    (List.zipWith (fun it priority => ⟨it, priority⟩) its priorities) acc

/-! ### Sources as lists of entries -/

/-- The iterator hands out exactly the given entries, in slices that keep them, and never
fails. -/
def Yields (I : Interface ι ε) : ι → List Entry → Prop
  | it, [] => I.valid it = false
  | it, e :: es => I.valid it = true ∧ I.key it = cloneBytes e.key ∧
      I.kept it = (cloneBytes e.key, cloneBytes e.value) ∧ I.isTombstone it = e.tombstone ∧
      (I.next it).2 = none ∧ Yields I (I.next it).1 es

/-- The entries a source has left, with its priority. -/
abbrev View := List (List Entry × Int)

def Shows (I : Interface ι ε) (s : Source ι) (v : List Entry × Int) : Prop :=
  Yields I s.it v.1 ∧ s.priority = v.2

/-- Sorted, without the empty key, with priorities that beat the initial one. -/
structure Mergeable (view : View) : Prop where
  ascending : ∀ v ∈ view, Ascending v.1
  keyed : ∀ v ∈ view, ∀ e ∈ v.1, e.key ≠ []
  priority : ∀ v ∈ view, 0 ≤ v.2

theorem Mergeable.tail {v : List Entry × Int} {view : View} (mergeable : Mergeable (v :: view)) :
    (Ascending v.1 ∧ ∀ e ∈ v.1, e.key ≠ []) ∧ Mergeable view := by
  obtain ⟨ascending, keyed, priority⟩ := mergeable
  rw [List.forall_mem_cons] at ascending keyed priority
  exact ⟨⟨ascending.1, keyed.1⟩, ascending.2, keyed.2, priority.2⟩

/-- The best entry for a key: the one of the source with the highest priority. -/
def resolveFrom (k : Bytes) : Int × Option Entry → View → Int × Option Entry
  | best, [] => best
  | best, (es, priority) :: view =>
    match findEntry k es with
    | none => resolveFrom k best view
    | some e => resolveFrom k (if best.1 < priority then (priority, some e) else best) view

def resolve (k : Bytes) (view : View) : Option Entry := (resolveFrom k (-1, none) view).2

/-- The view after the step on `m`. -/
def dropKey (m : Bytes) (v : List Entry × Int) : List Entry × Int :=
  match v with
  | (e :: es, priority) => if e.key = m then (es, priority) else (e :: es, priority)
  | ([], priority) => ([], priority)

def remaining (view : View) : Nat := (view.map fun v => v.1.length).sum

/-! ### One step -/

/-- What the search for the smallest key sees of a source: nothing, or a key that is
not nil. -/
def Heads {α : Type} (I : Interface ι ε) (s : Source ι) (v : List Entry × α) : Prop :=
  I.valid s.it = false ∧ v.1 = [] ∨
    ∃ e es, v.1 = e :: es ∧ I.valid s.it = true ∧ I.key s.it = some e.key

theorem Shows.heads (I : Interface ι ε) (s : Source ι) (v : List Entry × Int) (shows : Shows I s v)
    (keyed : ∀ e ∈ v.1, e.key ≠ []) : Heads I s v := by
  obtain ⟨es, priority⟩ := v
  cases es with
  | nil => exact .inl ⟨shows.1, rfl⟩
  | cons e es =>
    refine .inr ⟨e, es, rfl, shows.1.1, ?_⟩
    rw [shows.1.2.1]
    exact cloneBytes_of_ne_nil e.key (keyed e (by simp))

theorem heads_of_shows (I : Interface ι ε) (srcs : List (Source ι)) (view : View)
    (shows : List.Forall₂ (Shows I) srcs view) (keyed : ∀ v ∈ view, ∀ e ∈ v.1, e.key ≠ []) :
    List.Forall₂ (Heads I) srcs view := by
  induction shows with
  | nil => exact .nil
  | @cons s v srcs view first _ ih =>
    obtain ⟨here, later⟩ := List.forall_mem_cons.mp keyed
    exact .cons (first.heads I s v here) (ih later)

/-- The keys the sources stand on. -/
def headKeys {α : Type} (view : List (List Entry × α)) : List Bytes :=
  view.filterMap fun v => v.1.head?.map Entry.key

theorem mem_headKeys {α : Type} (view : List (List Entry × α)) (k : Bytes) :
    k ∈ headKeys view ↔ ∃ v ∈ view, ∃ e es, v.1 = e :: es ∧ e.key = k := by
  simp only [headKeys, List.mem_filterMap, Option.map_eq_some_iff, List.head?_eq_some_iff]
  constructor
  · rintro ⟨v, member, e, ⟨es, head⟩, key⟩
    exact ⟨v, member, e, es, head, key⟩
  · rintro ⟨v, member, e, es, head, key⟩
    exact ⟨v, member, e, ⟨es, head⟩, key⟩

/-- The loop is a minimum over the heads; `acc` takes part as one more key. -/
theorem minKeyFrom_eq_min {α : Type} (I : Interface ι ε) (srcs : List (Source ι))
    (view : List (List Entry × α)) (heads : List.Forall₂ (Heads I) srcs view) (acc : Slice) :
    minKeyFrom I acc srcs = (acc.toList ++ headKeys view).min? := by
  induction heads generalizing acc with
  | nil => cases acc <;> rfl
  | @cons s v srcs view first _ ih =>
    rcases first with ⟨invalid, empty⟩ | ⟨e, es, head, valid, key⟩
    · have same : headKeys (v :: view) = headKeys view := by simp [headKeys, empty]
      rw [same, ← ih acc]
      simp [minKeyFrom, invalid]
    · have more : headKeys (v :: view) = e.key :: headKeys view := by simp [headKeys, head]
      rw [more, minKeyFrom, if_pos valid, key, Slice.bytes_some]
      cases acc with
      | none =>
        rw [if_pos (.inl rfl)]
        exact ih (some e.key)
      | some a =>
        simp only [reduceCtorEq, false_or, Slice.bytes_some, Option.toList_some,
          List.singleton_append, List.min?_cons', List.foldl_cons]
        split
        next smaller =>
          rw [ih, min_eq_right smaller.le]
          rfl
        next notSmaller =>
          rw [ih, min_eq_left (not_lt.mp notSmaller)]
          rfl

/-- The result is nil only when no source is left; otherwise it is the smallest head. -/
theorem minKeyAcrossSources_spec {α : Type} (I : Interface ι ε) (srcs : List (Source ι))
    (view : List (List Entry × α)) (heads : List.Forall₂ (Heads I) srcs view) :
    match minKeyAcrossSources I srcs with
    | none => ∀ v ∈ view, v.1 = []
    | some m => (∃ v ∈ view, ∃ e es, v.1 = e :: es ∧ e.key = m) ∧
        ∀ v ∈ view, ∀ e es, v.1 = e :: es → m ≤ e.key := by
  rw [minKeyAcrossSources, minKeyFrom_eq_min I srcs view heads none, Option.toList_none,
    List.nil_append]
  cases found : (headKeys view).min? with
  | none =>
    intro v member
    rw [List.min?_eq_none_iff] at found
    cases head : v.1 with
    | nil => rfl
    | cons e es =>
      have inside := (mem_headKeys view e.key).mpr ⟨v, member, e, es, head, rfl⟩
      rw [found] at inside
      cases inside
  | some m =>
    obtain ⟨attained, least⟩ := List.min?_eq_some_iff.mp found
    refine ⟨(mem_headKeys view m).mp attained, fun v member e es head => ?_⟩
    exact least e.key ((mem_headKeys view e.key).mpr ⟨v, member, e, es, head, rfl⟩)

/-- No key of a sorted list lies below a bound of its head. -/
theorem le_of_head (m : Bytes) (es : List Entry) (ascending : Ascending es)
    (least : ∀ e rest, es = e :: rest → m ≤ e.key) : ∀ e ∈ es, m ≤ e.key := by
  cases es with
  | nil => simp
  | cons e es =>
    have head := least e es rfl
    obtain ⟨first, -⟩ := List.pairwise_cons.mp ascending
    exact List.forall_mem_cons.mpr ⟨head, fun x member => head.trans (first x member).le⟩

/-- The entry of the smallest key can only be the head. -/
theorem findEntry_head (m : Bytes) (e : Entry) (es : List Entry) (ascending : Ascending (e :: es))
    (least : m ≤ e.key) : findEntry m (e :: es) = if e.key = m then some e else none := by
  obtain ⟨first, -⟩ := List.pairwise_cons.mp ascending
  have absent : findEntry m es = none := by
    rw [findEntry_eq_none]
    intro x member
    exact (least.trans_lt (first x member)).ne'
  rw [findEntry_cons, absent]

/-- The winner so far carries the best entry so far. -/
def Agrees (w : Winner) (best : Int × Option Entry) : Prop :=
  w.priority = best.1 ∧ ∀ e, best.2 = some e →
    w.key = cloneBytes e.key ∧ w.value = cloneBytes e.value ∧ w.tombstone = e.tombstone

/-- A start that no source on the key beats stays the winner. -/
theorem winnerFrom_unbeaten (I : Interface ι ε) (m : Bytes) (srcs : List (Source ι)) (best : Winner)
    (unbeaten : ∀ s ∈ srcs, standsOn I m s = true → s.priority ≤ best.priority) :
    winnerFrom I m best srcs = best := by
  induction srcs with
  | nil => rfl
  | cons s srcs ih =>
    obtain ⟨here, later⟩ := List.forall_mem_cons.mp unbeaten
    rw [winnerFrom, ih later]
    split
    next stands => rw [if_neg (not_lt.mpr (here stands))]
    next => rfl

theorem winnerFrom_agrees (I : Interface ι ε) (m : Bytes) (srcs : List (Source ι)) (view : View)
    (shows : List.Forall₂ (Shows I) srcs view) (mergeable : Mergeable view)
    (least : ∀ v ∈ view, ∀ e es, v.1 = e :: es → m ≤ e.key) (w : Winner)
    (best : Int × Option Entry) (agrees : Agrees w best) :
    Agrees (winnerFrom I m w srcs) (resolveFrom m best view) := by
  induction shows generalizing w best with
  | nil => exact agrees
  | @cons s v srcs view first _ ih =>
    have later := ih mergeable.tail.2 (fun x member => least x (by simp [member]))
    obtain ⟨es, priority⟩ := v
    cases es with
    | nil =>
      have invalid : I.valid s.it = false := first.1
      have skip : standsOn I m s = false := by simp [standsOn, invalid]
      simp only [winnerFrom, skip, Bool.false_eq_true, if_false, resolveFrom, findEntry,
        List.find?_nil]
      exact later w best agrees
    | cons e es =>
      obtain ⟨⟨valid, key, kept, tombstone, -, -⟩, same⟩ := first
      have entry := findEntry_head m e es
        (mergeable.ascending (e :: es, priority) List.mem_cons_self)
        (least (e :: es, priority) List.mem_cons_self e es rfl)
      have stands : standsOn I m s = decide (e.key = m) := by
        simp [standsOn, valid, key]
      simp only [winnerFrom, stands, resolveFrom, entry, decide_eq_true_eq]
      by_cases here : e.key = m
      · simp only [here, if_true]
        have order : w.priority < s.priority ↔ best.1 < priority := by
          rw [agrees.1, same]
        by_cases better : best.1 < priority
        · rw [if_pos (order.mpr better), if_pos better]
          apply later
          refine ⟨same, ?_⟩
          rintro x ⟨rfl⟩
          exact ⟨congrArg Prod.fst kept, congrArg Prod.snd kept, tombstone⟩
        · rw [if_neg (fun less => better (order.mp less)), if_neg better]
          exact later w best agrees
      · simp only [here, if_false]
        exact later w best agrees

/-- All sources on the key advance, the others stay. -/
theorem advanceAll_ok (I : Interface ι ε) (m : Bytes) (srcs : List (Source ι)) (view : View)
    (shows : List.Forall₂ (Shows I) srcs view) :
    ∃ srcs', advanceAll I m srcs = .ok srcs' ∧
      List.Forall₂ (Shows I) srcs' (view.map (dropKey m)) := by
  induction shows with
  | nil => exact ⟨[], rfl, .nil⟩
  | @cons s v srcs view first _ ih =>
    obtain ⟨rest, advanced, showsRest⟩ := ih
    obtain ⟨es, priority⟩ := v
    cases es with
    | nil =>
      have invalid : I.valid s.it = false := first.1
      have skip : standsOn I m s = false := by simp [standsOn, invalid]
      refine ⟨s :: rest, ?_, .cons first showsRest⟩
      simp [advanceAll, skip, advanced]
    | cons e es =>
      obtain ⟨⟨valid, key, value, tombstone, noError, onward⟩, same⟩ := first
      have stands : standsOn I m s = decide (e.key = m) := by
        simp [standsOn, valid, key]
      by_cases here : e.key = m
      · have step : I.next s.it = ((I.next s.it).1, none) := by rw [← noError]
        refine ⟨⟨(I.next s.it).1, s.priority⟩ :: rest, ?_, ?_⟩
        · rw [advanceAll, stands, if_pos (by simpa using here), step]
          simp [advanced]
        · simp only [List.map_cons, dropKey, here, if_true]
          exact .cons ⟨onward, same⟩ showsRest
      · refine ⟨s :: rest, ?_, ?_⟩
        · rw [advanceAll, stands, if_neg (by simpa using here), advanced]
          rfl
        · simp only [List.map_cons, dropKey, here, if_false]
          exact .cons ⟨⟨valid, key, value, tombstone, noError, onward⟩, same⟩ showsRest

/-! ### Resolving a key -/

theorem resolveFrom_some (k : Bytes) (view : View) (best : Int × Option Entry) (e : Entry)
    (found : (resolveFrom k best view).2 = some e) :
    best.2 = some e ∨ ∃ v ∈ view, findEntry k v.1 = some e := by
  induction view generalizing best with
  | nil => exact .inl found
  | cons v view ih =>
    rw [resolveFrom] at found
    cases here : findEntry k v.1 with
    | none =>
      rw [here] at found
      rcases ih best found with old | ⟨w, member, there⟩
      · exact .inl old
      · exact .inr ⟨w, List.mem_cons_of_mem _ member, there⟩
    | some x =>
      rw [here] at found
      rcases ih _ found with old | ⟨w, member, there⟩
      · split at old
        · cases old
          exact .inr ⟨v, List.mem_cons_self, here⟩
        · exact .inl old
      · exact .inr ⟨w, List.mem_cons_of_mem _ member, there⟩

/-- A key that some source has is resolved, since every priority beats the initial one. -/
theorem resolveFrom_ne_none (k : Bytes) (view : View) (priority : ∀ v ∈ view, 0 ≤ v.2)
    (best : Int × Option Entry) (start : best.1 < 0 ∨ best.2 ≠ none)
    (present : best.2 ≠ none ∨ ∃ v ∈ view, findEntry k v.1 ≠ none) :
    (resolveFrom k best view).2 ≠ none := by
  induction view generalizing best with
  | nil =>
    rcases present with here | ⟨v, member, -⟩
    · exact here
    · cases member
  | cons v view ih =>
    have later := ih fun w member => priority w (by simp [member])
    rw [resolveFrom]
    cases here : findEntry k v.1 with
    | none =>
      apply later best start
      rcases present with old | ⟨w, member, there⟩
      · exact .inl old
      · rcases List.mem_cons.mp member with rfl | inside
        · exact absurd here there
        · exact .inr ⟨w, inside, there⟩
    | some x =>
      have nonneg := priority v (by simp)
      by_cases better : best.1 < v.2
      · simp only [if_pos better]
        exact later _ (.inr (by simp)) (.inl (by simp))
      · have kept : best.2 ≠ none := by
          rcases start with low | some_
          · omega
          · exact some_
        simp only [if_neg better]
        exact later best (.inr kept) (.inl kept)

theorem findEntry_dropKey (k m : Bytes) (v : List Entry × Int) (ne : k ≠ m) :
    findEntry k (dropKey m v).1 = findEntry k v.1 ∧ (dropKey m v).2 = v.2 := by
  obtain ⟨es, priority⟩ := v
  cases es with
  | nil => exact ⟨rfl, rfl⟩
  | cons e es =>
    rw [dropKey]
    split
    next here =>
      refine ⟨?_, rfl⟩
      rw [findEntry_cons, if_neg (fun same => ne (same.symm.trans here))]
    next => exact ⟨rfl, rfl⟩

theorem resolveFrom_dropKey (k m : Bytes) (view : View) (ne : k ≠ m) (best : Int × Option Entry) :
    resolveFrom k best (view.map (dropKey m)) = resolveFrom k best view := by
  induction view generalizing best with
  | nil => rfl
  | cons v view ih =>
    obtain ⟨entry, priority⟩ := findEntry_dropKey k m v ne
    rw [List.map_cons, resolveFrom, resolveFrom, entry, priority]
    cases findEntry k v.1 with
    | none => exact ih best
    | some e => exact ih _

/-! ### Whole merges -/

/-- Calls `fn` on one entry after another until it fails. -/
def feed (fn : σ → Slice → Slice → Bool → σ × Option ε) : σ → List Entry → σ × Option ε
  | acc, [] => (acc, none)
  | acc, e :: es =>
    match fn acc (cloneBytes e.key) (cloneBytes e.value) e.tombstone with
    | (acc, some err) => (acc, some err)
    | (acc, none) => feed fn acc es

theorem Mergeable.dropKey (m : Bytes) (view : View) (mergeable : Mergeable view) :
    Mergeable (view.map (dropKey m)) := by
  have part (v : List Entry × Int) : (Iterator.dropKey m v).1.Sublist v.1 ∧
      (Iterator.dropKey m v).2 = v.2 := by
    obtain ⟨es, priority⟩ := v
    cases es with
    | nil => exact ⟨List.Sublist.refl _, rfl⟩
    | cons e es =>
      rw [Iterator.dropKey]
      split
      · exact ⟨List.sublist_cons_self e es, rfl⟩
      · exact ⟨List.Sublist.refl _, rfl⟩
  constructor
  · intro v member
    obtain ⟨w, inside, rfl⟩ := List.mem_map.mp member
    exact (mergeable.ascending w inside).sublist (part w).1
  · intro v member e inV
    obtain ⟨w, inside, rfl⟩ := List.mem_map.mp member
    exact mergeable.keyed w inside e ((part w).1.subset inV)
  · intro v member
    obtain ⟨w, inside, rfl⟩ := List.mem_map.mp member
    rw [(part w).2]
    exact mergeable.priority w inside

/-- After the step every key left lies above the one handed out. -/
theorem dropKey_above (m : Bytes) (v : List Entry × Int) (ascending : Ascending v.1)
    (least : ∀ e es, v.1 = e :: es → m ≤ e.key) : ∀ e ∈ (dropKey m v).1, m < e.key := by
  obtain ⟨es, priority⟩ := v
  cases es with
  | nil => simp [dropKey]
  | cons e es =>
    obtain ⟨first, -⟩ := List.pairwise_cons.mp ascending
    have head := least e es rfl
    rw [dropKey]
    split
    next here =>
      intro x member
      rw [← here]
      exact first x member
    next apart =>
      have strict : m < e.key := lt_of_le_of_ne head (Ne.symm apart)
      intro x member
      rcases List.mem_cons.mp member with rfl | later
      · exact strict
      · exact strict.trans (first x later)

theorem remaining_dropKey (m : Bytes) (view : View)
    (present : ∃ v ∈ view, ∃ e es, v.1 = e :: es ∧ e.key = m) :
    remaining (view.map (dropKey m)) < remaining view := by
  have shrink (v : List Entry × Int) : (dropKey m v).1.length ≤ v.1.length := by
    obtain ⟨es, priority⟩ := v
    cases es with
    | nil => exact Nat.le_refl _
    | cons e es =>
      rw [dropKey]
      split
      · exact Nat.le_succ _
      · exact Nat.le_refl _
  have shrinkAll (view : View) : remaining (view.map (dropKey m)) ≤ remaining view := by
    induction view with
    | nil => exact Nat.le_refl _
    | cons v view ih =>
      have here := shrink v
      simp only [remaining, List.map_cons, List.sum_cons] at ih ⊢
      omega
  induction view with
  | nil =>
    obtain ⟨v, member, -⟩ := present
    cases member
  | cons v view ih =>
    obtain ⟨w, member, e, es, head, key⟩ := present
    rcases List.mem_cons.mp member with rfl | later
    · have others := shrinkAll view
      have here : (dropKey m w).1.length + 1 = w.1.length := by
        obtain ⟨list, priority⟩ := w
        simp only at head
        subst head
        simp [dropKey, key]
      simp only [remaining, List.map_cons, List.sum_cons] at others ⊢
      omega
    · have others := ih ⟨w, later, e, es, head, key⟩
      have here := shrink v
      simp only [remaining, List.map_cons, List.sum_cons] at others ⊢
      omega

theorem resolve_eq_none (k : Bytes) (view : View) (absent : ∀ v ∈ view, findEntry k v.1 = none) :
    resolve k view = none := by
  cases found : resolve k view with
  | none => rfl
  | some e =>
    rcases resolveFrom_some k view _ e found with old | ⟨v, member, there⟩
    · cases old
    · rw [absent v member] at there
      cases there

/-- The best entry of a key has that key and comes from some source. -/
theorem resolve_some (k : Bytes) (view : View) (e : Entry) (found : resolve k view = some e) :
    e.key = k ∧ ∃ v ∈ view, e ∈ v.1 := by
  rcases resolveFrom_some k view _ e found with old | ⟨v, member, there⟩
  · cases old
  · obtain ⟨key, inside⟩ := findEntry_key k v.1 e there
    exact ⟨key, v, member, inside⟩

/-- What a step on the smallest key `m` does: the winner carries the best entry of `m`, and
the sources move on to the keys above it. -/
structure Round (I : Interface ι ε) (srcs : List (Source ι)) (view : View) (m : Bytes)
    (best : Entry) (srcs' : List (Source ι)) (view' : View) : Prop where
  least : minKeyAcrossSources I srcs = some m
  advanced : advanceAll I m srcs = .ok srcs'
  key : (winnerFrom I m ⟨-1, none, none, false⟩ srcs).key = cloneBytes best.key
  value : (winnerFrom I m ⟨-1, none, none, false⟩ srcs).value = cloneBytes best.value
  tombstone : (winnerFrom I m ⟨-1, none, none, false⟩ srcs).tombstone = best.tombstone
  resolved : resolve m view = some best
  shows : List.Forall₂ (Shows I) srcs' view'
  mergeable : Mergeable view'
  fewer : remaining view' < remaining view
  below : ∀ k < m, resolve k view = none
  onward : ∀ k, resolve k view' = if k = m then none else resolve k view

/-- A merge is over, or its next step hands out the best entry of the smallest key. -/
theorem round_cases (I : Interface ι ε) (srcs : List (Source ι)) (view : View)
    (shows : List.Forall₂ (Shows I) srcs view) (mergeable : Mergeable view) :
    (minKeyAcrossSources I srcs = none ∧ ∀ k, resolve k view = none) ∨
      ∃ m best srcs' view', Round I srcs view m best srcs' view' := by
  have smallest := minKeyAcrossSources_spec I srcs view
    (heads_of_shows I srcs view shows mergeable.keyed)
  cases found : minKeyAcrossSources I srcs with
  | none =>
    rw [found] at smallest
    refine .inl ⟨rfl, fun k => resolve_eq_none k view fun v member => ?_⟩
    rw [smallest v member]
    rfl
  | some m =>
    rw [found] at smallest
    obtain ⟨present, least⟩ := smallest
    obtain ⟨srcs', advanced, shows'⟩ := advanceAll_ok I m srcs view shows
    have winner := winnerFrom_agrees I m srcs view shows mergeable least
      ⟨-1, none, none, false⟩ (-1, none) ⟨rfl, by simp⟩
    -- the key has an entry, which the winner carries
    obtain ⟨best, isBest⟩ : ∃ best, resolve m view = some best := by
      apply Option.ne_none_iff_exists'.mp
      apply resolveFrom_ne_none m view mergeable.priority _ (.inl (by decide))
      obtain ⟨v, member, e, es, head, key⟩ := present
      refine .inr ⟨v, member, ?_⟩
      rw [head, findEntry_cons, if_pos key]
      simp
    obtain ⟨key, value, tombstone⟩ := winner.2 best isBest
    have above (v : List Entry × Int) (member : v ∈ view) : ∀ e ∈ v.1, m ≤ e.key :=
      le_of_head m v.1 (mergeable.ascending v member) (least v member)
    refine .inr ⟨m, best, srcs', view.map (dropKey m), found, advanced, key, value, tombstone,
      isBest, shows', mergeable.dropKey m view, remaining_dropKey m view present, ?_, ?_⟩
    · intro k less
      refine resolve_eq_none k view fun v member => ?_
      rw [findEntry_eq_none]
      exact fun e inside => (less.trans_le (above v member e inside)).ne'
    · intro k
      split
      next here =>
        subst here
        refine resolve_eq_none k _ fun v member => ?_
        obtain ⟨w, inside, rfl⟩ := List.mem_map.mp member
        rw [findEntry_eq_none]
        exact fun e inW =>
          (dropKey_above k w (mergeable.ascending w inside) (least w inside) e inW).ne'
      next other => rw [resolve, resolveFrom_dropKey k m view other, resolve]

/-- The whole merge without omitted tombstones: `fn` sees, in ascending order, each key
that some source has, with its best entry. -/
theorem forEachMergedFrom_feed (I : Interface ι ε) (fuel : Nat) (srcs : List (Source ι))
    (view : View) (shows : List.Forall₂ (Shows I) srcs view) (mergeable : Mergeable view)
    (enough : remaining view < fuel) :
    ∃ out, Ascending out ∧ (∀ k, findEntry k out = resolve k view) ∧
      ∀ (fn : σ → Slice → Slice → Bool → σ × Option ε) (acc : σ),
        forEachMergedFrom I false fn fuel srcs acc = feed fn acc out := by
  induction fuel generalizing srcs view with
  | zero => omega
  | succ fuel ih =>
    rcases round_cases I srcs view shows mergeable with
      ⟨over_, nothing⟩ | ⟨m, best, srcs', view', round⟩
    · refine ⟨[], List.Pairwise.nil, fun k => (nothing k).symm, fun fn acc => ?_⟩
      simp [forEachMergedFrom, mergeStep, over_, feed]
    · have bestKey := (resolve_some m view best round.resolved).1
      have fewer := round.fewer
      obtain ⟨out, ascending, entries, calls⟩ := ih srcs' view' round.shows round.mergeable
        (by omega)
      refine ⟨best :: out, List.pairwise_cons.mpr ⟨fun e member => ?_, ascending⟩, fun k => ?_,
        fun fn acc => ?_⟩
      · -- an entry handed out later is resolved by what the step left, so it lies above
        have later : resolve e.key view' ≠ none := by
          rw [← entries e.key]
          intro none_
          exact (findEntry_eq_none e.key out).mp none_ e member rfl
        rw [round.onward] at later
        rw [bestKey]
        by_contra notAbove
        rcases lt_or_eq_of_le (not_lt.mp notAbove) with below | same
        · rw [if_neg below.ne, round.below e.key below] at later
          exact later rfl
        · rw [if_pos same] at later
          exact later rfl
      · rw [findEntry_cons, bestKey, entries k, round.onward k]
        by_cases same : m = k
        · rw [if_pos same, ← same, round.resolved]
        · rw [if_neg same, if_neg (Ne.symm same)]
      · rw [forEachMergedFrom, mergeStep, round.least]
        simp only [round.advanced, Except.ok_bind, Bool.and_false, Bool.false_eq_true, if_false]
        rw [round.key, round.value, round.tombstone, feed]
        cases fn acc (cloneBytes best.key) (cloneBytes best.value) best.tombstone with
        | mk acc err =>
          cases err with
          | some e => rfl
          | none => exact calls fn acc

/-! ### Arbitrary sources -/

theorem minKeyFrom_attained (I : Interface ι ε) (srcs : List (Source ι)) (acc : Slice) (m : Bytes)
    (found : minKeyFrom I acc srcs = some m) :
    acc = some m ∨ ∃ s ∈ srcs, standsOn I m s = true ∧ I.key s.it = some m := by
  induction srcs generalizing acc with
  | nil => exact .inl found
  | cons s srcs ih =>
    have later (acc' : Slice) (rest : minKeyFrom I acc' srcs = some m) :
        acc' = some m ∨ ∃ t ∈ s :: srcs, standsOn I m t = true ∧ I.key t.it = some m := by
      rcases ih acc' rest with here | ⟨t, member, stands⟩
      · exact .inl here
      · exact .inr ⟨t, List.mem_cons_of_mem _ member, stands⟩
    rw [minKeyFrom] at found
    split at found
    next valid =>
      split at found
      · rcases later _ found with here | there
        · exact .inr ⟨s, List.mem_cons_self, by simp [standsOn, valid, here], here⟩
        · exact .inr there
      · exact later _ found
    next => exact later _ found

theorem advanceAll_priority (I : Interface ι ε) (m : Bytes) (srcs srcs' : List (Source ι))
    (advanced : advanceAll I m srcs = .ok srcs') :
    srcs'.map Source.priority = srcs.map Source.priority := by
  induction srcs generalizing srcs' with
  | nil =>
    cases advanced
    rfl
  | cons s srcs ih =>
    rw [advanceAll] at advanced
    split at advanced
    · split at advanced
      · cases advanced
      · obtain ⟨rest, later, built⟩ := (Except.bind_eq_ok _ _ _).mp advanced
        cases built
        simp [ih rest later]
    · obtain ⟨rest, later, built⟩ := (Except.bind_eq_ok _ _ _).mp advanced
      cases built
      simp [ih rest later]

end PebbleDB.Iterator
