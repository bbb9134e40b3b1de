import PebbleDB.Iterator.Merge

/-!
# The merge iterator

A `MergeIterator` positions all its sources on a key and then walks over their merge one
live entry at a time; tombstones are skipped. `live` says what the walk should show of a
key, and `Positioned` what an iterator that stands somewhere in the walk has still to
show: the results hold for sources without the empty key.
-/
namespace PebbleDB.Iterator

/-- The whole Go interface, with `Seek`. -/
structure SeekInterface (ι ε : Type) extends Interface ι ε where
  seek : ι → Bytes → ι × Option ε

/-- The key buffer is only ever read as bytes. -/
structure MergeIterator (ι ε : Type) where
  sources : List (Source ι)
  key : Bytes
  value : Slice
  valid : Bool
  err : Option ε

variable {ι ε : Type}

def newMergeIterator (priorityMismatch : ε) (its : List ι) (priorities : List Int) :
    Except ε (MergeIterator ι ε) :=
  if its.length ≠ priorities.length then .error priorityMismatch
  else .ok ⟨List.zipWith (fun it priority => ⟨it, priority⟩) its priorities, [], none, false, none⟩

/-- The loop of `Seek`; the first error ends it. -/
def seekAll (I : SeekInterface ι ε) (key : Bytes) : List (Source ι) → Except ε (List (Source ι))
  | [] => .ok []
  | s :: srcs =>
    match I.seek s.it key with
    | (_, some e) => .error e
    | (it, none) => do
      let rest ← seekAll I key srcs
      .ok (⟨it, s.priority⟩ :: rest)

namespace MergeIterator

/-- `Valid`. -/
def isValid (m : MergeIterator ι ε) : Bool := m.valid && m.err.isNone

/-- Where the source leaves its sources after an error or at the end is not kept: such an
iterator only repeats the error or the end. -/
def advance (I : Interface ι ε) (fuel : Nat) (m : MergeIterator ι ε) : MergeIterator ι ε × Option ε :=
  match mergeStep I true fuel m.sources with
  | .error e => ({ m with err := some e, valid := false }, some e)
  -- after an error the key stays, at the end it is cleared
  | .ok none => ({ m with valid := false, key := [], value := none }, m.err)
  | .ok (some (winner, srcs)) =>
    ({ m with
        sources := srcs
        key := winner.key.bytes
        value := winner.value
        valid := true }, none)

def seek (I : SeekInterface ι ε) (fuel : Nat) (m : MergeIterator ι ε) (key : Bytes) :
    MergeIterator ι ε × Option ε :=
  match seekAll I key m.sources with
  | .error e => ({ m with err := some e, valid := false }, some e)
  | .ok srcs => advance I.toInterface fuel { m with err := none, sources := srcs }

def next (I : Interface ι ε) (fuel : Nat) (m : MergeIterator ι ε) : MergeIterator ι ε × Option ε :=
  match m.err with
  | some e => (m, some e)
  | none => m.advance I fuel

end MergeIterator

/-! ### Entries from a key on -/

def fromKey (key : Bytes) (es : List Entry) : List Entry := es.filter fun e => decide (key ≤ e.key)

theorem fromKey_sublist (key : Bytes) (es : List Entry) : (fromKey key es).Sublist es :=
  List.filter_sublist

theorem mem_fromKey (key : Bytes) (es : List Entry) (e : Entry) :
    e ∈ fromKey key es ↔ e ∈ es ∧ key ≤ e.key := by
  simp [fromKey]

theorem findEntry_fromKey (k key : Bytes) (es : List Entry) :
    findEntry k (fromKey key es) = if key ≤ k then findEntry k es else none := by
  induction es with
  | nil => simp [fromKey, findEntry]
  | cons e es ih =>
    rw [fromKey] at ih ⊢
    by_cases kept : key ≤ e.key
    · rw [List.filter_cons_of_pos (by simpa using kept), findEntry_cons, ih, findEntry_cons]
      by_cases same : e.key = k
      · rw [if_pos same, if_pos same, if_pos (same ▸ kept)]
      · rw [if_neg same, if_neg same]
    · rw [List.filter_cons_of_neg (by simpa using kept), ih, findEntry_cons]
      split
      next above =>
        have other : e.key ≠ k := fun same => kept (same ▸ above)
        rw [if_neg other]
      next => rfl

theorem remaining_fromKey (key : Bytes) (view : View) :
    remaining (view.map fun v => (fromKey key v.1, v.2)) ≤ remaining view := by
  induction view with
  | nil => exact Nat.le_refl _
  | cons v view ih =>
    have here := (fromKey_sublist key v.1).length_le
    simp only [remaining, List.map_cons, List.sum_cons] at ih ⊢
    omega

theorem resolve_fromKey (k key : Bytes) (view : View) :
    resolve k (view.map fun v => (fromKey key v.1, v.2)) =
      if key ≤ k then resolve k view else none := by
  have loop (best : Int × Option Entry) :
      resolveFrom k best (view.map fun v => (fromKey key v.1, v.2)) =
        if key ≤ k then resolveFrom k best view else best := by
    induction view generalizing best with
    | nil => simp [resolveFrom]
    | cons v view ih =>
      rw [List.map_cons, resolveFrom, resolveFrom, findEntry_fromKey]
      by_cases above : key ≤ k
      · simp only [above, if_true] at ih ⊢
        cases findEntry k v.1 with
        | none => exact ih best
        | some e => exact ih _
      · simp only [above, if_false] at ih ⊢
        exact ih best
  rw [resolve, loop]
  split
  · rfl
  · rfl

/-- In a sorted list the entries from a key on are a tail. -/
theorem fromKey_append (key : Bytes) (front back : List Entry)
    (below : ∀ e ∈ front, e.key < key) (above : ∀ e ∈ back, key ≤ e.key) :
    fromKey key (front ++ back) = back := by
  rw [fromKey, List.filter_append, List.filter_eq_nil_iff.mpr, List.filter_eq_self.mpr,
    List.nil_append]
  · simpa using above
  · simpa using below

/-- The first entry that is not below the key starts that tail. -/
theorem fromKey_split (key : Bytes) (front : List Entry) (e : Entry) (back : List Entry)
    (ascending : Ascending (front ++ e :: back)) (below : ∀ x ∈ front, x.key < key)
    (reached : key ≤ e.key) : fromKey key (front ++ e :: back) = e :: back := by
  obtain ⟨above, -⟩ := List.pairwise_cons.mp (List.pairwise_append.mp ascending).2.1
  refine fromKey_append key front (e :: back) below (List.forall_mem_cons.mpr ⟨reached, ?_⟩)
  exact fun x member => reached.trans (above x member).le

/-- All sources are positioned; `view` is what they hold before. -/
theorem seekAll_shows (I : SeekInterface ι ε) (key : Bytes) (srcs : List (Source ι)) (view : View)
    (seeks : List.Forall₂ (fun s v => (I.seek s.it key).2 = none ∧
      Yields I.toInterface (I.seek s.it key).1 (fromKey key v.1) ∧ s.priority = v.2) srcs view) :
    ∃ srcs', seekAll I key srcs = .ok srcs' ∧
      List.Forall₂ (Shows I.toInterface) srcs' (view.map fun v => (fromKey key v.1, v.2)) := by
  induction seeks with
  | nil => exact ⟨[], rfl, .nil⟩
  | @cons s v srcs view first _ ih =>
    obtain ⟨rest, sought, shows⟩ := ih
    obtain ⟨noError, yields, same⟩ := first
    cases moved : I.seek s.it key with
    | mk it err =>
      rw [moved] at noError yields
      cases noError
      refine ⟨⟨it, s.priority⟩ :: rest, ?_, .cons ⟨yields, same⟩ shows⟩
      rw [seekAll, moved]
      simp [sought]

/-! ### What stepping and seeking keep

A relation between the sources and something else that holds wherever a source stands. -/

section Keeps

variable {β : Type} {R : Source ι → β → Prop}

theorem advanceAll_keeps (I : Interface ι ε)
    (kept : ∀ s b, R s b → R ⟨(I.next s.it).1, s.priority⟩ b) (m : Bytes)
    (srcs srcs' : List (Source ι)) (bs : List β) (related : List.Forall₂ R srcs bs)
    (advanced : advanceAll I m srcs = .ok srcs') : List.Forall₂ R srcs' bs := by
  induction related generalizing srcs' with
  | nil =>
    cases advanced
    exact .nil
  | @cons s b srcs bs here _ ih =>
    have next := kept s b here
    rw [advanceAll] at advanced
    split at advanced
    · cases moved : I.next s.it with
      | mk it err =>
        rw [moved] at advanced next
        cases err with
        | some e => cases advanced
        | none =>
          obtain ⟨rest, done, same⟩ := (Except.bind_eq_ok _ _ _).mp advanced
          cases same
          exact .cons next (ih rest done)
    · obtain ⟨rest, done, same⟩ := (Except.bind_eq_ok _ _ _).mp advanced
      cases same
      exact .cons here (ih rest done)

theorem mergeStep_keeps (I : Interface ι ε)
    (kept : ∀ s b, R s b → R ⟨(I.next s.it).1, s.priority⟩ b) (omit_ : Bool) (fuel : Nat)
    (srcs srcs' : List (Source ι)) (winner : Winner) (bs : List β) (related : List.Forall₂ R srcs bs)
    (stepped : mergeStep I omit_ fuel srcs = .ok (some (winner, srcs'))) : List.Forall₂ R srcs' bs := by
  induction fuel generalizing srcs with
  | zero => cases stepped
  | succ fuel ih =>
    rw [mergeStep] at stepped
    split at stepped
    · cases stepped
    next m _ =>
      obtain ⟨after, advanced, rest⟩ := (Except.bind_eq_ok _ _ _).mp stepped
      have related' := advanceAll_keeps I kept m srcs after bs related advanced
      split at rest
      · exact ih after related' rest
      · cases rest
        exact related'

theorem MergeIterator.advance_keeps (I : Interface ι ε)
    (kept : ∀ s b, R s b → R ⟨(I.next s.it).1, s.priority⟩ b) (fuel : Nat) (m : MergeIterator ι ε)
    (bs : List β) (related : List.Forall₂ R m.sources bs) :
    List.Forall₂ R (m.advance I fuel).1.sources bs := by
  cases stepped : mergeStep I true fuel m.sources with
  | error e =>
    rw [advance, stepped]
    exact related
  | ok result =>
    rw [advance, stepped]
    cases result with
    | none => exact related
    | some found => exact mergeStep_keeps I kept true fuel m.sources found.2 found.1 bs related stepped

theorem seekAll_keeps (I : SeekInterface ι ε) (key : Bytes)
    (kept : ∀ s b, R s b → R ⟨(I.seek s.it key).1, s.priority⟩ b)
    (srcs srcs' : List (Source ι)) (bs : List β) (related : List.Forall₂ R srcs bs)
    (sought : seekAll I key srcs = .ok srcs') : List.Forall₂ R srcs' bs := by
  induction related generalizing srcs' with
  | nil =>
    cases sought
    exact .nil
  | @cons s b srcs bs here _ ih =>
    have next := kept s b here
    rw [seekAll] at sought
    cases moved : I.seek s.it key with
    | mk it err =>
      rw [moved] at sought next
      cases err with
      | some e => cases sought
      | none =>
        obtain ⟨rest, done, same⟩ := (Except.bind_eq_ok _ _ _).mp sought
        cases same
        exact .cons next (ih rest done)

end Keeps

/-! ### What a walk shows -/

/-- The value of a key whose best entry is live. -/
def live (k : Bytes) (view : View) : Option Bytes :=
  (resolve k view).bind fun e => if e.tombstone then none else some e.value

/-- The winner is the smallest live key of the view, and the sources are left with the live
keys above it. -/
structure LiveStep (I : Interface ι ε) (view : View) (winner : Winner) (srcs' : List (Source ι))
    (view' : View) : Prop where
  here : live winner.key.bytes view = some winner.value.bytes
  below : ∀ k < winner.key.bytes, live k view = none
  shows : List.Forall₂ (Shows I) srcs' view'
  mergeable : Mergeable view'
  fewer : remaining view' < remaining view
  onward : ∀ k, live k view' = if k ≤ winner.key.bytes then none else live k view

section Round

variable {I : Interface ι ε} {srcs srcs' : List (Source ι)} {view view' : View} {m : Bytes}
  {best : Entry}

theorem Round.live_here (round : Round I srcs view m best srcs' view') :
    live m view = if best.tombstone then none else some best.value := by
  rw [live, round.resolved]
  rfl

theorem Round.live_below (round : Round I srcs view m best srcs' view') (k : Bytes) (less : k < m) :
    live k view = none := by
  rw [live, round.below k less]
  rfl

theorem Round.live_onward (round : Round I srcs view m best srcs' view') (k : Bytes) :
    live k view' = if k = m then none else live k view := by
  rw [live, round.onward k]
  split
  · rfl
  · rfl

theorem Round.mergeStep (round : Round I srcs view m best srcs' view') (fuel : Nat) :
    mergeStep I true (fuel + 1) srcs =
      if best.tombstone then mergeStep I true fuel srcs'
      else .ok (some (winnerFrom I m ⟨-1, none, none, false⟩ srcs, srcs')) := by
  rw [Iterator.mergeStep, round.least]
  simp only [round.advanced, Except.ok_bind, round.tombstone, Bool.and_true]

/-- A round on a live entry hands it out. -/
theorem Round.liveStep (round : Round I srcs view m best srcs' view')
    (alive : best.tombstone = false) :
    LiveStep I view (winnerFrom I m ⟨-1, none, none, false⟩ srcs) srcs' view' := by
  have key : (winnerFrom I m ⟨-1, none, none, false⟩ srcs).key.bytes = m := by
    rw [round.key, cloneBytes_bytes, (resolve_some m view best round.resolved).1]
  refine ⟨?_, by rw [key]; exact round.live_below, round.shows, round.mergeable, round.fewer, ?_⟩
  · rw [key, round.live_here, alive, round.value, cloneBytes_bytes]
    rfl
  · intro k
    rw [key, round.live_onward k]
    rcases lt_trichotomy k m with less | same | more
    · rw [if_neg less.ne, if_pos less.le, round.live_below k less]
    · rw [if_pos same, if_pos same.le]
    · rw [if_neg more.ne', if_neg (not_le.mpr more)]

/-- A round on a tombstone takes nothing live away. -/
theorem Round.live_skip (round : Round I srcs view m best srcs' view')
    (dead : best.tombstone = true) (k : Bytes) : live k view' = live k view := by
  rw [round.live_onward k]
  split
  next is =>
    rw [is, round.live_here, dead]
    rfl
  next => rfl

end Round

theorem LiveStep.of_live_eq {I : Interface ι ε} {view before rest : View} {winner : Winner}
    {srcs : List (Source ι)} (step : LiveStep I view winner srcs rest)
    (same : ∀ k, live k view = live k before) (fewer : remaining view < remaining before) :
    LiveStep I before winner srcs rest := by
  refine ⟨by rw [← same, step.here], ?_, step.shows, step.mergeable, step.fewer.trans fewer, ?_⟩
  · intro k less
    rw [← same, step.below k less]
  · intro k
    rw [step.onward k, same k]

/-- The step of a merge that omits tombstones: the smallest live key, if there is one. -/
theorem mergeStep_live (I : Interface ι ε) (fuel : Nat) (srcs : List (Source ι)) (view : View)
    (shows : List.Forall₂ (Shows I) srcs view) (mergeable : Mergeable view)
    (enough : remaining view < fuel) :
    (mergeStep I true fuel srcs = .ok none ∧ ∀ k, live k view = none) ∨
      ∃ winner srcs' view', mergeStep I true fuel srcs = .ok (some (winner, srcs')) ∧
        LiveStep I view winner srcs' view' := by
  induction fuel generalizing srcs view with
  | zero => omega
  | succ fuel ih =>
    rcases round_cases I srcs view shows mergeable with
      ⟨exhausted, nothing⟩ | ⟨m, best, srcs', view', round⟩
    · left
      refine ⟨by simp [mergeStep, exhausted], fun k => ?_⟩
      rw [live, nothing k]
      rfl
    · have fewer := round.fewer
      rw [round.mergeStep]
      cases dead : best.tombstone with
      | true =>
        -- the loop of the source goes on with the sources behind the key
        rcases ih srcs' view' round.shows round.mergeable (by omega) with
          ⟨done, nothing⟩ | ⟨winner, after, rest, found, step⟩
        · exact .inl ⟨done, fun k => by rw [← round.live_skip dead k, nothing k]⟩
        · exact .inr ⟨winner, after, rest, found, step.of_live_eq (round.live_skip dead) fewer⟩
      | false => exact .inr ⟨_, srcs', view', rfl, round.liveStep dead⟩

/-- The iterator stands on the smallest live key of `view`, or at the end of it. -/
def Positioned (I : Interface ι ε) (m : MergeIterator ι ε) (view : View) : Prop :=
  m.err = none ∧
    (m.valid = false ∧ (∀ k, live k view = none) ∨
      m.valid = true ∧ live m.key view = some m.value.bytes ∧ (∀ k < m.key, live k view = none) ∧
        ∃ view', List.Forall₂ (Shows I) m.sources view' ∧ Mergeable view' ∧
          remaining view' < remaining view ∧
          ∀ k, live k view' = if k ≤ m.key then none else live k view)

theorem MergeIterator.advance_positioned (I : Interface ι ε) (fuel : Nat) (m : MergeIterator ι ε)
    (view : View) (noErr : m.err = none) (shows : List.Forall₂ (Shows I) m.sources view)
    (mergeable : Mergeable view) (enough : remaining view < fuel) :
    (m.advance I fuel).2 = none ∧ Positioned I (m.advance I fuel).1 view := by
  rcases mergeStep_live I fuel m.sources view shows mergeable enough with
    ⟨done, nothing⟩ | ⟨winner, srcs', view', found, step⟩
  · rw [advance, done]
    exact ⟨noErr, noErr, .inl ⟨rfl, nothing⟩⟩
  · rw [advance, found]
    exact ⟨rfl, noErr, .inr ⟨rfl, step.here, step.below, view', step.shows, step.mergeable,
      step.fewer, step.onward⟩⟩

/-- Where an iterator that is not valid leaves its sources. -/
theorem MergeIterator.advance_sources (I : Interface ι ε) (fuel : Nat) (m : MergeIterator ι ε)
    (invalid : (m.advance I fuel).1.valid = false) : (m.advance I fuel).1.sources = m.sources := by
  cases stepped : mergeStep I true fuel m.sources with
  | error e => rw [advance, stepped]
  | ok result =>
    rw [advance, stepped] at invalid ⊢
    cases result with
    | none => rfl
    | some found => cases invalid

/-- What the sources of a positioned iterator have left: the live keys behind its key, or no
live key. -/
theorem MergeIterator.advance_left (I : Interface ι ε) (fuel : Nat) (m : MergeIterator ι ε)
    (view : View) (shows : List.Forall₂ (Shows I) m.sources view) (mergeable : Mergeable view)
    (positioned : Positioned I (m.advance I fuel).1 view) :
    ∃ left, List.Forall₂ (Shows I) (m.advance I fuel).1.sources left ∧ Mergeable left ∧
      remaining left ≤ remaining view ∧ ∀ k, live k left ≠ none → live k view ≠ none := by
  obtain ⟨-, ⟨invalid, -⟩ | ⟨-, -, -, left, shows', mergeable', fewer, onward⟩⟩ := positioned
  · rw [m.advance_sources I fuel invalid]
    exact ⟨view, shows, mergeable, le_refl _, fun k => id⟩
  · refine ⟨left, shows', mergeable', fewer.le, fun k isLive => ?_⟩
    rw [onward k] at isLive
    split at isLive
    · exact absurd rfl isLive
    · exact isLive

end PebbleDB.Iterator
