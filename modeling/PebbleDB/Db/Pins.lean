import PebbleDB.Sst.References

/-!
# Readers in use

`Get` and `Scan` take the published list of readers and a reference on each of them under
`db.mu.RLock`, read, and release the references later. A compaction replaces its inputs in
the list under `db.mu.Lock` and then discards them; `Close` clears the list and closes all
tracked readers under the lock. So a reader whose `closePending` is set is not in the list,
and nobody takes a new reference on it.

An `Unref` brings the counter to zero and looks at `closePending` in two steps. Between
them the reader may still be in the list: another lookup can take a reference, and a
compaction can then discard the reader without closing it because it is in use. The first
`Unref` now finds the flag set and closes the file under the lookup. And the counter has 32
bits: with `2 ^ 32` references it is zero again. Without the two, no reader is closed while
it is in use.
-/
namespace PebbleDB.Db

open Sst (Shared CloseStage)

/-- A goroutine that works with readers, by what it does next. Readers are numbers, and a
new one gets its number when it is published: before, only its own goroutine knows it. -/
inductive Thread where
  -- `Get` and `Scan`; `taking` holds `db.mu.RLock`
  | start
  | taking (todo held : List Nat)
  | reading (held : List Nat)
  | releasing (held : List Nat)
  | zeroed (r : Nat) (held : List Nat)
  -- a flush, and a compaction of the inputs
  | publish
  | swap (inputs : List Nat)
  | track (r : Nat) (inputs : List Nat)
  | discarding (todo : List Nat)
  | discardMark (r : Nat) (todo : List Nat)
  | discardLoad (r : Nat) (todo : List Nat)
  -- `Close`; the last two hold `db.mu.Lock`
  | closeStart
  | teardown
  | closeReaders (todo : List Nat)
  | closeLoad (r : Nat) (todo : List Nat)
  -- a call of `closeFile`, and how the goroutine goes on
  | closeFile (r : Nat) (stage : CloseStage) (after : Thread)
  | done
  deriving DecidableEq

/-- What the goroutines share. `rlocks` and `locked` are the state of `db.mu`. -/
structure Core where
  readers : Nat → Shared
  next : Nat
  published : List Nat
  tracked : List Nat
  closed : Bool
  rlocks : Nat
  locked : Bool

structure Pins where
  core : Core
  threads : List Thread

inductive PinStep where
  | get
  | flush
  | compact (inputs : List Nat)
  | close
  | run (i : Nat)
  deriving DecidableEq

namespace Core

def modify (w : Core) (r : Nat) (f : Shared → Shared) : Core :=
  { w with readers := Function.update w.readers r (f (w.readers r)) }

/-- `db.mu.Lock` has to wait. -/
def busy (w : Core) : Bool := w.locked || w.rlocks != 0

/-- A new reader at the end of a list. -/
def publishNew (w : Core) (list : List Nat) : Core :=
  { w with
    readers := Function.update w.readers w.next .opened
    next := w.next + 1
    published := list ++ [w.next] }

/-- The next step of a goroutine; one that has to wait stays where it is. -/
def advance (w : Core) : Thread → Core × Thread
  | .start =>
    if w.locked then (w, .start)
    else if w.closed then (w, .done)
    else ({ w with rlocks := w.rlocks + 1 }, .taking w.published [])
  | .taking [] held => ({ w with rlocks := w.rlocks - 1 }, .reading held)
  | .taking (r :: todo) held =>
    -- `Ref` under the read lock, so that no swap comes in between
    (w.modify r fun s => { s with refs := s.refs + 1 }, .taking todo (r :: held))
  | .reading held => (w, .releasing held)
  | .releasing [] => (w, .done)
  | .releasing (r :: held) =>
    (w.modify r fun s => { s with refs := s.refs - 1 },
      if (w.readers r).refs - 1 = 0 then .zeroed r held else .releasing held)
  | .zeroed r held =>
    (w, if (w.readers r).closePending then .closeFile r .lock (.releasing held)
      else .releasing held)
  | .publish =>
    if w.busy then (w, .publish) else (w.publishNew w.published, .track w.next [])
  | .swap inputs =>
    if w.busy then (w, .swap inputs)
    -- `readersStillPresent`
    else if inputs.all (· ∈ w.published) then
      (w.publishNew (w.published.filter (· ∉ inputs)), .track w.next inputs)
    else (w, .done)
  | .track r inputs => ({ w with tracked := w.tracked ++ [r] }, .discarding inputs)
  | .discarding [] => (w, .done)
  | .discarding (r :: todo) =>
    (w.modify r fun s => { s with closePending := true }, .discardMark r todo)
  | .discardMark r todo =>
    (w.modify r fun s => { s with discardPending := true }, .discardLoad r todo)
  | .discardLoad r todo =>
    (w, if (w.readers r).refs = 0 then .closeFile r .lock (.discarding todo)
      else .discarding todo)
  | .closeStart =>
    if w.busy then (w, .closeStart)
    else if w.closed then (w, .done)
    else ({ w with closed := true }, .teardown)
  | .teardown =>
    if w.busy then (w, .teardown)
    -- `discardAllReaders` runs under the write lock
    else ({ w with locked := true, published := [], tracked := [] }, .closeReaders w.tracked)
  | .closeReaders [] => ({ w with locked := false }, .done)
  | .closeReaders (r :: todo) =>
    (w.modify r fun s => { s with closePending := true }, .closeLoad r todo)
  | .closeLoad r todo =>
    (w, if (w.readers r).refs = 0 then .closeFile r .lock (.closeReaders todo)
      else .closeReaders todo)
  | .closeFile r stage after =>
    (w.modify r fun s => (s.closeFile stage).1,
      match ((w.readers r).closeFile stage).2 with
      | some stage => .closeFile r stage after
      | none => after)
  | .done => (w, .done)

end Core

/-- The readers on which a lookup or scan holds a reference. -/
def Thread.held : Thread → List Nat
  | .taking _ held => held
  | .reading held => held
  | .releasing held => held
  | .zeroed _ held => held
  | .closeFile _ _ after => after.held
  | _ => []

namespace Pins

def spawn (s : Pins) (t : Thread) : Pins := { s with threads := s.threads ++ [t] }

def step (s : Pins) : PinStep → Pins
  | .get => s.spawn .start
  | .flush => s.spawn .publish
  | .compact inputs => s.spawn (.swap inputs)
  | .close => s.spawn .closeStart
  | .run i =>
    match s.threads[i]? with
    | none => s
    | some t => ⟨(s.core.advance t).1, s.threads.set i (s.core.advance t).2⟩

/-- As `Open` leaves it: the published readers are open, and nobody uses them. -/
structure Opened (s : Pins) : Prop where
  idle : s.threads = []
  readers : ∀ r, s.core.readers r = .opened
  published : ∀ r ∈ s.core.published, r < s.core.next
  tracked : ∀ r ∈ s.core.tracked, r < s.core.next
  unlocked : s.core.rlocks = 0 ∧ s.core.locked = false

/-- A reader in use has an open file that is still in the directory. -/
def Pinned (s : Pins) : Prop :=
  ∀ t ∈ s.threads, ∀ r ∈ t.held,
    (s.core.readers r).file = true ∧ (s.core.readers r).fileClosed = false ∧
      (s.core.readers r).onDisk = true

instance (s : Pins) : Decidable s.Pinned :=
  inferInstanceAs (Decidable (∀ t ∈ s.threads, ∀ r ∈ t.held, _))

end Pins

/-- The references that lookups and scans hold on a reader. -/
def Pins.references (s : Pins) (r : Nat) : Nat := Pool.total (fun t => t.held.count r) s.threads

/-- The reader whose counter an `Unref` under way has brought to zero. -/
def Thread.released : Thread → Option Nat
  | .zeroed r _ => some r
  | _ => none

/-- The reader that a lookup or scan takes next. -/
def Thread.takes : Thread → Option Nat
  | .taking (r :: _) _ => some r
  | _ => none

/-- An `Unref` that has brought the counter of a reader to zero looks at `closePending`
before it is set or before somebody takes the reader again, and a reader has fewer
references than the counter has values. -/
def Pins.Safe (s : Pins) : PinStep → Prop
  | .run i =>
    (∀ r ∈ s.threads[i]?.bind Thread.released,
      ¬((s.core.readers r).closePending = true ∧ 0 < s.references r)) ∧
    ∀ r ∈ s.threads[i]?.bind Thread.takes, s.references r + 1 < 2 ^ 32
  | _ => True

instance Pins.decidableSafe (s : Pins) : (i : PinStep) → Decidable (s.Safe i)
  | .run i => inferInstanceAs (Decidable ((∀ r ∈ s.threads[i]?.bind Thread.released, _) ∧
      ∀ r ∈ s.threads[i]?.bind Thread.takes, _))
  | .get | .flush | .compact _ | .close => .isTrue trivial

/-! ### What holds between the steps -/

def Shut (s : Shared) : Prop := s.file = false ∨ s.fileClosed = true ∨ s.onDisk = false

/-- The reader was published once and is not in the list any more. -/
def Core.Retired (w : Core) (r : Nat) : Prop := r < w.next ∧ r ∉ w.published

/-- A read lock is held while references are taken. -/
def Thread.rlocks : Thread → Nat
  | .taking _ _ => 1
  | _ => 0

/-- What a goroutine relies on. -/
def Thread.Ok (w : Core) : Thread → Prop
  | .taking todo _ => ∀ r ∈ todo, r ∈ w.published
  | .track r inputs => r < w.next ∧ ∀ x ∈ inputs, w.Retired x
  | .discarding todo => ∀ x ∈ todo, w.Retired x
  | .discardMark r todo => (w.readers r).closePending = true ∧ ∀ x ∈ todo, w.Retired x
  | .discardLoad r todo => (w.readers r).closePending = true ∧ ∀ x ∈ todo, w.Retired x
  | .closeReaders todo => ∀ x ∈ todo, w.Retired x
  | .closeLoad r todo => (w.readers r).closePending = true ∧ ∀ x ∈ todo, w.Retired x
  | .closeFile r _ after =>
    ((w.readers r).closePending = true ∧ (w.readers r).refs = 0) ∧ after.rlocks = 0 ∧ after.Ok w
  | _ => True

/-- What other goroutines may do meanwhile. -/
structure Core.Onward (w w' : Core) : Prop where
  next : w.next ≤ w'.next
  retired : ∀ r, w.Retired r → w'.Retired r
  pending : ∀ r, (w.readers r).closePending = true → (w'.readers r).closePending = true
  zero : ∀ r, (w.readers r).closePending = true → (w.readers r).refs = 0 → (w'.readers r).refs = 0

theorem Thread.Ok.mono {w w' : Core} (onward : w.Onward w') {t : Thread}
    (list : t.rlocks = 0 ∨ w.published ⊆ w'.published) (ok : t.Ok w) : t.Ok w' := by
  induction t with
  | taking todo held =>
    rcases list with unlocked | keeps
    · cases unlocked
    · exact fun r member => keeps (ok r member)
  | track r inputs =>
    exact ⟨lt_of_lt_of_le ok.1 onward.next, fun x member => onward.retired x (ok.2 x member)⟩
  | discarding todo | closeReaders todo => exact fun x member => onward.retired x (ok x member)
  | discardMark r todo | discardLoad r todo | closeLoad r todo =>
    exact ⟨onward.pending r ok.1, fun x member => onward.retired x (ok.2 x member)⟩
  | closeFile r stage after ih =>
    obtain ⟨⟨pending, zero⟩, unlocked, later⟩ := ok
    exact ⟨⟨onward.pending r pending, onward.zero r pending zero⟩, unlocked,
      ih (.inl unlocked) later⟩
  | start | reading | releasing | zeroed | publish | swap | closeStart | teardown | done => trivial

namespace Pins

structure Kept (s : Pins) : Prop where
  counted : ∀ r, (s.core.readers r).refs = .ofNat (s.references r)
  few : ∀ r, s.references r < 2 ^ 32
  rlocked : s.core.rlocks = Pool.total Thread.rlocks s.threads
  fresh : ∀ r, s.core.next ≤ r → s.core.readers r = .opened
  below : ∀ r ∈ s.core.published, r < s.core.next
  tracked : ∀ r ∈ s.core.tracked, r < s.core.next
  ok : ∀ t ∈ s.threads, t.Ok s.core
  retired : ∀ r, (s.core.readers r).closePending = true → s.core.Retired r
  shut : ∀ r, Shut (s.core.readers r) →
    (s.core.readers r).closePending = true ∧ (s.core.readers r).refs = 0

theorem Opened.kept {s : Pins} (opened : s.Opened) : s.Kept where
  counted r := by
    rw [opened.readers, references, opened.idle]
    rfl
  few r := by
    rw [references, opened.idle]
    exact Nat.two_pow_pos 32
  rlocked := by
    rw [opened.unlocked.1, opened.idle]
    rfl
  fresh r _ := opened.readers r
  below := opened.published
  tracked := opened.tracked
  ok := by
    rw [opened.idle]
    exact nofun
  retired r pending := by
    rw [opened.readers] at pending
    cases pending
  shut r shut := by
    rw [opened.readers] at shut
    exact absurd shut (by simp [Shut, Shared.opened])

/-- Below `2 ^ 32` references the counter is zero only without any. -/
theorem Kept.refs_eq_zero {s : Pins} (inv : s.Kept) (r : Nat) :
    (s.core.readers r).refs = 0 ↔ s.references r = 0 := by
  rw [inv.counted r]
  constructor
  · intro zero
    have bits : (BitVec.ofNat 32 (s.references r)).toNat = 0 := by
      rw [← Int32.toBitVec_ofNat', zero]
      rfl
    rwa [BitVec.toNat_ofNat, Nat.mod_eq_of_lt (inv.few r)] at bits
  · intro none_
    rw [none_]
    rfl

/-- A reader in use is counted. -/
theorem Kept.refs_ne_zero {s : Pins} (inv : s.Kept) {t : Thread} (member : t ∈ s.threads) {r : Nat}
    (held : r ∈ t.held) : (s.core.readers r).refs ≠ 0 := by
  rw [Ne, inv.refs_eq_zero r]
  have here := Pool.weight_le_total (fun t => t.held.count r) member
  have some_ := List.count_pos_iff.mpr held
  exact Nat.ne_of_gt (lt_of_lt_of_le some_ here)

/-- So its file is not shut. -/
theorem Kept.pinned {s : Pins} (inv : s.Kept) : s.Pinned := by
  intro t member r held
  have notShut : ¬Shut (s.core.readers r) := fun shut =>
    inv.refs_ne_zero member held (inv.shut r shut).2
  simp only [Shut, not_or, Bool.not_eq_false, Bool.not_eq_true] at notShut
  exact notShut

variable {s : Pins} {i : Nat} {t : Thread}

theorem Kept.known (inv : s.Kept) (r : Nat) (used : s.core.readers r ≠ .opened) :
    r < s.core.next := by
  by_contra beyond
  exact used (inv.fresh r (not_lt.mp beyond))

theorem Kept.spawn (inv : s.Kept) (t : Thread) (held : t.held = []) (rlocks : t.rlocks = 0)
    (ok : t.Ok s.core) : (s.spawn t).Kept := by
  have same (r : Nat) : (s.spawn t).references r = s.references r := by
    simp only [references, Pins.spawn, Pool.total_append, Pool.total_singleton, held,
      List.count_nil, Nat.add_zero]
  exact { inv with
    counted := fun r => by
      rw [same r]
      exact inv.counted r
    few := fun r => by
      rw [same r]
      exact inv.few r
    rlocked := by
      show _ = Pool.total _ (s.threads ++ [t])
      rw [Pool.total_append, Pool.total_singleton, rlocks, ← inv.rlocked]
      rfl
    ok := fun u member => by
      rcases List.mem_append.mp member with old | new
      · exact inv.ok u old
      · rw [List.mem_singleton.mp new]
        exact ok }

/-- How the references change with the goroutine at place `i`. -/
theorem references_set (here : s.threads[i]? = some t) (w : Core) (next : Thread) (r : Nat) :
    references ⟨w, s.threads.set i next⟩ r + t.held.count r =
      s.references r + next.held.count r :=
  Pool.total_set (fun t => t.held.count r) here next

theorem references_same (here : s.threads[i]? = some t) (w : Core) (next : Thread)
    (held : next.held = t.held) (r : Nat) :
    references ⟨w, s.threads.set i next⟩ r = s.references r := by
  have moved := references_set here w next r
  rw [held] at moved
  omega

/-- The goroutine moves on and leaves the readers and the list alone. -/
theorem Kept.pass (inv : s.Kept) (here : s.threads[i]? = some t) (w : Core) (next : Thread)
    (readers : w.readers = s.core.readers) (numbers : w.next = s.core.next)
    (list : w.published = s.core.published) (tracked : ∀ r ∈ w.tracked, r < s.core.next)
    (held : next.held = t.held) (rlocks : w.rlocks + t.rlocks = s.core.rlocks + next.rlocks)
    (ok : next.Ok w) : Kept ⟨w, s.threads.set i next⟩ := by
  have retired (r : Nat) : w.Retired r ↔ s.core.Retired r := by rw [Core.Retired, numbers, list]; rfl
  have onward : s.core.Onward w := by
    refine ⟨numbers.ge, fun r => (retired r).mpr, ?_, ?_⟩
    · rw [readers]
      exact fun _ => id
    · rw [readers]
      exact fun _ _ => id
  refine ⟨fun r => ?_, fun r => ?_, ?_, ?_, ?_, ?_, ?_, fun r set => ?_, ?_⟩
  · rw [references_same here w next held r, readers]
    exact inv.counted r
  · rw [references_same here w next held r]
    exact inv.few r
  · have moved := Pool.total_set Thread.rlocks here next
    have rlocked := inv.rlocked
    dsimp only at moved ⊢
    omega
  · rw [readers, numbers]
    exact inv.fresh
  · rw [list, numbers]
    exact inv.below
  · rw [numbers]
    exact tracked
  · exact Pool.forall_set
      (fun u member => (inv.ok u member).mono onward (.inr (list ▸ List.Subset.refl _))) ok
  · exact (retired r).mpr (inv.retired r (readers ▸ set))
  · rw [readers]
    exact inv.shut

/-- The goroutine moves on and touches nothing. -/
theorem Kept.stay (inv : s.Kept) (here : s.threads[i]? = some t) (next : Thread)
    (held : next.held = t.held) (rlocks : next.rlocks = t.rlocks) (ok : next.Ok s.core) :
    Kept { s with threads := s.threads.set i next } :=
  inv.pass here s.core next rfl rfl rfl inv.tracked held (by rw [rlocks]) ok

/-- The goroutine changes one reader. -/
theorem Kept.touch (inv : s.Kept) (here : s.threads[i]? = some t) (r : Nat) (f : Shared → Shared)
    (next : Thread) (known : r < s.core.next) (rlocks : next.rlocks = t.rlocks)
    (counted : ∀ n, (s.core.readers r).refs = .ofNat (n + t.held.count r) →
      (f (s.core.readers r)).refs = .ofNat (n + next.held.count r))
    (few : s.references r + next.held.count r < 2 ^ 32 + t.held.count r)
    (others : ∀ x, x ≠ r → t.held.count x = next.held.count x)
    (pending : (s.core.readers r).closePending = true → (f (s.core.readers r)).closePending = true)
    (zero : (s.core.readers r).closePending = true → (s.core.readers r).refs = 0 →
      (f (s.core.readers r)).refs = 0)
    (retired : (f (s.core.readers r)).closePending = true → s.core.Retired r)
    (shut : Shut (f (s.core.readers r)) →
      (f (s.core.readers r)).closePending = true ∧ (f (s.core.readers r)).refs = 0)
    (ok : next.Ok (s.core.modify r f)) :
    Kept ⟨s.core.modify r f, s.threads.set i next⟩ := by
  have self : (s.core.modify r f).readers r = f (s.core.readers r) := by simp [Core.modify]
  have other (x : Nat) (ne : x ≠ r) : (s.core.modify r f).readers x = s.core.readers x := by
    simp [Core.modify, ne]
  have onward : s.core.Onward (s.core.modify r f) := by
    refine ⟨le_rfl, fun _ retired => retired, fun x set => ?_, fun x set none_ => ?_⟩
    · by_cases same : x = r
      · subst same
        rw [self]
        exact pending set
      · rwa [other x same]
    · by_cases same : x = r
      · subst same
        rw [self]
        exact zero set none_
      · rwa [other x same]
  have moved := references_set here (s.core.modify r f) next
  have mine (x : Nat) : t.held.count x ≤ s.references x :=
    Pool.weight_le_total (fun t => t.held.count x) (Pool.mem here)
  refine ⟨fun x => ?_, fun x => ?_, ?_, fun x beyond => ?_, inv.below, inv.tracked,
    Pool.forall_set (fun u member => (inv.ok u member).mono onward (.inr (List.Subset.refl _))) ok,
    fun x set => ?_, fun x isShut => ?_⟩
  · have after := moved x
    have before := mine x
    by_cases same : x = r
    · subst same
      -- the references of the others are those that do not change
      rw [self, show references _ x = s.references x - t.held.count x + next.held.count x by omega]
      apply counted
      rw [inv.counted x, Nat.sub_add_cancel before]
    · have unchanged := others x same
      rw [other x same, show references _ x = s.references x by omega]
      exact inv.counted x
  · have after := moved x
    by_cases same : x = r
    · subst same
      omega
    · have unchanged := others x same
      have before := inv.few x
      omega
  · have moved := Pool.total_set Thread.rlocks here next
    have before := inv.rlocked
    show s.core.rlocks = Pool.total Thread.rlocks (s.threads.set i next)
    omega
  · have ne : x ≠ r := by
      rintro rfl
      exact absurd known (not_lt.mpr beyond)
    rw [other x ne]
    exact inv.fresh x beyond
  · by_cases same : x = r
    · subst same
      rw [self] at set
      exact retired set
    · rw [other x same] at set
      exact inv.retired x set
  · by_cases same : x = r
    · subst same
      rw [self] at isShut ⊢
      exact shut isShut
    · rw [other x same] at isShut ⊢
      exact inv.shut x isShut

/-- While nobody holds the read lock, nobody is taking references. -/
theorem Kept.noneTaking (inv : s.Kept) (free : s.core.busy = false) :
    ∀ t ∈ s.threads, t.rlocks = 0 := by
  have unlocked : s.core.rlocks = 0 := by
    simp only [Core.busy, Bool.or_eq_false_iff, bne_eq_false_iff_eq] at free
    exact free.2
  rw [inv.rlocked] at unlocked
  exact fun t member => Pool.weight_eq_zero Thread.rlocks unlocked member

/-- A reader that nobody knows yet goes to the end of a part of the list. -/
theorem Kept.publishNew (inv : s.Kept) (here : s.threads[i]? = some t)
    (free : s.core.busy = false) (list : List Nat) (part : list ⊆ s.core.published)
    (inputs : List Nat) (held : t.held = []) (gone : ∀ x ∈ inputs, x ∈ s.core.published ∧ x ∉ list) :
    Kept ⟨s.core.publishNew list, s.threads.set i (.track s.core.next inputs)⟩ := by
  have readers : (s.core.publishNew list).readers = s.core.readers := by
    rw [Core.publishNew, ← inv.fresh s.core.next le_rfl]
    exact Function.update_eq_self _ _
  have onward : s.core.Onward (s.core.publishNew list) := by
    refine ⟨Nat.le_succ _, ?_, by rw [readers]; exact fun _ => id,
      by rw [readers]; exact fun _ _ => id⟩
    rintro r ⟨low, absent⟩
    refine ⟨Nat.lt_succ_of_lt low, fun member => ?_⟩
    rcases List.mem_append.mp member with old | new
    · exact absent (part old)
    · rw [List.mem_singleton.mp new] at low
      exact lt_irrefl _ low
  have idle := inv.noneTaking free
  refine ⟨fun x => ?_, fun x => ?_, ?_, fun x beyond => ?_, ?_, fun r member => ?_, ?_,
    fun x set => ?_, fun x shut => ?_⟩
  · rw [references_same here _ (.track s.core.next inputs) held.symm x, readers]
    exact inv.counted x
  · rw [references_same here _ (.track s.core.next inputs) held.symm x]
    exact inv.few x
  · have moved := Pool.total_set Thread.rlocks here (.track s.core.next inputs)
    have unlocked := idle t (Pool.mem here)
    have before := inv.rlocked
    have nothing : Thread.rlocks (.track s.core.next inputs) = 0 := rfl
    show s.core.rlocks = Pool.total Thread.rlocks (s.threads.set i (.track s.core.next inputs))
    omega
  · dsimp only
    rw [readers]
    exact inv.fresh x (Nat.le_of_succ_le beyond)
  · intro r member
    rcases List.mem_append.mp member with old | new
    · exact Nat.lt_succ_of_lt (inv.below r (part old))
    · rw [List.mem_singleton.mp new]
      exact Nat.lt_succ_self _
  · exact Nat.lt_succ_of_lt (inv.tracked r member)
  · refine Pool.forall_set (fun u member => (inv.ok u member).mono onward (.inl (idle u member))) ?_
    refine ⟨Nat.lt_succ_self _, fun x member => ?_⟩
    obtain ⟨listed, dropped⟩ := gone x member
    refine ⟨Nat.lt_succ_of_lt (inv.below x listed), fun again => ?_⟩
    rcases List.mem_append.mp again with old | new
    · exact dropped old
    · rw [List.mem_singleton.mp new] at listed
      exact lt_irrefl _ (inv.below _ listed)
  · dsimp only at set ⊢
    rw [readers] at set
    exact onward.retired x (inv.retired x set)
  · dsimp only at shut ⊢
    rw [readers] at shut ⊢
    exact inv.shut x shut

/-! ### The steps -/

theorem start_kept (inv : s.Kept) (here : s.threads[i]? = some .start) : (s.step (.run i)).Kept := by
  simp only [step, here, Core.advance]
  split
  · rw [Pool.set_same here]
    exact inv
  · split
    · exact inv.stay here .done rfl rfl trivial
    · -- the snapshot is the list itself
      exact inv.pass here _ (.taking s.core.published []) rfl rfl rfl inv.tracked rfl
        rfl fun _ listed => listed

theorem taking_kept (inv : s.Kept) (todo held : List Nat)
    (here : s.threads[i]? = some (.taking todo held)) (safe : s.Safe (.run i)) :
    (s.step (.run i)).Kept := by
  have listed : ∀ r ∈ todo, r ∈ s.core.published := inv.ok _ (Pool.mem here)
  simp only [step, here]
  cases todo with
  | nil =>
    have held_ : 0 < s.core.rlocks := by
      rw [inv.rlocked]
      exact Pool.weight_le_total Thread.rlocks (Pool.mem here)
    refine inv.pass here _ (.reading held) rfl rfl rfl inv.tracked rfl ?_ trivial
    simp only [Core.advance, Thread.rlocks]
    omega
  | cons r todo =>
    have first := listed r (by simp)
    -- a reader in the list is not about to be closed
    have free : ¬(s.core.readers r).closePending = true := fun set =>
      (inv.retired r set).2 first
    refine inv.touch here r (fun s => { s with refs := s.refs + 1 }) (.taking todo (r :: held))
      (inv.below r first) rfl ?_ ?_ ?_ id (fun set => absurd set free) (fun set => absurd set free)
      (fun shut => absurd (inv.shut r shut).1 free) fun x member => listed x (by simp [member])
    · intro n counted
      simp only [Thread.held, List.count_cons_self] at counted ⊢
      rw [counted, ← Nat.add_assoc, Int32.ofNat_add _ 1]
      rfl
    · have room := safe.2 r (by rw [here]; rfl)
      simp only [Thread.held, List.count_cons_self]
      omega
    · exact fun x ne => (List.count_cons_of_ne ne.symm).symm

theorem releasing_kept (inv : s.Kept) (held : List Nat)
    (here : s.threads[i]? = some (.releasing held)) : (s.step (.run i)).Kept := by
  simp only [step, here]
  cases held with
  | nil => exact inv.stay here .done rfl rfl trivial
  | cons r held =>
    have some_ : (s.core.readers r).refs ≠ 0 := inv.refs_ne_zero (Pool.mem here) List.mem_cons_self
    have known : r < s.core.next := inv.known r fun unused => by
      rw [unused] at some_
      exact some_ rfl
    have open_ : ¬Shut (s.core.readers r) := fun shut => some_ (inv.shut r shut).2
    have moves (next : Thread) (rest : next.held = held) (rlocks : next.rlocks = 0)
        (ok : ∀ w, next.Ok w) :
        Kept ⟨s.core.modify r fun s => { s with refs := s.refs - 1 }, s.threads.set i next⟩ := by
      refine inv.touch here r (fun s => { s with refs := s.refs - 1 }) next known rlocks ?_ ?_ ?_ id
        (fun _ zero => absurd zero some_) (inv.retired r) (fun shut => absurd shut open_) (ok _)
      · intro n counted
        simp only [Thread.held, rest, List.count_cons_self] at counted ⊢
        rw [counted, ← Nat.add_assoc, Int32.ofNat_add _ 1]
        exact Int32.add_sub_cancel _ _
      · have before := inv.few r
        simp only [Thread.held, rest, List.count_cons_self]
        omega
      · intro x ne
        rw [rest]
        exact List.count_cons_of_ne ne.symm
    simp only [Core.advance]
    split
    · exact moves (.zeroed r held) rfl rfl fun _ => trivial
    · exact moves (.releasing held) rfl rfl fun _ => trivial

theorem zeroed_kept (inv : s.Kept) (r : Nat) (held : List Nat)
    (here : s.threads[i]? = some (.zeroed r held)) (safe : s.Safe (.run i)) :
    (s.step (.run i)).Kept := by
  simp only [step, here, Core.advance]
  split
  next set =>
    have free : (s.core.readers r).refs = 0 := by
      have looked := safe.1 r (by rw [here]; rfl)
      rw [inv.refs_eq_zero r]
      by_contra used
      exact looked ⟨set, Nat.pos_of_ne_zero used⟩
    exact inv.stay here _ rfl rfl ⟨⟨set, free⟩, rfl, trivial⟩
  · exact inv.stay here _ rfl rfl trivial

theorem publish_kept (inv : s.Kept) (here : s.threads[i]? = some .publish) :
    (s.step (.run i)).Kept := by
  simp only [step, here, Core.advance]
  cases free : s.core.busy with
  | true =>
    simp only [if_true]
    rw [Pool.set_same here]
    exact inv
  | false => exact inv.publishNew here free s.core.published (List.Subset.refl _) [] rfl nofun

theorem swap_kept (inv : s.Kept) (inputs : List Nat) (here : s.threads[i]? = some (.swap inputs)) :
    (s.step (.run i)).Kept := by
  simp only [step, here, Core.advance]
  cases free : s.core.busy with
  | true =>
    simp only [if_true]
    rw [Pool.set_same here]
    exact inv
  | false =>
    simp only [Bool.false_eq_true, if_false]
    split
    next present =>
      rw [List.all_eq_true] at present
      refine inv.publishNew here free _ (List.filter_subset_self _) inputs rfl fun x member => ?_
      exact ⟨by simpa using present x member, by simp [member]⟩
    · exact inv.stay here .done rfl rfl trivial

theorem track_kept (inv : s.Kept) (r : Nat) (inputs : List Nat)
    (here : s.threads[i]? = some (.track r inputs)) : (s.step (.run i)).Kept := by
  obtain ⟨low, retired⟩ := inv.ok _ (Pool.mem here)
  simp only [step, here, Core.advance]
  refine inv.pass here _ (.discarding inputs) rfl rfl rfl (fun x member => ?_) rfl rfl retired
  rcases List.mem_append.mp member with old | new
  · exact inv.tracked x old
  · rw [List.mem_singleton.mp new]
    exact low

/-- `closePending.Store(true)` on a reader that is not in the list. -/
theorem Kept.storeClose (inv : s.Kept) (here : s.threads[i]? = some t) (r : Nat) (next : Thread)
    (retired : s.core.Retired r) (held : next.held = t.held) (rlocks : next.rlocks = t.rlocks)
    (ok : next.Ok (s.core.modify r fun s => { s with closePending := true })) :
    Kept ⟨s.core.modify r fun s => { s with closePending := true }, s.threads.set i next⟩ :=
  inv.touch here r (fun s => { s with closePending := true }) next retired.1 rlocks
    (by rw [held]; exact fun _ => id) (by rw [held]; exact Nat.add_lt_add_right (inv.few r) _)
    (by rw [held]; exact fun _ _ => rfl) (fun _ => rfl) (fun _ => id)
    (fun _ => retired) (fun shut => ⟨rfl, (inv.shut r shut).2⟩) ok

theorem discarding_kept (inv : s.Kept) (todo : List Nat)
    (here : s.threads[i]? = some (.discarding todo)) : (s.step (.run i)).Kept := by
  have retired : ∀ x ∈ todo, s.core.Retired x := inv.ok _ (Pool.mem here)
  simp only [step, here]
  cases todo with
  | nil => exact inv.stay here .done rfl rfl trivial
  | cons r todo =>
    exact inv.storeClose here r (.discardMark r todo) (retired r (by simp)) rfl rfl
      ⟨by simp [Core.modify], fun x member => retired x (by simp [member])⟩

theorem discardMark_kept (inv : s.Kept) (r : Nat) (todo : List Nat)
    (here : s.threads[i]? = some (.discardMark r todo)) : (s.step (.run i)).Kept := by
  obtain ⟨set, retired⟩ := inv.ok _ (Pool.mem here)
  simp only [step, here]
  exact inv.touch here r (fun s => { s with discardPending := true }) (.discardLoad r todo)
    (inv.retired r set).1 rfl (fun _ => id) (Nat.add_lt_add_right (inv.few r) (List.count r []))
    (fun _ _ => rfl) id (fun _ => id) (inv.retired r)
    (inv.shut r) ⟨by simpa [Core.modify] using set, retired⟩

theorem discardLoad_kept (inv : s.Kept) (r : Nat) (todo : List Nat)
    (here : s.threads[i]? = some (.discardLoad r todo)) : (s.step (.run i)).Kept := by
  obtain ⟨set, retired⟩ := inv.ok _ (Pool.mem here)
  simp only [step, here, Core.advance]
  split
  next zero => exact inv.stay here _ rfl rfl ⟨⟨set, zero⟩, rfl, retired⟩
  · exact inv.stay here _ rfl rfl retired

theorem closeStart_kept (inv : s.Kept) (here : s.threads[i]? = some .closeStart) :
    (s.step (.run i)).Kept := by
  simp only [step, here, Core.advance]
  split
  · rw [Pool.set_same here]
    exact inv
  · split
    · exact inv.stay here .done rfl rfl trivial
    · exact inv.pass here _ .teardown rfl rfl rfl inv.tracked rfl rfl trivial

/-- The list is cleared while nobody takes references, so every tracked reader is retired. -/
theorem teardown_kept (inv : s.Kept) (here : s.threads[i]? = some .teardown) :
    (s.step (.run i)).Kept := by
  simp only [step, here, Core.advance]
  cases free : s.core.busy with
  | true =>
    simp only [if_true]
    rw [Pool.set_same here]
    exact inv
  | false =>
    simp only [Bool.false_eq_true, if_false]
    have idle := inv.noneTaking free
    have onward : s.core.Onward { s.core with locked := true, published := [], tracked := [] } :=
      ⟨le_rfl, fun r retired => ⟨retired.1, nofun⟩, fun _ => id, fun _ _ => id⟩
    refine ⟨fun r => ?_, fun r => ?_, ?_, inv.fresh, nofun, nofun, ?_, ?_, inv.shut⟩
    · rw [references_same here _ (.closeReaders s.core.tracked) rfl r]
      exact inv.counted r
    · rw [references_same here _ (.closeReaders s.core.tracked) rfl r]
      exact inv.few r
    · have same := Pool.total_set Thread.rlocks here (.closeReaders s.core.tracked)
      have before := inv.rlocked
      simp only [Thread.rlocks] at same ⊢
      omega
    · exact Pool.forall_set (fun u member => (inv.ok u member).mono onward (.inl (idle u member)))
        fun r member => ⟨inv.tracked r member, nofun⟩
    · exact fun r set => onward.retired r (inv.retired r set)

theorem closeReaders_kept (inv : s.Kept) (todo : List Nat)
    (here : s.threads[i]? = some (.closeReaders todo)) : (s.step (.run i)).Kept := by
  have retired : ∀ x ∈ todo, s.core.Retired x := inv.ok _ (Pool.mem here)
  simp only [step, here]
  cases todo with
  | nil =>
    exact inv.pass here { s.core with locked := false } .done rfl rfl rfl inv.tracked rfl rfl
      trivial
  | cons r todo =>
    exact inv.storeClose here r (.closeLoad r todo) (retired r (by simp)) rfl rfl
      ⟨by simp [Core.modify], fun x member => retired x (by simp [member])⟩

theorem closeLoad_kept (inv : s.Kept) (r : Nat) (todo : List Nat)
    (here : s.threads[i]? = some (.closeLoad r todo)) : (s.step (.run i)).Kept := by
  obtain ⟨set, retired⟩ := inv.ok _ (Pool.mem here)
  simp only [step, here, Core.advance]
  split
  next zero => exact inv.stay here _ rfl rfl ⟨⟨set, zero⟩, rfl, retired⟩
  · exact inv.stay here _ rfl rfl retired

theorem closeFile_kept (inv : s.Kept) (r : Nat) (stage : CloseStage) (after : Thread)
    (here : s.threads[i]? = some (.closeFile r stage after)) : (s.step (.run i)).Kept := by
  obtain ⟨⟨set, zero⟩, unlocked, later⟩ := inv.ok _ (Pool.mem here)
  have flags := (s.core.readers r).closeFile_flags stage
  have onward : s.core.Onward (s.core.modify r fun s => (s.closeFile stage).1) := by
    refine ⟨le_rfl, fun _ => id, fun x set => ?_, fun x set zero => ?_⟩
    · by_cases same : x = r
      · subst same
        simp [Core.modify, flags.2, set]
      · simpa [Core.modify, same] using set
    · by_cases same : x = r
      · subst same
        simp [Core.modify, flags.1, zero]
      · simpa [Core.modify, same] using zero
  have stays : after.Ok (s.core.modify r fun s => (s.closeFile stage).1) :=
    later.mono onward (.inl unlocked)
  have moves (next : Thread) (held : next.held = after.held) (rlocks : next.rlocks = 0)
      (ok : next.Ok (s.core.modify r fun s => (s.closeFile stage).1)) :
      Kept ⟨s.core.modify r fun s => (s.closeFile stage).1, s.threads.set i next⟩ :=
    inv.touch here r (fun s => (s.closeFile stage).1) next (inv.retired r set).1 rlocks
      (by rw [held, flags.1]; exact fun _ => id)
      (by rw [held]; exact Nat.add_lt_add_right (inv.few r) _) (by rw [held]; exact fun _ _ => rfl)
      (fun set => flags.2.trans set) (fun _ zero => flags.1.trans zero) (fun _ => inv.retired r set)
      (fun _ => ⟨flags.2.trans set, flags.1.trans zero⟩) ok
  simp only [step, here, Core.advance]
  cases ((s.core.readers r).closeFile stage).2 with
  | some n =>
    exact moves _ rfl rfl ⟨⟨onward.pending r set, onward.zero r set zero⟩, unlocked, stays⟩
  | none => exact moves after rfl unlocked stays

theorem step_kept (s : Pins) (i : PinStep) (inv : s.Kept) (safe : s.Safe i) : (s.step i).Kept := by
  cases i with
  | get => exact inv.spawn .start rfl rfl trivial
  | flush => exact inv.spawn .publish rfl rfl trivial
  | compact inputs => exact inv.spawn (.swap inputs) rfl rfl trivial
  | close => exact inv.spawn .closeStart rfl rfl trivial
  | run i =>
    cases here : s.threads[i]? with
    | none =>
      simp only [step, here]
      exact inv
    | some t =>
      cases t with
      | start => exact start_kept inv here
      | taking todo held => exact taking_kept inv todo held here safe
      | reading held =>
        simp only [step, here, Core.advance]
        exact inv.stay here _ rfl rfl trivial
      | releasing held => exact releasing_kept inv held here
      | zeroed r held => exact zeroed_kept inv r held here safe
      | publish => exact publish_kept inv here
      | swap inputs => exact swap_kept inv inputs here
      | track r inputs => exact track_kept inv r inputs here
      | discarding todo => exact discarding_kept inv todo here
      | discardMark r todo => exact discardMark_kept inv r todo here
      | discardLoad r todo => exact discardLoad_kept inv r todo here
      | closeStart => exact closeStart_kept inv here
      | teardown => exact teardown_kept inv here
      | closeReaders todo => exact closeReaders_kept inv todo here
      | closeLoad r todo => exact closeLoad_kept inv r todo here
      | closeFile r stage after => exact closeFile_kept inv r stage after here
      | done =>
        simp only [step, here, Core.advance]
        rw [Pool.set_same here]
        exact inv

/-- In every interleaving of lookups, scans, flushes, compactions and `Close` in which no
`Unref` finds the flag set on a reader that was taken again and the counters do not wrap, a
reader in use stays open. -/
theorem pinned_of_safe (s : Pins) (steps : List PinStep) (opened : s.Opened)
    (safe : Machine.Always step Safe s steps) : (Machine.run step s steps).Pinned :=
  (Machine.run_invariant step Safe Kept step_kept s steps opened.kept safe).pinned

/-- Two tables, nobody using them. -/
def twoTables : Pins where
  core := {
    readers := fun _ => .opened
    next := 2
    published := [0, 1]
    tracked := [0, 1]
    closed := false
    rlocks := 0
    locked := false }
  threads := []

theorem twoTables_opened : twoTables.Opened where
  idle := rfl
  readers := fun _ => rfl
  published := by decide
  tracked := by decide
  unlocked := ⟨rfl, rfl⟩

/-- The goroutine takes `n` steps. -/
def runs (i n : Nat) : List PinStep := List.replicate n (.run i)

/-- A scan keeps both inputs of a compaction, and `Close` comes on top. -/
theorem pinned_compacted :
    let s := Machine.run step twoTables
      ([.get] ++ runs 0 4 ++ [.compact [0, 1]] ++ runs 1 9 ++ [.close] ++ runs 2 10)
    (s.threads.map Thread.held = [[1, 0], [], []] ∧ s.core.published = []) ∧ s.Pinned :=
  ⟨by decide +kernel, pinned_of_safe twoTables _ twoTables_opened (by decide +kernel)⟩

/-- A lookup releases table 1 and stops before it looks at the flag; a second lookup takes
both tables, and a compaction discards them. The first lookup then closes table 1. -/
theorem not_pinned_taken_again :
    let s := Machine.run step twoTables
      ([.get] ++ runs 0 6 ++ [.get] ++ runs 1 4 ++ [.compact [0, 1]] ++ runs 2 8 ++ runs 0 6)
    s.threads[1]? = some (.reading [1, 0]) ∧ (s.core.readers 1).fileClosed = true ∧ ¬s.Pinned := by
  decide +kernel

/-- In the safe interleavings the counter of a reader is the number of references that lookups
and scans hold on it, as far as 32 bits with a sign go, and zero only without any; and a reader
that was told to close is not published any more. -/
theorem refs_eq_held_of_safe (s : Pins) (steps : List PinStep) (opened : s.Opened)
    (safe : Machine.Always step Safe s steps) (r : Nat) :
    let s' := Machine.run step s steps
    (s'.references r < 2 ^ 31 → (s'.core.readers r).refs.toInt = s'.references r) ∧
      ((s'.core.readers r).refs = 0 ↔ s'.references r = 0) ∧
      ((s'.core.readers r).closePending = true → r ∉ s'.core.published) := by
  have inv := Machine.run_invariant step Safe Kept step_kept s steps opened.kept safe
  refine ⟨fun small => ?_, inv.refs_eq_zero r, fun told => (inv.retired r told).2⟩
  rw [inv.counted r, Int32.toInt_ofNat_of_lt small]

/-- A scan holds both inputs of a compaction that is done with them. -/
theorem refs_eq_held_compacted :
    let steps := [.get] ++ runs 0 4 ++ [.compact [0, 1]] ++ runs 1 9
    let s := Machine.run step twoTables steps
    s.references 1 = 1 ∧ (s.core.readers 1).refs.toInt = 1 ∧
      (s.core.readers 1).closePending = true ∧ 1 ∉ s.core.published := by
  intro steps s
  have held : s.references 1 = 1 := by decide +kernel
  have told : (s.core.readers 1).closePending = true := by decide +kernel
  obtain ⟨counter, -, gone⟩ :=
    refs_eq_held_of_safe twoTables steps twoTables_opened (by decide +kernel) 1
  exact ⟨held, (counter (by rw [held]; decide)).trans (by rw [held]; rfl), told, gone told⟩

end Pins

end PebbleDB.Db
