import PebbleDB.Db.SortedView
import PebbleDB.Lib.Machine

/-!
# Seeks on a scan

`Scan(start, end)` returns an iterator "over keys in the half-open range". The start is
applied once, by the `Seek` on the merge with which `Scan` ends, and the end by `Valid`.
The caller may call `Seek` on the iterator as well, and that goes to the merge as it is.

## Main results

* `scan_rangeKept_iff`: a sequence of `Next` and `Seek` calls stays in the range, and every
  `Seek` ends on the smallest live key of the range that is not below its target, if and
  only if no target has a live key below the start at it or above it.
* `not_rangeKept_below_start`: a `Seek` to a key below the start leaves the range.

The sources of the iterator can be repositioned wherever they stand, so an invariant about
what they hold and what they have left carries over both kinds of calls. The store is as
for the sorted view: short enough a queue and few enough tables for the priorities, and no
empty key where a source could stand on it.
-/
namespace PebbleDB.Db

open Iterator (View fromKey live Mergeable)

namespace ScanIterator

/-- `Seek`: nothing compares the key with the start of the range. -/
def seek (it : ScanIterator) (key : Bytes) : ScanIterator × Option ScanError :=
  if it.closed then (it, some .closed)
  else
    match it.merge.seek scanInterface it.bound key with
    | (merge, err) => ({ it with merge := merge }, err.map .merge)

end ScanIterator

inductive ScanCall where
  | next
  | seek (key : Bytes)

def ScanIterator.call (it : ScanIterator) : ScanCall → ScanIterator
  | .next => it.next.1
  | .seek key => (it.seek key).1

/-! ### The property -/

section Property

variable (db : DB) (tables : List (List Entry)) (start stop : Bytes)

/-- The newest layer that has the key has this live value of it. -/
def LiveAs (k v : Bytes) : Prop :=
  ∃ e, db.newestEntry tables k = some e ∧ e.tombstone = false ∧ e.value = v

/-- The key is live, in the range, and not below the target. -/
def Eligible (target k : Bytes) : Prop :=
  (∃ v, LiveAs db tables k v) ∧ target ≤ k ∧ InRange start stop k

/-- Where the iterator should stand after `Seek`. -/
def AtSmallest (target : Bytes) (it : ScanIterator) : Prop :=
  it.valid = true ∧ Eligible db tables start stop target it.merge.key ∧
      LiveAs db tables it.merge.key it.merge.value.bytes ∧
      (∀ k, Eligible db tables start stop target k → it.merge.key ≤ k) ∨
    it.valid = false ∧ ∀ k, ¬Eligible db tables start stop target k

/-- After every call of the sequence a valid iterator stands in the range, and after every
`Seek` on the smallest key that is eligible. -/
structure RangeKept (it : ScanIterator) (calls : List ScanCall) : Prop where
  inRange : ∀ before, before <+: calls → (Machine.run .call it before).valid = true →
    InRange start stop (Machine.run ScanIterator.call it before).merge.key
  sought : ∀ before target, before ++ [.seek target] <+: calls →
    AtSmallest db tables start stop target (Machine.run .call it (before ++ [.seek target]))

/-- No live key lies between the target and the start, as far as the end allows. -/
def NothingBelow (target : Bytes) : Prop :=
  ∀ k v, LiveAs db tables k v → target ≤ k → stop = [] ∨ k < stop → start ≤ k

end Property

/-! ### Stores that a scan can merge -/

/-- The conditions of the sorted view on an open store. -/
structure Scannable (db : DB) (tables : List (List Entry)) : Prop where
  opened : db.closed = false
  stores : List.Forall₂ Sst.Reader.Stores db.sstables tables
  short : db.pendingFlush.length ≤ 1000000
  covered : db.pendingFlush.length + tables.length ≤ 1000001

/-- A scan or a `Seek` from the key on does not meet the empty key. -/
def Keyed (db : DB) (tables : List (List Entry)) (key : Bytes) : Prop :=
  key ≠ [] ∨ db.StoresOnly tables fun k => k ≠ []

section Walk

variable {db : DB} {tables : List (List Entry)} (scannable : Scannable db tables)

include scannable

theorem Scannable.live_iff (k v : Bytes) :
    live k (db.scanView tables) = some v ↔ LiveAs db tables k v := by
  rw [live, db.resolve_scanView tables k scannable.short (.inl scannable.covered), LiveAs]
  cases db.newestEntry tables k with
  | none => simp
  | some e => simp

theorem Scannable.mergeable (key : Bytes) (keyed : Keyed db tables key) :
    Mergeable ((db.scanView tables).map fun v => (fromKey key v.1, v.2)) := by
  apply db.scanView_mergeable tables scannable.stores key scannable.short
  intro v inView e inside above
  rcases keyed with nonempty | only
  · rintro empty
    rw [empty] at above
    exact nonempty (le_antisymm above (not_lt.mp (List.not_lt_nil key)))
  · exact only.layers db tables _ v inView e inside

theorem Scannable.few (key : Bytes) :
    Iterator.remaining ((db.scanView tables).map fun v => (fromKey key v.1, v.2)) < db.scanBound :=
  (Iterator.remaining_fromKey key (db.scanView tables)).trans_lt
    (db.remaining_scanView tables scannable.stores)

/-- From the key on, the merge has the live keys that are not below it. -/
theorem Scannable.live_fromKey (key k v : Bytes) :
    live k ((db.scanView tables).map fun w => (fromKey key w.1, w.2)) = some v ↔
      key ≤ k ∧ LiveAs db tables k v := by
  rw [← scannable.live_iff, live, live, Iterator.resolve_fromKey]
  by_cases above : key ≤ k
  · simp [above]
  · simp [above]

/-- A key that the merge has no live value of, and that is not below the target, is not live. -/
theorem Scannable.not_live {key k v : Bytes}
    (none_ : live k ((db.scanView tables).map fun w => (fromKey key w.1, w.2)) = none)
    (above : key ≤ k) : ¬LiveAs db tables k v := by
  intro liveAs
  have isLive := (scannable.live_fromKey key k v).mpr ⟨above, liveAs⟩
  rw [none_] at isLive
  cases isLive

end Walk

/-! ### The invariant -/

section Invariant

variable (db : DB) (tables : List (List Entry)) (start stop : Bytes)

/-- An iterator of the scan: its sources hold the layers and have only live keys left that
are in the range or beyond its end. -/
structure Walks (it : ScanIterator) : Prop where
  opened : it.closed = false
  ends : it.stop = stop
  bound : it.bound = db.scanBound
  noErr : it.merge.err = none
  holds : List.Forall₂ HoldsAt it.merge.sources (db.scanView tables)
  left : ∃ left, List.Forall₂ (Iterator.Shows scanInterface.toInterface) it.merge.sources left ∧
    Mergeable left ∧ Iterator.remaining left < db.scanBound ∧
    ∀ k, live k left ≠ none → stop = [] ∨ k < stop → start ≤ k
  here : it.merge.valid = true → stop = [] ∨ it.merge.key < stop → start ≤ it.merge.key

variable {db tables start stop} {it : ScanIterator} (walks : Walks db tables start stop it)

include walks in
theorem Walks.valid_iff :
    it.valid = true ↔ it.merge.valid = true ∧ (stop = [] ∨ it.merge.key < stop) := by
  cases valid : it.merge.valid with
  | false => simp [ScanIterator.valid, walks.opened, Iterator.MergeIterator.isValid, valid]
  | true =>
    rw [it.valid_eq walks.opened valid walks.noErr, walks.ends]
    simp

include walks in
theorem Walks.inRange (valid : it.valid = true) : InRange start stop it.merge.key := by
  obtain ⟨isValid, below⟩ := walks.valid_iff.mp valid
  exact ⟨walks.here isValid below, below⟩

/-- A step of the merge keeps to the keys that the sources had left. -/
theorem Walks.of_advance (m : Iterator.MergeIterator ScanSource Sst.Error) (view : View)
    (noErr : m.err = none) (holds : List.Forall₂ HoldsAt m.sources (db.scanView tables))
    (shows : List.Forall₂ (Iterator.Shows scanInterface.toInterface) m.sources view)
    (mergeable : Mergeable view) (few : Iterator.remaining view < db.scanBound)
    (above : ∀ k, live k view ≠ none → stop = [] ∨ k < stop → start ≤ k) :
    Walks db tables start stop
      ⟨(m.advance scanInterface.toInterface db.scanBound).1, stop, false, db.scanBound⟩ := by
  obtain ⟨-, positioned⟩ := m.advance_positioned scanInterface.toInterface db.scanBound view noErr
    shows mergeable few
  obtain ⟨left, shows', mergeable', fewer, kept⟩ := m.advance_left scanInterface.toInterface
    db.scanBound view shows mergeable positioned
  refine ⟨rfl, rfl, rfl, positioned.1, ?_, ⟨left, shows', mergeable', fewer.trans_lt few, ?_⟩, ?_⟩
  · exact m.advance_keeps scanInterface.toInterface
      (fun s v held => ⟨held.1.next, held.2⟩) db.scanBound _ holds
  · exact fun k isLive => above k (kept k isLive)
  · intro valid
    obtain ⟨-, ⟨invalid, -⟩ | ⟨-, isLive, -⟩⟩ := positioned
    · rw [valid] at invalid
      cases invalid
    · exact above _ (by rw [isLive]; simp)

include walks in
theorem Walks.next : Walks db tables start stop it.next.1 := by
  obtain ⟨left, shows, mergeable, few, above⟩ := walks.left
  obtain ⟨moved, -⟩ := it.merge.advance_positioned scanInterface.toInterface db.scanBound left
    walks.noErr shows mergeable few
  have onward := Walks.of_advance it.merge left walks.noErr walks.holds shows mergeable few above
  rw [it.next_eq walks.opened walks.noErr (walks.bound ▸ moved)]
  obtain ⟨merge, stop', closed, bound⟩ := it
  obtain rfl : stop' = stop := walks.ends
  obtain rfl : closed = false := walks.opened
  obtain rfl : bound = db.scanBound := walks.bound
  exact onward

end Invariant

/-! ### One seek -/

section Seek

variable {db : DB} {tables : List (List Entry)} {start stop : Bytes} {it : ScanIterator}
  (scannable : Scannable db tables) (walks : Walks db tables start stop it) (target : Bytes)
  (keyed : Keyed db tables target)

include scannable walks keyed

/-- `Seek` puts the iterator on the smallest live key that is not below the target. -/
theorem Walks.seek_eq : ∃ m : Iterator.MergeIterator ScanSource Sst.Error,
    m.err = none ∧ List.Forall₂ HoldsAt m.sources (db.scanView tables) ∧
      List.Forall₂ (Iterator.Shows scanInterface.toInterface) m.sources
        ((db.scanView tables).map fun v => (fromKey target v.1, v.2)) ∧
      it.seek target =
        (⟨(m.advance scanInterface.toInterface db.scanBound).1, stop, false, db.scanBound⟩, none) := by
  obtain ⟨srcs, sought, shows, holds⟩ := seekAll_holds target it.merge.sources _ walks.holds
  refine ⟨{ it.merge with err := none, sources := srcs }, rfl, holds, shows, ?_⟩
  obtain ⟨moved, -⟩ := Iterator.MergeIterator.advance_positioned scanInterface.toInterface db.scanBound
    { it.merge with err := none, sources := srcs } _ rfl shows (scannable.mergeable target keyed)
    (scannable.few target)
  obtain ⟨merge, stop', closed, bound⟩ := it
  obtain rfl : stop' = stop := walks.ends
  obtain rfl : closed = false := walks.opened
  obtain rfl : bound = db.scanBound := walks.bound
  simp only [ScanIterator.seek, Iterator.MergeIterator.seek, sought, Bool.false_eq_true, if_false]
  rw [moved]
  rfl

theorem Walks.seek (nothing : NothingBelow db tables start stop target) :
    Walks db tables start stop (it.seek target).1 ∧
      AtSmallest db tables start stop target (it.seek target).1 := by
  obtain ⟨m, noErr, holds, shows, sought⟩ := walks.seek_eq scannable target keyed
  have mergeable := scannable.mergeable target keyed
  have few := scannable.few target
  have onward : Walks db tables start stop _ := Walks.of_advance m _ noErr holds shows mergeable few (by
    intro k isLive
    obtain ⟨v, isLive⟩ := Option.ne_none_iff_exists'.mp isLive
    obtain ⟨above, liveAs⟩ := (scannable.live_fromKey target k v).mp isLive
    exact nothing k v liveAs above)
  have valid_iff := onward.valid_iff
  have here := onward.here
  obtain ⟨-, -, ⟨invalid, none_⟩ | ⟨valid, isLive, smaller, -⟩⟩ :=
    m.advance_positioned scanInterface.toInterface db.scanBound _ noErr shows mergeable few
  · rw [sought]
    refine ⟨onward, .inr ⟨?_, ?_⟩⟩
    · rw [← Bool.not_eq_true, valid_iff, invalid]
      simp
    · rintro k ⟨⟨v, liveAs⟩, above, -⟩
      exact scannable.not_live (none_ k) above liveAs
  · obtain ⟨above, liveAs⟩ := (scannable.live_fromKey target _ _).mp isLive
    -- nothing that is eligible comes before the key of the merge
    have least (k : Bytes) (eligible : Eligible db tables start stop target k) :
        (m.advance scanInterface.toInterface db.scanBound).1.key ≤ k := by
      obtain ⟨⟨v, liveK⟩, aboveK, -⟩ := eligible
      by_contra less
      exact scannable.not_live (smaller k (not_le.mp less)) aboveK liveK
    rw [sought]
    refine ⟨onward, ?_⟩
    -- at or behind the end of the range `Valid` is false, and then nothing is eligible
    by_cases below : stop = [] ∨ (m.advance scanInterface.toInterface db.scanBound).1.key < stop
    · exact .inl ⟨valid_iff.mpr ⟨valid, below⟩, ⟨⟨_, liveAs⟩, above, here valid below, below⟩,
        liveAs, least⟩
    · refine .inr ⟨?_, fun k eligible => below ?_⟩
      · rw [← Bool.not_eq_true, valid_iff]
        exact fun both => below both.2
      · exact eligible.2.2.2.imp id (least k eligible).trans_lt

/-- If a valid position after `Seek` is in the range, there is no live key below. -/
theorem Walks.nothingBelow
    (inRange : (it.seek target).1.valid = true → InRange start stop (it.seek target).1.merge.key) :
    NothingBelow db tables start stop target := by
  intro k v liveAs above below
  obtain ⟨m, noErr, holds, shows, sought⟩ := walks.seek_eq scannable target keyed
  rw [sought] at inRange
  obtain ⟨-, noErr', ⟨-, none_⟩ | ⟨valid, -, smaller, -⟩⟩ :=
    m.advance_positioned scanInterface.toInterface db.scanBound _ noErr shows
      (scannable.mergeable target keyed) (scannable.few target)
  · exact absurd liveAs (scannable.not_live (none_ k) above)
  · have notAbove : (m.advance scanInterface.toInterface db.scanBound).1.key ≤ k := by
      by_contra less
      exact scannable.not_live (smaller k (not_le.mp less)) above liveAs
    refine (inRange ?_).1.trans notAbove
    rw [ScanIterator.valid_eq _ rfl valid noErr', decide_eq_true_eq]
    exact below.imp id notAbove.trans_lt

end Seek

/-! ### Sequences of calls -/

section Calls

variable {db : DB} {tables : List (List Entry)} (scannable : Scannable db tables)
  (start stop : Bytes)

include scannable in
theorem Scannable.scan (keyed : Keyed db tables start) :
    ∃ it, db.scan start stop = .ok it ∧ Walks db tables start stop it := by
  obtain ⟨srcs, sought, shows, holds⟩ := exists_sought db tables scannable.stores start
  have mergeable := scannable.mergeable start keyed
  have few := scannable.few start
  obtain ⟨noErr, -⟩ := Iterator.MergeIterator.advance_positioned scanInterface.toInterface
    db.scanBound ⟨srcs, [], none, false, none⟩ _ rfl shows mergeable few
  have walks : Walks db tables start stop _ :=
    Walks.of_advance ⟨srcs, [], none, false, none⟩ _ rfl holds shows mergeable few (by
      intro k isLive _
      obtain ⟨v, isLive⟩ := Option.ne_none_iff_exists'.mp isLive
      exact ((scannable.live_fromKey start k v).mp isLive).1)
  refine ⟨_, ?_, walks⟩
  rw [scan_eq db scannable.opened start stop srcs sought]
  cases moved : Iterator.MergeIterator.advance scanInterface.toInterface db.scanBound
      ⟨srcs, [], none, false, none⟩ with
  | mk merge err =>
    rw [moved] at noErr
    cases noErr
    rfl

variable {start stop} {it : ScanIterator} (walks : Walks db tables start stop it)

include scannable walks

/-- While no target has a live key below the start, the iterator walks in the range. -/
theorem Walks.run (calls : List ScanCall)
    (targets : ∀ t, .seek t ∈ calls → Keyed db tables t ∧ NothingBelow db tables start stop t) :
    Walks db tables start stop (Machine.run .call it calls) := by
  induction calls generalizing it with
  | nil => exact walks
  | cons call calls ih =>
    have later := fun t member => targets t (List.mem_cons_of_mem call member)
    rw [Machine.run_cons]
    cases call with
    | next => exact ih walks.next later
    | seek t =>
      obtain ⟨keyed, nothing⟩ := targets t List.mem_cons_self
      exact ih (walks.seek scannable t keyed nothing).1 later

variable {calls : List ScanCall} (keyed : ∀ t, .seek t ∈ calls → Keyed db tables t)

include keyed

/-- A sequence that stays in the range never seeks below a live key in front of the start. -/
theorem Walks.targets_of_rangeKept (kept : RangeKept db tables start stop it calls)
    (before : List ScanCall) (done : before <+: calls) :
    ∀ t, .seek t ∈ before → Keyed db tables t ∧ NothingBelow db tables start stop t := by
  induction before using List.reverseRecOn with
  | nil => simp
  | append_singleton before call ih =>
    -- the calls before have kept the invariant, so the last `Seek` can be looked at alone
    have earlier := ih ((List.prefix_append before [call]).trans done)
    have walked := walks.run scannable before earlier
    intro t member
    rcases List.mem_append.mp member with old | new
    · exact earlier t old
    · obtain rfl := List.mem_singleton.mp new
      have isKeyed := keyed t (done.subset member)
      refine ⟨isKeyed, walked.nothingBelow scannable t isKeyed ?_⟩
      have inRange := kept.inRange _ done
      rwa [Machine.run_append] at inRange

theorem Walks.rangeKept_iff :
    RangeKept db tables start stop it calls ↔
      ∀ t, .seek t ∈ calls → NothingBelow db tables start stop t := by
  constructor
  · exact fun kept t member =>
      (walks.targets_of_rangeKept scannable keyed kept calls (List.prefix_refl calls) t member).2
  · intro nothing
    have walked (before : List ScanCall) (done : before <+: calls) :
        Walks db tables start stop (Machine.run .call it before) :=
      walks.run scannable before fun t member =>
        ⟨keyed t (done.subset member), nothing t (done.subset member)⟩
    refine ⟨fun before done => (walked before done).inRange, fun before t done => ?_⟩
    have inCalls : .seek t ∈ calls := done.subset (by simp)
    rw [Machine.run_append]
    exact ((walked before ((List.prefix_append before _).trans done)).seek scannable t
      (keyed t inCalls) (nothing t inCalls)).2

end Calls

/-- Every sequence of `Next` and `Seek` calls on a scan keeps to the range and finds the
smallest eligible key, if and only if no target lies below a live key in front of the
start. -/
theorem scan_rangeKept_iff (db : DB) (tables : List (List Entry)) (scannable : Scannable db tables)
    (start stop : Bytes) (calls : List ScanCall) (keyed : Keyed db tables start)
    (targets : ∀ t, .seek t ∈ calls → Keyed db tables t) :
    ∃ it, db.scan start stop = .ok it ∧
      (RangeKept db tables start stop it calls ↔
        ∀ t, .seek t ∈ calls → NothingBelow db tables start stop t) := by
  obtain ⟨it, scanned, walks⟩ := scannable.scan start stop keyed
  exact ⟨it, scanned, walks.rangeKept_iff scannable targets⟩

/-- A store with the keys a and b in its active memtable. -/
def twoKeys : DB :=
  { emptyDB with active := (singleton [97] [1]).put [98] [2] fun _ => false }

theorem twoKeys_scannable : Scannable twoKeys [] := ⟨rfl, .nil, by decide, by decide⟩

/-- Targets in the range from b on. -/
theorem scan_rangeKept_from_b : ∃ it, twoKeys.scan [98] [] = .ok it ∧
    RangeKept twoKeys [] [98] [] it [.seek [98], .next, .seek [99]] := by
  obtain ⟨it, scanned, kept⟩ := scan_rangeKept_iff twoKeys [] twoKeys_scannable [98] []
    [.seek [98], .next, .seek [99]] (.inl (by decide)) (by simp [Keyed])
  refine ⟨it, scanned, kept.mpr fun t member k v _ above _ => ?_⟩
  have notBelow : ([98] : Bytes) ≤ t := by
    simp only [List.mem_cons, ScanCall.seek.injEq, reduceCtorEq, List.not_mem_nil, or_false,
      false_or] at member
    rcases member with rfl | rfl <;> decide
  exact notBelow.trans above

/-- `Scan(b, nil)` and then `Seek(a)`: the iterator is valid on a. -/
theorem not_rangeKept_below_start : ∃ it, twoKeys.scan [98] [] = .ok it ∧
    (it.seek [97]).1.valid = true ∧ (it.seek [97]).1.merge.key = [97] ∧
      ¬RangeKept twoKeys [] [98] [] it [.seek [97]] := by
  have sought : (twoKeys.scan [98] []).map
      (fun it => ((it.seek [97]).1.valid, (it.seek [97]).1.merge.key)) = .ok (true, [97]) := by
    decide +kernel
  cases scanned : twoKeys.scan [98] [] with
  | error e =>
    rw [scanned] at sought
    cases sought
  | ok it =>
    rw [scanned] at sought
    obtain ⟨valid, key⟩ := Prod.mk.inj (Except.ok.inj sought)
    refine ⟨it, rfl, valid, key, fun kept => ?_⟩
    have inRange := kept.inRange [.seek [97]] (List.prefix_refl _) valid
    rw [show (Machine.run ScanIterator.call it [.seek [97]]).merge.key = [97] from key] at inRange
    exact absurd inRange.1 (by decide)

end PebbleDB.Db
