import PebbleDB.Bytes
import PebbleDB.Lib.Lru
import PebbleDB.Lib.Machine

/-!
# The block cache

`BlockCache` keeps data blocks in an LRU cache and counts their bytes. `add` drops the
oldest blocks until the count is within the capacity. The LRU cache has a limit of its own,
one entry for every 256 bytes of capacity, and drops an entry by itself when an `Add`
exceeds it; `add` does not hear of that.

The LRU cache comes from a library that is not part of the repository. It is a parameter
`L` here; the results need its laws, `Lru.Library.Lawful`, and nothing else of it.

## Main result

`exact_of_safe`: for every lawful library, as long as every `add` finds its key or a free entry, the count is the sum
of the lengths of the blocks that are held, and within the capacity.
-/
namespace PebbleDB.Sst

structure BlockCacheKey where
  fileID : Nat
  offset : Nat
  deriving DecidableEq, Repr

/-- `inner` is nil when `lru.New` has refused its size; then every use of it panics. -/
structure BlockCache (L : Lru.Library BlockCacheKey Bytes) where
  inner : Option L.Cache
  bytes : Int
  max : Nat

def defaultBlockCacheBytes : Nat := 32 * 2 ^ 20

/-- The error of `lru.New` is not looked at. -/
def newBlockCache (L : Lru.Library BlockCacheKey Bytes) (maxBytes : Int) : BlockCache L :=
  let max := if maxBytes ≤ 0 then defaultBlockCacheBytes else maxBytes.toNat
  ⟨L.new (max / 256), 0, max⟩

namespace BlockCache

variable {L : Lru.Library BlockCacheKey Bytes}

def get (c : BlockCache L) (key : BlockCacheKey) : Option (Option Bytes × BlockCache L) :=
  c.inner.map fun inner => ((L.get inner key).1, { c with inner := some (L.get inner key).2 })

/-- The loop of `add`: the oldest blocks go until the count is within the capacity. -/
def evict (max : Nat) : Nat → L.Cache → Int → L.Cache × Int
  | 0, inner, bytes => (inner, bytes)
  | fuel + 1, inner, bytes =>
    if (max : Int) < bytes then
      match L.removeOldest inner with
      | (none, _) => (inner, bytes)
      | (some oldest, rest) => evict max fuel rest (bytes - oldest.2.length)
    else (inner, bytes)

/-- A nil `inner` panics. -/
def add (c : BlockCache L) (key : BlockCacheKey) (block : Bytes) : Option (BlockCache L) :=
  c.inner.map fun inner =>
    let bytes := c.bytes - ((L.get inner key).1.elim 0 List.length : Nat)
    let added := L.add (L.get inner key).2 key block
    let evicted := evict c.max ((L.entries added).length + 1) added (bytes + block.length)
    ⟨some evicted.1, evicted.2, c.max⟩

end BlockCache

inductive CacheCall where
  | get (key : BlockCacheKey)
  | add (key : BlockCacheKey) (block : Bytes)

namespace BlockCache

variable {L : Lru.Library BlockCacheKey Bytes}

/-- A call that panics changes nothing. -/
def step (c : BlockCache L) : CacheCall → BlockCache L
  | .get key => ((c.get key).map Prod.snd).getD c
  | .add key block => (c.add key block).getD c

def held (c : BlockCache L) : List (BlockCacheKey × Bytes) := c.inner.elim [] L.entries

/-- The count is exact and within the capacity. -/
structure Exact (c : BlockCache L) : Prop where
  sum : c.bytes = (c.held.map fun entry => entry.2.length).sum
  within : c.bytes ≤ c.max

/-- An `add` finds its key, or fewer entries than the LRU cache has room for. -/
def Safe (c : BlockCache L) : CacheCall → Prop
  | .get _ => True
  | .add key _ => key ∈ c.held.map Prod.fst ∨ c.held.length < c.max / 256

instance decidableSafe (c : BlockCache L) : (call : CacheCall) → Decidable (c.Safe call)
  | .get _ => .isTrue trivial
  | .add _ _ => inferInstanceAs (Decidable (_ ∨ _))

/-! ### What the calls do to the count -/

/-- What is kept about a cache: its count, and the limit of its LRU cache. -/
structure Kept (c : BlockCache L) : Prop where
  exact : c.Exact
  size : ∀ inner, c.inner = some inner → L.size inner = c.max / 256

variable (lawful : L.Lawful)

include lawful

/-- The loop keeps an exact count exact, and gets it under the capacity. -/
theorem evict_exact (max fuel : Nat) (inner : L.Cache) (enough : (L.entries inner).length < fuel) :
    let evicted := evict max fuel inner (Lru.total List.length (L.entries inner))
    evicted.2 = Lru.total List.length (L.entries evicted.1) ∧ evicted.2 ≤ max ∧
      L.size evicted.1 = L.size inner := by
  induction fuel generalizing inner with
  | zero => omega
  | succ fuel ih =>
    have oldest := lawful.removeOldest_fst inner
    have left := lawful.removeOldest_entries inner
    have size := lawful.removeOldest_size inner
    simp only [evict]
    split
    next excess =>
      split
      next rest is =>
        -- an empty cache weighs nothing, so it is not over the capacity
        rw [is] at oldest
        rw [List.getLast?_eq_none_iff.mp oldest.symm, Lru.total_nil] at excess
        omega
      next last rest is =>
        rw [is] at oldest left size
        dsimp only at oldest left size
        have parts := Lru.total_dropLast List.length _ last oldest.symm
        have shorter : (L.entries rest).length < (L.entries inner).length := by
          obtain ⟨front, split⟩ := List.getLast?_eq_some_iff.mp oldest.symm
          rw [left, split, List.dropLast_concat, List.length_append, List.length_singleton]
          exact Nat.lt_succ_self _
        rw [← left] at parts
        have count : (Lru.total List.length (L.entries inner) : Int) - last.2.length =
            Lru.total List.length (L.entries rest) := by omega
        rw [count]
        obtain ⟨exact_, within, same⟩ := ih rest (by omega)
        exact ⟨exact_, within, same.trans size⟩
    next within => exact ⟨rfl, not_lt.mp within, rfl⟩

theorem newBlockCache_held (maxBytes : Int) : (newBlockCache L maxBytes).held = [] := by
  rw [held]
  cases is : (newBlockCache L maxBytes).inner with
  | none => rfl
  | some inner => exact lawful.new_entries _ inner is

theorem newBlockCache_kept (maxBytes : Int) : (newBlockCache L maxBytes).Kept where
  exact :=
    { sum := by
        rw [newBlockCache_held lawful maxBytes]
        rfl
      within := Int.natCast_nonneg _ }
  size := lawful.new_size _

variable {c : BlockCache L}

theorem get_kept (inv : c.Kept) (key : BlockCacheKey) : (c.step (.get key)).Kept := by
  rw [step, get]
  cases is : c.inner with
  | none => exact inv
  | some inner =>
    have sum := inv.exact.sum
    rw [held, is] at sum
    refine ⟨⟨?_, inv.exact.within⟩, fun inner' is' => ?_⟩
    · -- a hit only changes the order
      show c.bytes = Lru.total List.length (L.entries (L.get inner key).2)
      rw [lawful.get_total inner key]
      exact sum
    · cases is'
      exact (lawful.get_size inner key).trans (inv.size inner is)

theorem add_kept (inv : c.Kept) (key : BlockCacheKey) (block : Bytes)
    (safe : c.Safe (.add key block)) : (c.step (.add key block)).Kept := by
  rw [step, add]
  cases is : c.inner with
  | none => exact inv
  | some inner =>
    have sum := inv.exact.sum
    have size := (lawful.get_size inner key).trans (inv.size inner is)
    rw [held, is] at sum
    rw [Safe, held, is] at safe
    have room : key ∈ (L.entries (L.get inner key).2).map Prod.fst ∨
        (L.entries (L.get inner key).2).length < L.size (L.get inner key).2 := by
      rw [lawful.get_length, size]
      refine safe.imp_left fun member => ?_
      rw [lawful.get_entries]
      exact Lru.mem_keys_touched _ key member
    -- the entry that `Add` replaces was taken off the count before
    have replaced := lawful.add_total (L.get inner key).2 key block List.length room
    rw [lawful.get_entries, Lru.lookup_touched, ← lawful.get_entries,
      lawful.get_total inner key List.length] at replaced
    have count : c.bytes - ((L.get inner key).1.elim 0 List.length : Nat) + block.length =
        Lru.total List.length (L.entries (L.add (L.get inner key).2 key block)) := by
      rw [lawful.get_fst]
      have before : c.bytes = Lru.total List.length (L.entries inner) := sum
      omega
    obtain ⟨exact_, within, same⟩ := evict_exact lawful c.max
      ((L.entries (L.add (L.get inner key).2 key block)).length + 1)
      (L.add (L.get inner key).2 key block) (Nat.lt_succ_self _)
    simp only [Option.map_some, Option.getD_some, count]
    refine ⟨⟨exact_, within⟩, fun inner' is' => ?_⟩
    cases is'
    exact same.trans ((lawful.add_size _ _ _).trans size)

theorem step_kept (c : BlockCache L) (call : CacheCall) (inv : c.Kept) (safe : c.Safe call) :
    (c.step call).Kept := by
  cases call with
  | get key => exact get_kept lawful inv key
  | add key block => exact add_kept lawful inv key block safe

/-- For every lawful LRU library, every positive capacity and every sequence of calls in which
each `add` finds its key or room for one more entry. -/
theorem exact_of_safe (maxBytes : Int) (positive : 0 < maxBytes) (calls : List CacheCall)
    (safe : Machine.Always step Safe (newBlockCache L maxBytes) calls) :
    (Machine.run step (newBlockCache L maxBytes) calls).Exact ∧
      (Machine.run step (newBlockCache L maxBytes) calls).max = maxBytes.toNat := by
  have kept := Machine.run_invariant step Safe (fun c => c.Kept ∧ c.max = maxBytes.toNat)
    (fun c call inv safe => ⟨step_kept lawful c call inv.1 safe, ?_⟩) (newBlockCache L maxBytes)
    calls ⟨newBlockCache_kept lawful maxBytes, ?_⟩ safe
  · exact ⟨kept.1.exact, kept.2⟩
  · rw [← inv.2]
    cases call with
    | get key =>
      rw [step, get]
      cases c.inner <;> rfl
    | add key block =>
      rw [step, add]
      cases c.inner <;> rfl
  · rw [newBlockCache, if_neg (not_le.mpr positive)]

omit lawful

/-- Two blocks, one of them replaced by a shorter one, and a third one that makes room for
itself. -/
theorem exact_replaced :
    let block (n : Nat) : Bytes := List.replicate n 0
    let c := Machine.run step (newBlockCache (Lru.reference _ _) 1024) [.add ⟨1, 0⟩ (block 600),
      .add ⟨1, 600⟩ (block 400), .add ⟨1, 600⟩ (block 100), .get ⟨1, 0⟩, .add ⟨2, 0⟩ (block 400)]
    (c.bytes = 1000 ∧ c.held.map Prod.fst = [⟨2, 0⟩, ⟨1, 0⟩]) ∧ c.Exact :=
  ⟨by decide +kernel, (exact_of_safe Lru.reference_lawful 1024 (by decide) _ (by decide +kernel)).1⟩

/-- A capacity of 512 bytes is two entries. The third small block pushes the first one out,
and the count still has it. -/
theorem not_exact_small_blocks :
    let c := Machine.run step (newBlockCache (Lru.reference _ _) 512)
      [.add ⟨1, 0⟩ [1], .add ⟨1, 1⟩ [2], .add ⟨1, 2⟩ [3]]
    c.held.map Prod.fst = [⟨1, 2⟩, ⟨1, 1⟩] ∧ c.bytes = 3 ∧ ¬c.Exact := by
  intro c
  refine ⟨by decide +kernel, by decide +kernel, fun exact_ => ?_⟩
  exact absurd exact_.sum (by decide +kernel)

/-! ### What the cache returns -/

include lawful

theorem evict_subset (max fuel : Nat) (inner : L.Cache) (bytes : Int) :
    L.entries (evict max fuel inner bytes).1 ⊆ L.entries inner := by
  induction fuel generalizing inner bytes with
  | zero => exact List.Subset.refl _
  | succ fuel ih =>
    rw [evict]
    split
    · split
      · exact List.Subset.refl _
      next oldest rest is =>
        have left := lawful.removeOldest_entries inner
        rw [is] at left
        have dropped := (List.dropLast_sublist (L.entries inner)).subset
        rw [← left] at dropped
        exact List.Subset.trans (ih rest _) dropped
    · exact List.Subset.refl _

/-- A step holds nothing new but the block that it adds. -/
theorem step_held (c : BlockCache L) (call : CacheCall) (entry : BlockCacheKey × Bytes)
    (member : entry ∈ (c.step call).held) : entry ∈ c.held ∨ call = .add entry.1 entry.2 := by
  cases is : c.inner with
  | none =>
    left
    cases call <;> simpa only [step, get, add, is, Option.map_none, Option.getD_none] using member
  | some inner =>
    have before : c.held = L.entries inner := by rw [held, is, Option.elim_some]
    rw [before]
    cases call with
    | get key =>
      rw [step, get, is] at member
      have same : entry ∈ L.entries (L.get inner key).2 := member
      rw [lawful.get_entries] at same
      exact .inl (Lru.touched_subset _ key same)
    | add key block =>
      rw [step, add, is] at member
      have inAdded := evict_subset lawful _ _ _ _ member
      rw [lawful.add_entries, lawful.get_entries] at inAdded
      rcases List.mem_cons.mp ((List.take_sublist _ _).subset inAdded) with rfl | old
      · exact .inr rfl
      · exact .inl (Lru.touched_subset _ key (Lru.others_subset _ key old))

/-- Whatever lawful library is used, a hit is a block that was added under its key. -/
theorem get_added (maxBytes : Int) (calls : List CacheCall) (key : BlockCacheKey) (data : Bytes)
    (hit : ((Machine.run step (newBlockCache L maxBytes) calls).get key).map Prod.fst =
      some (some data)) : .add key data ∈ calls := by
  have held : (key, data) ∈ (Machine.run step (newBlockCache L maxBytes) calls).held := by
    simp only [get, Option.map_map, Option.map_eq_some_iff, Function.comp_apply] at hit
    obtain ⟨inner, is, found⟩ := hit
    rw [lawful.get_fst] at found
    obtain ⟨front, back, split, -⟩ := List.lookup_eq_some_iff.mp found
    rw [BlockCache.held, is, Option.elim_some, split]
    exact List.mem_append_right _ List.mem_cons_self
  -- a new cache holds nothing, and every step adds at most its own block
  have since : ∀ (c : BlockCache L), (key, data) ∈ (Machine.run step c calls).held →
      (key, data) ∈ c.held ∨ .add key data ∈ calls := by
    clear held hit
    induction calls with
    | nil => exact fun c member => .inl member
    | cons call calls ih =>
      intro c member
      rcases ih (c.step call) member with before | later
      · rcases step_held lawful c call _ before with old | rfl
        · exact .inl old
        · exact .inr List.mem_cons_self
      · exact .inr (List.mem_cons_of_mem _ later)
  refine (since _ held).resolve_left fun early => ?_
  rw [newBlockCache_held lawful] at early
  cases early

omit lawful

theorem get_added_second :
    let calls : List CacheCall := [.add ⟨2, 0⟩ [1], .add ⟨1, 0⟩ [7]]
    ((Machine.run step (newBlockCache (Lru.reference _ _) 512) calls).get ⟨1, 0⟩).map Prod.fst =
        some (some [7]) ∧ .add ⟨1, 0⟩ [7] ∈ calls :=
  ⟨by decide +kernel, get_added Lru.reference_lawful 512 _ _ _ (by decide +kernel)⟩

end BlockCache

end PebbleDB.Sst
