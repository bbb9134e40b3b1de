import PebbleDB.Db.Engine

/-!
# What a freeze covers

A freeze records the size of the log as the cutoff up to which the log may be dropped once
the frozen memtable is in a table. `flushPendingBatch` appends to the log without `db.mu`
and applies its batch under it, so between the two the log is ahead of the memtables. The
freeze in `maybeFlushLocked` comes right behind the apply. `Close` and `ForceMemtableFlush`
freeze whatever the log holds, also the batch of a call that is under way, or the records
that a failed `AppendBatch` has left behind; and of two calls under way one may freeze
while the other has logged its batch only.

When only one call at a time holds a batch, and the two freezes come when none does and
the last append has not failed, the log is covered.
-/
namespace PebbleDB.Db

namespace Engine

/-- No call of `flushPendingBatch` holds a batch. -/
def Free (e : Engine) : Prop := ∀ pc ∈ e.flushes, pc.holds = false

instance (e : Engine) : Decidable e.Free :=
  inferInstanceAs (Decidable (∀ pc ∈ e.flushes, pc.holds = false))

/-- A batch is taken when no other call holds one; `Close` and `ForceMemtableFlush` freeze
when no call does and the last `AppendBatch` has not failed. -/
def CutoffSafe (e : Engine) : EngineStep → Prop
  | .run who _ =>
    (e.starts who = true → e.store.pendingBatch ≠ [] → e.Free) ∧
      (e.freezing who = true → 0 < e.store.active.table.size →
        e.Free ∧ e.store.appendFailed = false)
  | _ => True

instance decidableCutoffSafe (e : Engine) : (i : EngineStep) → Decidable (e.CutoffSafe i)
  | .run _ _ => inferInstanceAs (Decidable (_ ∧ _))
  | .write _ | .close | .flushPendingBatch | .forceMemtableFlush => .isTrue trivial

/-- At every freeze each record in the log had been applied, to the frozen memtable or an
older one, and the records were applied in the order of the log. -/
structure CutoffCovered (e : Engine) : Prop where
  freezes : ∀ f ∈ e.store.freezes, ∀ op ∈ f.logged, op ∈ f.applied
  order : e.store.applied.Sublist e.store.logged

end Engine

/-! ### What holds between the steps -/

/-- The log is covered by the memtables and these records. -/
def EngineStore.CoveredBy (s : EngineStore) (ops : List Op) : Prop :=
  ∀ op ∈ s.logged, op ∈ s.applied ∨ op ∈ ops

/-- What a call relies on. -/
def FlushPc.Covers (s : EngineStore) : FlushPc → Prop
  | .taken batch => s.CoveredBy batch
  | .failed batch => s.appendFailed = true ∧ s.CoveredBy batch
  | .appended batch =>
    s.appendFailed = false ∧ (s.applied ++ batch).Sublist s.logged ∧ s.CoveredBy batch
  | _ => True

theorem FlushPc.covers_of_free (s : EngineStore) (pc : FlushPc) (free : pc.holds = false) :
    pc.Covers s := by
  cases pc with
  | taken | appended | failed => cases free
  | start | restored | check | send | done => trivial

namespace Engine

theorem free_iff (e : Engine) : e.Free ↔ ∀ who, e.holdsAt who = false := by
  simp only [Free, holdsAt]
  constructor
  · intro free who
    cases at_ : e.pcOf who with
    | none => rfl
    | some pc => exact free pc (mem_flushes.mpr ⟨who, at_⟩)
  · intro free pc member
    obtain ⟨who, at_⟩ := mem_flushes.mp member
    have none_ := free who
    rw [at_] at none_
    exact none_

structure CutoffKept (e : Engine) : Prop where
  order : e.store.applied.Sublist e.store.logged
  alone : ∀ who other, e.holdsAt who = true → e.holdsAt other = true → who = other
  held : ∀ who pc, e.pcOf who = some pc → pc.Covers e.store
  free : e.Free → e.store.CoveredBy (if e.store.appendFailed then e.store.pendingBatch else [])
  freezes : ∀ f ∈ e.store.freezes, ∀ op ∈ f.logged, op ∈ f.applied

theorem Opened.cutoffKept {e : Engine} (opened : e.Opened) : e.CutoffKept where
  order := by rw [opened.applied]; exact List.nil_sublist _
  alone who other holds := by
    have idle : e.holdsAt who = false := by
      cases who with
      | batchFlusher => rw [holdsAt, pcOf, opened.batchFlusher]; rfl
      | closer => rw [holdsAt, pcOf, opened.closer]; rfl
      | call i => rw [holdsAt, pcOf, opened.calls]; rfl
      | flusher | compactor => rfl
    rw [idle] at holds
    cases holds
  held who pc at_ := by
    cases who with
    | batchFlusher => rw [pcOf, opened.batchFlusher] at at_; cases at_
    | closer => rw [pcOf, opened.closer] at at_; cases at_
    | call i => rw [pcOf, opened.calls] at at_; cases at_
    | flusher | compactor => cases at_
  free _ := by
    rw [EngineStore.CoveredBy, opened.logged]
    exact fun _ member => absurd member List.not_mem_nil
  freezes := by
    rw [opened.freezes]
    exact fun _ member => absurd member List.not_mem_nil

variable {e e' : Engine} {who : Actor}

theorem CutoffKept.covered (inv : e.CutoffKept) : e.CutoffCovered := ⟨inv.freezes, inv.order⟩

/-- A step after which a goroutine is the only one that can hold a batch. -/
theorem CutoffKept.sole (inv : e.CutoffKept) (aside : Aside who e e')
    (others : ∀ other, other ≠ who → e.holdsAt other = false)
    (order : e'.store.applied.Sublist e'.store.logged)
    (held : ∀ pc, e'.pcOf who = some pc → pc.Covers e'.store)
    (free : e'.holdsAt who = false →
      e'.store.CoveredBy (if e'.store.appendFailed then e'.store.pendingBatch else []))
    (freezes : ∀ f ∈ e'.store.freezes, f ∈ e.store.freezes ∨ ∀ op ∈ f.logged, op ∈ f.applied) :
    e'.CutoffKept := by
  have others' (other : Actor) (ne : other ≠ who) : e'.holdsAt other = false := by
    rw [holdsAt, aside.pcOf ne]
    exact others other ne
  refine ⟨order, fun x y holdsX holdsY => ?_, fun x pc at_ => ?_, fun none_ => ?_,
    fun f member => (freezes f member).elim (inv.freezes f) id⟩
  · have is (z : Actor) (holds : e'.holdsAt z = true) : z = who := by
      by_contra ne
      rw [others' z ne] at holds
      cases holds
    rw [is x holdsX, is y holdsY]
  · by_cases same : x = who
    · subst same
      exact held pc at_
    · have idle := others' x same
      rw [holdsAt, at_] at idle
      exact pc.covers_of_free _ idle
  · exact free ((free_iff e').mp none_ who)

/-- The parts of the store that matter here. -/
structure SameLog (s s' : EngineStore) : Prop where
  logged : s'.logged = s.logged
  applied : s'.applied = s.applied
  appendFailed : s'.appendFailed = s.appendFailed
  freezes : s'.freezes = s.freezes
  pendingBatch : s.pendingBatch ⊆ s'.pendingBatch

theorem SameLog.refl (s : EngineStore) : SameLog s s := ⟨rfl, rfl, rfl, rfl, List.Subset.refl _⟩

theorem SameLog.coveredBy {s s' : EngineStore} (same : SameLog s s') {ops more : List Op}
    (covered : s.CoveredBy ops) (part : ops ⊆ more) : s'.CoveredBy more := by
  intro op member
  rw [same.logged] at member
  rw [same.applied]
  exact (covered op member).imp id fun held => part held

/-- A step that leaves the log and the memtables alone, of a goroutine without a batch. -/
theorem CutoffKept.pass (inv : e.CutoffKept) (aside : Aside who e e')
    (same : SameLog e.store e'.store) (before : e.holdsAt who = false)
    (after : e'.holdsAt who = false) : e'.CutoffKept := by
  have holds (x : Actor) : e'.holdsAt x = e.holdsAt x := by
    by_cases eq : x = who
    · rw [eq, before, after]
    · rw [holdsAt, holdsAt, aside.pcOf eq]
  refine ⟨?_, fun x y => ?_, fun x pc at_ => ?_, fun free => ?_, ?_⟩
  · rw [same.applied, same.logged]
    exact inv.order
  · rw [holds, holds]
    exact inv.alone x y
  · by_cases eq : x = who
    · subst eq
      rw [holdsAt, at_] at after
      exact pc.covers_of_free _ after
    · rw [aside.pcOf eq] at at_
      have covers := inv.held x pc at_
      cases pc with
      | taken batch => exact same.coveredBy covers (List.Subset.refl _)
      | failed batch =>
        exact ⟨same.appendFailed.trans covers.1, same.coveredBy covers.2 (List.Subset.refl _)⟩
      | appended batch =>
        refine ⟨same.appendFailed.trans covers.1, ?_, same.coveredBy covers.2.2 (List.Subset.refl _)⟩
        rw [same.applied, same.logged]
        exact covers.2.1
      | start | restored | check | send | done => trivial
  · have free' : e.Free := (free_iff e).mpr fun x => by rw [← holds]; exact (free_iff e').mp free x
    refine same.coveredBy (inv.free free') ?_
    rw [same.appendFailed]
    split
    · exact same.pendingBatch
    · exact List.Subset.refl _
  · rw [same.freezes]
    exact inv.freezes

/-! ### A call of `flushPendingBatch` -/

theorem CutoffKept.others (inv : e.CutoffKept) (holds : e.holdsAt who = true) :
    ∀ other, other ≠ who → e.holdsAt other = false := by
  intro other ne
  cases held : e.holdsAt other with
  | false => rfl
  | true => exact absurd (inv.alone other who held holds) ne

/-- The batch is logged, or a part of it, which the call still holds. -/
theorem CutoffKept.append (inv : e.CutoffKept) (aside : Aside who e e') (batch : List Op)
    (faults : Wal.Faults) (here : e.pcOf who = some (.taken batch))
    (store : e'.store = (e.store.append batch faults).1)
    (there : e'.pcOf who = some
      (if (e.store.append batch faults).2 then .appended batch else .failed batch)) :
    e'.CutoffKept := by
  have covers : e.store.CoveredBy batch := inv.held who _ here
  have others := inv.others (show e.holdsAt who = true by rw [holdsAt, here]; rfl)
  cases ok : (e.store.append batch faults).2 with
  | true =>
    rw [e.store.append_ok batch faults ok] at store
    rw [ok, if_pos rfl] at there
    refine inv.sole aside others ?_ (fun pc at_ => ?_) (fun free => ?_) (fun f member => ?_)
    · rw [store]
      exact inv.order.trans (List.sublist_append_left _ _)
    · rw [there] at at_
      cases at_
      refine ⟨by rw [store], ?_, fun op member => ?_⟩
      · rw [store]
        exact inv.order.append_right batch
      · rw [store] at member ⊢
        rcases List.mem_append.mp member with old | new
        · exact covers op old
        · exact .inr new
    · rw [holdsAt, there] at free
      cases free
    · rw [store] at member
      exact .inl member
  | false =>
    have failed : e'.store.appendFailed = true := by
      rw [store, EngineStore.append]
      rw [EngineStore.append] at ok
      dsimp only at ok ⊢
      rw [Option.isNone_eq_false_iff] at ok
      exact ok
    rw [ok] at there
    refine inv.sole aside others ?_ (fun pc at_ => ?_) (fun free => ?_) (fun f member => ?_)
    · rw [store]
      exact inv.order.trans (List.sublist_append_left _ _)
    · rw [there] at at_
      cases at_
      refine ⟨failed, fun op member => ?_⟩
      rw [store] at member ⊢
      rcases List.mem_append.mp member with old | new
      · exact covers op old
      · exact .inr (List.mem_of_mem_take new)
    · rw [holdsAt, there] at free
      cases free
    · rw [store] at member
      exact .inl member

/-- The batch is applied, and nothing in the log is ahead of the memtables. -/
theorem CutoffKept.applied (inv : e.CutoffKept) (aside : Aside who e e') (batch : List Op)
    (coins : Nat → Nat → Bool) (here : e.pcOf who = some (.appended batch))
    (store : e'.store = e.store.apply batch coins ∨ e'.store = (e.store.apply batch coins).freeze)
    (there : e'.holdsAt who = false) : e'.CutoffKept := by
  obtain ⟨fine, order, covers⟩ : _ ∧ _ ∧ _ := inv.held who _ here
  have others := inv.others (show e.holdsAt who = true by rw [holdsAt, here]; rfl)
  have all : ∀ op ∈ e.store.logged, op ∈ e.store.applied ++ batch :=
    fun op member => List.mem_append.mpr (covers op member)
  have logged : e'.store.logged = e.store.logged := by rcases store with eq | eq <;> rw [eq] <;> rfl
  have applied : e'.store.applied = e.store.applied ++ batch := by
    rcases store with eq | eq <;> rw [eq] <;> rfl
  refine inv.sole aside others ?_ (fun pc at_ => ?_) (fun _ => ?_) (fun f member => ?_)
  · rw [logged, applied]
    exact order
  · rw [holdsAt, at_] at there
    exact pc.covers_of_free _ there
  · intro op member
    rw [logged] at member
    rw [applied]
    exact .inl (all op member)
  · rcases store with eq | eq
    · rw [eq] at member
      exact .inl member
    · rw [eq] at member
      rcases List.mem_append.mp member with old | new
      · exact .inl old
      · rw [List.mem_singleton.mp new]
        exact .inr all

/-- A goroutine takes the batch while nobody has one: the batch covers what the log has and
the memtable does not. -/
theorem CutoffKept.take (inv : e.CutoffKept) (aside : Aside who e e') (batch : List Op)
    (pending : e.store.pendingBatch = batch) (free : e.Free)
    (store : e'.store = { e.store with pendingBatch := [] })
    (there : e'.pcOf who = some (.taken batch)) : e'.CutoffKept := by
  have covered := inv.free free
  refine inv.sole aside (fun other _ => (free_iff e).mp free other) ?_ (fun pc at_ => ?_)
    (fun free => ?_) (fun f member => ?_)
  · rw [store]
    exact inv.order
  · rw [there] at at_
    cases at_
    intro op member
    rw [store] at member ⊢
    refine (covered op member).imp id fun waits => ?_
    split at waits
    · rwa [pending] at waits
    · cases waits
  · rw [holdsAt, there] at free
    cases free
  · rw [store] at member
    exact .inl member

/-- The call that failed puts the batch back in front, where the next one finds it. -/
theorem CutoffKept.restore (inv : e.CutoffKept) (aside : Aside who e e') (batch : List Op)
    (here : e.pcOf who = some (.failed batch)) (store : e'.store = e.store.restore batch)
    (there : e'.pcOf who = some .restored) : e'.CutoffKept := by
  obtain ⟨failed, covers⟩ : _ ∧ _ := inv.held who _ here
  refine inv.sole aside (inv.others (by rw [holdsAt, here]; rfl)) ?_ (fun pc at_ => ?_)
    (fun _ => ?_) (fun f member => ?_)
  · rw [store]
    exact inv.order
  · rw [there] at at_
    cases at_
    trivial
  · rw [store]
    have eq : (e.store.restore batch).appendFailed = true := failed
    rw [eq, if_pos rfl]
    exact fun op member => (covers op member).imp id fun held => List.mem_append_left _ held
  · rw [store] at member
    exact .inl member

theorem CutoffKept.persist (inv : e.CutoffKept) (a : Answer) (pc : FlushPc)
    (here : e.pcOf who = some pc)
    (safe : e.starts who = true → e.store.pendingBatch ≠ [] → e.Free)
    (aside : Aside who e e') (store : e'.store = (e.persist a pc).1.store)
    (there : e'.pcOf who = some (e.persist a pc).2) : e'.CutoffKept := by
  have idle (pc' : FlushPc) (at_ : e'.pcOf who = some pc') (free : pc'.holds = false) :
      e'.holdsAt who = false := by rw [holdsAt, at_]; exact free
  have same (eq : e'.store = e.store) : SameLog e.store e'.store := by rw [eq]; exact .refl _
  cases pc with
  | start =>
    have before : e.holdsAt who = false := by rw [holdsAt, here]; rfl
    cases batch : e.store.pendingBatch with
    | nil =>
      rw [Engine.persist, batch] at store there
      exact inv.pass aside (same store) before (idle _ there rfl)
    | cons op ops =>
      have free := safe (by rw [starts, here]) (by rw [batch]; exact List.cons_ne_nil _ _)
      rw [Engine.persist, batch] at store there
      exact inv.take aside _ batch free store there
  | taken batch =>
    rw [Engine.persist] at store there
    split at store
    next attached =>
      rw [if_pos attached] at there
      exact inv.append aside batch a.faults here store there
    next detached =>
      -- the call panics, and the store is as it was
      rw [if_neg detached] at there
      have covers : e.store.CoveredBy batch := inv.held who _ here
      refine inv.sole aside (inv.others (by rw [holdsAt, here]; rfl)) ?_ (fun pc at_ => ?_)
        (fun free => ?_) (fun f member => ?_)
      · rw [store]
        exact inv.order
      · rw [there] at at_
        cases at_
        rw [store]
        exact covers
      · rw [holdsAt, there] at free
        cases free
      · rw [store] at member
        exact .inl member
  | appended batch =>
    obtain ⟨applied, panicked, pc, is, inMem, rfl | ⟨ok, rfl⟩⟩ := e.persist_appended a batch
    · rw [is] at store there
      exact inv.applied aside batch a.coins here (by rw [store]; exact inMem) (idle _ there rfl)
    · rw [is] at store there
      exact inv.applied aside batch a.coins here (by rw [store]; exact inMem) (idle _ there rfl)
  | failed batch =>
    rw [Engine.persist] at store there
    exact inv.restore aside batch here store there
  | restored =>
    rw [Engine.persist] at store there
    refine inv.pass aside ?_ (by rw [holdsAt, here]; rfl) (idle _ there rfl)
    rw [store]
    exact ⟨rfl, rfl, rfl, rfl, List.Subset.refl _⟩
  | check =>
    rw [Engine.persist] at store there
    refine inv.pass aside (same store) (by rw [holdsAt, here]; rfl) (idle _ there ?_)
    split
    · rfl
    · rfl
  | send | done =>
    rw [Engine.persist] at store there
    exact inv.pass aside (same store) (by rw [holdsAt, here]; rfl) (idle _ there rfl)

/-! ### The goroutines -/

/-- The flusher touches the queue and the front of the log, which is applied. -/
theorem flusher_cutoffKept (inv : e.CutoffKept) (env : Env) (a : Answer) :
    (e.runFlusher env a).CutoffKept := by
  rw [runFlusher_eq]
  exact inv.pass (.ofWorker .flusher rfl rfl rfl) ⟨rfl, rfl, rfl, rfl, List.Subset.refl _⟩ rfl rfl

theorem compactor_cutoffKept (inv : e.CutoffKept) (a : Answer) : (e.runCompactor a).CutoffKept := by
  rw [runCompactor_eq]
  exact inv.pass (.ofWorker .compactor rfl rfl rfl) (.refl _) rfl rfl

/-- A freeze while no call holds a batch: nothing in the log is ahead of the memtables. -/
theorem CutoffKept.freeze (inv : e.CutoffKept) (aside : Aside who e e')
    (store : e'.store = e.store.freeze) (free : e.Free) (fine : e.store.appendFailed = false)
    (there : e'.holdsAt who = false) : e'.CutoffKept := by
  have covered : ∀ op ∈ e.store.logged, op ∈ e.store.applied := by
    intro op member
    have applied := inv.free free op member
    rw [fine] at applied
    exact applied.elim id nofun
  refine inv.sole aside (fun other _ => (free_iff e).mp free other) ?_ (fun pc at_ => ?_)
    (fun _ => ?_) (fun f member => ?_)
  · rw [store]
    exact inv.order
  · rw [holdsAt, at_] at there
    exact pc.covers_of_free _ there
  · rw [store]
    exact fun op member => .inl (covered op member)
  · rw [store] at member
    rcases List.mem_append.mp member with old | new
    · exact .inl old
    · rw [List.mem_singleton.mp new]
      exact .inr covered

/-- A step of the batch flusher, of `Close` or of an exported call. -/
theorem Effect.cutoffKept {a : Answer} (effect : Effect who e a e') (inv : e.CutoffKept)
    (safe : e.CutoffSafe (.run who a)) (aside : Aside who e e') : e'.CutoffKept := by
  cases effect with
  | pass store before after => exact inv.pass aside (by rw [store]; exact .refl _) before after
  | persist pc here store there => exact inv.persist a pc here safe.1 aside store there
  | freeze at_ opened large store before after =>
    obtain ⟨free, fine⟩ := safe.2 at_ large
    exact inv.freeze aside store free fine after

/-- A new call holds nothing. -/
theorem CutoffKept.spawn (inv : e.CutoffKept) (call : CallPc) (start : call.flush? = some .start) :
    CutoffKept { e with calls := e.calls ++ [call] } :=
  inv.pass (.ofSpawn e call) (.refl _) (holdsAt_new e) (holdsAt_spawn e call start)

theorem step_cutoffKept (env : Env) (e : Engine) (i : EngineStep) (order : e.Orderly)
    (inv : e.CutoffKept) (safe : e.CutoffSafe i) : (e.step env i).CutoffKept := by
  unfold step
  split
  · exact inv
  cases i with
  | write rec =>
    dsimp only
    split
    · exact inv
    · refine inv.pass (.ofWorker .flusher rfl rfl rfl) ?_ rfl rfl
      exact ⟨rfl, rfl, rfl, rfl, List.subset_append_left _ _⟩
  | close =>
    dsimp only
    rw [beginClose]
    split
    · exact inv.pass (.ofWorker .flusher rfl rfl rfl) (.refl _) rfl rfl
    next opened =>
      have none_ := order.started (Bool.eq_false_iff.mpr opened)
      exact inv.pass (.ofCloser rfl rfl) (.refl _)
        (by rw [holdsAt, pcOf, none_]; rfl) rfl
  | flushPendingBatch => exact inv.spawn (.flush .start) rfl
  | forceMemtableFlush => exact inv.spawn (.force .start) rfl
  | run who a =>
    cases who with
    | batchFlusher => exact (runBatchFlusher_effect e a).cutoffKept inv safe (runBatchFlusher_aside e a)
    | flusher => exact flusher_cutoffKept inv env a
    | compactor => exact compactor_cutoffKept inv a
    | closer => exact (runCloser_effect e a).cutoffKept inv safe (runCloser_aside e a)
    | call i => exact (runCall_effect e a i).cutoffKept inv safe (runCall_aside e a i)

/-- In every interleaving of writers, the goroutines, `Close`, `FlushPendingBatch` and
`ForceMemtableFlush`, whatever fails or times out, in which batches are taken one at a time
and the log is not ahead of the memtables at the freezes of `Close` and
`ForceMemtableFlush`, every cutoff is covered. -/
theorem cutoffCovered_of_safe (env : Env) (e : Engine) (steps : List EngineStep)
    (opened : e.Opened) (safe : Machine.Always (step env) CutoffSafe e steps) :
    (Machine.run (step env) e steps).CutoffCovered := by
  have kept := Machine.run_invariant (step env) CutoffSafe (fun e => e.Orderly ∧ e.CutoffKept)
    (fun e i inv safe => ⟨step_orderly env e i inv.1, step_cutoffKept env e i inv.1 inv.2 safe⟩)
    e steps ⟨opened.orderly, opened.cutoffKept⟩ safe
  exact kept.2.covered

/-- `ForceMemtableFlush` between two batches. -/
theorem cutoffCovered_forced :
    let e := Machine.run (step smallEnv) (fresh defaultMemtableSize)
      ([.write ⟨[97], [1], false⟩] ++ runs .batchFlusher 5 ++ [.forceMemtableFlush] ++
        runs (.call 0) 3 ++ [.write ⟨[98], [2], false⟩] ++ runs .batchFlusher 4)
    (e.store.freezes.map (fun f => (f.walCutoff, f.applied.map Op.seq)) = [(15, [0])] ∧
      e.store.applied.map Op.seq = [0, 1]) ∧ e.CutoffCovered :=
  ⟨by decide +kernel,
    cutoffCovered_of_safe smallEnv _ _ (fresh_opened _) (by decide +kernel)⟩

/-- `ForceMemtableFlush` while the batch flusher has logged its second batch and has yet to
apply it: the cutoff is behind both records, and only the first is in the memtable. -/
theorem not_cutoffCovered_between :
    let e := Machine.run (step smallEnv) (fresh defaultMemtableSize)
      ([.write ⟨[97], [1], false⟩] ++ runs .batchFlusher 5 ++ [.write ⟨[98], [2], false⟩] ++
        runs .batchFlusher 3 ++ [.forceMemtableFlush] ++ runs (.call 0) 3)
    e.store.freezes.map (fun f => (f.walCutoff, f.logged.map Op.seq, f.applied.map Op.seq)) =
      [(30, [0, 1], [0])] ∧ ¬e.CutoffCovered := by
  refine ⟨by decide +kernel, fun covered => ?_⟩
  exact absurd covered.freezes (by decide +kernel)

end Engine

end PebbleDB.Db
