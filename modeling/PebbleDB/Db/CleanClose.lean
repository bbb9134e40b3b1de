import PebbleDB.Db.Engine

/-!
# What a clean `Close` has drained

`Close` waits for the batch flusher, persists what is left in `pendingBatch`, and freezes
and flushes until the active memtable has size zero and the queue is empty. An error on
the way is kept and returned in the end.

## Main result

`drained_of_safe`: if `Close` returns nil, nothing is left in memory and every accepted
record is in a table that `AppendNewFile` has committed. Two things break this. A `Close`
that finds `db.closed` set returns nil at once, whatever the first call is doing or has
failed to do. And a `FlushPendingBatch` or `ForceMemtableFlush` may hold a batch that
`Close` does not know of.

An accepted record is always somewhere: in `pendingBatch`, with a call that has taken it,
in a memtable, or in a committed table. Where `Close` stands tells which of these are empty.
-/
namespace PebbleDB.Db

namespace Engine

/-- Nothing is left in memory, and every accepted record was applied to a memtable that was
written to a committed table as a whole. -/
structure Drained (env : Env) (e : Engine) : Prop where
  batch : e.store.pendingBatch = []
  active : e.store.active.table.entries = []
  queue : e.store.pendingFlush = []
  committed : ∀ op ∈ e.store.accepted, ∃ c ∈ e.store.committed, op ∈ c.mem.ops ∧
    Sst.writeTable env.sizing defaultBlockSize c.mem.table.len c.mem.table.entries = .ok c.file

/-- `Close` is called on an open store, while no exported call holds a batch, or after a
`Close` that has returned nil; once the store is closed, no exported call takes a batch. -/
def CloseSafe (e : Engine) : EngineStep → Prop
  | .close => if e.closed then e.returnedNil = true
      else ∀ call ∈ e.calls, call.flush?.any FlushPc.holds = false
  | .run (.call i) _ => e.closed = true → e.starts (.call i) = true → e.store.pendingBatch = []
  | _ => True

instance decidableCloseSafe (e : Engine) : (i : EngineStep) → Decidable (e.CloseSafe i)
  | .close => inferInstanceAs (Decidable (if e.closed then _ else _))
  | .run (.call _) _ => inferInstanceAs (Decidable (_ → _))
  | .run .batchFlusher _ | .run .flusher _ | .run .compactor _ | .run .closer _ => .isTrue trivial
  | .write _ | .flushPendingBatch | .forceMemtableFlush => .isTrue trivial

/-! ### Where an accepted record is -/

def batchOf (e : Engine) (who : Actor) : List Op := (e.pcOf who).elim [] FlushPc.batch

theorem batchOf_eq_nil (e : Engine) (who : Actor) (free : e.holdsAt who = false) :
    e.batchOf who = [] := by
  rw [holdsAt] at free
  rw [batchOf]
  cases at_ : e.pcOf who with
  | none => rfl
  | some pc =>
    rw [at_] at free
    cases pc with
    | taken | appended | failed => cases free
    | start | restored | check | send | done => rfl

/-- The record was accepted and is not lost. -/
inductive Carries (e : Engine) (op : Op) : Prop where
  | pending (member : op ∈ e.store.pendingBatch)
  | held (who : Actor) (member : op ∈ e.batchOf who)
  | active (member : op ∈ e.store.active.ops)
  | queued (q : Queued) (there : q ∈ e.store.pendingFlush) (member : op ∈ q.mem.ops)
  | committed (c : Committed) (there : c ∈ e.store.committed) (member : op ∈ c.mem.ops)

end Engine

/-- The entry the flusher works on, and the one whose table it has committed. -/
def FlusherPc.entry : FlusherPc → Option Queued
  | .flushing q => some q
  | .failed q => some q
  | .committed q => some q
  | .published q => some q
  | .trigger q => some q
  | .triggerSend q => some q
  | .pop q => some q
  | .recv | .drain | .ended => none

def FlusherPc.finished : FlusherPc → Option Queued
  | .committed q => some q
  | .published q => some q
  | .trigger q => some q
  | .triggerSend q => some q
  | .pop q => some q
  | _ => none

/-- The call has found the queue empty or emptied it, and has not put its batch back. -/
def FlushPc.took : FlushPc → Bool
  | .taken _ => true
  | .appended _ => true
  | .check => true
  | .send => true
  | .done ok => ok
  | _ => false

/-- What is empty when `Close` stands here without an error. -/
def ClosePc.Drains (s : EngineStore) : ClosePc → Prop
  | .flushing false pc => pc.took = true → s.pendingBatch = []
  | .loop false => s.pendingBatch = []
  | .notify false => s.pendingBatch = []
  | .wait false => s.pendingBatch = []
  | .shutdown false _ _ _ => s.pendingBatch = [] ∧ s.active.table.size ≤ 0 ∧ s.pendingFlush = []
  | .teardown false => s.pendingBatch = [] ∧ s.active.table.size ≤ 0 ∧ s.pendingFlush = []
  | .release false => s.pendingBatch = [] ∧ s.active.table.size ≤ 0 ∧ s.pendingFlush = []
  | .returned false => s.pendingBatch = [] ∧ s.active.table.size ≤ 0 ∧ s.pendingFlush = []
  | _ => True

/-- The parts of the store that `Close` looks at. -/
structure EngineStore.SameDrain (s s' : EngineStore) : Prop where
  batch : s'.pendingBatch = s.pendingBatch
  active : s'.active = s.active
  queue : s.pendingFlush = [] → s'.pendingFlush = []

theorem EngineStore.SameDrain.refl (s : EngineStore) : s.SameDrain s := ⟨rfl, rfl, id⟩

theorem ClosePc.Drains.mono {s s' : EngineStore} {pc : ClosePc} (drains : pc.Drains s)
    (same : s.SameDrain s') : pc.Drains s' := by
  have empty (all : s.pendingBatch = [] ∧ s.active.table.size ≤ 0 ∧ s.pendingFlush = []) :
      s'.pendingBatch = [] ∧ s'.active.table.size ≤ 0 ∧ s'.pendingFlush = [] := by
    rw [same.batch, same.active]
    exact ⟨all.1, all.2.1, same.queue all.2.2⟩
  cases pc with
  | none | stopBatch | joinBatch => trivial
  | flushing err pc =>
    cases err with
    | true => trivial
    | false => exact fun took => same.batch.trans (drains took)
  | loop err | notify err | wait err =>
    cases err with
    | true => trivial
    | false => exact same.batch.trans drains
  | shutdown err | teardown err | release err | returned err =>
    cases err with
    | true => trivial
    | false => exact empty drains

namespace Engine

structure DrainKept (env : Env) (e : Engine) : Prop where
  carried : ∀ op ∈ e.store.accepted, e.Carries op
  entry : ∀ q, e.flusher.entry = some q → e.store.pendingFlush.head? = some q
  finished : ∀ q, e.flusher.finished = some q → ∃ c ∈ e.store.committed, c.mem = q.mem
  written : ∀ c ∈ e.store.committed,
    Sst.writeTable env.sizing defaultBlockSize c.mem.table.len c.mem.table.entries = .ok c.file
  calls : e.closed = true → ∀ i, e.holdsAt (.call i) = false
  closer : e.closer.Drains e.store
  returned : e.returnedNil = true → e.closer = .returned false

theorem Opened.drainKept {e : Engine} (env : Env) (opened : e.Opened) : e.DrainKept env where
  carried := by
    rw [opened.accepted]
    exact nofun
  entry := by
    rw [opened.flusher]
    exact nofun
  finished := by
    rw [opened.flusher]
    exact nofun
  written := by
    rw [opened.committed]
    exact nofun
  calls closed := by
    rw [opened.closed] at closed
    cases closed
  closer := by
    rw [opened.closer]
    trivial
  returned returned := by
    rw [opened.returnedNil] at returned
    cases returned

variable {env : Env} {e e' : Engine} {who : Actor}

/-- When `Close` has returned nil, only the committed tables are left. -/
theorem DrainKept.drained (inv : e.DrainKept env) (order : e.Orderly)
    (returned : e.returnedNil = true) : e.Drained env := by
  have at_ := inv.returned returned
  have drains := inv.closer
  rw [at_] at drains
  obtain ⟨batch, small, queue⟩ : _ ∧ _ ∧ _ := drains
  have closed := order.closed (by rw [at_]; exact nofun)
  have ended := order.joined (by rw [at_]; rfl)
  refine ⟨batch, e.store.active.entries_eq_nil small, queue, fun op member => ?_⟩
  cases inv.carried op member with
  | pending member =>
    rw [batch] at member
    cases member
  | held who member =>
    -- nobody is inside `flushPendingBatch` with a batch
    have free : e.holdsAt who = false := by
      cases who with
      | batchFlusher => rw [holdsAt, pcOf, ended]; rfl
      | closer => rw [holdsAt, pcOf, at_]; rfl
      | call i => exact inv.calls closed i
      | flusher | compactor => rfl
    rw [e.batchOf_eq_nil who free] at member
    cases member
  | active member =>
    rw [e.store.active.ops_eq_nil small] at member
    cases member
  | queued q there =>
    rw [queue] at there
    cases there
  | committed c there member => exact ⟨c, there, member, inv.written c there⟩

/-! ### Steps that keep every record -/

/-- What a step of `who` does to the queue, the tables and the records. -/
structure Keeps (who : Actor) (e e' : Engine) : Prop where
  accepted : e'.store.accepted = e.store.accepted
  committed : e'.store.committed = e.store.committed
  queue : ∃ more, e'.store.pendingFlush = e.store.pendingFlush ++ more
  carries : ∀ op, e.Carries op → e'.Carries op
  flusher : e'.flusher = e.flusher

/-- The step touches none of the places where records are, and `who` holds none. -/
theorem Keeps.of_store (aside : Aside who e e') (before : e.holdsAt who = false)
    (accepted : e'.store.accepted = e.store.accepted)
    (committed : e'.store.committed = e.store.committed)
    (queue : e'.store.pendingFlush = e.store.pendingFlush)
    (batch : e'.store.pendingBatch = e.store.pendingBatch)
    (active : e'.store.active = e.store.active) (flusher : e'.flusher = e.flusher) :
    Keeps who e e' := by
  refine ⟨accepted, committed, ⟨[], by rw [queue, List.append_nil]⟩, fun op carries => ?_, flusher⟩
  cases carries with
  | pending member => exact .pending (batch ▸ member)
  | held other member =>
    by_cases same : other = who
    · rw [same, e.batchOf_eq_nil who before] at member
      cases member
    · refine .held other ?_
      rw [batchOf, aside.pcOf same]
      exact member
  | active member => exact .active (active ▸ member)
  | queued q there member => exact .queued q (queue ▸ there) member
  | committed c there member => exact .committed c (committed ▸ there) member

/-- A record that `who` held, or that was in `pendingBatch` or in the active memtable, is
somewhere again. -/
theorem Keeps.of_moved (aside : Aside who e e') (accepted : e'.store.accepted = e.store.accepted)
    (committed : e'.store.committed = e.store.committed)
    (queue : ∃ more, e'.store.pendingFlush = e.store.pendingFlush ++ more)
    (flusher : e'.flusher = e.flusher) (pending : ∀ op ∈ e.store.pendingBatch, e'.Carries op)
    (held : ∀ op ∈ e.batchOf who, e'.Carries op) (active : ∀ op ∈ e.store.active.ops, e'.Carries op) :
    Keeps who e e' := by
  refine ⟨accepted, committed, queue, fun op carries => ?_, flusher⟩
  cases carries with
  | pending member => exact pending op member
  | held other member =>
    by_cases same : other = who
    · subst same
      exact held op member
    · refine .held other ?_
      rw [batchOf, aside.pcOf same]
      exact member
  | active member => exact active op member
  | queued q there member =>
    obtain ⟨more, grown⟩ := queue
    exact .queued q (by rw [grown]; exact List.mem_append_left _ there) member
  | committed c there member => exact .committed c (committed ▸ there) member

/-- Whether or not the memtable is frozen behind the apply, the batch is in a memtable. -/
theorem Keeps.applied (aside : Aside who e e') (batch : List Op) (coins : Nat → Nat → Bool)
    (here : e.pcOf who = some (.appended batch))
    (store : e'.store = e.store.apply batch coins ∨ e'.store = (e.store.apply batch coins).freeze)
    (flusher : e'.flusher = e.flusher) : Keeps who e e' := by
  have inMem (op : Op) (member : op ∈ e.store.active.ops ++ batch) : e'.Carries op := by
    rcases store with eq | eq
    · exact .active (by rw [eq]; exact member)
    · refine .queued ⟨(e.store.apply batch coins).active, e.store.wal.length⟩ ?_ member
      rw [eq]
      exact List.mem_append_right _ (List.mem_singleton_self _)
  have batchAt : e.batchOf who = batch := by rw [batchOf, here]; rfl
  refine .of_moved aside ?_ ?_ ?_ flusher (fun op member => .pending ?_) (fun op member => ?_)
    fun op member => inMem op (List.mem_append_left _ member)
  · rcases store with eq | eq <;> rw [eq] <;> rfl
  · rcases store with eq | eq <;> rw [eq] <;> rfl
  · rcases store with eq | eq
    · exact ⟨[], by rw [eq, List.append_nil]; rfl⟩
    · exact ⟨_, by rw [eq]; rfl⟩
  · rcases store with eq | eq <;> rw [eq] <;> exact member
  · rw [batchAt] at member
    exact inMem op (List.mem_append_right _ member)

/-- A step of `flushPendingBatch`. -/
theorem Keeps.persist (a : Answer) (pc : FlushPc) (here : e.pcOf who = some pc)
    (aside : Aside who e e') (store : e'.store = (e.persist a pc).1.store)
    (there : e'.pcOf who = some (e.persist a pc).2) (flusher : e'.flusher = e.flusher) :
    Keeps who e e' := by
  have batchAt : e.batchOf who = pc.batch := by rw [batchOf, here]; rfl
  have batchAt' : e'.batchOf who = (e.persist a pc).2.batch := by rw [batchOf, there]; rfl
  have free (none_ : pc.holds = false) : e.holdsAt who = false := by
    rw [holdsAt, here]
    exact none_
  have grown (eq : e'.store.pendingFlush = e.store.pendingFlush) :
      ∃ more, e'.store.pendingFlush = e.store.pendingFlush ++ more :=
    ⟨[], by rw [eq, List.append_nil]⟩
  cases pc with
  | start =>
    cases batch : e.store.pendingBatch with
    | nil =>
      rw [Engine.persist, batch] at store
      exact .of_store aside (free rfl) (by rw [store]; rfl) (by rw [store]; rfl) (by rw [store]; rfl)
        (by rw [store]; rfl) (by rw [store]; rfl) flusher
    | cons op ops =>
      rw [Engine.persist, batch] at store batchAt'
      refine .of_moved aside (by rw [store]; rfl) (by rw [store]; rfl) (grown (by rw [store]; rfl))
        flusher (fun op' member => .held who ?_) (fun op' member => ?_)
        fun op' member => .active (by rw [store]; exact member)
      · rw [batch] at member
        rw [batchAt']
        exact member
      · rw [batchAt] at member
        cases member
  | taken batch =>
    rw [Engine.persist] at store batchAt'
    have holds (op : Op) (member : op ∈ e.batchOf who) : e'.Carries op := by
      refine .held who ?_
      rw [batchAt] at member
      rw [batchAt']
      split
      · dsimp only
        split
        · exact member
        · exact member
      · exact member
    split at store
    · exact .of_moved aside (by rw [store]; rfl) (by rw [store]; rfl) (grown (by rw [store]; rfl))
        flusher (fun op' member => .pending (by rw [store]; exact member)) holds
        fun op' member => .active (by rw [store]; exact member)
    · exact .of_moved aside (by rw [store]; rfl) (by rw [store]; rfl) (grown (by rw [store]; rfl))
        flusher (fun op' member => .pending (by rw [store]; exact member)) holds
        fun op' member => .active (by rw [store]; exact member)
  | appended batch =>
    obtain ⟨applied, panicked, pc, is, inMem, -⟩ := e.persist_appended a batch
    refine .applied aside batch a.coins here ?_ flusher
    rw [store, is]
    exact inMem
  | failed batch =>
    rw [Engine.persist] at store
    refine .of_moved aside (by rw [store]; rfl) (by rw [store]; rfl) (grown (by rw [store]; rfl))
      flusher (fun op' member => .pending ?_) (fun op' member => .pending ?_)
      fun op' member => .active (by rw [store]; exact member)
    · rw [store]
      exact List.mem_append_right _ member
    · rw [batchAt] at member
      rw [store]
      exact List.mem_append_left _ member
  | restored =>
    rw [Engine.persist] at store
    exact .of_store aside (free rfl) (by rw [store]) (by rw [store]) (by rw [store])
      (by rw [store]) (by rw [store]) flusher
  | check | send | done =>
    have same : e'.store = e.store := store
    exact .of_store aside (free rfl) (by rw [same]) (by rw [same]) (by rw [same]) (by rw [same])
      (by rw [same]) flusher

/-- A freeze outside of `flushPendingBatch`. -/
theorem Keeps.freeze (aside : Aside who e e') (before : e.holdsAt who = false)
    (store : e'.store = e.store.freeze) (flusher : e'.flusher = e.flusher) : Keeps who e e' := by
  refine .of_moved aside (by rw [store]; rfl) (by rw [store]; rfl) ⟨_, by rw [store]; rfl⟩ flusher
    (fun op member => .pending (by rw [store]; exact member)) (fun op member => ?_)
    fun op member => .queued ⟨e.store.active, e.store.wal.length⟩ ?_ member
  · rw [e.batchOf_eq_nil who before] at member
    cases member
  · rw [store]
    exact List.mem_append_right _ (List.mem_singleton_self _)

/-- The invariant after such a step, up to what is special about calls and `Close`. -/
theorem DrainKept.keep (inv : e.DrainKept env) (keeps : Keeps who e e')
    (calls : e'.closed = true → ∀ i, e'.holdsAt (.call i) = false)
    (closer : e'.closer.Drains e'.store)
    (returned : e'.returnedNil = true → e'.closer = .returned false) : e'.DrainKept env where
  carried op member := keeps.carries op (inv.carried op (keeps.accepted ▸ member))
  entry q at_ := by
    -- the queue grows at its end
    obtain ⟨more, grown⟩ := keeps.queue
    rw [grown, List.head?_append, inv.entry q (keeps.flusher ▸ at_), Option.some_or]
  finished q at_ := by
    rw [keeps.committed]
    exact inv.finished q (keeps.flusher ▸ at_)
  written := by
    rw [keeps.committed]
    exact inv.written
  calls := calls
  closer := closer
  returned := returned

/-- Whatever the batch flusher, `Close` or an exported call does. -/
theorem Effect.keeps {a : Answer} (effect : Effect who e a e') (aside : Aside who e e')
    (flusher : e'.flusher = e.flusher) : Keeps who e e' := by
  cases effect with
  | pass store before after =>
    exact .of_store aside before (by rw [store]) (by rw [store]) (by rw [store]) (by rw [store])
      (by rw [store]) flusher
  | persist pc here store there => exact .persist a pc here aside store there flusher
  | freeze at_ opened large store before after => exact .freeze aside before store flusher

/-- A step of another goroutine than `Close`. -/
theorem DrainKept.pass (inv : e.DrainKept env) (keeps : Keeps who e e') (aside : Aside who e e')
    (notCloser : who ≠ .closer) (returned : e'.returnedNil = e.returnedNil)
    (calls : e'.closed = true → ∀ i, e'.holdsAt (.call i) = false)
    (drains : e.closer.Drains e.store → e.closer.Drains e'.store) : e'.DrainKept env := by
  have same := aside.closer notCloser
  refine inv.keep keeps calls ?_ ?_
  · rw [same]
    exact drains inv.closer
  · rw [returned, same]
    exact inv.returned

theorem batchFlusher_drainKept (inv : e.DrainKept env) (order : e.Orderly) (a : Answer) :
    (e.runBatchFlusher a).DrainKept env := by
  have aside := runBatchFlusher_aside e a
  by_cases ended : e.batchFlusher = .ended
  · rw [runBatchFlusher, ended]
    exact inv
  refine inv.pass ((runBatchFlusher_effect e a).keeps aside ?_) aside (by simp) ?_ (fun closed i => ?_)
    fun _ => ?_
  · rw [runBatchFlusher_eq]
  · rw [runBatchFlusher_eq]
  · rw [runBatchFlusher_eq] at closed
    rw [holdsAt, aside.pcOf (show Actor.call i ≠ _ by simp)]
    exact inv.calls closed i
  · -- `Close` is still before its join
    cases at_ : e.closer with
    | none | stopBatch | joinBatch => trivial
    | flushing | loop | notify | wait | shutdown | teardown | release | returned =>
      exact absurd (order.joined (by rw [at_]; rfl)) ended

/-! ### The flusher -/

/-- The fields that the flusher leaves alone. -/
structure FlusherFrame (e e' : Engine) : Prop where
  accepted : e'.store.accepted = e.store.accepted
  batch : e'.store.pendingBatch = e.store.pendingBatch
  active : e'.store.active = e.store.active
  closed : e'.closed = e.closed
  returned : e'.returnedNil = e.returnedNil
  batchFlusher : e'.batchFlusher = e.batchFlusher
  closer : e'.closer = e.closer
  calls : e'.calls = e.calls

theorem DrainKept.flush (inv : e.DrainKept env) (frame : FlusherFrame e e')
    (queue : ∀ q ∈ e.store.pendingFlush,
      q ∈ e'.store.pendingFlush ∨ ∃ c ∈ e.store.committed, c.mem = q.mem)
    (empty : e.store.pendingFlush = [] → e'.store.pendingFlush = [])
    (grows : e.store.committed ⊆ e'.store.committed)
    (entry : ∀ q, e'.flusher.entry = some q → e'.store.pendingFlush.head? = some q)
    (finished : ∀ q, e'.flusher.finished = some q → ∃ c ∈ e'.store.committed, c.mem = q.mem)
    (written : ∀ c ∈ e'.store.committed, Sst.writeTable env.sizing defaultBlockSize
      c.mem.table.len c.mem.table.entries = .ok c.file) : e'.DrainKept env := by
  have aside : Aside .flusher e e' := .ofWorker _ frame.batchFlusher frame.closer frame.calls
  have pcOf (who : Actor) : e'.pcOf who = e.pcOf who := by
    by_cases is : who = .flusher
    · rw [is]
      rfl
    · exact aside.pcOf is
  refine ⟨fun op member => ?_, entry, finished, written, fun closed i => ?_, ?_, ?_⟩
  · rw [frame.accepted] at member
    cases inv.carried op member with
    | pending member => exact .pending (by rw [frame.batch]; exact member)
    | held who member => exact .held who (by rw [batchOf, pcOf]; exact member)
    | active member => exact .active (by rw [frame.active]; exact member)
    | queued q there member =>
      rcases queue q there with stays | ⟨c, done, is⟩
      · exact .queued q stays member
      · exact .committed c (grows done) (by rw [is]; exact member)
    | committed c there member => exact .committed c (grows there) member
  · rw [frame.closed] at closed
    rw [holdsAt, pcOf]
    exact inv.calls closed i
  · rw [frame.closer]
    exact inv.closer.mono ⟨frame.batch, frame.active, empty⟩
  · rw [frame.returned, frame.closer]
    exact inv.returned

/-- A turn that leaves the queue and the tables alone. -/
theorem DrainKept.turn (inv : e.DrainKept env) (frame : FlusherFrame e e')
    (queue : e'.store.pendingFlush = e.store.pendingFlush)
    (tables : e'.store.committed = e.store.committed)
    (entry : ∀ q, e'.flusher.entry = some q → e.store.pendingFlush.head? = some q)
    (finished : ∀ q, e'.flusher.finished = some q → e.flusher.finished = some q) :
    e'.DrainKept env := by
  refine inv.flush frame (fun q there => .inl (queue ▸ there)) (fun empty => queue.trans empty)
    (by rw [tables]; exact List.Subset.refl _) (fun q at_ => ?_) (fun q at_ => ?_) ?_
  · rw [queue]
    exact entry q at_
  · rw [tables]
    exact inv.finished q (finished q at_)
  · rw [tables]
    exact inv.written

private theorem nowhere {pc : Option Queued} (none_ : pc = none) {P : Queued → Prop} (q : Queued)
    (at_ : pc = some q) : P q := by
  rw [none_] at at_
  cases at_

/-- A flush that fails leaves everything, and one that succeeds adds the table of the entry. -/
theorem DrainKept.flushing (inv : e.DrainKept env) (a : Answer) (q : Queued)
    (at_ : e.flusher = .flushing q) : (e.runFlusher env a).DrainKept env := by
  have head := inv.entry
  rw [at_] at head
  have failed : DrainKept env { e with flusher := .failed q } :=
    inv.turn ⟨rfl, rfl, rfl, rfl, rfl, rfl, rfl, rfl⟩ rfl rfl head (nowhere rfl)
  simp only [runFlusher, at_]
  split
  · exact failed
  · split
    · exact failed
    next file written =>
      refine inv.flush ⟨rfl, rfl, rfl, rfl, rfl, rfl, rfl, rfl⟩ (fun q there => .inl there) id
        (List.subset_append_left _ _) head (fun q' is => ?_) (fun c member => ?_)
      · exact ⟨⟨q.mem, file⟩, List.mem_append_right _ (List.mem_singleton_self _),
          congrArg Queued.mem (Option.some.inj is)⟩
      · rcases List.mem_append.mp member with old | new
        · exact inv.written c old
        · rw [List.mem_singleton.mp new]
          exact written

/-- After a failure the entry is written back to the head of the queue, where it still is. -/
theorem DrainKept.putBack (inv : e.DrainKept env) (a : Answer) (q : Queued)
    (at_ : e.flusher = .failed q) : (e.runFlusher env a).DrainKept env := by
  obtain ⟨rest, queue⟩ := List.head?_eq_some_iff.mp (inv.entry q (by rw [at_]; rfl))
  have back : (if e.store.pendingFlush.isEmpty then [] else q :: e.store.pendingFlush.tail) =
      e.store.pendingFlush := by
    rw [queue]
    rfl
  simp only [runFlusher, at_]
  exact inv.turn ⟨rfl, rfl, rfl, rfl, rfl, rfl, rfl, rfl⟩ back rfl (nowhere rfl) (nowhere rfl)

/-- The entry that is popped is the one whose table is committed. -/
theorem DrainKept.pop (inv : e.DrainKept env) (a : Answer) (q : Queued)
    (at_ : e.flusher = .pop q) : (e.runFlusher env a).DrainKept env := by
  obtain ⟨rest, queue⟩ := List.head?_eq_some_iff.mp (inv.entry q (by rw [at_]; rfl))
  obtain ⟨c, done, is⟩ := inv.finished q (by rw [at_]; rfl)
  simp only [runFlusher, at_]
  refine inv.flush ⟨rfl, rfl, rfl, rfl, rfl, rfl, rfl, rfl⟩ (fun q' there => ?_) (fun empty => ?_)
    (List.Subset.refl _) (nowhere rfl) (nowhere rfl) inv.written
  · rw [queue] at there
    rcases List.mem_cons.mp there with rfl | later
    · exact .inr ⟨c, done, is⟩
    · refine .inl ?_
      dsimp only
      rw [queue]
      exact later
  · dsimp only
    rw [empty]
    rfl

/-- The flusher works on the head of the queue, and pops it when its table is committed. -/
theorem flusher_drainKept (inv : e.DrainKept env) (a : Answer) :
    (e.runFlusher env a).DrainKept env := by
  have head := inv.entry
  cases at_ : e.flusher with
  | recv =>
    simp only [runFlusher, at_]
    split
    · exact inv.turn ⟨rfl, rfl, rfl, rfl, rfl, rfl, rfl, rfl⟩ rfl rfl (nowhere rfl) (nowhere rfl)
    · split
      · exact inv.turn ⟨rfl, rfl, rfl, rfl, rfl, rfl, rfl, rfl⟩ rfl rfl (nowhere rfl) (nowhere rfl)
      · exact inv
  | drain =>
    simp only [runFlusher, at_]
    split
    · exact inv.turn ⟨rfl, rfl, rfl, rfl, rfl, rfl, rfl, rfl⟩ rfl rfl (nowhere rfl) (nowhere rfl)
    next q rest queue =>
      refine inv.turn ⟨rfl, rfl, rfl, rfl, rfl, rfl, rfl, rfl⟩ rfl rfl (fun q' is => ?_) (nowhere rfl)
      rw [queue, List.head?_cons]
      exact is
  | flushing q => exact inv.flushing a q at_
  | failed q => exact inv.putBack a q at_
  | committed q | triggerSend q =>
    rw [at_] at head
    simp only [runFlusher, at_]
    exact inv.turn ⟨rfl, rfl, rfl, rfl, rfl, rfl, rfl, rfl⟩ rfl rfl head (by rw [at_]; exact fun _ => id)
  | published q =>
    have entry := head
    rw [at_] at entry
    simp only [runFlusher, at_]
    split
    · exact inv.turn ⟨rfl, rfl, rfl, rfl, rfl, rfl, rfl, rfl⟩ rfl rfl entry
        (by rw [at_]; exact fun _ => id)
    · exact inv.turn ⟨rfl, rfl, rfl, rfl, rfl, rfl, rfl, rfl⟩ rfl rfl head fun _ => id
  | trigger q =>
    rw [at_] at head
    simp only [runFlusher, at_]
    split
    · exact inv.turn ⟨rfl, rfl, rfl, rfl, rfl, rfl, rfl, rfl⟩ rfl rfl head
        (by rw [at_]; exact fun _ => id)
    · exact inv.turn ⟨rfl, rfl, rfl, rfl, rfl, rfl, rfl, rfl⟩ rfl rfl head
        (by rw [at_]; exact fun _ => id)
  | pop q => exact inv.pop a q at_
  | ended =>
    simp only [runFlusher, at_]
    exact inv

/-! ### `Close` -/

/-- A call that has emptied `pendingBatch` and goes on without an error leaves it empty. -/
theorem persist_took (e : Engine) (a : Answer) (pc : FlushPc)
    (before : pc.took = true → e.store.pendingBatch = [])
    (after : (e.persist a pc).2.took = true) : (e.persist a pc).1.store.pendingBatch = [] := by
  cases pc with
  | start =>
    rw [persist]
    split
    next empty => exact List.isEmpty_iff.mp empty
    · rfl
  | taken batch =>
    rw [persist]
    split
    · exact before rfl
    · exact before rfl
  | appended batch =>
    obtain ⟨store, panicked, pc, is, rfl | rfl, -⟩ := e.persist_appended a batch
    · rw [is]
      exact before rfl
    · rw [is]
      exact before rfl
  | failed | restored => cases after
  | check | send | done => exact before (by first | rfl | exact after)

theorem shutdown_drains (e : Engine) (a : Answer) (err abort failed : Bool) (stage : ShutdownStage)
    (at_ : e.closer = .shutdown err abort failed stage)
    (drains : (ClosePc.shutdown err abort failed stage).Drains e.store) :
    (e.runShutdown a err abort failed stage).closer.Drains e.store := by
  have stays : e.closer.Drains e.store := by rw [at_]; exact drains
  -- without an error each later stage asks for the same
  have goes (pc : Bool → ClosePc) (bad : (pc true).Drains e.store)
      (fine : (ClosePc.shutdown false abort failed stage).Drains e.store → (pc false).Drains e.store) :
      (pc err).Drains e.store := by
    cases err with
    | true => exact bad
    | false => exact fine drains
  cases stage with
  | closeFlush => exact goes (fun err => .shutdown err abort failed .joinFlush) trivial id
  | joinFlush =>
    rw [runShutdown]
    split
    · exact goes (fun err => .shutdown err abort true .closeCompact) trivial id
    · exact goes (fun err => .shutdown err abort failed .closeCompact) trivial id
    · exact stays
  | closeCompact =>
    rw [runShutdown]
    split
    · exact stays
    · exact goes (fun err => .shutdown err abort failed .joinCompact) trivial id
  | joinCompact =>
    rw [runShutdown]
    split
    · exact stays
    · split
      · trivial
      · split
        · trivial
        · exact goes .teardown trivial id

theorem closer_drains (inv : e.DrainKept env) (a : Answer) :
    (e.runCloser a).closer.Drains (e.runCloser a).store := by
  have drains := inv.closer
  cases at_ : e.closer with
  | none | returned =>
    rw [at_] at drains
    simp only [runCloser, at_]
    exact drains
  | stopBatch =>
    simp only [runCloser, at_]
    trivial
  | joinBatch =>
    simp only [runCloser, at_]
    split
    · cases e.batchStopErr with
      | true => trivial
      | false =>
        intro took
        cases took
    · exact drains
  | flushing err pc =>
    rw [at_] at drains
    simp only [runCloser, at_]
    cases err with
    | true => cases pc with
      | done | start | taken | appended | failed | restored | check | send => trivial
    | false =>
      have took : pc.took = true → e.store.pendingBatch = [] := drains
      cases pc with
      | done ok =>
        cases ok with
        | true => exact took rfl
        | false => trivial
      | start | taken | appended | failed | restored | check | send =>
        exact e.persist_took a _ took
  | loop err =>
    rw [at_] at drains
    simp only [runCloser, at_]
    cases err with
    | true =>
      split
      · split
        · trivial
        · trivial
      · split
        · trivial
        · trivial
    | false =>
      have batch : e.store.pendingBatch = [] := drains
      split
      next small =>
        split
        next empty => exact ⟨batch, small, List.isEmpty_iff.mp empty⟩
        · exact batch
      · split
        · trivial
        · exact batch
  | notify err | teardown err | release err =>
    rw [at_] at drains
    simp only [runCloser, at_]
    cases err with
    | true => trivial
    | false => exact drains
  | wait err =>
    simp only [runCloser, at_]
    split
    · trivial
    · rw [at_] at drains
      cases err with
      | true =>
        split
        · trivial
        · rw [at_]; trivial
      | false =>
        split
        · exact drains
        · rw [at_]; exact drains
  | shutdown err abort failed stage =>
    rw [at_] at drains
    have after := shutdown_drains e a err abort failed stage at_ drains
    simp only [runCloser, at_]
    rw [runShutdown_eq] at after ⊢
    exact after

theorem closer_returnedNil (e : Engine) (a : Answer) (ne : ∀ err, e.closer ≠ .release err) :
    (e.runCloser a).returnedNil = e.returnedNil := by
  rw [runCloser]
  cases at_ : e.closer with
  | release err => exact absurd at_ (ne err)
  | none | stopBatch | notify | teardown | returned => rfl
  | joinBatch =>
    dsimp only
    split
    · rfl
    · rfl
  | flushing err pc =>
    dsimp only
    split
    · rfl
    · rw [persist_eq]
  | loop err =>
    dsimp only
    split
    · split
      · rfl
      · rfl
    · split
      · rfl
      · rfl
  | wait err =>
    dsimp only
    split
    · rfl
    · split
      · rfl
      · rfl
  | shutdown err abort failed stage =>
    dsimp only
    rw [runShutdown_eq]

/-- `Close` returns nil from its last step only, and only without an error. -/
theorem closer_returned (inv : e.DrainKept env) (a : Answer)
    (returned : (e.runCloser a).returnedNil = true) : (e.runCloser a).closer = .returned false := by
  -- before it has returned, `returnedNil` is not set
  have not_ (ne : e.closer ≠ .returned false) : e.returnedNil = false :=
    Bool.eq_false_iff.mpr fun old => ne (inv.returned old)
  cases at_ : e.closer with
  | returned err =>
    simp only [runCloser, at_] at returned ⊢
    exact at_ ▸ inv.returned returned
  | release err =>
    simp only [runCloser, at_] at returned ⊢
    rw [not_ (by simp [at_]), Bool.false_or] at returned
    cases err with
    | true => cases returned
    | false => rfl
  | none | stopBatch | joinBatch | flushing | loop | notify | wait | shutdown | teardown =>
    rw [closer_returnedNil e a (by simp [at_]), not_ (by simp [at_])] at returned
    cases returned

theorem closer_drainKept (inv : e.DrainKept env) (a : Answer) : (e.runCloser a).DrainKept env := by
  have aside := runCloser_aside e a
  refine inv.keep ((runCloser_effect e a).keeps aside ?_) (fun closed i => ?_) (closer_drains inv a)
    (closer_returned inv a)
  · rw [runCloser_eq]
  · rw [runCloser_eq] at closed
    rw [holdsAt, aside.pcOf (show Actor.call i ≠ _ by simp)]
    exact inv.calls closed i

/-! ### The exported calls -/

/-- Once the store is closed a call has no batch to take. -/
theorem Effect.idle {a : Answer} {i : Nat} (effect : Effect (.call i) e a e')
    (inv : e.DrainKept env) (safe : e.CloseSafe (.run (.call i) a)) (closed : e.closed = true) :
    e'.holdsAt (.call i) = false ∧ e.store.SameDrain e'.store := by
  have free := inv.calls closed i
  cases effect with
  | pass store before after => exact ⟨after, by rw [store]; exact .refl _⟩
  | freeze at_ opened => exact absurd closed (by rw [opened nofun]; exact nofun)
  | persist pc here store there =>
    rw [holdsAt, here] at free
    rw [holdsAt, there, store]
    cases pc with
    | taken | appended | failed => cases free
    | start =>
      have empty := safe closed (by rw [starts, here])
      rw [Engine.persist, empty]
      exact ⟨rfl, .refl _⟩
    | restored => exact ⟨rfl, rfl, rfl, id⟩
    | check =>
      rw [Engine.persist, closed]
      exact ⟨rfl, .refl _⟩
    | send | done => exact ⟨rfl, .refl _⟩

theorem call_drainKept (inv : e.DrainKept env) (order : e.Orderly) (a : Answer) (i : Nat)
    (safe : e.CloseSafe (.run (.call i) a)) : (e.runCall a i).DrainKept env := by
  have aside := runCall_aside e a i
  have effect := runCall_effect e a i
  have closedEq : (e.runCall a i).closed = e.closed ∧
      (e.runCall a i).returnedNil = e.returnedNil ∧ (e.runCall a i).flusher = e.flusher := by
    rw [runCall]
    split
    · exact ⟨rfl, rfl, rfl⟩
    · rw [advance_eq]
      exact ⟨rfl, rfl, rfl⟩
  obtain ⟨closedEq, returnedEq, flusherEq⟩ := closedEq
  refine inv.pass (effect.keeps aside flusherEq) aside (by simp) returnedEq (fun closed j => ?_)
    fun drains => ?_
  · rw [closedEq] at closed
    by_cases is : j = i
    · subst is
      exact (effect.idle inv safe closed).1
    · rw [holdsAt, aside.pcOf (show Actor.call j ≠ _ by rintro ⟨⟩; exact is rfl)]
      exact inv.calls closed j
  · cases closed : e.closed with
    | true => exact drains.mono (effect.idle inv safe closed).2
    | false =>
      rw [order.started closed]
      trivial

theorem DrainKept.spawn (inv : e.DrainKept env) (call : CallPc)
    (start : call.flush? = some .start) : DrainKept env { e with calls := e.calls ++ [call] } := by
  have aside := Aside.ofSpawn e call
  have after := holdsAt_spawn e call start
  refine inv.pass (.of_store aside (holdsAt_new e) rfl rfl rfl rfl rfl rfl) aside nofun rfl
    (fun closed j => ?_) id
  by_cases is : j = e.calls.length
  · rw [is]
    exact after
  · rw [holdsAt, aside.pcOf (show Actor.call j ≠ _ by rintro ⟨⟩; exact is rfl)]
    exact inv.calls closed j

/-! ### Runs -/

theorem DrainKept.write (inv : e.DrainKept env) (order : e.Orderly) (opened : e.closed = false)
    (record : Wal.Record) : DrainKept env { e with store := e.store.write record } := by
  have aside : Aside .flusher e { e with store := e.store.write record } := .ofWorker _ rfl rfl rfl
  have pcOf (who : Actor) : Engine.pcOf { e with store := e.store.write record } who = e.pcOf who := by
    cases who <;> rfl
  refine ⟨fun op member => ?_, inv.entry, inv.finished, inv.written, fun closed => ?_, ?_, inv.returned⟩
  · rcases List.mem_append.mp member with old | new
    · cases inv.carried op old with
      | pending member => exact .pending (List.mem_append_left _ member)
      | held who member => exact .held who (by rw [batchOf, pcOf]; exact member)
      | active member => exact .active member
      | queued q there member => exact .queued q there member
      | committed c there member => exact .committed c there member
    · exact .pending (List.mem_append_right _ new)
  · exact absurd closed (by rw [opened]; exact nofun)
  · show e.closer.Drains _
    rw [order.started opened]
    trivial

theorem DrainKept.beginClose (inv : e.DrainKept env) (order : e.Orderly)
    (safe : e.CloseSafe .close) : e.beginClose.DrainKept env := by
  rw [CloseSafe] at safe
  rw [Engine.beginClose]
  split
  next closed =>
    rw [if_pos closed] at safe
    have same : { e with returnedNil := true } = e := by rw [← safe]
    rw [same]
    exact inv
  next opened =>
    rw [if_neg opened] at safe
    have none_ := order.started (Bool.eq_false_iff.mpr opened)
    have aside : Aside .closer e { e with closed := true, closer := .stopBatch } := .ofCloser rfl rfl
    refine inv.keep (.of_store aside (by rw [holdsAt, pcOf, none_]; rfl) rfl rfl rfl rfl rfl rfl)
      (fun _ i => ?_) trivial fun returned => ?_
    · rw [holdsAt, aside.pcOf (show Actor.call i ≠ _ by simp), pcOf]
      cases at_ : e.calls[i]? with
      | none => rfl
      | some call => exact safe call (List.mem_of_getElem? at_)
    · have at_ := inv.returned returned
      rw [none_] at at_
      cases at_

theorem step_drainKept (env : Env) (e : Engine) (i : EngineStep) (order : e.Orderly)
    (inv : e.DrainKept env) (safe : e.CloseSafe i) : (e.step env i).DrainKept env := by
  unfold step
  split
  · exact inv
  cases i with
  | write record =>
    dsimp only
    split
    · exact inv
    next opened => exact inv.write order (Bool.eq_false_iff.mpr opened) record
  | close => exact inv.beginClose order safe
  | flushPendingBatch => exact inv.spawn (.flush .start) rfl
  | forceMemtableFlush => exact inv.spawn (.force .start) rfl
  | run who a =>
    cases who with
    | batchFlusher => exact batchFlusher_drainKept inv order a
    | flusher => exact flusher_drainKept inv a
    | compactor =>
      show (e.runCompactor a).DrainKept env
      rw [runCompactor_eq]
      exact inv.turn ⟨rfl, rfl, rfl, rfl, rfl, rfl, rfl, rfl⟩ rfl rfl inv.entry fun _ => id
    | closer => exact closer_drainKept inv a
    | call i => exact call_drainKept inv order a i safe

/-- In every interleaving of writers, the goroutines, `Close`, `FlushPendingBatch` and
`ForceMemtableFlush`, whatever fails or times out, in which `Close` is not called again
after an error and meets no exported call with a batch: if a `Close` has returned nil,
the store is drained. -/
theorem drained_of_safe (env : Env) (e : Engine) (steps : List EngineStep) (opened : e.Opened)
    (safe : Machine.Always (step env) CloseSafe e steps)
    (returned : (Machine.run (step env) e steps).returnedNil = true) :
    (Machine.run (step env) e steps).Drained env := by
  have kept := Machine.run_invariant (step env) CloseSafe (fun e => e.Orderly ∧ e.DrainKept env)
    (fun e i inv safe => ⟨step_orderly env e i inv.1, step_drainKept env e i inv.1 inv.2 safe⟩)
    e steps ⟨opened.orderly, opened.drainKept env⟩ safe
  exact kept.2.drained kept.1 returned

theorem drained_clean_close :
    let e := Machine.run (step smallEnv) (fresh defaultMemtableSize) cleanClose
    (e.returnedNil = true ∧ e.store.accepted.map Op.seq = [0] ∧ e.store.committed.length = 1) ∧
      e.Drained smallEnv :=
  ⟨by decide +kernel, drained_of_safe smallEnv _ _ (fresh_opened _) (by decide +kernel)
    (by decide +kernel)⟩

/-- After a `Close` that failed, a second one returns nil, with the record still in the
queue. -/
theorem not_drained_second_close :
    let e := Machine.run (step smallEnv) (fresh defaultMemtableSize) (failingClose ++ [.close])
    (Machine.run (step smallEnv) (fresh defaultMemtableSize) failingClose).returnedNil = false ∧
      e.returnedNil = true ∧ e.store.accepted.map Op.seq = [0] ∧
      e.store.pendingFlush.length = 1 ∧ e.store.committed.length = 0 ∧ ¬e.Drained smallEnv := by
  intro e
  have queued : e.store.pendingFlush.length = 1 := by decide +kernel
  refine ⟨by decide +kernel, by decide +kernel, by decide +kernel, queued, by decide +kernel,
    fun drained => ?_⟩
  rw [drained.queue] at queued
  cases queued

/-- A `FlushPendingBatch` has taken the batch when `Close` is called, and holds it still when
`Close` has returned nil. -/
example :
    let e := Machine.run (step smallEnv) (fresh defaultMemtableSize)
      ([.write ⟨[97], [1], false⟩, .flushPendingBatch] ++ runs (.call 0) 1 ++ closeBatch ++
        runs .closer 2 ++ runs .flusher 1 ++ runs .closer 2 ++ runs .compactor 1 ++ runs .closer 3)
    e.returnedNil = true ∧ (e.batchOf (.call 0)).map Op.seq = [0] ∧ e.store.committed.length = 0 := by
  decide +kernel

end Engine

end PebbleDB.Db
