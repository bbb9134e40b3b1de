import PebbleDB.Db.Engine

/-!
# One instance per directory

`Open` takes the LOCK file of the directory and fails while somebody else has it. `Close`
gives it back in a deferred function, on every path: also when `abortClose` has waited in
vain for the flusher or the compactor, which then go on writing while the next `Open`
succeeds.

## Main result

`exclusive_of_safe`: if no join of a worker times out while the worker runs, an instance
whose goroutines can still write has the lock, so no two such instances exist.

Where `Close` stands tells which workers it has joined, and it gives the lock back last.
-/
namespace PebbleDB.Db

def BatchPc.isEnded : BatchPc → Bool
  | .ended => true
  | _ => false

def FlusherPc.isEnded : FlusherPc → Bool
  | .ended => true
  | _ => false

/-- `Close` has joined the flusher. -/
def ClosePc.flusherJoined : ClosePc → Bool
  | .shutdown _ _ _ .closeCompact => true
  | .shutdown _ _ _ .joinCompact => true
  | .teardown _ => true
  | .release _ => true
  | .returned _ => true
  | _ => false

/-- `Close` has joined the flusher and the compactor. -/
def ClosePc.compactorJoined : ClosePc → Bool
  | .teardown _ => true
  | .release _ => true
  | .returned _ => true
  | _ => false

namespace Engine

/-- The process is alive and has the lock. -/
def holdsLock (e : Engine) : Bool := e.dirLock && !e.panicked

/-- The process is alive, and a goroutine may still write to the directory. -/
def working (e : Engine) : Bool :=
  !e.panicked && !(e.batchFlusher.isEnded && e.flusher.isEnded && e.compactor == .ended)

/-- A join that times out finds its worker at the end. -/
def JoinSafeAt (e : Engine) (a : Answer) : ClosePc → Prop
  | .shutdown _ _ _ .joinFlush => a.timeout = true → e.flusher.isEnded = true
  | .shutdown _ _ _ .joinCompact => a.timeout = true → e.compactor = .ended
  | _ => True

def JoinSafe (e : Engine) : EngineStep → Prop
  | .run .closer a => e.JoinSafeAt a e.closer
  | _ => True

instance (e : Engine) (a : Answer) : (pc : ClosePc) → Decidable (e.JoinSafeAt a pc)
  | .shutdown _ _ _ .joinFlush | .shutdown _ _ _ .joinCompact =>
    inferInstanceAs (Decidable (_ → _))
  | .shutdown _ _ _ .closeFlush | .shutdown _ _ _ .closeCompact => .isTrue trivial
  | .none | .stopBatch | .joinBatch | .flushing _ _ | .loop _ | .notify _ | .wait _ | .teardown _
  | .release _ | .returned _ => .isTrue trivial

instance decidableJoinSafe (e : Engine) : (i : EngineStep) → Decidable (e.JoinSafe i)
  | .run .closer a => inferInstanceAs (Decidable (e.JoinSafeAt a e.closer))
  | .run .batchFlusher _ | .run .flusher _ | .run .compactor _ | .run (.call _) _ => .isTrue trivial
  | .write _ | .close | .flushPendingBatch | .forceMemtableFlush => .isTrue trivial

end Engine

/-! ### A directory and its instances -/

/-- Every instance that was ever opened on the directory, in one or in several processes. -/
structure Directory where
  instances : List Engine

inductive DirectoryStep where
  | open_ (e : { e : Engine // e.Opened })
  | run (i : Nat) (s : EngineStep)

namespace Directory

/-- `Open` fails while an instance holds the lock. -/
def step (env : Env) (d : Directory) : DirectoryStep → Directory
  | .open_ e => if d.instances.any Engine.holdsLock then d else ⟨d.instances ++ [e.val]⟩
  | .run i s =>
    match d.instances[i]? with
    | none => d
    | some e => ⟨d.instances.set i (e.step env s)⟩

def Safe (d : Directory) : DirectoryStep → Prop
  | .open_ _ => True
  | .run i s => ∀ e ∈ d.instances[i]?, e.JoinSafe s

instance decidableSafe (d : Directory) : (i : DirectoryStep) → Decidable (d.Safe i)
  | .open_ _ => .isTrue trivial
  | .run i s => inferInstanceAs (Decidable (∀ e ∈ d.instances[i]?, e.JoinSafe s))

/-- Whoever may write has the lock, and nobody else may write. -/
structure Exclusive (d : Directory) : Prop where
  locked : ∀ e ∈ d.instances, e.working = true → e.holdsLock = true
  alone : ∀ (i j : Nat) (e e' : Engine), d.instances[i]? = some e → d.instances[j]? = some e' →
    e.working = true → e'.working = true → i = j

end Directory

/-! ### What `Close` has joined -/

namespace Engine

structure LockKept (e : Engine) : Prop where
  flusher : e.closer.flusherJoined = true → e.flusher.isEnded = true
  compactor : e.closer.compactorJoined = true → e.compactor = .ended
  lock : e.dirLock = false → e.closer.compactorJoined = true

theorem Opened.lockKept {e : Engine} (opened : e.Opened) : e.LockKept where
  flusher := by
    rw [opened.closer]
    exact nofun
  compactor := by
    rw [opened.closer]
    exact nofun
  lock := by
    rw [opened.dirLock]
    exact nofun

variable {e e' : Engine}

/-- While a goroutine runs, the lock was not given back. -/
theorem LockKept.locked (inv : e.LockKept) (order : e.Orderly) (working : e.working = true) :
    e.holdsLock = true := by
  simp only [Engine.working, Bool.and_eq_true, Bool.not_eq_true'] at working
  rw [holdsLock, working.1]
  cases lock : e.dirLock with
  | true => rfl
  | false =>
    have compactorJoined := inv.lock lock
    -- everything was joined, so nothing runs
    have flusherJoined : e.closer.flusherJoined = true := by
      cases at_ : e.closer with
      | teardown | release | returned => rfl
      | none | stopBatch | joinBatch | flushing | loop | notify | wait | shutdown =>
        rw [at_] at compactorJoined
        cases compactorJoined
    have joined : e.closer.joined = true := by
      cases at_ : e.closer with
      | none | stopBatch | joinBatch =>
        rw [at_] at compactorJoined
        cases compactorJoined
      | flushing | loop | notify | wait | shutdown | teardown | release | returned => rfl
    have idle := working.2
    rw [order.joined joined, inv.flusher flusherJoined, inv.compactor compactorJoined] at idle
    cases idle

theorem LockKept.pass (inv : e.LockKept) (closer : e'.closer = e.closer)
    (flusher : e.flusher.isEnded = true → e'.flusher.isEnded = true)
    (compactor : e.compactor = .ended → e'.compactor = .ended) (lock : e'.dirLock = e.dirLock) :
    e'.LockKept where
  flusher joined := flusher (inv.flusher (by rw [← closer]; exact joined))
  compactor joined := compactor (inv.compactor (by rw [← closer]; exact joined))
  lock released := by
    rw [closer]
    exact inv.lock (by rw [← lock]; exact released)

/-- A step of `Close` that does not give the lock back. -/
theorem LockKept.turn (inv : e.LockKept) (before : e.closer.compactorJoined = false)
    (lock : e'.dirLock = e.dirLock)
    (flusher : e'.closer.flusherJoined = true → e'.flusher.isEnded = true)
    (compactor : e'.closer.compactorJoined = true → e'.compactor = .ended) : e'.LockKept := by
  refine ⟨flusher, compactor, fun released => ?_⟩
  rw [lock] at released
  have joined := inv.lock released
  rw [before] at joined
  cases joined

/-- And after which the compactor is not joined yet. -/
theorem LockKept.joinFlusher (inv : e.LockKept) (before : e.closer.compactorJoined = false)
    (lock : e'.dirLock = e.dirLock)
    (flusher : e'.closer.flusherJoined = true → e'.flusher.isEnded = true)
    (compactor : e'.closer.compactorJoined = false) : e'.LockKept :=
  inv.turn before lock flusher fun joined => absurd joined (Bool.eq_false_iff.mp compactor)

/-- And after which nobody is joined yet. -/
theorem LockKept.early (inv : e.LockKept) (before : e.closer.compactorJoined = false)
    (lock : e'.dirLock = e.dirLock) (flusher : e'.closer.flusherJoined = false)
    (compactor : e'.closer.compactorJoined = false) : e'.LockKept :=
  inv.joinFlusher before lock (fun joined => absurd joined (Bool.eq_false_iff.mp flusher)) compactor

theorem shutdown_lockKept (inv : e.LockKept) (a : Answer) (err abort failed : Bool)
    (stage : ShutdownStage) (at_ : e.closer = .shutdown err abort failed stage)
    (safe : e.JoinSafe (.run .closer a)) :
    (e.runShutdown a err abort failed stage).LockKept := by
  have safe : e.JoinSafeAt a (.shutdown err abort failed stage) := at_ ▸ safe
  have before : e.closer.compactorJoined = false := by rw [at_]; rfl
  have flusher := inv.flusher
  rw [at_] at flusher
  cases stage with
  | closeFlush => exact inv.early before rfl rfl rfl
  | joinFlush =>
    rw [runShutdown]
    split
    next timeout => exact inv.joinFlusher before rfl (fun _ => safe timeout) rfl
    next ended _ =>
      have joined : e.flusher.isEnded = true := by
        rw [ended]
        rfl
      exact inv.joinFlusher before rfl (fun _ => joined) rfl
    · exact inv
  | closeCompact =>
    rw [runShutdown]
    split
    · exact inv
    · exact inv.joinFlusher before rfl flusher rfl
  | joinCompact =>
    rw [runShutdown]
    split
    · exact inv
    next waited =>
      have ended : e.compactor = .ended := by
        by_contra runs
        cases timeout : a.timeout with
        | true => exact runs (safe timeout)
        | false => exact waited (by simp [timeout, runs])
      split
      · exact inv.turn before rfl flusher fun _ => ended
      · split
        · exact inv.early before rfl rfl rfl
        · exact inv.turn before rfl flusher fun _ => ended

theorem closer_lockKept (inv : e.LockKept) (a : Answer) (safe : e.JoinSafe (.run .closer a)) :
    (e.runCloser a).LockKept := by
  cases at_ : e.closer with
  | none | returned =>
    simp only [runCloser, at_]
    exact inv
  | stopBatch | notify =>
    simp only [runCloser, at_]
    exact inv.early (by rw [at_]; rfl) rfl rfl rfl
  | joinBatch =>
    simp only [runCloser, at_]
    split
    · exact inv.early (by rw [at_]; rfl) rfl rfl rfl
    · exact inv
  | flushing err pc =>
    simp only [runCloser, at_]
    split
    · exact inv.early (by rw [at_]; rfl) rfl rfl rfl
    · rw [persist_eq]
      exact inv.early (by rw [at_]; rfl) rfl rfl rfl
  | loop err =>
    have before : e.closer.compactorJoined = false := by rw [at_]; rfl
    simp only [runCloser, at_]
    split
    · split
      · exact inv.early before rfl rfl rfl
      · exact inv.early before rfl rfl rfl
    · split
      · exact inv.early before rfl rfl rfl
      · exact inv.early before rfl rfl rfl
  | wait err =>
    have before : e.closer.compactorJoined = false := by rw [at_]; rfl
    simp only [runCloser, at_]
    split
    · exact inv.early before rfl rfl rfl
    · split
      · exact inv.early before rfl rfl rfl
      · exact inv
  | shutdown err abort failed stage =>
    simp only [runCloser, at_]
    exact shutdown_lockKept inv a err abort failed stage at_ safe
  | teardown | release =>
    -- everything is joined, and stays so
    have flusher := inv.flusher (by rw [at_]; rfl)
    have compactor := inv.compactor (by rw [at_]; rfl)
    simp only [runCloser, at_]
    exact ⟨fun _ => flusher, fun _ => compactor, fun _ => rfl⟩

theorem step_lockKept (env : Env) (e : Engine) (i : EngineStep) (inv : e.LockKept)
    (order : e.Orderly) (safe : e.JoinSafe i) : (e.step env i).LockKept := by
  unfold step
  split
  · exact inv
  cases i with
  | write rec =>
    dsimp only
    split
    · exact inv
    · exact inv.pass rfl id id rfl
  | close =>
    dsimp only
    rw [beginClose]
    split
    · exact inv.pass rfl id id rfl
    next opened =>
      have none_ := order.started (Bool.eq_false_iff.mpr opened)
      exact inv.early (by rw [none_]; rfl) rfl rfl rfl
  | flushPendingBatch | forceMemtableFlush => exact inv.pass rfl id id rfl
  | run who a =>
    cases who with
    | batchFlusher =>
      show (e.runBatchFlusher a).LockKept
      rw [runBatchFlusher_eq]
      exact inv.pass rfl id id rfl
    | flusher =>
      have stays : e.flusher.isEnded = true → (e.runFlusher env a).flusher.isEnded = true := by
        intro ended
        cases at_ : e.flusher with
        | ended =>
          rw [runFlusher, at_]
          exact ended
        | recv | drain | flushing | failed | committed | published | trigger | triggerSend | pop =>
          rw [at_] at ended
          cases ended
      show (e.runFlusher env a).LockKept
      rw [runFlusher_eq]
      exact inv.pass rfl stays id rfl
    | compactor =>
      have stays : e.compactor = .ended → (e.runCompactor a).compactor = .ended := by
        intro ended
        rw [runCompactor, ended]
        exact ended
      show (e.runCompactor a).LockKept
      rw [runCompactor_eq]
      exact inv.pass rfl id stays rfl
    | closer => exact closer_lockKept inv a safe
    | call i =>
      show (e.runCall a i).LockKept
      rw [runCall]
      split
      · exact inv
      · rw [advance_eq]
        exact inv.pass rfl id id rfl

/-- Nobody takes the lock again. -/
theorem step_dirLock (env : Env) (e : Engine) (i : EngineStep)
    (held : (e.step env i).dirLock = true) : e.dirLock = true := by
  unfold step at held
  split at held
  · exact held
  cases i with
  | write rec =>
    dsimp only at held
    split at held
    · exact held
    · exact held
  | close =>
    dsimp only at held
    rw [beginClose] at held
    split at held
    · exact held
    · exact held
  | flushPendingBatch | forceMemtableFlush => exact held
  | run who a =>
    cases who with
    | batchFlusher =>
      have same : (e.runBatchFlusher a).dirLock = e.dirLock := by rw [runBatchFlusher_eq]
      exact same.symm.trans held
    | flusher =>
      have same : (e.runFlusher env a).dirLock = e.dirLock := by rw [runFlusher_eq]
      exact same.symm.trans held
    | compactor =>
      have same : (e.runCompactor a).dirLock = e.dirLock := by rw [runCompactor_eq]
      exact same.symm.trans held
    | closer =>
      have held : (e.runCloser a).dirLock = true := held
      cases at_ : e.closer with
      | release =>
        simp only [runCloser, at_] at held
        cases held
      | shutdown err abort failed stage =>
        simp only [runCloser, at_] at held
        rw [runShutdown_eq] at held
        exact held
      | flushing err pc =>
        simp only [runCloser, at_] at held
        split at held
        · exact held
        · rw [persist_eq] at held
          exact held
      | joinBatch | loop | wait =>
        simp only [runCloser, at_] at held
        repeat' split at held
        all_goals exact held
      | none | stopBatch | notify | teardown | returned =>
        simp only [runCloser, at_] at held
        exact held
    | call i =>
      have same : (e.runCall a i).dirLock = e.dirLock := by
        rw [runCall]
        split
        · rfl
        · rw [advance_eq]
      exact same.symm.trans held

theorem step_holdsLock (env : Env) (e : Engine) (i : EngineStep)
    (held : (e.step env i).holdsLock = true) : e.holdsLock = true := by
  cases panicked : e.panicked with
  | true =>
    -- a process that is gone takes no step
    unfold step at held
    rw [if_pos panicked] at held
    exact held
  | false =>
    have lock : (e.step env i).dirLock = true := (Bool.and_eq_true_iff.mp held).1
    rw [holdsLock, panicked, step_dirLock env e i lock]
    rfl

end Engine

/-! ### Runs of a directory -/

namespace Directory

structure Kept (d : Directory) : Prop where
  instances : ∀ e ∈ d.instances, e.Orderly ∧ e.LockKept
  holder : ∀ (i j : Nat) (e e' : Engine), d.instances[i]? = some e → d.instances[j]? = some e' →
    e.holdsLock = true → e'.holdsLock = true → i = j

theorem Kept.exclusive {d : Directory} (inv : d.Kept) : d.Exclusive := by
  have locked (e : Engine) (member : e ∈ d.instances) (working : e.working = true) :
      e.holdsLock = true :=
    (inv.instances e member).2.locked (inv.instances e member).1 working
  refine ⟨locked, fun i j e e' here there works works' => ?_⟩
  exact inv.holder i j e e' here there (locked e (Pool.mem here) works)
    (locked e' (Pool.mem there) works')

/-- `Open` succeeds while nobody has the lock. -/
theorem open_kept {d : Directory} (env : Env) (inv : d.Kept) (e : { e : Engine // e.Opened }) :
    (d.step env (.open_ e)).Kept := by
  rw [step]
  split
  · exact inv
  next free =>
    have nobody (j : Nat) (e' : Engine) (there : d.instances[j]? = some e')
        (held : e'.holdsLock = true) : False := by
      simp only [List.any_eq_true, not_exists, not_and] at free
      exact free e' (Pool.mem there) held
    have place (j : Nat) (e' : Engine) (there : (d.instances ++ [e.val])[j]? = some e')
        (held : e'.holdsLock = true) : j = d.instances.length := by
      by_cases old : j < d.instances.length
      · rw [List.getElem?_append_left old] at there
        exact (nobody j e' there held).elim
      · have inside := (List.getElem?_eq_some_iff.mp there).1
        rw [List.length_append, List.length_singleton] at inside
        omega
    refine ⟨fun e' member => ?_, fun i j x y here there holdsX holdsY => ?_⟩
    · rcases List.mem_append.mp member with old | new
      · exact inv.instances e' old
      · rw [List.mem_singleton.mp new]
        exact ⟨e.property.orderly, e.property.lockKept⟩
    · rw [place i x here holdsX, place j y there holdsY]

theorem run_kept {d : Directory} (env : Env) (inv : d.Kept) (i : Nat) (s : EngineStep)
    (safe : d.Safe (.run i s)) : (d.step env (.run i s)).Kept := by
  rw [step]
  split
  · exact inv
  next e here =>
    obtain ⟨order, kept⟩ := inv.instances e (Pool.mem here)
    -- whoever has the lock afterwards had it before
    have before (j : Nat) (x : Engine) (there : (d.instances.set i (e.step env s))[j]? = some x)
        (held : x.holdsLock = true) : ∃ x', d.instances[j]? = some x' ∧ x'.holdsLock = true := by
      by_cases same : i = j
      · subst same
        rw [Pool.getElem?_set here] at there
        cases there
        exact ⟨e, here, Engine.step_holdsLock env e s held⟩
      · rw [List.getElem?_set_ne same] at there
        exact ⟨x, there, held⟩
    refine ⟨Pool.forall_set inv.instances ⟨Engine.step_orderly env e s order,
      Engine.step_lockKept env e s kept order (safe e here)⟩, fun j k x y atX atY holdsX holdsY => ?_⟩
    obtain ⟨x', hereX, heldX⟩ := before j x atX holdsX
    obtain ⟨y', hereY, heldY⟩ := before k y atY holdsY
    exact inv.holder j k x' y' hereX hereY heldX heldY

theorem step_kept (env : Env) (d : Directory) (i : DirectoryStep) (inv : d.Kept) (safe : d.Safe i) :
    (d.step env i).Kept := by
  cases i with
  | open_ e => exact open_kept env inv e
  | run i s => exact run_kept env inv i s safe

/-- In every run of any number of instances on one directory, whatever fails or times out, in
which no join of a worker times out while the worker runs. -/
theorem exclusive_of_safe (env : Env) (steps : List DirectoryStep)
    (safe : Machine.Always (step env) Safe ⟨[]⟩ steps) :
    (Machine.run (step env) ⟨[]⟩ steps).Exclusive := by
  have nobody : Kept ⟨[]⟩ := by
    refine ⟨fun e member => absurd member List.not_mem_nil, fun i j e e' here => ?_⟩
    rw [List.getElem?_nil] at here
    cases here
  exact (Machine.run_invariant (step env) Safe Kept (step_kept env) ⟨[]⟩ steps nobody safe).exclusive

/-- `Open` of an empty directory. -/
def openFresh : DirectoryStep :=
  .open_ ⟨Engine.fresh defaultMemtableSize, Engine.fresh_opened defaultMemtableSize⟩

/-- An instance is closed and the next one opened; an `Open` in between fails. -/
theorem exclusive_reopened :
    let d := Machine.run (step smallEnv) ⟨[]⟩ ([openFresh, openFresh] ++
      Engine.cleanClose.map (.run 0) ++ [openFresh])
    d.instances.map Engine.working = [false, true] ∧ d.Exclusive :=
  ⟨by decide +kernel, exclusive_of_safe smallEnv _ (by decide +kernel)⟩

/-- A `Close` that gives up on the flusher gives the lock back, and the next `Open` succeeds. -/
theorem not_exclusive_failing_flush :
    let d := Machine.run (step smallEnv) ⟨[]⟩
      ([openFresh] ++ Engine.failingClose.map (.run 0) ++ [openFresh])
    d.instances.map Engine.working = [true, true] ∧
      d.instances.map Engine.holdsLock = [false, true] ∧ ¬d.Exclusive := by
  intro d
  refine ⟨by decide +kernel, by decide +kernel, fun exclusive => ?_⟩
  have locked : ∀ e ∈ d.instances, e.working = true → e.holdsLock = true := exclusive.locked
  exact absurd locked (by decide +kernel)

end Directory

end PebbleDB.Db
