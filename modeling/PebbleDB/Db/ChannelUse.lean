import PebbleDB.Db.Engine

/-!
# The channels during shutdown

`flushCh` and `compactCh` are closed by `shutdownBackgroundWorkers`. A sender looks at
`db.closed` first and sends afterwards, so it may send on a channel that was closed in
between; and `Close` calls `shutdownBackgroundWorkers` a second time, through `abortClose`,
when a join of the first call has timed out.

## Main result

`channelsOk_of_safe`: if no join of the first call times out, no `FlushPendingBatch` or
`ForceMemtableFlush` is between its check and its send when `flushCh` is closed, and the
flusher is not between its check and its send when `compactCh` is closed, then each channel
is closed at most once and nobody sends on it later.

How often a channel was closed is told by where `Close` stands. Nobody can reach a send
once `db.closed` is set, so the senders that matter are those that were there before.
-/
namespace PebbleDB.Db

/-! ### Senders -/

def FlushPc.sending : FlushPc → Bool
  | .send => true
  | _ => false

def CallPc.sending : CallPc → Bool
  | .flush pc => pc.sending
  | .force pc => pc.sending
  | .send => true
  | _ => false

def FlusherPc.sending : FlusherPc → Bool
  | .triggerSend _ => true
  | _ => false

namespace Engine

/-- Each channel is closed at most once, and nobody sends on it after that. -/
structure ChannelsOk (e : Engine) : Prop where
  flushCh : e.flushCh.closes ≤ 1 ∧ e.flushCh.lateSends = 0
  compactCh : e.compactCh.closes ≤ 1 ∧ e.compactCh.lateSends = 0

/-- At a step of `shutdownBackgroundWorkers`: the first call joins in time; nobody is between
check and send when a channel is closed. -/
def ShutdownSafeAt (e : Engine) (a : Answer) : ClosePc → Prop
  | .shutdown _ _ _ .closeFlush => ∀ call ∈ e.calls, call.sending = false
  | .shutdown _ _ _ .closeCompact => e.flusher.sending = false
  | .shutdown _ abort _ .joinFlush => abort = false → a.timeout = false
  | .shutdown _ abort _ .joinCompact => abort = false → a.timeout = false
  | _ => True

def ShutdownSafe (e : Engine) : EngineStep → Prop
  | .run .closer a => e.ShutdownSafeAt a e.closer
  | _ => True

instance (e : Engine) (a : Answer) : (pc : ClosePc) → Decidable (e.ShutdownSafeAt a pc)
  | .shutdown _ _ _ .closeFlush =>
    inferInstanceAs (Decidable (∀ call ∈ e.calls, call.sending = false))
  | .shutdown _ _ _ .closeCompact => inferInstanceAs (Decidable (_ = false))
  | .shutdown _ _ _ .joinFlush | .shutdown _ _ _ .joinCompact =>
    inferInstanceAs (Decidable (_ → _))
  | .none | .stopBatch | .joinBatch | .flushing _ _ | .loop _ | .notify _ | .wait _ | .teardown _
  | .release _ | .returned _ => .isTrue trivial

instance decidableShutdownSafe (e : Engine) : (i : EngineStep) → Decidable (e.ShutdownSafe i)
  | .run .closer a => inferInstanceAs (Decidable (e.ShutdownSafeAt a e.closer))
  | .run .batchFlusher _ | .run .flusher _ | .run .compactor _ | .run (.call _) _ => .isTrue trivial
  | .write _ | .close | .flushPendingBatch | .forceMemtableFlush => .isTrue trivial

end Engine

/-! ### What the counters say -/

/-- The counters stay. -/
structure Chan.Same (c c' : Chan) : Prop where
  closes : c'.closes = c.closes
  lateSends : c'.lateSends = c.lateSends

theorem Chan.Same.refl (c : Chan) : c.Same c := ⟨rfl, rfl⟩

theorem Chan.send_same (c : Chan) (opened : c.closes = 0) : c.Same c.send := by
  have notClosed : c.closed = false := by rw [closed, opened]; rfl
  rw [send, notClosed]
  simp only [Bool.false_eq_true, if_false]
  split
  · exact ⟨rfl, rfl⟩
  · exact .refl c

theorem Chan.receive_same (c : Chan) : c.Same c.receive := ⟨rfl, rfl⟩

/-- How often `Close` has closed `flushCh` when it stands here. -/
def ClosePc.flushCloses : ClosePc → Nat
  | .shutdown _ _ _ .closeFlush => 0
  | .shutdown _ _ _ _ => 1
  | .teardown _ => 1
  | .release _ => 1
  | .returned _ => 1
  | _ => 0

def ClosePc.compactCloses : ClosePc → Nat
  | .shutdown _ _ _ .joinCompact => 1
  | .teardown _ => 1
  | .release _ => 1
  | .returned _ => 1
  | _ => 0

/-- A first shutdown whose joins came in time, and a flush that never gets to its send. -/
def ClosePc.InTime : ClosePc → Prop
  | .shutdown _ abort failed _ => abort = false → failed = false
  | .flushing _ pc => pc.sending = false
  | _ => True

namespace Engine

structure ChannelKept (e : Engine) : Prop where
  flushCloses : e.flushCh.closes = e.closer.flushCloses
  compactCloses : e.compactCh.closes = e.closer.compactCloses
  lateSends : e.flushCh.lateSends = 0 ∧ e.compactCh.lateSends = 0
  inTime : e.closer.InTime
  calls : e.flushCh.closes ≠ 0 → ∀ call ∈ e.calls, call.sending = false
  flusher : e.compactCh.closes ≠ 0 → e.flusher.sending = false

theorem Opened.channelKept {e : Engine} (opened : e.Opened) : e.ChannelKept where
  flushCloses := by rw [opened.flushCh, opened.closer]; rfl
  compactCloses := by rw [opened.compactCh.1, opened.closer]; rfl
  lateSends := ⟨by rw [opened.flushCh], opened.compactCh.2⟩
  inTime := by rw [opened.closer]; trivial
  calls _ := by
    rw [opened.calls]
    exact nofun
  flusher _ := by rw [opened.flusher]; rfl

variable {e e' : Engine}

theorem ChannelKept.channelsOk (inv : e.ChannelKept) : e.ChannelsOk := by
  refine ⟨⟨?_, inv.lateSends.1⟩, ⟨?_, inv.lateSends.2⟩⟩
  · rw [inv.flushCloses, ClosePc.flushCloses.eq_def]
    split <;> omega
  · rw [inv.compactCloses, ClosePc.compactCloses.eq_def]
    split <;> omega

/-- Before `Close` is called nothing is closed. -/
theorem ChannelKept.opened (inv : e.ChannelKept) (order : e.Orderly) (opened : e.closed = false) :
    e.flushCh.closes = 0 ∧ e.compactCh.closes = 0 := by
  rw [inv.flushCloses, inv.compactCloses, order.started opened]
  exact ⟨rfl, rfl⟩

/-- While the batch flusher runs, nothing is closed. -/
theorem ChannelKept.running (inv : e.ChannelKept) (order : e.Orderly)
    (runs : e.batchFlusher ≠ .ended) : e.flushCh.closes = 0 := by
  rw [inv.flushCloses]
  cases at_ : e.closer with
  | none | stopBatch | joinBatch | flushing | loop | notify | wait => rfl
  | shutdown | teardown | release | returned =>
    exact absurd (order.joined (by rw [at_]; rfl)) runs

/-- A step of another goroutine than `Close`. -/
theorem ChannelKept.pass (inv : e.ChannelKept) (closer : e'.closer = e.closer)
    (flushCh : e.flushCh.Same e'.flushCh) (compactCh : e.compactCh.Same e'.compactCh)
    (calls : e.flushCh.closes ≠ 0 → ∀ call ∈ e'.calls, call.sending = false)
    (flusher : e.compactCh.closes ≠ 0 → e'.flusher.sending = false) : e'.ChannelKept where
  flushCloses := by rw [flushCh.closes, closer]; exact inv.flushCloses
  compactCloses := by rw [compactCh.closes, closer]; exact inv.compactCloses
  lateSends := by rw [flushCh.lateSends, compactCh.lateSends]; exact inv.lateSends
  inTime := by rw [closer]; exact inv.inTime
  calls closed := calls (by rw [← flushCh.closes]; exact closed)
  flusher closed := flusher (by rw [← compactCh.closes]; exact closed)

/-- A step of `Close` that closes nothing. -/
theorem ChannelKept.turn (inv : e.ChannelKept) (flushCh : e.flushCh.Same e'.flushCh)
    (compactCh : e'.compactCh = e.compactCh) (calls : e'.calls = e.calls)
    (flusher : e'.flusher = e.flusher)
    (flushCloses : e'.closer.flushCloses = e.closer.flushCloses)
    (compactCloses : e'.closer.compactCloses = e.closer.compactCloses)
    (inTime : e'.closer.InTime) : e'.ChannelKept where
  flushCloses := by rw [flushCh.closes, flushCloses]; exact inv.flushCloses
  compactCloses := by rw [compactCh, compactCloses]; exact inv.compactCloses
  lateSends := by rw [flushCh.lateSends, compactCh]; exact inv.lateSends
  inTime := inTime
  calls closed := by
    rw [calls]
    exact inv.calls (by rw [← flushCh.closes]; exact closed)
  flusher closed := by
    rw [flusher]
    exact inv.flusher (by rw [← compactCh]; exact closed)

/-! ### A call of `flushPendingBatch` -/

theorem persist_flushCh (e : Engine) (a : Answer) (pc : FlushPc)
    (opened : pc.sending = true → e.flushCh.closes = 0) :
    e.flushCh.Same (e.persist a pc).1.flushCh := by
  cases pc with
  | send => exact e.flushCh.send_same (opened rfl)
  | start | taken =>
    rw [persist]
    split
    · exact .refl _
    · exact .refl _
  | appended batch =>
    obtain ⟨store, panicked, pc, is, -, -⟩ := e.persist_appended a batch
    rw [is]
    exact .refl _
  | failed | restored | check | done => exact .refl _

/-- The send comes after a look at `db.closed`. -/
theorem persist_sending (e : Engine) (a : Answer) (pc : FlushPc) (closed : e.closed = true) :
    (e.persist a pc).2.sending = false := by
  cases pc with
  | start =>
    rw [persist]
    split
    · rfl
    · rfl
  | taken batch =>
    rw [persist]
    split
    · dsimp only
      split
      · rfl
      · rfl
    · rfl
  | appended batch =>
    obtain ⟨store, panicked, pc, is, -, rfl | ⟨ok, rfl⟩⟩ := e.persist_appended a batch
    · rw [is]
      rfl
    · rw [is]
      rfl
  | check =>
    rw [persist, closed]
    rfl
  | failed | restored | send | done => rfl

/-! ### The goroutines -/

theorem batchFlusher_channelKept (inv : e.ChannelKept) (order : e.Orderly) (a : Answer) :
    (e.runBatchFlusher a).ChannelKept := by
  cases at_ : e.batchFlusher with
  | ended =>
    simp only [runBatchFlusher, at_]
    exact inv
  | select =>
    have begun (stop : Bool) : ChannelKept { e with batchFlusher := .flushing stop .start } :=
      inv.pass rfl (.refl _) (.refl _) inv.calls inv.flusher
    simp only [runBatchFlusher, at_]
    split
    · split
      · exact begun true
      · exact inv
    · exact begun false
  | flushing stop pc =>
    have opened := inv.running order (by simp [at_])
    simp only [runBatchFlusher, at_]
    split
    · split
      · exact inv.pass rfl (.refl _) (.refl _) inv.calls inv.flusher
      · exact inv.pass rfl (.refl _) (.refl _) inv.calls inv.flusher
    · have same := e.persist_flushCh a pc fun _ => opened
      rw [persist_eq]
      exact inv.pass rfl same (.refl _) inv.calls inv.flusher

theorem flusher_channelKept (inv : e.ChannelKept) (order : e.Orderly) (env : Env) (a : Answer) :
    (e.runFlusher env a).ChannelKept := by
  have pass {e' : Engine} (closer : e'.closer = e.closer) (flushCh : e.flushCh.Same e'.flushCh)
      (compactCh : e'.compactCh = e.compactCh) (calls : e'.calls = e.calls)
      (sending : e'.flusher.sending = false) : e'.ChannelKept :=
    inv.pass closer flushCh (by rw [compactCh]; exact .refl _) (by rw [calls]; exact inv.calls)
      fun _ => sending
  rw [runFlusher]
  cases at_ : e.flusher with
  | recv =>
    dsimp only
    split
    · exact pass rfl e.flushCh.receive_same rfl rfl rfl
    · split
      · exact pass rfl (.refl _) rfl rfl rfl
      · exact inv
  | drain =>
    dsimp only
    split
    · exact pass rfl (.refl _) rfl rfl rfl
    · exact pass rfl (.refl _) rfl rfl rfl
  | flushing q =>
    dsimp only
    split
    · exact pass rfl (.refl _) rfl rfl rfl
    · split
      · exact pass rfl (.refl _) rfl rfl rfl
      · exact pass rfl (.refl _) rfl rfl rfl
  | published q =>
    dsimp only
    split
    · exact pass rfl (.refl _) rfl rfl rfl
    · exact pass rfl (.refl _) rfl rfl (by rw [panic, at_]; rfl)
  | trigger q =>
    dsimp only
    split
    · exact pass rfl (.refl _) rfl rfl rfl
    next goes =>
      -- `db.closed` is not set, so neither channel is closed
      have opened : e.closed = false := by
        simp only [Bool.or_eq_true, not_or, Bool.not_eq_true] at goes
        exact goes.1.1
      exact inv.pass rfl (.refl _) (.refl _) inv.calls fun closed =>
        absurd (inv.opened order opened).2 closed
  | triggerSend q =>
    have opened : e.compactCh.closes = 0 := by
      by_contra closed
      have idle := inv.flusher closed
      rw [at_] at idle
      cases idle
    exact inv.pass rfl (.refl _) (e.compactCh.send_same opened) inv.calls fun _ => rfl
  | failed | committed | pop => exact pass rfl (.refl _) rfl rfl rfl
  | ended => exact inv

theorem compactor_channelKept (inv : e.ChannelKept) (a : Answer) :
    (e.runCompactor a).ChannelKept := by
  have same : e.compactCh.Same (e.runCompactor a).compactCh := by
    rw [runCompactor]
    cases e.compactor with
    | recv =>
      dsimp only
      split
      · exact e.compactCh.receive_same
      · split
        · exact .refl _
        · exact .refl _
    | lock =>
      dsimp only
      split
      · exact .refl _
      · exact .refl _
    | compacting =>
      dsimp only
      split
      · exact .refl _
      · generalize (if e.compactThreshold ≤ e.tables ∧ 2 ≤ e.tables then e.tables - 1
          else e.tables) = n
        split
        · exact .refl _
        · exact .refl _
    | ended => exact .refl _
  rw [runCompactor_eq]
  exact inv.pass rfl (.refl _) same inv.calls inv.flusher

theorem shutdown_channelKept (inv : e.ChannelKept) (a : Answer) (err abort failed : Bool)
    (stage : ShutdownStage) (at_ : e.closer = .shutdown err abort failed stage)
    (safe : e.ShutdownSafe (.run .closer a)) :
    (e.runShutdown a err abort failed stage).ChannelKept := by
  have inTime : abort = false → failed = false := by
    have inTime := inv.inTime
    rw [at_] at inTime
    exact inTime
  have flushCloses := inv.flushCloses
  have compactCloses := inv.compactCloses
  rw [at_] at flushCloses compactCloses
  have safe : e.ShutdownSafeAt a (.shutdown err abort failed stage) := at_ ▸ safe
  cases stage with
  | closeFlush =>
    exact ⟨congrArg Nat.succ flushCloses, compactCloses, inv.lateSends, inTime, fun _ => safe,
      inv.flusher⟩
  | joinFlush =>
    -- a timeout is that of `abortClose`
    have turn (failed' : Bool) (inTime : abort = false → failed' = false) :
        ChannelKept { e with closer := .shutdown err abort failed' .closeCompact } :=
      inv.turn (.refl _) rfl rfl rfl (by rw [at_]; rfl) (by rw [at_]; rfl) inTime
    rw [runShutdown]
    split
    next timeout =>
      refine turn true fun first => ?_
      have early := safe first
      rw [timeout] at early
      cases early
    · exact turn failed inTime
    · exact inv
  | closeCompact =>
    rw [runShutdown]
    split
    · exact inv
    · exact ⟨flushCloses, congrArg Nat.succ compactCloses, inv.lateSends, inTime, inv.calls,
        fun _ => safe⟩
  | joinCompact =>
    have turn (next : ClosePc) (flush : next.flushCloses = 1) (compact : next.compactCloses = 1)
        (inTime : next.InTime) : ChannelKept { e with closer := next } :=
      inv.turn (.refl _) rfl rfl rfl (by rw [at_]; exact flush) (by rw [at_]; exact compact) inTime
    rw [runShutdown]
    split
    · exact inv
    · split
      · exact turn _ rfl rfl trivial
      next first =>
        have early := safe (Bool.eq_false_iff.mpr first)
        have fine := inTime (Bool.eq_false_iff.mpr first)
        rw [early, fine]
        exact turn _ rfl rfl trivial

theorem closer_channelKept (inv : e.ChannelKept) (order : e.Orderly) (a : Answer)
    (safe : e.ShutdownSafe (.run .closer a)) : (e.runCloser a).ChannelKept := by
  have turn {e' : Engine} (flushCh : e'.flushCh = e.flushCh)
      (compactCh : e'.compactCh = e.compactCh) (calls : e'.calls = e.calls)
      (flusher : e'.flusher = e.flusher)
      (flushCloses : e'.closer.flushCloses = e.closer.flushCloses)
      (compactCloses : e'.closer.compactCloses = e.closer.compactCloses)
      (inTime : e'.closer.InTime) : e'.ChannelKept :=
    inv.turn (by rw [flushCh]; exact .refl _) compactCh calls flusher flushCloses compactCloses
      inTime
  cases at_ : e.closer with
  | none | returned =>
    simp only [runCloser, at_]
    exact inv
  | stopBatch | teardown | release =>
    simp only [runCloser, at_]
    exact turn rfl rfl rfl rfl (by rw [at_]; rfl) (by rw [at_]; rfl) trivial
  | joinBatch =>
    simp only [runCloser, at_]
    split
    · exact turn rfl rfl rfl rfl (by rw [at_]; rfl) (by rw [at_]; rfl) rfl
    · exact inv
  | flushing err pc =>
    have closed : e.closed = true := order.closed (by simp [at_])
    have quiet : pc.sending = false := by
      have inTime := inv.inTime
      rw [at_] at inTime
      exact inTime
    simp only [runCloser, at_]
    split
    · exact turn rfl rfl rfl rfl (by rw [at_]; rfl) (by rw [at_]; rfl) trivial
    · have same := e.persist_flushCh a pc fun sends => by rw [quiet] at sends; cases sends
      have quiet' := e.persist_sending a pc closed
      rw [persist_eq]
      exact inv.turn same rfl rfl rfl (by rw [at_]; rfl) (by rw [at_]; rfl) quiet'
  | loop err =>
    simp only [runCloser, at_]
    split
    · split
      · exact turn rfl rfl rfl rfl (by rw [at_]; rfl) (by rw [at_]; rfl) fun _ => rfl
      · exact turn rfl rfl rfl rfl (by rw [at_]; rfl) (by rw [at_]; rfl) trivial
    · split
      · exact turn rfl rfl rfl rfl (by rw [at_]; rfl) (by rw [at_]; rfl) fun closes => by cases closes
      · exact turn rfl rfl rfl rfl (by rw [at_]; rfl) (by rw [at_]; rfl) trivial
  | notify err =>
    have opened : e.flushCh.closes = 0 := by rw [inv.flushCloses, at_]; rfl
    simp only [runCloser, at_]
    exact inv.turn (e.flushCh.send_same opened) rfl rfl rfl (by rw [at_]; rfl) (by rw [at_]; rfl)
      trivial
  | wait err =>
    simp only [runCloser, at_]
    split
    · exact turn rfl rfl rfl rfl (by rw [at_]; rfl) (by rw [at_]; rfl) fun closes => by cases closes
    · split
      · exact turn rfl rfl rfl rfl (by rw [at_]; rfl) (by rw [at_]; rfl) trivial
      · exact inv
  | shutdown err abort failed stage =>
    simp only [runCloser, at_]
    exact shutdown_channelKept inv a err abort failed stage at_ safe

/-- What a call does to `flushCh`, and when it gets to its send. -/
theorem advance_sending (e : Engine) (a : Answer) (pc : CallPc)
    (opened : pc.sending = true → e.flushCh.closes = 0) :
    e.flushCh.Same (e.advance a pc).1.flushCh ∧
      (e.closed = true → (e.advance a pc).2.sending = false) := by
  cases pc with
  | flush pc | force pc =>
    rw [advance]
    cases pc.result with
    | some ok => exact ⟨.refl _, fun _ => by cases ok <;> rfl⟩
    | none => exact ⟨e.persist_flushCh a pc opened, e.persist_sending a pc⟩
  | freeze =>
    rw [advance]
    split
    · exact ⟨.refl _, fun _ => rfl⟩
    · split
      · split
        · exact ⟨.refl _, fun _ => rfl⟩
        · exact ⟨.refl _, fun _ => rfl⟩
      · exact ⟨.refl _, fun _ => by dsimp only; split <;> rfl⟩
  | check => exact ⟨.refl _, fun closed => by rw [advance, closed]; rfl⟩
  | send => exact ⟨e.flushCh.send_same (opened rfl), fun _ => rfl⟩
  | wait => exact ⟨.refl _, fun _ => by rw [advance]; dsimp only; split <;> rfl⟩
  | done => exact ⟨.refl _, fun _ => rfl⟩

theorem call_channelKept (inv : e.ChannelKept) (order : e.Orderly) (a : Answer) (i : Nat) :
    (e.runCall a i).ChannelKept := by
  rw [runCall]
  split
  · exact inv
  next pc here =>
    obtain ⟨same, quiet⟩ := e.advance_sending a pc fun sends => by
      by_contra closed
      rw [inv.calls closed pc (Pool.mem here)] at sends
      cases sends
    rw [advance_eq]
    refine inv.pass rfl same (.refl _) (fun closed => ?_) inv.flusher
    -- a channel is closed only after `db.closed` was set
    have flag : e.closed = true := by
      by_contra opened
      exact closed (inv.opened order (Bool.eq_false_iff.mpr opened)).1
    exact Pool.forall_set (inv.calls closed) (quiet flag)

theorem step_channelKept (env : Env) (e : Engine) (i : EngineStep) (order : e.Orderly)
    (inv : e.ChannelKept) (safe : e.ShutdownSafe i) : (e.step env i).ChannelKept := by
  have spawn (pc : CallPc) (quiet : pc.sending = false) :
      ChannelKept { e with calls := e.calls ++ [pc] } := by
    refine inv.pass rfl (.refl _) (.refl _) (fun closed call member => ?_) inv.flusher
    rcases List.mem_append.mp member with old | new
    · exact inv.calls closed call old
    · rw [List.mem_singleton.mp new]
      exact quiet
  unfold step
  split
  · exact inv
  cases i with
  | write rec =>
    dsimp only
    split
    · exact inv
    · exact inv.pass rfl (.refl _) (.refl _) inv.calls inv.flusher
  | close =>
    dsimp only
    rw [beginClose]
    split
    · exact inv.pass rfl (.refl _) (.refl _) inv.calls inv.flusher
    next opened =>
      have none_ := order.started (Bool.eq_false_iff.mpr opened)
      exact inv.turn (.refl _) rfl rfl rfl (by rw [none_]; rfl) (by rw [none_]; rfl) trivial
  | flushPendingBatch => exact spawn (.flush .start) rfl
  | forceMemtableFlush => exact spawn (.force .start) rfl
  | run who a =>
    cases who with
    | batchFlusher => exact batchFlusher_channelKept inv order a
    | flusher => exact flusher_channelKept inv order env a
    | compactor => exact compactor_channelKept inv a
    | closer => exact closer_channelKept inv order a safe
    | call i => exact call_channelKept inv order a i

/-- In every interleaving of `Close` with the three goroutines, writers, `FlushPendingBatch` and
`ForceMemtableFlush`, whatever fails or times out, that meets the condition. -/
theorem channelsOk_of_safe (env : Env) (e : Engine) (steps : List EngineStep)
    (opened : e.Opened) (safe : Machine.Always (step env) ShutdownSafe e steps) :
    (Machine.run (step env) e steps).ChannelsOk := by
  have kept := Machine.run_invariant (step env) ShutdownSafe (fun e => e.Orderly ∧ e.ChannelKept)
    (fun e i inv safe => ⟨step_orderly env e i inv.1, step_channelKept env e i inv.1 inv.2 safe⟩)
    e steps ⟨opened.orderly, opened.channelKept⟩ safe
  exact kept.2.channelsOk

theorem channelsOk_clean_close :
    let e := Machine.run (step smallEnv) (fresh defaultMemtableSize) cleanClose
    (e.flushCh.closes = 1 ∧ e.compactCh.closes = 1 ∧ e.panicked = false) ∧ e.ChannelsOk :=
  ⟨by decide +kernel, channelsOk_of_safe smallEnv _ _ (fresh_opened _) (by decide +kernel)⟩

/-- A wake-up of the compactor is still queued when `Close` closes `compactCh`; its compaction
outlasts the join, and `abortClose` closes `flushCh` for the second time. -/
theorem not_channelsOk_slow_compaction :
    let e := { fresh defaultMemtableSize with tables := 4, compactCh := ⟨1, 0, 0⟩ }
    let e' := Machine.run (step smallEnv) e (closeBatch ++ runs .closer 2 ++ runs .flusher 1 ++
      runs .closer 2 ++ runs .compactor 2 ++ [.run .closer { timeout := true }] ++ runs .closer 1)
    e.Opened ∧ e'.flushCh.closes = 2 ∧ e'.panicked = true ∧ ¬e'.ChannelsOk := by
  refine ⟨{ fresh_opened defaultMemtableSize with compactCh := ⟨rfl, rfl⟩ }, by decide +kernel,
    by decide +kernel, fun ok => ?_⟩
  exact absurd ok.flushCh.1 (by decide +kernel)

/-- A `FlushPendingBatch` that has looked at `db.closed` before `Close` sends after it. -/
example :
    let e := Machine.run (step smallEnv) (fresh 1) ([.write ⟨[97], [1], false⟩, .flushPendingBatch] ++
      runs (.call 0) 4 ++ closeBatch ++ runs .closer 2 ++ runs .flusher 8 ++ runs .closer 3 ++
      runs (.call 0) 1)
    e.flushCh.lateSends = 1 ∧ e.panicked = true := by
  decide +kernel

end Engine

end PebbleDB.Db
