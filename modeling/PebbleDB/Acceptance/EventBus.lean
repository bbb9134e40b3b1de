import Mathlib.Data.List.AList
import PebbleDB.Lib.Machine
import PebbleDB.Lib.Pool

/-!
# The event bus

`EventBus` hands every published event to every subscriber, each through a channel of its own
that a goroutine of the subscriber drains. `Publish` takes a snapshot of the subscribers under
the lock and then, without it, starts one dispatch goroutine for each of them; `Unsubscribe`
closes the channel of the subscriber it has removed, and `Stop` closes all of them after it has
waited for the dispatch goroutines counted in `dispatchWG`. A send on a closed channel panics.

The machine has one step for each section under the lock and for each operation of a goroutine
on a wait group, a channel or a context. Which goroutine moves is the input.

## Main result

`noneAtClosed_iff`: no dispatch goroutine ever stands at its send on a closed channel if a
channel is closed only after every `Publish` that has it in its snapshot is done with it; and
after a close that comes earlier some schedule panics (`exists_atClosed_of_not_drained`). Step
by step, a channel has to be closed while no dispatch goroutine stands there, and a dispatch
goroutine started while its channel is open.

`Stop` waits for the dispatch goroutines that have been counted, not for a `Publish` between its
snapshot and its `Add`, and `Unsubscribe` waits for nothing.
-/
namespace PebbleDB.Acceptance

variable {ε : Type}

/-! ### The goroutines -/

/-- A call of `Publish` after its snapshot. Subscribers are given by the number of their
wrapper. -/
inductive PublishPc (ε : Type) where
  /-- Before the `dispatchWG.Add(1)` for the next subscriber; without one, at its return. -/
  | adding (ev : ε) (busCtx : Nat) (subs : List Nat)
  /-- Before the `go` statement for `w`. -/
  | starting (ev : ε) (busCtx : Nat) (w : Nat) (subs : List Nat)
deriving DecidableEq

inductive DispatchPc (ε : Type) where
  | selecting (w : Nat) (ev : ε) (busCtx : Nat)
  /-- The select is over, the deferred `dispatchWG.Done()` is not. -/
  | leaving
  | ended
deriving DecidableEq

/-- A call of `Stop` after its section under the lock. -/
inductive StopPc where
  | waiting (subs : List Nat)
  /-- Before the `close` of the next subscriber; without one, at `subWG.Wait()`. -/
  | closing (subs : List Nat)
  | returned
deriving DecidableEq

/-- What a `subscriberWrapper` has in its channel, and whether its `subscriberLoop` runs. -/
structure SubscriberWrapper (ε : Type) where
  ch : List ε
  looping : Bool
deriving DecidableEq

structure EventBus (ε : Type) where
  subscribers : AList fun _ : String => Nat
  /-- Every wrapper ever made. -/
  wrappers : List (SubscriberWrapper ε)
  /-- The wrappers whose channel is closed. -/
  closed : List Nat
  dispatchWG : Nat
  subWG : Nat
  /-- Whether each context that `Start` has made is done; the last is `b.ctx`. -/
  ctxs : List Bool
  running : Bool
  publishing : List (PublishPc ε)
  dispatching : List (DispatchPc ε)
  /-- The wrapper each `Unsubscribe` still has to close. -/
  unsubscribing : List (Option Nat)
  stopping : List StopPc
  panicked : Bool

/-- What `Subscribe` and `Unsubscribe` return when they refuse. -/
inductive BusError where
  | notStarted
  | alreadyRegistered (name : String)
  | notFound (name : String)
deriving DecidableEq

def BusError.text : BusError → String
  | .notStarted => "eventbus: not started"
  | .alreadyRegistered name => "subscriber " ++ name ++ " already registered"
  | .notFound name => "subscriber " ++ name ++ " not found"

/-- The case of the select of a dispatch goroutine that is taken. -/
inductive SelectCase where
  | send | callerDone | busDone
deriving DecidableEq

inductive BusStep (ε : Type) where
  | start
  | cancelParent (ctx : Nat)
  | subscribe (name : String)
  | unsubscribe (name : String)
  /-- `order` is the order in which the map is ranged over. -/
  | publish (ev : ε) (order : List Nat)
  | stop (order : List Nat)
  | publisher (i : Nat)
  | dispatcher (i : Nat) (taken : SelectCase)
  | unsubscriber (i : Nat)
  | stopper (i : Nat)
  | subscriberLoop (w : Nat)
deriving DecidableEq

namespace EventBus

def newEventBus : EventBus ε where
  subscribers := ∅
  wrappers := []
  closed := []
  dispatchWG := 0
  subWG := 0
  ctxs := []
  running := false
  publishing := []
  dispatching := []
  unsubscribing := []
  stopping := []
  panicked := false

variable (b : EventBus ε)

/-- The wrappers in the map; `range` yields them in any order. -/
def subscribed : List Nat := b.subscribers.entries.map Sigma.snd

/-! ### The sections under the lock -/

def start : EventBus ε :=
  if b.running then b else { b with ctxs := b.ctxs ++ [false], running := true }

def subscribe (name : String) : EventBus ε × Option BusError :=
  if b.running = false then (b, some .notStarted)
  else if name ∈ b.subscribers then (b, some (.alreadyRegistered name))
  else
    -- the loop of the new subscriber runs from here on
    ({ b with
      subscribers := b.subscribers.insert name b.wrappers.length
      wrappers := b.wrappers ++ [⟨[], true⟩]
      subWG := b.subWG + 1 }, none)

/-- The channel is closed in a step of its own, without the lock. -/
def unsubscribe (name : String) : EventBus ε × Option BusError :=
  match b.subscribers.lookup name with
  | none => (b, some (.notFound name))
  | some w =>
    ({ b with
      subscribers := b.subscribers.erase name
      unsubscribing := b.unsubscribing ++ [some w] }, none)

def publish (ev : ε) (order : List Nat) : EventBus ε :=
  if b.running = true ∧ order.Perm b.subscribed then
    -- the snapshot; nothing is counted in `dispatchWG` yet
    { b with publishing := b.publishing ++ [.adding ev (b.ctxs.length - 1) order] }
  else b

def stop (order : List Nat) : EventBus ε :=
  if b.running = true ∧ order.Perm b.subscribed then
    { b with
      running := false
      -- `b.cancel()`
      ctxs := b.ctxs.set (b.ctxs.length - 1) true
      subscribers := ∅
      stopping := b.stopping ++ [.waiting order] }
  else b

/-! ### The steps without the lock -/

def runPublisher (i : Nat) : EventBus ε :=
  match b.publishing[i]? with
  | some (.adding ev ctx (w :: subs)) => { b with
    publishing := b.publishing.set i (.starting ev ctx w subs)
    dispatchWG := b.dispatchWG + 1 }
  | some (.starting ev ctx w subs) => { b with
    publishing := b.publishing.set i (.adding ev ctx subs)
    dispatching := b.dispatching ++ [.selecting w ev ctx] }
  | _ => b

/-- The channels have room for 64 events. A case that is not ready is not taken. -/
def select (i w : Nat) (ev : ε) (ctx : Nat) : SelectCase → EventBus ε
  | .send =>
    -- a closed channel is ready for a send, and the send panics
    if w ∈ b.closed then { b with panicked := true }
    else match b.wrappers[w]? with
      | none => b
      | some wrapper =>
        if wrapper.ch.length < 64 then { b with
          wrappers := b.wrappers.set w { wrapper with ch := wrapper.ch ++ [ev] }
          dispatching := b.dispatching.set i .leaving }
        else b
  | .callerDone => { b with dispatching := b.dispatching.set i .leaving }
  | .busDone =>
    if b.ctxs[ctx]? = some true then { b with dispatching := b.dispatching.set i .leaving } else b

def runDispatcher (i : Nat) (taken : SelectCase) : EventBus ε :=
  match b.dispatching[i]? with
  | some (.selecting w ev ctx) => b.select i w ev ctx taken
  | some .leaving => { b with
    dispatching := b.dispatching.set i .ended
    dispatchWG := b.dispatchWG - 1 }
  | _ => b

/-- `closed.Do` closes the channel the first time only. -/
def close (w : Nat) : EventBus ε := { b with closed := b.closed.insert w }

def runUnsubscriber (i : Nat) : EventBus ε :=
  match b.unsubscribing[i]? with
  | some (some w) => { b.close w with unsubscribing := b.unsubscribing.set i none }
  | _ => b

def runStopper (i : Nat) : EventBus ε :=
  match b.stopping[i]? with
  | some (.waiting subs) =>
    -- `dispatchWG.Wait()`
    if b.dispatchWG = 0 then { b with stopping := b.stopping.set i (.closing subs) } else b
  | some (.closing (w :: subs)) => { b.close w with stopping := b.stopping.set i (.closing subs) }
  | some (.closing []) =>
    if b.subWG = 0 then { b with stopping := b.stopping.set i .returned } else b
  | _ => b

/-- `range w.ch`: the next event, and the end when the channel is closed and drained. -/
def runSubscriberLoop (w : Nat) : EventBus ε :=
  match b.wrappers[w]? with
  | some ⟨_ :: ch, true⟩ => { b with wrappers := b.wrappers.set w ⟨ch, true⟩ }
  | some ⟨[], true⟩ =>
    if w ∈ b.closed then
      { b with wrappers := b.wrappers.set w ⟨[], false⟩, subWG := b.subWG - 1 }
    else b
  | _ => b

def act : BusStep ε → EventBus ε
  | .start => b.start
  | .cancelParent ctx => { b with ctxs := b.ctxs.set ctx true }
  | .subscribe name => (b.subscribe name).1
  | .unsubscribe name => (b.unsubscribe name).1
  | .publish ev order => b.publish ev order
  | .stop order => b.stop order
  | .publisher i => b.runPublisher i
  | .dispatcher i taken => b.runDispatcher i taken
  | .unsubscriber i => b.runUnsubscriber i
  | .stopper i => b.runStopper i
  | .subscriberLoop w => b.runSubscriberLoop w

/-- Nothing runs after a panic. -/
def step (i : BusStep ε) : EventBus ε := if b.panicked then b else b.act i

/-- A call that is refused changes nothing. -/
theorem subscribe_refused (name : String) (e : BusError) (refused : (b.subscribe name).2 = some e) :
    (b.subscribe name).1 = b := by
  rw [subscribe] at refused ⊢
  split
  · rfl
  · split
    · rfl
    next started fresh =>
      rw [if_neg started, if_neg fresh] at refused
      cases refused

theorem unsubscribe_refused (name : String) (e : BusError)
    (refused : (b.unsubscribe name).2 = some e) : (b.unsubscribe name).1 = b := by
  rw [unsubscribe] at refused ⊢
  cases found : b.subscribers.lookup name with
  | none => rfl
  | some w =>
    rw [found] at refused
    cases refused

/-- What the steps that are enabled do. -/
inductive Moves (b : EventBus ε) : BusStep ε → EventBus ε → Prop
  | start : Moves b .start { b with ctxs := b.ctxs ++ [false], running := true }
  | cancelParent (ctx : Nat) : Moves b (.cancelParent ctx) { b with ctxs := b.ctxs.set ctx true }
  | subscribe (name : String) (fresh : name ∉ b.subscribers) :
    Moves b (.subscribe name) { b with
      subscribers := b.subscribers.insert name b.wrappers.length
      wrappers := b.wrappers ++ [⟨[], true⟩]
      subWG := b.subWG + 1 }
  | unsubscribe (name : String) (w : Nat) (found : b.subscribers.lookup name = some w) :
    Moves b (.unsubscribe name) { b with
      subscribers := b.subscribers.erase name
      unsubscribing := b.unsubscribing ++ [some w] }
  | publish (ev : ε) (order : List Nat) (all : order.Perm b.subscribed) :
    Moves b (.publish ev order)
      { b with publishing := b.publishing ++ [.adding ev (b.ctxs.length - 1) order] }
  | stop (order : List Nat) (all : order.Perm b.subscribed) :
    Moves b (.stop order) { b with
      running := false
      ctxs := b.ctxs.set (b.ctxs.length - 1) true
      subscribers := ∅
      stopping := b.stopping ++ [.waiting order] }
  | add (i : Nat) (ev : ε) (ctx w : Nat) (subs : List Nat)
      (here : b.publishing[i]? = some (.adding ev ctx (w :: subs))) :
    Moves b (.publisher i) { b with
      publishing := b.publishing.set i (.starting ev ctx w subs)
      dispatchWG := b.dispatchWG + 1 }
  | go (i : Nat) (ev : ε) (ctx w : Nat) (subs : List Nat)
      (here : b.publishing[i]? = some (.starting ev ctx w subs)) :
    Moves b (.publisher i) { b with
      publishing := b.publishing.set i (.adding ev ctx subs)
      dispatching := b.dispatching ++ [.selecting w ev ctx] }
  | panic (i : Nat) (taken : SelectCase) : Moves b (.dispatcher i taken) { b with panicked := true }
  /-- The event is sent or dropped. -/
  | select (i : Nat) (taken : SelectCase) (w : Nat) (ev : ε) (ctx : Nat)
      (wrappers : List (SubscriberWrapper ε)) (same : wrappers.length = b.wrappers.length)
      (here : b.dispatching[i]? = some (.selecting w ev ctx)) :
    Moves b (.dispatcher i taken)
      { b with wrappers := wrappers, dispatching := b.dispatching.set i .leaving }
  | done (i : Nat) (taken : SelectCase) (here : b.dispatching[i]? = some .leaving) :
    Moves b (.dispatcher i taken) { b with
      dispatching := b.dispatching.set i .ended
      dispatchWG := b.dispatchWG - 1 }
  | closeUnsubscribed (i w : Nat) (here : b.unsubscribing[i]? = some (some w)) :
    Moves b (.unsubscriber i) { b.close w with unsubscribing := b.unsubscribing.set i none }
  | waited (i : Nat) (subs : List Nat) (here : b.stopping[i]? = some (.waiting subs))
      (zero : b.dispatchWG = 0) :
    Moves b (.stopper i) { b with stopping := b.stopping.set i (.closing subs) }
  | closeStopped (i w : Nat) (subs : List Nat)
      (here : b.stopping[i]? = some (.closing (w :: subs))) :
    Moves b (.stopper i) { b.close w with stopping := b.stopping.set i (.closing subs) }
  | stopped (i : Nat) : Moves b (.stopper i) { b with stopping := b.stopping.set i .returned }
  | loop (w : Nat) (wrappers : List (SubscriberWrapper ε)) (subWG : Nat)
      (same : wrappers.length = b.wrappers.length) :
    Moves b (.subscriberLoop w) { b with wrappers := wrappers, subWG := subWG }

theorem runPublisher_moves (i : Nat) :
    b.runPublisher i = b ∨ b.Moves (.publisher i) (b.runPublisher i) := by
  rw [runPublisher]
  split
  next ev ctx w subs here => exact .inr (.add i ev ctx w subs here)
  next ev ctx w subs here => exact .inr (.go i ev ctx w subs here)
  next => exact .inl rfl

theorem select_moves (i w : Nat) (ev : ε) (ctx : Nat) (taken : SelectCase)
    (here : b.dispatching[i]? = some (.selecting w ev ctx)) :
    b.select i w ev ctx taken = b ∨ b.Moves (.dispatcher i taken) (b.select i w ev ctx taken) := by
  have dropped : b.Moves (.dispatcher i taken) { b with dispatching := b.dispatching.set i .leaving } :=
    .select i taken w ev ctx b.wrappers rfl here
  cases taken with
  | callerDone => exact .inr dropped
  | busDone =>
    rw [select]
    split
    · exact .inr dropped
    · exact .inl rfl
  | send =>
    rw [select]
    split
    · exact .inr (.panic i .send)
    · split
      · exact .inl rfl
      · split
        · exact .inr (.select i .send w ev ctx _ (by simp) here)
        · exact .inl rfl

theorem runDispatcher_moves (i : Nat) (taken : SelectCase) :
    b.runDispatcher i taken = b ∨ b.Moves (.dispatcher i taken) (b.runDispatcher i taken) := by
  rw [runDispatcher]
  split
  next w ev ctx here => exact b.select_moves i w ev ctx taken here
  next here => exact .inr (.done i taken here)
  next => exact .inl rfl

theorem runStopper_moves (i : Nat) :
    b.runStopper i = b ∨ b.Moves (.stopper i) (b.runStopper i) := by
  rw [runStopper]
  split
  next subs here =>
    split
    next zero => exact .inr (.waited i subs here zero)
    next => exact .inl rfl
  next w subs here => exact .inr (.closeStopped i w subs here)
  next here =>
    split
    · exact .inr (.stopped i)
    · exact .inl rfl
  next => exact .inl rfl

theorem runSubscriberLoop_moves (w : Nat) :
    b.runSubscriberLoop w = b ∨ b.Moves (.subscriberLoop w) (b.runSubscriberLoop w) := by
  rw [runSubscriberLoop]
  split
  · exact .inr (.loop w _ b.subWG (by simp))
  · split
    · exact .inr (.loop w _ _ (by simp))
    · exact .inl rfl
  · exact .inl rfl

theorem act_moves (i : BusStep ε) : b.act i = b ∨ b.Moves i (b.act i) := by
  cases i with
  | start =>
    simp only [act, start]
    split
    · exact .inl rfl
    · exact .inr .start
  | cancelParent ctx => exact .inr (.cancelParent ctx)
  | subscribe name =>
    simp only [act, subscribe]
    split
    · exact .inl rfl
    · split
      · exact .inl rfl
      next fresh => exact .inr (.subscribe name fresh)
  | unsubscribe name =>
    simp only [act, unsubscribe]
    split
    · exact .inl rfl
    next w found => exact .inr (.unsubscribe name w found)
  | publish ev order =>
    simp only [act, publish]
    split
    next ready => exact .inr (.publish ev order ready.2)
    next => exact .inl rfl
  | stop order =>
    simp only [act, stop]
    split
    next ready => exact .inr (.stop order ready.2)
    next => exact .inl rfl
  | publisher i => exact b.runPublisher_moves i
  | dispatcher i taken => exact b.runDispatcher_moves i taken
  | unsubscriber i =>
    simp only [act, runUnsubscriber]
    split
    next w here => exact .inr (.closeUnsubscribed i w here)
    next => exact .inl rfl
  | stopper i => exact b.runStopper_moves i
  | subscriberLoop w => exact b.runSubscriberLoop_moves w

theorem step_moves (i : BusStep ε) :
    b.step i = b ∨ b.panicked = false ∧ b.Moves i (b.step i) := by
  rw [step]
  split
  · exact .inl rfl
  next runs => exact (b.act_moves i).imp_right fun moves => ⟨by simpa using runs, moves⟩

end EventBus

/-! ### At the send -/

/-- The channel a dispatch goroutine is about to send on. -/
def DispatchPc.target : DispatchPc ε → Option Nat
  | .selecting w _ _ => some w
  | .leaving => none
  | .ended => none

/-- The subscribers a `Publish` has not started a dispatch goroutine for. -/
def PublishPc.ahead : PublishPc ε → List Nat
  | .adding _ _ subs => subs
  | .starting _ _ w subs => w :: subs

/-- The subscribers a `Stop` closes as soon as its wait is over. -/
def StopPc.waited : StopPc → List Nat
  | .waiting subs => subs
  | .closing _ => []
  | .returned => []

namespace EventBus

/-- No dispatch goroutine is at its send on a closed channel. -/
def NoneAtClosed (b : EventBus ε) : Prop :=
  ∀ d ∈ b.dispatching, ∀ w ∈ d.target, w ∉ b.closed

def Selecting (b : EventBus ε) (w : Nat) : Prop := ∃ d ∈ b.dispatching, d.target = some w

def Ahead (b : EventBus ε) (w : Nat) : Prop := ∃ p ∈ b.publishing, w ∈ p.ahead

/-- The channel a step closes. -/
def closes (b : EventBus ε) : BusStep ε → Option Nat
  | .unsubscriber i => b.unsubscribing[i]?.join
  | .stopper i =>
    match b.stopping[i]? with
    | some (.closing (w :: _)) => some w
    | _ => none
  | _ => none

/-- The channel a step starts a dispatch goroutine for. -/
def dispatches (b : EventBus ε) : BusStep ε → Option Nat
  | .publisher i =>
    match b.publishing[i]? with
    | some (.starting _ _ w _) => some w
    | _ => none
  | _ => none

/-- The step closes no channel that a dispatch goroutine is about to send on, and starts none for
a channel that is closed. -/
def StaysOff (b : EventBus ε) (i : BusStep ε) : Prop :=
  b.panicked = false →
    (∀ w ∈ b.closes i, ¬b.Selecting w) ∧ ∀ w ∈ b.dispatches i, w ∉ b.closed

/-- `Unsubscribe` closes, and the wait of `Stop` ends, only when every `Publish` that has one of
the subscribers in its snapshot is done with it. -/
def Drained (b : EventBus ε) : BusStep ε → Prop
  | .unsubscriber i => ∀ w ∈ b.unsubscribing[i]?.join, ¬b.Ahead w ∧ ¬b.Selecting w
  | .stopper i => ∀ p ∈ b.stopping[i]?, b.dispatchWG = 0 → ∀ w ∈ p.waited, ¬b.Ahead w
  | _ => True

instance decidableNoneAtClosed (b : EventBus ε) : Decidable b.NoneAtClosed :=
  inferInstanceAs (Decidable (∀ d ∈ b.dispatching, ∀ w ∈ d.target, w ∉ b.closed))

instance decidableSelecting (b : EventBus ε) (w : Nat) : Decidable (b.Selecting w) :=
  inferInstanceAs (Decidable (∃ d ∈ b.dispatching, d.target = some w))

instance decidableAhead (b : EventBus ε) (w : Nat) : Decidable (b.Ahead w) :=
  inferInstanceAs (Decidable (∃ p ∈ b.publishing, w ∈ p.ahead))

instance decidableDrained (b : EventBus ε) : (i : BusStep ε) → Decidable (b.Drained i)
  | .unsubscriber i =>
    inferInstanceAs (Decidable (∀ w ∈ b.unsubscribing[i]?.join, ¬b.Ahead w ∧ ¬b.Selecting w))
  | .stopper i =>
    inferInstanceAs (Decidable
      (∀ p ∈ b.stopping[i]?, b.dispatchWG = 0 → ∀ w ∈ p.waited, ¬b.Ahead w))
  | .start | .cancelParent _ | .subscribe _ | .unsubscribe _ | .publish _ _ | .stop _
  | .publisher _ | .dispatcher _ _ | .subscriberLoop _ => .isTrue trivial

variable {b b' : EventBus ε} {i : BusStep ε} {w : Nat}

theorem noneAtClosed_iff_selecting : b.NoneAtClosed ↔ ∀ w, b.Selecting w → w ∉ b.closed := by
  constructor
  · rintro none w ⟨d, mem, at_⟩
    exact none d mem w at_
  · intro none d mem w at_
    exact none w ⟨d, mem, at_⟩

theorem Moves.closed (moves : b.Moves i b') (mem : w ∈ b'.closed) :
    w ∈ b.closed ∨ b.closes i = some w := by
  cases moves with
  | closeUnsubscribed i w' here =>
    rcases List.mem_insert_iff.mp mem with rfl | old
    · exact .inr (by simp [closes, here])
    · exact .inl old
  | closeStopped i w' subs here =>
    rcases List.mem_insert_iff.mp mem with rfl | old
    · exact .inr (by simp [closes, here])
    · exact .inl old
  | _ => exact .inl mem

theorem Moves.selecting (moves : b.Moves i b') (selecting : b'.Selecting w) :
    b.Selecting w ∨ b.dispatches i = some w := by
  obtain ⟨d, mem, at_⟩ := selecting
  cases moves with
  | go i ev ctx w' subs here =>
    rcases List.mem_append.mp mem with old | new
    · exact .inl ⟨d, old, at_⟩
    · obtain rfl := List.mem_singleton.mp new
      exact .inr (by simpa [dispatches, here, DispatchPc.target] using at_)
  | select i taken w' ev ctx wrappers same here =>
    rcases List.mem_or_eq_of_mem_set mem with old | rfl
    · exact .inl ⟨d, old, at_⟩
    · cases at_
  | done i taken here =>
    rcases List.mem_or_eq_of_mem_set mem with old | rfl
    · exact .inl ⟨d, old, at_⟩
    · cases at_
  | _ => exact .inl ⟨d, mem, at_⟩

/-- A step that closes a channel moves no dispatch goroutine. -/
theorem step_closes (runs : b.panicked = false) (closes : b.closes i = some w) :
    w ∈ (b.step i).closed ∧ (b.step i).dispatching = b.dispatching := by
  rw [step, runs]
  cases i with
  | unsubscriber i =>
    have here : b.unsubscribing[i]? = some (some w) := Option.join_eq_some_iff.mp closes
    simp [act, runUnsubscriber, here, close]
  | stopper i =>
    simp only [EventBus.closes] at closes
    split at closes
    next w' subs here =>
      obtain rfl := Option.some.inj closes
      simp [act, runStopper, here, close]
    next => cases closes
  | _ => cases closes

/-- A step that starts a dispatch goroutine closes nothing. -/
theorem step_dispatches (runs : b.panicked = false) (dispatches : b.dispatches i = some w) :
    (b.step i).Selecting w ∧ (b.step i).closed = b.closed := by
  rw [step, runs]
  cases i with
  | publisher i =>
    simp only [EventBus.dispatches] at dispatches
    split at dispatches
    next ev ctx w' subs here =>
      obtain rfl := Option.some.inj dispatches
      simp [act, runPublisher, here, Selecting, DispatchPc.target]
    next => cases dispatches
  | _ => cases dispatches

theorem closes_none_of_dispatches (dispatches : b.dispatches i = some w) : b.closes i = none := by
  cases i with
  | publisher => rfl
  | _ => cases dispatches

/-- A step keeps the dispatch goroutines off the closed channels exactly if it stays off. -/
theorem step_noneAtClosed_iff (none : b.NoneAtClosed) :
    (b.step i).NoneAtClosed ↔ b.StaysOff i := by
  rw [noneAtClosed_iff_selecting] at none ⊢
  constructor
  · intro after runs
    constructor
    · intro w closes selecting
      obtain ⟨closed, same⟩ := step_closes runs closes
      exact after w (by rwa [Selecting, same]) closed
    · intro w dispatches closed
      obtain ⟨selecting, same⟩ := step_dispatches runs dispatches
      exact after w selecting (by rwa [same])
  · intro off w selecting closed
    rcases b.step_moves i with same | ⟨runs, moves⟩
    · rw [same] at selecting closed
      exact none w selecting closed
    · obtain ⟨closing, starting⟩ := off runs
      -- the goroutine was there or is new, the channel was closed or is closed now
      rcases moves.selecting selecting with there | new
      · rcases moves.closed closed with before | now
        · exact none w there before
        · exact closing w now there
      · rcases moves.closed closed with before | now
        · exact starting w new before
        · rw [closes_none_of_dispatches new] at now
          cases now

/-! ### Channels that are done with -/

/-- A wrapper that was made and is in the map no more. -/
def Gone (b : EventBus ε) (w : Nat) : Prop := w < b.wrappers.length ∧ w ∉ b.subscribed

/-- No goroutine will come to send on the channel. -/
structure Quiet (b : EventBus ε) (w : Nat) : Prop where
  gone : b.Gone w
  notAhead : ¬b.Ahead w
  notSelecting : ¬b.Selecting w

theorem mem_subscribed : w ∈ b.subscribed ↔ ∃ name, b.subscribers.lookup name = some w := by
  constructor
  · intro mem
    obtain ⟨⟨name, w'⟩, entry, rfl⟩ := List.mem_map.mp mem
    exact ⟨name, AList.mem_lookup_iff.mpr entry⟩
  · rintro ⟨name, found⟩
    exact List.mem_map_of_mem (AList.mem_lookup_iff.mp found)

theorem lookup_erase_eq_some {name other : String} {m : AList fun _ : String => Nat}
    (found : (m.erase name).lookup other = some w) : other ≠ name ∧ m.lookup other = some w := by
  have ne : other ≠ name := by
    rintro rfl
    rw [AList.lookup_erase] at found
    cases found
  exact ⟨ne, by rwa [AList.lookup_erase_ne ne] at found⟩

/-- The map gains new wrappers only. -/
theorem Moves.lookup (moves : b.Moves i b') {name : String}
    (found : b'.subscribers.lookup name = some w) :
    b.subscribers.lookup name = some w ∨
      i = .subscribe name ∧ w = b.wrappers.length ∧ w < b'.wrappers.length := by
  cases moves with
  | subscribe added fresh =>
    by_cases same : name = added
    · subst same
      rw [AList.lookup_insert] at found
      obtain rfl := Option.some.inj found
      exact .inr ⟨rfl, rfl, by simp⟩
    · rw [AList.lookup_insert_ne same] at found
      exact .inl found
  | unsubscribe removed w' _ => exact .inl (lookup_erase_eq_some found).2
  | stop order all => cases found
  | _ => exact .inl found

theorem Moves.made (moves : b.Moves i b') : b.wrappers.length ≤ b'.wrappers.length := by
  cases moves with
  | subscribe => simp
  | select i taken w' ev ctx wrappers same here => exact Nat.le_of_eq same.symm
  | loop w' wrappers subWG same => exact Nat.le_of_eq same.symm
  | _ => exact le_rfl

theorem Moves.gone (moves : b.Moves i b') (gone : b.Gone w) : b'.Gone w := by
  obtain ⟨made, absent⟩ := gone
  refine ⟨Nat.lt_of_lt_of_le made moves.made, fun mem => ?_⟩
  obtain ⟨name, found⟩ := mem_subscribed.mp mem
  rcases moves.lookup found with old | ⟨-, rfl, -⟩
  · exact absent (mem_subscribed.mpr ⟨name, old⟩)
  · exact Nat.lt_irrefl _ made

/-- A `Publish` has ahead what it had, or what the map held at its snapshot. -/
theorem Moves.ahead (moves : b.Moves i b') (ahead : b'.Ahead w) :
    b.Ahead w ∨ w ∈ b.subscribed := by
  obtain ⟨p, mem, inside⟩ := ahead
  cases moves with
  | publish ev order all =>
    -- the only step that puts something ahead: the snapshot of a running bus
    rcases List.mem_append.mp mem with old | new
    · exact .inl ⟨p, old, inside⟩
    · obtain rfl := List.mem_singleton.mp new
      exact .inr (all.mem_iff.mp inside)
  | add i ev ctx w' subs here =>
    rcases List.mem_or_eq_of_mem_set mem with old | rfl
    · exact .inl ⟨p, old, inside⟩
    · exact .inl ⟨_, Pool.mem here, inside⟩
  | go i ev ctx w' subs here =>
    rcases List.mem_or_eq_of_mem_set mem with old | rfl
    · exact .inl ⟨p, old, inside⟩
    · exact .inl ⟨_, Pool.mem here, List.mem_cons_of_mem w' inside⟩
  | _ => exact .inl ⟨p, mem, inside⟩

theorem ahead_of_dispatches (dispatches : b.dispatches i = some w) : b.Ahead w := by
  cases i with
  | publisher i =>
    simp only [EventBus.dispatches] at dispatches
    split at dispatches
    next ev ctx w' subs here =>
      obtain rfl := Option.some.inj dispatches
      exact ⟨_, Pool.mem here, List.mem_cons_self⟩
    next => cases dispatches
  | _ => cases dispatches

theorem Moves.quiet (moves : b.Moves i b') (quiet : b.Quiet w) : b'.Quiet w where
  gone := moves.gone quiet.gone
  notAhead ahead := (moves.ahead ahead).elim quiet.notAhead quiet.gone.2
  notSelecting selecting :=
    (moves.selecting selecting).elim quiet.notSelecting fun new =>
      quiet.notAhead (ahead_of_dispatches new)

end EventBus

/-! ### The wait group -/

/-- What a `Publish` has added to `dispatchWG` for a goroutine that is not started. -/
def PublishPc.added : PublishPc ε → Nat
  | .adding _ _ _ => 0
  | .starting _ _ _ _ => 1

/-- What a dispatch goroutine has to take off `dispatchWG`. -/
def DispatchPc.owed : DispatchPc ε → Nat
  | .selecting _ _ _ => 1
  | .leaving => 1
  | .ended => 0

namespace EventBus

variable {b b' : EventBus ε} {i : BusStep ε} {w : Nat}

/-- `dispatchWG` is the number of dispatch goroutines, started or about to be, that are not
done. -/
def Counted (b : EventBus ε) : Prop :=
  b.dispatchWG = Pool.total PublishPc.added b.publishing + Pool.total DispatchPc.owed b.dispatching

theorem Moves.counted (moves : b.Moves i b') (counted : b.Counted) : b'.Counted := by
  rw [Counted] at counted ⊢
  cases moves with
  | publish ev order all => simpa [PublishPc.added] using counted
  | add i ev ctx w' subs here =>
    have moved := Pool.total_set PublishPc.added here (.starting ev ctx w' subs)
    simp only [PublishPc.added] at moved ⊢
    omega
  | go i ev ctx w' subs here =>
    have moved := Pool.total_set PublishPc.added here (.adding ev ctx subs)
    simp only [Pool.total_append, Pool.total_singleton, PublishPc.added, DispatchPc.owed] at moved ⊢
    omega
  | select i taken w' ev ctx wrappers same here =>
    have moved := Pool.total_set DispatchPc.owed here .leaving
    simp only [DispatchPc.owed] at moved ⊢
    omega
  | done i taken here =>
    have moved := Pool.total_set DispatchPc.owed here .ended
    simp only [DispatchPc.owed] at moved ⊢
    omega
  | _ => exact counted

/-- When the wait of `Stop` is over, no dispatch goroutine is at its select. -/
theorem Counted.not_selecting (counted : b.Counted) (zero : b.dispatchWG = 0) :
    ¬b.Selecting w := by
  rintro ⟨d, mem, at_⟩
  rw [Counted, zero] at counted
  have none_ : Pool.total DispatchPc.owed b.dispatching = 0 := by omega
  have owes := Pool.weight_eq_zero DispatchPc.owed none_ mem
  cases d with
  | selecting => cases owes
  | leaving => cases at_
  | ended => cases at_

/-! ### Runs -/

/-- What a channel that is closed, or about to be, has behind it. -/
structure Tidy (b : EventBus ε) : Prop where
  counted : b.Counted
  made : ∀ name w, b.subscribers.lookup name = some w → w < b.wrappers.length
  distinct : ∀ name other w, b.subscribers.lookup name = some w →
    b.subscribers.lookup other = some w → name = other
  closed : ∀ w ∈ b.closed, b.Quiet w
  unsubscribing : ∀ w, some w ∈ b.unsubscribing → b.Gone w
  waiting : ∀ subs, .waiting subs ∈ b.stopping → ∀ w ∈ subs, b.Gone w
  closing : ∀ subs, .closing subs ∈ b.stopping → ∀ w ∈ subs, b.Quiet w

theorem newEventBus_tidy : (newEventBus : EventBus ε).Tidy where
  counted := rfl
  made _ _ found := by cases found
  distinct _ _ _ found := by cases found
  closed _ mem := by cases mem
  unsubscribing _ mem := by cases mem
  waiting _ mem := by cases mem
  closing _ mem := by cases mem

theorem Moves.unsubscribing (moves : b.Moves i b') (mem : some w ∈ b'.unsubscribing) :
    some w ∈ b.unsubscribing ∨
      ∃ name, b.subscribers.lookup name = some w ∧ b'.subscribers = b.subscribers.erase name := by
  cases moves with
  | unsubscribe name w' found =>
    rcases List.mem_append.mp mem with old | new
    · exact .inl old
    · obtain rfl := Option.some.inj (List.mem_singleton.mp new)
      exact .inr ⟨name, found, rfl⟩
  | closeUnsubscribed i w' here =>
    rcases List.mem_or_eq_of_mem_set mem with old | new
    · exact .inl old
    · cases new
  | _ => exact .inl mem

theorem Moves.waiting (moves : b.Moves i b') {subs : List Nat}
    (mem : .waiting subs ∈ b'.stopping) :
    .waiting subs ∈ b.stopping ∨ subs.Perm b.subscribed ∧ b'.subscribers = ∅ := by
  cases moves with
  | stop order all =>
    rcases List.mem_append.mp mem with old | new
    · exact .inl old
    · obtain rfl := StopPc.waiting.inj (List.mem_singleton.mp new)
      exact .inr ⟨all, rfl⟩
  | waited | closeStopped | stopped =>
    rcases List.mem_or_eq_of_mem_set mem with old | new
    · exact .inl old
    · cases new
  | _ => exact .inl mem

theorem Moves.closing (moves : b.Moves i b') {subs : List Nat}
    (mem : .closing subs ∈ b'.stopping) :
    (∃ more, .closing more ∈ b.stopping ∧ subs ⊆ more) ∨
      ∃ j, i = .stopper j ∧ b.stopping[j]? = some (.waiting subs) ∧ b.dispatchWG = 0 := by
  have kept (old : .closing subs ∈ b.stopping) : ∃ more, .closing more ∈ b.stopping ∧ subs ⊆ more :=
    ⟨subs, old, List.Subset.refl subs⟩
  cases moves with
  | stop order all =>
    rcases List.mem_append.mp mem with old | new
    · exact .inl (kept old)
    · cases List.mem_singleton.mp new
  | waited j subs' here zero =>
    rcases List.mem_or_eq_of_mem_set mem with old | new
    · exact .inl (kept old)
    · obtain rfl := StopPc.closing.inj new
      exact .inr ⟨j, rfl, here, zero⟩
  | closeStopped j w' subs' here =>
    rcases List.mem_or_eq_of_mem_set mem with old | new
    · exact .inl (kept old)
    · obtain rfl := StopPc.closing.inj new
      exact .inl ⟨w' :: subs, Pool.mem here, List.subset_cons_self w' subs⟩
  | stopped =>
    rcases List.mem_or_eq_of_mem_set mem with old | new
    · exact .inl (kept old)
    · cases new
  | _ => exact .inl (kept mem)

/-- What a step closes is done with. -/
theorem Tidy.quiet_of_closes (tidy : b.Tidy) (drained : b.Drained i) (closes : b.closes i = some w) :
    b.Quiet w := by
  cases i with
  | unsubscriber i =>
    obtain ⟨notAhead, notSelecting⟩ := drained w closes
    have mem := List.mem_of_getElem? (Option.join_eq_some_iff.mp closes)
    exact ⟨tidy.unsubscribing w mem, notAhead, notSelecting⟩
  | stopper i =>
    simp only [EventBus.closes] at closes
    split at closes
    next w' subs here =>
      obtain rfl := Option.some.inj closes
      exact tidy.closing _ (Pool.mem here) w' List.mem_cons_self
    next => cases closes
  | _ => cases closes

theorem Tidy.staysOff (tidy : b.Tidy) (drained : b.Drained i) : b.StaysOff i := by
  intro _
  constructor
  · intro w closes
    exact (tidy.quiet_of_closes drained closes).notSelecting
  · intro w dispatches closed
    exact (tidy.closed w closed).notAhead (ahead_of_dispatches dispatches)

theorem Tidy.moves (tidy : b.Tidy) (drained : b.Drained i) (moves : b.Moves i b') : b'.Tidy where
  counted := moves.counted tidy.counted
  made name w found := by
    rcases moves.lookup found with old | ⟨-, -, new⟩
    · exact Nat.lt_of_lt_of_le (tidy.made name w old) moves.made
    · exact new
  distinct name other w found found' := by
    rcases moves.lookup found with old | ⟨added, fresh, -⟩
    · rcases moves.lookup found' with old' | ⟨-, fresh, -⟩
      · exact tidy.distinct name other w old old'
      · exact absurd (tidy.made name w old) (by omega)
    · rcases moves.lookup found' with old' | ⟨added', -, -⟩
      · exact absurd (tidy.made other w old') (by omega)
      · exact BusStep.subscribe.inj (added.symm.trans added')
  closed w mem := by
    rcases moves.closed mem with old | now
    · exact moves.quiet (tidy.closed w old)
    · exact moves.quiet (tidy.quiet_of_closes drained now)
  unsubscribing w mem := by
    rcases moves.unsubscribing mem with old | ⟨name, found, erased⟩
    · exact moves.gone (tidy.unsubscribing w old)
    · -- no other name has the wrapper that was removed
      refine ⟨Nat.lt_of_lt_of_le (tidy.made name w found) moves.made, fun mem => ?_⟩
      obtain ⟨other, found'⟩ := mem_subscribed.mp mem
      rw [erased] at found'
      obtain ⟨ne, old⟩ := lookup_erase_eq_some found'
      exact ne (tidy.distinct other name w old found)
  waiting subs mem w inside := by
    rcases moves.waiting mem with old | ⟨all, cleared⟩
    · exact moves.gone (tidy.waiting subs old w inside)
    · obtain ⟨name, found⟩ := mem_subscribed.mp (all.mem_iff.mp inside)
      refine ⟨Nat.lt_of_lt_of_le (tidy.made name w found) moves.made, ?_⟩
      rw [subscribed, cleared]
      exact List.not_mem_nil
  closing subs mem w inside := by
    rcases moves.closing mem with ⟨more, old, part⟩ | ⟨j, rfl, here, zero⟩
    · exact moves.quiet (tidy.closing more old w (part inside))
    · -- the wait is over: nothing counted is left, and no `Publish` is about to count `w`
      have gone := tidy.waiting subs (Pool.mem here) w inside
      exact moves.quiet ⟨gone, drained _ here zero w inside, tidy.counted.not_selecting zero⟩

theorem Tidy.step (tidy : b.Tidy) (drained : b.Drained i) : (b.step i).Tidy := by
  rcases b.step_moves i with same | ⟨-, moves⟩
  · rwa [same]
  · exact tidy.moves drained moves

theorem along_noneAtClosed_iff (steps : List (BusStep ε)) :
    (∀ before, before <+: steps → (Machine.run step newEventBus before).NoneAtClosed) ↔
      Machine.Always step StaysOff newEventBus steps := by
  apply Machine.along_iff_always step StaysOff (fun _ => True) NoneAtClosed
  · exact fun _ _ _ => trivial
  · exact fun _ _ _ none => step_noneAtClosed_iff none
  · trivial
  · exact fun _ mem => by cases mem

/-- In every run that drains the channels before it closes them, no dispatch goroutine is ever
at its send on a closed channel; exactly, if every step stays off the closed channels. -/
theorem noneAtClosed_iff (steps : List (BusStep ε)) :
    (Machine.Always step Drained newEventBus steps →
      ∀ before, before <+: steps → (Machine.run step newEventBus before).NoneAtClosed) ∧
    ((∀ before, before <+: steps → (Machine.run step newEventBus before).NoneAtClosed) ↔
      Machine.Always step StaysOff newEventBus steps) := by
  refine ⟨fun drained => (along_noneAtClosed_iff steps).mpr ?_, along_noneAtClosed_iff steps⟩
  exact Machine.Always.of_invariant (fun _ _ tidy drained => tidy.step drained)
    (fun _ _ tidy drained => tidy.staysOff drained) newEventBus steps newEventBus_tidy drained

/-- A `Publish` is done with the subscriber when it is removed, and another one when the bus
stops. -/
theorem noneAtClosed_drained_run :
    let steps : List (BusStep Nat) := [.start, .subscribe "metrics", .publish 7 [0], .publisher 0,
      .publisher 0, .dispatcher 0 .send, .unsubscribe "metrics", .unsubscriber 0,
      .subscribe "trace", .publish 8 [1], .publisher 1, .stop [1], .publisher 1,
      .dispatcher 0 .send, .dispatcher 1 .busDone, .dispatcher 1 .send, .stopper 0, .stopper 0]
    Machine.Always step Drained newEventBus steps ∧
      (Machine.run step newEventBus steps).NoneAtClosed :=
  ⟨by decide +kernel, (noneAtClosed_iff _).1 (by decide +kernel) _ (List.prefix_refl _)⟩

/-- `Unsubscribe` overtakes a dispatch goroutine, and `Stop` a `Publish` between its snapshot
and its `Add`; each time the send panics. -/
theorem not_noneAtClosed_overtaken :
    let snapshot : List (BusStep Nat) := [.start, .subscribe "metrics", .publish 7 [0]]
    let overtaken := snapshot ++ [.publisher 0, .publisher 0, .unsubscribe "metrics", .unsubscriber 0]
    let stopped := snapshot ++ [.stop [0], .stopper 0, .stopper 0, .publisher 0, .publisher 0]
    ¬(Machine.run step newEventBus overtaken).NoneAtClosed ∧
      (Machine.run step newEventBus (overtaken ++ [.dispatcher 0 .send])).panicked = true ∧
      ¬(Machine.run step newEventBus stopped).NoneAtClosed ∧
      (Machine.run step newEventBus (stopped ++ [.dispatcher 0 .send])).panicked = true := by
  decide +kernel

/-! ### Channels that are not drained -/

theorem step_go {j ctx x : Nat} {ev : ε} {subs : List Nat} (runs : b.panicked = false)
    (here : b.publishing[j]? = some (.starting ev ctx x subs)) :
    b.step (.publisher j) = { b with
      publishing := b.publishing.set j (.adding ev ctx subs)
      dispatching := b.dispatching ++ [.selecting x ev ctx] } := by
  simp [step, runs, act, runPublisher, here]

theorem step_add_go {j ctx x : Nat} {ev : ε} {subs : List Nat} (runs : b.panicked = false)
    (here : b.publishing[j]? = some (.adding ev ctx (x :: subs))) :
    (b.step (.publisher j)).step (.publisher j) = { b with
      publishing := b.publishing.set j (.adding ev ctx subs)
      dispatching := b.dispatching ++ [.selecting x ev ctx]
      dispatchWG := b.dispatchWG + 1 } := by
  simp [step, runs, act, runPublisher, here, Pool.getElem?_set here]

theorem exists_atClosed_of_step (i : BusStep ε)
    (reached : ∃ later, ¬(Machine.run step (b.step i) later).NoneAtClosed) :
    ∃ later, ¬(Machine.run step b later).NoneAtClosed := by
  obtain ⟨later, reached⟩ := reached
  exact ⟨i :: later, reached⟩

/-- A `Publish` that has a closed channel ahead of it gets there. -/
theorem exists_atClosed_of_adding {j ctx : Nat} {ev : ε} (subs : List Nat) (inside : w ∈ subs)
    (runs : b.panicked = false) (closed : w ∈ b.closed)
    (here : b.publishing[j]? = some (.adding ev ctx subs)) :
    ∃ later, ¬(Machine.run step b later).NoneAtClosed := by
  induction subs generalizing b with
  | nil => cases inside
  | cons x subs ih =>
    apply exists_atClosed_of_step (.publisher j)
    apply exists_atClosed_of_step (.publisher j)
    rw [step_add_go runs here]
    -- the goroutine for `x` is the one, or the call goes on to the next subscriber
    rcases List.mem_cons.mp inside with rfl | inside
    · exact ⟨[], fun none => none (.selecting w ev ctx) (by simp) w rfl closed⟩
    · exact ih inside runs closed (Pool.getElem?_set here _)

theorem exists_atClosed_of_ahead (runs : b.panicked = false) (closed : w ∈ b.closed)
    (ahead : b.Ahead w) : ∃ later, ¬(Machine.run step b later).NoneAtClosed := by
  obtain ⟨p, mem, inside⟩ := ahead
  obtain ⟨j, here⟩ := List.getElem?_of_mem mem
  cases p with
  | adding ev ctx subs => exact exists_atClosed_of_adding subs inside runs closed here
  | starting ev ctx x subs =>
    apply exists_atClosed_of_step (.publisher j)
    rw [step_go runs here]
    rcases List.mem_cons.mp inside with rfl | inside
    · exact ⟨[], fun none => none (.selecting w ev ctx) (by simp) w rfl closed⟩
    · exact exists_atClosed_of_adding subs inside runs closed (Pool.getElem?_set here _)

/-- A `Stop` after its wait closes all its channels, whatever a `Publish` has ahead. -/
theorem exists_atClosed_of_closing {j : Nat} (subs : List Nat) (inside : w ∈ subs)
    (runs : b.panicked = false) (ahead : b.Ahead w)
    (here : b.stopping[j]? = some (.closing subs)) :
    ∃ later, ¬(Machine.run step b later).NoneAtClosed := by
  induction subs generalizing b with
  | nil => cases inside
  | cons x subs ih =>
    have closes : b.step (.stopper j) =
        { b.close x with stopping := b.stopping.set j (.closing subs) } := by
      simp [step, runs, act, runStopper, here]
    apply exists_atClosed_of_step (.stopper j)
    rw [closes]
    rcases List.mem_cons.mp inside with rfl | inside
    · exact exists_atClosed_of_ahead runs List.mem_insert_self ahead
    · exact ih inside runs ahead (Pool.getElem?_set here _)

/-- The condition asks for no more than it has to: after a step that closes a channel too early,
some schedule has a dispatch goroutine at its send on a closed channel. -/
theorem exists_atClosed_of_not_drained (runs : b.panicked = false) (early : ¬b.Drained i) :
    ∃ later, ¬(Machine.run step b (i :: later)).NoneAtClosed := by
  simp only [Machine.run_cons]
  cases i with
  | unsubscriber j =>
    simp only [Drained, not_forall, not_and_or, not_not] at early
    obtain ⟨w, mem, still⟩ := early
    have here : b.unsubscribing[j]? = some (some w) := Option.join_eq_some_iff.mp mem
    have closes : b.step (.unsubscriber j) =
        { b.close w with unsubscribing := b.unsubscribing.set j none } := by
      simp [step, runs, act, runUnsubscriber, here]
    rw [closes]
    rcases still with ahead | selecting
    · exact exists_atClosed_of_ahead runs List.mem_insert_self ahead
    · refine ⟨[], fun none => ?_⟩
      exact noneAtClosed_iff_selecting.mp none w selecting List.mem_insert_self
  | stopper j =>
    simp only [Drained, not_forall, not_not] at early
    obtain ⟨p, here, zero, w, inside, ahead⟩ := early
    cases p with
    | waiting subs =>
      have waits : b.step (.stopper j) =
          { b with stopping := b.stopping.set j (.closing subs) } := by
        simp [step, runs, act, runStopper, Option.mem_def.mp here, zero]
      rw [waits]
      exact exists_atClosed_of_closing subs inside runs ahead (Pool.getElem?_set here _)
    | closing | returned => cases inside
  | _ => exact absurd trivial early

theorem exists_atClosed_overtaken :
    let b := Machine.run step newEventBus ([.start, .subscribe "metrics", .publish 7 [0],
      .unsubscribe "metrics"] : List (BusStep Nat))
    ∃ later, ¬(Machine.run step b (.unsubscriber 0 :: later)).NoneAtClosed :=
  exists_atClosed_of_not_drained (by decide +kernel) (by decide +kernel)

end EventBus
end PebbleDB.Acceptance
