import Mathlib.Data.Finset.Max
import Mathlib.Data.List.Sort
import PebbleDB.Bytes
import PebbleDB.Lib.Lists

/-!
# Campaigns

`Execute` sorts the submitted scenarios by priority and id, runs one priority after the
other with several workers, and repeats a scenario until an attempt passes. After a
priority with a result other than `PASS` the gate is closed, and what is left is reported
as blocked.

## Main results

* `TierRun.eq`, `exists_tierRun`: however the workers of a tier are interleaved, the tier
  ends with one result of `runOne` for each scenario.
* `campaignVerdict_iff_failure_shows`: the gate and the verdict go by passing attempts
  exactly if the first priority with a scenario that never passed shows it in its results.
* `not_campaignVerdict_pass_with_error`: an attempt that returns `PASS` together with an
  error does not pass, and its result is reported as it is when the attempts are used up.

The context is not cancelled. Only the fields of results that the scheduler reads or
writes are kept.
-/
namespace PebbleDB.Acceptance

/-! ### One scenario -/

inductive Status where
  | pass
  | fail
  | blocked
  | inconclusive
  /-- any other string; the empty one if no status was set -/
  | other (text : String)
  deriving DecidableEq, Repr

structure Scenario where
  id : Bytes
  priority : Int
  deriving DecidableEq, Repr

structure ScenarioResult where
  scenarioID : Bytes
  status : Status
  retries : Nat
  failureStage : String
  deriving DecidableEq, Repr

namespace ScenarioResult

/-- `types.ScenarioResult{}`. -/
def zero : ScenarioResult := ⟨[], .other "", 0, ""⟩

def withRetries (res : ScenarioResult) (attempt : Nat) : ScenarioResult :=
  { res with retries := attempt }

end ScenarioResult

def blockedResult (sc : Scenario) (reason : String) : ScenarioResult := ⟨sc.id, .blocked, 0, reason⟩

/-- What the executor returns for an attempt at a scenario: a result and an error or nil. -/
abbrev Executor := Scenario → Nat → ScenarioResult × Option String

/-- `attempts := s.maxRetries + 1`, which may wrap around, and at least 1. -/
def attempts (maxRetries : Int64) : Nat :=
  if maxRetries + 1 < 1 then 1 else (maxRetries + 1).toInt.toNat

theorem attempts_pos (maxRetries : Int64) : 0 < attempts maxRetries := by
  rw [attempts]
  split
  next => exact Nat.one_pos
  next many =>
    rw [Int64.lt_iff_toInt_lt] at many
    have one : (1 : Int64).toInt = 1 := rfl
    omega

section RunOne

variable (exec : Executor) (sc : Scenario)

/-- An attempt that makes `runOne` stop. -/
def Passes (attempt : Nat) : Prop :=
  (exec sc attempt).2 = none ∧ (exec sc attempt).1.status = .pass

instance decidablePasses (attempt : Nat) : Decidable (Passes exec sc attempt) :=
  inferInstanceAs (Decidable (_ ∧ _))

/-- What is returned after the last attempt. -/
def lastResult (last : ScenarioResult) : ScenarioResult :=
  if last.scenarioID = [] then { last with scenarioID := sc.id, status := .fail } else last

/-- The loop of `runOne`, with `left` attempts to go. -/
def runAttempts : (left attempt : Nat) → (last : ScenarioResult) → ScenarioResult
  | 0, _, last => lastResult sc last
  | left + 1, attempt, _ =>
    let res := (exec sc attempt).1.withRetries attempt
    if Passes exec sc attempt then res else runAttempts left (attempt + 1) res

def runOne (n : Nat) : ScenarioResult := runAttempts exec sc n 0 .zero

/-- The scenario had an attempt that returned a nil error with `PASS`. -/
def Cleared (n : Nat) : Prop := ∃ attempt < n, Passes exec sc attempt

theorem runAttempts_cleared (left attempt : Nat) (last : ScenarioResult)
    (cleared : ∃ k < left, Passes exec sc (attempt + k)) :
    (runAttempts exec sc left attempt last).status = .pass := by
  induction left generalizing attempt last with
  | zero =>
    obtain ⟨k, none_, -⟩ := cleared
    exact absurd none_ (Nat.not_lt_zero k)
  | succ left ih =>
    simp only [runAttempts]
    split
    next passes => exact passes.2
    next not_ =>
      obtain ⟨k, inside, passes⟩ := cleared
      -- the attempt at hand did not pass, so a later one does
      cases k with
      | zero => exact absurd passes not_
      | succ k =>
        refine ih (attempt + 1) _ ⟨k, by omega, ?_⟩
        rwa [Nat.add_right_comm, Nat.add_assoc]

theorem runOne_cleared (n : Nat) (cleared : Cleared exec sc n) : (runOne exec sc n).status = .pass := by
  apply runAttempts_cleared
  simpa [Cleared] using cleared

theorem runAttempts_uncleared (left attempt : Nat) (last : ScenarioResult)
    (uncleared : ∀ k ≤ left, ¬Passes exec sc (attempt + k)) :
    runAttempts exec sc (left + 1) attempt last =
      lastResult sc ((exec sc (attempt + left)).1.withRetries (attempt + left)) := by
  have first : ¬Passes exec sc attempt := uncleared 0 (Nat.zero_le _)
  induction left generalizing attempt last with
  | zero => rw [runAttempts, if_neg first, runAttempts, Nat.add_zero]
  | succ left ih =>
    have shift (k : Nat) : attempt + 1 + k = attempt + (k + 1) := by omega
    have later (k : Nat) (few : k ≤ left) : ¬Passes exec sc (attempt + 1 + k) := by
      rw [shift k]
      exact uncleared (k + 1) (Nat.succ_le_succ few)
    rw [runAttempts, if_neg first, ih (attempt + 1) _ later (later 0 (Nat.zero_le _)), shift left]

/-- Without a passing attempt the last one counts, as a failure if it names no scenario. -/
theorem runOne_uncleared (n : Nat) (positive : 0 < n) (uncleared : ¬Cleared exec sc n) :
    (runOne exec sc n).status =
      if (exec sc (n - 1)).1.scenarioID = [] then .fail else (exec sc (n - 1)).1.status := by
  obtain ⟨left, rfl⟩ := Nat.exists_eq_succ_of_ne_zero positive.ne'
  rw [runOne, runAttempts_uncleared exec sc left 0 .zero fun k few passes => uncleared
    ⟨k, Nat.lt_succ_of_le few, by rwa [Nat.zero_add] at passes⟩, Nat.zero_add, lastResult]
  show (if (exec sc left).1.scenarioID = [] then _ else _ : ScenarioResult).status = _
  rw [apply_ite ScenarioResult.status]
  rfl

theorem runAttempts_scenarioID (own : ∀ k, (exec sc k).1.scenarioID = sc.id) (left attempt : Nat)
    (last : ScenarioResult) (lastOwn : last.scenarioID = sc.id ∨ last.scenarioID = []) :
    (runAttempts exec sc left attempt last).scenarioID = sc.id := by
  induction left generalizing attempt last with
  | zero =>
    rw [runAttempts, lastResult]
    split
    next => rfl
    next set => exact lastOwn.resolve_right set
  | succ left ih =>
    simp only [runAttempts]
    split
    next => exact own attempt
    next => exact ih (attempt + 1) _ (.inl (own attempt))

/-- If the executor fills in the id, the scenario is reported under its id. -/
theorem runOne_scenarioID (own : ∀ k, (exec sc k).1.scenarioID = sc.id) (n : Nat) :
    (runOne exec sc n).scenarioID = sc.id :=
  runAttempts_scenarioID exec sc own n 0 .zero (.inr rfl)

end RunOne

/-! ### The workers of a tier -/

/-- The goroutine of a scenario: not yet started, at work with its next attempt and its last
result, or done, with its result stored and the semaphore released. -/
inductive Worker where
  | waiting
  | running (attempt : Nat) (last : ScenarioResult)
  | returned (res : ScenarioResult)

namespace Worker

def isWaiting : Worker → Bool
  | .waiting => true
  | _ => false

def isRunning : Worker → Bool
  | .running _ _ => true
  | _ => false

/-- One attempt, or the return after the last one. -/
def advance (exec : Executor) (n : Nat) (sc : Scenario) (attempt : Nat) (last : ScenarioResult) : Worker :=
  if attempt < n then
    let res := (exec sc attempt).1.withRetries attempt
    if Passes exec sc attempt then .returned res else .running (attempt + 1) res
  else .returned (lastResult sc last)

/-- The result that the goroutine is going to store. -/
def promised (exec : Executor) (n : Nat) (sc : Scenario) : Worker → ScenarioResult
  | .waiting => runOne exec sc n
  | .running attempt last => runAttempts exec sc (n - attempt) attempt last
  | .returned res => res

/-- The steps left to the goroutine, at most. -/
def stepsLeft (n : Nat) : Worker → Nat
  | .waiting => n + 2
  | .running attempt _ => n - attempt + 1
  | .returned _ => 0

theorem advance_promised (exec : Executor) (n : Nat) (sc : Scenario) (attempt : Nat)
    (last : ScenarioResult) :
    (advance exec n sc attempt last).promised exec n sc =
      (running attempt last).promised exec n sc := by
  rw [advance]
  split
  next inside =>
    obtain ⟨left, more⟩ : ∃ left, n - attempt = left + 1 := ⟨n - attempt - 1, by omega⟩
    have fewer : n - (attempt + 1) = left := by omega
    by_cases passes : Passes exec sc attempt
    · simp [promised, more, runAttempts, passes]
    · simp [promised, more, runAttempts, passes, fewer]
  next finished =>
    have none_ : n - attempt = 0 := by omega
    simp only [promised, none_, runAttempts]

theorem advance_stepsLeft (exec : Executor) (n : Nat) (sc : Scenario) (attempt : Nat)
    (last : ScenarioResult) :
    (advance exec n sc attempt last).stepsLeft n < (running attempt last).stepsLeft n := by
  rw [advance]
  split
  next inside =>
    split
    · simp [stepsLeft]
    · simp only [stepsLeft]
      omega
  next => simp [stepsLeft]

end Worker

/-- The workers of a tier, in the order of its scenarios. -/
abbrev Tier := List (Scenario × Worker)

section RunTier

variable (exec : Executor) (n workers : Nat)

/-- One step of `runTier` or of a goroutine: the loop starts the next goroutine when the
semaphore has a slot, or some running one makes an attempt or returns. -/
inductive TierStep : Tier → Tier → Prop
  | start (before : Tier) (sc : Scenario) (after : Tier)
      (next : ∀ w ∈ before, w.2.isWaiting = false)
      (slot : ((before ++ after).countP fun w => w.2.isRunning) < workers) :
      TierStep (before ++ (sc, .waiting) :: after) (before ++ (sc, .running 0 .zero) :: after)
  | work (before : Tier) (sc : Scenario) (attempt : Nat) (last : ScenarioResult) (after : Tier) :
      TierStep (before ++ (sc, .running attempt last) :: after)
        (before ++ (sc, .advance exec n sc attempt last) :: after)

/-- `runTier` may return these results: the goroutines can be interleaved so that `wg.Wait`
returns with them. -/
def TierRun (tier : List Scenario) (results : List ScenarioResult) : Prop :=
  ∃ final : Tier,
    Relation.ReflTransGen (TierStep exec n workers) (tier.map fun sc => (sc, .waiting)) final ∧
      final.map (fun w => w.2) = results.map .returned

/-- No step changes what a goroutine is going to store. -/
theorem TierStep.promised {tier tier' : Tier} (step : TierStep exec n workers tier tier') :
    tier'.map (fun w => w.2.promised exec n w.1) = tier.map fun w => w.2.promised exec n w.1 := by
  cases step with
  | start before sc after =>
    simp [Worker.promised, runOne]
  | work before sc attempt last after =>
    simp [Worker.advance_promised]

theorem TierStep.stepsLeft {tier tier' : Tier} (step : TierStep exec n workers tier tier') :
    (tier'.map fun w => w.2.stepsLeft n).sum < (tier.map fun w => w.2.stepsLeft n).sum := by
  cases step with
  | start before sc after =>
    simp [Worker.stepsLeft]
  | work before sc attempt last after =>
    simpa using Worker.advance_stepsLeft exec n sc attempt last

/-- Whatever the interleaving, the tier has the results of `runOne`, in its order. -/
theorem TierRun.eq {tier : List Scenario} {results : List ScenarioResult}
    (run : TierRun exec n workers tier results) : results = tier.map fun sc => runOne exec sc n := by
  obtain ⟨final, steps, returned⟩ := run
  have kept : final.map (fun w => w.2.promised exec n w.1) = tier.map fun sc => runOne exec sc n := by
    clear returned
    induction steps with
    | refl => simp [Worker.promised, Function.comp_def]
    | tail _ step ih => rw [step.promised, ih]
  rw [← kept]
  -- a goroutine that has returned has kept its promise
  clear kept steps
  induction final generalizing results with
  | nil =>
    cases results with
    | nil => rfl
    | cons res results => cases returned
  | cons w final ih =>
    cases results with
    | nil => cases returned
    | cons res results =>
      simp only [List.map_cons, List.cons.injEq] at returned
      rw [List.map_cons, ← ih returned.2, returned.1, Worker.promised]

/-- Every goroutine has returned. -/
def Finished (tier : Tier) : Prop :=
  ∃ results : List ScenarioResult, tier.map (fun w => w.2) = results.map .returned

theorem finished_of_idle (tier : Tier)
    (rest : ∀ w ∈ tier, w.2.isWaiting = false ∧ ¬w.2.isRunning = true) : Finished tier := by
  induction tier with
  | nil => exact ⟨[], rfl⟩
  | cons w tier ih =>
    obtain ⟨here, later⟩ := List.forall_mem_cons.mp rest
    obtain ⟨results, returned⟩ := ih later
    obtain ⟨sc, w⟩ := w
    cases w with
    | waiting => cases here.1
    | running attempt last => exact absurd rfl here.2
    | returned res => exact ⟨res :: results, by simp [returned]⟩

/-- As long as a goroutine has not returned, some step can be made: if none is running, the
semaphore has a slot for the first one that waits. -/
theorem exists_tierStep (positive : 0 < workers) (tier : Tier) (unfinished : ¬Finished tier) :
    ∃ tier', TierStep exec n workers tier tier' := by
  by_cases running : ∃ w ∈ tier, w.2.isRunning = true
  · obtain ⟨⟨sc, w⟩, member, isRunning⟩ := running
    obtain ⟨before, after, rfl⟩ := List.append_of_mem member
    cases w with
    | waiting => cases isRunning
    | returned res => cases isRunning
    | running attempt last => exact ⟨_, .work before sc attempt last after⟩
  · cases found : tier.find? fun w => w.2.isWaiting with
    | none =>
      refine absurd (finished_of_idle tier fun w member => ?_) unfinished
      exact ⟨by simpa using List.find?_eq_none.mp found w member, fun isRunning =>
        running ⟨w, member, isRunning⟩⟩
    | some w =>
      obtain ⟨isWaiting, before, after, rfl, next⟩ := List.find?_eq_some_iff_append.mp found
      obtain ⟨sc, w⟩ := w
      cases w with
      | running attempt last => cases isWaiting
      | returned res => cases isWaiting
      | waiting =>
        -- nobody is running, so no slot is taken
        refine ⟨_, .start before sc after (fun w member => by simpa using next w member) ?_⟩
        rwa [List.countP_eq_zero.mpr]
        intro w member isRunning
        refine running ⟨w, ?_, isRunning⟩
        rcases List.mem_append.mp member with early | late
        · exact List.mem_append_left _ early
        · exact List.mem_append_right _ (List.mem_cons_of_mem _ late)

/-- The goroutines come to an end however they are interleaved: every step leaves fewer. -/
theorem exists_tierRun (positive : 0 < workers) (tier : List Scenario) :
    TierRun exec n workers tier (tier.map fun sc => runOne exec sc n) := by
  have ends (state : Tier) : ∃ final : Tier,
      Relation.ReflTransGen (TierStep exec n workers) state final ∧ Finished final := by
    induction measured : (state.map fun w => w.2.stepsLeft n).sum using Nat.strong_induction_on
      generalizing state with
    | _ left ih =>
      by_cases finished : Finished state
      · exact ⟨state, .refl, finished⟩
      · obtain ⟨state', step⟩ := exists_tierStep exec n workers positive state finished
        obtain ⟨final, steps, returned⟩ := ih _ (measured ▸ step.stepsLeft) state' rfl
        exact ⟨final, .head step steps, returned⟩
  obtain ⟨final, steps, results, returned⟩ := ends (tier.map fun sc => (sc, .waiting))
  have run : TierRun exec n workers tier results := ⟨final, steps, returned⟩
  rwa [← run.eq]

end RunTier

/-! ### The campaign -/

/-- By priority, and by id within a priority. -/
def Scenario.Before (a b : Scenario) : Prop :=
  a.priority < b.priority ∨ a.priority = b.priority ∧ a.id ≤ b.id

instance decidableBefore : DecidableRel Scenario.Before :=
  fun a b => inferInstanceAs (Decidable (a.priority < b.priority ∨ a.priority = b.priority ∧ a.id ≤ b.id))

def resolveDependencies (queue : List Scenario) : List Scenario :=
  queue.insertionSort Scenario.Before

/-- The loop of `groupByPriority` with the finished tiers, the current one and its priority. -/
def groupLoop : List Scenario → (tiers : List (List Scenario)) → (cur : List Scenario) → (prev : Int) →
    List (List Scenario)
  | [], tiers, cur, _ => if 0 < cur.length then tiers ++ [cur] else tiers
  | sc :: rest, tiers, cur, prev =>
    if sc.priority ≠ prev then groupLoop rest (tiers ++ [cur]) [sc] sc.priority
    else groupLoop rest tiers (cur ++ [sc]) prev

def groupByPriority : List Scenario → List (List Scenario)
  | [] => []
  | sc :: rest => groupLoop (sc :: rest) [] [] sc.priority

structure Summary where
  totalScenarios : Nat
  passedCount : Nat
  failedCount : Nat
  blockedCount : Nat
  deriving DecidableEq, Repr

structure CampaignResult where
  passed : Bool
  summary : Summary
  details : List ScenarioResult
  deriving DecidableEq, Repr

/-- One round of the loop of `CompileResult`. A status other than the four changes nothing. -/
def CampaignResult.count (res : CampaignResult) (s : ScenarioResult) : CampaignResult :=
  let res := { res with summary.totalScenarios := res.summary.totalScenarios + 1 }
  match s.status with
  | .pass => { res with summary.passedCount := res.summary.passedCount + 1 }
  | .fail => { res with summary.failedCount := res.summary.failedCount + 1, passed := false }
  | .blocked => { res with summary.blockedCount := res.summary.blockedCount + 1, passed := false }
  | .inconclusive => { res with passed := false }
  | .other _ => res

def compileResult (scenarios : List ScenarioResult) : CampaignResult :=
  scenarios.foldl CampaignResult.count ⟨true, ⟨0, 0, 0, 0⟩, scenarios⟩

/-- `Execute` between two tiers: the gate, the tracker's results, and the scenarios that
have been run. -/
structure Campaign where
  gateOpen : Bool
  scenarios : List ScenarioResult
  ran : List Scenario

namespace Campaign

def start : Campaign := ⟨true, [], []⟩

def blockTier (c : Campaign) (tier : List Scenario) : Campaign :=
  { c with scenarios := c.scenarios ++
      tier.map fun sc => blockedResult sc "priority gate closed by prior failure" }

/-- A tier that is run, with what `runTier` returned. -/
def addTier (c : Campaign) (tier : List Scenario) (results : List ScenarioResult) : Campaign where
  gateOpen := results.all fun r => decide (r.status = .pass)
  scenarios := c.scenarios ++ results
  ran := c.ran ++ tier

def tiers (runTier : List Scenario → List ScenarioResult) : List (List Scenario) → Campaign → Campaign
  | [], c => c
  | tier :: rest, c =>
    if c.gateOpen then tiers runTier rest (c.addTier tier (runTier tier))
    else tiers runTier rest (c.blockTier tier)

/-- `Execute` up to the end of the loop. -/
def execute (runTier : List Scenario → List ScenarioResult) (queue : List Scenario) : Campaign :=
  start.tiers runTier (groupByPriority (resolveDependencies queue))

end Campaign

/-- The scheduler's configuration and the scenarios it was given. `Submit` lets no id in
twice. -/
structure CampaignScheduler where
  pendingQueue : List Scenario
  distinct : (pendingQueue.map Scenario.id).Nodup
  workersCount : Int64
  maxRetries : Int64

namespace CampaignScheduler

def new (workersCount : Int64) : CampaignScheduler := ⟨[], List.nodup_nil, workersCount, 0⟩

/-- `SetMaxRetries`. -/
def setMaxRetries (s : CampaignScheduler) (n : Int64) : CampaignScheduler :=
  { s with maxRetries := if n < 0 then 0 else n }

inductive SubmitError where
  | alreadySubmitted (id : Bytes)
  deriving DecidableEq, Repr

def submit (s : CampaignScheduler) (sc : Scenario) : Except SubmitError CampaignScheduler :=
  if known : sc.id ∈ s.pendingQueue.map Scenario.id then .error (.alreadySubmitted sc.id)
  else .ok
    { s with
      pendingQueue := s.pendingQueue ++ [sc]
      distinct := List.nodup_map_concat _ _ sc s.distinct known }

/-- `workers`, at least 1. -/
def workers (s : CampaignScheduler) : Nat :=
  if s.workersCount < 1 then 1 else s.workersCount.toInt.toNat

end CampaignScheduler

theorem CampaignScheduler.workers_pos (s : CampaignScheduler) : 0 < s.workers := by
  rw [workers]
  split
  next => exact Nat.one_pos
  next many =>
    rw [Int64.lt_iff_toInt_lt] at many
    have one : (1 : Int64).toInt = 1 := rfl
    omega

/-! ### Tiers -/

/-- Tiers of one priority each, in ascending order. -/
structure Tiered (tiers : List (List Scenario)) : Prop where
  same : ∀ tier ∈ tiers, ∀ s ∈ tier, ∀ t ∈ tier, s.priority = t.priority
  ascending : tiers.Pairwise fun tier tier' => ∀ s ∈ tier, ∀ t ∈ tier', s.priority < t.priority

theorem Tiered.concat {tiers : List (List Scenario)} (tiered : Tiered tiers) (cur : List Scenario)
    (prev : Int) (current : ∀ s ∈ cur, s.priority = prev)
    (below : ∀ tier ∈ tiers, ∀ s ∈ tier, s.priority < prev) : Tiered (tiers ++ [cur]) where
  same := by
    intro tier member s inS t inT
    rcases List.mem_append.mp member with old | new
    · exact tiered.same tier old s inS t inT
    · rw [List.mem_singleton.mp new] at inS inT
      rw [current s inS, current t inT]
  ascending := by
    rw [List.pairwise_append]
    refine ⟨tiered.ascending, List.pairwise_singleton _ _, fun tier old tier' new s inS t inT => ?_⟩
    rw [List.mem_singleton.mp new] at inT
    rw [current t inT]
    exact below tier old s inS

theorem groupLoop_spec (rest : List Scenario) (tiers : List (List Scenario)) (cur : List Scenario)
    (prev : Int) (sorted : (rest.map Scenario.priority).Pairwise (· ≤ ·))
    (above : ∀ s ∈ rest, prev ≤ s.priority) (tiered : Tiered tiers)
    (current : ∀ s ∈ cur, s.priority = prev) (below : ∀ tier ∈ tiers, ∀ s ∈ tier, s.priority < prev) :
    Tiered (groupLoop rest tiers cur prev) ∧
      (groupLoop rest tiers cur prev).flatten = tiers.flatten ++ cur ++ rest := by
  induction rest generalizing tiers cur prev with
  | nil =>
    rw [groupLoop]
    split
    next => exact ⟨tiered.concat cur prev current below, by simp⟩
    next empty =>
      have none_ : cur = [] := List.eq_nil_of_length_eq_zero (by omega)
      exact ⟨tiered, by simp [none_]⟩
  | cons sc rest ih =>
    obtain ⟨first, sorted⟩ := List.pairwise_cons.mp sorted
    have behind : ∀ s ∈ rest, sc.priority ≤ s.priority :=
      fun s member => first _ (List.mem_map_of_mem member)
    have atLeast := above sc List.mem_cons_self
    rw [groupLoop]
    split
    next other =>
      -- the current tier is finished, and lies below the priority of the new one
      have higher : prev < sc.priority := lt_of_le_of_ne atLeast (Ne.symm other)
      have finished : ∀ tier ∈ tiers ++ [cur], ∀ s ∈ tier, s.priority < sc.priority := by
        intro tier member s inS
        rcases List.mem_append.mp member with old | new
        · exact (below tier old s inS).trans higher
        · rw [List.mem_singleton.mp new] at inS
          rwa [current s inS]
      obtain ⟨done, flat⟩ := ih (tiers ++ [cur]) [sc] sc.priority sorted behind
        (tiered.concat cur prev current below) (by simp) finished
      exact ⟨done, by simpa using flat⟩
    next same =>
      -- the scenario joins the current tier
      have same := not_not.mp same
      obtain ⟨done, flat⟩ := ih tiers (cur ++ [sc]) prev sorted (same ▸ behind) tiered
        (by simpa [same, or_imp, forall_and] using current) below
      exact ⟨done, by simpa using flat⟩

theorem resolveDependencies_perm (queue : List Scenario) : (resolveDependencies queue).Perm queue :=
  List.perm_insertionSort _ _

instance totalBefore : Std.Total Scenario.Before where
  total a b := by
    rcases lt_trichotomy a.priority b.priority with lower | same | higher
    · exact .inl (.inl lower)
    · rcases le_total a.id b.id with le | ge
      · exact .inl (.inr ⟨same, le⟩)
      · exact .inr (.inr ⟨same.symm, ge⟩)
    · exact .inr (.inl higher)

instance transBefore : IsTrans Scenario Scenario.Before where
  trans a b c := by
    rintro (lower | ⟨same, le⟩) (lower' | ⟨same', le'⟩)
    · exact .inl (lower.trans lower')
    · exact .inl (same' ▸ lower)
    · exact .inl (same ▸ lower')
    · exact .inr ⟨same.trans same', le.trans le'⟩

theorem resolveDependencies_sorted (queue : List Scenario) :
    ((resolveDependencies queue).map Scenario.priority).Pairwise (· ≤ ·) := by
  rw [List.pairwise_map]
  refine (List.pairwise_insertionSort Scenario.Before queue).imp fun before => ?_
  rcases before with lower | ⟨same, -⟩
  · exact lower.le
  · exact same.le

theorem groupByPriority_spec (queue : List Scenario) :
    Tiered (groupByPriority (resolveDependencies queue)) ∧
      (groupByPriority (resolveDependencies queue)).flatten = resolveDependencies queue := by
  have sorted := resolveDependencies_sorted queue
  generalize resolveDependencies queue = order at sorted ⊢
  cases order with
  | nil => exact ⟨⟨by simp [groupByPriority], by simp [groupByPriority]⟩, rfl⟩
  | cons sc rest =>
    obtain ⟨first, -⟩ := List.pairwise_cons.mp sorted
    have spec := groupLoop_spec (sc :: rest) [] [] sc.priority sorted
      (by simpa using fun s member => first _ (List.mem_map_of_mem member))
      ⟨by simp, .nil⟩ (by simp) (by simp)
    simpa [groupByPriority] using spec

/-! ### The summary -/

/-- The statuses that make `CompileResult` say that the campaign did not pass. -/
def Status.Fails (s : Status) : Prop := s = .fail ∨ s = .blocked ∨ s = .inconclusive

theorem count_details (res : CampaignResult) (s : ScenarioResult) : (res.count s).details = res.details := by
  simp only [CampaignResult.count]
  cases s.status <;> rfl

theorem count_passed (res : CampaignResult) (s : ScenarioResult) :
    (res.count s).passed = true ↔ res.passed = true ∧ ¬s.status.Fails := by
  simp only [CampaignResult.count, Status.Fails]
  cases s.status <;> simp

theorem foldl_count (l : List ScenarioResult) (res : CampaignResult) :
    (l.foldl CampaignResult.count res).details = res.details ∧
      ((l.foldl CampaignResult.count res).passed = true ↔
        res.passed = true ∧ ∀ s ∈ l, ¬s.status.Fails) := by
  induction l generalizing res with
  | nil => simp
  | cons s l ih =>
    obtain ⟨details, passed⟩ := ih (res.count s)
    rw [List.foldl_cons, List.forall_mem_cons, ← and_assoc, ← count_passed]
    exact ⟨details.trans (count_details res s), passed⟩

theorem compileResult_details (l : List ScenarioResult) : (compileResult l).details = l :=
  (foldl_count l _).1

theorem compileResult_passed (l : List ScenarioResult) :
    (compileResult l).passed = true ↔ ∀ s ∈ l, ¬s.status.Fails := by
  rw [compileResult, (foldl_count l _).2]
  simp

/-! ### The gate -/

section Gate

variable (exec : Executor) (n : Nat) (queue : List Scenario)

/-- The scenario, when it is run, is reported as passing. -/
def Reported (sc : Scenario) : Prop := (runOne exec sc n).status = .pass

/-- The gate is open for the scenario. -/
def GateOpen (sc : Scenario) : Prop := ∀ t ∈ queue, t.priority < sc.priority → Reported exec n t

instance decidableGateOpen (sc : Scenario) : Decidable (GateOpen exec n queue sc) :=
  inferInstanceAs (Decidable (∀ t ∈ queue, t.priority < sc.priority → (runOne exec t n).status = .pass))

/-- What is reported for the scenario. -/
def reported (sc : Scenario) : ScenarioResult :=
  if GateOpen exec n queue sc then runOne exec sc n
  else blockedResult sc "priority gate closed by prior failure"

/-- The campaign after the tiers with the scenarios `done`. -/
structure Campaign.After (done : List Scenario) (c : Campaign) : Prop where
  gate : c.gateOpen = true ↔ ∀ sc ∈ done, Reported exec n sc
  scenarios : c.scenarios = done.map (reported exec n queue)
  ran : c.ran = done.filter fun sc => decide (GateOpen exec n queue sc)

namespace Campaign.After

variable {exec n queue} {done : List Scenario} {c : Campaign}
  (after : After exec n queue done c) (tier : List Scenario)
  (gated : ∀ sc ∈ tier, GateOpen exec n queue sc ↔ ∀ t ∈ done, Reported exec n t)

include after gated

theorem addTier (isOpen : c.gateOpen = true) :
    After exec n queue (done ++ tier) (c.addTier tier (tier.map fun sc => runOne exec sc n)) := by
  have cleared := after.gate.mp isOpen
  have allOpen : ∀ sc ∈ tier, GateOpen exec n queue sc := fun sc inTier => (gated sc inTier).mpr cleared
  constructor
  · rw [List.forall_mem_append]
    simp only [Campaign.addTier, List.all_map, List.all_eq_true, Function.comp_apply, decide_eq_true_eq]
    exact ⟨fun tierPassed => ⟨cleared, tierPassed⟩, fun both => both.2⟩
  · rw [List.map_append, ← after.scenarios]
    simp only [Campaign.addTier, List.append_cancel_left_eq]
    exact List.map_congr_left fun sc inTier => (if_pos (allOpen sc inTier)).symm
  · rw [List.filter_append, ← after.ran, List.filter_eq_self.mpr (by simpa using allOpen)]
    rfl

theorem blockTier (closed : ¬c.gateOpen = true) : After exec n queue (done ++ tier) (c.blockTier tier) := by
  have uncleared := mt after.gate.mpr closed
  have noneOpen : ∀ sc ∈ tier, ¬GateOpen exec n queue sc :=
    fun sc inTier => mt (gated sc inTier).mp uncleared
  constructor
  · rw [List.forall_mem_append]
    exact iff_of_false closed fun both => uncleared both.1
  · rw [List.map_append, ← after.scenarios]
    simp only [Campaign.blockTier, List.append_cancel_left_eq]
    exact List.map_congr_left fun sc inTier => (if_neg (noneOpen sc inTier)).symm
  · rw [List.filter_append, ← after.ran, List.filter_eq_nil_iff.mpr (by simpa using noneOpen),
      List.append_nil]
    rfl

end Campaign.After

/-- For the scenarios of the next tier the gate is open if all those before were reported
as passing. -/
theorem gateOpen_iff (done tier later : List Scenario)
    (split : ∀ sc, sc ∈ queue ↔ sc ∈ done ∨ sc ∈ tier ∨ sc ∈ later)
    (same : ∀ s ∈ tier, ∀ t ∈ tier, s.priority = t.priority)
    (below : ∀ s ∈ done, ∀ t ∈ tier, s.priority < t.priority)
    (above : ∀ s ∈ tier, ∀ t ∈ later, s.priority < t.priority) (sc : Scenario) (inTier : sc ∈ tier) :
    GateOpen exec n queue sc ↔ ∀ t ∈ done, Reported exec n t := by
  constructor
  · exact fun isOpen t inDone => isOpen t ((split t).mpr (.inl inDone)) (below t inDone sc inTier)
  · intro passed t inQueue lower
    -- a smaller priority number is found in the tiers before only
    rcases (split t).mp inQueue with inDone | inTier' | inLater
    · exact passed t inDone
    · exact absurd (same t inTier' sc inTier) lower.ne
    · exact absurd (above sc inTier t inLater) lower.not_gt

theorem tiers_after (runTier : List Scenario → List ScenarioResult)
    (results : ∀ tier, runTier tier = tier.map fun sc => runOne exec sc n)
    (rest : List (List Scenario)) (tiered : Tiered rest) (done : List Scenario) (c : Campaign)
    (after : Campaign.After exec n queue done c)
    (split : ∀ sc, sc ∈ queue ↔ sc ∈ done ∨ sc ∈ rest.flatten)
    (below : ∀ s ∈ done, ∀ t ∈ rest.flatten, s.priority < t.priority) :
    Campaign.After exec n queue (done ++ rest.flatten) (c.tiers runTier rest) := by
  induction rest generalizing done c with
  | nil => simpa [Campaign.tiers] using after
  | cons tier rest ih =>
    obtain ⟨first, ascending⟩ := List.pairwise_cons.mp tiered.ascending
    have tiered' : Tiered rest :=
      ⟨fun t member => tiered.same t (List.mem_cons_of_mem _ member), ascending⟩
    have above : ∀ s ∈ tier, ∀ t ∈ rest.flatten, s.priority < t.priority := by
      intro s inTier t inRest
      obtain ⟨tier', member, inTier'⟩ := List.mem_flatten.mp inRest
      exact first tier' member s inTier t inTier'
    simp only [List.flatten_cons, List.mem_append] at split below
    have gated := gateOpen_iff exec n queue done tier rest.flatten split
      (tiered.same tier List.mem_cons_self) (fun s inDone t inTier => below s inDone t (.inl inTier)) above
    have split' (sc : Scenario) : sc ∈ queue ↔ sc ∈ done ++ tier ∨ sc ∈ rest.flatten := by
      rw [split, List.mem_append, or_assoc]
    have below' : ∀ s ∈ done ++ tier, ∀ t ∈ rest.flatten, s.priority < t.priority := by
      intro s member t inRest
      rcases List.mem_append.mp member with inDone | inTier
      · exact below s inDone t (.inr inRest)
      · exact above s inTier t inRest
    rw [List.flatten_cons, ← List.append_assoc, Campaign.tiers]
    split
    next isOpen =>
      rw [results tier]
      exact ih tiered' _ _ (after.addTier tier gated isOpen) split' below'
    next closed => exact ih tiered' _ _ (after.blockTier tier gated closed) split' below'

theorem execute_after (runTier : List Scenario → List ScenarioResult)
    (results : ∀ tier, runTier tier = tier.map fun sc => runOne exec sc n) :
    Campaign.After exec n queue (resolveDependencies queue) (Campaign.execute runTier queue) := by
  obtain ⟨tiered, flat⟩ := groupByPriority_spec queue
  have after := tiers_after exec n queue runTier results _ tiered [] .start
    ⟨by simp [Campaign.start], rfl, rfl⟩
    (by simp [flat, (resolveDependencies_perm queue).mem_iff]) (by simp)
  simpa [flat, Campaign.execute] using after

end Gate

/-! ### The verdict -/

section CampaignVerdict

variable (exec : Executor) (n : Nat) (queue : List Scenario)

/-- Every scenario has one result, its own; a scenario runs only after all of smaller
priority numbers had a passing attempt, and the campaign passes exactly if all had one. -/
structure CampaignVerdict (c : Campaign) : Prop where
  one : ∃ order : List Scenario, order.Perm queue ∧
    (compileResult c.scenarios).details = order.map (fun sc =>
      if sc ∈ c.ran then runOne exec sc n
      else blockedResult sc "priority gate closed by prior failure") ∧
    ((∀ sc ∈ queue, ∀ k, (exec sc k).1.scenarioID = sc.id) →
      (compileResult c.scenarios).details.map ScenarioResult.scenarioID = order.map Scenario.id)
  gate : ∀ sc ∈ c.ran, ∀ t ∈ queue, t.priority < sc.priority → t ∈ c.ran ∧ Cleared exec t n
  verdict : (compileResult c.scenarios).passed = true ↔
    ∀ sc ∈ queue, sc ∈ c.ran ∧ Cleared exec sc n

/-- The last attempt of the executor at a scenario shows that none has passed: it names no
scenario, or returns a status that `CompileResult` counts as a failure, or, if a scenario is
left to be blocked, any status other than `PASS`. -/
def LastShows (sc : Scenario) : Prop :=
  (exec sc (n - 1)).1.scenarioID = [] ∨ (exec sc (n - 1)).1.status.Fails ∨
    (exec sc (n - 1)).1.status ≠ .pass ∧ ∃ t ∈ queue, sc.priority < t.priority

/-- The first priority with a scenario that had no passing attempt shows it, in one of these
scenarios. -/
def FailureShows : Prop :=
  ∀ p, (∃ sc ∈ queue, sc.priority = p ∧ ¬Cleared exec sc n) →
    (∀ sc ∈ queue, sc.priority < p → Cleared exec sc n) →
    ∃ sc ∈ queue, sc.priority = p ∧ ¬Cleared exec sc n ∧ LastShows exec n queue sc

/-- What shows in the last attempt shows in the result. -/
theorem lastShows_iff (positive : 0 < n) (sc : Scenario) :
    ¬Cleared exec sc n ∧ LastShows exec n queue sc ↔
      (runOne exec sc n).status.Fails ∨
        (runOne exec sc n).status ≠ .pass ∧ ∃ t ∈ queue, sc.priority < t.priority := by
  by_cases cleared : Cleared exec sc n
  · simp [cleared, runOne_cleared exec sc n cleared, Status.Fails]
  · rw [runOne_uncleared exec sc n positive cleared, LastShows]
    by_cases unnamed : (exec sc (n - 1)).1.scenarioID = []
    · simp [cleared, unnamed, Status.Fails]
    · simp [cleared, unnamed]

/-- Of some scenarios of the queue, one has the smallest priority number. -/
theorem exists_lowest (P : Scenario → Prop) (sc : Scenario) (inQueue : sc ∈ queue) (holds : P sc) :
    ∃ low ∈ queue, P low ∧ ∀ t ∈ queue, P t → low.priority ≤ t.priority := by
  classical
  obtain ⟨low, isLow, least⟩ := (queue.toFinset.filter P).exists_min_image Scenario.priority
    ⟨sc, by simp [inQueue, holds]⟩
  simp only [Finset.mem_filter, List.mem_toFinset] at isLow least
  exact ⟨low, isLow.1, isLow.2, fun t inT isT => least t ⟨inT, isT⟩⟩

theorem Cleared.reported {exec n} {sc : Scenario} (cleared : Cleared exec sc n) : Reported exec n sc :=
  runOne_cleared exec sc n cleared

theorem Reported.not_fails {exec n} {sc : Scenario} (pass : Reported exec n sc) :
    ¬(runOne exec sc n).status.Fails := by
  rw [Reported] at pass
  simp [Status.Fails, pass]

variable {exec n queue} {c : Campaign}

/-- Below every scenario without a passing attempt, or beside it, a result shows it. -/
theorem FailureShows.result (positive : 0 < n) (shows : FailureShows exec n queue) (t : Scenario)
    (inT : t ∈ queue) (uncleared : ¬Cleared exec t n) :
    ∃ shown ∈ queue, shown.priority ≤ t.priority ∧
      ((runOne exec shown n).status.Fails ∨
        ¬Reported exec n shown ∧ ∃ u ∈ queue, shown.priority < u.priority) := by
  obtain ⟨low, inLow, isUncleared, least⟩ :=
    exists_lowest queue (fun t => ¬Cleared exec t n) t inT uncleared
  obtain ⟨shown, inShown, same, failed⟩ := shows low.priority ⟨low, inLow, rfl, isUncleared⟩
    fun u inU lower => by_contra fun unclearedU => absurd lower (least u inU unclearedU).not_gt
  exact ⟨shown, inShown, same ▸ least t inT uncleared,
    (lastShows_iff exec n queue positive shown).mp failed⟩

/-- What a finished campaign is, in terms of the gate. -/
structure Ends (exec : Executor) (n : Nat) (queue : List Scenario) (c : Campaign) : Prop where
  ran : ∀ sc, sc ∈ c.ran ↔ sc ∈ queue ∧ GateOpen exec n queue sc
  scenarios : c.scenarios = (resolveDependencies queue).map (reported exec n queue)

theorem Campaign.After.ends (after : Campaign.After exec n queue (resolveDependencies queue) c) :
    Ends exec n queue c where
  ran := by
    intro sc
    rw [after.ran, List.mem_filter, (resolveDependencies_perm queue).mem_iff, decide_eq_true_eq]
  scenarios := after.scenarios

variable (ends : Ends exec n queue c)

include ends

theorem Ends.one : ∃ order : List Scenario, order.Perm queue ∧
    (compileResult c.scenarios).details = order.map (fun sc =>
      if sc ∈ c.ran then runOne exec sc n
      else blockedResult sc "priority gate closed by prior failure") ∧
    ((∀ sc ∈ queue, ∀ k, (exec sc k).1.scenarioID = sc.id) →
      (compileResult c.scenarios).details.map ScenarioResult.scenarioID = order.map Scenario.id) := by
  have inQueue (sc : Scenario) (member : sc ∈ resolveDependencies queue) : sc ∈ queue :=
    (resolveDependencies_perm queue).subset member
  refine ⟨resolveDependencies queue, resolveDependencies_perm queue, ?_, fun own => ?_⟩
  · rw [compileResult_details, ends.scenarios]
    refine List.map_congr_left fun sc member => ?_
    simp only [reported, ends.ran, inQueue sc member, true_and]
  · rw [compileResult_details, ends.scenarios, List.map_map]
    refine List.map_congr_left fun sc member => ?_
    rw [Function.comp_apply, reported]
    split
    next => exact runOne_scenarioID exec sc (own sc (inQueue sc member)) n
    next => rfl

/-- The campaign passes if all scenarios ran and none of them is counted as a failure. -/
theorem Ends.passed_iff : (compileResult c.scenarios).passed = true ↔
    ∀ sc ∈ queue, GateOpen exec n queue sc ∧ ¬(runOne exec sc n).status.Fails := by
  rw [compileResult_passed, ends.scenarios, List.forall_mem_map]
  have each (sc : Scenario) : ¬(reported exec n queue sc).status.Fails ↔
      GateOpen exec n queue sc ∧ ¬(runOne exec sc n).status.Fails := by
    rw [reported]
    split
    next isOpen => simp [isOpen]
    next closed => simp [closed, blockedResult, Status.Fails]
  simp only [each, (resolveDependencies_perm queue).mem_iff]

theorem Ends.gate_iff :
    (∀ sc ∈ c.ran, ∀ t ∈ queue, t.priority < sc.priority → t ∈ c.ran ∧ Cleared exec t n) ↔
      ∀ sc ∈ queue, GateOpen exec n queue sc → ∀ t ∈ queue, t.priority < sc.priority → Cleared exec t n := by
  constructor
  · exact fun gate sc inQueue isOpen t inT lower =>
      (gate sc ((ends.ran sc).mpr ⟨inQueue, isOpen⟩) t inT lower).2
  · intro gate sc ran t inT lower
    obtain ⟨inQueue, isOpen⟩ := (ends.ran sc).mp ran
    -- what lies below `t` lies below `sc`
    have tOpen : GateOpen exec n queue t := fun u inU lowerU => isOpen u inU (lowerU.trans lower)
    exact ⟨(ends.ran t).mpr ⟨inT, tOpen⟩, gate sc inQueue isOpen t inT lower⟩

/-- If nothing showed at the first priority without a passing attempt, the next one would be
run, or the campaign would pass. -/
theorem Ends.shows_of_verdict (positive : 0 < n) (intended : CampaignVerdict exec n queue c) :
    FailureShows exec n queue := by
  rintro p ⟨sc, inQueue, rfl, uncleared⟩ belowCleared
  have gate := ends.gate_iff.mp intended.gate
  have verdict := intended.verdict
  rw [ends.passed_iff] at verdict
  by_contra hidden
  simp only [lastShows_iff exec n queue positive] at hidden
  push Not at hidden
  by_cases last : ∃ t ∈ queue, sc.priority < t.priority
  · -- the next priority is run, although `sc` had no passing attempt
    obtain ⟨t, inT, higher⟩ := last
    obtain ⟨next, inNext, isHigher, least⟩ :=
      exists_lowest queue (fun t => sc.priority < t.priority) t inT higher
    refine uncleared (gate next inNext (fun u inU lower => ?_) sc inQueue isHigher)
    rcases lt_trichotomy u.priority sc.priority with below | same | above
    · exact (belowCleared u inU below).reported
    · by_contra unreported
      exact absurd (same ▸ higher) ((hidden u inU same).2 unreported t inT).not_gt
    · exact absurd lower (least u inU above).not_gt
  · -- all is run and nothing counted as a failure
    push Not at last
    refine uncleared (verdict.mp (fun u inU => ⟨fun v inV lower => ?_, ?_⟩) sc inQueue).2
    · exact (belowCleared v inV (lower.trans_le (last u inU))).reported
    · rcases (last u inU).lt_or_eq with below | same
      · exact (belowCleared u inU below).reported.not_fails
      · exact (hidden u inU same).1

/-- What shows closes the gate behind it, and fails the campaign. -/
theorem Ends.verdict_of_shows (positive : 0 < n) (shows : FailureShows exec n queue) :
    CampaignVerdict exec n queue c := by
  refine ⟨ends.one, ends.gate_iff.mpr fun sc inQueue isOpen t inT lower => ?_, ?_⟩
  · by_contra uncleared
    obtain ⟨shown, inShown, notAbove, failed⟩ := shows.result positive t inT uncleared
    have pass := isOpen shown inShown (notAbove.trans_lt lower)
    rcases failed with fails | ⟨other, -⟩
    · exact pass.not_fails fails
    · exact other pass
  · rw [ends.passed_iff]
    constructor
    · intro passed sc inQueue
      refine ⟨(ends.ran sc).mpr ⟨inQueue, (passed sc inQueue).1⟩, by_contra fun uncleared => ?_⟩
      obtain ⟨shown, inShown, -, failed⟩ := shows.result positive sc inQueue uncleared
      rcases failed with fails | ⟨other, u, inU, higher⟩
      · exact (passed shown inShown).2 fails
      · exact other ((passed u inU).1 shown inShown higher)
    · intro all sc inQueue
      obtain ⟨ran, cleared⟩ := all sc inQueue
      exact ⟨((ends.ran sc).mp ran).2, cleared.reported.not_fails⟩

end CampaignVerdict

/-- For every scheduler, executor and interleaving of the workers, the gate and the verdict
go by passing attempts if and only if the first priority that lacks one shows it. -/
theorem campaignVerdict_iff_failure_shows (s : CampaignScheduler) (exec : Executor)
    (runTier : List Scenario → List ScenarioResult)
    (scheduled : ∀ tier, TierRun exec (attempts s.maxRetries) s.workers tier (runTier tier)) :
    CampaignVerdict exec (attempts s.maxRetries) s.pendingQueue
        (Campaign.execute runTier s.pendingQueue) ↔
      FailureShows exec (attempts s.maxRetries) s.pendingQueue := by
  have ends := (execute_after exec (attempts s.maxRetries) s.pendingQueue runTier
    fun tier => (scheduled tier).eq).ends
  have positive := attempts_pos s.maxRetries
  exact ⟨ends.shows_of_verdict positive, ends.verdict_of_shows positive⟩

/-- Two scenarios of priorities 1 and 2, two workers and one retry. -/
def twoPriorities : CampaignScheduler :=
  ⟨[⟨[97], 1⟩, ⟨[98], 2⟩], by decide, 2, 1⟩

/-- Every attempt at the scenario of priority 1 returns this status and error, every other
one passes. -/
def firstReturns (status : Status) (err : Option String) : Executor := fun sc _ =>
  if sc.priority = 1 then (⟨sc.id, status, 0, ""⟩, err) else (⟨sc.id, .pass, 0, ""⟩, none)

/-- A failure of the first scenario blocks the second. -/
theorem campaignVerdict_first_fails :
    CampaignVerdict (firstReturns .fail (some "verify")) 2 twoPriorities.pendingQueue
      (Campaign.execute (List.map fun sc => runOne (firstReturns .fail (some "verify")) sc 2)
        twoPriorities.pendingQueue) := by
  refine (campaignVerdict_iff_failure_shows twoPriorities (firstReturns .fail (some "verify")) _
    (exists_tierRun _ 2 _ twoPriorities.workers_pos)).mpr ?_
  rintro p ⟨sc, inQueue, rfl, uncleared⟩ -
  rcases List.mem_pair.mp inQueue with rfl | rfl
  · exact ⟨_, inQueue, rfl, uncleared, .inr (.inl (.inl rfl))⟩
  · exact absurd ⟨0, by decide, by decide⟩ uncleared

/-- `PASS` with an error on every attempt: the scenario of the next priority is run, and the
campaign passes. -/
theorem not_campaignVerdict_pass_with_error :
    (∀ tier, TierRun (firstReturns .pass (some "cleanup")) 2 twoPriorities.workers tier
        (tier.map fun sc => runOne (firstReturns .pass (some "cleanup")) sc 2)) ∧
      (∀ attempt, ¬Passes (firstReturns .pass (some "cleanup")) ⟨[97], 1⟩ attempt) ∧
      (Campaign.execute (List.map fun sc => runOne (firstReturns .pass (some "cleanup")) sc 2)
        twoPriorities.pendingQueue).ran = twoPriorities.pendingQueue ∧
      (compileResult (Campaign.execute
        (List.map fun sc => runOne (firstReturns .pass (some "cleanup")) sc 2)
        twoPriorities.pendingQueue).scenarios).passed = true ∧
      ¬CampaignVerdict (firstReturns .pass (some "cleanup")) 2 twoPriorities.pendingQueue
        (Campaign.execute (List.map fun sc => runOne (firstReturns .pass (some "cleanup")) sc 2)
          twoPriorities.pendingQueue) := by
  have never : ∀ attempt, ¬Passes (firstReturns .pass (some "cleanup")) ⟨[97], 1⟩ attempt := by
    simp [Passes, firstReturns]
  have ran : (Campaign.execute (List.map fun sc => runOne (firstReturns .pass (some "cleanup")) sc 2)
      twoPriorities.pendingQueue).ran = twoPriorities.pendingQueue := by decide +kernel
  refine ⟨exists_tierRun _ 2 _ twoPriorities.workers_pos, never, ran, by decide +kernel,
    fun verdict => ?_⟩
  obtain ⟨-, attempt, -, passes⟩ :=
    verdict.gate ⟨[98], 2⟩ (by rw [ran]; decide) ⟨[97], 1⟩ (by decide) (by decide)
  exact never attempt passes

end PebbleDB.Acceptance
