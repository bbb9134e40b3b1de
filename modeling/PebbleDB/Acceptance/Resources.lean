import Mathlib.Algebra.BigOperators.Group.List.Basic
import Mathlib.Algebra.Order.BigOperators.Group.List
import Mathlib.Algebra.Order.Group.Int
import Mathlib.Algebra.Ring.Int.Defs
import PebbleDB.Lib.Machine

/-!
# The resource budget of the acceptance framework

`Reserve` grants a request when no counter plus its part of the request is above the
maximum, and `Release` takes a grant back once, however often it is called.

## Main result

`budgetKept_of_safe`: in every sequence of calls in which no granted request makes a
counter wrap, each counter is the exact sum over the grants that were not released, lies
between zero and its maximum, and no release reports an underflow.

The condition is needed. The counters are 64-bit integers, and the admission test adds
before it compares, so a request close to the largest integer wraps below every maximum
and is granted as soon as anything is allocated.
-/
namespace PebbleDB.Acceptance

/-! ### The model -/

/-- The three resources that are counted. -/
inductive Resource where
  | cpus
  | memoryMB
  | fileDescriptors
  deriving DecidableEq, Repr

structure ResourceRequest where
  cpus : Int64
  memoryMB : Int64
  fileDescriptor : Int64
  deriving DecidableEq, Repr

def ResourceRequest.amount (req : ResourceRequest) : Resource → Int64
  | .cpus => req.cpus
  | .memoryMB => req.memoryMB
  | .fileDescriptors => req.fileDescriptor

structure Reservation where
  id : UInt64
  request : ResourceRequest
  released : Bool
  deriving DecidableEq, Repr

structure ResourceManager where
  maxCPUs : Int64
  maxMemoryMB : Int64
  maxFDs : Int64
  allocatedCPUs : Int64
  allocatedMemoryMB : Int64
  allocatedFDs : Int64
  nextID : UInt64
  deriving DecidableEq, Repr

inductive ResourceError where
  /-- "resource request fields must be non-negative" -/
  | negativeRequest
  /-- "nil reservation" -/
  | nilReservation
  /-- "resource accounting underflow" -/
  | underflow
  deriving DecidableEq, Repr

/-- How a call of `Reserve` ends, or that it waits for a release (and can be cancelled). -/
inductive ReserveResult where
  | refused (e : ResourceError)
  | waits
  | granted (rm : ResourceManager) (res : Reservation)

namespace ResourceManager

def new (maxCPUs maxMemoryMB maxFDs : Int64) : ResourceManager :=
  ⟨maxCPUs, maxMemoryMB, maxFDs, 0, 0, 0, 0⟩

def allocated (rm : ResourceManager) : Resource → Int64
  | .cpus => rm.allocatedCPUs
  | .memoryMB => rm.allocatedMemoryMB
  | .fileDescriptors => rm.allocatedFDs

def maximum (rm : ResourceManager) : Resource → Int64
  | .cpus => rm.maxCPUs
  | .memoryMB => rm.maxMemoryMB
  | .fileDescriptors => rm.maxFDs

def canAllocateLocked (rm : ResourceManager) (req : ResourceRequest) : Bool :=
  decide (rm.allocatedCPUs + req.cpus ≤ rm.maxCPUs) &&
    decide (rm.allocatedMemoryMB + req.memoryMB ≤ rm.maxMemoryMB) &&
    decide (rm.allocatedFDs + req.fileDescriptor ≤ rm.maxFDs)

def reserve (rm : ResourceManager) (req : ResourceRequest) : ReserveResult :=
  if req.cpus < 0 ∨ req.memoryMB < 0 ∨ req.fileDescriptor < 0 then .refused .negativeRequest
  else if !rm.canAllocateLocked req then .waits
  else
    let rm := { rm with
      allocatedCPUs := rm.allocatedCPUs + req.cpus
      allocatedMemoryMB := rm.allocatedMemoryMB + req.memoryMB
      allocatedFDs := rm.allocatedFDs + req.fileDescriptor
      nextID := rm.nextID + 1 }
    .granted rm ⟨rm.nextID, req, false⟩

/-- `Release`. The compare-and-swap lets only the first call through; nil stands for a nil
pointer. -/
def release (rm : ResourceManager) : Option Reservation →
    ResourceManager × Option Reservation × Option ResourceError
  | none => (rm, none, some .nilReservation)
  | some res =>
    if res.released then (rm, some res, none)
    else
      let rm := { rm with
        allocatedCPUs := rm.allocatedCPUs - res.request.cpus
        allocatedMemoryMB := rm.allocatedMemoryMB - res.request.memoryMB
        allocatedFDs := rm.allocatedFDs - res.request.fileDescriptor }
      let res := { res with released := true }
      if rm.allocatedCPUs < 0 ∨ rm.allocatedMemoryMB < 0 ∨ rm.allocatedFDs < 0 then
        (rm, some res, some .underflow)
      else (rm, some res, none)

end ResourceManager

/-- The manager, every reservation it has handed out, and whether a release has reported
an underflow. -/
structure Budget where
  manager : ResourceManager
  reservations : List Reservation
  underflow : Bool
  deriving DecidableEq, Repr

/-- A call of `Reserve`, or of `Release` with the `i`-th reservation that was handed out. -/
inductive BudgetCall where
  | reserve (req : ResourceRequest)
  | release (i : Nat)
  deriving DecidableEq, Repr

namespace Budget

def new (maxCPUs maxMemoryMB maxFDs : Int64) : Budget :=
  ⟨.new maxCPUs maxMemoryMB maxFDs, [], false⟩

def step (s : Budget) : BudgetCall → Budget
  | .reserve req =>
    match s.manager.reserve req with
    -- a call that waits has changed nothing yet; its grant is a later call
    | .refused _ | .waits => s
    | .granted rm res => { s with manager := rm, reservations := s.reservations ++ [res] }
  | .release i =>
    match s.manager.release s.reservations[i]? with
    | (_, none, _) => s
    | (rm, some res, err) =>
      ⟨rm, s.reservations.set i res, s.underflow || decide (err = some .underflow)⟩

/-- What a reservation holds of a resource. -/
def held (k : Resource) (res : Reservation) : Int :=
  if res.released then 0 else (res.request.amount k).toInt

/-- The sum over all reservations that are granted and not released. -/
def outstanding (s : Budget) (k : Resource) : Int := (s.reservations.map (held k)).sum

/-- Every counter is exact and within its budget, and no release has found too little. -/
structure Kept (s : Budget) : Prop where
  exact : ∀ k, (s.manager.allocated k).toInt = s.outstanding k
  budget : ∀ k, 0 ≤ s.manager.allocated k ∧ s.manager.allocated k ≤ s.manager.maximum k
  noUnderflow : s.underflow = false

/-- The sums of an admitted request are those of the integers. -/
def Safe (s : Budget) : BudgetCall → Prop
  | .reserve req => s.manager.canAllocateLocked req = true →
      (s.manager.allocatedCPUs.toInt + req.cpus.toInt < 2 ^ 63 ∧
        s.manager.allocatedMemoryMB.toInt + req.memoryMB.toInt < 2 ^ 63 ∧
        s.manager.allocatedFDs.toInt + req.fileDescriptor.toInt < 2 ^ 63)
  | .release _ => True

instance decidableSafe (s : Budget) : (call : BudgetCall) → Decidable (s.Safe call)
  | .reserve _ => inferInstanceAs (Decidable (_ → _))
  | .release _ => .isTrue trivial

end Budget

/-! ### Machine integers -/

theorem toInt_add_of_lt (a b : Int64) (nonnegA : 0 ≤ a.toInt) (nonnegB : 0 ≤ b.toInt)
    (small : a.toInt + b.toInt < 2 ^ 63) : (a + b).toInt = a.toInt + b.toInt := by
  rw [Int64.toInt_add]
  apply Int.bmod_eq_of_le
  · omega
  · omega

theorem toInt_sub_of_le (a b : Int64) (nonneg : 0 ≤ b.toInt) (le : b.toInt ≤ a.toInt) :
    (a - b).toInt = a.toInt - b.toInt := by
  have bound := a.toInt_lt
  rw [Int64.toInt_sub]
  apply Int.bmod_eq_of_le
  · omega
  · omega

theorem nonneg_iff (a : Int64) : 0 ≤ a ↔ 0 ≤ a.toInt := by
  rw [Int64.le_iff_toInt_le, Int64.toInt_zero]

theorem neg_iff (a : Int64) : a < 0 ↔ a.toInt < 0 := by
  rw [Int64.lt_iff_toInt_lt, Int64.toInt_zero]

/-! ### What the calls do -/

namespace ResourceManager

variable (rm : ResourceManager)

/-- A granted request is non-negative, was admitted, and is added to every counter. -/
theorem reserve_granted (req : ResourceRequest) (rm' : ResourceManager) (res : Reservation)
    (granted : rm.reserve req = .granted rm' res) :
    (∀ k, 0 ≤ (req.amount k).toInt) ∧ rm.canAllocateLocked req = true ∧
      (∀ k, rm'.allocated k = rm.allocated k + req.amount k ∧
        rm'.allocated k ≤ rm'.maximum k ∧ rm'.maximum k = rm.maximum k) ∧
      res.request = req ∧ res.released = false := by
  rw [reserve] at granted
  split at granted
  · cases granted
  next nonneg =>
    split at granted
    · cases granted
    next admitted =>
      cases granted
      simp only [neg_iff, not_or, Int.not_lt] at nonneg
      simp only [Bool.not_eq_true, Bool.not_eq_false'] at admitted
      have tests := admitted
      simp only [canAllocateLocked, Bool.and_eq_true, decide_eq_true_eq] at tests
      obtain ⟨⟨cpus, memory⟩, fds⟩ := tests
      refine ⟨?_, admitted, ?_, rfl, rfl⟩
      · rintro (_ | _ | _)
        · exact nonneg.1
        · exact nonneg.2.1
        · exact nonneg.2.2
      · rintro (_ | _ | _)
        · exact ⟨rfl, cpus, rfl⟩
        · exact ⟨rfl, memory, rfl⟩
        · exact ⟨rfl, fds, rfl⟩

/-- A second release changes nothing. -/
theorem release_again (res : Reservation) (again : res.released = true) :
    rm.release (some res) = (rm, some res, none) := by
  rw [release, if_pos again]

/-- The first release of a reservation subtracts it from every counter; it reports an
underflow if one of them is negative then. -/
theorem release_first (res : Reservation) (first : res.released = false) :
    ∃ rm' err, rm.release (some res) = (rm', some { res with released := true }, err) ∧
      (∀ k, rm'.allocated k = rm.allocated k - res.request.amount k ∧
        rm'.maximum k = rm.maximum k) ∧
      ((∀ k, 0 ≤ rm'.allocated k) → err = none) := by
  let rm' : ResourceManager := { rm with
    allocatedCPUs := rm.allocatedCPUs - res.request.cpus
    allocatedMemoryMB := rm.allocatedMemoryMB - res.request.memoryMB
    allocatedFDs := rm.allocatedFDs - res.request.fileDescriptor }
  have counters (k : Resource) : rm'.allocated k = rm.allocated k - res.request.amount k ∧
      rm'.maximum k = rm.maximum k := by
    cases k <;> exact ⟨rfl, rfl⟩
  by_cases negative : rm'.allocatedCPUs < 0 ∨ rm'.allocatedMemoryMB < 0 ∨ rm'.allocatedFDs < 0
  · refine ⟨rm', some .underflow, ?_, counters, fun nonneg => ?_⟩
    · simp only [release, first, Bool.false_eq_true, if_false]
      exact if_pos negative
    · -- one of the three counters is negative
      have cpus : 0 ≤ rm'.allocatedCPUs := nonneg .cpus
      have memory : 0 ≤ rm'.allocatedMemoryMB := nonneg .memoryMB
      have fds : 0 ≤ rm'.allocatedFDs := nonneg .fileDescriptors
      simp only [neg_iff, nonneg_iff] at negative cpus memory fds
      omega
  · refine ⟨rm', none, ?_, counters, fun _ => rfl⟩
    simp only [release, first, Bool.false_eq_true, if_false]
    exact if_neg negative

end ResourceManager

namespace Budget

/-! ### Sums over the reservations -/

theorem outstanding_append (s : Budget) (k : Resource) (rm : ResourceManager) (res : Reservation)
    (fresh : res.released = false) :
    outstanding { s with manager := rm, reservations := s.reservations ++ [res] } k =
      s.outstanding k + (res.request.amount k).toInt := by
  simp [outstanding, held, fresh]

theorem outstanding_set (s : Budget) (k : Resource) (i : Nat) (res next : Reservation)
    (here : s.reservations[i]? = some res) :
    ((s.reservations.set i next).map (held k)).sum = s.outstanding k - held k res + held k next := by
  obtain ⟨inside, is⟩ := List.getElem?_eq_some_iff.mp here
  have inMap : i < (s.reservations.map (held k)).length := by simpa using inside
  rw [List.map_set, List.sum_set', dif_pos inMap, List.getElem_map, is, outstanding]
  omega

/-- With requests that are not negative, no reservation holds more than all together. -/
theorem held_le_outstanding (s : Budget) (k : Resource)
    (nonneg : ∀ res ∈ s.reservations, 0 ≤ (res.request.amount k).toInt) (res : Reservation)
    (member : res ∈ s.reservations) : held k res ≤ s.outstanding k := by
  have each : ∀ x ∈ s.reservations.map (held k), 0 ≤ x := by
    intro x inside
    obtain ⟨r, isMember, rfl⟩ := List.mem_map.mp inside
    rw [held]
    split
    · exact Int.le_refl 0
    · exact nonneg r isMember
  exact List.single_le_sum each _ (List.mem_map_of_mem member)

/-! ### Every sequence of calls -/

/-- What every call keeps: the property and the sign of all granted requests. -/
structure Accounted (s : Budget) : Prop extends s.Kept where
  nonneg : ∀ res ∈ s.reservations, ∀ k, 0 ≤ (res.request.amount k).toInt

theorem Accounted.reserve (s : Budget) (accounted : s.Accounted) (req : ResourceRequest)
    (safe : s.Safe (.reserve req)) : (s.step (.reserve req)).Accounted := by
  simp only [step]
  cases result : s.manager.reserve req with
  | refused e => exact accounted
  | waits => exact accounted
  | granted rm res =>
    obtain ⟨positive, admitted, counters, rfl, fresh⟩ :=
      s.manager.reserve_granted req rm res result
    have small := safe admitted
    -- the machine sums are the sums of the integers
    have sum (k : Resource) : (rm.allocated k).toInt =
        (s.manager.allocated k).toInt + (res.request.amount k).toInt := by
      rw [(counters k).1]
      refine toInt_add_of_lt _ _ ((nonneg_iff _).mp (accounted.budget k).1) (positive k) ?_
      cases k with
      | cpus => exact small.1
      | memoryMB => exact small.2.1
      | fileDescriptors => exact small.2.2
    refine ⟨⟨fun k => ?_, fun k => ⟨?_, (counters k).2.1⟩, accounted.noUnderflow⟩, ?_⟩
    · rw [outstanding_append s k rm res fresh, sum k, accounted.exact k]
    · rw [nonneg_iff, sum k]
      have before := (nonneg_iff _).mp (accounted.budget k).1
      have more := positive k
      omega
    · intro r member k
      rcases List.mem_append.mp member with old | new
      · exact accounted.nonneg r old k
      · rw [List.mem_singleton.mp new]
        exact positive k

theorem Accounted.release (s : Budget) (accounted : s.Accounted) (i : Nat) :
    (s.step (.release i)).Accounted := by
  simp only [step]
  cases here : s.reservations[i]? with
  | none => exact accounted
  | some res =>
    have member := List.mem_of_getElem? here
    cases done : res.released with
    | true =>
      -- the reservation is put back as it was
      rw [s.manager.release_again res done]
      obtain ⟨inside, is⟩ := List.getElem?_eq_some_iff.mp here
      have same : s.reservations.set i res = s.reservations := by
        rw [← is]
        exact List.set_getElem_self inside
      simpa [same] using accounted
    | false =>
      obtain ⟨rm, err, result, counters, clean⟩ := s.manager.release_first res done
      have holds (k : Resource) : held k res = (res.request.amount k).toInt := by simp [held, done]
      -- a reservation that is still held is part of every counter
      have part (k : Resource) : (res.request.amount k).toInt ≤ (s.manager.allocated k).toInt := by
        rw [accounted.exact k, ← holds k]
        exact s.held_le_outstanding k (fun r inside => accounted.nonneg r inside k) res member
      have difference (k : Resource) : (rm.allocated k).toInt =
          (s.manager.allocated k).toInt - (res.request.amount k).toInt := by
        rw [(counters k).1]
        exact toInt_sub_of_le _ _ (accounted.nonneg res member k) (part k)
      have still (k : Resource) : 0 ≤ rm.allocated k := by
        rw [nonneg_iff, difference k]
        have := part k
        omega
      rw [result]
      refine ⟨⟨fun k => ?_, fun k => ⟨still k, ?_⟩, ?_⟩, ?_⟩
      · show _ = ((s.reservations.set i { res with released := true }).map (held k)).sum
        rw [s.outstanding_set k i res _ here, difference k, accounted.exact k, holds k]
        simp [held]
      · rw [Int64.le_iff_toInt_le, difference k, (counters k).2]
        have before := Int64.le_iff_toInt_le.mp (accounted.budget k).2
        have positive := accounted.nonneg res member k
        omega
      · simp [accounted.noUnderflow, clean still]
      · intro r inside k
        rcases List.mem_or_eq_of_mem_set inside with old | rfl
        · exact accounted.nonneg r old k
        · exact accounted.nonneg res member k

theorem Accounted.step (s : Budget) (accounted : s.Accounted) (call : BudgetCall)
    (safe : s.Safe call) : (s.step call).Accounted := by
  cases call with
  | reserve req => exact accounted.reserve s req safe
  | release i => exact accounted.release s i

theorem new_accounted (maxCPUs maxMemoryMB maxFDs : Int64)
    (nonneg : 0 ≤ maxCPUs ∧ 0 ≤ maxMemoryMB ∧ 0 ≤ maxFDs) :
    (new maxCPUs maxMemoryMB maxFDs).Accounted := by
  refine ⟨⟨?_, ?_, rfl⟩, by simp [new]⟩
  · rintro (_ | _ | _) <;> rfl
  · rintro (_ | _ | _)
    · exact ⟨Int64.le_refl 0, nonneg.1⟩
    · exact ⟨Int64.le_refl 0, nonneg.2.1⟩
    · exact ⟨Int64.le_refl 0, nonneg.2.2⟩

/-- With maxima that are not negative, the budget is kept after every sequence of calls in
which no granted request makes a counter wrap. -/
theorem budgetKept_of_safe (maxCPUs maxMemoryMB maxFDs : Int64)
    (nonneg : 0 ≤ maxCPUs ∧ 0 ≤ maxMemoryMB ∧ 0 ≤ maxFDs) (calls : List BudgetCall)
    (safe : Machine.Always step Safe (new maxCPUs maxMemoryMB maxFDs) calls) :
    (Machine.run step (new maxCPUs maxMemoryMB maxFDs) calls).Kept :=
  (Machine.run_invariant step Safe Accounted (fun s call accounted ok => accounted.step s call ok) _
    calls (new_accounted maxCPUs maxMemoryMB maxFDs nonneg) safe).toKept

/-- Two grants, a request that has to wait, and a release that is repeated. -/
theorem budgetKept_repeated_release :
    let s := Machine.run step (new 4 2048 64) [.reserve ⟨1, 512, 8⟩, .reserve ⟨2, 512, 8⟩,
      .reserve ⟨8, 0, 0⟩, .release 0, .release 0]
    s.reservations.map Reservation.released = [true, false] ∧ s.Kept :=
  ⟨by decide, budgetKept_of_safe 4 2048 64 (by decide) _ (by decide)⟩

/-- One processor of four is in use, and a request for all the processors an integer can
count is granted: the sum wraps to the smallest integer, and the counter is negative. -/
theorem not_budgetKept_wrapped_request :
    let s := Machine.run step (new 4 2048 64)
      [.reserve ⟨1, 0, 0⟩, .reserve ⟨9223372036854775807, 0, 0⟩]
    s.reservations.length = 2 ∧ s.manager.allocatedCPUs = -9223372036854775808 ∧
      s.outstanding .cpus = 9223372036854775808 ∧ ¬s.Kept := by
  intro s
  refine ⟨by decide, by decide, by decide, fun kept => ?_⟩
  exact absurd (kept.budget .cpus).1 (by decide)

end Budget

end PebbleDB.Acceptance
