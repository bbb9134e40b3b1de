import PebbleDB.Bytes

/-!
# Verification reports

A verifier module collects failures, each of severity error or warning, and closes its
result with `finalizeModule`; the report takes the results in with `addModule`. The texts
for people (expected and recovered value, explanation, summary) and the durations are
left out: nothing reads them.
-/
namespace PebbleDB.Acceptance

inductive Severity where
  /-- "a hard invariant violation (fail the scenario)" -/
  | error
  /-- "a non-fatal anomaly recorded for diagnostics" -/
  | warning
  deriving DecidableEq, Repr

/-- The reason codes of the modelled checks. -/
inductive Reason where
  | duplicateKey
  | orderingViolation
  | unexpectedKey
  | valueMismatch
  | keyCountMismatch
  | missingKey
  | boundaryFirst
  | boundaryLast
  | rangeCountMismatch
  | rangeKeyMismatch
  | dependencySkipped
  | nilResult
  | corruptCheckpoint
  | badFreezeOffset
  | checkpointSSTNotLive
  deriving DecidableEq, Repr

structure Failure where
  verifier : String
  key : Bytes
  reason : Reason
  severity : Severity
  deriving DecidableEq, Repr

/-- `newFailure`: a failure of severity error. -/
def newFailure (verifier : String) (key : Bytes) (reason : Reason) : Failure :=
  ⟨verifier, key, reason, .error⟩

structure ModuleResult where
  name : String
  passed : Bool
  failures : List Failure
  passedChecks : Nat
  failedChecks : Nat
  keysVerified : Nat
  scansPerformed : Nat
  warnings : Nat
  deriving DecidableEq, Repr

def emptyModuleResult (name : String) : ModuleResult := ⟨name, true, [], 0, 0, 0, 0, 0⟩

namespace ModuleResult

/-- `res.Failures = append(res.Failures, f)`. -/
def fail (res : ModuleResult) (f : Failure) : ModuleResult :=
  { res with failures := res.failures ++ [f] }

/-- `res.PassedChecks++`. -/
def pass (res : ModuleResult) : ModuleResult := { res with passedChecks := res.passedChecks + 1 }

@[simp] theorem fail_failures (res : ModuleResult) (f : Failure) :
    (res.fail f).failures = res.failures ++ [f] := rfl

@[simp] theorem pass_failures (res : ModuleResult) : res.pass.failures = res.failures := rfl

end ModuleResult

/-- `finalizeModule`. Every failure counts, whatever its severity. -/
def finalizeModule (res : ModuleResult) : ModuleResult :=
  let failedChecks := res.failures.length
  { res with
    failedChecks := failedChecks
    passed := if 0 < failedChecks then false else res.passed
    warnings := res.warnings +
      (res.failures.filter fun f => decide (f.severity = .warning)).length }

structure VerificationReport where
  passed : Bool
  moduleResults : List ModuleResult
  passedChecks : Nat
  failedChecks : Nat
  deriving DecidableEq, Repr

def VerificationReport.addModule (r : VerificationReport) (m : ModuleResult) : VerificationReport where
  passed := if m.passed then r.passed else false
  moduleResults := r.moduleResults ++ [m]
  passedChecks := r.passedChecks + m.passedChecks
  failedChecks := r.failedChecks + m.failedChecks

@[simp] theorem finalizeModule_failures (res : ModuleResult) :
    (finalizeModule res).failures = res.failures := rfl

@[simp] theorem finalizeModule_name (res : ModuleResult) : (finalizeModule res).name = res.name := rfl

/-- A module passes if it has not failed before and has recorded nothing at all. -/
theorem finalizeModule_passed (res : ModuleResult) :
    (finalizeModule res).passed = true ↔ res.failures = [] ∧ res.passed = true := by
  simp only [finalizeModule]
  cases res.failures with
  | nil => simp
  | cons f failures => simp

@[simp] theorem addModule_passed (r : VerificationReport) (m : ModuleResult) :
    (r.addModule m).passed = true ↔ r.passed = true ∧ m.passed = true := by
  simp only [VerificationReport.addModule]
  cases m.passed <;> simp

end PebbleDB.Acceptance
