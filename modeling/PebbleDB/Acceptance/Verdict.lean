import PebbleDB.Acceptance.ModuleOrder
import PebbleDB.Db.WalState

/-!
# The verdict of the module phase

`Verify` runs the modules in the resolved order. A module behind an unhealthy dependency is
skipped, and both a module that did not pass and one that was skipped are unhealthy. The
severities are meant to decide: "a non-fatal anomaly recorded for diagnostics" should
neither fail the report nor block a dependent. `finalizeModule` does not look at them.

## Main results

* `verifyModules_reached`: a module runs if and only if nothing at all is recorded by the
  modules below it, and the report passes if and only if nothing is recorded anywhere.
* `verdict_iff_warnings_with_errors`: so the verdict is the intended one exactly if there
  is an error below every module with a warning below it, and an error somewhere if there is
  a warning somewhere.
* `not_verdict_checkpoint_warning`: the audit of `wal.flush` records a lone warning in a
  state that recovers.
-/
namespace PebbleDB.Acceptance

/-! ### The module loop -/

/-- Why `Verify` gives up, as the report's `AbortReason` says. -/
inductive AbortReason where
  | order (e : OrderError)
  | context (e : String)
  | verifier (e : String)
  deriving DecidableEq, Repr

/-- The module phase: the report, the unhealthy modules, the modules whose `Verify` has been
called, and whether the phase was aborted. -/
structure Phase where
  report : VerificationReport
  unhealthy : List String
  executed : List String
  aborted : Option AbortReason
  deriving DecidableEq, Repr

/-- `firstUnhealthyDep`: the empty name if there is none. -/
def firstUnhealthyDep : List String → List String → String
  | [], _ => ""
  | d :: deps, unhealthy => if d ∈ unhealthy then d else firstUnhealthyDep deps unhealthy

namespace Phase

def start : Phase := ⟨⟨true, [], 0, 0⟩, [], [], none⟩

def abort (p : Phase) (reason : AbortReason) : Phase :=
  { p with report := { p.report with passed := false }, aborted := some reason }

/-- The result of a skipped module, which is not finalised and keeps `Passed`. -/
def skip (p : Phase) (name : String) : Phase :=
  let skipped := { emptyModuleResult name with
    warnings := 1, failures := [⟨name, [], .dependencySkipped, .warning⟩] }
  { p with unhealthy := name :: p.unhealthy, report := p.report.addModule skipped }

/-- What stands in for a nil result. -/
def nilModuleResult (name : String) : ModuleResult :=
  { emptyModuleResult name with passed := false, failures := [newFailure name [] .nilResult] }

def execute (p : Phase) (mod : Verifier) : Phase :=
  let result := mod.result.getD (nilModuleResult mod.name)
  let p := { p with
    executed := p.executed ++ [mod.name], report := p.report.addModule result }
  match mod.err with
  | some e => p.abort (.verifier e)
  | none => if result.passed then p else { p with unhealthy := mod.name :: p.unhealthy }

/-- One round of the loop; `ctxErr` is what `ctx.Err()` returns there. -/
def turn (ctxErr : Option String) (deps : List String) (mod : Verifier) (p : Phase) : Phase :=
  match ctxErr with
  | some e => p.abort (.context e)
  | none => if firstUnhealthyDep deps p.unhealthy ≠ "" then p.skip mod.name else p.execute mod

def loop (ctxErr : String → Option String) (deps : String → List String) :
    List Verifier → Phase → Phase
  | [], p => p
  | mod :: rest, p =>
    let p := p.turn (ctxErr mod.name) (deps mod.name) mod
    if p.aborted.isSome then p else loop ctxErr deps rest p

end Phase

/-- The module phase of `VerificationEngine.Verify`. -/
def verifyModules (ctxErr : String → Option String) (reg : Registry)
    (dag : AList fun _ : String => List String) : Phase :=
  match resolveModuleOrder reg dag with
  | .error e => Phase.start.abort (.order e)
  | .ok order => Phase.start.loop ctxErr order.deps order.modules

/-! ### The intended verdict -/

namespace Verifier

/-- What the module records if it runs. -/
def failures (v : Verifier) : List Failure := (v.result.map ModuleResult.failures).getD []

def Failed (v : Verifier) : Prop := ∃ f ∈ v.failures, f.severity = .error

instance decidableFailed (v : Verifier) : Decidable v.Failed :=
  inferInstanceAs (Decidable (∃ f ∈ v.failures, f.severity = .error))

/-- The module finishes through `finalizeModule` and returns no error. -/
def Finishes (v : Verifier) : Prop :=
  ∃ res : ModuleResult, res.passed = true ∧ v.result = some (finalizeModule res) ∧ v.err = none

end Verifier

section Intended

variable (reg : Registry) (dag : AList fun _ : String => List String)

/-- `d` is a registered transitive dependency of `v`. -/
def Below (v d : Verifier) : Prop :=
  d ∈ reg.all ∧ Relation.TransGen (DependsOn reg dag) v.name d.name

/-- A module is executed exactly when none of its transitive dependencies failed or was
skipped, and the report passes exactly when no executed module recorded an error. -/
structure Verdict (p : Phase) : Prop where
  executes : ∀ v ∈ reg.all, v.name ∈ p.executed ↔
    ∀ d, Below reg dag v d → d.name ∈ p.executed ∧ ¬d.Failed
  passes : p.report.passed = true ↔ ∀ v ∈ reg.all, v.name ∈ p.executed → ¬v.Failed

/-- No warning stands alone: not among the modules below one module, and not among all. -/
structure WarningsWithErrors : Prop where
  below : ∀ v ∈ reg.all, (∀ d, Below reg dag v d → ¬d.Failed) → ∀ d, Below reg dag v d → d.failures = []
  anywhere : (∀ v ∈ reg.all, ¬v.Failed) → ∀ v ∈ reg.all, v.failures = []

/-- Nothing is recorded below the module. -/
def Reached (v : Verifier) : Prop := ∀ d, Below reg dag v d → d.failures = []

end Intended

theorem Verifier.not_failed (v : Verifier) (clean : v.failures = []) : ¬v.Failed := by
  rintro ⟨f, recorded, -⟩
  rw [clean] at recorded
  cases recorded

/-! ### Dependencies and plans -/

section Order

variable (reg : Registry) (dag : AList fun _ : String => List String)

theorem eq_of_name (v w : Verifier) (inV : v ∈ reg.all) (inW : w ∈ reg.all)
    (same : v.name = w.name) : v = w := by
  have found := reg.get_mem v inV
  rw [same, reg.get_mem w inW] at found
  exact (Option.some.inj found).symm

theorem below_of_dependsOn (v d : Verifier) (inD : d ∈ reg.all)
    (edge : DependsOn reg dag v.name d.name) : Below reg dag v d := ⟨inD, .single edge⟩

theorem Below.trans {v d e : Verifier} (first : Below reg dag v d) (second : Below reg dag d e) :
    Below reg dag v e := ⟨second.1, first.2.trans second.2⟩

theorem Reached.below {v d : Verifier} (reached : Reached reg dag v) (below : Below reg dag v d) :
    Reached reg dag d := fun e deeper => reached e (below.trans reg dag deeper)

/-- A path of dependencies begins with a direct one. -/
theorem Below.first {v d : Verifier} (below : Below reg dag v d) :
    ∃ w ∈ reg.all, DependsOn reg dag v.name w.name ∧ (d = w ∨ Below reg dag w d) := by
  obtain ⟨inD, path⟩ := below
  obtain ⟨n, edge, rest⟩ := Relation.TransGen.head'_iff.mp path
  obtain ⟨w, inW, rfl⟩ := List.mem_map.mp edge.2.1
  refine ⟨w, inW, edge, ?_⟩
  rcases Relation.reflTransGen_iff_eq_or_transGen.mp rest with same | longer
  · exact .inl (eq_of_name reg d w inD inW same)
  · exact .inr ⟨inD, longer⟩

/-- The direct dependencies decide, as in the loop. -/
theorem reached_iff (v : Verifier) :
    Reached reg dag v ↔ ∀ d ∈ reg.all, DependsOn reg dag v.name d.name →
      Reached reg dag d ∧ d.failures = [] := by
  constructor
  · intro reached d inD edge
    have below := below_of_dependsOn reg dag v d inD edge
    exact ⟨reached.below reg dag below, reached d below⟩
  · intro direct d below
    obtain ⟨w, inW, edge, rfl | deeper⟩ := below.first reg dag
    · exact (direct d inW edge).2
    · exact (direct w inW edge).1 d deeper

variable (plan : ModuleOrder) (resolved : resolveModuleOrder reg dag = .ok plan)

include resolved

/-- Induction along the plan: a property of a module may be shown from its dependencies. -/
theorem plan_induction (P : Verifier → Prop)
    (step : ∀ v ∈ reg.all, (∀ d ∈ reg.all, DependsOn reg dag v.name d.name → P d) → P v) :
    ∀ v ∈ reg.all, P v := by
  obtain ⟨once, first⟩ := resolveModuleOrder_ok reg dag plan resolved
  have along (done rest : List Verifier) (split : plan.modules = done ++ rest) : ∀ v ∈ done, P v := by
    induction done using List.reverseRecOn generalizing rest with
    | nil => simp
    | append_singleton done v ih =>
      rw [List.append_assoc, List.singleton_append] at split
      have earlier := ih (v :: rest) split
      have inAll (w : Verifier) (member : w ∈ done ++ v :: rest) : w ∈ reg.all :=
        once.subset (split ▸ member)
      rw [List.forall_mem_append]
      refine ⟨earlier, List.forall_mem_singleton.mpr ?_⟩
      refine step v (inAll v (by simp)) fun d inD edge => ?_
      obtain ⟨w, inDone, same⟩ := List.mem_map.mp (first done v rest split d.name edge)
      rw [← eq_of_name reg w d (inAll w (by simp [inDone])) inD same]
      exact earlier w inDone
  intro v member
  exact along plan.modules [] (by simp) v (once.symm.subset member)

end Order

/-! ### The loop -/

theorem firstUnhealthyDep_eq_empty (deps unhealthy : List String) (named : ∀ d ∈ deps, d ≠ "") :
    firstUnhealthyDep deps unhealthy = "" ↔ ∀ d ∈ deps, d ∉ unhealthy := by
  induction deps with
  | nil => simp [firstUnhealthyDep]
  | cons d deps ih =>
    obtain ⟨here, later⟩ := List.forall_mem_cons.mp named
    rw [firstUnhealthyDep, List.forall_mem_cons]
    split
    next sick => exact iff_of_false here (fun none_ => none_.1 sick)
    next well => rw [ih later]; simp [well]

namespace Phase

/-- A module that finishes is unhealthy as soon as it has recorded anything. -/
theorem execute_finishes (p : Phase) (v : Verifier) (finishes : v.Finishes) :
    (p.execute v).executed = p.executed ++ [v.name] ∧
      (p.execute v).unhealthy = (if v.failures = [] then p.unhealthy else v.name :: p.unhealthy) ∧
      ((p.execute v).report.passed = true ↔ p.report.passed = true ∧ v.failures = []) ∧
      (p.execute v).aborted = p.aborted := by
  obtain ⟨res, passed, result, err⟩ := finishes
  have clean : (finalizeModule res).passed = true ↔ v.failures = [] := by
    rw [finalizeModule_passed, Verifier.failures, result]
    simp [passed]
  simp only [execute, result, err, Option.getD_some, ← clean]
  by_cases finalised : (finalizeModule res).passed = true
  · simp [finalised]
  · simp [finalised]

theorem skip_passed (p : Phase) (name : String) :
    (p.skip name).report.passed = true ↔ p.report.passed = true := by
  simp [skip, emptyModuleResult]

section Run

variable (reg : Registry) (dag : AList fun _ : String => List String)

/-- The phase after the modules `done`: those are executed behind which nothing is recorded,
and every other one, or one that records something, is unhealthy. -/
structure After (done : List Verifier) (p : Phase) : Prop where
  executed : ∀ n, n ∈ p.executed ↔ ∃ v ∈ done, v.name = n ∧ Reached reg dag v
  unhealthy : ∀ n, n ∈ p.unhealthy ↔
    ∃ v ∈ done, v.name = n ∧ ¬(Reached reg dag v ∧ v.failures = [])
  passed : p.report.passed = true ↔ ∀ v ∈ done, Reached reg dag v → v.failures = []
  aborted : p.aborted = none

theorem after_start : After reg dag [] start := by
  constructor <;> simp [start]

variable {reg dag}

theorem After.execute {done : List Verifier} {p : Phase} (after : After reg dag done p)
    (v : Verifier) (finishes : v.Finishes) (reached : Reached reg dag v) :
    After reg dag (done ++ [v]) (p.execute v) := by
  obtain ⟨executed, unhealthy, passed, aborted⟩ := p.execute_finishes v finishes
  constructor
  · intro n
    rw [executed, List.mem_append, after.executed, List.mem_singleton]
    simp only [List.mem_append, List.mem_singleton, or_and_right, exists_or, exists_eq_left]
    simp [reached, eq_comm]
  · intro n
    simp only [List.mem_append, List.mem_singleton, or_and_right, exists_or, exists_eq_left]
    rw [unhealthy, ← after.unhealthy]
    split
    next clean => simp [reached, clean]
    next recorded => simp [recorded, or_comm, eq_comm]
  · rw [passed, after.passed, List.forall_mem_append, List.forall_mem_singleton]
    simp [reached]
  · rw [aborted, after.aborted]

theorem After.skip {done : List Verifier} {p : Phase} (after : After reg dag done p)
    (v : Verifier) (blocked : ¬Reached reg dag v) : After reg dag (done ++ [v]) (p.skip v.name) := by
  constructor
  · intro n
    show n ∈ p.executed ↔ _
    rw [after.executed]
    simp only [List.mem_append, List.mem_singleton, or_and_right, exists_or, exists_eq_left]
    simp [blocked]
  · intro n
    show n ∈ v.name :: p.unhealthy ↔ _
    rw [List.mem_cons, after.unhealthy, or_comm, eq_comm (a := n)]
    simp only [List.mem_append, List.mem_singleton, or_and_right, exists_or, exists_eq_left]
    simp [blocked]
  · rw [skip_passed, after.passed, List.forall_mem_append, List.forall_mem_singleton]
    simp [blocked]
  · exact after.aborted

variable {plan : ModuleOrder} (resolved : resolveModuleOrder reg dag = .ok plan)

include resolved

/-- The dependencies are behind the module already, so that the unhealthy ones tell whether
something is recorded below it. -/
theorem After.healthy_iff {done rest : List Verifier} {p : Phase} (after : After reg dag done p)
    (v : Verifier) (split : plan.modules = done ++ v :: rest) :
    firstUnhealthyDep (plan.deps v.name) p.unhealthy = "" ↔ Reached reg dag v := by
  obtain ⟨once, first⟩ := resolveModuleOrder_ok reg dag plan resolved
  have inAll (w : Verifier) (member : w ∈ done) : w ∈ reg.all :=
    once.subset (by rw [split]; simp [member])
  have deps (d : String) := resolveModuleOrder_deps reg dag plan resolved v.name d
  rw [firstUnhealthyDep_eq_empty, reached_iff]
  · constructor
    · intro healthy d inD edge
      -- the plan has the dependency before the module, so its turn is over
      obtain ⟨w, inDone, same⟩ := List.mem_map.mp (first done v rest split d.name edge)
      rw [eq_of_name reg w d (inAll w inDone) inD same] at inDone
      have well := mt (after.unhealthy d.name).mpr (healthy d.name ((deps d.name).mpr edge))
      by_contra sick
      exact well ⟨d, inDone, rfl, sick⟩
    · intro direct d isDep sick
      obtain ⟨w, inDone, rfl, ill⟩ := (after.unhealthy d).mp sick
      exact ill (direct w (inAll w inDone) ((deps w.name).mp isDep))
  · intro d isDep
    obtain ⟨w, inW, rfl⟩ := List.mem_map.mp ((deps d).mp isDep).2.1
    exact reg.named w inW

theorem After.turn {done rest : List Verifier} {p : Phase} (after : After reg dag done p)
    (v : Verifier) (finishes : v.Finishes) (split : plan.modules = done ++ v :: rest) :
    After reg dag (done ++ [v]) (p.turn none (plan.deps v.name) v) := by
  have healthy := after.healthy_iff resolved v split
  simp only [Phase.turn]
  split
  next blocked => exact after.skip v fun reached => blocked (healthy.mpr reached)
  next free => exact after.execute v finishes (healthy.mp (not_not.mp free))

theorem After.loop (finishes : ∀ v ∈ reg.all, v.Finishes) (rest done : List Verifier) (p : Phase)
    (after : After reg dag done p) (split : plan.modules = done ++ rest) :
    After reg dag plan.modules (p.loop (fun _ => none) plan.deps rest) := by
  induction rest generalizing done p with
  | nil => rwa [split, List.append_nil]
  | cons v rest ih =>
    have inAll : v ∈ reg.all :=
      (resolveModuleOrder_ok reg dag plan resolved).1.subset (by rw [split]; simp)
    have next := after.turn resolved v (finishes v inAll) split
    rw [Phase.loop]
    simp only [next.aborted, Option.isSome_none, Bool.false_eq_true, if_false]
    exact ih (done ++ [v]) _ next (by simp [split])

end Run

end Phase

/-! ### The audit of `wal.flush` -/

/-- What reading a file gives. -/
inductive FileRead where
  | missing
  | failed (e : String)
  | data (bytes : Bytes)
  deriving DecidableEq, Repr

/-- `structFailure`: a failure of severity error. -/
def structFailure (verifier : String) (reason : Reason) : Failure := ⟨verifier, [], reason, .error⟩

/-- `CheckpointAudit.Verify`. The live set is none if the manifest cannot be read, which is
for another audit to report; `walLog` says whether `wal.log` is there. -/
def checkpointAudit (walFlush : FileRead) (live : Option (List UInt64)) (walLog : Bool) :
    ModuleResult × Option String :=
  let res := emptyModuleResult "checkpoint_audit"
  match walFlush with
  | .missing => (finalizeModule res.pass, none)
  | .failed e => (finalizeModule res, some e)
  | .data bytes =>
    if bytes.length ≠ 16 then
      (finalizeModule (res.fail (structFailure "checkpoint_audit" .corruptCheckpoint)), none)
    else
      let freezeOffset := toInt64 (beDecode (bytes.take 8))
      let sstID := UInt64.ofNat (beDecode (bytes.drop 8))
      let res := if freezeOffset < 0
        then res.fail (structFailure "checkpoint_audit" .badFreezeOffset) else res.pass
      match live with
      | none => (finalizeModule res, none)
      | some liveIDs =>
        let res := if sstID ∈ liveIDs then res.pass
          else res.fail ⟨"checkpoint_audit", [], .checkpointSSTNotLive, .warning⟩
        (finalizeModule (if walLog then res.pass else res), none)

/-- The audit as a module of the registry. -/
def CheckpointAudit (walFlush : FileRead) (live : Option (List UInt64)) (walLog : Bool) : Verifier where
  name := "checkpoint_audit"
  result := some (checkpointAudit walFlush live walLog).1
  err := (checkpointAudit walFlush live walLog).2

/-- A checkpoint whose table is not live is harmless, `Open` replays the whole log. The
audit records a warning and nothing else, and its module does not pass. -/
theorem checkpointAudit_not_live (st : Db.WalFlushState) (low : 0 ≤ st.freezeOffset)
    (high : st.freezeOffset < 2 ^ 63) (liveIDs : List UInt64) (absent : st.sstID ∉ liveIDs)
    (walSize : Nat) (walLog : Bool) :
    Db.walReplayStartOffset liveIDs.toFinset (some st.encoded) walSize = .ok 0 ∧
      (CheckpointAudit (.data st.encoded) (some liveIDs) walLog).failures =
        [⟨"checkpoint_audit", [], .checkpointSSTNotLive, .warning⟩] ∧
      (checkpointAudit (.data st.encoded) (some liveIDs) walLog).1.passed = false := by
  have readBack := Db.readWalFlushState_encoded st (by omega) high
  have whole : (st.encoded.drop 8).take 8 = st.encoded.drop 8 :=
    List.take_of_length_le (by rw [List.length_drop, st.encoded_length]; decide)
  have long : ¬st.encoded.length < Db.walFlushStateSize := by
    rw [st.encoded_length]
    exact Nat.lt_irrefl _
  have fields : toInt64 (beDecode (st.encoded.take 8)) = st.freezeOffset ∧
      UInt64.ofNat (beDecode (st.encoded.drop 8)) = st.sstID := by
    rw [Db.readWalFlushState, if_neg long, whole] at readBack
    injection readBack with parsed
    injection parsed with parsed
    injection parsed with parsed
    exact ⟨congrArg Db.WalFlushState.freezeOffset parsed, congrArg Db.WalFlushState.sstID parsed⟩
  have sixteen : ¬st.encoded.length ≠ 16 := not_not.mpr st.encoded_length
  refine ⟨?_, ?_, ?_⟩
  · rw [Db.walReplayStartOffset, readBack]
    simp [absent]
  · simp only [CheckpointAudit, Verifier.failures, checkpointAudit, if_neg sixteen, fields.1, fields.2,
      if_neg (not_lt.mpr low), if_neg absent, Option.map_some, Option.getD_some, finalizeModule_failures]
    cases walLog <;> rfl
  · simp only [checkpointAudit, if_neg sixteen, fields.1, fields.2, if_neg (not_lt.mpr low), if_neg absent]
    cases walLog <;> rfl

/-! ### Two modules -/

/-- `wal.flush` names table 7 while the manifest lists table 1. -/
def staleCheckpoint (freezeOffset : Int) : Verifier :=
  CheckpointAudit (.data (Db.WalFlushState.encoded ⟨freezeOffset, 7⟩)) (some [1]) true

/-- A module that makes one check, which passes. -/
def passing (name : String) : Verifier :=
  ⟨name, some (finalizeModule (emptyModuleResult name).pass), none⟩

def twoModules (freezeOffset : Int) : Registry where
  all := [staleCheckpoint freezeOffset, passing "get_verifier"]
  distinct := by simp [staleCheckpoint, CheckpointAudit, passing]
  named := by simp [staleCheckpoint, CheckpointAudit, passing]

def auditFirst : AList fun _ : String => List String :=
  AList.singleton "get_verifier" ["checkpoint_audit"]

theorem dependsOn_auditFirst (reg : Registry) (n d : String) (edge : DependsOn reg auditFirst n d) :
    d = "checkpoint_audit" := by
  obtain ⟨-, -, rawDeps, found, listed⟩ := edge
  obtain ⟨rfl, rfl⟩ : n = "get_verifier" ∧ rawDeps = ["checkpoint_audit"] := by
    simpa [auditFirst] using AList.mem_lookup_iff.mp found
  exact List.mem_singleton.mp listed

theorem acyclic_of_resolves (reg : Registry) (dag : AList fun _ : String => List String)
    (resolved : (resolveModuleOrder reg dag).isOk = true) :
    ¬∃ n, Relation.TransGen (DependsOn reg dag) n n := by
  rw [← resolveModuleOrder_error_iff]
  rintro ⟨e, failed⟩
  rw [failed] at resolved
  cases resolved

theorem passing_finishes (name : String) : (passing name).Finishes :=
  ⟨(emptyModuleResult name).pass, rfl, rfl, rfl⟩

theorem twoModules_finishes (freezeOffset : Int)
    (audit : (staleCheckpoint freezeOffset).Finishes) :
    ∀ v ∈ (twoModules freezeOffset).all, v.Finishes := by
  intro v member
  rcases List.mem_pair.mp member with rfl | rfl
  · exact audit
  · exact passing_finishes _

/-! ### The verdict -/

section Verdict

variable (reg : Registry) (dag : AList fun _ : String => List String)
  (acyclic : ¬∃ n, Relation.TransGen (DependsOn reg dag) n n)
  (finishes : ∀ v ∈ reg.all, v.Finishes)

include acyclic

theorem resolves : ∃ plan, resolveModuleOrder reg dag = .ok plan := by
  cases result : resolveModuleOrder reg dag with
  | error e => exact absurd ((resolveModuleOrder_error_iff reg dag).mp ⟨e, result⟩) acyclic
  | ok plan => exact ⟨plan, rfl⟩

theorem module_induction (P : Verifier → Prop)
    (step : ∀ v ∈ reg.all, (∀ d ∈ reg.all, DependsOn reg dag v.name d.name → P d) → P v) :
    ∀ v ∈ reg.all, P v := by
  obtain ⟨plan, resolved⟩ := resolves reg dag acyclic
  exact plan_induction reg dag plan resolved P step

include finishes

/-- What the phase does: a module runs if and only if nothing is recorded below it, and the
report passes if and only if nothing is recorded. -/
theorem verifyModules_reached :
    (verifyModules (fun _ => none) reg dag).aborted = none ∧
      (∀ v ∈ reg.all, v.name ∈ (verifyModules (fun _ => none) reg dag).executed ↔
        Reached reg dag v) ∧
      ((verifyModules (fun _ => none) reg dag).report.passed = true ↔
        ∀ v ∈ reg.all, v.failures = []) := by
  obtain ⟨plan, resolved⟩ := resolves reg dag acyclic
  have once := (resolveModuleOrder_ok reg dag plan resolved).1
  have after := Phase.After.loop resolved finishes plan.modules [] .start
    (Phase.after_start reg dag) rfl
  have phase : verifyModules (fun _ => none) reg dag =
      Phase.start.loop (fun _ => none) plan.deps plan.modules := by
    rw [verifyModules, resolved]
  rw [phase]
  refine ⟨after.aborted, ?_, ?_⟩
  · intro v inV
    rw [after.executed]
    constructor
    · rintro ⟨w, inW, same, reached⟩
      rwa [← eq_of_name reg w v (once.subset inW) inV same]
    · exact fun reached => ⟨v, once.symm.subset inV, rfl, reached⟩
  · rw [after.passed]
    constructor
    · -- a module that records something first is executed and fails the report
      intro reachedClean
      have reached : ∀ v ∈ reg.all, Reached reg dag v ∧ v.failures = [] := by
        refine module_induction reg dag acyclic _ fun v inV direct => ?_
        have here := (reached_iff reg dag v).mpr direct
        exact ⟨here, reachedClean v (once.symm.subset inV) here⟩
      exact fun v inV => (reached v inV).2
    · exact fun clean v inPlan _ => clean v (once.subset inPlan)

/-- The verdict is the intended one if and only if no warning stands alone. -/
theorem verdict_iff_warnings_with_errors :
    (verifyModules (fun _ => none) reg dag).aborted = none ∧
      (Verdict reg dag (verifyModules (fun _ => none) reg dag) ↔ WarningsWithErrors reg dag) := by
  obtain ⟨finished, executed, passed⟩ := verifyModules_reached reg dag acyclic finishes
  refine ⟨finished, fun verdict => ?_, fun together => ⟨fun v inV => ?_, ?_⟩⟩
  · -- by induction along the plan
    have below : ∀ v ∈ reg.all, (∀ d, Below reg dag v d → ¬d.Failed) → Reached reg dag v := by
      refine module_induction reg dag acyclic _ fun v inV direct errorFree => ?_
      -- the modules below are executed, so the intended verdict has this one executed too
      refine (executed v inV).mp ((verdict.executes v inV).mpr fun d below => ?_)
      refine ⟨(executed d below.1).mpr ?_, errorFree d below⟩
      obtain ⟨w, inW, edge, same⟩ := below.first reg dag
      have reached := direct w inW edge fun e deeper =>
        errorFree e ((below_of_dependsOn reg dag v w inW edge).trans reg dag deeper)
      rcases same with rfl | deeper
      · exact reached
      · exact reached.below reg dag deeper
    exact ⟨below, fun errorFree =>
      passed.mp (verdict.passes.mpr fun v inV _ => errorFree v inV)⟩
  · rw [executed v inV]
    constructor
    · intro reached d below
      exact ⟨(executed d below.1).mpr (reached.below reg dag below), d.not_failed (reached d below)⟩
    · exact fun spared => together.below v inV fun d below => (spared d below).2
  · rw [passed]
    constructor
    · exact fun clean v inV _ => v.not_failed (clean v inV)
    · intro spared
      -- along the plan: without an error below it a module is executed, and so is free of one
      have errorFree : ∀ v ∈ reg.all, ¬v.Failed ∧ ∀ d, Below reg dag v d → ¬d.Failed := by
        refine module_induction reg dag acyclic _ fun v inV direct => ?_
        have none_ (d : Verifier) (below : Below reg dag v d) : ¬d.Failed := by
          obtain ⟨w, inW, edge, rfl | deeper⟩ := below.first reg dag
          · exact (direct d inW edge).1
          · exact (direct w inW edge).2 d deeper
        exact ⟨spared v inV ((executed v inV).mpr (together.below v inV none_)), none_⟩
      exact together.anywhere fun v inV => (errorFree v inV).1

end Verdict

/-- With a negative offset there is an error beside the warning. -/
theorem verdict_negative_offset :
    Verdict (twoModules (-1)) auditFirst (verifyModules (fun _ => none) (twoModules (-1)) auditFirst) := by
  have failed : (staleCheckpoint (-1)).Failed := by decide +kernel
  refine (verdict_iff_warnings_with_errors (twoModules (-1)) auditFirst
    (acyclic_of_resolves _ _ (by decide +kernel))
    (twoModules_finishes _ ⟨_, rfl, rfl, rfl⟩)).2.mpr ⟨?_, ?_⟩
  · intro v inV errorFree d below
    -- only the audit lies below a module, and it failed
    obtain ⟨w, inW, edge, -⟩ := below.first
    have audit := eq_of_name _ w (staleCheckpoint (-1)) inW List.mem_cons_self
      (dependsOn_auditFirst _ _ _ edge)
    rw [audit] at inW edge
    exact absurd failed (errorFree _ (below_of_dependsOn _ _ v _ inW edge))
  · exact fun errorFree => absurd failed (errorFree _ List.mem_cons_self)

/-- A checkpoint whose table is not live is only worth a warning. The report fails all the
same, and the module behind the audit is skipped. -/
theorem not_verdict_checkpoint_warning :
    (¬∃ n, Relation.TransGen (DependsOn (twoModules 0) auditFirst) n n) ∧
      (∀ v ∈ (twoModules 0).all, v.Finishes ∧ ¬v.Failed) ∧
      (verifyModules (fun _ => none) (twoModules 0) auditFirst).executed = ["checkpoint_audit"] ∧
      (verifyModules (fun _ => none) (twoModules 0) auditFirst).report.passed = false ∧
      ¬Verdict (twoModules 0) auditFirst (verifyModules (fun _ => none) (twoModules 0) auditFirst) := by
  have finishes := twoModules_finishes 0 ⟨_, rfl, rfl, rfl⟩
  have errorFree : ∀ v ∈ (twoModules 0).all, ¬v.Failed := by decide +kernel
  have failed : (verifyModules (fun _ => none) (twoModules 0) auditFirst).report.passed = false := by
    decide +kernel
  refine ⟨acyclic_of_resolves _ _ (by decide +kernel), fun v inV => ⟨finishes v inV, errorFree v inV⟩,
    by decide +kernel, failed, fun verdict => ?_⟩
  have passes := verdict.passes.mpr fun v inV _ => errorFree v inV
  rw [failed] at passes
  cases passes

end PebbleDB.Acceptance
