import Mathlib.Data.List.AList
import PebbleDB.Acceptance.Report
import PebbleDB.Lib.Computation
import PebbleDB.Lib.Kahn
import PebbleDB.Lib.Lists

/-!
# The order of the verifier modules

`resolveModuleOrder` takes the registered modules and a map from modules to what they
depend on. It keeps the edges between registered modules, builds counters and successor
lists while it ranges over the map, and runs Kahn's algorithm on them.

## Main result

`resolveModuleOrder_topological`: it fails if and only if the registered modules depend on
each other in a cycle; otherwise every module comes exactly once and after the modules it
depends on, and the plan is the same in whatever order Go ranges over the map.

Ranging over the map in another order only rearranges the successor lists. The modules
that one round frees are the same then, and they are sorted by their registration.
-/
namespace PebbleDB.Acceptance

/-! ### The registry -/

/-- A module, with what its `Verify` returns in the run at hand: a result or nil, and an
error or nil. -/
structure Verifier where
  name : String
  result : Option ModuleResult
  err : Option String

/-- `Registry`, in registration order. `Register` lets no name in twice and no empty one. -/
structure Registry where
  all : List Verifier
  distinct : (all.map Verifier.name).Nodup
  named : ∀ v ∈ all, v.name ≠ ""

namespace Registry

def new : Registry := ⟨[], List.nodup_nil, by simp⟩

inductive RegisterError where
  | emptyName
  | duplicate (name : String)
  deriving DecidableEq, Repr

def register (r : Registry) (v : Verifier) : Except RegisterError Registry :=
  if empty : v.name = "" then .error .emptyName
  else if known : v.name ∈ r.all.map Verifier.name then .error (.duplicate v.name)
  else .ok
    { all := r.all ++ [v]
      distinct := List.nodup_map_concat _ _ v r.distinct known
      named := by
        intro w member
        rcases List.mem_append.mp member with old | new
        · exact r.named w old
        · rw [List.mem_singleton.mp new]
          exact empty }

/-- `regOrder`. -/
def names (r : Registry) : List String := r.all.map Verifier.name

def get (r : Registry) (name : String) : Option Verifier :=
  r.all.find? fun v => decide (v.name = name)

end Registry

/-! ### Resolving the order -/

inductive OrderError where
  /-- "verifier dag: module %q depends on itself" -/
  | selfDependency (node : String)
  /-- "verifier dag: cycle detected among %d modules" -/
  | cycle (modules : Nat)
  deriving DecidableEq, Repr

structure ModuleOrder where
  modules : List Verifier
  deps : String → List String

/-- The three maps that are filled while ranging over the DAG; a missing key is nil or 0. -/
structure EdgeMaps where
  deps : String → List String
  indegree : String → Int
  adj : String → List String

namespace EdgeMaps

def empty : EdgeMaps := ⟨fun _ => [], fun _ => 0, fun _ => []⟩

def addEdge (g : EdgeMaps) (node dep : String) : EdgeMaps where
  deps := Function.update g.deps node (g.deps node ++ [dep])
  indegree := Function.update g.indegree node (g.indegree node + 1)
  adj := Function.update g.adj dep (g.adj dep ++ [node])

/-- The loop over the dependencies of one node. -/
def addDeps (registered : String → Bool) (node : String) :
    List String → EdgeMaps → Except OrderError EdgeMaps
  | [], g => .ok g
  | dep :: rest, g =>
    if !registered dep then addDeps registered node rest g
    else if dep = node then .error (.selfDependency node)
    else addDeps registered node rest (g.addEdge node dep)

/-- The loop over the DAG, in the order in which Go ranges over it. -/
def addNodes (registered : String → Bool) :
    List (Sigma fun _ : String => List String) → EdgeMaps → Except OrderError EdgeMaps
  | [], g => .ok g
  | ⟨node, rawDeps⟩ :: rest, g =>
    if !registered node then addNodes registered rest g
    else do
      let g ← addDeps registered node rawDeps g
      addNodes registered rest g

end EdgeMaps

/-- `sortByRegOrder`: an insertion sort by the place in the registration order. -/
def sortByRegOrder (regOrder names : List String) : List String :=
  names.insertionSort fun a b => regOrder.idxOf a ≤ regOrder.idxOf b

/-- `resolveModuleOrder`. The loop over the queue ends after as many rounds as there are
modules. -/
def resolveModuleOrder (reg : Registry) (dag : AList fun _ : String => List String) :
    Except OrderError ModuleOrder :=
  let regOrder := reg.names
  if dag.entries.length = 0 then .ok ⟨reg.all, fun _ => []⟩
  else do
    let g ← EdgeMaps.addNodes (fun name => decide (name ∈ regOrder)) dag.entries .empty
    let queue := regOrder.filter fun name => decide (g.indegree name = 0)
    let final := Kahn.loop g.adj (sortByRegOrder regOrder) regOrder.length ⟨queue, [], g.indegree⟩
    let ordered := final.ordered.filterMap reg.get
    if ordered.length ≠ reg.all.length then .error (.cycle (reg.all.length - ordered.length))
    else .ok ⟨ordered, g.deps⟩

/-- The dependency relation between registered modules: `n` depends on `d`. -/
def DependsOn (reg : Registry) (dag : AList fun _ : String => List String) (n d : String) : Prop :=
  n ∈ reg.names ∧ d ∈ reg.names ∧ ∃ rawDeps, dag.lookup n = some rawDeps ∧ d ∈ rawDeps

/-! ### What ranging over the map leaves -/

namespace EdgeMaps

/-- Successor lists and counters say the same as the dependency lists. -/
structure Coherent (g : EdgeMaps) : Prop where
  adjacent : ∀ n d, (g.adj d).count n = (g.deps n).count d
  counter : ∀ n, g.indegree n = (g.deps n).length

theorem empty_coherent : empty.Coherent := ⟨fun _ _ => rfl, fun _ => rfl⟩

theorem Coherent.addEdge (g : EdgeMaps) (coherent : g.Coherent) (node dep : String) :
    (g.addEdge node dep).Coherent where
  adjacent := by
    intro n d
    have before := coherent.adjacent n d
    simp only [EdgeMaps.addEdge]
    by_cases isNode : n = node
    · subst isNode
      by_cases isDep : d = dep
      · subst isDep
        simpa using before
      · simpa [Function.update_of_ne isDep, Ne.symm isDep] using before
    · by_cases isDep : d = dep
      · subst isDep
        simpa [Function.update_of_ne isNode, Ne.symm isNode] using before
      · simpa [Function.update_of_ne isNode, Function.update_of_ne isDep] using before
  counter := by
    intro n
    have before := coherent.counter n
    simp only [EdgeMaps.addEdge]
    by_cases isNode : n = node
    · subst isNode
      simp [before]
    · simpa [Function.update_of_ne isNode] using before

section Loops

variable (registered : String → Bool)

/-- Either the node is among its own registered dependencies, or they are all appended. -/
theorem addDeps_cases (node : String) (rawDeps : List String) (g : EdgeMaps)
    (coherent : g.Coherent) :
    (node ∈ rawDeps.filter registered ∧
        addDeps registered node rawDeps g = .error (.selfDependency node)) ∨
      (node ∉ rawDeps.filter registered ∧ ∃ g', addDeps registered node rawDeps g = .ok g' ∧
        g'.Coherent ∧
        g'.deps = Function.update g.deps node (g.deps node ++ rawDeps.filter registered)) := by
  induction rawDeps generalizing g with
  | nil => exact .inr ⟨by simp, g, rfl, coherent, by simp⟩
  | cons dep rawDeps ih =>
    simp only [addDeps, List.filter_cons]
    cases known : registered dep with
    | false => simpa using ih g coherent
    | true =>
      by_cases same : dep = node
      · exact .inl ⟨by simp [same], by simp [same]⟩
      · rcases ih _ (coherent.addEdge g node dep) with ⟨member, failed⟩ | ⟨absent, g', done, kept, is⟩
        · exact .inl ⟨by simp [member], by simp [same, failed]⟩
        · refine .inr ⟨by simpa [Ne.symm same] using absent, g', by simp [same, done], kept, ?_⟩
          rw [is]
          simp [EdgeMaps.addEdge]

/-- The registered dependencies of a registered node. -/
def restricted (entries : List (Sigma fun _ : String => List String)) (n : String) : List String :=
  if registered n then ((entries.dlookup n).getD []).filter registered else []

section Restricted

variable (node : String) (rawDeps : List String)
  (entries : List (Sigma fun _ : String => List String))

theorem restricted_self : restricted registered (⟨node, rawDeps⟩ :: entries) node =
    if registered node then rawDeps.filter registered else [] := by
  simp [restricted]

theorem restricted_of_ne (n : String) (other : n ≠ node) :
    restricted registered (⟨node, rawDeps⟩ :: entries) n = restricted registered entries n := by
  rw [restricted, restricted, List.dlookup_cons_ne _ _ other]

theorem restricted_absent (absent : node ∉ entries.keys) : restricted registered entries node = [] := by
  rw [restricted, List.dlookup_eq_none.mpr absent]
  simp

/-- The entry of an unknown node is skipped. -/
theorem restricted_unknown (unknown : registered node = false) (n : String) :
    restricted registered (⟨node, rawDeps⟩ :: entries) n = restricted registered entries n := by
  by_cases isNode : n = node
  · simp [restricted, isNode, unknown]
  · exact restricted_of_ne registered node rawDeps entries n isNode

end Restricted

/-- The loop fails if and only if some node is among its own dependencies; otherwise each
node of the map has got its own. -/
theorem addNodes_cases (entries : List (Sigma fun _ : String => List String))
    (distinct : entries.NodupKeys) (g : EdgeMaps) (coherent : g.Coherent)
    (fresh : ∀ n ∈ entries.keys, g.deps n = []) :
    ((∃ n, n ∈ restricted registered entries n) ∧ ∃ e, addNodes registered entries g = .error e) ∨
      ((∀ n, n ∉ restricted registered entries n) ∧ ∃ g', addNodes registered entries g = .ok g' ∧
        g'.Coherent ∧ ∀ n, g'.deps n = g.deps n ++ restricted registered entries n) := by
  induction entries generalizing g with
  | nil => exact .inr ⟨by simp [restricted], g, rfl, coherent, by simp [restricted]⟩
  | cons entry entries ih =>
    obtain ⟨node, rawDeps⟩ := entry
    obtain ⟨notLater, distinct⟩ := List.nodupKeys_cons.mp distinct
    have here := restricted_self registered node rawDeps entries
    have gone := restricted_absent registered node entries notLater
    have others := restricted_of_ne registered node rawDeps entries
    simp only [addNodes]
    cases known : registered node with
    | false =>
      simp only [restricted_unknown registered node rawDeps entries known]
      exact ih distinct g coherent fun n member => fresh n (by simp [member])
    | true =>
      rw [known, if_pos rfl] at here
      rcases addDeps_cases registered node rawDeps g coherent with
        ⟨member, failed⟩ | ⟨absent, g', done, kept, is⟩
      -- the loop stops at the first node that depends on itself
      · refine .inl ⟨⟨node, by rwa [here]⟩, ?_⟩
        exact ⟨_, by simp only [failed]; rfl⟩
      · -- the keys are distinct, so the nodes to come have no dependencies yet
        have later : ∀ n ∈ entries.keys, g'.deps n = [] := by
          intro n member
          have other : n ≠ node := fun same => notLater (same ▸ member)
          rw [is, Function.update_of_ne other]
          exact fresh n (by simp [member])
        have onward : (do
            let g ← addDeps registered node rawDeps g
            addNodes registered entries g) = addNodes registered entries g' := by rw [done]; rfl
        simp only [Bool.not_true, Bool.false_eq_true, if_false, onward]
        rcases ih distinct g' kept later with ⟨⟨n, cyclic⟩, failed⟩ | ⟨acyclic, g'', added, kept', edges⟩
        · refine .inl ⟨⟨n, ?_⟩, failed⟩
          have other : n ≠ node := by
            rintro rfl
            simp [gone] at cyclic
          rwa [others n other]
        · refine .inr ⟨fun n cyclic => ?_, g'', added, kept', fun n => ?_⟩
          · by_cases isNode : n = node
            · subst isNode
              rw [here] at cyclic
              exact absent cyclic
            · rw [others n isNode] at cyclic
              exact acyclic n cyclic
          · rw [edges n, is]
            by_cases isNode : n = node
            · subst isNode
              rw [gone, here]
              simp
            · rw [Function.update_of_ne isNode, others n isNode]

end Loops

end EdgeMaps

/-! ### Names and modules -/

namespace Registry

variable (reg : Registry)

theorem find_name (l : List Verifier) (distinct : (l.map Verifier.name).Nodup) (v : Verifier)
    (member : v ∈ l) : l.find? (fun w => decide (w.name = v.name)) = some v := by
  induction l with
  | nil => cases member
  | cons first rest ih =>
    obtain ⟨other, distinct⟩ := List.nodup_cons.mp distinct
    rcases List.mem_cons.mp member with rfl | later
    · simp
    · have apart : first.name ≠ v.name := fun same => other (same ▸ List.mem_map_of_mem later)
      rw [List.find?_cons_of_neg (by simpa using apart), ih distinct later]

theorem get_mem (v : Verifier) (member : v ∈ reg.all) : reg.get v.name = some v :=
  find_name reg.all reg.distinct v member

theorem get_name (name : String) (known : name ∈ reg.names) :
    ∃ v, reg.get name = some v ∧ v.name = name := by
  obtain ⟨v, member, rfl⟩ := List.mem_map.mp known
  exact ⟨v, reg.get_mem v member, rfl⟩

theorem names_modules : reg.names.filterMap reg.get = reg.all := by
  rw [names, List.filterMap_map]
  have found (l : List Verifier) (inside : ∀ v ∈ l, v ∈ reg.all) :
      l.filterMap (reg.get ∘ Verifier.name) = l := by
    induction l with
    | nil => rfl
    | cons v l ih =>
      obtain ⟨here, later⟩ := List.forall_mem_cons.mp inside
      rw [List.filterMap_cons, Function.comp_apply, reg.get_mem v here]
      simpa using ih later
  exact found reg.all fun v member => member

theorem modules_names (l : List String) (known : ∀ n ∈ l, n ∈ reg.names) :
    (l.filterMap reg.get).map Verifier.name = l := by
  induction l with
  | nil => rfl
  | cons n l ih =>
    obtain ⟨here, later⟩ := List.forall_mem_cons.mp known
    obtain ⟨v, found, same⟩ := reg.get_name n here
    rw [List.filterMap_cons, found]
    simpa [same] using ih later

end Registry

/-! ### The graph of a registry and a DAG -/

section Graph

variable (reg : Registry) (dag : AList fun _ : String => List String)

/-- The lists that the loops build are the dependency relation. -/
theorem mem_restricted (n d : String) :
    d ∈ EdgeMaps.restricted (fun name => decide (name ∈ reg.names)) dag.entries n ↔
      DependsOn reg dag n d := by
  rw [EdgeMaps.restricted, DependsOn]
  by_cases known : n ∈ reg.names
  · show _ ↔ _ ∧ _ ∧ ∃ rawDeps, dag.entries.dlookup n = some rawDeps ∧ _
    cases dag.entries.dlookup n with
    | none => simp [known]
    | some rawDeps => simp [known, and_comm]
  · simp [known]

/-- What the loops over the DAG leave behind. -/
structure Builds (g : EdgeMaps) : Prop where
  built : EdgeMaps.addNodes (fun name => decide (name ∈ reg.names)) dag.entries .empty = .ok g
  coherent : g.Coherent
  deps : ∀ n, g.deps n =
    EdgeMaps.restricted (fun name => decide (name ∈ reg.names)) dag.entries n

theorem builds_cases :
    ((∃ n, DependsOn reg dag n n) ∧ ∃ e, EdgeMaps.addNodes
        (fun name => decide (name ∈ reg.names)) dag.entries .empty = .error e) ∨
      ∃ g, Builds reg dag g := by
  rcases EdgeMaps.addNodes_cases (fun name => decide (name ∈ reg.names)) dag.entries dag.nodupKeys
    .empty EdgeMaps.empty_coherent (fun _ _ => rfl) with ⟨⟨n, self⟩, failed⟩ | ⟨-, g, built, kept, edges⟩
  · exact .inl ⟨⟨n, (mem_restricted reg dag n n).mp self⟩, failed⟩
  · exact .inr ⟨g, built, kept, fun n => by simpa [EdgeMaps.empty] using edges n⟩

variable (g : EdgeMaps) (builds : Builds reg dag g)

include builds

theorem Builds.mem_deps (n d : String) : d ∈ g.deps n ↔ DependsOn reg dag n d := by
  rw [builds.deps, mem_restricted]

theorem Builds.graph : Kahn.Graph reg.names g.deps g.adj where
  inside := by
    intro n d edge
    obtain ⟨isNode, isDep, -⟩ := (builds.mem_deps reg dag g n d).mp edge
    exact ⟨isNode, isDep⟩
  adjacent := builds.coherent.adjacent

theorem Builds.start : Kahn.Inv reg.names g.deps
    ⟨reg.names.filter fun name => decide (g.indegree name = 0), [], g.indegree⟩ := by
  apply Kahn.Inv.start
  · exact List.Nodup.filter _ reg.distinct
  · intro n
    simp
  · exact builds.coherent.counter

end Graph

theorem sortByRegOrder_perm (regOrder names : List String) :
    (sortByRegOrder regOrder names).Perm names := List.perm_insertionSort _ _

/-- The names in the order in which the worklist takes them. -/
def EdgeMaps.planned (g : EdgeMaps) (reg : Registry) : List String :=
  (Kahn.loop g.adj (sortByRegOrder reg.names) reg.names.length
    ⟨reg.names.filter fun name => decide (g.indegree name = 0), [], g.indegree⟩).ordered

/-- Each name at most once, and after those it depends on. -/
theorem Builds.planned {reg : Registry} {dag : AList fun _ : String => List String} {g : EdgeMaps}
    (builds : Builds reg dag g) :
    (g.planned reg).Nodup ∧ (∀ n ∈ g.planned reg, n ∈ reg.names) ∧
      ∀ before n after, g.planned reg = before ++ n :: after → ∀ d ∈ g.deps n, d ∈ before := by
  obtain ⟨nodup, inNodes, first, -⟩ := Kahn.loop_spec (builds.graph reg dag g)
    (sortByRegOrder_perm reg.names) _ (builds.start reg dag g) rfl
  exact ⟨nodup, inNodes, first⟩

/-- The part of `resolveModuleOrder` behind the loops over the DAG. -/
theorem resolveModuleOrder_built (reg : Registry) (dag : AList fun _ : String => List String)
    (nonempty : dag.entries ≠ []) (g : EdgeMaps) (builds : Builds reg dag g) :
    resolveModuleOrder reg dag =
      if (g.planned reg).length ≠ reg.names.length then
        .error (.cycle (reg.all.length - (g.planned reg).length))
      else .ok ⟨(g.planned reg).filterMap reg.get, g.deps⟩ := by
  have inNodes := builds.planned.2.1
  have sameLength : ((g.planned reg).filterMap reg.get).length = (g.planned reg).length := by
    rw [← List.length_map Verifier.name, reg.modules_names _ inNodes]
  have total : reg.names.length = reg.all.length := List.length_map _
  rw [← sameLength, total, resolveModuleOrder, if_neg (by simpa using nonempty), builds.built,
    Except.ok_bind]
  rfl

theorem resolveModuleOrder_empty (reg : Registry) (dag : AList fun _ : String => List String)
    (empty : dag.entries = []) : resolveModuleOrder reg dag = .ok ⟨reg.all, fun _ => []⟩ := by
  rw [resolveModuleOrder, if_pos (by simp [empty])]

theorem dependsOn_empty (reg : Registry) (dag : AList fun _ : String => List String)
    (empty : dag.entries = []) (n d : String) : ¬DependsOn reg dag n d := by
  rintro ⟨-, -, rawDeps, found, -⟩
  rw [AList.lookup, empty] at found
  cases found

/-! ### The theorem -/

section Resolve

variable (reg : Registry) (dag : AList fun _ : String => List String)

/-- A loop over the DAG that fails is the end of the call. -/
theorem resolveModuleOrder_failed (nonempty : dag.entries ≠ []) (e : OrderError)
    (failed : EdgeMaps.addNodes (fun name => decide (name ∈ reg.names)) dag.entries .empty =
      .error e) : resolveModuleOrder reg dag = .error e := by
  rw [resolveModuleOrder, if_neg (by simpa using nonempty), failed, Except.error_bind]

/-- The order fails exactly on a cycle. -/
theorem resolveModuleOrder_error_iff :
    (∃ e, resolveModuleOrder reg dag = .error e) ↔
      ∃ n, Relation.TransGen (DependsOn reg dag) n n := by
  by_cases empty : dag.entries = []
  · rw [resolveModuleOrder_empty reg dag empty]
    refine iff_of_false (by simp) ?_
    rintro ⟨n, cycle⟩
    obtain ⟨d, edge, -⟩ := Relation.TransGen.head'_iff.mp cycle
    exact dependsOn_empty reg dag empty n d edge
  · rcases builds_cases reg dag with ⟨⟨n, self⟩, e, failed⟩ | ⟨g, builds⟩
    · -- a module that depends on itself is a cycle, and the loop over the DAG fails on it
      exact iff_of_true ⟨e, resolveModuleOrder_failed reg dag empty e failed⟩ ⟨n, .single self⟩
    · have complete := Kahn.complete_iff_acyclic (builds.graph reg dag g)
        (sortByRegOrder_perm reg.names) _ (builds.start reg dag g) rfl reg.distinct
      simp only [builds.mem_deps reg dag g] at complete
      rw [resolveModuleOrder_built reg dag empty g builds, EdgeMaps.planned]
      rw [← not_iff_not, ← complete]
      split
      next incomplete => exact iff_of_false (by simp) incomplete
      next all => exact iff_of_true (by simp) (not_not.mp all)

/-- Where a plan comes from. -/
theorem resolveModuleOrder_cases (plan : ModuleOrder)
    (resolved : resolveModuleOrder reg dag = .ok plan) :
    (dag.entries = [] ∧ plan = ⟨reg.all, fun _ => []⟩) ∨
      (dag.entries ≠ [] ∧ ∃ g, Builds reg dag g ∧ (g.planned reg).length = reg.names.length ∧
        plan = ⟨(g.planned reg).filterMap reg.get, g.deps⟩) := by
  by_cases empty : dag.entries = []
  · rw [resolveModuleOrder_empty reg dag empty] at resolved
    exact .inl ⟨empty, (Except.ok.inj resolved).symm⟩
  · refine .inr ⟨empty, ?_⟩
    rcases builds_cases reg dag with ⟨-, e, failed⟩ | ⟨g, builds⟩
    · rw [resolveModuleOrder_failed reg dag empty e failed] at resolved
      cases resolved
    · rw [resolveModuleOrder_built reg dag empty g builds] at resolved
      split at resolved
      · cases resolved
      next all => exact ⟨g, builds, not_not.mp all, (Except.ok.inj resolved).symm⟩

/-- A plan has every module once, after the modules it depends on. -/
theorem resolveModuleOrder_ok (plan : ModuleOrder) (resolved : resolveModuleOrder reg dag = .ok plan) :
    plan.modules.Perm reg.all ∧
      ∀ before v after, plan.modules = before ++ v :: after →
        ∀ d, DependsOn reg dag v.name d → d ∈ before.map Verifier.name := by
  rcases resolveModuleOrder_cases reg dag plan resolved with
    ⟨empty, rfl⟩ | ⟨-, g, builds, all, rfl⟩
  · exact ⟨.refl _, fun _ v _ _ d edge => absurd edge (dependsOn_empty reg dag empty v.name d)⟩
  · obtain ⟨nodup, inNodes, first⟩ := builds.planned
    have perm := (nodup.subperm inNodes).perm_of_length_le all.ge
    constructor
    · -- the modules of the same names, in another order
      have modules := perm.filterMap reg.get
      rwa [reg.names_modules] at modules
    · intro before v after split d edge
      have names := congrArg (List.map Verifier.name) split
      rw [reg.modules_names _ inNodes, List.map_append, List.map_cons] at names
      exact first _ _ _ names d ((builds.mem_deps reg dag g v.name d).mpr edge)

/-- The lists of a plan are the dependency relation. -/
theorem resolveModuleOrder_deps (plan : ModuleOrder) (resolved : resolveModuleOrder reg dag = .ok plan)
    (n d : String) : d ∈ plan.deps n ↔ DependsOn reg dag n d := by
  rcases resolveModuleOrder_cases reg dag plan resolved with
    ⟨empty, rfl⟩ | ⟨-, g, builds, -, rfl⟩
  · exact iff_of_false List.not_mem_nil (dependsOn_empty reg dag empty n d)
  · exact builds.mem_deps reg dag g n d

theorem Builds.adj_names (g : EdgeMaps) (builds : Builds reg dag g) (d n : String)
    (member : n ∈ g.adj d) : n ∈ reg.names := by
  have edge : d ∈ g.deps n := by
    apply List.count_pos_iff.mp
    rw [← builds.coherent.adjacent]
    exact List.count_pos_iff.mpr member
  exact ((builds.mem_deps reg dag g n d).mp edge).1

/-- Another order of the entries gives equal lists and counters and rearranged successors,
so the worklist takes the names in the same order. -/
theorem Builds.planned_perm {dag' : AList fun _ : String => List String}
    (ranged : dag.entries.Perm dag'.entries) {g g' : EdgeMaps} (builds : Builds reg dag g)
    (builds' : Builds reg dag' g') : g.deps = g'.deps ∧ g.planned reg = g'.planned reg := by
  have deps : g.deps = g'.deps := by
    funext n
    rw [builds.deps, builds'.deps, EdgeMaps.restricted, EdgeMaps.restricted]
    have found : dag.entries.dlookup n = dag'.entries.dlookup n := AList.perm_lookup ranged
    rw [found]
  have counters : g.indegree = g'.indegree := by
    funext n
    rw [builds.coherent.counter, builds'.coherent.counter, deps]
  have successors (d : String) : (g.adj d).Perm (g'.adj d) := by
    rw [List.perm_iff_count]
    intro n
    rw [builds.coherent.adjacent, builds'.coherent.adjacent, deps]
  refine ⟨deps, ?_⟩
  rw [EdgeMaps.planned, EdgeMaps.planned, ← counters]
  -- registered names have different places in the registry, so the sort has no ties
  rw [Kahn.loop_congr g.adj g'.adj (sortByRegOrder reg.names) successors
    fun d l l' inside _ perm => Kahn.insertionSort_rank_congr reg.names.idxOf l l' perm
      fun a inA b _ rank => (List.idxOf_inj
        (builds.adj_names reg dag g d a (inside a inA))).mp rank]

/-- Ranging over the map in another order gives the same plan. -/
theorem resolveModuleOrder_perm (dag' : AList fun _ : String => List String)
    (ranged : dag.entries.Perm dag'.entries) (plan : ModuleOrder)
    (resolved : resolveModuleOrder reg dag = .ok plan) : resolveModuleOrder reg dag' = .ok plan := by
  rcases resolveModuleOrder_cases reg dag plan resolved with
    ⟨empty, rfl⟩ | ⟨nonempty, g, builds, all, rfl⟩
  · exact resolveModuleOrder_empty reg dag' (by simpa [empty] using ranged)
  · have nonempty' : dag'.entries ≠ [] := fun none_ => nonempty (by simpa [none_] using ranged)
    rcases builds_cases reg dag' with ⟨⟨n, self⟩, -⟩ | ⟨g', builds'⟩
    -- a node that depends on itself would have failed in the first order as well
    · have self' : DependsOn reg dag n n := by
        rwa [DependsOn, AList.perm_lookup ranged]
      have failed := (resolveModuleOrder_error_iff reg dag).mpr ⟨n, .single self'⟩
      rw [resolved] at failed
      simp at failed
    · obtain ⟨deps, planned⟩ := builds.planned_perm reg dag ranged builds'
      rw [resolveModuleOrder_built reg dag' nonempty' g' builds', ← deps, ← planned,
        if_neg (not_not.mpr all)]

/-- `resolveModuleOrder` fails if and only if the registered modules depend on each other in
a cycle. Otherwise the plan has every registered module exactly once, each after the modules
it depends on, and it is the same for every order of ranging over the map. -/
theorem resolveModuleOrder_topological :
    ((∃ e, resolveModuleOrder reg dag = .error e) ↔
        ∃ n, Relation.TransGen (DependsOn reg dag) n n) ∧
      (∀ plan, resolveModuleOrder reg dag = .ok plan →
        plan.modules.Perm reg.all ∧
          (∀ before v after, plan.modules = before ++ v :: after →
            ∀ d, DependsOn reg dag v.name d → d ∈ before.map Verifier.name) ∧
          ∀ dag' : AList fun _ : String => List String, dag.entries.Perm dag'.entries →
            resolveModuleOrder reg dag' = .ok plan) := by
  refine ⟨resolveModuleOrder_error_iff reg dag, fun plan resolved => ?_⟩
  obtain ⟨once, first⟩ := resolveModuleOrder_ok reg dag plan resolved
  exact ⟨once, first, fun dag' ranged => resolveModuleOrder_perm reg dag dag' ranged plan resolved⟩

end Resolve

end PebbleDB.Acceptance
