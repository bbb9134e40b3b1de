import Mathlib.Data.Fintype.Card
import Mathlib.Data.List.Nodup
import Mathlib.Data.List.Sort
import Mathlib.Data.Set.Finite.List
import Mathlib.Logic.Relation
import Mathlib.Order.WellFounded

/-!
# Kahn's algorithm

Nodes are taken from a queue, and each node that is taken lowers a counter of all its
successors; a node whose counter reaches zero joins the queue. The counters may start with
repeated edges, and the nodes that are freed by one round may be put in any order before
they join the queue.

What clients use: `loop_spec` (when the queue is empty, the nodes taken are distinct, come
after all they depend on, and every other node depends on one that was not taken),
`complete_iff_acyclic` (all nodes are taken if and only if there is no cycle) and
`loop_congr` (the order of the successor lists does not matter).
-/
namespace Kahn

variable {ν : Type} [DecidableEq ν]

/-! ### The algorithm -/

/-- Lowers the counters of the successors; the nodes whose counter reaches zero, in the
order in which that happens. -/
def relax : (ν → Int) → List ν → (ν → Int) × List ν
  | indegree, [] => (indegree, [])
  | indegree, succ :: succs =>
    let lowered := Function.update indegree succ (indegree succ - 1)
    let rest := relax lowered succs
    (rest.1, if lowered succ = 0 then succ :: rest.2 else rest.2)

structure State (ν : Type) where
  queue : List ν
  ordered : List ν
  indegree : ν → Int

/-- One round: the head of the queue is taken, unless it was taken before. -/
def step (adj : ν → List ν) (sort : List ν → List ν) (s : State ν) : State ν :=
  match s.queue with
  | [] => s
  | name :: queue =>
    if name ∈ s.ordered then { s with queue := queue }
    else
      let freed := relax s.indegree (adj name)
      ⟨queue ++ sort freed.2, s.ordered ++ [name], freed.1⟩

/-- The loop, for at most `fuel` rounds; an empty queue stays as it is. -/
def loop (adj : ν → List ν) (sort : List ν → List ν) : Nat → State ν → State ν
  | 0, s => s
  | fuel + 1, s => loop adj sort fuel (step adj sort s)

theorem step_fresh (adj : ν → List ν) (sort : List ν → List ν) (queue ordered : List ν)
    (indegree : ν → Int) (name : ν) (fresh : name ∉ ordered) :
    step adj sort ⟨name :: queue, ordered, indegree⟩ =
      ⟨queue ++ sort (relax indegree (adj name)).2, ordered ++ [name],
        (relax indegree (adj name)).1⟩ := if_neg fresh

/-! ### Lowering the counters -/

theorem relax_indegree (indegree : ν → Int) (succs : List ν) (n : ν) :
    (relax indegree succs).1 n = indegree n - succs.count n := by
  induction succs generalizing indegree with
  | nil => simp [relax]
  | cons succ succs ih =>
    rw [relax, ih, List.count_cons]
    by_cases same : n = succ
    · subst same
      simp
      omega
    · simp [same, Ne.symm same]

/-- A node is freed when its counter, positive before, is used up. -/
theorem mem_relax (indegree : ν → Int) (succs : List ν) (n : ν) :
    n ∈ (relax indegree succs).2 ↔ 0 < indegree n ∧ indegree n ≤ succs.count n := by
  induction succs generalizing indegree with
  | nil =>
    simp [relax]
  | cons succ succs ih =>
    have later := ih (Function.update indegree succ (indegree succ - 1))
    have lowered : Function.update indegree succ (indegree succ - 1) succ = indegree succ - 1 :=
      Function.update_self ..
    simp only [relax, lowered]
    by_cases same : n = succ
    · subst same
      rw [lowered] at later
      rw [List.count_cons_self]
      split
      · rw [List.mem_cons, later]
        simp
        omega
      · rw [later]
        push_cast
        omega
    · rw [Function.update_of_ne same] at later
      rw [List.count_cons_of_ne (Ne.symm same)]
      split
      · rw [List.mem_cons, later]
        simp [same]
      · exact later

/-- No node is freed twice: its counter is zero or negative after the first time. -/
theorem relax_nodup (indegree : ν → Int) (succs : List ν) : (relax indegree succs).2.Nodup := by
  induction succs generalizing indegree with
  | nil => simp [relax]
  | cons succ succs ih =>
    have later := ih (Function.update indegree succ (indegree succ - 1))
    rw [relax]
    by_cases zero : indegree succ - 1 = 0
    · have gone : succ ∉ (relax (Function.update indegree succ (indegree succ - 1)) succs).2 := by
        rw [mem_relax]
        simp [zero]
      simpa [zero] using ⟨by simpa [zero] using gone, by simpa [zero] using later⟩
    · simpa [zero] using later

/-! ### The invariant -/

section Graph

variable (nodes : List ν) (deps adj : ν → List ν) (sort : List ν → List ν)

/-- The edges lie between nodes, and `adj` has each as often as `deps`. -/
structure Graph : Prop where
  inside : ∀ n, ∀ d ∈ deps n, n ∈ nodes ∧ d ∈ nodes
  adjacent : ∀ n d, (adj d).count n = (deps n).count d

/-- Every node of the list comes after all nodes that it depends on. -/
def DepsFirst (ordered : List ν) : Prop :=
  ∀ before n after, ordered = before ++ n :: after → ∀ d ∈ deps n, d ∈ before

/-- Between the rounds: a counter is the number of edges from nodes that were not taken,
and of the nodes not taken exactly those with counter zero are queued. -/
structure Inv (s : State ν) : Prop where
  distinct : (s.ordered ++ s.queue).Nodup
  inNodes : ∀ n ∈ s.ordered ++ s.queue, n ∈ nodes
  counter : ∀ n, s.indegree n = (deps n).countP (fun d => decide (d ∉ s.ordered))
  ready : ∀ n ∈ nodes, n ∉ s.ordered → (n ∈ s.queue ↔ s.indegree n = 0)
  first : DepsFirst deps s.ordered

omit [DecidableEq ν] in
theorem depsFirst_concat (ordered : List ν) (name : ν) (first : DepsFirst deps ordered)
    (known : ∀ d ∈ deps name, d ∈ ordered) : DepsFirst deps (ordered ++ [name]) := by
  intro before n after split
  rcases List.eq_nil_or_concat after with rfl | ⟨after, last, rfl⟩
  · obtain ⟨same, last⟩ := List.append_inj' split rfl
    cases last
    rwa [← same]
  · have shorter : ordered ++ [name] = (before ++ n :: after) ++ [last] := by simpa using split
    obtain ⟨same, -⟩ := List.append_inj' shorter rfl
    exact first before n after same

omit [DecidableEq ν] in
theorem DepsFirst.subset (ordered : List ν) (first : DepsFirst deps ordered) (n : ν)
    (member : n ∈ ordered) : ∀ d ∈ deps n, d ∈ ordered := by
  obtain ⟨before, after, rfl⟩ := List.append_of_mem member
  intro d inside
  exact List.mem_append_left _ (first before n after rfl d inside)

/-- Taking one more node uses up exactly the edges from it. -/
theorem countP_taken (edges ordered : List ν) (name : ν) (fresh : name ∉ ordered) :
    (edges.countP (fun d => decide (d ∉ ordered)) : Int) - edges.count name =
      edges.countP (fun d => decide (d ∉ ordered ++ [name])) := by
  induction edges with
  | nil => simp
  | cons d edges ih =>
    rw [List.countP_cons, List.countP_cons, List.count_cons]
    by_cases same : d = name
    · subst same
      simp [fresh] at ih ⊢
      omega
    · simp [same] at ih ⊢
      split <;> omega

variable {nodes deps adj sort}

/-- A counter is zero when everything that the node depends on was taken. -/
theorem Inv.counter_zero (s : State ν) (inv : Inv nodes deps s) (n : ν) :
    s.indegree n = 0 ↔ ∀ d ∈ deps n, d ∈ s.ordered := by
  rw [inv.counter n, Int.natCast_eq_zero, List.countP_eq_zero]
  simp

section Round

variable (graph : Graph nodes deps adj) (queue ordered : List ν) (indegree : ν → Int) (name : ν)
  (inv : Inv nodes deps ⟨name :: queue, ordered, indegree⟩)

include inv

theorem Inv.head_fresh : name ∉ ordered := fun old =>
  (List.nodup_append.mp inv.distinct).2.2 name old name List.mem_cons_self rfl

theorem Inv.head_node : name ∈ nodes := inv.inNodes name (by simp)

theorem Inv.head_zero : indegree name = 0 :=
  (inv.ready name (inv.head_node queue ordered indegree name)
    (inv.head_fresh queue ordered indegree name)).mp List.mem_cons_self

include graph

theorem Inv.lowered (n : ν) : (relax indegree (adj name)).1 n =
    (deps n).countP (fun d => decide (d ∉ ordered ++ [name])) := by
  have before : indegree n = _ := inv.counter n
  rw [relax_indegree, graph.adjacent, before]
  exact countP_taken (deps n) ordered name (inv.head_fresh queue ordered indegree name)

/-- The round frees the nodes whose counter falls to zero. -/
theorem Inv.freed (n : ν) : n ∈ (relax indegree (adj name)).2 ↔
    indegree n ≠ 0 ∧ (relax indegree (adj name)).1 n = 0 := by
  have before : indegree n = _ := inv.counter n
  have now := inv.lowered graph queue ordered indegree name n
  have lower := relax_indegree indegree (adj name) n
  rw [mem_relax]
  omega

omit inv in
theorem freed_node (n : ν) (member : n ∈ (relax indegree (adj name)).2) : n ∈ nodes := by
  obtain ⟨positive, enough⟩ := (mem_relax _ _ _).mp member
  have edge : 0 < (deps n).count name := by
    rw [← graph.adjacent]
    omega
  exact (graph.inside n name (List.count_pos_iff.mp edge)).1

/-- A freed node was neither taken nor queued: its counter was positive. -/
theorem Inv.freed_fresh (n : ν) (member : n ∈ (relax indegree (adj name)).2) :
    n ∉ ordered ++ [name] ++ queue := by
  obtain ⟨positive, -⟩ := (inv.freed graph queue ordered indegree name n).mp member
  have notOrdered : n ∉ ordered := fun old =>
    positive ((inv.counter_zero _ n).mpr (inv.first.subset deps ordered n old))
  have notQueued : n ∉ name :: queue := fun queued => positive
    ((inv.ready n (freed_node graph indegree name n member) notOrdered).mp queued)
  simpa [not_or] using ⟨notOrdered, by simpa [not_or] using notQueued⟩

end Round

variable (graph : Graph nodes deps adj) (sorts : ∀ l, (sort l).Perm l)

include graph sorts in
theorem Inv.step (s : State ν) (inv : Inv nodes deps s) : Inv nodes deps (step adj sort s) := by
  obtain ⟨queue, ordered, indegree⟩ := s
  cases queue with
  | nil => exact inv
  | cons name queue =>
    have isNode := inv.head_node queue ordered indegree name
    have lowered := inv.lowered graph queue ordered indegree name
    have freed := inv.freed graph queue ordered indegree name
    rw [step_fresh _ _ _ _ _ _ (inv.head_fresh queue ordered indegree name)]
    refine ⟨?_, ?_, lowered, ?_, ?_⟩
    · -- what was taken, the old queue and the freed nodes are pairwise disjoint
      have reordered : (ordered ++ [name] ++ queue).Nodup := by simpa using inv.distinct
      rw [← List.append_assoc]
      refine List.nodup_append.mpr ⟨reordered, (sorts _).nodup_iff.mpr (relax_nodup _ _), ?_⟩
      rintro a old b new rfl
      exact inv.freed_fresh graph queue ordered indegree name a ((sorts _).mem_iff.mp new) old
    · intro n member
      simp only [List.mem_append, List.mem_singleton, (sorts _).mem_iff] at member
      rcases member with (old | rfl) | queued | new
      · exact inv.inNodes n (by simp [old])
      · exact isNode
      · exact inv.inNodes n (by simp [queued])
      · exact freed_node graph indegree name n new
    · intro n isNode' notTaken
      simp only [List.mem_append, List.mem_singleton, not_or] at notTaken
      have before : n ∈ name :: queue ↔ indegree n = 0 := inv.ready n isNode' notTaken.1
      rw [List.mem_cons, or_iff_right notTaken.2] at before
      have now := lowered n
      have lower := relax_indegree indegree (adj name) n
      rw [List.mem_append, (sorts _).mem_iff, freed n, before]
      show _ ↔ (relax indegree (adj name)).1 n = 0
      omega
    · exact depsFirst_concat deps ordered name inv.first
        ((inv.counter_zero _ name).mp (inv.head_zero queue ordered indegree name))

/-- The start: the nodes without an edge are queued, in some order. -/
theorem Inv.start (queue : List ν) (indegree : ν → Int) (distinct : queue.Nodup)
    (mem : ∀ n, n ∈ queue ↔ n ∈ nodes ∧ indegree n = 0)
    (counter : ∀ n, indegree n = (deps n).length) : Inv nodes deps ⟨queue, [], indegree⟩ where
  distinct := by simpa using distinct
  inNodes := by
    intro n member
    exact ((mem n).mp (by simpa using member)).1
  counter := by
    intro n
    simpa [List.countP_eq_length_filter] using counter n
  ready := by
    intro n isNode _
    simp [mem n, isNode]
  first := by
    intro before n after split
    simp at split

/-! ### The end of the loop -/

/-- A round takes a node, or the queue is empty. -/
theorem step_progress (s : State ν) (inv : Inv nodes deps s) :
    s.queue = [] ∧ step adj sort s = s ∨
      (step adj sort s).ordered.length = s.ordered.length + 1 := by
  obtain ⟨queue, ordered, indegree⟩ := s
  cases queue with
  | nil => exact .inl ⟨rfl, rfl⟩
  | cons name queue =>
    rw [step_fresh _ _ _ _ _ _ (inv.head_fresh queue ordered indegree name)]
    simp

theorem Inv.length_le (s : State ν) (inv : Inv nodes deps s) :
    s.ordered.length + s.queue.length ≤ nodes.length := by
  rw [← List.length_append]
  exact (inv.distinct.subperm inv.inNodes).length_le

include graph sorts in
/-- As many rounds as there are nodes left empty the queue. -/
theorem Inv.loop (fuel : Nat) (s : State ν) (inv : Inv nodes deps s)
    (enough : nodes.length ≤ s.ordered.length + fuel) :
    Inv nodes deps (loop adj sort fuel s) ∧ (loop adj sort fuel s).queue = [] := by
  induction fuel generalizing s with
  | zero =>
    have bound := inv.length_le s
    have drained : s.queue = [] := List.eq_nil_of_length_eq_zero (by omega)
    exact ⟨inv, drained⟩
  | succ fuel ih =>
    have next := inv.step graph sorts s
    rcases step_progress s inv with ⟨empty, same⟩ | more
    · -- nothing happens any more
      have stays (k : Nat) : Kahn.loop adj sort k s = s := by
        induction k with
        | zero => rfl
        | succ k again => rw [Kahn.loop, same, again]
      rw [stays]
      exact ⟨inv, empty⟩
    · exact ih _ next (by omega)

include graph sorts in
/-- The result of the loop: distinct nodes, each after all that it depends on, and a node
that was not taken depends on another one that was not. -/
theorem loop_spec (s : State ν) (inv : Inv nodes deps s) (empty : s.ordered = []) :
    let ordered := (Kahn.loop adj sort nodes.length s).ordered
    ordered.Nodup ∧ (∀ n ∈ ordered, n ∈ nodes) ∧ DepsFirst deps ordered ∧
      ∀ n ∈ nodes, n ∉ ordered → ∃ d ∈ deps n, d ∉ ordered := by
  obtain ⟨final, drained⟩ := inv.loop graph sorts nodes.length s (by simp [empty])
  have distinct := final.distinct
  have inNodes := final.inNodes
  rw [drained, List.append_nil] at distinct inNodes
  refine ⟨distinct, inNodes, final.first, fun n isNode notTaken => ?_⟩
  have positive := mt (final.ready n isNode notTaken).mpr (by simp [drained])
  rw [final.counter_zero] at positive
  push Not at positive
  exact positive

/-! ### Cycles -/

/-- In a list where everything comes after what it depends on, dependencies stand at
smaller places, so there is no way back. -/
theorem DepsFirst.acyclic (ordered : List ν) (distinct : ordered.Nodup)
    (first : DepsFirst deps ordered) (n d : ν) (member : n ∈ ordered)
    (path : Relation.TransGen (fun a b => b ∈ deps a) n d) :
    d ∈ ordered ∧ ordered.idxOf d < ordered.idxOf n := by
  -- one edge goes to a smaller place
  have edge (a b : ν) (here : a ∈ ordered) (dep : b ∈ deps a) :
      b ∈ ordered ∧ ordered.idxOf b < ordered.idxOf a := by
    obtain ⟨before, after, rfl⟩ := List.append_of_mem here
    have earlier := first before a after rfl b dep
    have notBefore : a ∉ before := fun old =>
      (List.nodup_append.mp distinct).2.2 a old a List.mem_cons_self rfl
    refine ⟨List.mem_append_left _ earlier, ?_⟩
    rw [List.idxOf_append_of_mem earlier, List.idxOf_append_of_notMem notBefore,
      List.idxOf_cons_self]
    have := List.idxOf_lt_length_iff.mpr earlier
    omega
  induction path with
  | single dep => exact edge n _ member dep
  | tail _ dep ih =>
    obtain ⟨there, less⟩ := edge _ _ ih.1 dep
    exact ⟨there, less.trans ih.2⟩

omit [DecidableEq ν] in
/-- If every element of a finite set has a successor in it, following them leads to a cycle. -/
theorem cycle_of_no_end (r : ν → ν → Prop) (left : List ν) (some_ : ∃ n, n ∈ left)
    (onward : ∀ n ∈ left, ∃ d ∈ left, r n d) : ∃ n, Relation.TransGen r n n := by
  by_contra acyclic
  push Not at acyclic
  let path (a b : { n // n ∈ left }) : Prop := Relation.TransGen r b.1 a.1
  have : IsTrans { n // n ∈ left } path := ⟨fun _ _ _ ab bc => bc.trans ab⟩
  have : Std.Irrefl path := ⟨fun a cycle => acyclic a.1 cycle⟩
  have : Finite { n // n ∈ left } := (List.finite_toSet left).to_subtype
  have wellFounded : WellFounded path := Finite.wellFounded_of_trans_of_irrefl path
  obtain ⟨start, inside⟩ := some_
  obtain ⟨last, -, minimal⟩ := wellFounded.has_min Set.univ ⟨⟨start, inside⟩, trivial⟩
  obtain ⟨next, inLeft, edge⟩ := onward last.1 last.2
  exact minimal ⟨next, inLeft⟩ trivial (.single edge)

include graph sorts in
/-- All nodes are taken if and only if no node leads back to itself. -/
theorem complete_iff_acyclic (s : State ν) (inv : Inv nodes deps s) (empty : s.ordered = [])
    (distinct : nodes.Nodup) :
    (Kahn.loop adj sort nodes.length s).ordered.length = nodes.length ↔
      ¬∃ n, Relation.TransGen (fun a b => b ∈ deps a) n n := by
  obtain ⟨nodup, inNodes, first, stuck⟩ := loop_spec graph sorts s inv empty
  constructor
  · rintro complete ⟨n, cycle⟩
    have all : (Kahn.loop adj sort nodes.length s).ordered.Perm nodes :=
      (nodup.subperm inNodes).perm_of_length_le complete.ge
    -- the first step of the cycle starts at a node
    have isNode : n ∈ nodes := by
      obtain ⟨d, dep, -⟩ := Relation.TransGen.head'_iff.mp cycle
      exact (graph.inside n d dep).1
    exact absurd (first.acyclic _ nodup n n (all.mem_iff.mpr isNode) cycle).2 (Nat.lt_irrefl _)
  · intro acyclic
    by_contra incomplete
    have missing : ∃ n, n ∈ nodes ∧ n ∉ (Kahn.loop adj sort nodes.length s).ordered := by
      by_contra none_
      push Not at none_
      exact incomplete (le_antisymm (nodup.subperm inNodes).length_le
        (distinct.subperm none_).length_le)
    apply acyclic
    apply cycle_of_no_end _ (nodes.filter fun n =>
      decide (n ∉ (Kahn.loop adj sort nodes.length s).ordered))
    · obtain ⟨n, isNode, notTaken⟩ := missing
      exact ⟨n, by simp [isNode, notTaken]⟩
    · intro n member
      obtain ⟨isNode, notTaken⟩ : n ∈ nodes ∧
          n ∉ (Kahn.loop adj sort nodes.length s).ordered := by simpa using member
      obtain ⟨d, dep, left⟩ := stuck n isNode notTaken
      exact ⟨d, by simp [(graph.inside n d dep).2, left], dep⟩

end Graph

/-! ### The order of the successor lists -/

theorem relax_perm (indegree : ν → Int) (succs succs' : List ν) (same : succs.Perm succs') :
    (relax indegree succs).1 = (relax indegree succs').1 ∧
      (relax indegree succs).2.Perm (relax indegree succs').2 := by
  constructor
  · funext n
    rw [relax_indegree, relax_indegree, same.count_eq]
  · refine (List.perm_ext_iff_of_nodup (relax_nodup _ _) (relax_nodup _ _)).mpr fun n => ?_
    rw [mem_relax, mem_relax, same.count_eq]

/-- Two graphs whose successor lists are rearranged go through the same states, if the
freed nodes are put in an order of their own. -/
theorem loop_congr (adj adj' : ν → List ν) (sort : List ν → List ν)
    (same : ∀ n, (adj n).Perm (adj' n))
    (canonical : ∀ n l l', (∀ x ∈ l, x ∈ adj n) → l.Nodup → l.Perm l' → sort l = sort l')
    (fuel : Nat) (s : State ν) : loop adj sort fuel s = loop adj' sort fuel s := by
  induction fuel generalizing s with
  | zero => rfl
  | succ fuel ih =>
    have round : step adj sort s = step adj' sort s := by
      obtain ⟨queue, ordered, indegree⟩ := s
      cases queue with
      | nil => rfl
      | cons name queue =>
        obtain ⟨counters, freed⟩ := relax_perm indegree (adj name) (adj' name) (same name)
        have inside : ∀ x ∈ (relax indegree (adj name)).2, x ∈ adj name := by
          intro x member
          obtain ⟨positive, enough⟩ := (mem_relax _ _ _).mp member
          exact List.count_pos_iff.mp (by omega)
        simp only [step]
        rw [counters, canonical name _ _ inside (relax_nodup _ _) freed]
    rw [loop, loop, round, ih]

omit [DecidableEq ν] in
/-- Sorting by a rank that tells the elements apart does not depend on the order before. -/
theorem insertionSort_rank_congr (rank : ν → Nat) (l l' : List ν) (perm : l.Perm l')
    (apart : ∀ a ∈ l, ∀ b ∈ l, rank a = rank b → a = b) :
    l.insertionSort (fun a b => rank a ≤ rank b) = l'.insertionSort (fun a b => rank a ≤ rank b) := by
  have total : Std.Total (fun a b : ν => rank a ≤ rank b) := ⟨fun a b => Nat.le_total _ _⟩
  have trans : IsTrans ν (fun a b : ν => rank a ≤ rank b) := ⟨fun _ _ _ => Nat.le_trans⟩
  refine List.Perm.eq_of_pairwise ?_ (List.pairwise_insertionSort _ l)
    (List.pairwise_insertionSort _ l') ?_
  · intro a b inside inside' ab ba
    have here := (List.mem_insertionSort _).mp inside
    have there := perm.mem_iff.mpr ((List.mem_insertionSort _).mp inside')
    exact apart a here b there (Nat.le_antisymm ab ba)
  · exact (List.perm_insertionSort _ l).trans (perm.trans (List.perm_insertionSort _ l').symm)

end Kahn
