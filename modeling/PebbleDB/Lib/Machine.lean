import Mathlib.Data.List.Basic

/-!
# Runs of a state machine

A machine is a total step function on states and inputs; an input that is not
enabled leaves the state as it is, so every list of inputs is a run. A result about
all runs is an invariant that one step preserves, possibly only for inputs that
meet a condition in the state they find; a machine refines another if a view of its
states follows the steps of the other.
-/
namespace Machine

variable {σ ι : Type}

def run (step : σ → ι → σ) (s : σ) (inputs : List ι) : σ := inputs.foldl step s

@[simp] theorem run_nil (step : σ → ι → σ) (s : σ) : run step s [] = s := rfl

@[simp] theorem run_cons (step : σ → ι → σ) (s : σ) (i : ι) (inputs : List ι) :
    run step s (i :: inputs) = run step (step s i) inputs := rfl

theorem run_append (step : σ → ι → σ) (s : σ) (inputs later : List ι) :
    run step s (inputs ++ later) = run step (run step s inputs) later := List.foldl_append

/-- Every input of the run meets `ok` in the state it finds. -/
def Always (step : σ → ι → σ) (ok : σ → ι → Prop) : σ → List ι → Prop
  | _, [] => True
  | s, i :: inputs => ok s i ∧ Always step ok (step s i) inputs

instance Always.decidable (step : σ → ι → σ) (ok : σ → ι → Prop)
    [dec : ∀ s i, Decidable (ok s i)] : ∀ s inputs, Decidable (Always step ok s inputs)
  | _, [] => .isTrue trivial
  | s, i :: inputs =>
    match dec s i, decidable step ok (step s i) inputs with
    | .isTrue first, .isTrue later => .isTrue ⟨first, later⟩
    | .isFalse first, _ => .isFalse fun all => first all.1
    | _, .isFalse later => .isFalse fun all => later all.2

theorem always_true (step : σ → ι → σ) (s : σ) (inputs : List ι) :
    Always step (fun _ _ => True) s inputs := by
  induction inputs generalizing s with
  | nil => trivial
  | cons i inputs ih => exact ⟨trivial, ih (step s i)⟩

theorem always_append (step : σ → ι → σ) (ok : σ → ι → Prop) (s : σ) (inputs later : List ι) :
    Always step ok s (inputs ++ later) ↔
      Always step ok s inputs ∧ Always step ok (run step s inputs) later := by
  induction inputs generalizing s with
  | nil => simp [Always]
  | cons i inputs ih => exact (and_congr_right fun _ => ih (step s i)).trans and_assoc.symm

/-- What holds at the start and is kept by every step holds after the run. -/
theorem run_invariant (step : σ → ι → σ) (ok : σ → ι → Prop) (inv : σ → Prop)
    (keeps : ∀ s i, inv s → ok s i → inv (step s i))
    (s : σ) (inputs : List ι) (initial : inv s) (always : Always step ok s inputs) :
    inv (run step s inputs) := by
  induction inputs generalizing s with
  | nil => exact initial
  | cons i inputs ih => exact ih (step s i) (keeps s i initial always.1) always.2

/-- An invariant that needs nothing of the inputs. -/
theorem run_always (step : σ → ι → σ) (inv : σ → Prop) (keeps : ∀ s i, inv s → inv (step s i))
    (s : σ) (inputs : List ι) (initial : inv s) : inv (run step s inputs) :=
  run_invariant step (fun _ _ => True) inv (fun s i holds _ => keeps s i holds) s inputs initial
    (always_true step s inputs)

/-- A condition that follows from another one and an invariant. -/
theorem Always.of_invariant {step : σ → ι → σ} {ok more : σ → ι → Prop} {inv : σ → Prop}
    (keeps : ∀ s i, inv s → ok s i → inv (step s i)) (follows : ∀ s i, inv s → ok s i → more s i)
    (s : σ) (inputs : List ι) (initial : inv s) (always : Always step ok s inputs) :
    Always step more s inputs := by
  induction inputs generalizing s with
  | nil => trivial
  | cons i inputs ih =>
    exact ⟨follows s i initial always.1, ih (step s i) (keeps s i initial always.1) always.2⟩

/-- If a step keeps a property exactly when its input meets the condition, then the property
holds all along the run exactly when all inputs meet it. -/
theorem along_iff_always (step : σ → ι → σ) (ok : σ → ι → Prop) (inv holds : σ → Prop)
    (keeps : ∀ s i, inv s → inv (step s i))
    (decided : ∀ s i, inv s → holds s → (holds (step s i) ↔ ok s i))
    (s : σ) (inputs : List ι) (initial : inv s) (start : holds s) :
    (∀ before, before <+: inputs → holds (run step s before)) ↔ Always step ok s inputs := by
  induction inputs generalizing s with
  | nil =>
    refine iff_of_true (fun before isPart => ?_) trivial
    rwa [List.prefix_nil.mp isPart]
  | cons i inputs ih =>
    constructor
    · intro along
      have next : holds (step s i) := along [i] ⟨inputs, rfl⟩
      refine ⟨(decided s i initial start).mp next, (ih (step s i) (keeps s i initial) next).mp ?_⟩
      exact fun before isPart => along (i :: before) ((List.prefix_cons_inj i).mpr isPart)
    · rintro ⟨here, later⟩ before isPart
      have next := (decided s i initial start).mpr here
      cases before with
      | nil => exact start
      | cons j before =>
        obtain ⟨rfl, rest⟩ := List.cons_prefix_cons.mp isPart
        exact (ih (step s j) (keeps s j initial) next).mpr later before rest

/-- A view that follows every step follows the run, as long as the inputs meet the condition. -/
theorem run_view_of_always {τ κ : Type} (step : σ → ι → σ) (ok : σ → ι → Prop)
    (abstract : τ → κ → τ) (view : σ → τ) (label : ι → κ) (inv : σ → Prop)
    (keeps : ∀ s i, inv s → ok s i → inv (step s i))
    (follows : ∀ s i, inv s → ok s i → view (step s i) = abstract (view s) (label i))
    (s : σ) (inputs : List ι) (initial : inv s) (always : Always step ok s inputs) :
    view (run step s inputs) = run abstract (view s) (inputs.map label) := by
  induction inputs generalizing s with
  | nil => rfl
  | cons i inputs ih =>
    rw [run_cons, List.map_cons, run_cons, ← follows s i initial always.1]
    exact ih (step s i) (keeps s i initial always.1) always.2

/-- A view that follows every step whatever the inputs are. -/
theorem run_view {τ κ : Type} (step : σ → ι → σ) (abstract : τ → κ → τ) (view : σ → τ)
    (label : ι → κ) (inv : σ → Prop) (keeps : ∀ s i, inv s → inv (step s i))
    (follows : ∀ s i, inv s → view (step s i) = abstract (view s) (label i))
    (s : σ) (inputs : List ι) (initial : inv s) :
    view (run step s inputs) = run abstract (view s) (inputs.map label) :=
  run_view_of_always step (fun _ _ => True) abstract view label inv
    (fun s i holds _ => keeps s i holds) (fun s i holds _ => follows s i holds) s inputs initial
    (always_true step s inputs)

end Machine
