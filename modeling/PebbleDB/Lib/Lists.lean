import Mathlib.Data.List.Basic
import Mathlib.Data.List.Forall2
import Mathlib.Data.List.Nodup

/-!
# Lists by position, by values and side by side
-/
namespace List

variable {α β : Type}

/-! ### Positions -/

theorem forall_getElem?_cons (P : Nat → α → Prop) (a : α) (as : List α) :
    (∀ i x, (a :: as)[i]? = some x → P i x) ↔ P 0 a ∧ ∀ i x, as[i]? = some x → P (i + 1) x := by
  constructor
  · intro all
    exact ⟨all 0 a rfl, fun i x is => all (i + 1) x is⟩
  · rintro ⟨first, later⟩ (_ | i) x is
    · cases is
      exact first
    · exact later i x is

/-- The last element that fails a predicate, if one does. -/
theorem exists_last_of_not_forall (P : α → Prop) (as : List α) (failing : ¬∀ a ∈ as, P a) :
    ∃ front a back, as = front ++ a :: back ∧ ¬P a ∧ ∀ b ∈ back, P b := by
  induction as with
  | nil => exact absurd (by simp) failing
  | cons a as ih =>
    by_cases later : ∀ b ∈ as, P b
    · refine ⟨[], a, as, rfl, fun here => failing ?_, later⟩
      exact forall_mem_cons.mpr ⟨here, later⟩
    · obtain ⟨front, b, back, rfl, fails, rest⟩ := ih later
      exact ⟨a :: front, b, back, rfl, fails, rest⟩

/-- An element after a change in one place is one from before or the changed one. -/
theorem mem_modify (f : α → α) (i : Nat) (as : List α) (x : α) (member : x ∈ as.modify i f) :
    ∃ a ∈ as, x = a ∨ x = f a := by
  obtain ⟨j, is⟩ := mem_iff_getElem?.mp member
  rw [getElem?_modify] at is
  obtain ⟨a, old, rfl⟩ := Option.map_eq_some_iff.mp is
  refine ⟨a, mem_of_getElem? old, ?_⟩
  split
  · exact .inr rfl
  · exact .inl rfl

theorem nodup_map_concat (f : α → β) (as : List α) (a : α) (distinct : (as.map f).Nodup)
    (new : f a ∉ as.map f) : ((as ++ [a]).map f).Nodup := by
  rw [map_append, map_singleton, ← concat_eq_append]
  exact distinct.concat new

/-! ### Partners in two related lists -/

section Forall2

variable {R : α → β → Prop} {as : List α} {bs : List β}

theorem Forall₂.exists_right (related : Forall₂ R as bs) (a : α) (member : a ∈ as) :
    ∃ b ∈ bs, R a b := by
  induction related with
  | nil => cases member
  | cons first _ ih =>
    rcases mem_cons.mp member with rfl | later
    · exact ⟨_, mem_cons_self, first⟩
    · obtain ⟨b, inside, holds⟩ := ih later
      exact ⟨b, mem_cons_of_mem _ inside, holds⟩

theorem Forall₂.exists_left (related : Forall₂ R as bs) (b : β) (member : b ∈ bs) :
    ∃ a ∈ as, R a b := by
  have flipped : Forall₂ (fun b a => R a b) bs as := related.flip
  exact flipped.exists_right b member

end Forall2

end List
