import PebbleDB.Iterator.Merge
import PebbleDB.Lib.Lists

/-!
# Merges that leave something out

Two things keep entries out of a merge. A source can fail: `Next` then returns the error,
and a merge that returns nil has met none. But a source that is not valid to begin with
is never asked. And a source that stands on the empty key returns nil for it, which the
search for the smallest key takes for "nothing found so far": the source never moves
again, and only the sources behind it are merged.
-/
namespace PebbleDB.Iterator

variable {ι ε σ : Type}

/-! ### Sources that fail -/

/-- The iterator hands out the entries; `Next` on the last of them returns `fault`. -/
def Serves (I : Interface ι ε) (fault : Option ε) : ι → List Entry → Prop
  | it, [] => I.valid it = false
  | it, e :: es => I.valid it = true ∧ I.key it = cloneBytes e.key ∧
      I.kept it = (cloneBytes e.key, cloneBytes e.value) ∧ I.isTombstone it = e.tombstone ∧
      (I.next it).2 = (if es = [] then fault else none) ∧ Serves I fault (I.next it).1 es

theorem Serves.yields (I : Interface ι ε) (es : List Entry) (it : ι) (serves : Serves I none it es) :
    Yields I it es := by
  induction es generalizing it with
  | nil => exact serves
  | cons e es ih =>
    obtain ⟨valid, key, kept, tombstone, noError, later⟩ := serves
    rw [ite_self] at noError
    exact ⟨valid, key, kept, tombstone, noError, ih _ later⟩

/-- A source that serves the entries before its fault. -/
def ServesView (I : Interface ι ε) (s : Source ι) (v : List Entry × Option ε) : Prop :=
  Serves I v.2 s.it v.1

theorem ServesView.heads (I : Interface ι ε) (s : Source ι) (v : List Entry × Option ε)
    (serves : ServesView I s v) (keyed : ∀ e ∈ v.1, e.key ≠ []) : Heads I s v := by
  obtain ⟨es, fault⟩ := v
  cases es with
  | nil => exact .inl ⟨serves, rfl⟩
  | cons e es =>
    refine .inr ⟨e, es, rfl, serves.1, ?_⟩
    rw [serves.2.1]
    exact cloneBytes_of_ne_nil e.key (keyed e (by simp))

/-- What a step on `m` leaves of a source. One that was on its last entry had no fault. -/
def Advanced (m : Bytes) (v v' : List Entry × Option ε) : Prop :=
  v'.2 = v.2 ∧ (v'.1 = v.1 ∧ (∀ e es, v.1 = e :: es → e.key ≠ m) ∨
    ∃ e, v.1 = e :: v'.1 ∧ e.key = m ∧ (v'.1 = [] → v.2 = none))

theorem advanceAll_serves (I : Interface ι ε) (m : Bytes) (srcs : List (Source ι))
    (view : List (List Entry × Option ε)) (serves : List.Forall₂ (ServesView I) srcs view)
    (srcs' : List (Source ι)) (advanced : advanceAll I m srcs = .ok srcs') :
    ∃ view', List.Forall₂ (ServesView I) srcs' view' ∧ List.Forall₂ (Advanced m) view view' := by
  induction serves generalizing srcs' with
  | nil =>
    cases advanced
    exact ⟨[], .nil, .nil⟩
  | @cons s v srcs view first _ ih =>
    obtain ⟨es, fault⟩ := v
    -- a source that does not stand on the key stays
    have stay (skip : standsOn I m s = false) (apart : ∀ e rest, es = e :: rest → e.key ≠ m) :
        ∃ view', List.Forall₂ (ServesView I) srcs' view' ∧
          List.Forall₂ (Advanced m) ((es, fault) :: view) view' := by
      rw [advanceAll, skip] at advanced
      simp only [Bool.false_eq_true, if_false] at advanced
      obtain ⟨rest, done, built⟩ := (Except.bind_eq_ok _ _ _).mp advanced
      cases built
      obtain ⟨view', served, moved⟩ := ih rest done
      exact ⟨(es, fault) :: view', .cons first served, .cons ⟨rfl, .inl ⟨rfl, apart⟩⟩ moved⟩
    cases es with
    | nil =>
      have invalid : I.valid s.it = false := first
      exact stay (by simp [standsOn, invalid]) (by simp)
    | cons e es =>
      obtain ⟨valid, key, -, -, next, onward⟩ := first
      have stands : standsOn I m s = decide (e.key = m) := by simp [standsOn, valid, key]
      by_cases here : e.key = m
      · rw [advanceAll, stands, if_pos (by simpa using here)] at advanced
        cases step : I.next s.it with
        | mk it err =>
          rw [step] at advanced next onward
          cases err with
          | some err => cases advanced
          | none =>
            obtain ⟨rest, done, built⟩ := (Except.bind_eq_ok _ _ _).mp advanced
            cases built
            obtain ⟨view', served, moved⟩ := ih rest done
            refine ⟨(es, fault) :: view', .cons onward served,
              .cons ⟨rfl, .inr ⟨e, rfl, here, fun last => ?_⟩⟩ moved⟩
            rw [if_pos last] at next
            exact next.symm
      · exact stay (by simp [stands, here]) (by rintro x xs ⟨rfl, rfl⟩; exact here)

/-- The step takes an entry from some source. -/
theorem Advanced.fewer (m : Bytes) (view view' : List (List Entry × Option ε))
    (moved : List.Forall₂ (Advanced m) view view') :
    (view'.map fun v => v.1.length).sum ≤ (view.map fun v => v.1.length).sum ∧
      ((∃ v ∈ view, ∃ e es, v.1 = e :: es ∧ e.key = m) →
        (view'.map fun v => v.1.length).sum < (view.map fun v => v.1.length).sum) := by
  induction moved with
  | nil => simp
  | @cons v v' view view' first _ ih =>
    obtain ⟨atMost, strictly⟩ := ih
    simp only [List.map_cons, List.sum_cons, List.exists_mem_cons_iff]
    rcases first.2 with ⟨same, apart⟩ | ⟨e, head, key, -⟩
    · rw [same]
      refine ⟨by omega, ?_⟩
      rintro (⟨e, es, head, key⟩ | inside)
      · exact absurd key (apart e es head)
      · have := strictly inside
        omega
    · rw [head, List.length_cons]
      exact ⟨by omega, fun _ => by omega⟩

theorem Advanced.keyed (m : Bytes) (view view' : List (List Entry × Option ε))
    (moved : List.Forall₂ (Advanced m) view view')
    (keyed : ∀ v ∈ view, ∀ e ∈ v.1, e.key ≠ []) : ∀ v ∈ view', ∀ e ∈ v.1, e.key ≠ [] := by
  intro v' member e inside
  obtain ⟨v, before, -, same | ⟨x, head, -⟩⟩ := moved.exists_left v' member
  · rw [same.1] at inside
    exact keyed v before e inside
  · refine keyed v before e ?_
    rw [head]
    exact List.mem_cons_of_mem _ inside

/-- A merge that returns nil has met no fault: the sources that served an entry have served
all of them. -/
theorem forEachMergedFrom_nil (I : Interface ι ε) (fn : σ → Slice → Slice → Bool → σ × Option ε)
    (fuel : Nat) (srcs : List (Source ι)) (view : List (List Entry × Option ε))
    (serves : List.Forall₂ (ServesView I) srcs view)
    (keyed : ∀ v ∈ view, ∀ e ∈ v.1, e.key ≠ [])
    (enough : (view.map fun v => v.1.length).sum < fuel) (acc : σ)
    (nil_ : (forEachMergedFrom I false fn fuel srcs acc).2 = none) :
    ∀ v ∈ view, v.1 ≠ [] → v.2 = none := by
  induction fuel generalizing srcs view acc with
  | zero => omega
  | succ fuel ih =>
    have heads : List.Forall₂ (Heads I) srcs view := by
      clear enough nil_ ih
      induction serves with
      | nil => exact .nil
      | @cons s v srcs view first _ ih =>
        obtain ⟨here, later⟩ := List.forall_mem_cons.mp keyed
        exact .cons (first.heads I s v here) (ih later)
    have smallest := minKeyAcrossSources_spec I srcs view heads
    rw [forEachMergedFrom, mergeStep] at nil_
    cases found : minKeyAcrossSources I srcs with
    | none =>
      rw [found] at smallest
      intro v member some_
      exact absurd (smallest v member) some_
    | some m =>
      rw [found] at smallest nil_
      have present := smallest.1
      cases advanced : advanceAll I m srcs with
      | error e => simp [advanced] at nil_
      | ok srcs' =>
        obtain ⟨view', served, moved⟩ := advanceAll_serves I m srcs view serves srcs' advanced
        have fewer := (Advanced.fewer m view view' moved).2 present
        simp only [advanced, Except.ok_bind, Bool.and_false, Bool.false_eq_true, if_false] at nil_
        split at nil_
        · cases nil_
        · -- what is left is served without a fault; what ended with this step had none
          have later := ih srcs' view' served (Advanced.keyed m view view' moved keyed)
            (by omega) _ nil_
          intro v member some_
          obtain ⟨v', inside, fault, same | ⟨e, head, -, last⟩⟩ := moved.exists_right v member
          · rw [← fault]
            exact later v' inside (by rwa [same.1])
          · by_cases ended : v'.1 = []
            · exact last ended
            · rw [← fault]
              exact later v' inside ended

/-! ### The empty key -/

theorem minKeyFrom_append (I : Interface ι ε) (acc : Slice) (front back : List (Source ι)) :
    minKeyFrom I acc (front ++ back) = minKeyFrom I (minKeyFrom I acc front) back := by
  induction front generalizing acc with
  | nil => rfl
  | cons s front ih =>
    rw [List.cons_append, minKeyFrom, minKeyFrom]
    split
    · split <;> exact ih _
    · exact ih _

theorem winnerFrom_append (I : Interface ι ε) (m : Bytes) (best : Winner)
    (front back : List (Source ι)) :
    winnerFrom I m best (front ++ back) = winnerFrom I m (winnerFrom I m best front) back := by
  induction front generalizing best with
  | nil => rfl
  | cons s front ih =>
    rw [List.cons_append, winnerFrom, winnerFrom]
    split
    · split <;> exact ih _
    · exact ih _

theorem advanceAll_append (I : Interface ι ε) (m : Bytes) (front back : List (Source ι)) :
    advanceAll I m (front ++ back) = (do
      let front ← advanceAll I m front
      let back ← advanceAll I m back
      .ok (front ++ back)) := by
  induction front with
  | nil =>
    rw [List.nil_append, advanceAll, Except.ok_bind]
    cases advanceAll I m back <;> rfl
  | cons s front ih =>
    rw [List.cons_append, advanceAll, advanceAll, ih]
    split
    · split
      · rfl
      · cases advanceAll I m front with
        | error e => rfl
        | ok front' => cases advanceAll I m back <;> rfl
    · cases advanceAll I m front with
      | error e => rfl
      | ok front' => cases advanceAll I m back <;> rfl

theorem winnerFrom_priority (I : Interface ι ε) (m : Bytes) (srcs : List (Source ι)) (bound : Int)
    (below : ∀ s ∈ srcs, s.priority < bound) (best : Winner) (start : best.priority < bound) :
    (winnerFrom I m best srcs).priority < bound := by
  induction srcs generalizing best with
  | nil => exact start
  | cons s srcs ih =>
    obtain ⟨here, later⟩ := List.forall_mem_cons.mp below
    rw [winnerFrom]
    split
    · split
      · exact ih later _ here
      · exact ih later best start
    · exact ih later best start

/-- Where the selection starts does not matter once a source beats both starts. -/
theorem winnerFrom_congr (I : Interface ι ε) (m : Bytes) (srcs : List (Source ι))
    (best other : Winner)
    (beaten : ∃ s ∈ srcs, standsOn I m s = true ∧ best.priority < s.priority ∧
      other.priority < s.priority) :
    winnerFrom I m best srcs = winnerFrom I m other srcs := by
  induction srcs generalizing best other with
  | nil =>
    obtain ⟨s, member, -⟩ := beaten
    cases member
  | cons t srcs ih =>
    obtain ⟨s, member, stands, beatsBest, beatsOther⟩ := beaten
    rw [winnerFrom, winnerFrom]
    rcases List.mem_cons.mp member with rfl | inside
    · rw [if_pos stands, if_pos beatsBest, if_pos stands, if_pos beatsOther]
    · by_cases front : standsOn I m t = true
      · rw [if_pos front, if_pos front]
        by_cases first : best.priority < t.priority
        · by_cases second : other.priority < t.priority
          · rw [if_pos first, if_pos second]
          · rw [if_pos first, if_neg second]
            exact ih _ _ ⟨s, inside, stands, by simp only; omega, beatsOther⟩
        · by_cases second : other.priority < t.priority
          · rw [if_neg first, if_pos second]
            exact ih _ _ ⟨s, inside, stands, beatsBest, by simp only; omega⟩
          · rw [if_neg first, if_neg second]
            exact ih _ _ ⟨s, inside, stands, beatsBest, beatsOther⟩
      · rw [if_neg front, if_neg front]
        exact ih _ _ ⟨s, inside, stands, beatsBest, beatsOther⟩

theorem minKeyFrom_ne (I : Interface ι ε) (copies : ∀ it, I.key it ≠ some [])
    (srcs : List (Source ι)) (acc : Slice) (start : acc ≠ some []) :
    minKeyFrom I acc srcs ≠ some [] := by
  intro found
  rcases minKeyFrom_attained I srcs acc [] found with here | ⟨s, -, -, key⟩
  · exact start here
  · exact copies s.it key

/-- The key of a source on the empty key is nil, and the search starts again behind it. -/
theorem minKeyAcrossSources_stuck (I : Interface ι ε) (copies : ∀ it, I.key it ≠ some [])
    (front : List (Source ι)) (stuck : Source ι) (back : List (Source ι))
    (valid : I.valid stuck.it = true) (noKey : I.key stuck.it = none) :
    minKeyAcrossSources I (front ++ stuck :: back) = minKeyAcrossSources I back := by
  rw [minKeyAcrossSources, minKeyFrom_append, minKeyFrom, if_pos valid, noKey]
  have found := minKeyFrom_ne I copies front none (by simp)
  cases h : minKeyFrom I none front with
  | none => rfl
  | some m =>
    have smaller : ([] : Bytes) < m := by
      cases m with
      | nil => exact absurd h found
      | cons x xs => exact List.nil_lt_cons x xs
    rw [if_pos (.inr smaller)]
    rfl

/-- With a source that stands on the empty key, only the sources behind it are merged. The
sources before it, all of lower priority, may move but never win. -/
theorem forEachMergedFrom_stuck (I : Interface ι ε) (copies : ∀ it, I.key it ≠ some [])
    (fn : σ → Slice → Slice → Bool → σ × Option ε) (stuck : Source ι)
    (valid : I.valid stuck.it = true) (noKey : I.key stuck.it = none) (fuel : Nat)
    (front back : List (Source ι)) (view : View) (shows : List.Forall₂ (Shows I) front view)
    (priority : ∀ t ∈ back.map Source.priority, -1 < t ∧ ∀ s ∈ front.map Source.priority, s < t)
    (acc : σ) :
    forEachMergedFrom I false fn fuel (front ++ stuck :: back) acc =
      forEachMergedFrom I false fn fuel back acc := by
  induction fuel generalizing front back view acc with
  | zero => rfl
  | succ fuel ih =>
    rw [forEachMergedFrom, forEachMergedFrom, mergeStep, mergeStep,
      minKeyAcrossSources_stuck I copies front stuck back valid noKey]
    cases found : minKeyAcrossSources I back with
    | none => rfl
    | some m =>
      rcases minKeyFrom_attained I back none m found with none_ | ⟨t, member, stands, key⟩
      · cases none_
      have nonempty : m ≠ [] := by
        rintro rfl
        exact copies t.it key
      have skip : standsOn I m stuck = false := by
        simp [standsOn, valid, noKey, Slice.bytes, nonempty.symm]
      -- a source behind the stuck one stands on the key, so one of them wins
      have winner : winnerFrom I m ⟨-1, none, none, false⟩ (front ++ stuck :: back) =
          winnerFrom I m ⟨-1, none, none, false⟩ back := by
        obtain ⟨positive, higher⟩ := priority t.priority (List.mem_map_of_mem member)
        rw [winnerFrom_append, winnerFrom, skip]
        simp only [Bool.false_eq_true, if_false]
        refine winnerFrom_congr I m back _ _ ⟨t, member, stands, ?_, positive⟩
        exact winnerFrom_priority I m front t.priority
          (fun s inside => higher s.priority (List.mem_map_of_mem inside)) _ positive
      obtain ⟨front', advancedFront, shows'⟩ := advanceAll_ok I m front view shows
      have stays : advanceAll I m (front ++ stuck :: back) = (do
          let back ← advanceAll I m back
          .ok (front' ++ stuck :: back)) := by
        rw [advanceAll_append, advancedFront, Except.ok_bind, advanceAll, skip]
        simp only [Bool.false_eq_true, if_false]
        cases advanceAll I m back <;> rfl
      simp only [winner, stays]
      cases advanced : advanceAll I m back with
      | error e => rfl
      | ok back' =>
        simp only [Except.ok_bind, Bool.and_false, Bool.false_eq_true, if_false]
        split
        · rfl
        · apply ih front' back' _ shows'
          rw [advanceAll_priority I m front front' advancedFront,
            advanceAll_priority I m back back' advanced]
          exact priority

end PebbleDB.Iterator
