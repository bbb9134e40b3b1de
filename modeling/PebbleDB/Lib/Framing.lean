import Mathlib.Data.List.Basic
import Mathlib.Data.List.Flatten

/-!
# Scanning a log of frames

A reader takes one frame off the front of its input and reports how much of the
input the frame used, or stops with a reason. Scanning repeats the reader. The
results here are independent of what a frame is: they need only that a reader
gives back an encoded item whatever follows it, and that it always moves on.
-/
namespace Framing

variable {σ α ε : Type}

/-- What a scan found: the items, how much input they used, and why it stopped
(`none` only when it ran out of fuel). -/
structure Scan (α ε : Type) where
  items : List α
  consumed : Nat
  stop : Option ε
  deriving DecidableEq, Repr

def scan (read : List σ → Except ε (α × Nat)) : Nat → List σ → Scan α ε
  | 0, _ => ⟨[], 0, none⟩
  | fuel + 1, input =>
    match read input with
    | .error e => ⟨[], 0, some e⟩
    | .ok (a, n) =>
      let rest := scan read fuel (input.drop n)
      ⟨a :: rest.items, n + rest.consumed, rest.stop⟩

/-- Every frame is non-empty and lies inside the input. -/
def Progress (read : List σ → Except ε (α × Nat)) : Prop :=
  ∀ input a n, read input = .ok (a, n) → 0 < n ∧ n ≤ input.length

/-- `enc a` is read back as `a`, and all of it is used, whatever comes next. -/
def Reads (read : List σ → Except ε (α × Nat)) (enc : α → List σ) (a : α) : Prop :=
  ∀ rest, read (enc a ++ rest) = .ok (a, (enc a).length)

theorem scan_error (read : List σ → Except ε (α × Nat)) (fuel : Nat) (input : List σ) (e : ε)
    (stopped : read input = .error e) : scan read (fuel + 1) input = ⟨[], 0, some e⟩ := by
  simp [scan, stopped]

/-- Beyond the length of the input, fuel makes no difference. -/
theorem scan_fuel (read : List σ → Except ε (α × Nat)) (progress : Progress read)
    (fuel extra : Nat) (input : List σ) (enough : input.length < fuel) :
    scan read (fuel + extra) input = scan read fuel input := by
  induction fuel generalizing input with
  | zero => omega
  | succ fuel ih =>
    rw [Nat.succ_add]
    cases h : read input with
    | error e => simp only [scan, h]
    | ok frame =>
      obtain ⟨a, n⟩ := frame
      have moved := progress input a n h
      have shorter : (input.drop n).length < fuel := by
        rw [List.length_drop]
        omega
      simp only [scan, h, ih _ shorter]

theorem scan_stops (read : List σ → Except ε (α × Nat)) (progress : Progress read)
    (fuel : Nat) (input : List σ) (enough : input.length < fuel) :
    ∃ e, (scan read fuel input).stop = some e := by
  induction fuel generalizing input with
  | zero => omega
  | succ fuel ih =>
    cases h : read input with
    | error e => exact ⟨e, by simp only [scan, h]⟩
    | ok frame =>
      obtain ⟨a, n⟩ := frame
      have moved := progress input a n h
      have shorter : (input.drop n).length < fuel := by
        rw [List.length_drop]
        omega
      obtain ⟨e, stopped⟩ := ih _ shorter
      exact ⟨e, by simpa only [scan, h] using stopped⟩

/-- A scan passes over a concatenation of encoded items and goes on with the rest. -/
theorem scan_encoded (read : List σ → Except ε (α × Nat)) (enc : α → List σ)
    (fuel : Nat) (as : List α) (rest : List σ) (reads : ∀ a ∈ as, Reads read enc a) :
    scan read (as.length + fuel) (as.flatMap enc ++ rest) =
      ⟨as ++ (scan read fuel rest).items,
        (as.flatMap enc).length + (scan read fuel rest).consumed,
        (scan read fuel rest).stop⟩ := by
  induction as with
  | nil => simp
  | cons a as ih =>
    have first : read (enc a ++ (as.flatMap enc ++ rest)) = .ok (a, (enc a).length) :=
      reads a (by simp) _
    have tail := ih (fun b member => reads b (by simp [member]))
    simp only [List.flatMap_cons, List.append_assoc, List.length_cons, Nat.succ_add, scan, first,
      List.drop_left, tail, List.cons_append, List.length_append, Nat.add_assoc]

/-- Scanning with fuel to spare: the encoded items come first, then whatever the
scan of the rest finds. -/
theorem scan_log (read : List σ → Except ε (α × Nat)) (enc : α → List σ)
    (progress : Progress read) (as : List α) (rest : List σ)
    (reads : ∀ a ∈ as, Reads read enc a) (fuel : Nat)
    (enough : (as.flatMap enc ++ rest).length < fuel) :
    scan read fuel (as.flatMap enc ++ rest) =
      ⟨as ++ (scan read (rest.length + 1) rest).items,
        (as.flatMap enc).length + (scan read (rest.length + 1) rest).consumed,
        (scan read (rest.length + 1) rest).stop⟩ := by
  have big := scan_fuel read progress fuel (as.length + (rest.length + 1)) _ enough
  have spareFirst : scan read (fuel + (as.length + (rest.length + 1))) (as.flatMap enc ++ rest) =
      scan read (as.length + (rest.length + 1 + fuel)) (as.flatMap enc ++ rest) := by
    congr 1
    omega
  rw [← big, spareFirst, scan_encoded read enc _ as rest reads,
    scan_fuel read progress (rest.length + 1) fuel rest (Nat.lt_succ_self _)]

/-- A frame that was read is read again from its own bytes alone, whatever follows. -/
def Local (read : List σ → Except ε (α × Nat)) : Prop :=
  ∀ input a n rest, read input = .ok (a, n) → read (input.take n ++ rest) = .ok (a, n)

private theorem scan_take (read : List σ → Except ε (α × Nat)) (progress : Progress read)
    (loc : Local read) (fuel more : Nat) (input rest : List σ) :
    scan read ((scan read fuel input).items.length + more)
        (input.take (scan read fuel input).consumed ++ rest) =
      ⟨(scan read fuel input).items ++ (scan read more rest).items,
        (scan read fuel input).consumed + (scan read more rest).consumed,
        (scan read more rest).stop⟩ := by
  induction fuel generalizing input with
  | zero => simp [scan]
  | succ fuel ih =>
    cases h : read input with
    | error e => simp [scan, h]
    | ok frame =>
      obtain ⟨a, n⟩ := frame
      have moved := progress input a n h
      have prefixLen : (input.take n).length = n := by
        rw [List.length_take]
        omega
      have cut : input.take (n + (scan read fuel (input.drop n)).consumed) ++ rest =
          input.take n ++
            ((input.drop n).take (scan read fuel (input.drop n)).consumed ++ rest) := by
        rw [List.take_add, List.append_assoc]
      have again := loc input a n
        ((input.drop n).take (scan read fuel (input.drop n)).consumed ++ rest) h
      have skip : (input.take n ++
          ((input.drop n).take (scan read fuel (input.drop n)).consumed ++ rest)).drop n =
          (input.drop n).take (scan read fuel (input.drop n)).consumed ++ rest :=
        List.drop_left' prefixLen
      simp only [scan, h, List.length_cons, Nat.succ_add, cut, again, skip, ih,
        List.cons_append, Nat.add_assoc]

/-- The part of an input that a scan accepted is accepted again in front of anything. -/
theorem scan_accepted (read : List σ → Except ε (α × Nat)) (progress : Progress read)
    (loc : Local read) (fuel : Nat) (input rest : List σ) (big : Nat)
    (enough : (input.take (scan read fuel input).consumed ++ rest).length < big) :
    scan read big (input.take (scan read fuel input).consumed ++ rest) =
      ⟨(scan read fuel input).items ++ (scan read (rest.length + 1) rest).items,
        (scan read fuel input).consumed + (scan read (rest.length + 1) rest).consumed,
        (scan read (rest.length + 1) rest).stop⟩ := by
  have spare := scan_fuel read progress big
    ((scan read fuel input).items.length + (rest.length + 1)) _ enough
  have spareFirst : big + ((scan read fuel input).items.length + (rest.length + 1)) =
      (scan read fuel input).items.length + (rest.length + 1 + big) := by
    omega
  rw [← spare, spareFirst, scan_take read progress loc fuel (rest.length + 1 + big) input rest,
    scan_fuel read progress (rest.length + 1) big rest (Nat.lt_succ_self _)]

/-- What is left of the input where a scan stops is what the reader refused. -/
theorem scan_stopped_at (read : List σ → Except ε (α × Nat)) (fuel : Nat) (input : List σ) (e : ε)
    (stopped : (scan read fuel input).stop = some e) :
    read (input.drop (scan read fuel input).consumed) = .error e := by
  induction fuel generalizing input with
  | zero => cases stopped
  | succ fuel ih =>
    cases h : read input with
    | error e' =>
      simp only [scan, h, Option.some.injEq] at stopped ⊢
      rw [List.drop_zero, h, stopped]
    | ok frame =>
      simp only [scan, h] at stopped ⊢
      rw [← List.drop_drop]
      exact ih _ stopped

theorem scan_consumed_le (read : List σ → Except ε (α × Nat)) (progress : Progress read)
    (fuel : Nat) (input : List σ) : (scan read fuel input).consumed ≤ input.length := by
  induction fuel generalizing input with
  | zero => exact Nat.zero_le _
  | succ fuel ih =>
    cases h : read input with
    | error e =>
      simp only [scan, h]
      exact Nat.zero_le _
    | ok frame =>
      have moved := progress input frame.1 frame.2 h
      have later := ih (input.drop frame.2)
      simp only [scan, h]
      rw [List.length_drop] at later
      omega

/-- A scan that ends cleanly has used its whole input, if the reader sees a clean end only
where nothing is left. -/
theorem scan_clean_consumed (read : List σ → Except ε (α × Nat)) (progress : Progress read)
    (fin : ε) (atEnd : ∀ input, read input = .error fin → input = []) (fuel : Nat)
    (input : List σ) (clean : (scan read fuel input).stop = some fin) :
    (scan read fuel input).consumed = input.length := by
  apply Nat.le_antisymm (scan_consumed_le read progress fuel input)
  exact List.drop_eq_nil_iff.mp (atEnd _ (scan_stopped_at read fuel input fin clean))

/-- Scanning again what a scan accepted finds the same items and ends cleanly. -/
theorem scan_again (read : List σ → Except ε (α × Nat)) (progress : Progress read)
    (loc : Local read) (fin : ε) (clean : read [] = .error fin) (fuel : Nat) (input : List σ)
    (big : Nat) (enough : (input.take (scan read fuel input).consumed).length < big) :
    scan read big (input.take (scan read fuel input).consumed) =
      ⟨(scan read fuel input).items, (scan read fuel input).consumed, some fin⟩ := by
  have accepted := scan_accepted read progress loc fuel input [] big
    (by rwa [List.append_nil])
  rwa [List.append_nil, List.length_nil, scan_error read 0 [] fin clean, List.append_nil,
    Nat.add_zero] at accepted

/-! ### A log that is cut short -/

/-- The items that lie entirely in the first `p` symbols. -/
def whole (enc : α → List σ) : Nat → List α → List α
  | _, [] => []
  | p, a :: as =>
    if (enc a).length ≤ p then a :: whole enc (p - (enc a).length) as else []

theorem whole_length_le (enc : α → List σ) (p : Nat) (as : List α) :
    ((whole enc p as).flatMap enc).length ≤ p := by
  induction as generalizing p with
  | nil => exact Nat.zero_le p
  | cons a as ih =>
    rw [whole]
    split
    next complete =>
      have rest := ih (p - (enc a).length)
      rw [List.flatMap_cons, List.length_append]
      omega
    · exact Nat.zero_le p

/-- Every proper, non-empty front of the encoded item stops the reader with `short`. -/
def Torn (read : List σ → Except ε (α × Nat)) (enc : α → List σ) (short : ε) (a : α) : Prop :=
  ∀ m, 0 < m → m < (enc a).length → read ((enc a).take m) = .error short

/-- A scan of a log that was cut at `p` finds the whole items in front of the cut. It ends
cleanly only if the cut is where the last of them ends. -/
theorem scan_cut (read : List σ → Except ε (α × Nat)) (enc : α → List σ)
    (progress : Progress read) (fin short : ε) (clean : read [] = .error fin) (as : List α)
    (reads : ∀ a ∈ as, Reads read enc a) (torn : ∀ a ∈ as, Torn read enc short a) (p fuel : Nat)
    (inside : p ≤ (as.flatMap enc).length) (enough : p < fuel) :
    scan read fuel ((as.flatMap enc).take p) =
      ⟨whole enc p as, ((whole enc p as).flatMap enc).length,
        some (if ((whole enc p as).flatMap enc).length = p then fin else short)⟩ := by
  obtain ⟨fuel, rfl⟩ := Nat.exists_eq_succ_of_ne_zero (Nat.ne_zero_of_lt enough)
  induction as generalizing p fuel with
  | nil =>
    have atEnd : p = 0 := Nat.le_zero.mp inside
    rw [List.flatMap_nil, List.take_nil, scan_error read fuel [] fin clean]
    simp [whole, atEnd]
  | cons a as ih =>
    have first := reads a (by simp)
    rw [List.flatMap_cons, List.length_append] at inside
    by_cases complete : (enc a).length ≤ p
    · -- the first item is whole: go on behind it
      have used := progress _ a _ (first [])
      obtain ⟨fuel, rfl⟩ := Nat.exists_eq_succ_of_ne_zero (n := fuel) (by omega)
      have rest := ih (fun b member => reads b (by simp [member]))
        (fun b member => torn b (by simp [member])) (p - (enc a).length) (by omega) fuel (by omega)
      have split : (enc a ++ as.flatMap enc).take p =
          enc a ++ (as.flatMap enc).take (p - (enc a).length) := by
        rw [List.take_append, List.take_of_length_le complete]
      have ends : (enc a).length + ((whole enc (p - (enc a).length) as).flatMap enc).length = p ↔
          ((whole enc (p - (enc a).length) as).flatMap enc).length = p - (enc a).length := by
        omega
      rw [List.flatMap_cons, split, scan, first, whole, if_pos complete]
      simp only [List.drop_left, rest, List.flatMap_cons, List.length_append, ends]
    · -- the cut falls into the first item
      have front : (enc a ++ as.flatMap enc).take p = (enc a).take p :=
        List.take_append_of_le_length (by omega)
      rw [List.flatMap_cons, front, whole, if_neg complete]
      by_cases start : p = 0
      · subst start
        rw [List.take_zero, scan_error read fuel [] fin clean]
        rfl
      · rw [scan_error read fuel _ short (torn a (by simp) p (by omega) (by omega)),
          if_neg (by simpa using Ne.symm start)]
        rfl

end Framing
