import Mathlib.Data.List.Basic

/-!
# Crashes inside a sequence of durable steps

An operation on durable state is a list of steps. A crash comes after any number of
whole steps and may leave any part of the next one; what a part of a step leaves is
given by `cut`. An operation is crash safe for `P` when `P` holds of whatever is left.
Operations that can fail on the way are put together from calls, with rules for their
pre- and postconditions.
-/
namespace Crash

variable {δ ι : Type} (run : δ → ι → δ) (cut : δ → ι → Nat → δ)

/-- What is left by a crash after `k` whole steps and the part `m` of the next. -/
def crashed : δ → List ι → Nat → Nat → δ
  | d, [], _, _ => d
  | d, step :: _, 0, m => cut d step m
  | d, step :: steps, k + 1, m => crashed (run d step) steps k m

/-- `P` holds wherever the crash comes. -/
def Survives (P : δ → Prop) (d : δ) (steps : List ι) : Prop :=
  ∀ k m, P (crashed run cut d steps k m)

variable {run cut} {P Q : δ → Prop} {d : δ} {step : ι} {steps : List ι}

theorem survives_nil (done : P d) : Survives run cut P d [] := by
  intro k m
  rw [crashed]
  exact done

theorem survives_cons (interrupted : ∀ m, P (cut d step m))
    (later : Survives run cut P (run d step) steps) : Survives run cut P d (step :: steps) := by
  intro k m
  cases k with
  | zero => exact interrupted m
  | succ k => exact later k m

theorem Survives.imp (survives : Survives run cut P d steps) (weaker : ∀ d, P d → Q d) :
    Survives run cut Q d steps :=
  fun k m => weaker _ (survives k m)

/-- The last crash point is the one behind all steps. -/
theorem Survives.final (survives : Survives run cut P d steps) : P (steps.foldl run d) := by
  induction steps generalizing d with
  | nil =>
    have done := survives 0 0
    rwa [crashed] at done
  | cons step steps ih => exact ih fun k m => survives (k + 1) m

theorem Survives.append {later : List ι} (survives : Survives run cut P d steps)
    (then_ : Survives run cut P (steps.foldl run d) later) :
    Survives run cut P d (steps ++ later) := by
  induction steps generalizing d with
  | nil => exact then_
  | cons step steps ih =>
    -- crash points inside the first list, then those of the second
    exact survives_cons (fun m => survives 0 m) (ih (fun k m => survives (k + 1) m) then_)

/-! ### Calls that may fail

A call answers with the steps it carried out and the error it returned. A triple says
what holds wherever a crash interrupts the call and what holds once it has returned
without an error; the rules follow the way calls are put together. -/

structure Performed (ι ε : Type) where
  steps : List ι
  err : Option ε
  deriving DecidableEq, Repr

variable {ε : Type}

namespace Performed

def done : Performed ι ε := ⟨[], none⟩

def fail (e : ε) : Performed ι ε := ⟨[], some e⟩

/-- A step that is carried out, or fails and has no effect. -/
def attempt (fails : Bool) (e : ε) (step : ι) : Performed ι ε :=
  if fails then fail e else ⟨[step], none⟩

/-- A call without an effect on the durable state. -/
def check (fails : Bool) (e : ε) : Performed ι ε := if fails then fail e else done

/-- The second call is made if the first returned no error. -/
def andThen (p q : Performed ι ε) : Performed ι ε :=
  match p.err with
  | some e => ⟨p.steps, some e⟩
  | none => ⟨p.steps ++ q.steps, q.err⟩

/-- After an error the cleanup is made as well; the error returned is the first one. -/
def orElse (p cleanup : Performed ι ε) : Performed ι ε :=
  match p.err with
  | some e => ⟨p.steps ++ cleanup.steps, some e⟩
  | none => p

@[simp] theorem attempt_err (fails : Bool) (e : ε) (step : ι) :
    (attempt fails e step).err = none ↔ fails = false := by
  cases fails <;> simp [attempt, fail]

@[simp] theorem check_err (fails : Bool) (e : ε) :
    (check fails e : Performed ι ε).err = none ↔ fails = false := by
  cases fails <;> simp [check, fail, done]

@[simp] theorem andThen_err (p q : Performed ι ε) :
    (p.andThen q).err = none ↔ p.err = none ∧ q.err = none := by
  cases failed : p.err with
  | none => simp [andThen, failed]
  | some e => simp [andThen, failed]

@[simp] theorem orElse_err (p cleanup : Performed ι ε) : (p.orElse cleanup).err = p.err := by
  cases failed : p.err with
  | none => simp [orElse, failed]
  | some e => simp [orElse, failed]

end Performed

/-- From a state with `pre`, a crash at any point of the call leaves `safe`, and a return
without an error leaves `post`. -/
def Triple (run : δ → ι → δ) (cut : δ → ι → Nat → δ) (safe pre : δ → Prop)
    (call : Performed ι ε) (post : δ → Prop) : Prop :=
  ∀ d, pre d → Survives run cut safe d call.steps ∧
    (call.err = none → post (call.steps.foldl run d))

variable {safe pre post : δ → Prop} {p q : Performed ι ε}

theorem Triple.done (holds : ∀ d, pre d → safe d) (after : ∀ d, pre d → post d) :
    Triple run cut safe pre (Performed.done : Performed ι ε) post :=
  fun d start => ⟨survives_nil (holds d start), fun _ => after d start⟩

theorem Triple.fail (e : ε) (holds : ∀ d, pre d → safe d) :
    Triple run cut safe pre (Performed.fail e : Performed ι ε) post :=
  fun d start => ⟨survives_nil (holds d start), nofun⟩

theorem Triple.check (fails : Bool) (e : ε) (holds : ∀ d, pre d → safe d) :
    Triple run cut safe pre (Performed.check fails e : Performed ι ε) pre := by
  cases fails with
  | true => exact Triple.fail e holds
  | false => exact Triple.done holds fun _ start => start

/-- A single step, after which the call may also return an error. -/
theorem Triple.single (err : Option ε) (interrupted : ∀ d, pre d → ∀ m, safe (cut d step m))
    (holds : ∀ d, pre d → safe (run d step))
    (after : ∀ d, pre d → err = none → post (run d step)) :
    Triple run cut safe pre ⟨[step], err⟩ post :=
  fun d start => ⟨survives_cons (interrupted d start) (survives_nil (holds d start)),
    after d start⟩

theorem Triple.attempt (fails : Bool) (e : ε) (before : ∀ d, pre d → safe d)
    (interrupted : ∀ d, pre d → ∀ m, safe (cut d step m))
    (holds : ∀ d, pre d → safe (run d step)) (after : ∀ d, pre d → post (run d step)) :
    Triple run cut safe pre (Performed.attempt fails e step) post := by
  cases fails with
  | true => exact Triple.fail e before
  | false => exact Triple.single none interrupted holds fun d start _ => after d start

theorem Triple.andThen (mid : δ → Prop) (first : Triple run cut safe pre p mid)
    (second : Triple run cut safe mid q post) : Triple run cut safe pre (p.andThen q) post := by
  intro d start
  obtain ⟨survives, returned⟩ := first d start
  cases failed : p.err with
  | some e =>
    rw [Performed.andThen, failed]
    exact ⟨survives, nofun⟩
  | none =>
    rw [Performed.andThen, failed]
    -- the second call starts where the first one returned
    obtain ⟨survives', returned'⟩ := second _ (returned failed)
    refine ⟨survives.append survives', fun ok => ?_⟩
    rw [List.foldl_append]
    exact returned' ok

/-- The cleanup starts wherever the call failed, so all it may rely on is `safe`. -/
theorem Triple.orElse (main : Triple run cut safe pre p post)
    (cleanup : Triple run cut safe safe q fun _ => True) :
    Triple run cut safe pre (p.orElse q) post := by
  intro d start
  obtain ⟨survives, returned⟩ := main d start
  cases failed : p.err with
  | some e =>
    rw [Performed.orElse, failed]
    -- where the call failed is one of its crash points
    exact ⟨survives.append (cleanup _ survives.final).1, nofun⟩
  | none =>
    rw [Performed.orElse, failed]
    exact ⟨survives, fun _ => returned failed⟩

theorem Triple.post_imp {weaker : δ → Prop} (triple : Triple run cut safe pre p post)
    (imp : ∀ d, post d → weaker d) : Triple run cut safe pre p weaker :=
  fun d start => ⟨(triple d start).1, fun ok => imp _ ((triple d start).2 ok)⟩

end Crash
