import PebbleDB.Lib.Machine
import PebbleDB.Lib.Pool

/-!
# References to a reader

Lookups and scans hold a reader by a counter of 32 bits. `Close` and `Discard` set flags and close
the file if the counter is zero; otherwise the `Unref` that brings it to zero does, after
a look at the flags. Every load and every store of these fields is a step of its own here,
so another goroutine can come between any two of them, also inside `closeFile`.

The second half is about one `Discard` and the `Unref` calls of the holders. `Discard`
sets `closePending` before `discardPending`. An `Unref` that looks between the two stores
closes the file and leaves it in the directory, and nobody removes it later.
-/
namespace PebbleDB.Sst

/-- The fields of a `Reader` that goroutines share. `file` is false once the descriptor is
closed and set to nil, `onDisk` once the path is removed. -/
structure Shared where
  refs : Int32
  closePending : Bool
  discardPending : Bool
  file : Bool
  fileClosed : Bool
  closeMu : Bool
  onDisk : Bool
  deriving DecidableEq

/-- As `OpenReader` returns it. -/
def Shared.opened : Shared := ⟨0, false, false, true, false, false, true⟩

/-- Where a call of `closeFile` stands: the next thing it does. -/
inductive CloseStage where
  | lock
  | check
  | osClose
  | store
  | load
  | remove
  | unlock
  deriving DecidableEq

/-- One step of `closeFile`; it has returned when there is no next stage. -/
def Shared.closeFile (s : Shared) : CloseStage → Shared × Option CloseStage
  | .lock => if s.closeMu then (s, some .lock) else ({ s with closeMu := true }, some .check)
  | .check => if s.fileClosed || !s.file then (s, some .unlock) else (s, some .osClose)
  | .osClose => ({ s with file := false }, some .store)
  | .store => ({ s with fileClosed := true }, some .load)
  | .load => if s.discardPending then (s, some .remove) else (s, some .unlock)
  | .remove => ({ s with onDisk := false }, some .unlock)
  | .unlock => ({ s with closeMu := false }, none)

/-- `closeFile` leaves the counter and the flags alone. -/
theorem Shared.closeFile_flags (s : Shared) (stage : CloseStage) :
    (s.closeFile stage).1.refs = s.refs ∧
      (s.closeFile stage).1.closePending = s.closePending := by
  cases stage with
  | lock | check | load =>
    rw [Shared.closeFile]
    split
    · exact ⟨rfl, rfl⟩
    · exact ⟨rfl, rfl⟩
  | osClose | store | remove | unlock => exact ⟨rfl, rfl⟩

/-- The stages behind the close of the descriptor and before the end of the removal. -/
def CloseStage.midway : CloseStage → Bool
  | .store => true
  | .load => true
  | .remove => true
  | _ => false

/-- Nothing that was set is taken back. -/
structure Shared.Onward (s s' : Shared) : Prop where
  closePending : s.closePending = true → s'.closePending = true
  discardPending : s.discardPending = true → s'.discardPending = true
  file : s.file = false → s'.file = false
  fileClosed : s.fileClosed = true → s'.fileClosed = true
  onDisk : s.onDisk = false → s'.onDisk = false

theorem Shared.Onward.refl (s : Shared) : s.Onward s := ⟨id, id, id, id, id⟩

/-- What holds at a stage of a `closeFile` that will remove the file. -/
structure Shared.StageOk (s : Shared) (stage : CloseStage) : Prop where
  marked : s.discardPending = true
  closed : stage = .load ∨ stage = .remove → s.fileClosed = true
  shut : stage.midway = true ∨ stage = .unlock → s.file = false

theorem Shared.StageOk.mono {s s' : Shared} {stage : CloseStage} (ok : s.StageOk stage)
    (onward : s.Onward s') : s'.StageOk stage where
  marked := onward.discardPending ok.marked
  closed at_ := onward.fileClosed (ok.closed at_)
  shut at_ := onward.file (ok.shut at_)

/-- Everything a step of `closeFile` does. -/
structure Shared.Closes (s s' : Shared) (stage : CloseStage) (next : Option CloseStage) : Prop where
  onward : s.Onward s'
  agree : s'.fileClosed = true → s'.file = false
  ok : ∀ n, next = some n → s'.StageOk n
  ended : next = none → s'.file = false
  -- a file that is shut was so before, or this call is on its way, or it is gone for good
  gone : s'.file = false → s.file = false ∧ stage.midway = false ∨
    (∃ n, next = some n ∧ n.midway = true) ∨ s'.fileClosed = true ∧ s'.onDisk = false

theorem Shared.StageOk.closeFile {s : Shared} {stage : CloseStage} (ok : s.StageOk stage)
    (agree : s.fileClosed = true → s.file = false) :
    s.Closes (s.closeFile stage).1 stage (s.closeFile stage).2 := by
  obtain ⟨marked, closed, shut⟩ := ok
  cases stage with
  | lock =>
    rw [Shared.closeFile]
    split
    · exact ⟨.refl s, agree, by rintro _ ⟨⟩; exact ⟨marked, closed, shut⟩, nofun,
        fun gone => .inl ⟨gone, rfl⟩⟩
    · exact ⟨⟨id, id, id, id, id⟩, agree,
        by rintro _ ⟨⟩; exact ⟨marked, by simp, by simp [CloseStage.midway]⟩, nofun,
        fun gone => .inl ⟨gone, rfl⟩⟩
  | check =>
    rw [Shared.closeFile]
    split
    next closedBefore =>
      have gone : s.file = false := by
        rcases Bool.or_eq_true_iff.mp closedBefore with stored | unset
        · exact agree stored
        · simpa using unset
      exact ⟨.refl s, agree,
        by rintro _ ⟨⟩; exact ⟨marked, by simp, fun _ => gone⟩, nofun, fun gone => .inl ⟨gone, rfl⟩⟩
    · exact ⟨.refl s, agree,
        by rintro _ ⟨⟩; exact ⟨marked, by simp, by simp [CloseStage.midway]⟩, nofun,
        fun gone => .inl ⟨gone, rfl⟩⟩
  | osClose =>
    exact ⟨⟨id, id, fun _ => rfl, id, id⟩, fun _ => rfl,
      by rintro _ ⟨⟩; exact ⟨marked, by simp, fun _ => rfl⟩, nofun,
      fun _ => .inr (.inl ⟨.store, rfl, rfl⟩)⟩
  | store =>
    exact ⟨⟨id, id, id, fun _ => rfl, id⟩, fun _ => shut (.inl rfl),
      by rintro _ ⟨⟩; exact ⟨marked, fun _ => rfl, fun _ => shut (.inl rfl)⟩, nofun,
      fun _ => .inr (.inl ⟨.load, rfl, rfl⟩)⟩
  | load =>
    rw [Shared.closeFile, if_pos marked]
    exact ⟨.refl s, agree,
      by rintro _ ⟨⟩; exact ⟨marked, fun _ => closed (.inl rfl), fun _ => shut (.inl rfl)⟩, nofun,
      fun _ => .inr (.inl ⟨.remove, rfl, rfl⟩)⟩
  | remove =>
    exact ⟨⟨id, id, id, id, fun _ => rfl⟩, agree,
      by rintro _ ⟨⟩; exact ⟨marked, by simp, fun _ => shut (.inl rfl)⟩, nofun,
      fun _ => .inr (.inr ⟨closed (.inr rfl), rfl⟩)⟩
  | unlock =>
    exact ⟨⟨id, id, id, id, id⟩, agree, nofun, fun _ => shut (.inr rfl),
      fun gone => .inl ⟨gone, rfl⟩⟩

/-! ### One `Discard` and the holders -/

/-- A call on the reader: a holder, which ends with its `Unref`, or a `Discard`. The flag
of the last two tells them apart. -/
inductive Call where
  | holding
  | zeroed
  | storeClose
  | storeDiscard
  | loadRefs
  | closing (stage : CloseStage) (discard : Bool)
  | returned (discard : Bool)
  deriving DecidableEq

/-- The next step of a call. -/
def Shared.advance (s : Shared) : Call → Shared × Call
  | .holding => ({ s with refs := s.refs - 1 }, if s.refs - 1 = 0 then .zeroed else .returned false)
  | .zeroed => (s, if s.closePending then .closing .lock false else .returned false)
  | .storeClose => ({ s with closePending := true }, .storeDiscard)
  | .storeDiscard => ({ s with discardPending := true }, .loadRefs)
  | .loadRefs => (s, if s.refs = 0 then .closing .lock true else .returned true)
  | .closing stage discard =>
    match s.closeFile stage with
    | (s, some stage) => (s, .closing stage discard)
    | (s, none) => (s, .returned discard)
  | .returned discard => (s, .returned discard)

structure DiscardRun where
  shared : Shared
  calls : List Call
  deriving DecidableEq

namespace DiscardRun

/-- The call at place `i` takes its next step. -/
def step (s : DiscardRun) (i : Nat) : DiscardRun :=
  match s.calls[i]? with
  | none => s
  | some c => ⟨(s.shared.advance c).1, s.calls.set i (s.shared.advance c).2⟩

/-- An open reader with `n` holders, and a call of `Discard`. -/
def held (n : Nat) : DiscardRun :=
  ⟨{ Shared.opened with refs := .ofNat n }, .storeClose :: List.replicate n .holding⟩

/-- Once `Discard` has returned, nobody holds the reader and no `Unref` is under way, the
descriptor is closed and the path removed. -/
def Removed (s : DiscardRun) : Prop :=
  .returned true ∈ s.calls → s.shared.refs = 0 →
    (∀ c ∈ s.calls, c = .holding ∨ c = .returned false ∨ c = .returned true) →
    s.shared.file = false ∧ s.shared.fileClosed = true ∧ s.shared.onDisk = false

instance (s : DiscardRun) : Decidable s.Removed :=
  inferInstanceAs (Decidable (_ → _ → _ → _))

/-- An `Unref` that has brought the counter to zero does not look at `closePending` between
the two stores of `Discard`. -/
def Safe (s : DiscardRun) (i : Nat) : Prop :=
  s.calls[i]? = some .zeroed → ¬(s.shared.closePending = true ∧ s.shared.discardPending = false)

instance (s : DiscardRun) (i : Nat) : Decidable (s.Safe i) :=
  inferInstanceAs (Decidable (_ → _))

end DiscardRun

/-! ### The invariant -/

/-- The call will still look at `closePending` or close the file. -/
def Call.busy : Call → Bool
  | .zeroed => true
  | .closing _ _ => true
  | _ => false

def Call.midway : Call → Bool
  | .closing stage _ => stage.midway
  | _ => false

/-- What a call relies on. -/
def Call.Ok (s : Shared) : Call → Prop
  | .storeDiscard => s.closePending = true
  | .loadRefs => s.closePending = true ∧ s.discardPending = true
  | .closing stage _ => s.closePending = true ∧ s.StageOk stage
  | .returned true => s.closePending = true ∧ s.discardPending = true
  | _ => True

theorem Call.Ok.mono {s s' : Shared} (onward : s.Onward s') {c : Call} (ok : c.Ok s) : c.Ok s' := by
  cases c with
  | storeDiscard => exact onward.closePending ok
  | loadRefs => exact ⟨onward.closePending ok.1, onward.discardPending ok.2⟩
  | closing stage discard => exact ⟨onward.closePending ok.1, ok.2.mono onward⟩
  | returned discard =>
    cases discard with
    | false => trivial
    | true => exact ⟨onward.closePending ok.1, onward.discardPending ok.2⟩
  | holding | zeroed | storeClose => trivial

namespace DiscardRun

structure Kept (s : DiscardRun) : Prop where
  agree : s.shared.fileClosed = true → s.shared.file = false
  ok : ∀ c ∈ s.calls, c.Ok s.shared
  gone : s.shared.file = false →
    s.shared.fileClosed = true ∧ s.shared.onDisk = false ∨ ∃ c ∈ s.calls, c.midway = true
  reached : .returned true ∈ s.calls →
    s.shared.file = false ∨ s.shared.refs ≠ 0 ∨ ∃ c ∈ s.calls, c.busy = true

theorem held_kept (n : Nat) : (held n).Kept where
  agree := nofun
  ok c member := by
    rcases List.mem_cons.mp member with rfl | holder
    · trivial
    · rw [List.eq_of_mem_replicate holder]
      trivial
  gone := nofun
  reached member := by
    rcases List.mem_cons.mp member with first | holder
    · cases first
    · cases List.eq_of_mem_replicate holder

variable {s : DiscardRun} {i : Nat} {c : Call}

/-- A step that leaves the file alone: whoever was midway still is. -/
theorem Kept.still (inv : s.Kept) (here : s.calls[i]? = some c) (shared : Shared) (next : Call)
    (onward : s.shared.Onward shared) (file : shared.file = s.shared.file)
    (fileClosed : shared.fileClosed = s.shared.fileClosed) (idle : c.midway = false)
    (ok : next.Ok shared)
    (reached : .returned true ∈ s.calls.set i next →
      shared.file = false ∨ shared.refs ≠ 0 ∨ ∃ c ∈ s.calls.set i next, c.busy = true) :
    Kept ⟨shared, s.calls.set i next⟩ where
  agree := by
    show shared.fileClosed = true → shared.file = false
    rw [file, fileClosed]
    exact inv.agree
  ok := Pool.forall_set (fun c member => (inv.ok c member).mono onward) ok
  gone := by
    show shared.file = false → shared.fileClosed = true ∧ shared.onDisk = false ∨ _
    rw [file, fileClosed]
    intro gone
    rcases inv.gone gone with ⟨closed, removed⟩ | midway
    · exact .inl ⟨closed, onward.onDisk removed⟩
    · exact .inr (Pool.exists_set midway here (by simp [idle]) next)
  reached := reached

/-- After a step that leaves the counter and the file alone. -/
theorem Kept.reached_set (inv : s.Kept) (here : s.calls[i]? = some c) (next : Call)
    (idle : c.busy = false) (other : next ≠ .returned true)
    (member : .returned true ∈ s.calls.set i next) :
    s.shared.file = false ∨ s.shared.refs ≠ 0 ∨ ∃ c ∈ s.calls.set i next, c.busy = true := by
  rcases List.mem_or_eq_of_mem_set member with old | new
  · rcases inv.reached old with gone | held | busy
    · exact .inl gone
    · exact .inr (.inl held)
    · exact .inr (.inr (Pool.exists_set busy here (by simp [idle]) next))
  · exact absurd new.symm other

theorem holding_kept (inv : s.Kept) (here : s.calls[i]? = some .holding) : (s.step i).Kept := by
  simp only [step, here, Shared.advance]
  by_cases zero : s.shared.refs - 1 = 0
  · rw [if_pos zero]
    refine inv.still here { s.shared with refs := s.shared.refs - 1 } .zeroed ⟨id, id, id, id, id⟩
      rfl rfl rfl trivial fun _ => ?_
    exact .inr (.inr ⟨.zeroed, Pool.mem_set here _, rfl⟩)
  · rw [if_neg zero]
    refine inv.still here { s.shared with refs := s.shared.refs - 1 } (.returned false)
      ⟨id, id, id, id, id⟩ rfl rfl rfl trivial fun _ => ?_
    exact .inr (.inl zero)

theorem zeroed_kept (inv : s.Kept) (here : s.calls[i]? = some .zeroed) (safe : s.Safe i) :
    (s.step i).Kept := by
  simp only [step, here, Shared.advance]
  cases pending : s.shared.closePending with
  | false =>
    simp only [Bool.false_eq_true, if_false]
    refine inv.still here s.shared (.returned false) (.refl _) rfl rfl rfl
      trivial fun member => ?_
    -- `Discard` has not returned, because it starts with the flag
    rcases List.mem_or_eq_of_mem_set member with old | new
    · have set := (inv.ok _ old).1
      rw [pending] at set
      cases set
    · cases new
  | true =>
    have marked : s.shared.discardPending = true := by
      by_contra unmarked
      exact safe here ⟨pending, by simpa using unmarked⟩
    simp only [if_true]
    refine inv.still here s.shared (.closing .lock false) (.refl _) rfl rfl rfl
      ⟨pending, marked, by simp, by simp [CloseStage.midway]⟩
      fun _ => ?_
    exact .inr (.inr ⟨_, Pool.mem_set here _, rfl⟩)

theorem loadRefs_kept (inv : s.Kept) (here : s.calls[i]? = some .loadRefs) : (s.step i).Kept := by
  obtain ⟨pending, marked⟩ := inv.ok _ (Pool.mem here)
  simp only [step, here, Shared.advance]
  by_cases zero : s.shared.refs = 0
  · rw [if_pos zero]
    refine inv.still here s.shared (.closing .lock true) (.refl _) rfl rfl rfl
      ⟨pending, marked, by simp, by simp [CloseStage.midway]⟩
      fun _ => ?_
    exact .inr (.inr ⟨_, Pool.mem_set here _, rfl⟩)
  · rw [if_neg zero]
    refine inv.still here s.shared (.returned true) (.refl _) rfl rfl rfl
      ⟨pending, marked⟩ fun _ => ?_
    exact .inr (.inl zero)

theorem closing_kept (inv : s.Kept) (stage : CloseStage) (discard : Bool)
    (here : s.calls[i]? = some (.closing stage discard)) : (s.step i).Kept := by
  obtain ⟨pending, ok⟩ := inv.ok _ (Pool.mem here)
  have closes := ok.closeFile inv.agree
  simp only [step, here, Shared.advance]
  cases result : s.shared.closeFile stage with
  | mk shared next =>
    rw [result] at closes
    obtain ⟨onward, agree, okNext, ended, gone⟩ := closes
    have kept {c : Call} (member : c ∈ s.calls) : c.Ok shared := (inv.ok c member).mono onward
    cases next with
    | some n =>
      refine ⟨agree, Pool.forall_set (fun _ => kept) ⟨onward.closePending pending, okNext n rfl⟩,
        fun shut => ?_, fun _ => .inr (.inr ⟨_, Pool.mem_set here _, rfl⟩)⟩
      rcases gone shut with ⟨before, outside⟩ | ⟨_, ⟨⟩, midway⟩ | removed
      · rcases inv.gone before with ⟨closed, removed⟩ | midway
        · exact .inl ⟨onward.fileClosed closed, onward.onDisk removed⟩
        · exact .inr (Pool.exists_set midway here (by simp [Call.midway, outside]) _)
      · exact .inr ⟨_, Pool.mem_set here _, midway⟩
      · exact .inl removed
    | none =>
      have shut := ended rfl
      refine ⟨agree, Pool.forall_set (fun _ => kept) ?_, fun _ => ?_, fun _ => .inl shut⟩
      · cases discard with
        | false => trivial
        | true => exact ⟨onward.closePending pending, onward.discardPending ok.marked⟩
      · rcases gone shut with ⟨before, outside⟩ | ⟨_, ⟨⟩, _⟩ | removed
        · rcases inv.gone before with ⟨closed, removed⟩ | midway
          · exact .inl ⟨onward.fileClosed closed, onward.onDisk removed⟩
          · exact .inr (Pool.exists_set midway here (by simp [Call.midway, outside]) _)
        · exact .inl removed

theorem step_kept (s : DiscardRun) (i : Nat) (inv : s.Kept) (safe : s.Safe i) : (s.step i).Kept := by
  cases here : s.calls[i]? with
  | none =>
    simp only [step, here]
    exact inv
  | some c =>
    cases c with
    | holding => exact holding_kept inv here
    | zeroed => exact zeroed_kept inv here safe
    | storeClose =>
      simp only [step, here, Shared.advance]
      exact inv.still here _ _ ⟨fun _ => rfl, id, id, id, id⟩ rfl rfl rfl
        rfl fun member => inv.reached_set here _ rfl nofun member
    | storeDiscard =>
      simp only [step, here, Shared.advance]
      exact inv.still here _ _ ⟨id, fun _ => rfl, id, id, id⟩ rfl rfl rfl
        ⟨inv.ok _ (Pool.mem here), rfl⟩
        fun member => inv.reached_set here _ rfl nofun member
    | loadRefs => exact loadRefs_kept inv here
    | closing stage discard => exact closing_kept inv stage discard here
    | returned discard =>
      have same : s.step i = s := by
        simp only [step, here, Shared.advance]
        rw [Pool.set_same here]
      rw [same]
      exact inv

theorem Kept.removed (inv : s.Kept) : s.Removed := by
  intro returned zero quiet
  have noneBusy : ¬∃ c ∈ s.calls, c.busy = true := by
    rintro ⟨c, member, busy⟩
    rcases quiet c member with rfl | rfl | rfl
    · cases busy
    · cases busy
    · cases busy
  rcases inv.reached returned with shut | held | busy
  · rcases inv.gone shut with ⟨closed, removed⟩ | ⟨c, member, midway⟩
    · exact ⟨shut, closed, removed⟩
    · rcases quiet c member with rfl | rfl | rfl
      · cases midway
      · cases midway
      · cases midway
  · exact absurd zero held
  · exact absurd busy noneBusy

/-- One `Discard` among any number of holders: in every interleaving in which no `Unref`
looks between the two stores, the file is removed in the end. -/
theorem removed_of_safe (n : Nat) (steps : List Nat) (safe : Machine.Always step Safe (held n) steps) :
    (Machine.run step (held n) steps).Removed :=
  (Machine.run_invariant step Safe Kept step_kept (held n) steps (held_kept n) safe).removed

/-- Two holders; the last of them removes the file after `Discard` has returned. -/
theorem removed_deferred :
    let s := Machine.run step (held 2) [1, 0, 0, 0, 2, 2, 2, 2, 2, 2, 2, 2, 2]
    s.calls = [.returned true, .returned false, .returned false] ∧ s.Removed :=
  ⟨by decide, removed_of_safe 2 _ (by decide)⟩

/-- The only holder releases the reader between the two stores of `Discard`. -/
theorem not_removed_between_stores :
    let s := Machine.run step (held 1) [0, 1, 1, 1, 1, 1, 1, 1, 1, 0, 0, 0, 0, 0]
    s.calls = [.returned true, .returned false] ∧ s.shared.refs = 0 ∧ s.shared.onDisk = true ∧
      ¬s.Removed := by
  decide

end DiscardRun

end PebbleDB.Sst
