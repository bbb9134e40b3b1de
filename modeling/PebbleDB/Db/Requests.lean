import PebbleDB.Db.Durability

/-!
# Requests and the end of the batch flusher

A caller looks at `db.closed` under the lock, releases it, sends its reply channel on
`batchSyncCh` and waits. `Close` sets `db.closed` and closes `batchStop`; the batch flusher
takes this branch of its `select` whenever it likes, also while requests are queued, and
never looks at the channel again. A caller that is between its check and its send when
`Close` comes, or whose request is still queued then, may never hear an answer. When there
is no such caller, nobody joins later, because every check from then on fails.
-/
namespace PebbleDB.Db

open Wal (Record)

/-- The call has passed its check of `db.closed` and has yet to send its request. -/
def Call.unsent : Call → Bool
  | .queued _ => true
  | .requesting _ => true
  | _ => false

/-- The goroutine is in its last round or behind it. -/
def Server.stops : Server → Bool
  | .select => false
  | .start req => req == .stop
  | .holding req => req == .stop
  | .persisting req => req == .stop
  | .ending req _ => req == .stop
  | .reply req _ => req == .stop
  | .stopped => true

/-! ### The closed flag -/

theorem DB.maybeFlushLocked_closed (db : DB) : db.maybeFlushLocked.1.closed = db.closed := by
  obtain ⟨queue, active, same⟩ := db.maybeFlushLocked_eq
  rw [same]

namespace Committer

theorem enqueue_closed (s : Committer) (rec : Record) :
    (s.enqueue rec).db.closed = s.db.closed := by
  rw [enqueue]
  split
  · rfl
  · rfl

theorem take_closed (s : Committer) : s.take.db.closed = s.db.closed := by
  rw [take]
  split
  · split
    · rfl
    · rfl
  · rfl

theorem append_closed (s : Committer) (faults : Wal.Faults) :
    (s.append faults).db.closed = s.db.closed := by
  rw [append]
  split
  · split
    · rfl
    · rfl
  · rfl

theorem finish_closed (s : Committer) (coins : Nat → Nat → Bool) :
    (s.finish coins).db.closed = s.db.closed := by
  rw [finish]
  split
  · exact DB.maybeFlushLocked_closed _
  · rfl
  · rfl

theorem report_closed (s : Committer) : s.report.db.closed = s.db.closed := by
  rw [report]
  split
  · rfl
  · rfl

end Committer

/-! ### What a step does to the requests -/

namespace SyncRun

/-- No request is queued, and nobody is about to send one. -/
def Quiet (s : SyncRun) : Prop := s.channel = [] ∧ ∀ c, (s.calls c).unsent = false

/-- Every step but the one of `Close`: the flag stays, the last round starts only when it is
set, and once it is set no request appears. -/
structure Follows (s s' : SyncRun) : Prop where
  closed : s'.sys.db.closed = s.sys.db.closed
  stops : s'.server.stops = true → s.server.stops = true ∨ s.sys.db.closed = true
  quiet : s.sys.db.closed = true → s.Quiet → s'.Quiet

variable {s : SyncRun}

theorem Follows.refl (s : SyncRun) : s.Follows s := ⟨rfl, .inl, fun _ => id⟩

/-- A call moves on by itself. -/
theorem Follows.setCall (s : SyncRun) (c : Nat) (call : Call)
    (sent : s.sys.db.closed = true → call.unsent = false) : s.Follows (s.setCall c call) := by
  refine ⟨rfl, .inl, fun closed quiet => ⟨quiet.1, fun d => ?_⟩⟩
  by_cases eq : d = c
  · rw [eq, setCall_self]
    exact sent closed
  · rw [setCall_of_ne _ _ _ _ eq]
    exact quiet.2 d

/-- The batch flusher moves on. -/
theorem Follows.serve (s : SyncRun) (sys : Committer) (server : Server) (logged : List Record)
    (closed : sys.db.closed = s.sys.db.closed)
    (stops : server.stops = true → s.server.stops = true ∨ s.sys.db.closed = true) :
    s.Follows { s with sys := sys, server := server, logged := logged } :=
  ⟨closed, stops, fun _ quiet => quiet⟩

theorem enqueue_follows (s : SyncRun) (c : Nat) : s.Follows (s.enqueue c) := by
  rw [SyncRun.enqueue]
  split
  next rec _ =>
    split
    · exact .setCall s c .failed fun _ => rfl
    next opened => exact ⟨s.sys.enqueue_closed rec, .inl, fun closed => absurd closed opened⟩
  · exact .refl s

theorem send_follows (s : SyncRun) (c : Nat) : s.Follows (s.send c) := by
  -- a quiet state has nobody who could send
  have nobody (quiet : s.Quiet) (unsent : (s.calls c).unsent = true) : False := by
    rw [quiet.2 c] at unsent
    cases unsent
  rw [send]
  split
  · exact .refl s
  · split
    next i queued => exact ⟨rfl, .inl, fun _ quiet => (nobody quiet (by rw [queued]; rfl)).elim⟩
    next n requesting =>
      exact ⟨rfl, .inl, fun _ quiet => (nobody quiet (by rw [requesting]; rfl)).elim⟩
    · exact .refl s

theorem receive_follows (s : SyncRun) : s.Follows s.receive := by
  rw [receive]
  split
  next c rest server channel =>
    refine ⟨rfl, (fun stops => by cases stops), fun _ quiet => ?_⟩
    rw [Quiet, channel] at quiet
    cases quiet.1
  · exact .refl s

theorem stop_follows (s : SyncRun) : s.Follows s.stop := by
  rw [stop]
  split
  · split
    next closed => exact ⟨rfl, fun _ => .inr closed, fun _ => id⟩
    · exact .refl s
  · exact .refl s

theorem take_follows (s : SyncRun) : s.Follows s.take := by
  rw [SyncRun.take]
  split
  next req server =>
    have same : s.server.stops = (req == .stop) := by rw [server]; rfl
    split
    · exact .serve s s.sys (.reply req true) s.logged rfl fun stops => .inl (same.trans stops)
    · exact .serve s s.sys.take (.holding req) s.logged s.sys.take_closed
        fun stops => .inl (same.trans stops)
  · exact .refl s

theorem append_follows (s : SyncRun) (faults : Wal.Faults) : s.Follows (s.append faults) := by
  rw [SyncRun.append]
  split
  · rw [appended]
    split
    · exact .serve s _ s.server _ (s.sys.append_closed faults) .inl
    · exact .serve s _ s.server _ (s.sys.append_closed faults) .inl
  · exact .refl s

theorem finish_follows (s : SyncRun) (coins : Nat → Nat → Bool) (sizeErr : Bool) :
    s.Follows (s.finish coins sizeErr) := by
  rw [SyncRun.finish]
  split
  next req batch server _ =>
    have same : s.server.stops = (req == .stop) := by rw [server]; rfl
    dsimp only
    split
    · exact .serve s _ _ s.logged rfl fun stops => .inl (same.trans stops)
    · exact .serve s _ _ s.logged (s.sys.finish_closed coins) fun stops => .inl (same.trans stops)
  · exact .serve s _ s.server s.logged (s.sys.finish_closed coins) .inl
  · exact .refl s

theorem reply_follows (s : SyncRun) : s.Follows s.reply := by
  rw [reply]
  split
  next c ok server =>
    -- an answered call sends nothing
    have settled : (answered ok (s.calls c)).unsent = true → (s.calls c).unsent = true := by
      cases s.calls c with
      | waiting | awaiting =>
        intro unsent
        cases ok <;> cases unsent
      | _ => exact id
    refine ⟨rfl, (fun stops => by cases stops), fun _ quiet => ⟨quiet.1, fun d => ?_⟩⟩
    by_cases eq : d = c
    · rw [eq, setCall_self, Bool.eq_false_iff]
      exact fun unsent => absurd (settled unsent) (by simp [quiet.2 c])
    · rw [setCall_of_ne _ _ _ _ eq]
      exact quiet.2 d
  · exact .serve s s.sys .select s.logged rfl fun stops => by cases stops
  next ok server => exact .serve s s.sys .stopped s.logged rfl fun _ => .inl (by rw [server]; rfl)
  · exact .refl s

theorem step_follows (s : SyncRun) (i : SyncStep) (other : i ≠ .close) : s.Follows (s.step i) := by
  cases i with
  | beginWrite c rec flushErr =>
    rw [step, beginWrite]
    split
    · exact .setCall s c _ fun _ => by split <;> rfl
    · exact .refl s
  | enqueue c => exact enqueue_follows s c
  | send c => exact send_follows s c
  | beginSync c flushErr =>
    rw [step, beginSync]
    split
    · exact .setCall s c _ fun _ => by split <;> rfl
    · exact .refl s
  | checkOpen c =>
    rw [step, checkOpen]
    split
    · -- the check fails once the store is closed
      exact .setCall s c _ fun closed => by rw [if_pos closed]; rfl
    · exact .refl s
  | passBarrier c =>
    rw [step, passBarrier]
    split
    · exact .refl s
    · exact .refl s
    · exact .setCall s c _ fun _ => rfl
    · exact .refl s
  | inspect c =>
    rw [step, inspect]
    split
    · exact .setCall s c _ fun _ => by split <;> rfl
    · exact .refl s
  | receive => exact receive_follows s
  | wake =>
    rw [step, wake]
    split
    · exact .serve s s.sys _ s.logged rfl fun stops => by cases stops
    · exact .refl s
  | close => exact absurd rfl other
  | stop => exact stop_follows s
  | closeFlush =>
    rw [step, closeFlush]
    split
    next server => exact .serve s s.sys _ s.logged rfl fun _ => .inl (by rw [server]; rfl)
    · exact .refl s
  | take => exact take_follows s
  | begin_ =>
    rw [step, begin_]
    split
    next req server =>
      exact .serve s s.sys _ s.logged rfl fun stops => .inl (by rw [server]; exact stops)
    · exact .refl s
  | append faults => exact append_follows s faults
  | finish coins sizeErr => exact finish_follows s coins sizeErr
  | report =>
    rw [step, SyncRun.report]
    split
    next req server _ =>
      exact .serve s _ _ s.logged s.sys.report_closed fun stops => .inl (by rw [server]; exact stops)
    · exact .refl s
  | end_ =>
    rw [step, end_]
    split
    next req ok server =>
      exact .serve s s.sys _ s.logged rfl fun stops => .inl (by rw [server]; exact stops)
    · exact .refl s
  | reply => exact reply_follows s

end SyncRun

/-! ### Runs that remember the end of the goroutine -/

/-- A run of callers and batch flusher, and whether the goroutine has ended. `Close` calls
`flushPendingBatch` itself afterwards, which the server's state does not tell apart. -/
structure StopRun where
  run : SyncRun
  ended : Bool

namespace StopRun

def step (s : StopRun) (i : SyncStep) : StopRun :=
  ⟨s.run.step i, s.ended || (s.run.step i).server == .stopped⟩

def opened (db : DB) : StopRun := ⟨.opened { db with closed := false }, false⟩

/-- Once the goroutine has ended, no request is left for it. -/
def Answered (s : StopRun) : Prop := s.ended = true → s.run.Quiet

/-- `Close` sets `db.closed` when no request is queued and nobody is about to send one. -/
def Safe (s : StopRun) : SyncStep → Prop
  | .close => s.run.Quiet
  | _ => True

structure Kept (s : StopRun) : Prop where
  quiet : s.run.sys.db.closed = true → s.run.Quiet
  stops : s.run.server.stops = true → s.run.sys.db.closed = true
  ended : s.ended = true → s.run.sys.db.closed = true

theorem opened_kept (db : DB) : (opened db).Kept := ⟨nofun, nofun, nofun⟩

theorem Kept.follows {s : StopRun} (inv : s.Kept) {run : SyncRun} (follows : s.run.Follows run) :
    Kept ⟨run, s.ended || run.server == .stopped⟩ := by
  have stops : run.server.stops = true → run.sys.db.closed = true := by
    intro stops
    rw [follows.closed]
    exact (follows.stops stops).elim inv.stops id
  refine ⟨fun closed => ?_, stops, fun ended => ?_⟩
  · rw [follows.closed] at closed
    exact follows.quiet closed (inv.quiet closed)
  · rcases Bool.or_eq_true_iff.mp ended with before | now
    · rw [follows.closed]
      exact inv.ended before
    · exact stops (by rw [beq_iff_eq.mp now]; rfl)

theorem step_kept (s : StopRun) (i : SyncStep) (inv : s.Kept) (safe : s.Safe i) :
    (s.step i).Kept := by
  by_cases close : i = .close
  · subst close
    exact ⟨fun _ => safe, fun _ => rfl, fun _ => rfl⟩
  · exact inv.follows (SyncRun.step_follows s.run i close)

/-- In every interleaving of `Put`, `Delete` and `Sync` callers with the batch flusher and
`Close` in which `Close` comes when nobody has a request under way, the goroutine leaves no
request behind. -/
theorem answered_of_safe (db : DB) (steps : List SyncStep)
    (safe : Machine.Always step Safe (opened db) steps) :
    (Machine.run step (opened db) steps).Answered := by
  have kept := Machine.run_invariant step Safe Kept step_kept (opened db) steps (opened_kept db) safe
  exact fun ended => kept.quiet (kept.ended ended)

/-- A write and a `Sync` that has been received when `Close` comes: it is answered in the
round under way, and the goroutine ends after one more. -/
theorem answered_received :
    let s := Machine.run step (opened emptyDB) [.beginWrite 0 ⟨[97], [1], false⟩ false, .enqueue 0,
      .beginSync 1 false, .checkOpen 1, .send 1, .receive, .close, .take, .begin_, .append .none,
      .finish (fun _ _ => false) false, .end_, .reply, .stop, .take, .reply]
    (s.ended = true ∧ s.run.calls 1 = .barrier 1) ∧ s.Answered := by
  refine ⟨by decide +kernel, answered_of_safe emptyDB _ ?_⟩
  refine ⟨trivial, trivial, trivial, trivial, trivial, trivial, ⟨rfl, fun c => ?_⟩, trivial,
    trivial, trivial, trivial, trivial, trivial, trivial, trivial, trivial, trivial⟩
  -- the two callers are served or done, all others idle
  match c with
  | 0 => rfl
  | 1 => rfl
  | c + 2 => rfl

/-- A write under `SyncWrites` passes its check, `Close` comes, and the goroutine ends before
the write sends its request, to which nobody answers. -/
theorem not_answered_late_send :
    let s := Machine.run step (opened { emptyDB with syncWrites := true })
      [.beginWrite 0 ⟨[97], [1], false⟩ false, .enqueue 0, .close, .stop, .take, .begin_,
        .append .none, .finish (fun _ _ => false) false, .end_, .reply, .send 0]
    s.ended = true ∧ s.run.channel = [0] ∧ s.run.calls 0 = .waiting 0 ∧ ¬s.Answered := by
  refine ⟨by decide +kernel, by decide +kernel, by decide +kernel, fun answered => ?_⟩
  have quiet := answered (by decide +kernel)
  exact absurd quiet.1 (by decide +kernel)

end StopRun

end PebbleDB.Db
