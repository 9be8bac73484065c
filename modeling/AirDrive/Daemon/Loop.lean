import AirDrive.Daemon.Dispatcher
import Mathlib.Logic.Relation

set_option relaxedAutoImplicit false
set_option autoImplicit false

/-!
# The loop of the dispatcher

`runtime::run` reads the pause flag and the stored block at the top of its loop, then drains
everything that is due in an inner loop, and waits. The wait is the only place of the running
dispatcher where the cancellation is looked at. Between two calls of the dispatcher the other
tasks and the user may change everything, so the loop is a step relation, one call a step.

## Main definitions

* `AirDrive.BlockedKind.terminal`, `AirDrive.World.halted` — the blocks that need the user.
* `AirDrive.Dispatcher.Phase`, `AirDrive.Dispatcher.Loop` — where the dispatcher stands.
* `AirDrive.Dispatcher.Step` — its steps.

## Main results

* `AirDrive.Dispatcher.steps_start`, `AirDrive.Dispatcher.steps_run` — left alone, the loop takes
  an operation, and runs the rest of its iteration.
* `AirDrive.Dispatcher.Step.started_eq` — operations are started in the drain loop only.
-/

namespace AirDrive

open Effect

/-- A block that needs the user. -/
def BlockedKind.terminal : BlockedKind → Bool
  | .transient => false
  | _ => true

/-- A terminal block is stored. -/
def World.halted (w : World) : Bool := w.db.info.blocked.any BlockedKind.terminal

namespace Dispatcher

/-- Where the dispatcher stands in its loop. -/
inductive Phase
  /-- At the top: the pause flag is read next. -/
  | top
  /-- Paused: it waits for the resumption or the cancellation. -/
  | waiting
  /-- The stored block is read next. -/
  | check
  /-- A terminal block was read: it sleeps or is cancelled. -/
  | blocked
  /-- In the drain loop, with what is left of the current iteration. -/
  | drain (rest : Task Bool)
  /-- The drain loop is left: it waits for work, the timer or the cancellation. -/
  | idle
  /-- `run` has returned. -/
  | stopped

/-- The dispatcher and what it works on. -/
structure Loop where
  /-- The state of the daemon. -/
  world : World
  /-- The pause flag. -/
  paused : Bool
  /-- The cancellation token has fired. -/
  cancelled : Bool
  /-- Where the dispatcher stands. -/
  phase : Phase
  /-- How many operations it has started. -/
  started : ℕ

/-- The call takes an operation that is executed next: it is due and not abandoned. -/
def startsOp : {β : Type} → Call β → β → Bool
  | _, .db (.nextDue _), next => next.any fun op => op.attempts < maxAttempts
  | _, _, _ => false

variable (env : Env) (root : FileId)

/-- A step of the dispatcher. The branch of a `select!` that is listed first, the cancellation, is
taken when it is ready. -/
inductive Step : Loop → Loop → Prop
  | pausing {w : World} {c : Bool} {n : ℕ} : Step ⟨w, true, c, .top, n⟩ ⟨w, true, c, .waiting, n⟩
  | running {w : World} {c : Bool} {n : ℕ} : Step ⟨w, false, c, .top, n⟩ ⟨w, false, c, .check, n⟩
  | cancelWaiting {w : World} {p : Bool} {n : ℕ} :
      Step ⟨w, p, true, .waiting, n⟩ ⟨w, p, true, .stopped, n⟩
  | resumed {w : World} {n : ℕ} : Step ⟨w, false, false, .waiting, n⟩ ⟨w, false, false, .check, n⟩
  | halting {w : World} {p c : Bool} {n : ℕ} (h : w.halted = true) :
      Step ⟨w, p, c, .check, n⟩ ⟨w, p, c, .blocked, n⟩
  | free {w : World} {p c : Bool} {n : ℕ} (h : w.halted = false) :
      Step ⟨w, p, c, .check, n⟩ ⟨w, p, c, .drain (drainOne env root), n⟩
  | cancelBlocked {w : World} {p : Bool} {n : ℕ} :
      Step ⟨w, p, true, .blocked, n⟩ ⟨w, p, true, .stopped, n⟩
  | slept {w : World} {p : Bool} {n : ℕ} : Step ⟨w, p, false, .blocked, n⟩ ⟨w, p, false, .top, n⟩
  | call {w : World} {p c : Bool} {n : ℕ} {β : Type} (call : Call β) (k : β → Task Bool) :
      Step ⟨w, p, c, .drain (.call call k), n⟩
        ⟨(handle env β call w).2, p, c, .drain (k (handle env β call w).1),
          n + (startsOp call (handle env β call w).1).toNat⟩
  | again {w : World} {p c : Bool} {n : ℕ} :
      Step ⟨w, p, c, .drain (.pure true), n⟩ ⟨w, p, c, .drain (drainOne env root), n⟩
  | drained {w : World} {p c : Bool} {n : ℕ} :
      Step ⟨w, p, c, .drain (.pure false), n⟩ ⟨w, p, c, .idle, n⟩
  | fails {w : World} {p c : Bool} {n : ℕ} {e : Error} :
      Step ⟨w, p, c, .drain (.fail e), n⟩ ⟨w, p, c, .stopped, n⟩
  | cancelIdle {w : World} {p : Bool} {n : ℕ} :
      Step ⟨w, p, true, .idle, n⟩ ⟨w, p, true, .stopped, n⟩
  | woken {w : World} {p : Bool} {n : ℕ} : Step ⟨w, p, false, .idle, n⟩ ⟨w, p, false, .top, n⟩

variable {env root} {s s' : Loop}

/-- The dispatcher touches neither flag. -/
lemma Step.flags (h : Step env root s s') : s'.paused = s.paused ∧ s'.cancelled = s.cancelled := by
  cases h <;> exact ⟨rfl, rfl⟩

/-- **Operations are started in the drain loop** and nowhere else. -/
lemma Step.started_eq (h : Step env root s s') (hout : ∀ rest, s.phase ≠ .drain rest) :
    s'.started = s.started := by
  cases h with
  | call c k => exact absurd rfl (hout _)
  | _ => rfl

/-- **The rest of an iteration** is run, call by call, when nobody interferes. -/
lemma steps_run (env : Env) (root : FileId) (p : Task Bool) (w : World) (paused cancelled : Bool) (n : ℕ) :
    ∃ m, n ≤ m ∧ Relation.ReflTransGen (Step env root) ⟨w, paused, cancelled, .drain p, n⟩
      ⟨(runTask env p w).2, paused, cancelled, .drain (.ofExcept (runTask env p w).1), m⟩ := by
  induction p generalizing w n with
  | pure b => exact ⟨n, Nat.le_refl _, .refl⟩
  | fail e => exact ⟨n, Nat.le_refl _, .refl⟩
  | call c k ih =>
    obtain ⟨m, hm, hrest⟩ := ih (handle env _ c w).1 (handle env _ c w).2
      (n + (startsOp c (handle env _ c w).1).toNat)
    exact ⟨m, by omega, .head (.call c k) hrest⟩

/-- What an iteration does with the operation it took. -/
def operation (env : Env) (root : FileId) (op : PendingOperation) : Task Bool := do
  match ← (execute env root op).attempt with
  | .ok () =>
    completed op
    pure true
  | .error e => failed op e

/-- **The drain loop** takes the next due operation and starts it. -/
lemma steps_start (env : Env) (root : FileId) {w : World} (paused cancelled : Bool) (n : ℕ)
    {op : PendingOperation} (hnext : OpTable.nextDue w.db.ops w.now = some op) (hfresh : op.attempts < maxAttempts) :
    Relation.ReflTransGen (Step env root) ⟨w, paused, cancelled, .drain (drainOne env root), n⟩
      ⟨w, paused, cancelled, .drain (operation env root op), n + 1⟩ := by
  refine .head (.call .clock _) (.head (.call (.db (.nextDue w.now)) _) ?_)
  have hstart : startsOp (.db (.nextDue w.now)) (some op) = true := by
    simp [startsOp, hfresh]
  simp only [handle_db, handle_clock, DbCall.run, hnext, hstart, if_neg (Nat.not_le.mpr hfresh),
    Prog.pure_bind]
  exact .refl

end Dispatcher

end AirDrive
