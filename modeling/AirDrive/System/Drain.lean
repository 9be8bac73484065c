import AirDrive.Daemon.Outcomes
import AirDrive.System.Run
import Mathlib.Logic.Relation

set_option relaxedAutoImplicit false
set_option autoImplicit false

/-!
# Draining the queue

What a drain of the queue can do: iterations of the drain loop, with any time between them and
any requests failing.

## Main definitions

* `AirDrive.DrainStep`, `AirDrive.Drains` — one step of a drain, and any number of them.
* `AirDrive.Drained` — nothing is queued.
-/

namespace AirDrive

open Effect

/-- One step of a drain: an iteration of the loop, or time passes and the connection changes. -/
inductive DrainStep (env : Env) (root : FileId) : World → World → Prop
  | drain (w : World) : DrainStep env root w (runTask env (Dispatcher.drainOne env root) w).2
  | wait (w : World) (now : ℕ) (faults : List (Option Fault)) (jitters : List ℤ)
      (later : w.now ≤ now) :
      DrainStep env root w { w with remote := ⟨w.remote.drive, faults⟩, now, jitters }

/-- Any number of steps of a drain. -/
abbrev Drains (env : Env) (root : FileId) : World → World → Prop :=
  Relation.ReflTransGen (DrainStep env root)

/-- Nothing is queued. -/
def Drained (w : World) : Prop := ∀ o, o ∉ w.db.ops

lemma drained_of_rows {w : World} (h : w.db.ops.table.rows = []) : Drained w := by
  intro o ho
  rw [Data.Serial.mem_def, h] at ho
  cases ho

end AirDrive
