import AirDrive.Daemon.Loop
import AirDrive.System.Footprint

set_option relaxedAutoImplicit false
set_option autoImplicit false

/-!
# Pause, cancellation and block

The dispatcher is told to stop by three flags: the pause flag, the cancellation and a stored
terminal block. Each of them is looked at in the outer loop only, so a flag that is raised while
the inner loop drains does not keep it from starting one due operation after the other. A flag
does stop the dispatcher at once exactly when it is raised before the place of the outer loop
where it is looked at, or when the operation under way is going to leave the drain loop anyway.

## Main definitions

* `AirDrive.StopFlags.Flag`, `AirDrive.StopFlags.Flag.up` — the flags.
* `AirDrive.StopFlags.Kept` — a step of the dispatcher or of the others that leaves a flag up.
* `AirDrive.StopFlags.Stops` — no further operation is started as long as the flag is up.
* `AirDrive.StopFlags.Before` — the places from which the flag is seen in time.

## Main results

* `AirDrive.StopFlags.stops_iff_before` — where a flag stops the dispatcher at once.
-/

namespace AirDrive.StopFlags

open Effect Dispatcher

/-- What tells the dispatcher to stop. -/
inductive Flag
  /-- `pause()` was called. -/
  | pause
  /-- The cancellation token has fired. -/
  | cancel
  /-- A terminal block is stored. -/
  | block
deriving DecidableEq

/-- A world in which the flag can be up. -/
def Flag.allows : Flag → World → Prop
  | .block, w => w.halted = true
  | _, _ => True

/-- The flag is up. -/
def Flag.up : Flag → Loop → Prop
  | .pause, s => s.paused = true
  | .cancel, s => s.cancelled = true
  | .block, s => s.world.halted = true

lemma Flag.allows_of_up {flag : Flag} {s : Loop} (h : flag.up s) : flag.allows s.world := by
  cases flag with
  | block => exact h
  | _ => trivial

/-- What the other tasks and the user do between two calls of the dispatcher: anything, except
that a cancellation is never taken back. -/
inductive Elsewhere : Loop → Loop → Prop
  | intro {w w' : World} {p p' c c' : Bool} {phase : Phase} {n : ℕ} (hc : c = true → c' = true) :
      Elsewhere ⟨w, p, c, phase, n⟩ ⟨w', p', c', phase, n⟩

section Kept

variable (env : Env) (root : FileId) (flag : Flag)

/-- One step of the dispatcher or of the others, after which the flag is up. -/
def Kept (s s' : Loop) : Prop := (Step env root s s' ∨ Elsewhere s s') ∧ flag.up s'

/-- However the others go on, no further operation is started as long as the flag is up. -/
def Stops (s : Loop) : Prop :=
  ∀ s', Relation.ReflTransGen (Kept env root flag) s s' → s'.started = s.started

/-- The rest of an iteration can lead to a further operation, while the flag is up. -/
def Proceeds : Task Bool → Prop
  | .pure goesOn => goesOn = true
  | .fail _ => False
  | .call c k => ∃ w, flag.allows w ∧ flag.allows (handle env _ c w).2 ∧
      (startsOp c (handle env _ c w).1 = true ∨ Proceeds (k (handle env _ c w).1))

/-- The flag is seen before a further operation is started: the dispatcher has not passed the
place where it looks at it, and what is left of an operation under way leaves the drain loop. -/
def Before : Phase → Prop
  | .top => flag ≠ .cancel
  | .check => flag = .block
  | .drain rest => ¬Proceeds env flag rest
  | _ => True

end Kept

variable {env : Env} {root : FileId} {flag : Flag} {s s' : Loop}

/-! ## A flag that is seen in time -/

/-- **A step** from a place before the look at the flag starts nothing, and stays before it. -/
lemma before_step (hup : flag.up s) (hbefore : Before env flag s.phase)
    (h : Kept env root flag s s') : s'.started = s.started ∧ Before env flag s'.phase := by
  obtain ⟨hstep | hother, hup'⟩ := h
  · cases hstep with
    | running =>
      refine ⟨rfl, ?_⟩
      cases flag with
      | block => rfl
      | pause => cases hup
      | cancel => exact absurd rfl hbefore
    | resumed =>
      refine ⟨rfl, ?_⟩
      cases flag with
      | block => rfl
      | pause => cases hup
      | cancel => cases hup
    | @free w p c n hfree =>
      obtain rfl : flag = .block := hbefore
      rw [Flag.up, hfree] at hup
      cases hup
    | @call w p c n β call k =>
      have hstuck : ¬(startsOp call (handle env _ call w).1 = true ∨
          Proceeds env flag (k (handle env _ call w).1)) := fun hgo =>
        hbefore ⟨w, Flag.allows_of_up hup, Flag.allows_of_up hup', hgo⟩
      obtain ⟨hstart, hrest⟩ := not_or.mp hstuck
      refine ⟨?_, hrest⟩
      rw [Bool.not_eq_true] at hstart
      simp only [hstart, Bool.toNat_false, Nat.add_zero]
    | again => exact absurd rfl hbefore
    | slept =>
      refine ⟨rfl, ?_⟩
      rintro rfl
      cases hup
    | woken =>
      refine ⟨rfl, ?_⟩
      rintro rfl
      cases hup
    | _ => exact ⟨rfl, trivial⟩
  · cases hother
    exact ⟨rfl, hbefore⟩

/-- **A run** from such a place starts nothing. -/
lemma stops_of_before (hup : flag.up s) (hbefore : Before env flag s.phase) :
    Stops env root flag s := by
  intro s' hrun
  have hinv : flag.up s' ∧ s'.started = s.started ∧ Before env flag s'.phase := by
    induction hrun with
    | refl => exact ⟨hup, rfl, hbefore⟩
    | tail _ hstep ih =>
      obtain ⟨hnow, hsame, hplace⟩ := ih
      obtain ⟨hstarted, hnext⟩ := before_step hnow hplace hstep
      exact ⟨hstep.2, hstarted.trans hsame, hnext⟩
  exact hinv.2.1

/-! ## A flag that is seen too late -/

/-- A database with one operation that is due. -/
def dueDb (blocked : Option BlockedKind) : Db :=
  { ((Db.empty.insertItem (Continuous.remoteDir ["d"] (.id 3))).2.enqueue 1 .createDirLocal
      none 0).2 with info := { blocked } }

/-- A world in which an operation is due, and the flag can be up. -/
def dueWorld (flag : Flag) : World :=
  { World.fresh (sampleDrive []) with
    db := dueDb (if flag = .block then some .auth else none) }

lemma allows_dueWorld (flag : Flag) : flag.allows (dueWorld flag) := by
  cases flag with
  | block => rfl
  | _ => trivial

lemma halted_dueWorld (h : flag ≠ .block) : (dueWorld flag).halted = false := by
  cases flag with
  | block => exact absurd rfl h
  | _ => rfl

lemma startsOp_dueWorld (flag : Flag) :
    startsOp (.db (.nextDue 0)) (DbCall.run (.nextDue 0) (dueWorld flag).db).1 = true := by
  cases flag <;> decide +kernel

/-- A step of the dispatcher leaves the two flags outside the database as they are. -/
lemma kept_step (env : Env) (root : FileId) (hallows : flag.allows s'.world) (hup : flag.up s) (h : Step env root s s') :
    Kept env root flag s s' := by
  refine ⟨.inl h, ?_⟩
  cases flag with
  | pause => exact h.flags.1.trans hup
  | cancel => exact h.flags.2.trans hup
  | block => exact hallows

/-- The others can bring about any world in which the flag can be up. -/
lemma kept_elsewhere (env : Env) (root : FileId) {w w' : World} {p c : Bool} {phase : Phase} {n : ℕ}
    (hallows : flag.allows w') (hup : flag.up ⟨w, p, c, phase, n⟩) :
    Kept env root flag ⟨w, p, c, phase, n⟩ ⟨w', p, c, phase, n⟩ ∧
      flag.up ⟨w', p, c, phase, n⟩ := by
  have hup' : flag.up ⟨w', p, c, phase, n⟩ := by
    cases flag with
    | block => exact hallows
    | _ => exact hup
  exact ⟨⟨.inr (.intro id), hup'⟩, hup'⟩

/-- Some run that leaves the flag up starts a further operation. -/
def GoesOn (env : Env) (root : FileId) (flag : Flag) (s : Loop) : Prop :=
  ∃ s', Relation.ReflTransGen (Kept env root flag) s s' ∧ s.started < s'.started

lemma GoesOn.of_step (h : Kept env root flag s s') (hle : s.started ≤ s'.started)
    (hgo : GoesOn env root flag s') : GoesOn env root flag s := by
  obtain ⟨t, hrun, hlt⟩ := hgo
  exact ⟨t, .head h hrun, by omega⟩

lemma GoesOn.not_stops (h : GoesOn env root flag s) : ¬Stops env root flag s := by
  obtain ⟨s', hrun, hlt⟩ := h
  intro hstops
  have := hstops s' hrun
  omega

/-- **At the head of the drain loop** the flag is not seen: another task enqueues an operation, and
the dispatcher takes it. -/
lemma goesOn_drainOne {w : World} {p c : Bool} {n : ℕ}
    (hup : flag.up ⟨w, p, c, .drain (drainOne env root), n⟩) :
    GoesOn env root flag ⟨w, p, c, .drain (drainOne env root), n⟩ := by
  obtain ⟨hother, hup₁⟩ := kept_elsewhere env root (allows_dueWorld flag) hup
  refine GoesOn.of_step hother (Nat.le_refl _) ?_
  have hclock := kept_step env root (allows_dueWorld flag) hup₁
    (.call .clock _)
  have hlook := kept_step env root (allows_dueWorld flag) hclock.2
    (.call (.db (.nextDue 0)) _)
  refine ⟨_, .head hclock (.single hlook), ?_⟩
  have hstart : startsOp (.db (.nextDue 0))
      (handle env _ (.db (.nextDue 0)) (dueWorld flag)).1 = true :=
    startsOp_dueWorld flag
  show n < n + 0 + (startsOp (.db (.nextDue 0))
      (handle env _ (.db (.nextDue 0)) (dueWorld flag)).1).toNat
  rw [hstart]
  simp

/-- **In the middle of an operation** the flag is not seen when the loop goes on after it. -/
lemma goesOn_of_proceeds {rest : Task Bool} (hgo : Proceeds env flag rest) {w : World}
    {p c : Bool} {n : ℕ} (hup : flag.up ⟨w, p, c, .drain rest, n⟩) :
    GoesOn env root flag ⟨w, p, c, .drain rest, n⟩ := by
  induction rest generalizing w n with
  | pure goesOn =>
    obtain rfl : goesOn = true := hgo
    have hstep : Kept env root flag ⟨w, p, c, .drain (.pure true), n⟩
        ⟨w, p, c, .drain (drainOne env root), n⟩ := 
      kept_step env root (Flag.allows_of_up (s := ⟨w, p, c, .drain (.pure true), n⟩) hup) hup .again
    exact GoesOn.of_step hstep (Nat.le_refl _) (goesOn_drainOne hstep.2)
  | fail e => exact hgo.elim
  | call call k ih =>
    obtain ⟨w', hallows, hallows', hnext⟩ := hgo
    obtain ⟨hother, hup'⟩ := kept_elsewhere env root hallows hup
    have hstep := kept_step env root hallows' hup' (.call call k)
    refine GoesOn.of_step hother (Nat.le_refl _) ?_
    rcases hnext with hstart | hrest
    · refine ⟨_, .single hstep, ?_⟩
      show n < n + (startsOp call (handle env _ call w').1).toNat
      rw [hstart]
      simp
    · exact GoesOn.of_step hstep (Nat.le_add_right _ _) (ih _ hrest hstep.2)

/-- **At the look at the block** neither the pause flag nor the cancellation is seen. -/
lemma goesOn_check {w : World} {p c : Bool} {n : ℕ} (hflag : flag ≠ .block)
    (hup : flag.up ⟨w, p, c, .check, n⟩) : GoesOn env root flag ⟨w, p, c, .check, n⟩ := by
  obtain ⟨hother, hup'⟩ := kept_elsewhere env root (allows_dueWorld flag) hup
  have hstep := kept_step env root (allows_dueWorld flag) hup'
    (.free (halted_dueWorld hflag))
  refine GoesOn.of_step hother (Nat.le_refl _) (GoesOn.of_step hstep (Nat.le_refl _) ?_)
  exact goesOn_drainOne hstep.2

/-- **At the top** the cancellation is not seen. -/
lemma goesOn_top {w : World} {p c : Bool} {n : ℕ} (hup : Flag.up .cancel ⟨w, p, c, .top, n⟩) :
    GoesOn env root .cancel ⟨w, p, c, .top, n⟩ := by
  have hresume : Kept env root .cancel ⟨w, p, c, .top, n⟩ ⟨w, false, c, .top, n⟩ :=
    ⟨.inr (.intro id), hup⟩
  have hstep : Kept env root .cancel ⟨w, false, c, .top, n⟩ ⟨w, false, c, .check, n⟩ :=
    ⟨.inl .running, hup⟩
  refine GoesOn.of_step hresume (Nat.le_refl _) (GoesOn.of_step hstep (Nat.le_refl _) ?_)
  exact goesOn_check (by decide) hup

/-- **A flag stops the dispatcher at once** exactly when it is raised before the place where the
dispatcher looks at it, or during an operation after which the drain loop ends anyway. -/
theorem stops_iff_before (env : Env) (root : FileId) (flag : Flag) (s : Loop) (hup : flag.up s) :
    Stops env root flag s ↔ Before env flag s.phase := by
  refine ⟨fun hstops => ?_, stops_of_before hup⟩
  by_contra hafter
  refine GoesOn.not_stops ?_ hstops
  obtain ⟨w, p, c, phase, n⟩ := s
  cases phase with
  | top =>
    obtain rfl : flag = .cancel := not_not.mp hafter
    exact goesOn_top hup
  | check => exact goesOn_check hafter hup
  | drain rest => exact goesOn_of_proceeds (not_not.mp hafter) hup
  | _ => exact absurd trivial hafter

/-- Paused at the top of its loop, the dispatcher leaves everything that is due. -/
theorem paused_at_top :
    Flag.up .pause ⟨dueWorld .pause, true, false, .top, 0⟩ ∧
      Stops .plain (.id 2) .pause ⟨dueWorld .pause, true, false, .top, 0⟩ :=
  ⟨rfl, (stops_iff_before .plain (.id 2) .pause ⟨dueWorld .pause, true, false, .top, 0⟩ rfl).mpr
    (by simp [Before])⟩

/-! ## What an operation leads to -/

/-- After an authentication failure the drain loop is left, whatever the answers. -/
lemma before_of_auth_failure (op : PendingOperation) (message : String) :
    Before env flag (.drain (failed op (.oauth message))) := by
  rintro ⟨w, -, -, hset⟩
  rcases hset with hset | ⟨w₁, -, -, hclock⟩
  · cases hset
  rcases hclock with hclock | ⟨w₂, -, -, hmark⟩
  · cases hclock
  rcases hmark with hmark | hend
  · cases hmark
  · cases hend

/-- After a failure of another kind it goes on. -/
lemma after_of_failure (op : PendingOperation) {e : Error} (he : ∀ message, e ≠ .oauth message) :
    ¬Before env flag (.drain (failed op e)) := by
  have hfailed : failed op e = (do
      let delay ← backoffSeconds (op.attempts + 1)
      let now ← unixNow
      sql (.markAttempt op.id (now + delay))
      pure true) := by
    cases e with
    | oauth message => exact absurd rfl (he message)
    | _ => rfl
  rw [hfailed]
  have hallows := allows_dueWorld flag
  refine not_not.mpr ⟨dueWorld flag, hallows, hallows, .inr ⟨dueWorld flag, hallows, hallows,
    .inr ⟨dueWorld flag, hallows, ?_, .inr rfl⟩⟩⟩
  cases flag with
  | block => exact hallows
  | _ => trivial

/-! ## Two operations that are due -/

/-- The change that describes an empty folder in the mapped folder. -/
def folderChange (n : ℕ) (name : String) : RemoteChange :=
  ⟨.id n, false, some ⟨.id n, name, folderMime, none, none, [.id 2], false⟩, some [name]⟩

/-- Two directories are to be made. -/
def twoDue : World :=
  performAll .plain [.job (.batch ⟨[folderChange 3 "d", folderChange 4 "e"], 1⟩) 100]
    (World.fresh (sampleDrive []))

/-- The operation that makes one of them. -/
def dirOp (n : ℕ) : PendingOperation := ⟨n, n, .createDirLocal, none, 0, 0⟩

/-- The daemon is paused and cancelled while the first of two operations is executed; the
dispatcher, left alone, starts the second one. -/
theorem second_operation_starts :
    ∃ s s', Relation.ReflTransGen (Step .plain (.id 2)) ⟨twoDue, false, false, .top, 0⟩ s ∧
      s.started = 1 ∧
        Relation.ReflTransGen (Step .plain (.id 2)) { s with paused := true, cancelled := true } s' ∧
          1 < s'.started := by
  have hfirst : OpTable.nextDue twoDue.db.ops twoDue.now = some (dirOp 1) := by decide +kernel
  have hend : (runTask .plain (operation .plain (.id 2) (dirOp 1)) twoDue).1 = .ok true := by
    decide +kernel
  have hsecond : let w := (runTask .plain (operation .plain (.id 2) (dirOp 1)) twoDue).2
      OpTable.nextDue w.db.ops w.now = some (dirOp 2) := by decide +kernel
  obtain ⟨m, hm, hrun⟩ := steps_run .plain (.id 2) (operation .plain (.id 2) (dirOp 1)) twoDue true true 1
  rw [hend] at hrun
  have hnext := steps_start .plain (.id 2) true true m hsecond (by decide)
  refine ⟨⟨twoDue, false, false, .drain (operation .plain (.id 2) (dirOp 1)), 1⟩, _, ?_, rfl,
    hrun.trans (.head .again hnext), ?_⟩
  · exact .head .running (.head (.free (by decide +kernel)) (steps_start _ _ false false 0 hfirst (by decide)))
  · show 1 < m + 1
    omega

end AirDrive.StopFlags
