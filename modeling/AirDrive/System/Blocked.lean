import AirDrive.System.StopFlags

set_option relaxedAutoImplicit false
set_option autoImplicit false

/-!
# Terminal blocks

The dispatcher and the poller write the stored block: both record an authentication failure and
both clear a transient block after a success; the poller records the removal of the mapped folder
and, when the feed cannot be read, a transient block. That last record looks at nothing, so it
replaces a terminal block, and the next success clears it. Every other step of the two keeps a
terminal block, and the dispatcher does not enter its drain loop while there is one.

## Main definitions

* `AirDrive.Blocked.State`, `AirDrive.Blocked.Does` — the poller and the dispatcher, call by call.
* `AirDrive.Blocked.Reachable` — the states of a running daemon.
* `AirDrive.Blocked.FailureAtHand` — the poller is about to record that the feed cannot be read.
* `AirDrive.Blocked.Undisturbed` — a step that is neither this record on top of a terminal block
  nor a command of the user that clears the block.

## Main results

* `AirDrive.Blocked.halted_handle` — every other call keeps a terminal block.
* `AirDrive.Blocked.terminal_block_stays` — so does every run without such a record.
-/

namespace AirDrive.Blocked

open Effect Dispatcher

/-- The dispatcher, and the poller with what is left of its current round. -/
structure State where
  /-- The dispatcher and the state of the daemon. -/
  loop : Loop
  /-- What is left of the current round of the poller, while there is one. -/
  poller : Option (Task Unit)

/-- The world of a state. -/
def State.world (s : State) : World := s.loop.world

/-- Who takes a step. -/
inductive Actor
  | dispatcher
  | poller
  /-- Another task, or the user at the files or at the controls. -/
  | other
  /-- The user, by a command that clears the block. -/
  | unblock
deriving DecidableEq

variable (env : Env) (root : FileId)

/-- One step of an actor. -/
inductive Does : Actor → State → State → Prop
  | dispatcher {s : State} {l : Loop} (h : Step env root s.loop l) :
      Does .dispatcher s { s with loop := l }
  | tick {s : State} (fuel : ℕ) (cache : PathCache) (h : s.poller = none) :
      Does .poller s { s with poller := some ((Job.poll fuel root cache).task env) }
  | request {s : State} {β : Type} (c : Call β) (k : β → Task Unit)
      (h : s.poller = some (.call c k)) :
      Does .poller s
        { loop := { s.loop with world := (handle env β c s.loop.world).2 }
          poller := some (k (handle env β c s.loop.world).1) }
  | ticked {s : State} (x : Except Error Unit) (h : s.poller = some (.ofExcept x)) :
      Does .poller s { s with poller := none }
  | control {s : State} (paused cancelled : Bool) :
      Does .other s { s with loop := { s.loop with paused, cancelled } }
  | elsewhere {s : State} (w : World) (h : w.db.info.blocked = s.loop.world.db.info.blocked) :
      Does .other s { s with loop := { s.loop with world := w } }
  | unblock {s : State} :
      Does .unblock s { s with loop := { s.loop with world := { s.loop.world with
        db := { s.loop.world.db with info := { s.loop.world.db.info with blocked := none } } } } }

/-- The states of a daemon that was started in some world. -/
def Reachable (s : State) : Prop :=
  ∃ w, Relation.ReflTransGen (fun s s' => ∃ a, Does env root a s s')
    ⟨⟨w, false, false, .top, 0⟩, none⟩ s

/-- The poller is about to record that the feed could not be read. -/
def FailureAtHand (s : State) : Prop :=
  ∃ k : Unit → Task Unit, s.poller = some (.call (.db (.setBlocked .transient)) k)

/-- A step that is neither a command that clears the block nor the record of a poll that failed,
made while a terminal block is stored. -/
def Undisturbed (s s' : State) : Prop :=
  ∃ a, Does env root a s s' ∧ a ≠ .unblock ∧
    ¬(a = .poller ∧ s.world.halted = true ∧ FailureAtHand s)

/-! ## The calls that keep a terminal block -/

/-- The call records a transient block. -/
def lowers {β : Type} : Call β → Bool
  | .db (.setBlocked .transient) => true
  | _ => false

variable {env} {root}

/-- **Every other call** keeps a terminal block. -/
lemma halted_handle {β : Type} {c : Call β} {w : World} (hc : lowers c = false)
    (h : w.halted = true) : (handle env β c w).2.halted = true := by
  cases c with
  | db c =>
    cases c with
    | setBlocked kind =>
      cases kind with
      | transient => cases hc
      | _ => rfl
    | clearIfTransient =>
      have hterminal : w.db.info.blocked ≠ some .transient := by
        intro htransient
        rw [World.halted, htransient] at h
        cases h
      simpa only [handle_db, DbCall.run, if_neg hterminal] using h
    | insertItem new =>
      simp only [handle_db, DbCall.run, Db.insertItem]
      split_ifs <;> exact h
    | enqueue item op payload now =>
      simp only [handle_db, DbCall.run, Db.enqueue]
      split_ifs <;> exact h
    | insertConflict item original conflict now =>
      simp only [handle_db, DbCall.run, Db.insertConflict]
      split_ifs <;> exact h
    | _ => exact h
  | _ => exact h

/-- The rest of an iteration records no transient block. -/
def Sound (p : Task Bool) : Prop := p.Only fun _ c => lowers c = false

lemma sound_of_plain {α : Type} {p : Task α} (h : Plain p) :
    p.Only fun _ c => lowers c = false := by
  refine Prog.Only.mono h fun β c hc => ?_
  cases c with
  | db c => cases c <;> first | rfl | cases hc
  | _ => rfl

lemma sound_sql {α : Type} {c : DbCall α} (hc : lowers (.db c) = false) :
    (sql c).Only fun _ c => lowers c = false := ⟨hc, fun _ => trivial⟩

/-- **The drain loop** records no transient block. -/
lemma sound_drainOne : Sound (drainOne env root) := by
  refine (sound_of_plain plain_unixNow).bind fun now => (sound_sql rfl).bind fun next => ?_
  cases next with
  | none => trivial
  | some op =>
    simp only
    split
    · exact (sound_sql rfl).bind fun _ => trivial
    · refine (sound_of_plain plain_execute).attempt.bind fun res => ?_
      cases res with
      | ok u =>
        have hend : Prog.Only (fun _ c => lowers c = false) (do
            let _ ← sql .clearIfTransient
            sql (.deleteOp op.id)) := (sound_sql rfl).bind fun _ => sound_sql rfl
        have hcompleted : (completed op).Only fun _ c => lowers c = false := by
          unfold completed
          split
          · exact (sound_of_plain plain_unixNow).bind fun _ => (sound_sql rfl).bind fun _ => hend
          · exact hend
        exact hcompleted.bind fun _ => trivial
      | error e =>
        show (failed op e).Only _
        unfold failed
        split
        · exact (sound_sql rfl).bind fun _ => (sound_of_plain plain_unixNow).bind fun _ =>
            (sound_sql rfl).bind fun _ => trivial
        · have hdelay : (backoffSeconds (op.attempts + 1)).Only fun _ c => lowers c = false :=
            ⟨rfl, fun _ => trivial⟩
          exact hdelay.bind fun _ => (sound_of_plain plain_unixNow).bind fun _ =>
            (sound_sql rfl).bind fun _ => trivial

/-- The dispatcher of a state is in an iteration of its drain loop, if it is in the loop. -/
def Draining (l : Loop) : Prop := ∀ rest, l.phase = .drain rest → Sound rest

/-- **A step of the dispatcher** stays in an iteration of the loop. -/
lemma draining_step {l l' : Loop} (h : Step env root l l') (hl : Draining l) : Draining l' := by
  cases h with
  | free =>
    intro rest hrest
    obtain rfl := Phase.drain.inj hrest
    exact sound_drainOne
  | call c k =>
    intro rest hrest
    obtain rfl := Phase.drain.inj hrest
    exact (hl _ rfl).2 _
  | again =>
    intro rest hrest
    obtain rfl := Phase.drain.inj hrest
    exact sound_drainOne
  | _ =>
    intro rest hrest
    cases hrest

/-- **A step of the dispatcher** keeps a terminal block. -/
lemma halted_step {l l' : Loop} (h : Step env root l l') (hl : Draining l)
    (hblocked : l.world.halted = true) : l'.world.halted = true := by
  cases h with
  | call c k => exact halted_handle (hl _ rfl).1 hblocked
  | _ => exact hblocked

/-- **A dispatcher outside its drain loop** does not enter it while a terminal block is stored. -/
lemma outside_step {l l' : Loop} (h : Step env root l l') (hblocked : l.world.halted = true)
    (hout : ∀ rest, l.phase ≠ .drain rest) :
    l'.started = l.started ∧ ∀ rest, l'.phase ≠ .drain rest := by
  cases h with
  | free hfree =>
    rw [hfree] at hblocked
    cases hblocked
  | call c k => exact absurd rfl (hout _)
  | again => exact absurd rfl (hout _)
  | _ => exact ⟨rfl, nofun⟩

/-- In a state of a running daemon, the dispatcher is in an iteration of its loop. -/
lemma Reachable.draining {s : State} (h : Reachable env root s) : Draining s.loop := by
  obtain ⟨w, hrun⟩ := h
  induction hrun with
  | refl => exact nofun
  | tail _ hstep ih =>
    obtain ⟨a, hdoes⟩ := hstep
    cases hdoes with
    | dispatcher h => exact draining_step h ih
    | _ => exact ih

/-- **One step** that is not excluded keeps a terminal block, and the dispatcher out of its drain
loop. -/
lemma undisturbed_step {s s' : State} (hl : Draining s.loop) (hblocked : s.world.halted = true)
    (h : Undisturbed env root s s') :
    Draining s'.loop ∧ s'.world.halted = true ∧
      ((∀ rest, s.loop.phase ≠ .drain rest) →
        s'.loop.started = s.loop.started ∧ ∀ rest, s'.loop.phase ≠ .drain rest) := by
  obtain ⟨a, hdoes, hkeep, hquiet⟩ := h
  cases hdoes with
  | dispatcher h => exact ⟨draining_step h hl, halted_step h hl hblocked, outside_step h hblocked⟩
  | tick => exact ⟨hl, hblocked, fun hout => ⟨rfl, hout⟩⟩
  | request c k hpoller =>
    refine ⟨hl, halted_handle ?_ hblocked, fun hout => ⟨rfl, hout⟩⟩
    cases hlow : lowers c with
    | false => rfl
    | true =>
      refine absurd ⟨rfl, hblocked, ?_⟩ hquiet
      unfold lowers at hlow
      split at hlow
      · exact ⟨k, hpoller⟩
      · cases hlow
  | ticked => exact ⟨hl, hblocked, fun hout => ⟨rfl, hout⟩⟩
  | control => exact ⟨hl, hblocked, fun hout => ⟨rfl, hout⟩⟩
  | elsewhere w hsame =>
    refine ⟨hl, ?_, fun hout => ⟨rfl, hout⟩⟩
    show w.halted = true
    rw [World.halted, hsame]
    exact hblocked
  | unblock => exact absurd rfl hkeep

/-- The record of a poll that failed replaces a terminal block. -/
lemma not_halted_of_failure {s s' : State} (hfailure : FailureAtHand s)
    (h : Does env root .poller s s') : s'.world.halted = false := by
  obtain ⟨k, hpoller⟩ := hfailure
  cases h with
  | tick fuel cache hnone =>
    rw [hpoller] at hnone
    cases hnone
  | request c k' hcall =>
    rw [hpoller] at hcall
    cases hcall
    rfl
  | ticked x hend =>
    rw [hpoller] at hend
    cases x <;> cases hend

/-- **A terminal block stays** in every run of the daemon in which no poll that failed is recorded
on top of it, until the user clears it, and a dispatcher outside its drain loop starts nothing;
the record of such a poll does replace it. -/
theorem terminal_block_stays (env : Env) (root : FileId) (s s' : State)
    (hreach : Reachable env root s) (hblocked : s.world.halted = true)
    (hrun : Relation.ReflTransGen (Undisturbed env root) s s') :
    s'.world.halted = true ∧
      ((∀ rest, s.loop.phase ≠ .drain rest) → s'.loop.started = s.loop.started) ∧
        ∀ t, FailureAtHand s' → Does env root .poller s' t → t.world.halted = false := by
  have hinv : Draining s'.loop ∧ s'.world.halted = true ∧
      ((∀ rest, s.loop.phase ≠ .drain rest) →
        s'.loop.started = s.loop.started ∧ ∀ rest, s'.loop.phase ≠ .drain rest) := by
    induction hrun with
    | refl => exact ⟨hreach.draining, hblocked, fun hout => ⟨rfl, hout⟩⟩
    | tail _ hstep ih =>
      obtain ⟨hl, hnow, hout⟩ := ih
      obtain ⟨hl', hnow', hout'⟩ := undisturbed_step hl hnow hstep
      refine ⟨hl', hnow', fun hstart => ?_⟩
      obtain ⟨hsame, houtside⟩ := hout hstart
      obtain ⟨hsame', houtside'⟩ := hout' houtside
      exact ⟨hsame'.trans hsame, houtside'⟩
  exact ⟨hinv.2.1, fun hstart => (hinv.2.2 hstart).1, fun _ => not_halted_of_failure⟩

/-! ## A removed folder and a poll that fails -/

/-- The mapped folder was removed, an operation is due, and the next request does not get
through. -/
def folderRemoved : World :=
  { StopFlags.dueWorld .block with
    db := { StopFlags.dueDb (some .remote) with cursor := some 1 }
    remote := ⟨sampleDrive [], [some (.failed (.network "timed out"))]⟩ }

/-- Steps that do not clear the block by a command. -/
def Goes (env : Env) (root : FileId) (s s' : State) : Prop :=
  ∃ a, a ≠ .unblock ∧ Does env root a s s'

/-- The rest of a round of the poller, when nobody interferes. -/
lemma goes_round (p : Task Unit) (w : World) (paused cancelled : Bool) (phase : Phase) (n : ℕ) :
    Relation.ReflTransGen (Goes env root) ⟨⟨w, paused, cancelled, phase, n⟩, some p⟩
      ⟨⟨(runTask env p w).2, paused, cancelled, phase, n⟩, none⟩ := by
  induction p generalizing w with
  | pure a => exact .single ⟨.poller, by decide, .ticked (.ok a) rfl⟩
  | fail e => exact .single ⟨.poller, by decide, .ticked (.error e) rfl⟩
  | call c k ih => exact .head ⟨.poller, by decide, .request c k rfl⟩ (ih _ _)

/-- Steps of the dispatcher, when nobody interferes. -/
lemma goes_dispatcher {l l' : Loop} (h : Relation.ReflTransGen (Step env root) l l') :
    Relation.ReflTransGen (Goes env root) ⟨l, none⟩ ⟨l', none⟩ := by
  induction h with
  | refl => exact .refl
  | tail _ hstep ih => exact ih.tail ⟨.dispatcher, by decide, .dispatcher hstep⟩

/-- The world after a round of the poller. -/
def polled (w : World) : World :=
  (runTask .plain ((Job.poll 5 (.id 2) Data.Table.empty).task .plain) w).2

/-- A round of the poller. -/
lemma goes_poll (w : World) :
    Relation.ReflTransGen (Goes .plain (.id 2)) ⟨⟨w, false, false, .top, 0⟩, none⟩
      ⟨⟨polled w, false, false, .top, 0⟩, none⟩ :=
  .head ⟨.poller, by decide, .tick 5 Data.Table.empty rfl⟩ (goes_round _ w false false .top 0)

/-- A poll fails, the next one goes well, and the dispatcher starts an operation although the mapped
folder is gone and nobody cleared the block. -/
theorem failed_poll_unblocks :
    ∃ s s', Reachable .plain (.id 2) s ∧ s.world.db.info.blocked = some .remote ∧
      Relation.ReflTransGen (Goes .plain (.id 2)) s s' ∧ s'.world.halted = false ∧
        s.loop.started < s'.loop.started := by
  have hfree : (polled (polled folderRemoved)).halted = false := by decide +kernel
  have hnext : OpTable.nextDue (polled (polled folderRemoved)).db.ops
      (polled (polled folderRemoved)).now = some (StopFlags.dirOp 1) := by decide +kernel
  have hstart := steps_start .plain (.id 2) false false 0 hnext (by decide)
  have hgoes := goes_dispatcher (.head .running (.head (.free hfree) hstart))
  exact ⟨_, _, ⟨folderRemoved, .refl⟩, rfl, ((goes_poll _).trans (goes_poll _)).trans hgoes, hfree,
    Nat.zero_lt_one⟩

/-- The mapped folder was removed; the dispatcher has seen it, and the poller begins a round. -/
def haltedState : State :=
  ⟨⟨folderRemoved, false, false, .blocked, 0⟩,
    some ((Job.poll 5 (.id 2) Data.Table.empty).task .plain)⟩

/-- The dispatcher looks at the block of a removed folder and starts nothing. -/
theorem removed_folder_halts :
    haltedState.world.halted = true ∧ haltedState.loop.started = 0 := by
  have hreach : Reachable .plain (.id 2) ⟨⟨folderRemoved, false, false, .top, 0⟩, none⟩ :=
    ⟨folderRemoved, .refl⟩
  have hquiet : ∀ {l : Loop}, ¬FailureAtHand ⟨l, none⟩ := by
    rintro l ⟨k, hcall⟩
    cases hcall
  have hstays := terminal_block_stays .plain (.id 2) _ haltedState hreach (by decide +kernel)
    (.head ⟨.dispatcher, .dispatcher .running, by decide, by simp⟩
      (.head ⟨.dispatcher, .dispatcher (.halting (by decide +kernel)), by decide, by simp⟩
        (.single ⟨.poller, .tick 5 Data.Table.empty rfl, by decide, fun h => hquiet h.2.2⟩)))
  exact ⟨hstays.1, hstays.2.1 nofun⟩

end AirDrive.Blocked
