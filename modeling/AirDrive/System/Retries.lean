import AirDrive.Daemon.Loop
import AirDrive.System.Calls
import AirDrive.System.Turns

set_option relaxedAutoImplicit false
set_option autoImplicit false

/-!
# Retries are bounded

An iteration of the drain loop takes the first operation that is due, and ends with that operation
deleted or due later. So a pass of the loop in which nothing is enqueued and the clock stands still
has at most as many iterations as there are due operations.

Every execution either deletes its operation or counts one more attempt, and an operation that has
used up its attempts is parked beyond every time that the clock shows. Over a whole run of the
dispatcher it is therefore executed a bounded number of times, and afterwards stays out of the way.

## Main definitions

* `AirDrive.Retries.due`, `AirDrive.Retries.Iterates`, `AirDrive.Retries.StopsWithin` — the inner
  loop, amid other tasks that enqueue nothing.
* `AirDrive.Retries.Others`, `AirDrive.Retries.Runs` — the runs of the dispatcher without crashes,
  with the operations that it took.
* `AirDrive.Retries.Log`, `AirDrive.Retries.Settled`, `AirDrive.Retries.Busy` — what is known of the
  operations that were taken.
* `AirDrive.Retries.Moves` — how the queue moves on.

## Main results

* `AirDrive.Retries.safe_iteration`, `AirDrive.Retries.stopsWithin_due` — the inner loop.
* `AirDrive.Retries.safe_drainOne`, `AirDrive.Retries.good_runs` — an iteration, and a whole run.
* `AirDrive.Retries.drains_end_and_retries_are_bounded`.
-/

namespace AirDrive.Retries

open Effect Dispatcher

variable {env : Env} {root : FileId} {w w' w'' : World} {op o : PendingOperation}

/-! ## The calls of an execution -/

/-- The call neither takes, adds, postpones nor removes an operation. -/
def aside : ∀ β, Call β → Bool
  | _, .db (.nextDue _) => false
  | _, .db (.enqueue _ _ _ _) => false
  | _, .db (.markAttempt _ _) => false
  | _, .db (.deleteOp _) => false
  | _, _ => true

/-- An execution leaves the queue to the loop. -/
lemma only_execute (env : Env) (root : FileId) (op : PendingOperation) :
    (execute env root op).Only fun β c => aside β c = true := by
  refine Prog.Only.bind ⟨rfl, fun _ => trivial⟩ fun item => ?_
  cases item with
  | none => trivial
  | some item =>
    refine (Calls.executing_executeItem env root op item).mono fun β c hc => ?_
    cases c with
    | db c => cases c <;> first | rfl | exact hc.elim
    | _ => rfl

/-- Operations after a call that leaves the queue alone are operations from before it. -/
lemma mem_ops_of_aside {β : Type} {c : DbCall β} {db : Db} (hc : aside β (.db c) = true)
    (ho : o ∈ (c.run db).2.ops) : o ∈ db.ops := by
  rcases DbCall.ops_run_cases ho with ⟨ho, -⟩ | ⟨item, k, payload, now, hadds, -⟩ |
      ⟨s, -, next, hpost, -⟩
  · exact ho
  · cases c with
    | enqueue item' k' payload' now' => cases hc
    | _ => cases hadds
  · cases c with
    | markAttempt id next' => cases hc
    | _ => cases hpost

/-- The queue after an attempt was recorded. -/
lemma mem_ops_markAttempt {db : Db} {id : OpId} {next : ℕ} :
    o ∈ ((DbCall.markAttempt id next).run db).2.ops ↔ (o ∈ db.ops ∧ o.id ≠ id) ∨
      ∃ s ∈ db.ops, s.id = id ∧ { s with attempts := s.attempts + 1, nextAttemptAt := next } = o := by
  simp only [DbCall.run, Db.modifyOp]
  exact Data.Serial.mem_modify

/-- The queue after an operation was removed. -/
lemma mem_ops_deleteOp {db : Db} {id : OpId} :
    o ∈ ((DbCall.deleteOp id).run db).2.ops ↔ o ∈ db.ops ∧ o.id ≠ id := by
  simp only [DbCall.run, Db.deleteOp, Data.Serial.mem_keep, ne_eq, decide_not, Bool.not_eq_true',
    decide_eq_false_iff_not]

/-- No call of the daemon moves the clock. -/
lemma handle_now {β : Type} (c : Call β) (w : World) : (handle env β c w).2.now = w.now := by
  cases c <;> rfl

/-! ## A pass of the inner loop -/

/-- The operations that are due. -/
def due (w : World) : List PendingOperation :=
  (OpTable.rows w.db.ops).filter fun o => o.nextAttemptAt ≤ w.now

lemma mem_due : o ∈ due w ↔ o ∈ w.db.ops ∧ o.nextAttemptAt ≤ w.now := by
  simp only [due, List.mem_filter, decide_eq_true_eq]
  rfl

/-- What the others do during a pass: nothing is enqueued and the clock stands still. -/
def Still (w w' : World) : Prop := w'.now = w.now ∧ ∀ o ∈ w'.db.ops, o ∈ w.db.ops

/-- An iteration of the inner loop amid the others, with its outcome. -/
abbrev Iterates (env : Env) (root : FileId) : World → Except Error Bool → World → Prop :=
  fun w x w' => Prog.RunsAmid (handle env) Still (drainOne env root) w x w'

/-- Whatever the others do, the inner loop is left after at most `n` iterations that go on. -/
def StopsWithin (env : Env) (root : FileId) : ℕ → World → Prop
  | 0, w => ∀ x w', Iterates env root w x w' → x = .ok false
  | n + 1, w => ∀ x w', Iterates env root w x w' →
    x = .ok false ∨ x = .ok true ∧ StopsWithin env root n w'

/-- What is due later in a pass was due at its beginning. -/
def Within (w w' : World) : Prop :=
  w'.now = w.now ∧ ∀ o ∈ w'.db.ops, o.nextAttemptAt ≤ w.now → o ∈ w.db.ops

/-- The operation is not due any more. -/
def Served (op : PendingOperation) (w w' : World) : Prop :=
  Within w w' ∧ ∀ o ∈ w'.db.ops, o.id = op.id → w.now < o.nextAttemptAt

section Pass

lemma Within.still (h : Within w w') (hs : Still w' w'') : Within w w'' :=
  ⟨hs.1.trans h.1, fun o ho hdue => h.2 o (hs.2 o ho) hdue⟩

lemma Within.call {β : Type} {c : Call β} (h : Within w w') (hc : aside β c = true) :
    Within w (handle env β c w').2 := by
  refine ⟨(handle_now c w').trans h.1, fun o ho hdue => h.2 o ?_ hdue⟩
  cases c with
  | db c => exact mem_ops_of_aside hc ho
  | _ => exact ho

/-- **Fewer operations are due** when one of them was served. -/
lemma length_due_lt (h : Served op w w') (hop : op ∈ due w) : (due w').length < (due w).length := by
  have hnodup : (due w').Nodup := (List.Nodup.of_map _ w'.db.ops.table.nodup).filter _
  have hsub : due w' ⊆ (due w).erase op := by
    intro o ho
    obtain ⟨hmem, hdue⟩ := mem_due.mp ho
    rw [h.1.1] at hdue
    have hne : o ≠ op := by
      rintro rfl
      exact absurd (h.2 o hmem rfl) (Nat.not_lt.mpr hdue)
    exact (List.mem_erase_of_ne hne).mpr (mem_due.mpr ⟨h.1.2 o hmem hdue, hdue⟩)
  calc (due w').length ≤ ((due w).erase op).length := (List.subperm_of_subset hnodup hsub).length_le
    _ < (due w).length := by
      rw [List.length_erase_of_mem hop]
      exact Nat.sub_lt (List.length_pos_of_mem hop) Nat.one_pos

/-- The terms of a pass: the others enqueue nothing, and the clock stands still. -/
abbrev pass : Terms World := ⟨fun _ => True, Still, fun _ _ => True⟩

/-- A statement of a pass. -/
lemma safe_sql_pass {α : Type} {c : DbCall α} {Q : Except Error α → World → Prop}
    (hw : Within w w')
    (hQ : ∀ s, Within w s → Q (.ok (c.run s.db).1) { s with db := (c.run s.db).2 }) :
    (sql c).Safe (handle env) pass Q w' :=
  fun s hs _ => ⟨trivial, trivial, hQ s (hw.still hs)⟩

/-- A statement of a pass that leaves the queue alone. -/
lemma safe_aside_pass {α : Type} {c : DbCall α} {Q : Except Error α → World → Prop}
    (hc : aside α (.db c) = true) (hw : Within w w') (hQ : ∀ x s, Within w s → Q (.ok x) s) :
    (sql c).Safe (handle env) pass Q w' :=
  safe_sql_pass hw fun _ hs => hQ _ _ (@Within.call env _ _ _ (.db c) hs hc)

lemma safe_unixNow_pass {Q : Except Error ℕ → World → Prop} (hw : Within w w')
    (hQ : ∀ s, Within w s → Q (.ok w.now) s) : unixNow.Safe (handle env) pass Q w' := by
  intro s hs _
  have hs' := hw.still hs
  refine ⟨trivial, trivial, ?_⟩
  simp only [handle_clock, Prog.safe_pure]
  rw [hs'.1]
  exact hQ s hs'

/-- The operation that is deleted is not due any more. -/
lemma served_deleteOp (hw : Within w w') :
    Served op w { w' with db := ((DbCall.deleteOp op.id).run w'.db).2 } := by
  refine ⟨⟨hw.1, fun o ho hdue => ?_⟩, fun o ho hid => ?_⟩
  · exact hw.2 o (mem_ops_deleteOp.mp ho).1 hdue
  · exact absurd hid (mem_ops_deleteOp.mp ho).2

/-- The operation that is postponed beyond the time of the pass is not due any more. -/
lemma served_markAttempt {next : ℕ} (hw : Within w w') (hnext : w.now < next) :
    Served op w { w' with db := ((DbCall.markAttempt op.id next).run w'.db).2 } := by
  refine ⟨⟨hw.1, fun o ho hdue => ?_⟩, fun o ho hid => ?_⟩ <;>
    rcases mem_ops_markAttempt.mp ho with ⟨ho, hne⟩ | ⟨s, hs, hsid, rfl⟩
  · exact hw.2 o ho hdue
  · exact absurd hdue (Nat.not_le.mpr hnext)
  · exact absurd hid hne
  · exact hnext

lemma safe_completed_pass (hw : Within w w') : (completed op).Safe (handle env) pass
    (fun x s => x = .ok () ∧ Served op w s) w' := by
  have hend : ∀ s, Within w s → (do
      let _ ← sql .clearIfTransient
      sql (.deleteOp op.id) : Task Unit).Safe (handle env) pass
        (fun x s => x = .ok () ∧ Served op w s) s := fun s hs =>
    Prog.safe_bind.mpr (safe_aside_pass rfl hs fun _ s₁ hs₁ =>
      safe_sql_pass hs₁ fun s₂ hs₂ => ⟨rfl, served_deleteOp hs₂⟩)
  unfold completed
  split
  · refine Prog.safe_bind.mpr (safe_unixNow_pass hw fun s hs => ?_)
    exact Prog.safe_bind.mpr (safe_aside_pass rfl hs fun _ => hend)
  · exact hend _ hw

/-- A back-off takes at least a second. -/
lemma safe_backoffSeconds_pass {attempt : ℕ} (hw : Within w w') :
    (backoffSeconds attempt).Safe (handle env) pass
      (fun x s => ∃ delay, x = .ok delay ∧ 0 < delay ∧ Within w s) w' := by
  intro s hs _
  refine ⟨trivial, trivial, _, rfl, ?_, (hw.still hs).call (c := .random _) rfl⟩
  exact Int.pos_iff_toNat_pos.mp (lt_of_lt_of_le Int.one_pos (le_max_right _ _))

/-- **A failed operation** is postponed. -/
lemma safe_failed_pass (e : Error) (hw : Within w w') : (failed op e).Safe (handle env) pass
    (fun x s => ∃ b, x = .ok b ∧ Served op w s) w' := by
  unfold failed
  split
  · refine Prog.safe_bind.mpr (safe_aside_pass rfl hw fun _ s hs => ?_)
    refine Prog.safe_bind.mpr (safe_unixNow_pass hs fun s₁ hs₁ => ?_)
    refine Prog.safe_bind.mpr (safe_sql_pass hs₁ fun s₂ hs₂ => ?_)
    exact ⟨false, rfl, served_markAttempt hs₂ (Nat.lt_add_of_pos_right (by decide))⟩
  · refine Prog.safe_bind.mpr ((safe_backoffSeconds_pass hw).mono ?_)
    rintro _ s ⟨delay, rfl, hpos, hs⟩
    refine Prog.safe_bind.mpr (safe_unixNow_pass hs fun s₁ hs₁ => ?_)
    refine Prog.safe_bind.mpr (safe_sql_pass hs₁ fun s₂ hs₂ => ?_)
    exact ⟨true, rfl, served_markAttempt hs₂ (Nat.lt_add_of_pos_right hpos)⟩

/-- What the loop does with an operation leaves it not due. -/
lemma safe_operation_pass (hw : Within w w') : (operation env root op).Safe (handle env) pass
    (fun x s => ∃ b, x = .ok b ∧ Served op w s) w' := by
  have hexecute : (execute env root op).Safe (handle env) pass (fun _ s => Within w s) w' :=
    (only_execute env root op).safe_rely (fun β c s hc _ hs => ⟨trivial, trivial, hs.call hc⟩)
      (fun s s' hs h => h.still hs) hw
  refine Prog.safe_bind.mpr (Prog.safe_attempt.mpr (hexecute.mono fun x s hs => ?_))
  cases x with
  | ok u =>
    refine Prog.safe_bind.mpr ((safe_completed_pass hs).mono ?_)
    rintro _ s₁ ⟨rfl, hserved⟩
    exact ⟨true, rfl, hserved⟩
  | error e => exact safe_failed_pass e hs

/-- **An iteration of the inner loop**, whatever the others do: it does not fail, and if it goes on,
fewer operations are due.

**Proof sketch.** The operation that it takes was due at the beginning of the pass. At its end it is
deleted, or due later: parked, or postponed by a back-off of at least a second. -/
lemma safe_iteration (hclock : w.now < parkedForever) :
    (drainOne env root).Safe (handle env) pass (fun x s =>
      ∃ b, x = .ok b ∧ s.now = w.now ∧ (b = true → (due s).length < (due w).length)) w := by
  refine Prog.safe_bind.mpr (safe_unixNow_pass ⟨rfl, fun _ ho _ => ho⟩ fun s hs => ?_)
  refine Prog.safe_bind.mpr (safe_sql_pass hs fun s₁ hs₁ => ?_)
  simp only [DbCall.run]
  cases hnext : OpTable.nextDue s₁.db.ops w.now with
  | none => exact ⟨false, rfl, hs₁.1, fun h => by cases h⟩
  | some op =>
    obtain ⟨hmem, hdue⟩ := OpTable.nextDue_mem hnext
    have hop : op ∈ due w := mem_due.mpr ⟨hs₁.2 op hmem hdue, hdue⟩
    simp only
    split
    · -- an abandoned operation is parked
      refine Prog.safe_bind.mpr (safe_sql_pass hs₁ fun s₂ hs₂ => ?_)
      exact ⟨true, rfl, hs₂.1, fun _ => length_due_lt (served_markAttempt hs₂ hclock) hop⟩
    · refine (safe_operation_pass hs₁).mono ?_
      rintro _ s₂ ⟨b, rfl, hserved⟩
      exact ⟨b, rfl, hserved.1.1, fun _ => length_due_lt hserved hop⟩

/-- **The inner loop is left** after at most as many iterations as operations are due. -/
lemma stopsWithin_due (n : ℕ) (hclock : w.now < parkedForever) (hn : (due w).length ≤ n) :
    StopsWithin env root n w := by
  induction n generalizing w with
  | zero =>
    intro x w' hrun
    obtain ⟨b, rfl, -, hless⟩ := (safe_iteration hclock).amid hrun
    cases b with
    | false => rfl
    | true => exact absurd (hless rfl) (by omega)
  | succ n ih =>
    intro x w' hrun
    obtain ⟨b, rfl, hnow, hless⟩ := (safe_iteration hclock).amid hrun
    cases b with
    | false => exact .inl rfl
    | true =>
      have hfewer := hless rfl
      exact .inr ⟨rfl, ih (hnow ▸ hclock) (by omega)⟩

/-- The outcome of a failed operation ends the loop only for an authentication failure. -/
lemma oauth_of_failed {e : Error} (hrun : Prog.RunsAmid (handle env) Still (failed op e) w (.ok false) w') :
    ∃ message, e = .oauth message := by
  unfold failed at hrun
  split at hrun
  · next message => exact ⟨message, rfl⟩
  · rcases hrun.bind_cases with ⟨_, _, -, hrun⟩ | ⟨_, h, -⟩
    · rcases hrun.bind_cases with ⟨_, _, -, hrun⟩ | ⟨_, h, -⟩
      · rcases hrun.bind_cases with ⟨_, _, -, hrun⟩ | ⟨_, h, -⟩
        · cases hrun
        · cases h
      · cases h
    · cases h

/-- **The inner loop is left** when nothing is due any more, or when an operation with attempts left
has failed to authenticate. -/
lemma left_cases (hrun : Iterates env root w (.ok false) w') :
    (∀ o ∈ w'.db.ops, w.now < o.nextAttemptAt) ∨
      ∃ op ∈ due w, op.attempts < maxAttempts ∧ ∃ message w₁ w₂,
        Prog.RunsAmid (handle env) Still (execute env root op) w₁ (.error (.oauth message)) w₂ := by
  cases hrun with
  | @call _ _ _ _ w₁ _ _ others₁ hrun =>
    cases hrun with
    | @call _ _ _ _ w₂ _ _ others₂ hrun =>
      simp only [handle_clock, handle_db, DbCall.run, Prog.pure_bind] at hrun others₂
      have hsame : ∀ o ∈ w₂.db.ops, o ∈ w.db.ops := fun o ho => others₁.2 o (others₂.2 o ho)
      cases hnext : OpTable.nextDue w₂.db.ops w₁.now with
      | none =>
        rw [hnext] at hrun
        cases hrun
        rw [← others₁.1]
        exact .inl (OpTable.nextDue_eq_none.mp hnext)
      | some op =>
        obtain ⟨hmem, hdue⟩ := OpTable.nextDue_mem hnext
        rw [others₁.1] at hdue
        rw [hnext] at hrun
        simp only at hrun
        split at hrun
        · -- an abandoned operation does not end the loop
          rcases hrun.bind_cases with ⟨_, _, -, hrun⟩ | ⟨_, h, -⟩
          · cases hrun
          · cases h
        · next hleft =>
          rcases hrun.bind_cases with ⟨res, w₃, hexecute, hrun⟩ | ⟨_, h, -⟩
          · obtain ⟨_, hres, hexecute⟩ := hexecute.attempt_cases
            obtain rfl := Except.ok.inj hres
            cases res with
            | ok u =>
              rcases hrun.bind_cases with ⟨_, _, -, hrun⟩ | ⟨_, h, -⟩
              · cases hrun
              · cases h
            | error e =>
              obtain ⟨message, rfl⟩ := oauth_of_failed hrun
              exact .inr ⟨op, mem_due.mpr ⟨hsame op hmem, hdue⟩, Nat.not_le.mp hleft,
                message, w₂, w₃, hexecute⟩
          · cases h

end Pass

/-! ## How the queue moves on -/

/-- How the queue moves on: ids of rows and operations are not used again, the attempts of an operation
only grow, and one without attempts left stays as long as its row. -/
structure Moves (w w' : World) : Prop where
  nextOp : w.db.ops.next ≤ w'.db.ops.next
  nextItem : w.db.items.nextId ≤ w'.db.items.nextId
  gone : ∀ i < w.db.items.nextId, (∀ r ∈ w.db.items, r.id ≠ i) → ∀ r ∈ w'.db.items, r.id ≠ i
  ops : ∀ o' ∈ w'.db.ops, w.db.ops.next ≤ o'.id ∨ ∃ o ∈ w.db.ops,
    o.id = o'.id ∧ o.syncItemId = o'.syncItemId ∧ o.attempts ≤ o'.attempts
  stays : ∀ o ∈ w.db.ops, maxAttempts ≤ o.attempts →
    (∃ o' ∈ w'.db.ops, o'.id = o.id) ∨ ∀ r ∈ w'.db.items, r.id ≠ o.syncItemId

section Moves

lemma Moves.of_db (h : w'.db = w.db) : Moves w w' := by
  refine ⟨by rw [h], by rw [h], fun _ _ hgone => h ▸ hgone, fun o ho => .inr ⟨o, h ▸ ho, rfl, rfl,
    Nat.le_refl _⟩, fun o ho _ => .inl ⟨o, h ▸ ho, rfl⟩⟩

/-- An operation of the queue that was there before. -/
lemma Moves.same {o' : PendingOperation} (h : Moves w w') (ho : o ∈ w.db.ops) (ho' : o' ∈ w'.db.ops)
    (hid : o'.id = o.id) : o.syncItemId = o'.syncItemId ∧ o.attempts ≤ o'.attempts := by
  rcases h.ops o' ho' with hnew | ⟨o₁, ho₁, hid₁, hitem, hle⟩
  · exact absurd (w.db.ops.key_lt ho) (Nat.not_lt.mpr (hid ▸ hnew))
  · obtain rfl := w.db.ops.key_inj ho₁ ho (hid₁.trans hid)
    exact ⟨hitem, hle⟩

lemma Moves.trans (h : Moves w w') (h' : Moves w' w'') : Moves w w'' := by
  refine ⟨h.nextOp.trans h'.nextOp, h.nextItem.trans h'.nextItem, fun i hi hgone => ?_,
    fun o'' ho'' => ?_, fun o ho hleft => ?_⟩
  · exact h'.gone i (lt_of_lt_of_le hi h.nextItem) (h.gone i hi hgone)
  · rcases h'.ops o'' ho'' with hnew | ⟨o', ho', hid', hitem', hle'⟩
    · exact .inl (h.nextOp.trans hnew)
    · rcases h.ops o' ho' with hnew | ⟨o, ho, hid, hitem, hle⟩
      · exact .inl (hid' ▸ hnew)
      · exact .inr ⟨o, ho, hid.trans hid', hitem.trans hitem', hle.trans hle'⟩
  · have hrow : o.syncItemId < w'.db.items.nextId := by
      obtain ⟨r, hr, hid⟩ := w.db.ops_owned o ho
      exact hid ▸ lt_of_lt_of_le (w.db.items.id_lt hr) h.nextItem
    rcases h.stays o ho hleft with ⟨o', ho', hid⟩ | hgone
    · obtain ⟨hitem, hle⟩ := h.same ho ho' hid
      rcases h'.stays o' ho' (hleft.trans hle) with ⟨o'', ho'', hid'⟩ | hgone
      · exact .inl ⟨o'', ho'', hid'.trans hid⟩
      · exact .inr (hitem ▸ hgone)
    · exact .inr (h'.gone _ hrow hgone)

/-- **Every call** moves the queue on, if it does not delete an operation without attempts left. -/
lemma moves_call {β : Type} (c : Call β) (w : World)
    (hdelete : ∀ d : DbCall β, c = .db d → ∀ o ∈ w.db.ops, maxAttempts ≤ o.attempts →
      d.deletes ≠ some o.id) : Moves w (handle env β c w).2 := by
  cases c with
  | db c =>
    refine ⟨DbCall.nextOp_le_run c w.db, DbCall.nextId_le_run c w.db, fun i hi hgone r' hr' => ?_,
      fun o' ho' => ?_, fun o ho hleft => ?_⟩
    · rcases DbCall.mem_items_run hr' with ⟨r, hr, hid, -⟩ | ⟨new, -, rfl⟩
      · exact hid ▸ hgone r hr
      · exact fun h => absurd hi (Nat.not_lt.mpr (Nat.le_of_eq h))
    · rcases DbCall.ops_run_cases ho' with ⟨ho, -⟩ | ⟨item, op, payload, now, -, rfl⟩ |
          ⟨o, ho, next, -, rfl⟩
      · exact .inr ⟨o', ho, rfl, rfl, Nat.le_refl _⟩
      · exact .inl (Nat.le_refl _)
      · exact .inr ⟨o, ho, rfl, rfl, Nat.le_succ _⟩
    · by_cases hrow : ∃ r ∈ (c.run w.db).2.items, r.id = o.syncItemId
      · obtain ⟨o', ho', hsame⟩ := DbCall.ops_stay ho hrow (hdelete c rfl o ho hleft)
        exact .inl ⟨o', ho', hsame.1.symm⟩
      · exact .inr fun r hr hid => hrow ⟨r, hr, hid⟩
  | _ => exact .of_db rfl

end Moves

/-! ## What is known of the operations that were taken -/

/-- The operation that a call takes from the queue. -/
def takes : ∀ β, Call β → World → List PendingOperation
  | _, .db (.nextDue now), w => (OpTable.nextDue w.db.ops now).toList
  | _, _, _ => []

/-- The calls of the daemon, with the list of the operations that were taken. -/
abbrev tracing (env : Env) : Handler Call (World × List PendingOperation) :=
  Prog.noting (handle env) takes

/-- An operation is taken again only after it has counted an attempt, and not after the last one. -/
def Log (l : List PendingOperation) : Prop :=
  l.Pairwise fun a b => a.id = b.id → a.attempts < b.attempts ∧ a.attempts < maxAttempts

/-- The operations that were taken have counted the attempt, and those without attempts left are
parked. -/
def Settled (l : List PendingOperation) (w : World) : Prop :=
  ∀ a ∈ l, a.id < w.db.ops.next ∧ ∀ o ∈ w.db.ops, o.id = a.id →
    a.attempts < o.attempts ∧ (maxAttempts ≤ a.attempts → o.nextAttemptAt = parkedForever)

/-- The loop works on the operation that it took last. -/
structure Busy (op : PendingOperation) (s : World × List PendingOperation) : Prop where
  old : op.id < s.1.db.ops.next
  same : ∀ o ∈ s.1.db.ops, o.id = op.id → o = op
  log : Log s.2
  before : ∃ l, s.2 = l ++ [op] ∧ Settled l s.1

/-- Between two iterations. -/
def Between (s : World × List PendingOperation) : Prop := Log s.2 ∧ Settled s.2 s.1

/-- What the others do to the queue: they add operations, and remove rows with their operations. -/
structure Aloof (s s' : World × List PendingOperation) : Prop where
  log : s'.2 = s.2
  moves : Moves s.1 s'.1
  ops : ∀ o ∈ s'.1.db.ops, o ∈ s.1.db.ops ∨ s.1.db.ops.next ≤ o.id

/-- The clock is before the time to which operations are parked, and the log is in order. -/
def Orderly (s : World × List PendingOperation) : Prop := s.1.now < parkedForever ∧ Log s.2

/-- The terms of a run. -/
abbrev terms : Terms (World × List PendingOperation) :=
  ⟨Orderly, Aloof, fun s s' => Moves s.1 s'.1⟩

section Iteration

variable {s s' s'' : World × List PendingOperation} {l : List PendingOperation}

lemma Aloof.refl (s : World × List PendingOperation) : Aloof s s :=
  ⟨rfl, .of_db rfl, fun _ ho => .inl ho⟩

lemma Aloof.trans (h : Aloof s s') (h' : Aloof s' s'') : Aloof s s'' := by
  refine ⟨h'.log.trans h.log, h.moves.trans h'.moves, fun o ho => ?_⟩
  rcases h'.ops o ho with ho | hnew
  · exact h.ops o ho
  · exact .inr (h.moves.nextOp.trans hnew)

/-- An operation of the queue with an id that was in use is the one from before. -/
lemma Aloof.mem (h : Aloof s s') {id : OpId} (hid : id < s.1.db.ops.next) (ho : o ∈ s'.1.db.ops)
    (hoid : o.id = id) : o ∈ s.1.db.ops := by
  rcases h.ops o ho with ho | hnew
  · exact ho
  · exact absurd hid (Nat.not_lt.mpr (hoid ▸ hnew))

lemma Settled.aloof (hl : Settled l s.1) (h : Aloof s s') : Settled l s'.1 := by
  intro a ha
  obtain ⟨hold, hall⟩ := hl a ha
  exact ⟨lt_of_lt_of_le hold h.moves.nextOp, fun o ho hid => hall o (h.mem hold ho hid) hid⟩

lemma Between.aloof (hs : Between s) (h : Aloof s s') : Between s' :=
  ⟨h.log ▸ hs.1, h.log ▸ hs.2.aloof h⟩

lemma Busy.aloof (hs : Busy op s) (h : Aloof s s') : Busy op s' := by
  obtain ⟨l, hl, hsettled⟩ := hs.before
  exact ⟨lt_of_lt_of_le hs.old h.moves.nextOp,
    fun o ho hid => hs.same o (h.mem hs.old ho hid) hid, h.log ▸ hs.log,
    ⟨l, h.log ▸ hl, hsettled.aloof h⟩⟩

/-- A call that leaves the queue alone is no different from what the others do. -/
lemma aloof_call {β : Type} {c : Call β} (hc : aside β c = true)
    (s : World × List PendingOperation) : Aloof s (tracing env β c s).2 := by
  have htakes : takes β c s.1 = [] := by
    cases c with
    | db c => cases c <;> first | rfl | cases hc
    | _ => rfl
  refine ⟨?_, moves_call c s.1 fun d hd o _ _ => ?_, fun o ho => ?_⟩
  · show s.2 ++ takes β c s.1 = s.2
    rw [htakes, List.append_nil]
  · subst hd
    cases d with
    | deleteOp id => cases hc
    | _ => intro h; cases h
  · cases c with
    | db c => exact .inl (mem_ops_of_aside hc ho)
    | _ => exact .inl ho

/-- **The attempt is counted**, or the operation deleted: what was taken is settled again. -/
lemma Busy.settle (hs : Busy op s) {w : World} (hnext : w.db.ops.next = s.1.db.ops.next)
    (hops : ∀ o ∈ w.db.ops, (o ∈ s.1.db.ops ∧ o.id ≠ op.id) ∨ o.id = op.id ∧
      o.attempts = op.attempts + 1 ∧ (maxAttempts ≤ op.attempts → o.nextAttemptAt = parkedForever)) :
    Between (w, s.2) := by
  obtain ⟨l, hl, hsettled⟩ := hs.before
  have hlog := hs.log
  rw [hl] at hlog
  obtain ⟨-, -, hlast⟩ := List.pairwise_append.mp hlog
  refine ⟨hs.log, fun a ha => ?_⟩
  rw [hl] at ha
  rcases List.mem_append.mp ha with ha | ha
  · obtain ⟨hold, hall⟩ := hsettled a ha
    refine ⟨hnext ▸ hold, fun o ho hid => ?_⟩
    rcases hops o ho with ⟨ho, -⟩ | ⟨hop, hattempts, -⟩
    · exact hall o ho hid
    · -- it was taken before, with fewer attempts
      obtain ⟨hless, hleft⟩ := hlast a ha op (.head _) (hid.symm.trans hop)
      exact ⟨by omega, fun hmax => absurd hleft (Nat.not_lt.mpr hmax)⟩
  · obtain rfl := List.mem_singleton.mp ha
    refine ⟨hnext ▸ hs.old, fun o ho hid => ?_⟩
    rcases hops o ho with ⟨-, hne⟩ | ⟨-, hattempts, hparked⟩
    · exact absurd hid hne
    · exact ⟨by omega, hparked⟩

/-- **An operation is taken**: it has counted all attempts so far, and it is not parked. -/
lemma Between.take {now : ℕ} (hs : Between s) (hclock : now < parkedForever)
    (hnext : OpTable.nextDue s.1.db.ops now = some op) : Busy op (s.1, s.2 ++ [op]) := by
  obtain ⟨hmem, hdue⟩ := OpTable.nextDue_mem hnext
  refine ⟨s.1.db.ops.key_lt hmem, fun o ho hid => s.1.db.ops.key_inj ho hmem hid, ?_,
    ⟨s.2, rfl, hs.2⟩⟩
  refine List.pairwise_append.mpr ⟨hs.1, List.pairwise_singleton _ _, fun a ha b hb hid => ?_⟩
  obtain rfl := List.mem_singleton.mp hb
  obtain ⟨hless, hparked⟩ := (hs.2 a ha).2 b hmem hid.symm
  refine ⟨hless, ?_⟩
  by_contra hmax
  rw [hparked (Nat.not_lt.mp hmax)] at hdue
  exact absurd hclock (Nat.not_lt.mpr hdue)

lemma Orderly.call {β : Type} {c : Call β} (h : Orderly s) (hc : aside β c = true) :
    Orderly (tracing env β c s).2 :=
  ⟨lt_of_eq_of_lt (handle_now c s.1) h.1, (aloof_call hc s).log ▸ h.2⟩

/-- A call that leaves the queue alone, while the loop works on an operation. -/
lemma safe_aside {β α : Type} {c : Call β} {k : β → Task α}
    {Q : Except Error α → World × List PendingOperation → Prop} (hc : aside β c = true)
    (hs : Busy op s) (hk : ∀ x s', Busy op s' → (k x).Safe (tracing env) terms Q s') :
    (Prog.call c k).Safe (tracing env) terms Q s := by
  intro s₁ hrely horderly
  have haloof : Aloof s₁ (tracing env β c s₁).2 := aloof_call hc s₁
  refine ⟨horderly.call hc, haloof.moves, hk _ _ ?_⟩
  exact (hs.aloof hrely).aloof haloof

/-- The statement at the end of an iteration. -/
lemma safe_settle {c : DbCall Unit} {α : Type} {a : α} (hs : Busy op s)
    (hc : ∀ s', Busy op s' → Moves s'.1 (handle env Unit (.db c) s'.1).2 ∧
      Between (tracing env Unit (.db c) s').2) :
    (Prog.call (.db c) fun _ => .pure a : Task α).Safe (tracing env) terms
      (fun _ t => Between t) s := by
  intro s₁ hrely horderly
  obtain ⟨hmoves, hbetween⟩ := hc s₁ (hs.aloof hrely)
  exact ⟨⟨horderly.1, hbetween.1⟩, hmoves, hbetween⟩

lemma settle_deleteOp (hleft : op.attempts < maxAttempts) (hs : Busy op s) :
    Moves s.1 (handle env Unit (.db (.deleteOp op.id)) s.1).2 ∧
      Between (tracing env Unit (.db (.deleteOp op.id)) s).2 := by
  refine ⟨moves_call _ s.1 fun d hd o ho hmax hid => ?_, ?_⟩
  · obtain rfl : DbCall.deleteOp op.id = d := by simpa using hd
    obtain rfl := hs.same o ho (Option.some.inj hid).symm
    exact absurd hleft (Nat.not_lt.mpr hmax)
  · show Between (_, s.2 ++ [])
    rw [List.append_nil]
    exact hs.settle rfl fun o ho => .inl (mem_ops_deleteOp.mp ho)

lemma settle_markAttempt {next : ℕ} (hpark : maxAttempts ≤ op.attempts → next = parkedForever)
    (hs : Busy op s) : Moves s.1 (handle env Unit (.db (.markAttempt op.id next)) s.1).2 ∧
      Between (tracing env Unit (.db (.markAttempt op.id next)) s).2 := by
  refine ⟨moves_call _ s.1 fun d hd o ho hmax hid => ?_, ?_⟩
  · obtain rfl : DbCall.markAttempt op.id next = d := by simpa using hd
    cases hid
  · show Between (_, s.2 ++ [])
    rw [List.append_nil]
    refine hs.settle rfl fun o ho => ?_
    rcases mem_ops_markAttempt.mp ho with ho | ⟨o', ho', hid, rfl⟩
    · exact .inl ho
    · obtain rfl := hs.same o' ho' hid
      exact .inr ⟨rfl, rfl, hpark⟩

lemma safe_completed (hleft : op.attempts < maxAttempts) (hs : Busy op s) :
    ((completed op).bind fun _ => .pure true).Safe (tracing env) terms (fun _ t => Between t) s := by
  have hend : ∀ s, Busy op s → ((do
      let _ ← sql .clearIfTransient
      sql (.deleteOp op.id) : Task Unit).bind fun _ => Prog.pure true).Safe (tracing env) terms
        (fun _ t => Between t) s := fun s hs =>
    safe_aside rfl hs fun _ s₁ hs₁ => safe_settle hs₁ fun _ => settle_deleteOp hleft
  unfold completed
  split
  · exact safe_aside rfl hs fun _ s₁ hs₁ => safe_aside rfl hs₁ fun _ => hend
  · exact hend s hs

lemma safe_failed (e : Error) (hleft : op.attempts < maxAttempts) (hs : Busy op s) :
    (failed op e).Safe (tracing env) terms (fun _ t => Between t) s := by
  have hpark : ∀ {next : ℕ}, maxAttempts ≤ op.attempts → next = parkedForever := fun hmax =>
    absurd hleft (Nat.not_lt.mpr hmax)
  unfold failed
  split
  · exact safe_aside rfl hs fun _ s₁ hs₁ => safe_aside rfl hs₁ fun _ s₂ hs₂ =>
      safe_settle hs₂ fun _ => settle_markAttempt hpark
  · exact safe_aside rfl hs fun _ s₁ hs₁ => safe_aside rfl hs₁ fun _ s₂ hs₂ =>
      safe_settle hs₂ fun _ => settle_markAttempt hpark

/-- What the loop does with an operation that has attempts left. -/
lemma safe_operation (hleft : op.attempts < maxAttempts) (hs : Busy op s) :
    (operation env root op).Safe (tracing env) terms (fun _ t => Between t) s := by
  have hexecute : (execute env root op).Safe (tracing env) terms (fun _ t => Busy op t) s := by
    refine (only_execute env root op).safe_rely (fun β c t hc horderly ht => ?_)
      (fun t t' ht h => h.aloof ht) hs
    have haloof : Aloof t (tracing env β c t).2 := aloof_call hc t
    exact ⟨horderly.call hc, haloof.moves, ht.aloof haloof⟩
  refine Prog.safe_bind.mpr (Prog.safe_attempt.mpr (hexecute.mono fun x t ht => ?_))
  cases x with
  | ok u => exact safe_completed hleft ht
  | error e => exact safe_failed e hleft ht

/-- **An iteration of the drain loop** counts an attempt of the operation that it takes, or deletes
it.

**Proof sketch.** The operation was settled when it was taken, so that it has counted all earlier
attempts, and it is not parked. While it is executed nobody else changes its attempts, so the last
statement of the iteration settles it again. -/
lemma safe_drainOne (hs : Between s) :
    (drainOne env root).Safe (tracing env) terms (fun _ t => Between t) s := by
  intro s₁ hrely₁ horderly₁
  have haloof : Aloof s₁ (tracing env ℕ .clock s₁).2 := aloof_call rfl s₁
  have hs₁ := (hs.aloof hrely₁).aloof haloof
  refine ⟨horderly₁.call rfl, haloof.moves, ?_⟩
  intro s₂ hrely₂ horderly₂
  have hs₂ := hs₁.aloof hrely₂
  simp only [Prog.noting, takes, handle_clock, handle_db, DbCall.run, Prog.pure_bind]
  cases hnext : OpTable.nextDue s₂.1.db.ops s₁.1.now with
  | none =>
    simp only [Option.toList_none, List.append_nil]
    exact ⟨horderly₂, .of_db rfl, hs₂⟩
  | some op =>
    have hbusy : Busy op (s₂.1, s₂.2 ++ [op]) := hs₂.take horderly₁.1 hnext
    refine ⟨⟨horderly₂.1, hbusy.log⟩, .of_db rfl, ?_⟩
    simp only [Option.toList_some]
    split
    · exact safe_settle hbusy fun _ => settle_markAttempt fun _ => rfl
    · next hleft => exact safe_operation (Nat.not_le.mp hleft) hbusy

end Iteration

/-! ## The runs of the dispatcher -/

/-- What happens between two calls of the dispatcher: a call of another task, which leaves the attempts
to the dispatcher, any change of files, of Drive and of the clock, a pause or cancellation, and a new
start after the dispatcher has stopped. -/
inductive Others (env : Env) : Loop → Loop → Prop
  | call {w : World} {p c : Bool} {phase : Phase} {n : ℕ} {β : Type} (d : Call β)
      (hd : Turns.touched β d = none) :
      Others env ⟨w, p, c, phase, n⟩ ⟨(handle env β d w).2, p, c, phase, n⟩
  | outside {w w' : World} {p c : Bool} {phase : Phase} {n : ℕ} (hdb : w'.db = w.db)
      (hclock : w'.now < parkedForever) : Others env ⟨w, p, c, phase, n⟩ ⟨w', p, c, phase, n⟩
  | flags {w : World} {p p' c c' : Bool} {phase : Phase} {n : ℕ} :
      Others env ⟨w, p, c, phase, n⟩ ⟨w, p', c', phase, n⟩
  | restart {w : World} {p p' c c' : Bool} {n : ℕ} :
      Others env ⟨w, p, c, .stopped, n⟩ ⟨w, p', c', .top, n⟩

/-- The operation that the next call of the dispatcher takes. -/
def taking (s : Loop) : List PendingOperation :=
  match s.phase with
  | .drain (.call c _) => takes _ c s.world
  | _ => []

/-- The runs of the dispatcher among the others, with the operations that it took. No run is
interrupted by a crash. -/
inductive Runs (env : Env) (root : FileId) (s₀ : Loop) : List PendingOperation → Loop → Prop
  | refl : Runs env root s₀ [] s₀
  | step {l : List PendingOperation} {s s' : Loop} (run : Runs env root s₀ l s)
      (next : Step env root s s') : Runs env root s₀ (l ++ taking s) s'
  | others {l : List PendingOperation} {s s' : Loop} (run : Runs env root s₀ l s)
      (next : Others env s s') : Runs env root s₀ l s'

/-- Between two iterations everything that was taken is settled, and what is left of an iteration
leads there. -/
def Sound (env : Env) (t : World × List PendingOperation) : Phase → Prop
  | .drain rest => rest.Safe (tracing env) terms (fun _ t => Between t) t
  | _ => Between t

/-- A state of a run. -/
def Good (env : Env) (l : List PendingOperation) (s : Loop) : Prop :=
  Orderly (s.world, l) ∧ Sound env (s.world, l) s.phase

/-- The executions of an operation: it is executed when it is taken with attempts left. -/
def executions (l : List PendingOperation) (i : OpId) : List PendingOperation :=
  l.filter fun o => o.id = i ∧ o.attempts < maxAttempts

section Run

variable {s₀ s s' : Loop} {l l' : List PendingOperation} {t t' : World × List PendingOperation}

lemma Sound.aloof {phase : Phase} (h : Sound env t phase) (ht : Aloof t t') : Sound env t' phase := by
  cases phase with
  | drain rest =>
    exact h.of_rely_kept ht (fun _ _ _ => Aloof.trans) fun _ _ _ hrely hb => hb.aloof hrely
  | _ => exact Between.aloof h ht

/-- The others are aloof. -/
lemma aloof_others (h : Others env s s') (hclock : s.world.now < parkedForever) :
    Aloof (s.world, l) (s'.world, l) ∧ s'.world.now < parkedForever := by
  cases h with
  | @call w p c phase n β d hd =>
    refine ⟨⟨rfl, moves_call d w fun e he o _ _ => ?_, fun o ho => ?_⟩,
      lt_of_eq_of_lt (handle_now d w) hclock⟩
    · subst he
      cases e with
      | deleteOp id => cases hd
      | _ => intro h; cases h
    · cases d with
      | db d =>
        rcases DbCall.ops_run_cases ho with ⟨ho, -⟩ | ⟨item, k, payload, now, -, rfl⟩ |
            ⟨s, -, next, hpost, -⟩
        · exact .inl ho
        · exact .inr (Nat.le_refl _)
        · cases d with
          | markAttempt id next' => cases hd
          | _ => cases hpost
      | _ => exact .inl ho
  | outside hdb hclock' => exact ⟨⟨rfl, .of_db hdb, fun o ho => .inl (hdb ▸ ho)⟩, hclock'⟩
  | flags => exact ⟨.refl _, hclock⟩
  | restart => exact ⟨.refl _, hclock⟩

/-- **A step of the dispatcher.** -/
lemma Good.step (h : Good env l s) (next : Step env root s s') :
    Good env (l ++ taking s) s' ∧ Moves s.world s'.world := by
  obtain ⟨horderly, hphase⟩ := h
  cases next with
  | @call w p c n β call k =>
    obtain ⟨horderly', hmoves, hrest⟩ := hphase (w, l) (.refl _) horderly
    exact ⟨⟨horderly', hrest⟩, hmoves⟩
  | free h =>
    rw [taking, List.append_nil]
    exact ⟨⟨horderly, safe_drainOne hphase⟩, .of_db rfl⟩
  | again =>
    rw [taking, List.append_nil]
    exact ⟨⟨horderly, safe_drainOne hphase⟩, .of_db rfl⟩
  | _ =>
    rw [taking, List.append_nil]
    exact ⟨⟨horderly, hphase⟩, .of_db rfl⟩

/-- A step of the others. -/
lemma Good.others (h : Good env l s) (next : Others env s s') :
    Good env l s' ∧ Moves s.world s'.world := by
  obtain ⟨horderly, hphase⟩ := h
  obtain ⟨haloof, hclock'⟩ := aloof_others (l := l) next horderly.1
  have hphase' := hphase.aloof haloof
  refine ⟨⟨⟨hclock', horderly.2⟩, ?_⟩, haloof.moves⟩
  cases next <;> exact hphase'

/-- **The other tasks** of the daemon are among the others, call by call. -/
lemma Runs.task {j : Job} (hj : ∀ r, j ≠ .drain r) (h : Runs env root s₀ l s) (n : ℕ) :
    Runs env root s₀ l { s with world := (j.task env).cut (handle env) n s.world } := by
  have hcalls : ∀ (p : Task Unit), (p.Only fun β c => Turns.touched β c = none) →
      ∀ n s, Runs env root s₀ l s →
        Runs env root s₀ l { s with world := p.cut (handle env) n s.world } := by
    intro p
    induction p with
    | pure a => exact fun _ n s h => by cases n <;> exact h
    | fail e => exact fun _ n s h => by cases n <;> exact h
    | call c k ih =>
      intro hp n s h
      cases n with
      | zero => exact h
      | succ n => exact ih _ (hp.2 _) n _ (h.others (.call c hp.1))
  exact hcalls _ (Turns.untouched_task hj) n s h

lemma mem_ops_of_taking {a : PendingOperation} (ha : a ∈ taking s) : a ∈ s.world.db.ops := by
  unfold taking at ha
  split at ha
  · next c k hphase =>
    unfold takes at ha
    split at ha
    · exact (OpTable.nextDue_mem (Option.mem_toList.mp ha)).1
    · cases ha
  · cases ha

/-- **A run** from a good state. -/
lemma good_runs (h₀ : Good env l' s₀) (h : Runs env root s₀ l s) :
    Good env (l' ++ l) s ∧ Moves s₀.world s.world ∧
      ∀ a ∈ l, ∃ w, Moves s₀.world w ∧ a ∈ w.db.ops := by
  induction h with
  | refl => exact ⟨by rwa [List.append_nil], .of_db rfl, by simp⟩
  | step run next ih =>
    obtain ⟨hgood, hmoves, htaken⟩ := ih
    obtain ⟨hgood', hmoves'⟩ := hgood.step next
    refine ⟨by rwa [← List.append_assoc], hmoves.trans hmoves', fun a ha => ?_⟩
    rcases List.mem_append.mp ha with ha | ha
    · exact htaken a ha
    · exact ⟨_, hmoves, mem_ops_of_taking ha⟩
  | others run next ih =>
    obtain ⟨hgood, hmoves, htaken⟩ := ih
    obtain ⟨hgood', hmoves'⟩ := hgood.others next
    exact ⟨hgood', hmoves.trans hmoves', htaken⟩

lemma good_start (hphase : s.phase = .top) (hclock : s.world.now < parkedForever) :
    Good env [] s := by
  refine ⟨⟨hclock, .nil⟩, ?_⟩
  rw [hphase]
  exact ⟨.nil, by simp [Settled]⟩

/-- **The executions** of one operation have each counted another attempt. -/
lemma length_executions_le (hl : Log l) (i : OpId) : (executions l i).length ≤ maxAttempts := by
  have hpairs : (executions l i).Pairwise fun a b => a.attempts < b.attempts := by
    refine (hl.filter _).imp_of_mem fun {a b} ha hb hab => ?_
    have hid : ∀ {o}, o ∈ executions l i → o.id = i := fun ho =>
      (of_decide_eq_true (List.mem_filter.mp ho).2).1
    exact (hab ((hid ha).trans (hid hb).symm)).1
  have hnodup : ((executions l i).map PendingOperation.attempts).Nodup :=
    (List.pairwise_map.mpr hpairs).imp fun h => h.ne
  have hrange : (executions l i).map PendingOperation.attempts ⊆ List.range maxAttempts := by
    intro k hk
    obtain ⟨o, ho, rfl⟩ := List.mem_map.mp hk
    exact List.mem_range.mpr (of_decide_eq_true (List.mem_filter.mp ho).2).2
  simpa using (List.subperm_of_subset hnodup hrange).length_le

/-- An operation without attempts left stays as long as its row, and is not executed again. -/
lemma stays_unexecuted (h : Moves s.world s'.world) (ho : o ∈ s.world.db.ops)
    (hmax : maxAttempts ≤ o.attempts) :
    (∃ o' ∈ s'.world.db.ops, o'.id = o.id ∧ maxAttempts ≤ o'.attempts) ∨
      ∀ r ∈ s'.world.db.items, r.id ≠ o.syncItemId := by
  rcases h.stays o ho hmax with ⟨o', ho', hid⟩ | hgone
  · exact .inl ⟨o', ho', hid, hmax.trans (h.same ho ho' hid).2⟩
  · exact .inr hgone

/-- **What is due is taken**: the operation that is taken is due no later, and it was not parked
before. -/
lemma taken_of_due {now : ℕ} {k : Option PendingOperation → Task Bool} (h : Good env l s)
    (hphase : s.phase = .drain (.call (.db (.nextDue now)) k)) (ho : o ∈ s.world.db.ops)
    (hdue : o.nextAttemptAt ≤ now) : ∃ a, OpTable.nextDue s.world.db.ops now = some a ∧
      (a.nextAttemptAt < o.nextAttemptAt ∨ a.nextAttemptAt = o.nextAttemptAt ∧ a.id ≤ o.id) ∧
      ∀ b ∈ l, b.id = a.id → b.attempts < maxAttempts := by
  obtain ⟨w, p, c, phase, n⟩ := s
  obtain rfl : phase = _ := hphase
  cases hnext : OpTable.nextDue w.db.ops now with
  | none => exact absurd hdue (Nat.not_le.mpr (OpTable.nextDue_eq_none.mp hnext o ho))
  | some a =>
    obtain ⟨⟨-, hlog⟩, -⟩ :=
      (h.step (.call (.db (.nextDue now)) k : Step env .rootAlias _ _)).1
    simp only [taking, takes, hnext, Option.toList_some] at hlog
    obtain ⟨-, -, hlast⟩ := List.pairwise_append.mp hlog
    exact ⟨a, rfl, OpTable.nextDue_le hnext ho hdue, fun b hb hid => (hlast b hb a (.head _) hid).2⟩

end Run

/-- Two operations on a row are due, and the first one has no attempts left. -/
def usedUp : World :=
  let made := ((Db.empty.insertItem (Continuous.remoteDir ["d"] (.id 3))).2.enqueue 1
    .createDirLocal none 0).2
  let tried := made.modifyOp 1 (fun o => { o with attempts := maxAttempts }) (fun _ => rfl)
    fun _ => rfl
  { World.fresh (sampleDrive []) with db := (tried.enqueue 1 .deleteLocal none 0).2 }

/-- The first of them. -/
def abandoned : PendingOperation := ⟨1, 1, .createDirLocal, none, maxAttempts, 0⟩

/-- The second one. -/
def waiting : PendingOperation := ⟨2, 1, .deleteLocal, none, 0, 0⟩

end AirDrive.Retries
