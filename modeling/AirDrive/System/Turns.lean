import AirDrive.Daemon.Outcomes
import AirDrive.System.Footprint

set_option relaxedAutoImplicit false
set_option autoImplicit false

/-!
# The order of the operations of one item

The queue is ordered by due time, and a failed attempt moves the due time of its operation. As
long as the operations of an item are due in the order in which they were enqueued, the dispatcher
takes them in that order. Two things can break it: an operation is enqueued while an earlier one
of its item waits for its next attempt, and an attempt fails while a later one of its item is
queued. The dispatcher shares the database with all other tasks of the daemon, so the calls of all
of them are interleaved.

## Main definitions

* `AirDrive.Turns.Ordered` — the operations of an item are due in the order of their ids.
* `AirDrive.Turns.keepsOrder` — the condition on a statement: it does not break that order.
* `AirDrive.Turns.inTurn`, `AirDrive.Turns.takesTurn` — an operation that is taken, or has been
  executed, has no earlier operation of its item before it.
* `AirDrive.Turns.observe` — the calls of the daemon, watched for both.
* `AirDrive.Turns.Runs` — the dispatcher and any number of other tasks.

## Main results

* `AirDrive.Turns.ordered_run` — what a statement that meets the condition keeps.
* `AirDrive.Turns.safe_drainOne` — an iteration of the drain loop.
* `AirDrive.Turns.operations_in_turn` — every interleaving.
-/

namespace AirDrive.Turns

open Effect Dispatcher

variable {env : Env} {db : Db}

/-! ## Order -/

/-- The operations of an item that are not abandoned are due in the order of their ids. -/
def Ordered (ops : OpTable) : Prop :=
  ∀ a ∈ ops, ∀ b ∈ ops, a.syncItemId = b.syncItemId → a.id < b.id →
    a.attempts < maxAttempts → b.attempts < maxAttempts → a.nextAttemptAt ≤ b.nextAttemptAt

/-- No earlier operation of the item is queued, unless it is abandoned. -/
def first (db : Db) (b : PendingOperation) : Bool :=
  (OpTable.rows db.ops).all fun a =>
    a.syncItemId ≠ b.syncItemId ∨ b.id ≤ a.id ∨ maxAttempts ≤ a.attempts

/-- The operation is the turn of its item, or it is abandoned. -/
def inTurn (db : Db) (b : PendingOperation) : Bool := maxAttempts ≤ b.attempts ∨ first db b

/-- What a statement does to the order of the queue: a new operation is due no earlier than the
operations of its item, and an operation is not postponed beyond later ones of its item. -/
def keepsOrder {β : Type} (db : Db) : DbCall β → Bool
  | .enqueue item _ _ now => (OpTable.rows db.ops).all fun a =>
    a.syncItemId ≠ item ∨ maxAttempts ≤ a.attempts ∨ a.nextAttemptAt ≤ now
  | .markAttempt id next => (OpTable.rows db.ops).all fun a =>
    a.id ≠ id ∨ maxAttempts ≤ a.attempts + 1 ∨ (OpTable.rows db.ops).all fun b =>
      a.syncItemId ≠ b.syncItemId ∨ b.id ≤ a.id ∨ maxAttempts ≤ b.attempts ∨
        next ≤ b.nextAttemptAt
  | _ => true

/-- Whether the operation that a statement takes for execution, or takes from the queue after it,
is in its turn. -/
def takesTurn {β : Type} (db : Db) : DbCall β → Bool
  | .nextDue now =>
    match OpTable.nextDue db.ops now with
    | some op => inTurn db op
    | none => true
  | .deleteOp id => (OpTable.rows db.ops).all fun b => b.id ≠ id ∨ inTurn db b
  | _ => true

lemma first_iff {b : PendingOperation} : first db b = true ↔
    ∀ a ∈ db.ops, a.syncItemId = b.syncItemId → a.id < b.id → maxAttempts ≤ a.attempts := by
  simp only [first, List.all_eq_true, decide_eq_true_eq]
  constructor
  · intro h a ha hitem hid
    rcases h a ha with hne | hle | habandoned
    · exact absurd hitem hne
    · exact absurd hid (not_lt.mpr hle)
    · exact habandoned
  · intro h a ha
    by_cases hitem : a.syncItemId = b.syncItemId
    · by_cases hid : a.id < b.id
      · exact .inr (.inr (h a ha hitem hid))
      · exact .inr (.inl (not_lt.mp hid))
    · exact .inl hitem

lemma inTurn_iff {b : PendingOperation} :
    inTurn db b = true ↔ (b.attempts < maxAttempts → first db b = true) := by
  simp only [inTurn, decide_eq_true_eq]
  constructor
  · rintro (h | h) hlt
    · exact absurd hlt (not_lt.mpr h)
    · exact h
  · intro h
    by_cases hlt : b.attempts < maxAttempts
    · exact .inr (h hlt)
    · exact .inl (not_lt.mp hlt)

/-- **The next operation is in its turn** when the queue is ordered: an earlier one of its item
would be due as well, and come first. -/
lemma inTurn_nextDue {now : ℕ} {b : PendingOperation} (h : Ordered db.ops)
    (hnext : OpTable.nextDue db.ops now = some b) : inTurn db b = true := by
  refine inTurn_iff.mpr fun hb => first_iff.mpr fun a ha hitem hid => ?_
  by_contra hopen
  obtain ⟨hmem, hdue⟩ := OpTable.nextDue_mem hnext
  have hle : a.nextAttemptAt ≤ b.nextAttemptAt := h a ha b hmem hitem hid (not_le.mp hopen) hb
  rcases OpTable.nextDue_le hnext ha (hle.trans hdue) with hlt | ⟨-, hba⟩
  · exact absurd hle (not_le.mpr hlt)
  · exact absurd hid (not_lt.mpr hba)

/-- **A statement that meets the condition** keeps the order, when the operation that it postpones
is the first of its item.

**Proof sketch.** Two operations after the statement are two from before it, of which the later one
may be new, or one of them may have been postponed. A new one is due last, a postponed one is due
before those after it, and there is none before it. -/
lemma ordered_run {β : Type} {c : DbCall β} (h : Ordered db.ops) (hmeets : keepsOrder db c = true)
    (hfirst : ∀ s ∈ db.ops, ∀ next, c.postpones = some (s.id, next) →
      s.attempts + 1 < maxAttempts → first db s = true) : Ordered (c.run db).2.ops := by
  intro a ha₀ b hb₀ hitem hid hopen hopen'
  rcases DbCall.ops_run_cases ha₀ with ⟨ha, -⟩ | ⟨item, op, payload, now, hadd, rfl⟩ |
      ⟨s, hs, next, hpost, rfl⟩
  · rcases DbCall.ops_run_cases hb₀ with ⟨hb, -⟩ | ⟨item, op, payload, now, hadd, rfl⟩ |
        ⟨s, hs, next, hpost, rfl⟩
    · exact h a ha b hb hitem hid hopen hopen'
    · cases c with
      | enqueue item' op' payload' now' =>
        obtain ⟨rfl, rfl, rfl, rfl⟩ : item' = item ∧ op' = op ∧ payload' = payload ∧ now' = now := by
          simpa [DbCall.adds] using hadd
        simp only [keepsOrder, List.all_eq_true, decide_eq_true_eq] at hmeets
        rcases hmeets a ha with hne | habandoned | hdue
        · exact absurd hitem hne
        · exact absurd hopen (not_lt.mpr habandoned)
        · exact hdue
      | _ => cases hadd
    · have hbefore := first_iff.mp (hfirst s hs next hpost hopen') a ha hitem hid
      exact absurd hopen (not_lt.mpr hbefore)
  · rcases DbCall.ops_run_cases hb₀ with ⟨hb, -⟩ | ⟨item', op', payload', now', hadd', rfl⟩ |
        ⟨s, hs, next, hpost, rfl⟩
    · exact absurd (db.ops.key_lt hb) (not_lt.mpr (le_of_lt hid))
    · exact absurd hid (lt_irrefl _)
    · rw [DbCall.adds_of_postpones hpost] at hadd
      cases hadd
  · rcases DbCall.ops_run_cases hb₀ with ⟨hb, hkept⟩ | ⟨item', op', payload', now', hadd', rfl⟩ |
        ⟨s', hs', next', hpost', rfl⟩
    · cases c with
      | markAttempt id next' =>
        obtain ⟨rfl, rfl⟩ : id = s.id ∧ next' = next := by simpa [DbCall.postpones] using hpost
        simp only [keepsOrder, List.all_eq_true, decide_eq_true_eq] at hmeets
        rcases hmeets s hs with hne | habandoned | hlater
        · exact absurd rfl hne
        · exact absurd hopen (not_lt.mpr habandoned)
        · rcases hlater b hb with hne | hle | habandoned | hdue
          · exact absurd hitem hne
          · exact absurd hid (not_lt.mpr hle)
          · exact absurd hopen' (not_lt.mpr habandoned)
          · exact hdue
      | _ => cases hpost
    · rw [DbCall.adds_of_postpones hpost] at hadd'
      cases hadd'
    · rw [hpost] at hpost'
      obtain ⟨hsame, -⟩ : s.id = s'.id ∧ next = next' := by simpa using hpost'
      exact absurd hid (not_lt.mpr hsame.ge)

/-! ## The calls, watched -/

/-- A call meets the condition. -/
def meets : ∀ β, Call β → World → Bool
  | _, .db c, w => keepsOrder w.db c
  | _, _, _ => true

/-- A call takes the operations of an item in turn. -/
def keeps : ∀ β, Call β → World → Bool
  | _, .db c, w => takesTurn w.db c
  | _, _, _ => true

/-- The calls of the daemon, watched for the condition and for the order. -/
abbrev observe (env : Env) : Handler Call (Watched World) := watch (handle env) meets keeps

/-- As long as the condition is met, the queue is ordered and all operations were taken in
turn. -/
def Inv (s : Watched World) : Prop :=
  s.met = true → Ordered s.state.db.ops ∧ s.kept = true

/-- How the queue moves on: ids are not used again, an operation stays with its item, and the
number of its attempts only grows. -/
structure MovesOn (s s' : Watched World) : Prop where
  met : s'.met = true → s.met = true
  next : s.state.db.ops.next ≤ s'.state.db.ops.next
  ops : ∀ o' ∈ s'.state.db.ops, s.state.db.ops.next ≤ o'.id ∨ ∃ o ∈ s.state.db.ops,
    o.id = o'.id ∧ o.syncItemId = o'.syncItemId ∧ o.attempts ≤ o'.attempts

lemma MovesOn.refl (s : Watched World) : MovesOn s s :=
  ⟨id, Nat.le_refl _, fun o ho => .inr ⟨o, ho, rfl, rfl, Nat.le_refl _⟩⟩

lemma MovesOn.trans {s s' s'' : Watched World} (h : MovesOn s s') (h' : MovesOn s' s'') :
    MovesOn s s'' := by
  refine ⟨fun hm => h.met (h'.met hm), h.next.trans h'.next, fun o'' ho'' => ?_⟩
  rcases h'.ops o'' ho'' with hnew | ⟨o', ho', hid', hitem', hatt'⟩
  · exact .inl (h.next.trans hnew)
  · rcases h.ops o' ho' with hnew | ⟨o, ho, hid, hitem, hatt⟩
    · exact .inl (hid' ▸ hnew)
    · exact .inr ⟨o, ho, hid.trans hid', hitem.trans hitem', hatt.trans hatt'⟩

/-- Every call moves the queue on. -/
lemma movesOn_call {β : Type} (c : Call β) (s : Watched World) :
    MovesOn s (observe env β c s).2 := by
  have hmet : (observe env β c s).2.met = true → s.met = true := fun h =>
    (Bool.and_eq_true_iff.mp h).1
  cases c with
  | db c =>
    refine ⟨hmet, DbCall.nextOp_le_run c s.state.db, fun o' ho' => ?_⟩
    rcases DbCall.ops_run_cases ho' with ⟨ho, -⟩ | ⟨item, op, payload, now, -, rfl⟩ |
        ⟨o, ho, next, -, rfl⟩
    · exact .inr ⟨o', ho, rfl, rfl, Nat.le_refl _⟩
    · exact .inl (Nat.le_refl _)
    · exact .inr ⟨o, ho, rfl, rfl, Nat.le_succ _⟩
  | _ => exact ⟨hmet, Nat.le_refl _, fun o ho => .inr ⟨o, ho, rfl, rfl, Nat.le_refl _⟩⟩

/-- What the dispatcher knows of the operation that it executes: as long as the condition is met,
it is in its turn. -/
structure Holds (op : PendingOperation) (s : Watched World) : Prop where
  old : op.id < s.state.db.ops.next
  same : ∀ o ∈ s.state.db.ops, o.id = op.id →
    o.syncItemId = op.syncItemId ∧ op.attempts ≤ o.attempts
  turn : s.met = true → inTurn s.state.db op = true

/-- The dispatcher's knowledge stays true. -/
lemma Holds.movesOn {op : PendingOperation} {s s' : Watched World} (h : Holds op s)
    (hs : MovesOn s s') : Holds op s' := by
  refine ⟨lt_of_lt_of_le h.old hs.next, fun o' ho' hid => ?_, fun hmet => ?_⟩
  · rcases hs.ops o' ho' with hnew | ⟨o, ho, hid', hitem, hatt⟩
    · exact absurd h.old (not_lt.mpr (hid ▸ hnew))
    · obtain ⟨hsame, hle⟩ := h.same o ho (hid'.trans hid)
      exact ⟨hitem.symm.trans hsame, hle.trans hatt⟩
  · refine inTurn_iff.mpr fun hopen => first_iff.mpr fun a' ha' hitem hid => ?_
    rcases hs.ops a' ha' with hnew | ⟨a, ha, haid, haitem, hatt⟩
    · exact absurd (hid.trans h.old) (not_lt.mpr hnew)
    · have hfirst := first_iff.mp (inTurn_iff.mp (h.turn (hs.met hmet)) hopen)
      exact (hfirst a ha (haitem.trans hitem) (haid ▸ hid)).trans hatt

/-- The operation that a call postpones or takes from the queue. -/
def touched : ∀ β, Call β → Option OpId
  | _, .db (.markAttempt id _) => some id
  | _, .db (.deleteOp id) => some id
  | _, _ => none

/-- An operation of the queue is in its turn when the operation that is executed is, and it is that
operation. -/
lemma Holds.first {op o : PendingOperation} {s : Watched World} (h : Holds op s)
    (hmet : s.met = true) (ho : o ∈ s.state.db.ops) (hid : o.id = op.id)
    (hopen : o.attempts < maxAttempts) : Turns.first s.state.db o = true := by
  obtain ⟨hitem, hle⟩ := h.same o ho hid
  have hfirst := first_iff.mp (inTurn_iff.mp (h.turn hmet) (lt_of_le_of_lt hle hopen))
  refine first_iff.mpr fun a ha haitem haid => ?_
  exact hfirst a ha (haitem.trans hitem) (hid ▸ haid)

/-- **A call keeps the invariant** when it touches no operation but the one that the dispatcher
executes. -/
lemma inv_call {β : Type} {c : Call β} {s : Watched World} (h : Inv s)
    (hop : ∀ id, touched β c = some id → ∃ op, op.id = id ∧ Holds op s) :
    Inv (observe env β c s).2 := by
  intro hmet
  obtain ⟨hmet₀, hmeets⟩ := Bool.and_eq_true_iff.mp hmet
  obtain ⟨hord, hkept⟩ := h hmet₀
  cases c with
  | db c =>
    refine ⟨ordered_run hord hmeets fun o ho next hpost hopen => ?_,
      Bool.and_eq_true_iff.mpr ⟨hkept, ?_⟩⟩
    · cases c with
      | markAttempt id next' =>
        obtain ⟨op, hid, hholds⟩ := hop id rfl
        obtain ⟨rfl, -⟩ : id = o.id ∧ next' = next := by simpa [DbCall.postpones] using hpost
        exact hholds.first hmet₀ ho hid.symm (lt_of_le_of_lt (Nat.le_succ _) hopen)
      | _ => cases hpost
    · show takesTurn s.state.db c = true
      cases c with
      | nextDue now =>
        simp only [takesTurn]
        split
        · next op hnext => exact inTurn_nextDue hord hnext
        · rfl
      | deleteOp id =>
        obtain ⟨op, hid, hholds⟩ := hop id rfl
        simp only [takesTurn, List.all_eq_true, decide_eq_true_eq]
        intro o ho
        by_cases hoid : o.id = id
        · exact .inr (inTurn_iff.mpr fun hopen =>
            hholds.first hmet₀ ho (hoid.trans hid.symm) hopen)
        · exact .inl hoid
      | _ => rfl
  | _ => exact ⟨hord, Bool.and_eq_true_iff.mpr ⟨hkept, rfl⟩⟩

/-! ## The tasks -/

/-- A program that makes no attempts touches no operation. -/
lemma only_of_within {α : Type} {p : Task α} {id : OpId} (h : Within (fun e => e ≠ .attempt) p) :
    p.Only fun β c => ∀ i, touched β c = some i → i = id := by
  refine Prog.Only.mono h fun β c hc i hi => ?_
  cases c with
  | db c =>
    cases c with
    | markAttempt i' next => exact absurd rfl (hc .attempt rfl)
    | deleteOp i' => exact absurd rfl (hc .attempt rfl)
    | _ => cases hi
  | _ => cases hi

/-- A statement that touches at most the operation. -/
lemma only_sql {β : Type} {c : DbCall β} {id : OpId}
    (h : ∀ i, touched β (.db c) = some i → i = id) :
    (sql c).Only fun β c => ∀ i, touched β c = some i → i = id :=
  ⟨h, fun _ => trivial⟩

lemma only_unixNow {id : OpId} : unixNow.Only fun β c => ∀ i, touched β c = some i → i = id :=
  ⟨by simp [touched], fun _ => trivial⟩

/-- The bookkeeping of an operation touches that operation only. -/
lemma only_completed {op : PendingOperation} :
    (completed op).Only fun β c => ∀ i, touched β c = some i → i = op.id := by
  have hend : (do
      let _ ← sql .clearIfTransient
      sql (.deleteOp op.id) : Task Unit).Only fun β c => ∀ i, touched β c = some i → i = op.id :=
    (only_sql (by simp [touched])).bind fun _ => only_sql (by simp [touched])
  unfold completed
  split
  · exact only_unixNow.bind fun _ => (only_sql (by simp [touched])).bind fun _ => hend
  · exact hend

lemma only_failed {op : PendingOperation} {e : Error} :
    (failed op e).Only fun β c => ∀ i, touched β c = some i → i = op.id := by
  unfold failed
  split
  · exact (only_sql (by simp [touched])).bind fun _ => only_unixNow.bind fun _ =>
      (only_sql (by simp [touched])).bind fun _ => trivial
  · refine Prog.Only.bind ⟨by simp [touched], fun _ => trivial⟩ fun delay => ?_
    exact only_unixNow.bind fun _ => (only_sql (by simp [touched])).bind fun _ => trivial

/-- **A program on behalf of an operation** that is in its turn keeps the terms. -/
lemma safe_of_holds {α : Type} {p : Task α} (op : PendingOperation) {s : Watched World}
    (hp : p.Only fun β c => ∀ i, touched β c = some i → i = op.id) (hop : Holds op s) :
    p.Safe (observe env) (.shared Inv MovesOn) Prog.Any s := by
  refine (Prog.Only.safe_shared hp (J := Holds op) (fun β c s hc hI hJ => ?_)
    (fun s s' hs hJ => hJ.movesOn hs) hop).mono fun _ _ _ => trivial
  have hmoves : MovesOn s (observe env β c s).2 := movesOn_call c s
  exact ⟨inv_call hI fun id hid => ⟨op, (hc id hid).symm, hJ⟩, hmoves, hJ.movesOn hmoves⟩

/-- **An iteration of the drain loop** keeps the terms.

**Proof sketch.** The answer of `next_due` is in its turn, since the queue is ordered. It stays so
whatever the other tasks do, so that all further calls are on behalf of an operation in its
turn. -/
lemma safe_drainOne {root : FileId} {s : Watched World} :
    (void (drainOne env root)).Safe (observe env) (.shared Inv MovesOn) Prog.Any s := by
  simp only [void, drainOne, unixNow, sql, Prog.lift, Prog.bind_eq, Prog.call_bind, Prog.pure_bind]
  intro s₁ _ hI₁
  refine ⟨inv_call hI₁ (by simp [touched]), movesOn_call _ s₁, ?_⟩
  intro s₂ _ hI₂
  refine ⟨inv_call hI₂ (by simp [touched]), movesOn_call _ s₂, ?_⟩
  simp only [observe, watch, handle_clock, handle_db, DbCall.run]
  cases hnext : OpTable.nextDue s₂.state.db.ops s₁.state.now with
  | none => trivial
  | some op =>
    obtain ⟨hmem, -⟩ := OpTable.nextDue_mem hnext
    refine safe_of_holds op ?_ ⟨s₂.state.db.ops.key_lt hmem, fun o ho hid => ?_,
      fun hmet => ?_⟩
    · refine Prog.Only.bind ?_ fun _ => trivial
      simp only
      split
      · exact ⟨by simp [touched], fun _ => trivial⟩
      · refine (only_of_within within_execute).attempt.bind fun res => ?_
        cases res with
        | ok u => exact only_completed.bind fun _ => trivial
        | error e => exact only_failed
    · obtain rfl := s₂.state.db.ops.key_inj ho hmem hid
      exact ⟨rfl, Nat.le_refl _⟩
    · exact inTurn_nextDue (hI₂ (Bool.and_eq_true_iff.mp hmet).1).1 hnext

/-- The tasks other than the dispatcher neither postpone operations nor take them from the queue. -/
lemma untouched_task {j : Job} (hj : ∀ root, j ≠ .drain root) :
    (j.task env).Only fun β c => touched β c = none := by
  refine Prog.Only.mono (within_task hj) fun β c hc => ?_
  cases c with
  | db c =>
    cases c with
    | markAttempt i next => exact absurd rfl (hc .attempt rfl)
    | deleteOp i => exact absurd rfl (hc .attempt rfl)
    | _ => rfl
  | _ => rfl

/-- A task that makes no attempts keeps the terms. -/
lemma safe_task {j : Job} {s : Watched World} (hj : ∀ root, j ≠ .drain root) :
    (j.task env).Safe (observe env) (.shared Inv MovesOn) Prog.Any s := by
  refine (Prog.Only.safe_shared (untouched_task hj) (J := fun _ => True) (fun β c s hc hI _ => ?_)
    (fun _ _ _ _ => trivial) trivial).mono fun _ _ _ => trivial
  exact ⟨inv_call hI (by simp [hc]), movesOn_call c s, trivial⟩

/-! ## Every interleaving -/

/-- The tasks of the daemon: the dispatcher, and any number of others. -/
def job (env : Env) : Option ℕ → Watched World → Task Unit → Prop
  | none, _, p => ∃ root, p = void (drainOne env root)
  | some _, _, p => ∃ j, (∀ root, j ≠ Job.drain root) ∧ p = j.task env

/-- Everything but the database can change from outside: files, Drive, the connection, the
clock. -/
def outside (s s' : Watched World) : Prop :=
  ∃ w : World, s' = { s with state := { w with db := s.state.db } }

/-- The runs of the daemon from a state, call by call: the dispatcher and the other tasks, with
changes from outside and crashes at any point. -/
abbrev Runs (env : Env) (w₀ : World) :=
  Reaches (observe env) (job env) outside ⟨⟨w₀, true, true⟩, fun _ => .pure ()⟩

/-- **The operations of an item are taken and completed in turn** in every run whose calls all
meet the condition: an operation is enqueued when no earlier one of its item still waits for its
next attempt, and a failed one is not postponed beyond a later one of its item.

**Proof sketch.** The interleaving rule, for the invariant that the queue is ordered while the
condition is met: the other tasks take no operation from the queue and postpone none, and the
dispatcher does so for an operation in its turn. -/
theorem operations_in_turn {w₀ : World} (h₀ : Ordered w₀.db.ops)
    {c : Config Call Error (Option ℕ) (Watched World)} (hc : Runs env w₀ c)
    (hmet : c.shared.met = true) : c.shared.kept = true := by
  have hsafe : c.Safe (observe env) Inv MovesOn := by
    refine hc.invariant ⟨fun _ => ⟨h₀, rfl⟩, fun _ => (Prog.safe_pure ()).mpr trivial⟩ MovesOn.refl
      (fun _ _ _ => MovesOn.trans) (fun i s p _ hp => ?_) fun s s' hs hout => ?_
    · cases i with
      | none =>
        obtain ⟨root, rfl⟩ := hp
        exact safe_drainOne
      | some n =>
        obtain ⟨j, hj, rfl⟩ := hp
        exact safe_task hj
    · obtain ⟨w, rfl⟩ := hout
      exact ⟨hs, ⟨id, Nat.le_refl _, fun o ho => .inr ⟨o, ho, rfl, rfl, Nat.le_refl _⟩⟩⟩
  exact (hsafe.1 hmet).2

/-! ## A download before its rename -/

/-- The change of a file that was moved to the folder `d` and edited to `B`. -/
def movedChange : RemoteChange :=
  ⟨.id 3, false, some ⟨.id 3, "a.txt", "text/plain", some 1, some "B", [.id 4], false⟩,
    some ["d", "a.txt"]⟩

/-- The tracked file `a.txt`, next to a file `d` of the user. -/
def inTheWay : World :=
  match sampleSynced.fs.writeFile ["d"] [1] with
  | .ok fs => { sampleSynced with fs, remote := ⟨sampleDrive [66], []⟩ }
  | .error _ => sampleSynced

/-- The change is handled and the rename fails; then the user removes the file `d`. -/
def renameFailed : World :=
  let w := performAll .plain [.job (.batch ⟨[movedChange], 2⟩) 100, .job (.drain (.id 2)) 100]
    inTheWay
  match w.fs.removeFile ["d"] with
  | .ok fs => { w with fs }
  | .error _ => w

/-- The rename that waits for its next attempt. -/
def waitingRename : PendingOperation :=
  ⟨2, 1, .renameLocal, some (.rename ⟨["d", "a.txt"]⟩), 1, 1⟩

/-- The download behind it. -/
def laterDownload : PendingOperation :=
  ⟨3, 1, .download, some (.download ⟨.id 3, 1, "B", ["d", "a.txt"]⟩), 0, 0⟩

/-- The download of an item is executed before the rename that was enqueued earlier; the rename
then moves the old content over the new one. -/
theorem download_overtakes_rename :
    renameFailed.db.ops.table.rows = [waitingRename, laterDownload] ∧
      (runTask .plain (execute .plain (.id 2) laterDownload) renameFailed).1 = .ok () ∧
      (performAll .plain [.job (.drain (.id 2)) 100] renameFailed).db.ops.table.rows =
        [waitingRename] ∧
      (performAll .plain [.job (.drain (.id 2)) 100] renameFailed).fs.node ["d", "a.txt"] =
        some (.file [66]) ∧
      (performAll .plain [.job (.drain (.id 2)) 100, .job (.drain (.id 2)) 100]
        { renameFailed with now := 1 }).fs.node ["d", "a.txt"] = some (.file [65]) := by
  refine ⟨by decide, by decide, by decide, by decide, by decide⟩

/-- The tracked file `a.txt`, with nothing in the way. -/
def nothingInTheWay : World := { sampleSynced with remote := ⟨sampleDrive [66], []⟩ }

lemma ordered_nothingInTheWay : Ordered nothingInTheWay.db.ops := by
  have hempty : nothingInTheWay.db.ops.table.rows = [] := by decide
  intro a ha
  rw [Data.Serial.mem_def, hempty] at ha
  simp at ha

/-- The change is handled, and the dispatcher takes the rename and then the download. -/
def moveHandled : Watched World :=
  let iteration := void (drainOne .plain (.id 2))
  (iteration.run (observe .plain) (iteration.run (observe .plain)
    (((Job.batch ⟨[movedChange], 2⟩).task .plain).run (observe .plain)
      ⟨nothingInTheWay, true, true⟩).2).2).2

/-- Without the file `d`, the rename and the download of `a.txt` are taken in turn. -/
theorem rename_and_download_in_turn :
    moveHandled.met = true ∧ moveHandled.kept = true ∧
      moveHandled.state.db.ops.table.rows = [] := by
  obtain ⟨t₁, hbatch, -, hothers⟩ := Reaches.run_job (i := some 0)
    (.refl : Runs .plain nothingInTheWay _) (.inl ⟨(), rfl⟩)
    ⟨.batch ⟨[movedChange], 2⟩, by simp, rfl⟩
  obtain ⟨t₂, hrename, hidle, -⟩ := Reaches.run_job (i := none) hbatch
    (.inl ⟨(), hothers none (by simp)⟩) ⟨.id 2, rfl⟩
  obtain ⟨t₃, hdownload, -, -⟩ := Reaches.run_job (i := none) hrename hidle ⟨.id 2, rfl⟩
  have hmet : moveHandled.met = true := by decide +kernel
  have hrows : moveHandled.state.db.ops.table.rows = [] := by decide +kernel
  have hc : Runs .plain nothingInTheWay ⟨moveHandled, t₃⟩ := hdownload
  exact ⟨hmet, operations_in_turn ordered_nothingInTheWay hc hmet, hrows⟩

end AirDrive.Turns
