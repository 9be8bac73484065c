import AirDrive.Daemon.FileStatus
import AirDrive.System.Calls
import AirDrive.System.KindSteps

set_option relaxedAutoImplicit false
set_option autoImplicit false

/-!
# Emblems at rest

The emblem of a path is read from the state of its row. Rows are recorded as pending, and of the
operations only the local making of a directory sets the state to synced; no statement ever sets it
to conflict. So the emblems tell the truth at rest as long as no operation is the last one of a
pending row, other than one that settles or removes the row, and no conflict is opened.

## Main definitions

* `AirDrive.Emblems.Truthful` — the emblems tell the truth.
* `AirDrive.Emblems.Meets` — a step after which no row is left pending.

## Main results

* `AirDrive.Emblems.truthful_at_rest` — whole runs.
-/

namespace AirDrive.Emblems

open Effect Dispatcher Continuous Outcomes FileStatus Calls

/-- The path is a side of an open conflict. -/
def Side (db : Db) (p : RelPath) : Prop :=
  ∃ c ∈ db.conflicts, c.originalRelativePath = p ∨ c.conflictRelativePath = p

/-- The emblem of a tracked path tells the truth when nothing is queued. -/
structure Truthful (db : Db) (r : SyncItem) : Prop where
  conflict : statusToken db (some r.relativePath) = .conflict ↔ Side db r.relativePath
  ignored : ¬Side db r.relativePath → r.state = .skipped →
    statusToken db (some r.relativePath) = .ignored
  synced : ¬Side db r.relativePath → r.state ≠ .skipped → r.trashedAt = none →
    statusToken db (some r.relativePath) = .synced

/-! ## What the state column says -/

/-- A live row that is recorded as pending. -/
def Pending (r : SyncItem) : Prop := r.trashedAt = none ∧ r.state = .pendingLocal

/-- Rows are synced, skipped or pending, and a pending one waits for an operation, other than those
excused; the rows excused need not. -/
structure Settling (rows : ItemId → Prop) (ops : OpId → Prop) (db : Db) : Prop where
  states : ∀ r ∈ db.items, r.state = .synced ∨ r.state = .skipped ∨ r.state = .pendingLocal
  waits : ∀ r ∈ db.items, ¬rows r.id → Pending r → ∃ o ∈ db.ops, ¬ops o.id ∧ o.syncItemId = r.id

/-- Every pending row waits for an operation. -/
abbrev Settled (db : Db) : Prop := Settling (fun _ => False) (fun _ => False) db

/-- No conflict is open. -/
def Peace (db : Db) : Prop := ∀ c, c ∉ db.conflicts

/-- At rest the emblems of settled rows tell the truth. -/
lemma truthful_of_settled {db : Db} (h : Settled db) (hpeace : Peace db) (hrest : ∀ o, o ∉ db.ops)
    {r : SyncItem} (hr : r ∈ db.items) (hne : r.relativePath ≠ [])
    (hplain : r.relativePath.Plain) : Truthful db r := by
  have hside : ¬Side db r.relativePath := fun ⟨c, hc, _⟩ => hpeace c hc
  have htoken := statusToken_of_row hr hne hplain
  refine ⟨?_, fun _ hskipped => ?_, fun _ hskipped hlive => ?_⟩
  · rw [htoken]
    refine ⟨fun hconflict => ?_, fun hs => absurd hs hside⟩
    rcases h.states r hr with hs | hs | hs <;> rw [hs] at hconflict <;> cases hconflict
  · rw [htoken, hskipped]
    rfl
  · rw [htoken]
    rcases h.states r hr with hs | hs | hs
    · rw [hs]
      rfl
    · exact absurd hs hskipped
    · obtain ⟨o, ho, -⟩ := h.waits r hr not_false ⟨hlive, hs⟩
      exact absurd ho (hrest o)

section Statements

variable {rows : ItemId → Prop} {ops : OpId → Prop} {db : Db} {β : Type} {c : DbCall β} {i : ItemId}

/-- A statement that leaves no row pending, takes no operation from the queue, and opens no
conflict. -/
def quiet : {β : Type} → DbCall β → Prop
  | _, .insertItem new => new.state = .synced ∨ new.state = .skipped
  | _, .setState _ state => state = .synced ∨ state = .skipped
  | _, .clearTrashed _ => False
  | _, .deleteOp _ => False
  | _, .insertConflict _ _ _ _ => False
  | _, _ => True

/-- What a quiet statement makes of a row: it settles it, or leaves its state alone. -/
lemma state_of_quiet (hc : quiet c) {s r : SyncItem} (h : c.Changes s r) :
    (r.state = s.state ∧ (r.trashedAt = none → s.trashedAt = none)) ∨
      r.state = .synced ∨ r.state = .skipped := by
  have heq : r = s → (r.state = s.state ∧ (r.trashedAt = none → s.trashedAt = none)) ∨
      r.state = .synced ∨ r.state = .skipped := fun heq => heq ▸ .inl ⟨rfl, id⟩
  cases c with
  | setRemoteId id rid => exact h.elim heq fun h => .inl (h.2 ▸ ⟨rfl, fun hlive => hlive⟩)
  | setRelativePath id rel =>
    obtain ⟨p, rfl⟩ := h
    exact .inl ⟨rfl, fun hlive => hlive⟩
  | renameSubtree old new =>
    obtain ⟨p, rfl⟩ := h
    exact .inl ⟨rfl, fun hlive => hlive⟩
  | updateFingerprint id size md5 =>
    exact h.elim heq fun h => .inl (h.2 ▸ ⟨rfl, fun hlive => hlive⟩)
  | setState id state =>
    rcases h with h | ⟨-, rfl⟩
    · exact heq h
    · exact .inr hc
  | markTrashed id at' => exact h.elim heq fun h => .inl (h.2 ▸ ⟨rfl, nofun⟩)
  | clearTrashed id => exact hc.elim
  | _ => exact heq h

/-- A row that is pending after a quiet statement was so before. -/
lemma pending_of_quiet (hc : quiet c) {r : SyncItem} (hr : r ∈ (c.run db).2.items)
    (hpending : Pending r) : ∃ s ∈ db.items, s.id = r.id ∧ Pending s := by
  have hno : ¬(r.state = .synced ∨ r.state = .skipped) := by
    rw [hpending.2]
    rintro (h | h) <;> cases h
  rcases DbCall.mem_items_run hr with ⟨s, hs, hid, hchange⟩ | ⟨new, hnew, rfl⟩
  · obtain ⟨hstate, hlive⟩ := (state_of_quiet hc hchange).resolve_right hno
    exact ⟨s, hs, hid, hlive hpending.1, hstate.symm.trans hpending.2⟩
  · cases c <;> cases hnew
    exact absurd hc hno

/-- The states of rows after a quiet statement. -/
lemma states_of_quiet (hc : quiet c)
    (h : ∀ r ∈ db.items, r.state = .synced ∨ r.state = .skipped ∨ r.state = .pendingLocal) :
    ∀ r ∈ (c.run db).2.items, r.state = .synced ∨ r.state = .skipped ∨ r.state = .pendingLocal := by
  intro r hr
  rcases DbCall.mem_items_run hr with ⟨s, hs, hid, hchange⟩ | ⟨new, hnew, rfl⟩
  · rcases state_of_quiet hc hchange with ⟨hstate, -⟩ | hsettled
    · exact hstate ▸ h s hs
    · exact hsettled.imp_right .inl
  · cases c <;> cases hnew
    exact hc.imp_right .inl

/-- **A quiet statement** leaves every pending row its operations. -/
lemma Settling.quiet (h : Settling rows ops db) (hc : quiet c) :
    Settling rows ops (c.run db).2 := by
  refine ⟨states_of_quiet hc h.states, fun r hr hexcused hpending => ?_⟩
  obtain ⟨s, hs, hid, hspending⟩ := pending_of_quiet hc hr hpending
  obtain ⟨o, ho, hother, hitem⟩ := h.waits s hs (hid ▸ hexcused) hspending
  have hstays : c.deletes ≠ some o.id := by
    cases c <;> first | exact hc.elim | nofun
  obtain ⟨o', ho', hsame⟩ := DbCall.ops_stay ho ⟨r, hr, (hitem.trans hid).symm⟩ hstays
  exact ⟨o', ho', hsame.1 ▸ hother, hsame.2.1.symm.trans (hitem.trans hid)⟩

lemma Peace.quiet (h : Peace db) (hc : quiet c) : Peace (c.run db).2 := by
  refine fun x hx => h x (DbCall.mem_conflicts_run ?_ hx)
  cases c <;> first | rfl | exact hc.elim

lemma Settling.excuse {rows' : ItemId → Prop} (h : Settling rows ops db)
    (hrows : ∀ i, rows i → rows' i) : Settling rows' ops db :=
  ⟨h.states, fun r hr hexcused => h.waits r hr fun hi => hexcused (hrows _ hi)⟩

/-- Queueing an operation for the row that was excused. -/
lemma Settling.enqueue (h : Settling (· = i) (fun _ => False) db) {op : Operation}
    {payload : Option Payload} {now : ℕ} :
    Settled (DbCall.run (.enqueue i op payload now) db).2 := by
  have hquiet := h.quiet (c := .enqueue i op payload now) trivial
  refine ⟨hquiet.states, fun r hr _ hpending => ?_⟩
  by_cases hid : r.id = i
  · have hrow : ∃ s ∈ db.items, s.id = i := by
      simp only [DbCall.run, Db.items_enqueue] at hr
      exact ⟨r, hr, hid⟩
    have hnew := ((Db.enqueue_of_row op payload now hrow).2 _).mpr (.inr rfl)
    exact ⟨_, hnew, not_false, hid.symm⟩
  · exact hquiet.waits r hr hid hpending

/-- Recording a row excuses it. -/
lemma Settling.insert (h : Settled db) {new : NewSyncItem}
    (hnew : new.state = .skipped ∨ new.state = .pendingLocal) {id : ItemId}
    (hid : (DbCall.run (.insertItem new) db).1 = .ok id) :
    Settling (· = id) (fun _ => False) (DbCall.run (.insertItem new) db).2 := by
  have hrows : ∀ r ∈ (DbCall.run (.insertItem new) db).2.items,
      (r ∈ db.items) ∨ r = new.withId id := by
    intro r hr
    rcases DbCall.mem_items_run hr with ⟨s, hs, -, rfl⟩ | ⟨new', hnew', rfl⟩
    · exact .inl hs
    · cases hnew'
      exact .inr (Db.row_of_insertItem hid hr (by
        simp only [DbCall.run, Db.insertItem] at hid
        split_ifs at hid
        exact Except.ok.inj hid))
  refine ⟨fun r hr => ?_, fun r hr hexcused hpending => ?_⟩
  · rcases hrows r hr with hr | rfl
    · exact h.states r hr
    · exact .inr hnew
  · rcases hrows r hr with hold | rfl
    · obtain ⟨o, ho, hother, hitem⟩ := h.waits r hold not_false hpending
      obtain ⟨o', ho', hsame⟩ := DbCall.ops_stay (c := .insertItem new) ho ⟨r, hr, hitem.symm⟩
        fun h => by cases h
      exact ⟨o', ho', not_false, hsame.2.1.symm.trans hitem⟩
    · exact absurd rfl hexcused

/-- Reviving a row excuses it. -/
lemma Settling.clearTrashed (h : Settled db) :
    Settling (· = i) (fun _ => False) (DbCall.run (.clearTrashed i) db).2 := by
  have hrows : ∀ r ∈ (DbCall.run (.clearTrashed i) db).2.items, ∃ s ∈ db.items, s.id = r.id ∧
      s.state = r.state ∧ (r = s ∨ r.id = i) := by
    intro r hr
    rcases DbCall.mem_items_run hr with ⟨s, hs, hid, rfl | ⟨hsid, rfl⟩⟩ | ⟨new, hnew, -⟩
    · exact ⟨r, hs, rfl, rfl, .inl rfl⟩
    · exact ⟨s, hs, rfl, rfl, .inr hsid⟩
    · cases hnew
  refine ⟨fun r hr => ?_, fun r hr hexcused hpending => ?_⟩
  · obtain ⟨s, hs, -, hstate, -⟩ := hrows r hr
    exact hstate ▸ h.states s hs
  · obtain ⟨s, hs, -, -, rfl | hid⟩ := hrows r hr
    · obtain ⟨o, ho, hother, hitem⟩ := h.waits r hs not_false hpending
      obtain ⟨o', ho', hsame⟩ := DbCall.ops_stay (c := .clearTrashed i) ho ⟨r, hr, hitem.symm⟩ nofun
      exact ⟨o', ho', not_false, hsame.2.1.symm.trans hitem⟩
    · exact absurd hid hexcused

/-- Taking an operation from the queue that is not the last one of a pending row. -/
lemma Settling.deleteOp {op : PendingOperation} (h : Settled db)
    (hspared : Settling (· ≠ op.syncItemId) (· = op.id) db)
    (hown : ∀ o ∈ db.ops, o.id = op.id → o.syncItemId = op.syncItemId) :
    Settled (DbCall.run (.deleteOp op.id) db).2 := by
  refine ⟨h.states, fun r hr _ hpending => ?_⟩
  have hother : ∃ o ∈ db.ops, o.id ≠ op.id ∧ o.syncItemId = r.id := by
    by_cases hid : r.id = op.syncItemId
    · exact hspared.waits r hr (not_not.mpr hid) hpending
    · obtain ⟨o, ho, -, hitem⟩ := h.waits r hr not_false hpending
      exact ⟨o, ho, fun hsame => hid (hitem.symm.trans (hown o ho hsame)), hitem⟩
  obtain ⟨o, ho, hne, hitem⟩ := hother
  exact ⟨o, Data.Serial.mem_keep.mpr ⟨ho, by simpa using hne⟩, not_false, hitem⟩

end Statements

/-! ## The handlers -/

/-- The calls of the handlers, other than those of an open conflict: rows that satisfy `P` are
inserted, and rows are moved if `moves` holds. -/
def Allowed (P : NewSyncItem → Prop) (moves : Prop) : {β : Type} → Call β → Prop
  | _, .db (.insertItem new) => P new
  | _, .db (.setRelativePath _ _) => moves
  | _, .db (.enqueue _ _ _ _) => True
  | _, .db (.clearTrashed _) => True
  | _, .db (.getByRelativePath _) => True
  | _, .db (.getByRemoteId _) => True
  | _, .db .listForMapping => True
  | _, .db .listUnresolved => True
  | _, .db (.deleteItem _) => True
  | _, .db (.deleteConflict _) => True
  | _, .db (.setCursor _) => True
  | _, .db _ => False
  | _, .fs c => Kinds.still (.fs c) = true
  | _, .drive c => backgroundDrive c = true
  | _, .clock => True
  | _, .inFlight _ => True
  | _, _ => False

/-- A call whose statement is quiet. -/
def quietCall : {β : Type} → Call β → Prop
  | _, .db c => quiet c
  | _, _ => True

/-- The invariant is kept by the calls of the handlers. -/
def Carried (env : Env) (P : NewSyncItem → Prop) (moves : Prop) (I : World → Prop) : Prop :=
  ∀ {β : Type} {c : Call β} {w : World}, Allowed P moves c → I w → I (handle env β c w).2

/-- The program keeps the invariant, and leaves every pending row an operation. -/
abbrev Leaves {α : Type} (env : Env) (I : World → Prop) (p : Task α) (w : World) : Prop :=
  p.Safe (handle env) (.solo I) (fun _ w' => Settled w'.db) w

section Handlers

variable {env : Env} {P : NewSyncItem → Prop} {moves : Prop} {I : World → Prop} {w : World}
  {α : Type} {i : ItemId} {op : Operation} {payload : Option Payload} {p : RelPath}

/-- A query: the state is as it was. -/
lemma leaves_read {β : Type} {c : DbCall β} (hc : (c.run w.db).2 = w.db) :
    (sql c).Safe (handle env) (.solo I) (fun x w' => w' = w ∧ I w ∧ x = .ok (c.run w.db).1) w := by
  refine (safe_sql _).mpr fun hI => ?_
  rw [hc]
  exact ⟨hI, rfl, hI, rfl⟩

/-- A look at the local tree. -/
lemma leaves_look {β : Type} {c : FsCall β} (hc : (c.run w.fs).2 = w.fs) :
    (io c).Safe (handle env) (.solo I) (fun x w' => w' = w ∧ x = .ok (c.run w.fs).1) w := by
  refine (safe_io _).mpr fun hI => ?_
  rw [hc]
  exact ⟨hI, rfl, rfl⟩

/-- A program of quiet calls. -/
lemma leaves_only (hI : Carried env P moves I) {q : Task α}
    (hq : q.Only fun _ c => Allowed P moves c ∧ quietCall c) (h : Settled w.db) :
    Leaves env I q w := by
  refine hq.safe (J := fun w' : World => Settled w'.db)
    (fun β c w' hc hinv hJ => ⟨hI hc.1 hinv, ?_⟩) h
  cases c with
  | db c => exact hJ.quiet hc.2
  | _ => exact hJ

/-- Queueing an operation for the row that is excused. -/
lemma leaves_enqueueOp (hI : Carried env P moves I)
    (h : Settling (· = i) (fun _ => False) w.db) : Leaves env I (enqueueOp i op payload) w := by
  refine Prog.safe_bind.mpr (safe_unixNow.mpr fun hinv => ⟨hinv, ?_⟩)
  refine Prog.safe_bind.mpr ((safe_sqlTry _).mpr fun hinv =>
    ⟨@hI _ (.db (.enqueue i op payload w.now)) w trivial hinv, ?_⟩)
  have hsettled := @Settling.enqueue _ _ h op payload w.now
  cases (DbCall.run (.enqueue i op payload w.now) w.db).1 <;> exact hsettled

lemma Settling.any {db : Db} (h : Settled db) : Settling (· = i) (fun _ => False) db :=
  h.excuse fun _ => False.elim

/-- Recording a row and queueing an operation for it. -/
lemma leaves_record (hI : Carried env P moves I) {new : NewSyncItem} (hP : P new)
    (hnew : new.state = .skipped ∨ new.state = .pendingLocal) (h : Settled w.db) :
    Leaves env I ((sqlTry (.insertItem new)).bind fun id => enqueueOp id op payload) w := by
  refine Prog.safe_bind.mpr ((safe_sqlTry _).mpr fun hinv =>
    ⟨@hI _ (.db (.insertItem new)) w hP hinv, ?_⟩)
  cases hres : (DbCall.run (.insertItem new) w.db).1 with
  | ok id => exact leaves_enqueueOp hI (Settling.insert h hnew hres)
  | error e =>
    have hsame : (DbCall.run (.insertItem new) w.db).2 = w.db := by
      simp only [DbCall.run, Db.insertItem] at hres ⊢
      split_ifs at hres ⊢
      rfl
    rw [hsame]
    exact h

/-- Reviving a row and queueing an operation for it. -/
lemma leaves_revive (hI : Carried env P moves I) (h : Settled w.db) :
    Leaves env I ((sql (.clearTrashed i)).bind fun _ => enqueueOp i op payload) w :=
  Prog.safe_bind.mpr ((safe_sql _).mpr fun hinv =>
    ⟨@hI _ (.db (.clearTrashed i)) w trivial hinv, leaves_enqueueOp hI (Settling.clearTrashed h)⟩)

/-! ### Local events -/

lemma leaves_enqueueLocalDir (hI : Carried env P moves I) (hP : ∀ p k, P (localCreate p k))
    (h : Settled w.db) : Leaves env I (enqueueLocalDir p) w := by
  refine Prog.Safe.bind (leaves_read rfl) (fun row w₁ ⟨hw₁, _, _⟩ => ?_) fun _ _ h' => h'.1 ▸ h
  subst hw₁
  cases row with
  | some item => exact h
  | none => exact leaves_record hI (hP _ _) (.inr rfl) h

lemma leaves_enqueueLocalFile (hI : Carried env P moves I) (hP : ∀ p k, P (localCreate p k))
    (h : Settled w.db) : Leaves env I (enqueueLocalFile p) w := by
  refine Prog.Safe.bind (leaves_read rfl) (fun row w₁ ⟨hw₁, _, _⟩ => ?_) fun _ _ h' => h'.1 ▸ h
  subst hw₁
  cases row with
  | some item =>
    simp only
    split
    · exact h
    · exact leaves_enqueueOp hI h.any
  | none => exact leaves_record hI (hP _ _) (.inr rfl) h

/-- **A created or modified path.** -/
lemma leaves_applyCreated (hI : Carried env P moves I) (hP : ∀ p k, P (localCreate p k))
    (h : Settled w.db) : Leaves env I (applyCreated p) w := by
  refine Prog.Safe.bind (leaves_look rfl) (fun isDir w₁ ⟨hw₁, _⟩ => ?_) fun _ _ h' => h'.1 ▸ h
  subst hw₁
  split
  · refine Prog.Safe.bind (leaves_enqueueLocalDir hI hP h) (fun _ w₂ h₂ => ?_) fun _ _ h' => h'
    refine Prog.Safe.bind (leaves_look rfl) (fun entries w₃ ⟨hw₃, _⟩ => ?_) fun _ _ h' => h'.1 ▸ h₂
    subst hw₃
    refine Prog.Safe.forEach (fun w' => Settled w'.db) h₂ (fun e _ w₄ h₄ => ?_) fun _ h' => h'
    have hentry : Leaves env I (enqueueLocalEntry e) w₄ := by
      unfold enqueueLocalEntry
      split
      · exact leaves_enqueueLocalDir hI hP h₄
      · exact leaves_enqueueLocalFile hI hP h₄
    exact hentry.mono fun x _ h' => by cases x <;> exact h'
  · refine Prog.Safe.bind (leaves_look rfl) (fun isFile w₂ ⟨hw₂, _⟩ => ?_) fun _ _ h' => h'.1 ▸ h
    subst hw₂
    split
    · exact leaves_enqueueLocalFile hI hP h
    · exact h

/-- **A deleted path.** -/
lemma leaves_applyDeleted (hI : Carried env P moves I) (h : Settled w.db) :
    Leaves env I (applyDeleted p) w := by
  have hcleanup : (Conflict.cleanupOnLocalDelete p).Only
      fun _ c => Allowed P moves c ∧ quietCall c := by
    refine Prog.Only.bind ⟨⟨trivial, trivial⟩, fun _ => trivial⟩ fun records =>
      Prog.Only.forEach fun c _ => ?_
    split
    · exact ⟨⟨trivial, trivial⟩, fun _ => trivial⟩
    · trivial
  refine Prog.Safe.bind (leaves_only hI hcleanup h) (fun _ w₁ h₁ => ?_) fun _ _ h' => h'
  refine Prog.Safe.bind (leaves_read rfl) (fun row w₂ ⟨hw₂, _, _⟩ => ?_) fun _ _ h' => h'.1 ▸ h₁
  subst hw₂
  cases row with
  | none => exact h₁
  | some item =>
    simp only
    split
    · exact h₁
    · split
      · exact leaves_enqueueOp hI h₁.any
      · exact leaves_only (q := sql (.deleteItem item.id)) hI
          ⟨⟨trivial, trivial⟩, fun _ => trivial⟩ h₁

/-- **A renamed path.** -/
lemma leaves_applyRenamed (hI : Carried env P moves I) (hP : ∀ p k, P (localCreate p k))
    (hmoves : moves) {from' to' : RelPath} (h : Settled w.db) :
    Leaves env I (applyRenamed from' to') w := by
  refine Prog.Safe.bind (leaves_read rfl) (fun row w₁ ⟨hw₁, _, _⟩ => ?_) fun _ _ h' => h'.1 ▸ h
  subst hw₁
  cases row with
  | none => exact leaves_applyCreated hI hP h
  | some item =>
    simp only
    split
    · exact Prog.safe_bind.mpr ((safe_sql _).mpr fun hinv =>
        ⟨@hI _ (.db (.setRelativePath item.id to')) w₁ hmoves hinv, leaves_enqueueOp hI
          (Settling.quiet h.any (c := .setRelativePath item.id to') trivial)⟩)
    · exact leaves_enqueueOp hI h.any

/-- **A watcher event.** -/
lemma leaves_applyLocal (hI : Carried env P moves I) (hP : ∀ p k, P (localCreate p k))
    (hmoves : moves) {ev : WatchEvent} (h : Settled w.db) : Leaves env I (applyLocal ev) w := by
  cases ev with
  | created p => exact leaves_applyCreated hI hP h
  | modified p => exact leaves_applyCreated hI hP h
  | deleted p => exact leaves_applyDeleted hI h
  | renamed from' to' => exact leaves_applyRenamed hI hP hmoves h

/-! ### The startup scan -/

lemma only_remoteMatchesSynced {item : SyncItem} :
    (StartupScan.remoteMatchesSynced item).Only fun _ c => Allowed P moves c ∧ quietCall c := by
  unfold StartupScan.remoteMatchesSynced
  split
  · trivial
  · refine Prog.Only.bind (Prog.Only.attempt ⟨⟨rfl, trivial⟩, fun x => Prog.only_ofExcept x⟩)
      fun res => ?_
    split <;> trivial

lemma only_computeLocal : (computeLocal env p).Only fun _ c => Allowed P moves c ∧ quietCall c :=
  Prog.Only.bind ⟨⟨rfl, trivial⟩, fun x => Prog.only_ofExcept x⟩ fun _ => trivial

lemma leaves_scanEntry (hI : Carried env P moves I) (hP : ∀ p k, P (localCreate p k))
    {e : Fs.LocalEntry} (h : Settled w.db) : Leaves env I (StartupScan.scanEntry env e) w := by
  unfold StartupScan.scanEntry
  split
  · exact h
  · refine Prog.Safe.bind (leaves_read rfl) (fun row w₁ ⟨hw₁, _, _⟩ => ?_) fun _ _ h' => h'.1 ▸ h
    subst hw₁
    split
    · cases row with
      | none => exact leaves_applyCreated hI hP h
      | some item => exact h
    · cases row with
      | none => exact leaves_applyCreated hI hP h
      | some item =>
        simp only
        split
        · exact h
        · refine Prog.Safe.bind (leaves_only hI only_computeLocal h) (fun print w₂ h₂ => ?_)
            fun _ _ h' => h'
          split
          · refine Prog.Safe.bind (leaves_only hI only_remoteMatchesSynced h₂)
              (fun same w₃ h₃ => ?_) fun _ _ h' => h'
            split
            · exact leaves_applyCreated hI hP h₃
            · exact h₃
          · exact h₂

lemma leaves_scanRow (hI : Carried env P moves I) {entries : List Fs.LocalEntry} {item : SyncItem}
    (h : Settled w.db) : Leaves env I (StartupScan.scanRow env entries item) w := by
  unfold StartupScan.scanRow
  split
  · refine Prog.Safe.bind (leaves_only hI only_remoteMatchesSynced h) (fun same w₁ h₁ => ?_)
      fun _ _ h' => h'
    split
    · exact leaves_applyDeleted hI h₁
    · exact h₁
  · exact h

/-- **The startup scan.** -/
lemma leaves_startupLocalScan (hI : Carried env P moves I) (hP : ∀ p k, P (localCreate p k))
    (h : Settled w.db) : Leaves env I (StartupScan.startupLocalScan env) w := by
  have hloop : ∀ {β : Type} (l : List β) (f : β → Task Unit),
      (∀ a w', Settled w'.db → Leaves env I (f a) w') → ∀ w', Settled w'.db →
        Leaves env I (.forEach l f) w' := fun l f hf w' hw' =>
    Prog.Safe.forEach (fun w' => Settled w'.db) hw' (fun a _ w₁ h₁ =>
      (hf a w₁ h₁).mono fun x _ h' => by cases x <;> exact h') fun _ h' => h'
  refine Prog.Safe.bind (leaves_look rfl) (fun entries w₁ ⟨hw₁, _⟩ => ?_) fun _ _ h' => h'.1 ▸ h
  subst hw₁
  refine Prog.Safe.bind (hloop entries _ (fun _ _ => leaves_scanEntry hI hP) _ h)
    (fun _ w₂ h₂ => ?_) fun _ _ h' => h'
  refine Prog.Safe.bind (leaves_read rfl) (fun rows w₃ ⟨hw₃, _, _⟩ => ?_) fun _ _ h' => h'.1 ▸ h₂
  subst hw₃
  exact hloop rows _ (fun _ _ => leaves_scanRow hI) _ h₂

/-! ### Remote changes -/

/-- The local file of a row has the content of the change, or that of the last sync. -/
def Calm (env : Env) (fs : Fs) (item : SyncItem) (md5 : String) : Prop :=
  ∀ bytes synced, item.md5 = some synced → fs.node item.relativePath = some (.file bytes) →
    env.md5 bytes = md5 ∨ env.md5 bytes = synced

variable {c : RemoteChange} {file : FileResource} {md5 : String} {item : SyncItem} {rel : RelPath}

/-- A calm file was not edited. -/
lemma leaves_localVersion (hcalm : Calm env w.fs item md5) :
    (localVersion env item md5).Safe (handle env) (.solo I)
      (fun x w' => w' = w ∧ x ≠ .ok .edited) w := by
  refine Prog.Safe.bind (leaves_look rfl) ?_ fun _ _ h' => ⟨h'.1, by simp⟩
  rintro isFile w₁ ⟨hw₁, _⟩
  subst hw₁
  split
  · cases hmd5 : item.md5 with
    | none => exact ⟨rfl, by simp⟩
    | some synced =>
      refine Prog.Safe.bind (leaves_look rfl) ?_
        fun _ _ h' => ⟨h'.1, by simp⟩
      rintro res w₂ ⟨hw₂, hres⟩
      subst hw₂
      obtain rfl := Except.ok.inj hres
      simp only [FsCall.run]
      cases hread : w₂.fs.readFile item.relativePath with
      | error e => exact ⟨rfl, by simp⟩
      | ok bytes =>
        have hnode : w₂.fs.node item.relativePath = some (.file bytes) := by
          unfold Fs.readFile at hread
          split at hread
          · next b hb => exact Except.ok.inj hread ▸ hb
          · cases hread
          · cases hread
        simp only
        split
        · exact ⟨rfl, by simp⟩
        · next hother =>
          split
          · next hedited =>
            exact absurd ((hcalm bytes synced hmd5 hnode).resolve_left hother) hedited
          · exact ⟨rfl, by simp⟩
  · exact ⟨rfl, by simp⟩

/-- A calm file at its path. -/
lemma leaves_applyEdited (hI : Carried env P moves I) (hcalm : Calm env w.fs item md5)
    (h : Settled w.db) : Leaves env I (applyEdited env item file md5) w := by
  unfold applyEdited
  split
  · exact h
  · refine Prog.Safe.bind (leaves_localVersion hcalm) (fun version w₁ ⟨hw₁, hversion⟩ => ?_)
      fun _ _ h' => h'.1 ▸ h
    subst hw₁
    cases version with
    | agrees => exact h
    | edited => exact absurd rfl hversion
    | behind => exact leaves_enqueueOp hI h.any

lemma leaves_applyMoved (hI : Carried env P moves I) (h : Settled w.db) :
    Leaves env I (applyMoved item file md5 rel) w := by
  have hdir : (renamedDir item file rel).Only fun _ c => Allowed P moves c ∧ quietCall c := by
    unfold renamedDir
    cases file.parents.head? with
    | none => trivial
    | some parentId =>
      simp only
      split
      · refine Prog.Only.bind ⟨⟨trivial, trivial⟩, fun _ => trivial⟩ fun row => ?_
        cases row with
        | none => trivial
        | some dir =>
          simp only
          split <;> trivial
      · trivial
  refine Prog.Safe.bind (leaves_only hI hdir h) (fun dir w₁ h₁ => ?_) fun _ _ h' => h'
  cases dir with
  | some dir => exact leaves_enqueueOp hI h₁.any
  | none =>
    refine Prog.Safe.bind (leaves_enqueueOp hI h₁.any) (fun _ w₂ h₂ => ?_) fun _ _ h' => h'
    split
    · exact h₂
    · exact leaves_enqueueOp hI h₂.any

/-- Rows that a change may insert. -/
structure Brings (P : NewSyncItem → Prop) (c : RemoteChange) (file : FileResource) : Prop where
  dir : P (remoteDir (c.path file) file.id)
  pointer : P (pointer (Shortcut.relativePath (c.path file) file.mimeType) file.id)
  file : ∀ md5, file.md5 = some md5 → P (remoteFile (c.path file) file md5)

lemma leaves_applyFolder (hI : Carried env P moves I) (hP : Brings P c file) (h : Settled w.db) :
    Leaves env I (applyFolder c.fileId file (c.path file)) w := by
  refine Prog.Safe.bind (leaves_read rfl) (fun row w₁ ⟨hw₁, _, _⟩ => ?_) fun _ _ h' => h'.1 ▸ h
  subst hw₁
  cases row with
  | some existing =>
    simp only
    split
    · exact leaves_enqueueOp hI h.any
    · exact h
  | none =>
    refine Prog.Safe.bind (leaves_read rfl) (fun row w₂ ⟨hw₂, _, _⟩ => ?_) fun _ _ h' => h'.1 ▸ h
    subst hw₂
    cases row with
    | some _ => exact h
    | none => exact leaves_record hI hP.dir (.inr rfl) h

lemma leaves_applyNative (hI : Carried env P moves I) (hP : Brings P c file) (h : Settled w.db) :
    Leaves env I (applyNative c.fileId file
      (Shortcut.relativePath (c.path file) file.mimeType)) w := by
  refine Prog.Safe.bind (leaves_read rfl) (fun row w₁ ⟨hw₁, _, _⟩ => ?_) fun _ _ h' => h'.1 ▸ h
  subst hw₁
  cases row with
  | none => exact leaves_record hI hP.pointer (.inl rfl) h
  | some existing =>
    simp only
    split
    · exact leaves_enqueueOp hI h.any
    · split
      · exact leaves_revive hI h
      · exact h

/-- **A live file** whose local copy is calm. -/
lemma leaves_applyFile (hI : Carried env P moves I) (hP : Brings P c file)
    (hmd5 : file.md5 = some md5) (hcalm : ∀ item ∈ w.db.items, item.remoteId = some c.fileId →
      Calm env w.fs item md5) (h : Settled w.db) :
    Leaves env I (applyFile env c file md5) w := by
  refine Prog.Safe.bind (leaves_read rfl) ?_ fun _ _ h' => h'.1 ▸ h
  rintro row w₁ ⟨hw₁, _, hx⟩
  subst hw₁
  obtain rfl := Except.ok.inj hx
  simp only [DbCall.run]
  cases hrow : w₁.db.items.getByRemoteId c.fileId with
  | none =>
    refine Prog.Safe.bind (leaves_read rfl) ?_ fun _ _ h' => h'.1 ▸ h
    rintro row w₂ ⟨hw₂, _, _⟩
    subst hw₂
    cases row with
    | some _ => exact h
    | none => exact leaves_record hI (hP.file md5 hmd5) (.inr rfl) h
  | some item =>
    obtain ⟨hmem, hbound⟩ := ItemTable.getByRemoteId_mem hrow
    have hedited := @leaves_applyEdited env P moves I w₁ file md5 item hI (hcalm item hmem hbound) h
    simp only
    split
    · exact leaves_revive hI h
    · cases c.relativePath with
      | none => exact hedited
      | some rel =>
        simp only
        split
        · exact leaves_applyMoved hI h
        · exact hedited

/-- **A remote change** of a calm file. -/
lemma leaves_applyRemote (hI : Carried env P moves I)
    (hP : ∀ file, c.file = some file → Brings P c file)
    (hcalm : I w → ∀ file md5, c.file = some file → file.md5 = some md5 → ∀ item ∈ w.db.items,
      item.remoteId = some c.fileId → Calm env w.fs item md5) (h : Settled w.db) :
    Leaves env I (applyRemote env c) w := by
  refine (Prog.safe_call_solo _ _).mpr fun hinv => ⟨hinv, ?_⟩
  replace hcalm := hcalm hinv
  simp only [handle_inFlight, Prog.pure_bind]
  split
  · exact h
  · split
    · refine Prog.Safe.bind (leaves_read rfl) ?_ fun _ _ h' => h'.1 ▸ h
      rintro row w₁ ⟨hw₁, _, _⟩
      subst hw₁
      cases row with
      | none => exact h
      | some item => exact leaves_enqueueOp hI h.any
    · cases hfile : c.file with
      | none => exact h
      | some file =>
        simp only [applyPresent]
        split
        · refine Prog.Safe.bind (leaves_read rfl) ?_
            fun _ _ h' => h'.1 ▸ h
          rintro row w₁ ⟨hw₁, _, _⟩
          subst hw₁
          cases row with
          | none => exact h
          | some item =>
            simp only
            split
            · exact leaves_enqueueOp hI h.any
            · exact h
        · split
          · exact leaves_applyFolder hI (hP file hfile) h
          · split
            · exact leaves_applyNative hI (hP file hfile) h
            · cases hmd5 : file.md5 with
              | none => exact h
              | some md5 =>
                exact leaves_applyFile hI (hP file hfile) hmd5 (hcalm file md5 hfile hmd5) h

end Handlers

/-! ## Batches -/

/-- A row bound to the object, with its path and its last-synced digest, is there or may be recorded
for a change of the batch. -/
inductive Found (db : Db) (b : RemoteBatch) (id : FileId) (p : RelPath) (synced : String) : Prop
  | row (r : SyncItem) (mem : r ∈ db.items) (bound : r.remoteId = some id)
      (path : r.relativePath = p) (print : r.md5 = some synced)
  | change (c : RemoteChange) (mem : c ∈ b.changes) (file : FileResource)
      (resource : c.file = some file) (object : file.id = id) (path : c.path file = p)
      (print : file.md5 = some synced)

/-- No change of the batch finds a local file whose content is neither that of the change nor that
of the last sync. -/
def Undisputed (env : Env) (w : World) (b : RemoteBatch) : Prop :=
  ∀ c ∈ b.changes, ∀ file md5, c.file = some file → file.md5 = some md5 → ∀ p synced,
    Found w.db b c.fileId p synced → ∀ bytes, w.fs.node p = some (.file bytes) →
      env.md5 bytes = md5 ∨ env.md5 bytes = synced

/-- What holds while a batch is handled: the local tree is as it was, and every row is one that may
be found. -/
structure Handling (w₀ : World) (b : RemoteBatch) (w : World) : Prop where
  peace : Peace w.db
  tree : w.fs = w₀.fs
  rows : ∀ r ∈ w.db.items, ∀ id synced, r.remoteId = some id → r.md5 = some synced →
    Found w₀.db b id r.relativePath synced

section Batches

variable {env : Env} {w₀ w : World} {b : RemoteBatch}

/-- Rows that may be found in a batch. -/
def Findable (w₀ : World) (b : RemoteBatch) (new : NewSyncItem) : Prop :=
  ∀ id synced, new.remoteId = some id → new.md5 = some synced →
    Found w₀.db b id new.relativePath synced

lemma peace_of_allowed {P : NewSyncItem → Prop} {moves : Prop} {β : Type} {c : Call β}
    (hc : Allowed P moves c) (h : Peace w.db) : Peace (handle env β c w).2.db := by
  cases c with
  | db c =>
    refine fun x hx => h x (DbCall.mem_conflicts_run ?_ hx)
    cases c <;> first | rfl | exact hc.elim
  | _ => exact h

lemma carried_peace (env : Env) : Carried env (fun _ => True) True fun w => Peace w.db :=
  fun hc h => peace_of_allowed hc h

lemma carried_handling (env : Env) (w₀ : World) (b : RemoteBatch) :
    Carried env (Findable w₀ b) False (Handling w₀ b) := by
  intro β c w hc h
  refine ⟨peace_of_allowed hc h.peace, ?_, ?_⟩
  · cases c with
    | fs c => exact (Kinds.still_handle env w hc).2.trans h.tree
    | _ => exact h.tree
  · cases c with
    | db c =>
      intro r hr id synced hid hmd5
      rcases DbCall.mem_items_run hr with ⟨s, hs, -, hchange⟩ | ⟨new, hnew, rfl⟩
      · have heq : r = s → Found w₀.db b id r.relativePath synced := fun heq =>
          h.rows r (heq ▸ hs) id synced hid hmd5
        cases c with
        | clearTrashed i =>
          rcases hchange with heq' | ⟨-, rfl⟩
          · exact heq heq'
          · exact h.rows s hs id synced hid hmd5
        | setRemoteId i rid => exact hc.elim
        | setRelativePath i rel => exact hc.elim
        | renameSubtree old new => exact hc.elim
        | updateFingerprint i size md5 => exact hc.elim
        | setState i state => exact hc.elim
        | markTrashed i at' => exact hc.elim
        | _ => exact heq hchange
      · cases c <;> cases hnew
        exact hc id synced hid hmd5
    | _ => exact h.rows

/-- What a change of the batch records may be found. -/
lemma brings_findable {c : RemoteChange} {file : FileResource} (hc : c ∈ b.changes)
    (hfile : c.file = some file) : Brings (Findable w₀ b) c file := by
  refine ⟨fun _ _ _ => nofun, fun _ _ _ => nofun, fun md5 hmd5 id synced hid hprint => ?_⟩
  obtain rfl := Option.some.inj hprint
  exact .change c hc file hfile (Option.some.inj hid) rfl hmd5

/-- **A batch** without a dispute leaves every pending row an operation, and opens no conflict. -/
lemma leaves_applyBatch (h : Settled w.db) (hcalm : Undisputed env w b) :
    (Consumer.applyBatch env b).Safe (handle env) (.solo (Handling w b))
      (fun _ w' => Settled w'.db) w := by
  refine Prog.Safe.bind (P := fun _ w' => Settled w'.db) (Prog.Safe.foldM
    (fun _ w' => Settled w'.db) h (fun c hc allApplied w₁ h₁ => ?_) fun _ _ h' => h')
    (fun allApplied w₁ h₁ => ?_) fun _ _ h' => h'
  · have hchange : Leaves env (Handling w b) (applyRemote env c) w₁ := by
      refine leaves_applyRemote (carried_handling env w b)
        (fun file hfile => brings_findable hc hfile) (fun hinv file md5 hfile hmd5 item hitem hid =>
          fun bytes synced hsynced hnode => ?_) h₁
      rw [hinv.tree] at hnode
      exact hcalm c hc file md5 hfile hmd5 _ synced (hinv.rows item hitem _ synced hid hsynced)
        bytes hnode
    refine Prog.Safe.bind (P := fun _ w' => Settled w'.db)
      (Prog.safe_attempt.mpr (hchange.mono fun _ _ h' => h')) (fun res w₂ h₂ => ?_) fun _ _ h' => h'
    cases res <;> exact h₂
  · split
    · exact leaves_only (q := sql (.setCursor b.newToken)) (carried_handling env w b)
        ⟨⟨trivial, trivial⟩, fun _ => trivial⟩ h₁
    · exact h₁

end Batches

/-! ## Operations and the other jobs -/

/-- The rows are settled and no conflict is open. -/
def Inv (w : World) : Prop := Settled w.db ∧ Peace w.db

/-- The operation settles the row that it belongs to, or removes it. -/
def Finishes (op : PendingOperation) (item : SyncItem) : Prop :=
  op.op = .createDirLocal ∨ op.op = .deleteRemote ∨ op.op = .deleteLocal ∨
    op.op = .renameRemote ∧ item.remoteId = none

/-- The operation may be taken from the queue: its row is not pending, or waits for another one. -/
structure Done (op : PendingOperation) (db : Db) : Prop where
  spared : Settling (· ≠ op.syncItemId) (· = op.id) db
  own : ∀ o ∈ db.ops, o.id = op.id → o.syncItemId = op.syncItemId

section Execution

variable {env : Env} {w : World} {op : PendingOperation} {item : SyncItem} {root : FileId}
  {α : Type}

/-- The quiet calls keep the invariant. -/
lemma inv_call {β : Type} {c : Call β} (hc : quietCall c) (h : Inv w) :
    Inv (handle env β c w).2 := by
  cases c with
  | db c => exact ⟨h.1.quiet hc, h.2.quiet hc⟩
  | _ => exact h

/-- A program of quiet calls keeps the invariant. -/
lemma inv_only {q : Task α} (hq : q.Only fun _ c => quietCall c) :
    q.Safe (handle env) (.solo Inv) Prog.Any w :=
  (hq.safe (J := fun _ => True) (fun _ _ _ hc hI _ => ⟨inv_call hc hI, trivial⟩) trivial).mono
    fun _ _ _ => trivial

lemma quiet_of_executing {β : Type} {c : Call β} (hc : Executing item c) : quietCall c := by
  cases c with
  | db c =>
    cases c with
    | insertItem new =>
      obtain ⟨rel, id, rfl⟩ := hc
      exact .inl rfl
    | setState i state => exact hc.2
    | getByRelativePath rel => trivial
    | setRemoteId i rid => trivial
    | setRelativePath i rel => trivial
    | renameSubtree old new => trivial
    | updateFingerprint i size md5 => trivial
    | deleteItem i => trivial
    | markTrashed i at' => trivial
    | _ => exact hc.elim
  | _ => trivial

/-- A statement that queues nothing leaves the operations to their rows. -/
lemma own_of_unqueued {β : Type} {c : DbCall β} {db : Db} (hc : c.enqueues = none)
    (h : ∀ o ∈ db.ops, o.id = op.id → o.syncItemId = op.syncItemId) :
    ∀ o ∈ (c.run db).2.ops, o.id = op.id → o.syncItemId = op.syncItemId := by
  intro o ho hid
  rcases DbCall.mem_ops_run ho with ⟨o', ho', hsame⟩ | ⟨hnew, -⟩
  · exact hsame.2.1 ▸ h o' ho' (hsame.1.trans hid)
  · rw [hc] at hnew
    cases hnew

lemma unqueued_of_executing {β : Type} {c : DbCall β} (hc : Executing item (.db c)) :
    c.enqueues = none := by
  cases c <;> first | rfl | exact hc.elim

/-- A quiet statement that queues nothing. -/
lemma Done.quiet {β : Type} {c : DbCall β} {db : Db} (h : Done op db) (hc : quiet c)
    (hnew : c.enqueues = none) : Done op (c.run db).2 :=
  ⟨h.spared.quiet hc, own_of_unqueued hnew h.own⟩

/-- The calls of an operation keep the invariant, and what belongs to the operation. -/
lemma exec_own (item : SyncItem) {q : Task α} (hq : q.Only fun _ c => Executing item c)
    (hown : ∀ o ∈ w.db.ops, o.id = op.id → o.syncItemId = op.syncItemId) :
    q.Safe (handle env) (.solo Inv)
      (fun _ w' => ∀ o ∈ w'.db.ops, o.id = op.id → o.syncItemId = op.syncItemId) w := by
  refine hq.safe (J := fun w' : World =>
    ∀ o ∈ w'.db.ops, o.id = op.id → o.syncItemId = op.syncItemId) (fun β c w' hc hI hJ =>
      ⟨inv_call (quiet_of_executing hc) hI, ?_⟩) hown
  cases c with
  | db c => exact own_of_unqueued (unqueued_of_executing hc) hJ
  | _ => exact hJ

/-- An operation on a row that is not pending, or not for the last time. -/
lemma exec_done {q : Task α} (hq : q.Only fun _ c => Executing item c) (h : Done op w.db) :
    q.Safe (handle env) (.solo Inv) (fun _ w' => Done op w'.db) w := by
  refine hq.safe (J := fun w' : World => Done op w'.db) (fun β c w' hc hI hJ =>
    ⟨inv_call (quiet_of_executing hc) hI, ?_⟩) h
  cases c with
  | db c => exact hJ.quiet (quiet_of_executing hc) (unqueued_of_executing hc)
  | _ => exact hJ

/-- The statements after which a row is not pending. -/
def closes (i : ItemId) : {β : Type} → DbCall β → Prop
  | _, .deleteItem j => j = i
  | _, .markTrashed j _ => j = i
  | _, .setState j state => j = i ∧ (state = .synced ∨ state = .skipped)
  | _, _ => False

/-- A closing statement leaves the row not pending. -/
lemma not_pending_of_closes {i : ItemId} {β : Type} {c : DbCall β} {db : Db} (hc : closes i c)
    {r : SyncItem} (hr : r ∈ (c.run db).2.items) (hid : r.id = i) : ¬Pending r := by
  cases c with
  | deleteItem j =>
    cases hc
    exact absurd hid (ItemTable.mem_delete.mp hr).2
  | markTrashed j at' =>
    cases hc
    simp only [DbCall.run, Db.items_withItems] at hr
    rcases ItemTable.mem_modify.mp hr with ⟨-, hne⟩ | ⟨s, -, -, rfl⟩
    · exact absurd hid hne
    · exact fun hpending => by cases hpending.1
  | setState j state =>
    obtain ⟨rfl, hstate⟩ := hc
    simp only [DbCall.run, Db.items_withItems] at hr
    rcases ItemTable.mem_modify.mp hr with ⟨-, hne⟩ | ⟨s, -, -, rfl⟩
    · exact absurd hid hne
    · intro hpending
      have hsame : state = .pendingLocal := hpending.2
      rcases hstate with rfl | rfl <;> cases hsame
  | _ => exact hc.elim

/-- An operation that ends with a closing statement. -/
lemma exec_close (item : SyncItem) {c : DbCall Unit} (hc : Executing item (.db c)) (hclose : closes op.syncItemId c)
    (hown : ∀ o ∈ w.db.ops, o.id = op.id → o.syncItemId = op.syncItemId) :
    (sql c).Safe (handle env) (.solo Inv) (fun _ w' => Done op w'.db) w := by
  have hquiet : quiet c := quiet_of_executing hc
  refine (safe_sql _).mpr fun hI => ⟨@inv_call env w Unit (.db c) hquiet hI,
    ⟨states_of_quiet hquiet hI.1.states, fun r hr hexcused hpending => ?_⟩,
    own_of_unqueued (unqueued_of_executing hc) hown⟩
  exact absurd hpending (not_pending_of_closes hclose hr (not_not.mp hexcused))

/-- The object may not be deleted: the row is removed or skipped. -/
lemma exec_deleteRefused {rid : FileId} (hid : item.id = op.syncItemId)
    (hown : ∀ o ∈ w.db.ops, o.id = op.id → o.syncItemId = op.syncItemId) :
    (deleteRefused item rid).Safe (handle env) (.solo Inv) (fun x w' => x = .ok () → Done op w'.db)
      w := by
  have hremove : (removeFromMyDrive rid).Only fun _ c => Executing item c := by
    refine executing_of_works ((works_request _).bind fun v => ?_)
    split
    · trivial
    · exact works_request _
  refine Prog.Safe.bind (exec_own item hremove.attempt hown) (fun res w₁ h₁ => ?_) fun _ _ _ => nofun
  cases res with
  | ok u =>
    simp only
    exact (exec_close item (c := .deleteItem item.id) rfl hid h₁).mono fun _ _ h _ => h
  | error e =>
    simp only
    exact (exec_close item (c := .setState item.id .skipped) ⟨rfl, .inr rfl⟩
      ⟨hid, .inr rfl⟩ h₁).mono fun _ _ h _ => h

/-- The operations that settle a row, or remove it. -/
lemma exec_finishes (hfin : Finishes op item) (hid : item.id = op.syncItemId)
    (hown : ∀ o ∈ w.db.ops, o.id = op.id → o.syncItemId = op.syncItemId) :
    (executeItem env root op item).Safe (handle env) (.solo Inv)
      (fun x w' => x = .ok () → Done op w'.db) w := by
  have hremoved : ∀ w', (∀ o ∈ w'.db.ops, o.id = op.id → o.syncItemId = op.syncItemId) →
      (sql (.deleteItem item.id)).Safe (handle env) (.solo Inv)
        (fun x w'' => x = .ok () → Done op w''.db) w' := fun w' h' =>
    (exec_close item (c := .deleteItem item.id) rfl hid h').mono fun _ _ h _ => h
  rcases hfin with hop | hop | hop | ⟨hop, hnone⟩ <;> simp only [executeItem, hop]
  · refine Prog.Safe.bind (exec_own item (executing_of_works (works_ioTry _)) hown) (fun _ w₁ h₁ => ?_)
      fun _ _ _ h => by cases h
    exact (exec_close item (c := .setState item.id .synced) ⟨rfl, .inl rfl⟩
      ⟨hid, .inl rfl⟩ h₁).mono fun _ _ h _ => h
  · unfold executeDeleteRemote
    cases item.remoteId with
    | none => exact hremoved w hown
    | some rid =>
      refine safe_withMark.mpr fun hI => ⟨hI, Prog.Safe.bind (exec_own item
        (executing_of_works works_deleteRemote).attempt hown) (fun res w₁ h₁ => ?_)
        fun _ _ _ hI' => ⟨hI', fun h => by cases h⟩⟩
      have hkept : ∀ {q : Task Unit}, q.Safe (handle env) (.solo Inv)
          (fun x w' => x = .ok () → Done op w'.db) w₁ →
          q.Safe (handle env) (.solo Inv) (fun x w' => Inv w' →
            Inv { w' with inFlight := w'.inFlight.erase rid } ∧
              (x = .ok () → Done op w'.db)) w₁ := fun hq => hq.mono fun _ _ h hI' => ⟨hI', h⟩
      cases res with
      | ok u => exact hkept (hremoved w₁ h₁)
      | error e =>
        simp only
        split
        · exact hkept (exec_deleteRefused hid h₁)
        · exact hkept (q := .fail e) fun h => by cases h
  · refine Prog.Safe.bind (exec_own item (executing_of_works works_removeLocal) hown)
      (fun _ w₁ h₁ => ?_) fun _ _ _ h => by cases h
    refine Prog.Safe.bind (exec_own item (Prog.only_ofExcept (P := fun _ c => Executing item c) _) h₁)
      (fun p w₂ h₂ => ?_) fun _ _ _ h => by cases h
    unfold forgetLocal
    split
    · refine Prog.Safe.bind (exec_own item ⟨trivial, fun _ => trivial⟩ h₂)
        (fun now w₃ h₃ => ?_) fun _ _ _ h => by cases h
      exact (exec_close item (c := .markTrashed item.id now) rfl hid h₃).mono
        fun _ _ h _ => h
    · exact hremoved w₂ h₂
  · refine Prog.Safe.bind (exec_own item (Prog.only_ofExcept (P := fun _ c => Executing item c) _) hown)
      (fun p w₁ h₁ => ?_) fun _ _ _ h => by cases h
    simp only [hnone]
    exact hremoved w₁ h₁

end Execution

/-! ### The drain loop -/

/-- The row of the operation that is executed waits for another one as well, or the operation
settles it. -/
def Spared (w : World) : Prop :=
  ∀ op item, Executes w op item → Pending item →
    Finishes op item ∨ ∃ o ∈ w.db.ops, o.id ≠ op.id ∧ o.syncItemId = item.id

section Drain

variable {env : Env} {w : World} {op : PendingOperation} {item : SyncItem} {root : FileId}

lemma failed_quiet (op : PendingOperation) (e : Error) :
    (failed op e).Only fun _ c => quietCall c := by
  unfold failed
  split
  · exact Prog.Only.bind ⟨trivial, fun _ => trivial⟩ fun _ =>
      Prog.Only.bind ⟨trivial, fun _ => trivial⟩ fun _ =>
        Prog.Only.bind ⟨trivial, fun _ => trivial⟩ fun _ => trivial
  · refine Prog.Only.bind (Prog.Only.bind ⟨trivial, fun _ => trivial⟩ fun _ => trivial) fun _ => ?_
    exact Prog.Only.bind ⟨trivial, fun _ => trivial⟩ fun _ =>
      Prog.Only.bind ⟨trivial, fun _ => trivial⟩ fun _ => trivial

/-- Taking an operation from the queue that may be taken. -/
lemma safe_deleteOp (h : Done op w.db) :
    (sql (.deleteOp op.id)).Safe (handle env) (.solo Inv) Prog.Any w := by
  refine (safe_sql _).mpr fun hI => ⟨⟨Settling.deleteOp hI.1 h.spared h.own, fun x hx => ?_⟩,
    trivial⟩
  exact hI.2 x (DbCall.mem_conflicts_run (c := .deleteOp op.id) rfl hx)

/-- **The books of an operation** that may be taken from the queue. -/
lemma safe_completed (h : Done op w.db) :
    (completed op).Safe (handle env) (.solo Inv) Prog.Any w := by
  have hbook : ∀ {β : Type} (c : DbCall β) {q : Task Unit}, quiet c → c.enqueues = none →
      (∀ w', Done op w'.db → q.Safe (handle env) (.solo Inv) Prog.Any w') → ∀ w', Done op w'.db →
        ((sql c).bind fun _ => q).Safe (handle env) (.solo Inv) Prog.Any w' :=
    fun c q hc hnew hq w' hw' => Prog.safe_bind.mpr ((safe_sql _).mpr fun hI =>
      ⟨@inv_call env w' _ (.db c) hc hI, hq _ (hw'.quiet hc hnew)⟩)
  have hrest := hbook .clearIfTransient (q := sql (.deleteOp op.id)) trivial rfl
    fun _ hw' => safe_deleteOp hw'
  unfold completed
  split
  · refine Prog.safe_bind.mpr (safe_unixNow.mpr fun hI => ⟨hI, ?_⟩)
    exact hbook (.recordSyncCycle w.now (cycleDelta op.op).1 (cycleDelta op.op).2) trivial rfl
      hrest w h
  · exact hrest w h

/-- What belongs to the operation that is executed. -/
lemma own_of_mem {db : Db} (hop : op ∈ db.ops) :
    ∀ o ∈ db.ops, o.id = op.id → o.syncItemId = op.syncItemId := fun _ ho hid =>
  congrArg PendingOperation.syncItemId (db.ops.key_inj ho hop hid)

/-- **An operation** after which its row waits for another one, or is not pending. -/
lemma safe_executeItem (hspared : Spared w) (hI : Inv w) (hexec : Executes w op item) :
    (executeItem env root op item).Safe (handle env) (.solo Inv)
      (fun x w' => x = .ok () → Done op w'.db) w := by
  obtain ⟨hmem, hid⟩ := ItemTable.getById_eq_some.mp hexec.row
  have hown := own_of_mem (OpTable.nextDue_mem hexec.next).1
  by_cases hfin : Finishes op item
  · exact exec_finishes hfin hid hown
  · refine (exec_done (executing_executeItem env root op item)
      ⟨⟨hI.1.states, fun r hr hexcused hpending => ?_⟩, hown⟩).mono fun _ _ h _ => h
    have hr' : r = item := w.db.items.id_inj hr hmem ((not_not.mp hexcused).trans hid.symm)
    exact hr' ▸ (hspared op item hexec (hr' ▸ hpending)).resolve_left hfin

/-- **The drain loop.** -/
lemma safe_drainOne (hspared : Spared w) :
    (drainOne env root).Safe (handle env) (.solo Inv) Prog.Any w := by
  refine Prog.safe_bind.mpr (safe_unixNow.mpr fun hI => ⟨hI, ?_⟩)
  refine Prog.safe_bind.mpr ((safe_sql _).mpr fun _ => ⟨hI, ?_⟩)
  simp only [DbCall.run]
  cases hnext : OpTable.nextDue w.db.ops w.now with
  | none => trivial
  | some op =>
    simp only
    split
    · exact inv_only (q := (sql (.markAttempt op.id parkedForever)).bind fun _ => .pure true)
        ⟨trivial, fun _ => trivial⟩
    · next hleft =>
      refine Prog.Safe.bind (P := fun x w' => x = .ok (.ok ()) → Done op w'.db)
        (Prog.safe_attempt.mpr ?_) (fun res w' hdone => ?_) fun _ _ _ => trivial
      · refine Prog.safe_bind.mpr ((safe_sql _).mpr fun _ => ⟨hI, ?_⟩)
        simp only [DbCall.run]
        cases hrow : w.db.items.getById op.syncItemId with
        | none => exact fun h => by cases h
        | some item =>
          exact (safe_executeItem hspared hI ⟨hnext, not_le.mp hleft, hrow⟩).mono
            fun x _ h hx => h (Except.ok.inj hx)
      · cases res with
        | ok u =>
          exact Prog.Safe.bind (safe_completed (hdone rfl)) (fun _ _ _ => Prog.safe_pure _ |>.mpr
            trivial) fun _ _ _ => trivial
        | error e => exact inv_only (failed_quiet op e)

end Drain

/-! ### Jobs -/

section Jobs

variable {env : Env} {w : World} {j : Job} {calls : ℕ}

/-- Rows that need no operation. -/
def Idle (new : NewSyncItem) : Prop := new.state = .synced ∨ new.state = .skipped

lemma quiet_of_records {β : Type} {c : Call β} (hc : Records Idle c) : quietCall c := by
  cases c with
  | db c => cases c <;> first | exact hc | exact hc.elim
  | _ => trivial

lemma quiet_of_background {β : Type} {c : Call β} (hc : background c = true) : quietCall c := by
  cases c with
  | db c => cases c <;> trivial
  | _ => trivial

/-- A job whose result is dropped. -/
lemma safe_void {α : Type} {q : Task α} (hq : q.Safe (handle env) (.solo Inv) Prog.Any w) :
    (void q).Safe (handle env) (.solo Inv) Prog.Any w :=
  Prog.Safe.bind hq (fun _ _ _ => trivial) fun _ _ _ => trivial

end Jobs

/-- A step after which no row is left pending: events, scans and batches are worked off to their
end, no change of a batch finds a disputed local file, and the row of an operation that is executed
waits for another one as well unless the operation settles it. -/
def Meets (env : Env) (w : World) : Action → Prop
  | .job j@(.event _) calls => (j.task env).calls (handle env) w ≤ calls
  | .job .scan calls => (Job.scan.task env).calls (handle env) w ≤ calls
  | .job j@(.batch b) calls => (j.task env).calls (handle env) w ≤ calls ∧ Undisputed env w b
  | .job (.drain _) _ => Spared w
  | _ => True

/-- **One step** keeps the rows settled. -/
lemma inv_perform {env : Env} {w : World} {a : Action} (h : Inv w) (hmeets : Meets env w a) :
    Inv (a.perform env w) := by
  have hwhole : ∀ {q : Task Unit} {I : World → Prop} {calls : ℕ}, q.calls (handle env) w ≤ calls →
      (∀ w', I w' → Peace w'.db) → I w → Leaves env I q w → Inv (q.cut (handle env) calls w) := by
    intro q I calls hcalls hpeace hI hq
    rw [Prog.cut_of_le _ _ _ _ hcalls]
    obtain ⟨hI', hsettled⟩ := hq.run hI
    exact ⟨hsettled, hpeace _ hI'⟩
  cases a with
  | outside w' => exact h
  | job j calls =>
    cases j with
    | event ev =>
      exact hwhole hmeets (fun _ => id) h.2
        (leaves_applyLocal (carried_peace env) (fun _ _ => trivial) trivial h.1)
    | scan =>
      exact hwhole hmeets (fun _ => id) h.2
        (leaves_startupLocalScan (carried_peace env) (fun _ _ => trivial) h.1)
    | batch b =>
      refine hwhole hmeets.1 (fun _ h' => h'.peace) ⟨h.2, rfl, fun r hr id synced hid hmd5 => ?_⟩
        (leaves_applyBatch h.1 hmeets.2)
      exact .row r hr hid rfl hmd5
    | drain root => exact (safe_void (safe_drainOne hmeets)).cut h calls
    | poll fuel root cache =>
      exact (safe_void (inv_only (background_tick.mono fun _ _ => quiet_of_background))).cut h calls
    | initial fuel root =>
      exact (inv_only ((records_initial (fun _ _ => .inl rfl) (fun _ _ => .inr rfl)
        fun _ _ _ _ _ => .inl rfl).mono fun _ _ => quiet_of_records)).cut h calls
    | housekeeping =>
      exact (inv_only (q := Start.housekeeping) ⟨trivial, fun _ => ⟨trivial, fun _ => trivial⟩⟩).cut
        h calls
    | ensureRoot mayCreate m =>
      exact (safe_void (inv_only (background_ensureRemoteRoot.mono
        fun _ _ => quiet_of_background))).cut h calls
    | map autoCreate confirmed localPath spec =>
      exact (inv_only (background_map.mono fun _ _ => quiet_of_background)).cut h calls

/-- Nothing is recorded before the first start. -/
lemma inv_fresh (d : Drive) : Inv (World.fresh d) :=
  ⟨⟨fun r hr => absurd hr (ItemTable.not_mem_empty r), fun r hr =>
    absurd hr (ItemTable.not_mem_empty r)⟩, fun c hc => absurd hc (Data.Serial.not_mem_empty c)⟩

lemma inv_of_runs {env : Env} {d : Drive} {w : World}
    (h : Runs env (Meets env) (World.fresh d) w) : Inv w := by
  induction h with
  | start => exact inv_fresh d
  | step _ hmeets ih => exact inv_perform ih hmeets

/-- **The emblems tell the truth at rest** in runs whose steps leave no row pending, for every path
without a backslash. -/
theorem truthful_at_rest (env : Env) (d : Drive) (w : World)
    (h : Runs env (Meets env) (World.fresh d) w) (hrest : ∀ o, o ∉ w.db.ops) :
    ∀ r ∈ w.db.items, r.relativePath ≠ [] → r.relativePath.Plain → Truthful w.db r :=
  fun _ hr hne hplain => truthful_of_settled (inv_of_runs h).1 (inv_of_runs h).2 hrest hr hne hplain

/-- The folder `d` arrives. -/
def folderSteps : List Action :=
  [.job (.batch ⟨[⟨.id 3, false, some ⟨.id 3, "d", folderMime, none, none, [.id 2], false⟩,
    some ["d"]⟩], 1⟩) 100, .job (.drain (.id 2)) 100]

/-- `d` has arrived: its emblem tells the truth. -/
theorem folder_truthful :
    ∃ r ∈ (performAll .plain folderSteps (World.fresh sampleNested)).db.items,
      r.relativePath = ["d"] ∧
        Truthful (performAll .plain folderSteps (World.fresh sampleNested)).db r := by
  obtain ⟨r, hr, hpath⟩ : ∃ r ∈ (performAll .plain folderSteps
      (World.fresh sampleNested)).db.items.rows, r.relativePath = ["d"] := by
    decide +kernel
  replace hr := ItemTable.mem_rows.mp hr
  refine ⟨r, hr, hpath, truthful_at_rest .plain sampleNested _
    (@Runs.performAll _ _ _ _ folderSteps .start ⟨⟨by decide +kernel, ?_⟩, ?_, trivial⟩) ?_ r hr
    (by simp [hpath]) (by rw [hpath]; decide)⟩
  · intro c hc file md5 hfile hmd5
    obtain rfl := List.mem_singleton.mp hc
    obtain rfl := Option.some.inj hfile
    cases hmd5
  · intro op item hexec _
    have hop : (OpTable.nextDue (performAll .plain (folderSteps.take 1)
        (World.fresh sampleNested)).db.ops 0).map PendingOperation.op = some .createDirLocal := by
      decide +kernel
    exact .inl (.inl (Option.some.inj
      ((congrArg (Option.map PendingOperation.op) hexec.next).symm.trans hop)))
  · have hempty : (performAll .plain folderSteps
        (World.fresh sampleNested)).db.ops.table.rows = [] := by decide +kernel
    intro o ho
    rw [Data.Serial.mem_def, hempty] at ho
    cases ho

/-- At rest after the arrival of `a.txt` its emblem is the one of a pending file. -/
theorem arrived_pending :
    ¬∀ (env : Env) (d : Drive) (w : World), Runs env (fun _ _ => True) (World.fresh d) w →
      (∀ o, o ∉ w.db.ops) → ∀ r ∈ w.db.items, r.relativePath ≠ [] → Truthful w.db r := by
  intro h
  have hrun : Runs .plain (fun _ _ => True) (World.fresh (sampleDrive [65])) sampleSynced :=
    @Runs.performAll _ _ _ _ [_, _] .start ⟨trivial, trivial, trivial⟩
  have hempty : sampleSynced.db.ops.table.rows = [] := by decide +kernel
  obtain ⟨r, hr, hpath, hlive, hstate⟩ : ∃ r ∈ sampleSynced.db.items.rows,
      r.relativePath = ["a.txt"] ∧ r.trashedAt = none ∧ r.state = .pendingLocal := by
    decide +kernel
  replace hr := ItemTable.mem_rows.mp hr
  have hne : r.relativePath ≠ [] := by simp [hpath]
  have htruth := h _ _ _ hrun (fun o ho => by
    rw [Data.Serial.mem_def, hempty] at ho
    cases ho) r hr hne
  have hnone : sampleSynced.db.conflicts.table.rows = [] := by decide +kernel
  have hside : ¬Side sampleSynced.db r.relativePath := by
    rintro ⟨c, hc, -⟩
    rw [Data.Serial.mem_def, hnone] at hc
    cases hc
  have htoken := htruth.synced hside (by simp [hstate]) hlive
  rw [statusToken_of_row hr hne (by rw [hpath]; decide), hstate] at htoken
  cases htoken

end AirDrive.Emblems
