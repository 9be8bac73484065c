import Mathlib.Data.Fintype.Defs
import AirDrive.System.Footprint

set_option relaxedAutoImplicit false
set_option autoImplicit false

/-!
# Folders are removed after their children

The deletion of a directory tree arrives as one event for each entry, in any order, and each event
becomes an operation of its own. The queue orders them by due time. A folder is removed from Drive
after everything below it when its removal is enqueued last, and when nothing changes that order
afterwards: a failed attempt moves the removal of an entry, and other statements can bring a row
below a folder whose removal is queued.

## Main definitions

* `AirDrive.ChildrenFirst.Ordered` — the removals of the rows below a folder are due before
  the removal of the folder.
* `AirDrive.ChildrenFirst.keepsFirst` — the condition on a statement: it does not break that order.
* `AirDrive.ChildrenFirst.Taken` — the world with the operation that was taken last.
* `AirDrive.ChildrenFirst.removesBare` — nothing below the folder that is removed is still on Drive.
* `AirDrive.ChildrenFirst.Runs` — the dispatcher and any number of other tasks, call by call.

## Main results

* `AirDrive.ChildrenFirst.ordered_run` — what a statement that meets the condition keeps.
* `AirDrive.ChildrenFirst.bare_nextDue` — the removal that is taken is that of a bare folder.
* `AirDrive.ChildrenFirst.folders_removed_last` — every interleaving.
-/

namespace AirDrive.ChildrenFirst

open Effect Dispatcher

variable {env : Env} {db : Db}

/-! ## Order -/

/-- The row is live and has a Drive object. -/
def tracked (r : SyncItem) : Bool := r.trashedAt = none && r.remoteId ≠ none

/-- The operation removes the object of the row. -/
def removes (o : PendingOperation) (r : SyncItem) : Bool :=
  o.op = .deleteRemote && o.syncItemId = r.id

/-- The row is that of a directory above the other row. -/
def above (d r : SyncItem) : Bool := d.kind = .dir && d.relativePath.below r.relativePath

/-- The operation comes before the other one in the order of `next_due`. -/
def before (a b : PendingOperation) : Bool :=
  a.nextAttemptAt < b.nextAttemptAt ∨ (a.nextAttemptAt = b.nextAttemptAt ∧ a.id < b.id)

/-- The live rows below a folder whose removal is queued have removals that come first. -/
def Ordered (db : Db) : Prop :=
  ∀ o ∈ db.ops, ∀ d ∈ db.items, removes o d = true → ∀ r ∈ db.items, tracked r = true →
    above d r = true → ∃ o' ∈ db.ops, removes o' r = true ∧ before o' o = true

/-- The operation with a new due time, if it is the one that is postponed. -/
def postponed (id : OpId) (next : ℕ) (o : PendingOperation) : PendingOperation :=
  if o.id = id then { o with nextAttemptAt := next } else o

/-- A statement brings no tracked row below a folder whose removal is queued: all that are there
afterwards were there before. -/
def bringsNone (db db' : Db) : Bool :=
  decide (∀ d' ∈ db'.items.rows, (∃ o ∈ OpTable.rows db.ops, removes o d' = true) →
    ∀ r' ∈ db'.items.rows, tracked r' = true → above d' r' = true →
      ∃ d ∈ db.items.rows, ∃ r ∈ db.items.rows, d.id = d'.id ∧ r.id = r'.id ∧ tracked r = true ∧
        above d r = true)

/-- What a statement does to the order of the removals: the removal of a folder is enqueued after
those of the tracked rows below it, a new due time leaves the order as it is, the removal of a
tracked row is not dropped while that of a folder above it is queued, and no tracked row gets
below such a folder. -/
def keepsFirst {β : Type} (db : Db) : DbCall β → Bool
  | .enqueue item .deleteRemote _ now =>
    decide (∀ d ∈ db.items.rows, d.id = item → ∀ r ∈ db.items.rows, tracked r = true →
      above d r = true →
        ∃ o ∈ OpTable.rows db.ops, removes o r = true ∧ o.nextAttemptAt ≤ now)
  | .markAttempt id next =>
    decide (∀ o ∈ OpTable.rows db.ops, ∀ d ∈ db.items.rows, removes o d = true →
      ∀ o' ∈ OpTable.rows db.ops, ∀ r ∈ db.items.rows, removes o' r = true → tracked r = true →
        above d r = true → before o' o = true →
          before (postponed id next o') (postponed id next o) = true)
  | .deleteOp id =>
    decide (∀ o' ∈ OpTable.rows db.ops, o'.id = id → ∀ r ∈ db.items.rows, removes o' r = true →
      tracked r = true → ∀ d ∈ db.items.rows, above d r = true →
        ∀ o ∈ OpTable.rows db.ops, removes o d = false)
  | c => bringsNone db (c.run db).2

lemma tracked_iff {r : SyncItem} : tracked r = true ↔ r.trashedAt = none ∧ r.remoteId ≠ none := by
  simp [tracked]

lemma removes_iff {o : PendingOperation} {r : SyncItem} :
    removes o r = true ↔ o.op = .deleteRemote ∧ o.syncItemId = r.id := by
  simp [removes]

lemma before_iff {a b : PendingOperation} : before a b = true ↔
    a.nextAttemptAt < b.nextAttemptAt ∨ a.nextAttemptAt = b.nextAttemptAt ∧ a.id < b.id := by
  simp [before]

/-- An operation of the same work removes the same objects. -/
lemma removes_of_sameWork {o o' : PendingOperation} {r s : SyncItem} (h : DbCall.SameWork o o')
    (hid : r.id = s.id) : removes o r = removes o' s := by
  obtain ⟨-, hitem, hop, -⟩ := h
  simp [removes, hitem, hop, hid]

/-- A new due time leaves the rest of the operation alone. -/
lemma postponed_sameWork (id : OpId) (next : ℕ) (o : PendingOperation) :
    DbCall.SameWork o (postponed id next o) := by
  unfold postponed
  split_ifs <;> exact ⟨rfl, rfl, rfl, rfl⟩

/-- The operations after an attempt are those from before it, one of them with a new due time. -/
lemma mem_ops_markAttempt {id : OpId} {next : ℕ} {a : PendingOperation} :
    a ∈ (DbCall.run (.markAttempt id next) db).2.ops ↔ ∃ o ∈ db.ops,
      a = { postponed id next o with
        attempts := if o.id = id then o.attempts + 1 else o.attempts } := by
  simp only [DbCall.run, Db.modifyOp, postponed]
  rw [Data.Serial.mem_modify]
  constructor
  · rintro (⟨ha, hne⟩ | ⟨o, ho, hid, rfl⟩)
    · exact ⟨a, ha, by simp [hne]⟩
    · exact ⟨o, ho, by simp [hid]⟩
  · rintro ⟨o, ho, rfl⟩
    by_cases hid : o.id = id
    · exact .inr ⟨o, ho, hid, by simp [hid]⟩
    · exact .inl ⟨by simpa [hid] using ho, by simp [hid]⟩

/-- A statement that does not concern the queue and brings no row below a folder whose removal is
queued. -/
lemma ordered_of_bringsNone {β : Type} {c : DbCall β} (hqueue : c.queues = false)
    (h : Ordered db) (hnone : bringsNone db (c.run db).2 = true) :
    Ordered (c.run db).2 := by
  intro o ho d' hd' hremoves r' hr' htracked habove
  obtain ⟨ho₀, -⟩ := (DbCall.mem_ops_run_iff hqueue).mp ho
  obtain ⟨d, hd, r, hr, hdid, hrid, htracked₀, habove₀⟩ :=
    of_decide_eq_true hnone d' hd' ⟨o, ho₀, hremoves⟩ r' hr' htracked habove
  obtain ⟨o', ho', hremoves', hbefore⟩ := h o ho₀ d hd
    ((removes_of_sameWork (.refl o) hdid).trans hremoves) r hr htracked₀ habove₀
  have hitem : o'.syncItemId = r.id := (removes_iff.mp hremoves').2
  refine ⟨o', (DbCall.mem_ops_run_iff hqueue).mpr ⟨ho', r', hr', hrid.symm.trans hitem.symm⟩, ?_,
    hbefore⟩
  exact (removes_of_sameWork (.refl o') hrid.symm).trans hremoves'

/-- **A statement that meets the condition** keeps the order.

**Proof sketch.** A new removal of a folder comes last, since its id is the largest. An operation
whose due time is moved keeps its place as the condition says, and one that is dropped was not
needed. All other statements leave the queue to the rows. -/
theorem ordered_run {β : Type} {c : DbCall β} (h : Ordered db)
    (hmeets : keepsFirst db c = true) : Ordered (c.run db).2 := by
  cases hqueue : c.queues with
  | false =>
    refine ordered_of_bringsNone hqueue h ?_
    cases c <;> first | exact hmeets | cases hqueue
  | true =>
    intro o ho d hd hremoves r hr htracked habove
    rw [DbCall.items_run_of_queues hqueue] at hd hr
    cases c with
    | enqueue item op payload now =>
      by_cases hrow : ∃ r ∈ db.items, r.id = item
      · obtain ⟨-, hmem⟩ := Db.enqueue_of_row op payload now hrow
        rcases (hmem o).mp ho with ho | rfl
        · obtain ⟨o', ho', hfirst⟩ := h o ho d hd hremoves r hr htracked habove
          exact ⟨o', (hmem o').mpr (.inl ho'), hfirst⟩
        · obtain ⟨rfl, rfl⟩ : op = .deleteRemote ∧ item = d.id := removes_iff.mp hremoves
          obtain ⟨o', ho', hremoves', hdue⟩ :=
            of_decide_eq_true hmeets d hd rfl r hr htracked habove
          refine ⟨o', (hmem o').mpr (.inl ho'), hremoves', before_iff.mpr ?_⟩
          exact hdue.lt_or_eq.imp id fun hsame => ⟨hsame, db.ops.key_lt ho'⟩
      · rw [DbCall.run, Db.enqueue, dif_neg hrow] at ho ⊢
        exact h o ho d hd hremoves r hr htracked habove
    | markAttempt id next =>
      obtain ⟨o₀, ho₀, rfl⟩ := mem_ops_markAttempt.mp ho
      have hremoves₀ : removes o₀ d = true :=
        (removes_of_sameWork (postponed_sameWork id next o₀) rfl).trans hremoves
      obtain ⟨o', ho', hremoves', hbefore⟩ := h o₀ ho₀ d hd hremoves₀ r hr htracked habove
      refine ⟨_, mem_ops_markAttempt.mpr ⟨o', ho', rfl⟩, ?_, ?_⟩
      · exact (removes_of_sameWork (postponed_sameWork id next o') rfl).symm.trans hremoves'
      · exact of_decide_eq_true hmeets o₀ ho₀ d hd hremoves₀ o' ho' r hr hremoves' htracked habove
          hbefore
    | deleteOp id =>
      obtain ⟨ho₀, -⟩ := Data.Serial.mem_keep.mp ho
      obtain ⟨o', ho', hremoves', hbefore⟩ := h o ho₀ d hd hremoves r hr htracked habove
      refine ⟨o', Data.Serial.mem_keep.mpr ⟨ho', ?_⟩, hremoves', hbefore⟩
      by_contra hid
      have hid' : o'.id = id := by simpa using hid
      have hnot := of_decide_eq_true hmeets o' ho' hid' r hr hremoves' htracked d hd habove o ho₀
      exact absurd hremoves (by simp [hnot])
    | _ => cases hqueue

/-! ## The folder that is removed -/

/-- No tracked row is below the row that the operation removes. -/
def Bare (db : Db) (op : PendingOperation) : Prop :=
  ∀ d ∈ db.items, removes op d = true → ∀ r ∈ db.items, tracked r = true → above d r = false

/-- The operation is queued as long as its row is there. -/
def Queued (db : Db) (op : PendingOperation) : Prop :=
  ∀ d ∈ db.items, d.id = op.syncItemId → ∃ o ∈ db.ops, DbCall.SameWork op o

/-- **The removal that is due next** is that of a bare folder: the removal of a tracked row below
would be due as well, and come first. -/
lemma bare_nextDue {now : ℕ} {op : PendingOperation} (h : Ordered db)
    (hnext : OpTable.nextDue db.ops now = some op) : Bare db op := by
  intro d hd hremoves r hr htracked
  by_contra habove
  obtain ⟨hmem, hdue⟩ := OpTable.nextDue_mem hnext
  obtain ⟨o', ho', -, hbefore⟩ :=
    h op hmem d hd hremoves r hr htracked (by simpa using habove)
  have horder := before_iff.mp hbefore
  have hle : o'.nextAttemptAt ≤ op.nextAttemptAt := horder.elim le_of_lt fun h => h.1.le
  rcases OpTable.nextDue_le hnext ho' (hle.trans hdue) with hlt | ⟨hsame, hid⟩
  · exact absurd hle (not_le.mpr hlt)
  · rcases horder with hlt | ⟨-, hid'⟩
    · exact absurd hlt (not_lt.mpr hsame.le)
    · exact absurd hid' (not_lt.mpr hid)

/-- A folder stays bare under statements that meet the condition, as long as its removal is
queued. -/
lemma Bare.run {β : Type} {c : DbCall β} {op : PendingOperation} (h : Bare db op)
    (hqueued : Queued db op) (hold : op.syncItemId < db.items.nextId)
    (hmeets : keepsFirst db c = true) : Bare (c.run db).2 op := by
  intro d' hd' hremoves r' hr' htracked
  cases hqueue : c.queues with
  | true =>
    rw [DbCall.items_run_of_queues hqueue] at hd' hr'
    exact h d' hd' hremoves r' hr' htracked
  | false =>
    by_contra habove
    have hitem : op.syncItemId = d'.id := (removes_iff.mp hremoves).2
    have hthere : ∃ d ∈ db.items, d.id = d'.id := by
      rcases DbCall.mem_items_run hd' with ⟨d, hd, hid, -⟩ | ⟨new, -, rfl⟩
      · exact ⟨d, hd, hid⟩
      · exact absurd hitem hold.ne
    obtain ⟨d₀, hd₀, hid₀⟩ := hthere
    obtain ⟨o, ho, hsame⟩ := hqueued d₀ hd₀ (hid₀.trans hitem.symm)
    have hnone : bringsNone db (c.run db).2 = true := by
      cases c <;> first | exact hmeets | cases hqueue
    obtain ⟨d, hd, r, hr, hdid, -, htracked₀, habove₀⟩ := of_decide_eq_true hnone d' hd'
      ⟨o, ho, (removes_of_sameWork hsame rfl).symm.trans hremoves⟩ r' hr' htracked
      (by simpa using habove)
    have hremoves₀ : removes op d = true := (removes_of_sameWork (.refl op) hdid).trans hremoves
    exact absurd habove₀ (by simp [h d hd hremoves₀ r hr htracked₀])

/-- An operation stays queued under statements that take none from the queue. -/
lemma Queued.run {β : Type} {c : DbCall β} {op : PendingOperation} (h : Queued db op)
    (hold : op.syncItemId < db.items.nextId) (hkeep : c.deletes = none) :
    Queued (c.run db).2 op := by
  intro d' hd' hid
  have hthere : ∃ d ∈ db.items, d.id = d'.id := by
    rcases DbCall.mem_items_run hd' with ⟨d, hd, hdid, -⟩ | ⟨new, -, rfl⟩
    · exact ⟨d, hd, hdid⟩
    · exact absurd hid hold.ne'
  obtain ⟨d, hd, hdid⟩ := hthere
  obtain ⟨o, ho, hsame⟩ := h d hd (hdid.trans hid)
  obtain ⟨o', ho', hsame'⟩ := DbCall.ops_stay ho ⟨d', hd', hid.trans hsame.2.1⟩ (hkeep ▸ nofun)
  exact ⟨o', ho', hsame.trans hsame'⟩

/-! ## The calls of the tasks -/

/-- The calls other than taking an operation and ending it. -/
def steady : {β : Type} → Call β → Bool
  | _, .db (.nextDue _) => false
  | _, .db (.deleteOp _) => false
  | _, _ => true

/-- The calls other than taking an operation, ending it and removing an object from Drive. -/
def apart : {β : Type} → Call β → Bool
  | _, .db (.nextDue _) => false
  | _, .db (.deleteOp _) => false
  | _, .drive (.trash _) => false
  | _, .drive (.deleteFile _) => false
  | _, _ => true

/-- A program that makes only such calls. -/
def Apart {α : Type} (p : Task α) : Prop := p.Only fun _ c => apart c = true

section Apart

variable {α β : Type}

lemma Apart.bind {p : Task α} {f : α → Task β} (hp : Apart p) (hf : ∀ a, Apart (f a)) :
    Apart (p.bind f) := Prog.Only.bind hp hf

lemma Apart.attempt {p : Task α} (hp : Apart p) : Apart p.attempt := Prog.Only.attempt hp

lemma apart_ofExcept (x : Except Error α) : Apart (.ofExcept x : Task α) := Prog.only_ofExcept x

lemma apart_sql {c : DbCall α} (hc : apart (.db c) = true) : Apart (sql c) := ⟨hc, fun _ => trivial⟩

lemma apart_sqlTry {c : DbCall (Except Error α)} (hc : apart (.db c) = true) :
    Apart (sqlTry c) := ⟨hc, fun _ => apart_ofExcept _⟩

lemma apart_io (c : FsCall α) : Apart (io c) := ⟨rfl, fun _ => trivial⟩

lemma apart_ioTry (c : FsCall (Except Error α)) : Apart (ioTry c) :=
  ⟨rfl, fun _ => apart_ofExcept _⟩

lemma apart_request {c : DriveCall α} (hc : apart (.drive c) = true) : Apart (request c) :=
  ⟨hc, fun _ => apart_ofExcept _⟩

lemma apart_unixNow : Apart unixNow := ⟨rfl, fun _ => trivial⟩

lemma Apart.withMark {id : FileId} {body : Task α} (h : Apart body) : Apart (withMark id body) := by
  have hmark : Apart (.lift (.mark id) : Task Unit) := ⟨rfl, fun _ => trivial⟩
  have hunmark : Apart (.lift (.unmark id) : Task Unit) := ⟨rfl, fun _ => trivial⟩
  exact hmark.bind fun _ => h.attempt.bind fun x => hunmark.bind fun _ => apart_ofExcept x

end Apart

section Operations

variable {root rid parent : FileId} {item : SyncItem} {rel : RelPath} {name : String}
  {payload : Option Payload}

lemma apart_ensureRemoteFolder : Apart (ensureRemoteFolder root rel) := by
  suffices hsegments : ∀ (segments : List String) (current : FileId) (cumulative : RelPath),
      Apart (ensureSegments current cumulative segments) from hsegments _ _ _
  intro segments
  induction segments with
  | nil => exact fun _ _ => trivial
  | cons seg rest ih =>
    intro current cumulative
    have hchild : Apart (childFolder current seg) := by
      refine (apart_request rfl).bind fun children => ?_
      split
      · trivial
      · exact Apart.bind (apart_request rfl) fun _ => trivial
    have hpersist : ∀ id, Apart (persistDir (cumulative ++ [seg]) id) := by
      intro id
      refine (apart_sql rfl).bind fun row => ?_
      cases row with
      | none => exact (apart_sqlTry rfl).bind fun _ => trivial
      | some existing =>
        simp only
        split
        · exact apart_sql rfl
        · trivial
    exact hchild.bind fun next => (hpersist next).bind fun _ => ih _ _

lemma apart_computeLocal : Apart (computeLocal env rel) := (apart_ioTry _).bind fun _ => trivial

lemma apart_executeUpload : Apart (executeUpload env root item) := by
  refine (apart_io _).bind fun isFile => ?_
  split
  · refine apart_computeLocal.bind fun print => ?_
    simp only
    split
    · trivial
    · cases item.remoteId with
      | some rid =>
        refine Apart.withMark (Apart.bind ?_ fun _ => apart_sql rfl)
        exact (apart_ioTry _).bind fun _ => apart_request rfl
      | none =>
        refine apart_ensureRemoteFolder.bind fun parent => Apart.bind ?_ fun rf => ?_
        · exact (apart_ioTry _).bind fun _ => apart_request rfl
        · exact Apart.withMark ((apart_sql rfl).bind fun _ => apart_sql rfl)
  · trivial

lemma apart_executeDownload : Apart (executeDownload env item payload) := by
  have hfetch : ∀ rid rel, Apart (Engine.download rid rel) := fun _ _ =>
    (apart_request rfl).bind fun _ => (apart_ioTry _).bind fun _ => apart_ioTry _
  refine (apart_ofExcept _).bind fun dl => (apart_ioTry _).bind fun _ => (hfetch _ _).bind fun _ =>
    apart_computeLocal.bind fun print => (apart_sql rfl).bind fun _ => ?_
  split
  · exact apart_sql rfl
  · trivial

lemma apart_executeDeleteLocal : Apart (executeDeleteLocal item payload) := by
  have hremove : Apart (removeLocal item) := by
    unfold removeLocal
    split <;>
    · refine (apart_io _).bind fun res => ?_
      cases res with
      | ok u => trivial
      | error e =>
        simp only
        split <;> trivial
  refine hremove.bind fun _ => (apart_ofExcept _).bind fun p => ?_
  unfold forgetLocal
  split
  · exact apart_unixNow.bind fun _ => apart_sql rfl
  · exact apart_sql rfl

lemma apart_executeRenameRemote : Apart (executeRenameRemote root item payload) := by
  refine (apart_ofExcept _).bind fun p => ?_
  cases item.remoteId with
  | none => exact apart_sql rfl
  | some rid =>
    refine apart_ensureRemoteFolder.bind fun parent => Apart.withMark ?_
    refine Apart.bind ((apart_request rfl).bind fun _ => apart_request rfl) fun _ => ?_
    split <;> exact apart_sql rfl

lemma apart_executeRenameLocal : Apart (executeRenameLocal item payload) := by
  refine (apart_ofExcept _).bind fun p => (apart_ioTry _).bind fun _ => ?_
  refine Apart.bind ?_ fun _ => apart_sql rfl
  refine (apart_io _).bind fun res => ?_
  cases res with
  | ok u => trivial
  | error e =>
    simp only
    split
    · trivial
    · split
      · exact apart_ioTry _
      · trivial

/-- **Only a removal** removes an object from Drive. -/
lemma apart_executeItem {op : PendingOperation} (hop : op.op ≠ .deleteRemote) :
    Apart (executeItem env root op item) := by
  unfold executeItem
  split
  · exact apart_executeUpload
  · exact apart_executeDownload
  · next h => exact absurd h hop
  · exact apart_executeDeleteLocal
  · exact apart_ensureRemoteFolder.bind fun _ => trivial
  · exact (apart_ioTry _).bind fun _ => apart_sql rfl
  · exact (apart_ofExcept _).bind fun _ => (apart_ioTry _).bind fun _ => apart_ioTry _
  · exact apart_executeRenameRemote
  · exact apart_executeRenameLocal
  · trivial

end Operations

/-- The calls of the handlers are apart. -/
lemma apart_of_handled {α : Type} {p : Task α} (h : Handled (fun _ => True) p) : Apart p := by
  refine h.handling.mono fun β c hc => ?_
  cases c with
  | db c => cases c <;> first | rfl | cases hc
  | drive c => cases c <;> first | rfl | cases hc
  | _ => rfl

lemma apart_of_background {α : Type} {p : Task α}
    (h : p.Only fun _ c => Calls.background c = true) : Apart p := by
  refine h.mono fun β c hc => ?_
  cases c with
  | db c => cases c <;> first | rfl | cases hc
  | drive c => cases c <;> first | rfl | cases hc
  | _ => rfl

lemma apart_initial {fuel : ℕ} {root : FileId} : Apart (Initial.initial env fuel root) := by
  have hrecords : (Initial.initial env fuel root).Only fun _ c => Calls.Records (fun _ => True) c :=
    Calls.records_initial (fun _ _ => trivial) (fun _ _ => trivial) fun _ _ _ _ _ => trivial
  refine hrecords.mono fun β c hc => ?_
  cases c with
  | db c => cases c <;> first | rfl | exact hc.elim
  | drive c => cases c <;> first | rfl | cases hc
  | _ => rfl

/-- **No other task** takes an operation, ends one, or removes an object from Drive. -/
theorem apart_task {j : Job} (hj : ∀ root, j ≠ .drain root) : Apart (j.task env) := by
  cases j with
  | event ev => exact apart_of_handled (handled_applyLocal trivial trivial trivial trivial)
  | batch b =>
    exact apart_of_handled (handled_applyBatch trivial trivial trivial trivial trivial trivial)
  | drain root => exact absurd rfl (hj root)
  | poll fuel root cache => exact (apart_of_background Calls.background_tick).bind fun _ => trivial
  | scan => exact apart_of_handled (handled_startupLocalScan trivial trivial trivial)
  | initial fuel root => exact apart_initial
  | housekeeping => exact apart_unixNow.bind fun _ => apart_sql rfl
  | ensureRoot mayCreate m =>
    exact (apart_of_background Calls.background_ensureRemoteRoot).bind fun _ => trivial
  | map autoCreate confirmed localPath spec => exact apart_of_background Calls.background_map

/-! ## The calls, watched -/

/-- The world, and the operation that was taken for execution last. -/
structure Taken where
  /-- The world. -/
  world : World
  /-- The answer of the last `next_due`. -/
  op : Option PendingOperation

/-- The operation taken last, after a call with its answer. -/
def takes : {β : Type} → Call β → β → Option PendingOperation → Option PendingOperation
  | _, .db (.nextDue _), answer, _ => answer
  | _, _, _, op => op

/-- The calls of the daemon, with the operation taken last. -/
def track (env : Env) : Handler Call Taken := fun β c t =>
  ((handle env β c t.world).1,
    ⟨(handle env β c t.world).2, takes c (handle env β c t.world).1 t.op⟩)

/-- The row is live and its object is on Drive, outside the trash. -/
def holdsObject (w : World) (r : SyncItem) : Bool :=
  r.trashedAt = none && match r.remoteId with
    | some rid => (w.remote.drive.file rid).any fun f => !f.trashed
    | none => false

/-- The removal that was taken last is under way, and no live row below its folder has an object
left on Drive. -/
def removesBare (t : Taken) : Bool :=
  t.op.any fun op => op.op = .deleteRemote &&
    decide (∀ d ∈ t.world.db.items.rows, removes op d = true →
      ∀ r ∈ t.world.db.items.rows, above d r = true → holdsObject t.world r = false)

/-- A statement keeps the order of the removals. -/
def meets : ∀ β, Call β → Taken → Bool
  | _, .db c, t => keepsFirst t.world.db c
  | _, _, _ => true

/-- A request that removes an object does so for a bare folder, or for a file. -/
def keeps : ∀ β, Call β → Taken → Bool
  | _, .drive (.trash _), t => removesBare t
  | _, .drive (.deleteFile _), t => removesBare t
  | _, _, _ => true

/-- The calls of the daemon, watched for the condition and for the removals. -/
abbrev observe (env : Env) : Handler Call (Watched Taken) := watch (track env) meets keeps

/-- As long as the condition is met, the removals are in order and every folder that was removed
was bare. -/
def Inv (s : Watched Taken) : Prop :=
  s.met = true → Ordered s.state.world.db ∧ s.kept = true

/-- What the dispatcher knows of the operation that it executes. -/
structure Holds (op : PendingOperation) (s : Watched Taken) : Prop where
  current : s.state.op = some op
  old : op.syncItemId < s.state.world.db.items.nextId
  queued : Queued s.state.world.db op
  bare : s.met = true → Bare s.state.world.db op

lemma tracked_of_holdsObject {w : World} {r : SyncItem} (h : holdsObject w r = true) :
    tracked r = true := by
  simp only [holdsObject, Bool.and_eq_true, decide_eq_true_eq] at h
  refine tracked_iff.mpr ⟨h.1, fun hnone => ?_⟩
  simp [hnone] at h

/-- **A removal** that the dispatcher knows to be in order is that of a bare folder. -/
lemma Holds.removesBare {op : PendingOperation} {s : Watched Taken} (h : Holds op s)
    (hop : op.op = .deleteRemote) (hmet : s.met = true) : removesBare s.state = true := by
  simp only [ChildrenFirst.removesBare, h.current, Option.any_some, hop, decide_true,
    Bool.true_and, decide_eq_true_eq]
  intro d hd hremoves r hr habove
  by_contra hholds
  have htracked : tracked r = true := tracked_of_holdsObject (by simpa using hholds)
  exact absurd habove (by simp [h.bare hmet d hd hremoves r hr htracked])

/-- **A call keeps the invariant** when it removes nothing but a bare folder or a file. -/
lemma inv_call {β : Type} {c : Call β} {s : Watched Taken} (h : Inv s)
    (hkeeps : s.met = true → keeps β c s.state = true) : Inv (observe env β c s).2 := by
  intro hmet
  obtain ⟨hmet₀, hmeets⟩ := Bool.and_eq_true_iff.mp hmet
  obtain ⟨hord, hkept⟩ := h hmet₀
  refine ⟨?_, Bool.and_eq_true_iff.mpr ⟨hkept, hkeeps hmet₀⟩⟩
  cases c with
  | db c => exact ordered_run hord hmeets
  | _ => exact hord

/-- A call that is apart neither removes an object nor touches what the dispatcher knows. -/
lemma keeps_of_apart {β : Type} {c : Call β} (hc : apart c = true) (t : Taken) :
    keeps β c t = true := by
  cases c with
  | drive c => cases c <;> first | rfl | cases hc
  | _ => rfl

lemma steady_of_apart {β : Type} {c : Call β} (hc : apart c = true) : steady c = true := by
  cases c with
  | db c => cases c <;> first | rfl | cases hc
  | _ => rfl

/-- The dispatcher's knowledge stays true under calls that neither take an operation nor end
one. -/
lemma Holds.call {β : Type} {c : Call β} {op : PendingOperation} {s : Watched Taken}
    (h : Holds op s) (hc : steady c = true) : Holds op (observe env β c s).2 := by
  cases c with
  | db c =>
    refine ⟨?_, h.old.trans_le (DbCall.nextId_le_run c _), h.queued.run h.old ?_, fun hmet => ?_⟩
    · cases c <;> first | exact h.current | cases hc
    · cases c <;> first | rfl | cases hc
    · obtain ⟨hmet₀, hmeets⟩ := Bool.and_eq_true_iff.mp hmet
      exact (h.bare hmet₀).run h.queued h.old hmeets
  | _ => exact ⟨h.current, h.old, h.queued, fun hmet => h.bare (Bool.and_eq_true_iff.mp hmet).1⟩

/-! ## The tasks -/

/-- What a thread relies on: the dispatcher keeps its knowledge of the operation that it executes,
the other tasks need nothing. -/
def rely : Option ℕ → Watched Taken → Watched Taken → Prop
  | none, s, s' => ∀ op, Holds op s → Holds op s'
  | some _, _, _ => True

/-- A program of the dispatcher that removes nothing. -/
lemma safe_ending {α : Type} {p : Task α} {s : Watched Taken}
    (hp : p.Only fun β c => ∀ t, keeps β c t = true) :
    p.Safe (observe env) (.thread Inv rely none) Prog.Any s := by
  refine (hp.safe_rely (J := fun _ => True) (fun β c s hc hI _ => ⟨inv_call hI fun _ => hc _, ?_,
    trivial⟩) (fun _ _ _ _ => trivial) trivial).mono fun _ _ _ => trivial
  rintro (_ | n) hne
  · exact absurd rfl hne
  · trivial

/-- **An operation** that the dispatcher has taken: it keeps the terms, and the dispatcher's
knowledge. -/
lemma safe_executeItem {root : FileId} {op : PendingOperation} {item : SyncItem}
    {s : Watched Taken} (h : Holds op s) :
    (executeItem env root op item).Safe (observe env) (.thread Inv rely none)
      (fun _ s => Holds op s) s := by
  have hexec : (executeItem env root op item).Only fun β c =>
      steady c = true ∧ (op.op = .deleteRemote ∨ apart c = true) := by
    by_cases hop : op.op = .deleteRemote
    · refine (Calls.executing_executeItem env root op item).mono fun β c hc => ⟨?_, .inl hop⟩
      cases c with
      | db c => cases c <;> first | rfl | exact hc.elim
      | _ => rfl
    · exact (apart_executeItem hop).mono fun β c hc => ⟨steady_of_apart hc, .inr hc⟩
  refine hexec.safe_rely (fun β c s hc hI hJ => ⟨inv_call hI fun hmet => ?_, ?_, hJ.call hc.1⟩)
    (fun s s' hs hJ => hs op hJ) h
  · rcases hc.2 with hop | hapart
    · cases c with
      | drive c => cases c <;> first | rfl | exact hJ.removesBare hop hmet
      | _ => rfl
    · exact keeps_of_apart hapart _
  · rintro (_ | n) hne
    · exact absurd rfl hne
    · trivial

/-- The execution of the operation that was taken. -/
lemma safe_execute {root : FileId} {op : PendingOperation} {s : Watched Taken} (h : Holds op s) :
    (execute env root op).Safe (observe env) (.thread Inv rely none) Prog.Any s := by
  simp only [execute, sql, Prog.lift, Prog.bind_eq, Prog.call_bind, Prog.pure_bind]
  intro s' hs hI
  refine ⟨inv_call hI fun _ => rfl, ?_, ?_⟩
  · rintro (_ | n) hne
    · exact absurd rfl hne
    · trivial
  · have hafter := @Holds.call env _ (.db (.getById op.syncItemId)) op s' (hs op h) rfl
    cases (observe env _ (.db (.getById op.syncItemId)) s').1 with
    | some item => exact (safe_executeItem hafter).mono fun _ _ _ => trivial
    | none => trivial

lemma ending_completed {op : PendingOperation} :
    (completed op).Only fun β c => ∀ t, keeps β c t = true := by
  have hsql : ∀ {α : Type} (c : DbCall α), (sql c).Only fun β c => ∀ t, keeps β c t = true :=
    fun c => ⟨fun _ => rfl, fun _ => trivial⟩
  have hend : (do
      let _ ← sql .clearIfTransient
      sql (.deleteOp op.id) : Task Unit).Only fun β c => ∀ t, keeps β c t = true :=
    (hsql _).bind fun _ => hsql _
  unfold completed
  split
  · refine Prog.Only.bind ⟨fun _ => rfl, fun _ => trivial⟩ fun now => ?_
    exact (hsql _).bind fun _ => hend
  · exact hend

lemma ending_failed {op : PendingOperation} {e : Error} :
    (failed op e).Only fun β c => ∀ t, keeps β c t = true := by
  have hsql : ∀ {α : Type} (c : DbCall α), (sql c).Only fun β c => ∀ t, keeps β c t = true :=
    fun c => ⟨fun _ => rfl, fun _ => trivial⟩
  have hnow : unixNow.Only fun β c => ∀ t, keeps β c t = true := ⟨fun _ => rfl, fun _ => trivial⟩
  unfold failed
  split
  · exact (hsql _).bind fun _ => hnow.bind fun _ => (hsql _).bind fun _ => trivial
  · refine Prog.Only.bind ⟨fun _ => rfl, fun _ => trivial⟩ fun delay => ?_
    exact hnow.bind fun _ => (hsql _).bind fun _ => trivial

/-- **An iteration of the drain loop** keeps the terms.

**Proof sketch.** The answer of `next_due` is the removal of a bare folder, or no removal of a
folder, since the removals are in order. The other tasks neither end it nor bring a row below the
folder, so that it is still bare when the object is removed. -/
lemma safe_drainOne {root : FileId} {s : Watched Taken} :
    (void (drainOne env root)).Safe (observe env) (.thread Inv rely none) Prog.Any s := by
  have hguar : ∀ s s' : Watched Taken, ∀ j, j ≠ none → rely j s s' := by
    rintro s s' (_ | n) hne
    · exact absurd rfl hne
    · trivial
  simp only [void, drainOne, unixNow, sql, Prog.lift, Prog.bind_eq, Prog.call_bind, Prog.pure_bind]
  intro s₁ _ hI₁
  refine ⟨inv_call hI₁ fun _ => rfl, hguar _ _, ?_⟩
  intro s₂ _ hI₂
  refine ⟨inv_call hI₂ fun _ => rfl, hguar _ _, ?_⟩
  simp only [observe, watch, track, handle_clock, handle_db, DbCall.run]
  cases hnext : OpTable.nextDue s₂.state.world.db.ops s₁.state.world.now with
  | none => trivial
  | some op =>
    obtain ⟨hmem, -⟩ := OpTable.nextDue_mem hnext
    obtain ⟨r, hr, hid⟩ := s₂.state.world.db.ops_owned op hmem
    refine Prog.Safe.bind (P := Prog.Any) ?_ (fun _ _ _ => trivial) fun _ _ _ => trivial
    simp only
    split_ifs
    · exact safe_ending ⟨fun _ => rfl, fun _ => trivial⟩
    · refine Prog.Safe.bind (P := Prog.Any) (Prog.safe_attempt.mpr ?_) (fun x _ _ => ?_)
        fun _ _ _ => trivial
      · refine Prog.Safe.mono (safe_execute ⟨rfl, hid ▸ ItemTable.id_lt hr, ?_, ?_⟩)
          fun _ _ _ => trivial
        · exact fun _ _ _ => ⟨op, hmem, .refl op⟩
        · exact fun hmet => bare_nextDue (hI₂ (Bool.and_eq_true_iff.mp hmet).1).1 hnext
      · cases x with
        | ok u => exact safe_ending (ending_completed.bind fun _ => trivial)
        | error e => exact safe_ending ending_failed

/-- A task that is apart keeps the terms. -/
lemma safe_task {j : Job} {n : ℕ} {s : Watched Taken} (hj : ∀ root, j ≠ .drain root) :
    (j.task env).Safe (observe env) (.thread Inv rely (some n)) Prog.Any s := by
  refine (Prog.Only.safe_rely (apart_task hj) (J := fun _ => True) (fun β c s hc hI _ =>
    ⟨inv_call hI fun _ => keeps_of_apart hc _, ?_, trivial⟩) (fun _ _ _ _ => trivial)
    trivial).mono fun _ _ _ => trivial
  rintro (_ | m) -
  · exact fun op hop => hop.call (steady_of_apart hc)
  · trivial

/-! ## Every interleaving -/

/-- The tasks of the daemon: the dispatcher, and any number of others. -/
def job (env : Env) : Option ℕ → Watched Taken → Task Unit → Prop
  | none, _, p => ∃ root, p = void (drainOne env root)
  | some _, _, p => ∃ j, (∀ root, j ≠ Job.drain root) ∧ p = j.task env

/-- Everything but the database can change from outside: files, Drive, the connection, the
clock. -/
def outside (s s' : Watched Taken) : Prop :=
  ∃ w : World, s' = { s with state := ⟨{ w with db := s.state.world.db }, s.state.op⟩ }

/-- The runs of the daemon from a state, call by call: the dispatcher and the other tasks, with
changes from outside and crashes at any point. -/
abbrev Runs (env : Env) (w₀ : World) :=
  Reaches (observe env) (job env) outside ⟨⟨⟨w₀, none⟩, true, true⟩, fun _ => .pure ()⟩

/-- **Folders are removed after their children** in every run whose calls all meet the condition:
the removal of a folder is enqueued when everything below it has a removal that is due, no attempt
changes the order of the two, no removal below is given up before, and no row gets below a folder
whose removal is queued.

**Proof sketch.** The interleaving rule, for the invariant that the removals are in order while the
condition is met. The dispatcher relies on the others to leave the operation that it executes in
the queue, which keeps other rows from below its folder. -/
theorem folders_removed_last {w₀ : World} (h₀ : Ordered w₀.db)
    {c : Config Call Error (Option ℕ) (Watched Taken)} (hc : Runs env w₀ c)
    (hmet : c.shared.met = true) : c.shared.kept = true := by
  have hsafe : c.SafeEach (observe env) Inv rely := by
    refine hc.invariant_each ⟨fun _ => ⟨h₀, rfl⟩, fun _ => (Prog.safe_pure ()).mpr trivial⟩
      (fun i s => ?_) (fun i a b c hab hbc => ?_) (fun i s p _ hp => ?_) fun s s' hs hout => ?_
    · cases i with
      | none => exact fun _ => id
      | some n => trivial
    · cases i with
      | none => exact fun op hop => hbc op (hab op hop)
      | some n => trivial
    · cases i with
      | none =>
        obtain ⟨root, rfl⟩ := hp
        exact safe_drainOne
      | some n =>
        obtain ⟨j, hj, rfl⟩ := hp
        exact safe_task hj
    · obtain ⟨w, rfl⟩ := hout
      refine ⟨hs, fun i => ?_⟩
      cases i with
      | none => exact fun op hop => ⟨hop.current, hop.old, hop.queued, hop.bare⟩
      | some n => trivial
  exact (hsafe.1 hmet).2

/-! ## The two orders of the events -/

/-- The folder `d` with the file `d/a.txt` has arrived; then the user removes it. -/
def treeRemoved : World := byUser (.removeDirAll ["d"]) sampleArrived

/-- The deletions of two paths are handled in turn, and the dispatcher takes two operations. -/
def flushed (p q : RelPath) : Watched Taken :=
  let handled := fun p s => (((Job.event (.deleted p)).task .plain).run (observe .plain) s).2
  let drained := fun s => ((void (drainOne .plain (.id 2))).run (observe .plain) s).2
  drained (drained (handled q (handled p ⟨⟨treeRemoved, none⟩, true, true⟩)))

lemma ordered_treeRemoved : Ordered treeRemoved.db := by
  have hempty : treeRemoved.db.ops.table.rows = [] := by decide +kernel
  intro o ho
  rw [Data.Serial.mem_def, hempty] at ho
  simp at ho

/-- Both orders of the events are runs of the daemon. -/
lemma runs_flushed (p q : RelPath) : ∃ t, Runs .plain treeRemoved ⟨flushed p q, t⟩ := by
  obtain ⟨t₁, hfirst, hidle₁, hothers₁⟩ := Reaches.run_job (i := some 0)
    (.refl : Runs .plain treeRemoved _) (.inl ⟨(), rfl⟩) ⟨.event (.deleted p), by simp, rfl⟩
  obtain ⟨t₂, hsecond, -, hothers₂⟩ := Reaches.run_job (i := some 0) hfirst hidle₁
    ⟨.event (.deleted q), by simp, rfl⟩
  have hidle : t₂ none = .pure () := (hothers₂ none (by simp)).trans (hothers₁ none (by simp))
  obtain ⟨t₃, hdrain, hidle₃, -⟩ := Reaches.run_job (i := none) hsecond (.inl ⟨(), hidle⟩)
    ⟨.id 2, rfl⟩
  obtain ⟨t₄, hlast, -, -⟩ := Reaches.run_job (i := none) hdrain hidle₃ ⟨.id 2, rfl⟩
  exact ⟨t₄, hlast⟩

/-- The event of the folder is flushed before that of its file: the folder is removed from Drive
while the row of the file is live and its object is there. -/
theorem folder_removed_first : ¬∀ (c : Config Call Error (Option ℕ) (Watched Taken)),
    Runs .plain treeRemoved c → c.shared.kept = true := by
  intro h
  obtain ⟨t, hruns⟩ := runs_flushed ["d"] ["d", "a.txt"]
  have hbroken : (flushed ["d"] ["d", "a.txt"]).kept = false := by decide +kernel
  exact absurd (h _ hruns) (by simp [hbroken])

/-- The event of the file is flushed first: both are removed, the folder last. -/
theorem folder_removed_after_file :
    (flushed ["d", "a.txt"] ["d"]).met = true ∧ (flushed ["d", "a.txt"] ["d"]).kept = true ∧
      (flushed ["d", "a.txt"] ["d"]).state.world.db.items.rows = [] := by
  obtain ⟨t, hruns⟩ := runs_flushed ["d", "a.txt"] ["d"]
  have hmet : (flushed ["d", "a.txt"] ["d"]).met = true := by decide +kernel
  have hrows : (flushed ["d", "a.txt"] ["d"]).state.world.db.items.rows = [] := by decide +kernel
  exact ⟨hmet, folders_removed_last ordered_treeRemoved hruns hmet, hrows⟩

end AirDrive.ChildrenFirst
