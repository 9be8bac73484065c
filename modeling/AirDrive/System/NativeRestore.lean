import AirDrive.Local.Merge
import AirDrive.System.FileRename
import AirDrive.System.Restore

set_option relaxedAutoImplicit false
set_option autoImplicit false

/-!
# Trash and restore of a native document

Trash, untrash, rename and move changes of one native document, interleaved with the dispatcher. A
change to another path queues a rename of the pointer file, whatever the row is; a change to the
path of a tombstone restores it. So a document that is renamed while it is in the trash comes back
as a tombstone, and a change that arrives while a deletion or a rename is still queued may be lost.

## Main definitions

* `AirDrive.NativeRestore.Document` — a native document and its row.
* `AirDrive.NativeRestore.Headed` — where the queued renames leave the row.
* `AirDrive.NativeRestore.Step`, `AirDrive.NativeRestore.Runs` — deliveries, steps of the dispatcher
  and what happens elsewhere.
* `AirDrive.NativeRestore.InOrder` — the condition on these steps.
* `AirDrive.NativeRestore.Settled` — the row is live at a path, and the pointer file is only there.

## Main results

* `AirDrive.NativeRestore.Inv.deliver`, `AirDrive.NativeRestore.Inv.drain` — the invariant of the
  steps.
* `AirDrive.NativeRestore.pointer_settles` — once the queue has drained, the pointer file is where
  the last delivered change says.
-/

namespace AirDrive.NativeRestore

open Effect

/-- A native document and the row of its pointer file. -/
structure Document where
  /-- The row. -/
  row : SyncItem
  /-- The document on Drive. -/
  id : FileId
  /-- Its format. -/
  mime : String
  /-- The row is that of a file. -/
  kind : row.kind = .file
  /-- The pointer file is never uploaded. -/
  skipped : row.state = .skipped
  /-- The row is bound to the document. -/
  bound : row.remoteId = some id
  /-- The format is a native one. -/
  native : Shortcut.isNative mime = true

variable {env : Env}

namespace Document

variable (d : Document)

/-- The row, at a path, live or as a tombstone. -/
def rowAt (path : RelPath) (at' : Option ℕ) : SyncItem :=
  { d.row with relativePath := path, trashedAt := at' }

/-- The pointer file is at a path. -/
def PointerAt (fs : Fs) (q : RelPath) : Prop :=
  fs.node q = some (.file (Shortcut.bytes (Shortcut.content d.mime d.id)))

/-- A change of the document, in the trash or not. -/
structure Describes (change : RemoteChange) (file : FileResource) : Prop where
  id : change.fileId = d.id ∧ file.id = d.id
  present : change.removed = false ∧ change.file = some file
  mime : file.mimeType = d.mime

/-- Where a change puts the pointer file. -/
def dest (change : RemoteChange) (file : FileResource) : RelPath :=
  Shortcut.relativePath (change.path file) d.mime

/-- What a change says: the pointer file belongs at a path, or nowhere. -/
def placed (change : RemoteChange) (file : FileResource) : Option RelPath :=
  if file.trashed then none else some (d.dest change file)

/-- The deletion of the pointer file that a trash queues. -/
def IsDelete (o : PendingOperation) : Prop :=
  o.syncItemId = d.row.id ∧ o.op = .deleteLocal ∧ o.payload = some (.deleteLocal ⟨true⟩)

/-- The write of the pointer file that a restore queues. -/
def IsWrite (o : PendingOperation) : Prop :=
  o.syncItemId = d.row.id ∧ o.op = .writeShortcut ∧
    o.payload = some (.shortcut ⟨Shortcut.content d.mime d.id⟩)

/-- The rename that a change to another path queues. -/
def IsRename (o : PendingOperation) (new : RelPath) : Prop :=
  o.syncItemId = d.row.id ∧ o.op = .renameLocal ∧ o.payload = some (.rename ⟨new⟩)

end Document

variable {d : Document} {w w' : World} {path new rel : RelPath} {at' : Option ℕ}

/-! ## Where the renames lead -/

/-- The queued renames, in the order in which they were queued, leave the row at `rel`. -/
def Headed (d : Document) (w : World) (path rel : RelPath) : Prop :=
  ((∀ o ∈ w.db.ops, ∀ q, ¬d.IsRename o q) ∧ path = rel) ∨
    ∃ o ∈ w.db.ops, d.IsRename o rel ∧ ∀ o' ∈ w.db.ops, ∀ q, d.IsRename o' q → o'.id ≤ o.id

/-- A rename is not executed after one that was queued later: the youngest of the other renames is
younger, or leads to the same path. -/
def KeepsCourse (d : Document) (w : World) (op : PendingOperation) (new : RelPath) : Prop :=
  ∀ o ∈ w.db.ops, ∀ q, d.IsRename o q → o.id ≠ op.id →
    (∀ o' ∈ w.db.ops, ∀ q', d.IsRename o' q' → o'.id ≠ op.id → o'.id ≤ o.id) →
      op.id < o.id ∨ q = new

lemma isRename_inj {o : PendingOperation} (h : d.IsRename o path) (h' : d.IsRename o new) :
    path = new := by
  have hpayload := h.2.2.symm.trans h'.2.2
  simpa using hpayload

/-- The queue is changed only in what is no rename. -/
lemma Headed.of_renames (h : Headed d w path rel)
    (hsame : ∀ o q, d.IsRename o q → (o ∈ w'.db.ops ↔ o ∈ w.db.ops)) : Headed d w' path rel := by
  rcases h with ⟨hnone, hpath⟩ | ⟨o, ho, hren, hmax⟩
  · exact .inl ⟨fun o ho q hq => hnone o ((hsame o q hq).mp ho) q hq, hpath⟩
  · exact .inr ⟨o, (hsame o rel hren).mpr ho, hren,
      fun o' ho' q hq => hmax o' ((hsame o' q hq).mp ho') q hq⟩

/-- A queued rename is the last one. -/
lemma headed_queued (hrow : ∃ r ∈ w.db.items, r.id = d.row.id) :
    Headed d (Continuous.queued w d.row.id .renameLocal (some (.rename ⟨rel⟩))) path rel := by
  refine .inr ⟨_, (Continuous.mem_queued hrow).mpr (.inr rfl), ⟨rfl, rfl, rfl⟩,
    fun o ho _ _ => ?_⟩
  rcases (Continuous.mem_queued hrow).mp ho with ho | rfl
  · exact (w.db.ops.key_lt ho).le
  · exact le_rfl

/-- The renames other than one that is executed lead where all of them led. -/
lemma Headed.executed {op : PendingOperation} (h : Headed d w path rel) (hop : op ∈ w.db.ops)
    (hren : d.IsRename op new) (hkeeps : KeepsCourse d w op new)
    (hops : ∀ o, o.syncItemId = d.row.id → (o ∈ w'.db.ops ↔ o ∈ w.db.ops ∧ o.id ≠ op.id)) :
    Headed d w' new rel := by
  rcases h with ⟨hnone, -⟩ | ⟨o, ho, horen, hmax⟩
  · exact absurd hren (hnone op hop new)
  by_cases hid : o.id = op.id
  · obtain rfl := w.db.ops.key_inj ho hop hid
    obtain rfl := isRename_inj horen hren
    by_cases hothers : ∃ o' ∈ w.db.ops, ∃ q, d.IsRename o' q ∧ o'.id ≠ o.id
    · -- the youngest of the others leads to the same path
      obtain ⟨o', ho', hcandidate⟩ := hothers
      obtain ⟨m, hm, ⟨q, hmren, hmid⟩, hmmax'⟩ := w.db.ops.exists_last
        (fun o' => ∃ q, d.IsRename o' q ∧ o'.id ≠ o.id) ho' hcandidate
      have hmmax : ∀ o' ∈ w.db.ops, ∀ q, d.IsRename o' q → o'.id ≠ o.id → o'.id ≤ m.id :=
        fun o' ho' q hq hid' => hmmax' o' ho' ⟨q, hq, hid'⟩
      have hq : q = rel := by
        rcases hkeeps m hm q hmren hmid hmmax with hlt | hq
        · exact absurd (hmax m hm q hmren) (not_le.mpr hlt)
        · exact hq
      subst hq
      refine .inr ⟨m, (hops m hmren.1).mpr ⟨hm, hmid⟩, hmren, fun o' ho' q' hq' => ?_⟩
      obtain ⟨ho', hid'⟩ := (hops o' hq'.1).mp ho'
      exact hmmax o' ho' q' hq' hid'
    · refine .inl ⟨fun o' ho' q hq => hothers ?_, rfl⟩
      obtain ⟨ho', hid'⟩ := (hops o' hq.1).mp ho'
      exact ⟨o', ho', q, hq, hid'⟩
  · refine .inr ⟨o, (hops o horen.1).mpr ⟨ho, hid⟩, horen, fun o' ho' q hq => ?_⟩
    exact hmax o' ((hops o' hq.1).mp ho').1 q hq

/-! ## Runs -/

/-- The world holds the document: its row, live or as a tombstone, for its row only the operations
that its changes queue, and the pointer file nowhere but at the path of the row. -/
structure Held (d : Document) (path : RelPath) (at' : Option ℕ) (w : World) : Prop where
  /-- The row is there. -/
  row : d.rowAt path at' ∈ w.db.items
  /-- No other row is bound to the document. -/
  only : ∀ s ∈ w.db.items, s.remoteId = some d.id → s.id = d.row.id
  /-- The document is not in flight. -/
  free : w.inFlight.contains d.id = false
  /-- The queue. -/
  ops : ∀ o ∈ w.db.ops, o.syncItemId = d.row.id →
    d.IsDelete o ∨ d.IsWrite o ∨ ∃ q, d.IsRename o q
  /-- The pointer file. -/
  place : ∀ q, d.PointerAt w.fs q → q = path

/-- How far the row has come, for what the last delivered change says. -/
def Phase (d : Document) (path : RelPath) (at' : Option ℕ) (w : World) : Option RelPath → Prop
  | some rel => at' = none ∧ (∀ o ∈ w.db.ops, ¬d.IsDelete o) ∧ Headed d w path rel ∧
      (d.PointerAt w.fs path ∨ ∃ o ∈ w.db.ops, d.IsWrite o)
  | none => at' ≠ none ∨ ∃ o ∈ w.db.ops, d.IsDelete o

/-- The invariant: the last delivered change has taken effect, or will. -/
def Inv (d : Document) (w : World) (last : Option RelPath) : Prop :=
  ∃ path at', Held d path at' w ∧ Phase d path at' w last

/-- A document in step: for its row at most writes of the pointer file are queued, and the pointer
file of a live row is there or going to be written. A tombstone is in step with a trash. -/
def InStep (d : Document) (w : World) (last : Option RelPath) : Prop :=
  ∃ path at', Held d path at' w ∧
    (∀ o ∈ w.db.ops, o.syncItemId = d.row.id → d.IsWrite o) ∧
      (at' = none ∧ (d.PointerAt w.fs path ∨ ∃ o ∈ w.db.ops, d.IsWrite o) ∧ last = some path ∨
        at' ≠ none ∧ last = none)

/-- What everything else leaves alone: the row, its operations and the pointer file. -/
structure Spares (d : Document) (w w' : World) : Prop where
  rows : ∀ s : SyncItem, s.id = d.row.id ∨ s.remoteId = some d.id →
    (s ∈ w'.db.items ↔ s ∈ w.db.items)
  ops : ∀ o : PendingOperation, o.syncItemId = d.row.id → (o ∈ w'.db.ops ↔ o ∈ w.db.ops)
  pointer : ∀ q, d.PointerAt w'.fs q ↔ d.PointerAt w.fs q
  free : w'.inFlight.contains d.id = w.inFlight.contains d.id

/-- What can happen. -/
inductive Event
  /-- A change of the document is delivered. -/
  | deliver (change : RemoteChange) (file : FileResource)
  /-- The dispatcher takes an operation of the document. -/
  | drain (root : FileId)
  /-- Something else happens. -/
  | elsewhere (w' : World)

/-- One step, with what the last delivered change says. -/
inductive Step (env : Env) (d : Document) :
    Event → World × Option RelPath → World × Option RelPath → Prop
  | deliver {w : World} {last : Option RelPath} {change : RemoteChange} {file : FileResource}
    (describes : d.Describes change file) : Step env d (.deliver change file) (w, last)
      ((runTask env (Continuous.applyRemote env change) w).2, d.placed change file)
  | drain {w : World} {last : Option RelPath} (root : FileId)
    (own : ∀ o, OpTable.nextDue w.db.ops w.now = some o → o.syncItemId = d.row.id) :
    Step env d (.drain root) (w, last) ((runTask env (Dispatcher.drainOne env root) w).2, last)
  | elsewhere {w w' : World} {last : Option RelPath} (spares : Spares d w w') :
    Step env d (.elsewhere w') (w, last) (w', last)

/-- The states reached by steps that meet a condition in the state before them. -/
inductive Runs (env : Env) (d : Document) (ok : World → Event → Prop)
    (s₀ : World × Option RelPath) : World × Option RelPath → Prop
  | start : Runs env d ok s₀ s₀
  | step {s s' : World × Option RelPath} {e : Event} (run : Runs env d ok s₀ s)
    (meets : ok s.1 e) (next : Step env d e s s') : Runs env d ok s₀ s'

/-- The row may move to a path: it is there already, or every row there moves away before it. -/
def Open (w : World) (r : SyncItem) (new : RelPath) : Prop :=
  new = r.relativePath ∨ ∀ s ∈ w.db.items, s.relativePath = new →
    w.db.items.MovesAway r.relativePath s r

/-- A change that is no trash arrives when no deletion is queued, names the path of the row when
that is a tombstone, and names it otherwise only if the queued renames lead there. A rename is
executed to a path that is open, and in the order of the queue. -/
def InOrder (d : Document) (w : World) : Event → Prop
  | .deliver change file => file.trashed = false → (∀ o ∈ w.db.ops, ¬d.IsDelete o) ∧
      ∀ s ∈ w.db.items, s.id = d.row.id →
        (s.trashedAt ≠ none → s.relativePath = d.dest change file) ∧
          (s.relativePath = d.dest change file → Headed d w s.relativePath (d.dest change file))
  | .drain _ => ∀ op, OpTable.nextDue w.db.ops w.now = some op →
      op.attempts < Dispatcher.maxAttempts → ∀ new, d.IsRename op new →
        (∀ s ∈ w.db.items, s.id = d.row.id → Open w s new) ∧ KeepsCourse d w op new
  | .elsewhere _ => True

/-- The row is live at a path, and the pointer file is there and nowhere else. -/
structure Settled (d : Document) (w : World) (rel : RelPath) : Prop where
  row : d.rowAt rel none ∈ w.db.items
  pointer : d.PointerAt w.fs rel
  nowhere : ∀ q, d.PointerAt w.fs q → q = rel

/-! ## The row -/

lemma Held.byRemoteId (h : Held d path at' w) :
    w.db.items.getByRemoteId d.id = some (d.rowAt path at') :=
  ItemTable.getByRemoteId_of_only h.row d.bound h.only

/-- The trash mark of the row is changed. -/
lemma Held.mark (h : Held d path at' w) (to' : Option ℕ) :
    Held d path to' { w with db := w.db.withItems (w.db.items.modify d.row.id
      (fun r => { r with trashedAt := to' }) (fun _ => rfl) fun _ => rfl) } ∧
      (w.db.withItems (w.db.items.modify d.row.id (fun r => { r with trashedAt := to' })
        (fun _ => rfl) fun _ => rfl)).ops = w.db.ops := by
  have hmem : ∀ s, s ∈ w.db.items.modify d.row.id (fun r => { r with trashedAt := to' })
      (fun _ => rfl) (fun _ => rfl) ↔ (s ∈ w.db.items ∧ s.id ≠ d.row.id) ∨
        ∃ r ∈ w.db.items, r.id = d.row.id ∧ { r with trashedAt := to' } = s := fun s =>
    ItemTable.mem_modify
  have hops : (w.db.withItems (w.db.items.modify d.row.id (fun r => { r with trashedAt := to' })
      (fun _ => rfl) fun _ => rfl)).ops = w.db.ops := by
    refine Db.ops_withItems_of_ids fun r hr => ?_
    by_cases hrid : r.id = d.row.id
    · exact ⟨_, (hmem _).mpr (.inr ⟨r, hr, hrid, rfl⟩), rfl⟩
    · exact ⟨r, (hmem r).mpr (.inl ⟨hr, hrid⟩), rfl⟩
  refine ⟨⟨(hmem _).mpr (.inr ⟨_, h.row, rfl, rfl⟩), fun s hs hremote => ?_, h.free, ?_, h.place⟩,
    hops⟩
  · rcases (hmem s).mp hs with ⟨hs, -⟩ | ⟨r, -, hr, rfl⟩
    · exact h.only s hs hremote
    · exact hr
  · rw [hops]
    exact h.ops

/-- An operation of the document is queued. -/
lemma Held.queued {op : Operation} {payload : Option Payload} (h : Held d path at' w)
    (hop : d.IsDelete (Continuous.nextOp w d.row.id op payload) ∨
      d.IsWrite (Continuous.nextOp w d.row.id op payload) ∨
        ∃ q, d.IsRename (Continuous.nextOp w d.row.id op payload) q) :
    Held d path at' (Continuous.queued w d.row.id op payload) := by
  refine ⟨?_, ?_, h.free, fun o ho hitem => ?_, h.place⟩
  · rw [Continuous.queued_items]
    exact h.row
  · rw [Continuous.queued_items]
    exact h.only
  · rcases (Continuous.mem_queued ⟨_, h.row, rfl⟩).mp ho with ho | rfl
    · exact h.ops o ho hitem
    · exact hop

/-! ## Deliveries -/

/-- **A trash** queues the deletion of the pointer file, unless the row is a tombstone. -/
lemma Inv.trash {last : Option RelPath} {change : RemoteChange} {file : FileResource}
    (h : Inv d w last) (hdesc : d.Describes change file) (htrashed : file.trashed = true) :
    Inv d (runTask env (Continuous.applyRemote env change) w).2 none := by
  obtain ⟨path, at', hheld, -⟩ := h
  refine Ends.run (Q := fun _ w' => Inv d w' none) ?_
  refine Continuous.ends_applyRemote_present (hdesc.id.1.symm ▸ hheld.free) hdesc.present.1
    hdesc.present.2 (Continuous.ends_applyPresent_trashed htrashed ?_)
  simp only [Continuous.applyTrashed, Prog.bind_eq]
  rw [Ends, Prog.safe_bind, safe_sql]
  refine fun _ => ⟨trivial, ?_⟩
  simp only [DbCall.run, hdesc.id.1, hheld.byRemoteId]
  have hrow : ∃ r ∈ w.db.items, r.id = d.row.id := ⟨_, hheld.row, rfl⟩
  cases at' with
  | some n =>
    have htomb : ¬(d.rowAt path (some n)).trashedAt = none := by simp [Document.rowAt]
    simp only [htomb, if_false]
    exact ⟨path, some n, hheld, .inl (by simp)⟩
  | none =>
    have hlive : (d.rowAt path none).trashedAt = none := rfl
    have hkind : (d.rowAt path none).kind = .file := d.kind
    simp only [hlive, if_true, hkind, decide_true]
    have hdelete : d.IsDelete (Continuous.nextOp w d.row.id .deleteLocal
        (some (.deleteLocal ⟨true⟩))) := ⟨rfl, rfl, rfl⟩
    exact Continuous.ends_enqueueOp hrow ⟨path, none, hheld.queued (.inl hdelete),
      .inr ⟨_, (Continuous.mem_queued hrow).mpr (.inr rfl), hdelete⟩⟩

/-- A queued write of the pointer file is no deletion and no rename. -/
lemma Held.restore (h : Held d path none w) (hnone : ∀ o ∈ w.db.ops, ¬d.IsDelete o)
    (hheaded : Headed d w path rel) :
    Inv d (Continuous.queued w d.row.id .writeShortcut
      (some (.shortcut ⟨Shortcut.content d.mime d.id⟩))) (some rel) := by
  have hrow : ∃ r ∈ w.db.items, r.id = d.row.id := ⟨_, h.row, rfl⟩
  have hwrite : d.IsWrite (Continuous.nextOp w d.row.id .writeShortcut
      (some (.shortcut ⟨Shortcut.content d.mime d.id⟩))) := ⟨rfl, rfl, rfl⟩
  refine ⟨path, none, h.queued (.inr (.inl hwrite)), rfl, fun o ho hdelete => ?_,
    hheaded.of_renames fun o q hren => ?_, .inr ⟨_, (Continuous.mem_queued hrow).mpr (.inr rfl),
      hwrite⟩⟩
  · rcases (Continuous.mem_queued hrow).mp ho with ho | rfl
    · exact hnone o ho hdelete
    · cases hdelete.2.1
  · rw [Continuous.mem_queued hrow]
    refine or_iff_left ?_
    rintro rfl
    cases hren.2.1

/-- A queued rename of the pointer file is no deletion. -/
lemma Held.renamed (h : Held d path none w) (hnone : ∀ o ∈ w.db.ops, ¬d.IsDelete o)
    (hpointer : d.PointerAt w.fs path ∨ ∃ o ∈ w.db.ops, d.IsWrite o) :
    Inv d (Continuous.queued w d.row.id .renameLocal (some (.rename ⟨rel⟩))) (some rel) := by
  have hrow : ∃ r ∈ w.db.items, r.id = d.row.id := ⟨_, h.row, rfl⟩
  have hren : d.IsRename (Continuous.nextOp w d.row.id .renameLocal (some (.rename ⟨rel⟩))) rel :=
    ⟨rfl, rfl, rfl⟩
  refine ⟨path, none, h.queued (.inr (.inr ⟨rel, hren⟩)), rfl, fun o ho hdelete => ?_,
    headed_queued hrow, hpointer.imp id ?_⟩
  · rcases (Continuous.mem_queued hrow).mp ho with ho | rfl
    · exact hnone o ho hdelete
    · cases hdelete.2.1
  · rintro ⟨o, ho, hwrite⟩
    exact ⟨o, (Continuous.mem_queued hrow).mpr (.inl ho), hwrite⟩

/-- **A change that is no trash**, under the condition: it renames the pointer file, restores it, or
finds all in place. -/
lemma Inv.present {last : Option RelPath} {change : RemoteChange} {file : FileResource}
    (h : Inv d w last) (hdesc : d.Describes change file) (htrashed : file.trashed = false)
    (meets : InOrder d w (.deliver change file)) :
    Inv d (runTask env (Continuous.applyRemote env change) w).2 (some (d.dest change file)) := by
  obtain ⟨path, at', hheld, hphase⟩ := h
  obtain ⟨hnone, hplace⟩ := meets htrashed
  obtain ⟨htomb, hcourse⟩ := hplace _ hheld.row rfl
  refine Ends.run (Q := fun _ w' => Inv d w' (some (d.dest change file))) ?_
  have hnative : Shortcut.isNative file.mimeType = true := hdesc.mime ▸ d.native
  have hfolder : file.isFolder = false := by
    simp only [Shortcut.isNative, Bool.and_eq_true, decide_eq_true_eq] at hnative
    simp [FileResource.isFolder, hnative.2]
  refine Continuous.ends_applyRemote_present (hdesc.id.1.symm ▸ hheld.free) hdesc.present.1
    hdesc.present.2 ?_
  have hdest : Shortcut.relativePath (change.path file) file.mimeType = d.dest change file := by
    rw [Document.dest, hdesc.mime]
  simp only [Continuous.applyPresent, htrashed, hfolder, hnative, Bool.false_eq_true, if_false,
    if_true, Continuous.applyNative, Prog.bind_eq, hdest]
  rw [Ends, Prog.safe_bind, safe_sql]
  refine fun _ => ⟨trivial, ?_⟩
  simp only [DbCall.run, hdesc.id.1, hheld.byRemoteId]
  have hrow : ∃ r ∈ w.db.items, r.id = d.row.id := ⟨_, hheld.row, rfl⟩
  have hpath : (d.rowAt path at').relativePath = path := rfl
  have hmark : (d.rowAt path at').trashedAt = at' := rfl
  rw [hpath] at htomb hcourse
  by_cases hne : path = d.dest change file
  · subst hne
    have hheaded := hcourse rfl
    rw [if_neg (not_not.mpr hpath)]
    cases at' with
    | some n =>
      -- a tombstone at the path of the change: live again, and its pointer file is written
      simp only [hmark, ne_eq, reduceCtorEq, not_false_eq_true, if_true, Prog.safe_bind, safe_sql,
        true_and, forall_const]
      obtain ⟨hheld', hops⟩ := hheld.mark none
      simp only [DbCall.run, hdesc.mime, hdesc.id.2, Continuous.enqueueWriteShortcut]
      refine Continuous.ends_enqueueOp ⟨_, hheld'.row, rfl⟩ ?_
      refine hheld'.restore (fun o ho => hnone o (hops ▸ ho)) ?_
      exact hheaded.of_renames fun o q _ => by rw [← hops]
    | none =>
      simp only [hmark, ne_eq, not_true_eq_false, if_false]
      cases last with
      | some rel =>
        exact ⟨_, none, hheld, rfl, hnone, hheaded, hphase.2.2.2⟩
      | none =>
        rcases hphase with hne | ⟨o, ho, hdelete⟩
        · exact absurd rfl hne
        · exact absurd hdelete (hnone o ho)
  · simp only [hpath, hne, ne_eq, not_false_eq_true, if_true, Continuous.enqueueRenameLocal]
    cases at' with
    | some n => exact absurd (htomb (by simp [Document.rowAt])) hne
    | none =>
      cases last with
      | some rel =>
        exact Continuous.ends_enqueueOp hrow (hheld.renamed hnone hphase.2.2.2)
      | none =>
        rcases hphase with hne' | ⟨o, ho, hdelete⟩
        · exact absurd rfl hne'
        · exact absurd hdelete (hnone o ho)

/-! ## The dispatcher -/

/-- What was executed, before the bookkeeping: the operations of the document are still queued. -/
structure Executed (d : Document) (path : RelPath) (at' : Option ℕ) (w w' : World) : Prop where
  held : Held d path at' w'
  ops : ∀ o : PendingOperation, o.syncItemId = d.row.id → (o ∈ w'.db.ops ↔ o ∈ w.db.ops)

/-- Only the tree has changed, and the pointer file is at most at the path of the row. -/
lemma Held.tree {fs : Fs} (h : Held d path at' w) (hplace : ∀ q, d.PointerAt fs q → q = path) :
    Executed d path at' w { w with fs } :=
  ⟨⟨h.row, h.only, h.free, h.ops, hplace⟩, fun _ _ => Iff.rfl⟩

/-- **The deletion of the pointer file** removes it and makes the row a tombstone, or fails. -/
lemma ends_delete (h : Held d path at' w) :
    Ends env (fun x w' => match x with
      | .ok _ => ∃ n, Executed d path (some n) w w'
      | .error _ => Executed d path at' w w' ∧ w'.fs = w.fs)
      (Dispatcher.executeDeleteLocal (d.rowAt path at') (some (.deleteLocal ⟨true⟩))) w := by
  have hkind : (d.rowAt path at').kind = .file := d.kind
  have hpath : (d.rowAt path at').relativePath = path := rfl
  have hforget : ∀ fs, (∀ q, d.PointerAt fs q → q = path) →
      Ends env (fun x w' => match x with
        | .ok _ => ∃ n, Executed d path (some n) w w'
        | .error _ => Executed d path at' w w' ∧ w'.fs = w.fs)
        (Dispatcher.forgetLocal (d.rowAt path at') ⟨true⟩) { w with fs } := by
    intro fs hplace
    simp only [Ends, Dispatcher.forgetLocal, hkind, and_self, if_true, Prog.bind_eq,
      Prog.safe_bind, safe_unixNow, safe_sql, true_and, forall_const]
    obtain ⟨hheld, hops⟩ := (h.tree hplace).held.mark (some w.now)
    exact ⟨w.now, hheld, fun o _ => by rw [← hops]; rfl⟩
  simp only [Dispatcher.executeDeleteLocal, Dispatcher.removeLocal, hkind, hpath, Prog.bind_eq,
    decodePayload, Payload.asDeleteLocal]
  rw [Ends, Prog.safe_bind, Prog.safe_bind, safe_io]
  refine fun _ => ⟨trivial, ?_⟩
  cases hremoved : w.fs.removeFile path with
  | error e =>
    simp only [FsCall.run, FsCall.commit, hremoved]
    split_ifs
    · simpa using hforget w.fs h.place
    · exact ⟨h.tree h.place, rfl⟩
  | ok fs =>
    simp only [FsCall.run, FsCall.commit, hremoved, Prog.pure_eq, Prog.safe_pure,
      Prog.ofExcept_ok, Prog.pure_bind]
    refine hforget fs fun q hq => h.place q ?_
    unfold Fs.removeFile at hremoved
    split at hremoved
    · cases hremoved
    · cases hremoved
    · split_ifs at hremoved with hne
      obtain rfl := Except.ok.inj hremoved
      rw [Document.PointerAt, Fs.node_removeTree] at hq
      split_ifs at hq
      exact hq

/-- **The write of the pointer file** puts it at the path of the row, or fails and takes nothing
away. -/
lemma ends_write (h : Held d path at' w) :
    Ends env (fun x w' => Executed d path at' w w' ∧
      (d.PointerAt w.fs path → d.PointerAt w'.fs path) ∧ (x = .ok () → d.PointerAt w'.fs path))
      (Dispatcher.executeWriteShortcut (d.rowAt path at')
        (some (.shortcut ⟨Shortcut.content d.mime d.id⟩))) w := by
  have hpath : (d.rowAt path at').relativePath = path := rfl
  simp only [Dispatcher.executeWriteShortcut, decodePayload, Payload.asShortcut, Prog.bind_eq,
    Prog.ofExcept_ok, Prog.pure_bind, Shortcut.write, hpath]
  rw [Ends, Prog.safe_bind, safe_ioTry]
  refine fun _ => ⟨trivial, ?_⟩
  simp only [FsCall.run]
  cases hmade : w.fs.createDirAll path.parentDir with
  | error e => exact ⟨h.tree h.place, id, fun he => by cases he⟩
  | ok fs₁ =>
    have hsame : ∀ q, d.PointerAt fs₁ q ↔ d.PointerAt w.fs q := fun q =>
      Fs.file_createDirAll_iff hmade
    have hplace₁ : ∀ q, d.PointerAt fs₁ q → q = path := fun q hq => h.place q ((hsame q).mp hq)
    simp only [FsCall.commit]
    rw [safe_ioTry]
    refine fun _ => ⟨trivial, ?_⟩
    simp only [FsCall.run]
    cases hwrite : fs₁.writeFile path (Shortcut.bytes (Shortcut.content d.mime d.id)) with
    | error e => exact ⟨h.tree hplace₁, (hsame path).mpr, fun he => by cases he⟩
    | ok fs₂ =>
      have hself : d.PointerAt fs₂ path := Fs.node_writeFile_self hwrite
      refine ⟨h.tree fun q hq => ?_, fun _ => hself, fun _ => hself⟩
      by_contra hne
      have hold : d.PointerAt fs₁ q := (Fs.node_writeFile_ne hwrite hne).symm.trans hq
      exact hne (hplace₁ q hold)

/-- No file is made that has no model. -/
lemma no_pointer {fs fs' : Fs} (hfrom : Fs.FilesFrom fs fs') (hnone : ∀ q, ¬d.PointerAt fs q)
    (q : RelPath) : ¬d.PointerAt fs' q := by
  intro hq
  obtain ⟨p, hp⟩ := hfrom q _ hq
  exact hnone p hp

/-- **Moving the pointer file on disk**: it goes along, or stays when the move fails. -/
lemma ends_moveLocal (hplace : ∀ q, d.PointerAt w.fs q → q = path)
    (hparent : w.fs.node new.dropLast = some .dir) :
    Ends env (fun x w' => ∃ fs, w' = { w with fs } ∧ match x with
      | .ok _ => (∀ q, d.PointerAt fs q → q = new) ∧ (d.PointerAt w.fs path → d.PointerAt fs new)
      | .error _ => (∀ q, d.PointerAt fs q → q = path) ∧
          (d.PointerAt w.fs path → d.PointerAt fs path))
      (Dispatcher.moveLocal path new) w := by
  simp only [Dispatcher.moveLocal, Prog.bind_eq]
  rw [Ends, Prog.safe_bind, safe_io]
  refine fun _ => ⟨trivial, ?_⟩
  by_cases hthere : d.PointerAt w.fs path
  · cases hren : w.fs.rename path new with
    | ok fs =>
      simp only [FsCall.run, FsCall.commit, hren]
      refine ⟨fs, rfl, fun q hq => ?_, fun _ => Fs.node_rename_file hthere hren⟩
      rcases Fs.file_of_rename_file hthere hren hq with hnew | ⟨hq, hne⟩
      · exact hnew
      · exact absurd (hplace q hq) hne
    | error e =>
      have he := Fs.rename_file_error hthere hparent hren
      have hfails : e ≠ .io .notFound ∧
          ¬(e = .io .directoryNotEmpty ∨ e = .io .alreadyExists) := by
        rcases he with rfl | rfl <;> decide
      simp only [FsCall.run, FsCall.commit, hren]
      rw [if_neg hfails.1, if_neg hfails.2]
      exact ⟨w.fs, rfl, hplace, id⟩
  · -- the pointer file is nowhere, and no move makes one
    have hnone : ∀ q, ¬d.PointerAt w.fs q := fun q hq => hthere (hplace q hq ▸ hq)
    cases hren : w.fs.rename path new with
    | ok fs =>
      simp only [FsCall.run, FsCall.commit, hren]
      exact ⟨fs, rfl, fun q hq => absurd hq (no_pointer (Fs.filesFrom_rename hren) hnone q),
        fun h => absurd h hthere⟩
    | error e =>
      simp only [FsCall.run, FsCall.commit, hren]
      split_ifs
      · exact ⟨w.fs, rfl, fun q hq => absurd hq (hnone q), fun h => absurd h hthere⟩
      · rw [safe_ioTry]
        refine fun _ => ⟨trivial, ?_⟩
        have hmerged := no_pointer (Fs.filesFrom_mergeMoveDir w.fs path new) hnone
        simp only [FsCall.run]
        generalize w.fs.mergeMoveDir path new = res at hmerged ⊢
        obtain ⟨x, fs⟩ := res
        refine ⟨fs, rfl, ?_⟩
        cases x with
        | ok u => exact ⟨fun q hq => absurd hq (hmerged q), fun h => absurd h hthere⟩
        | error e => exact ⟨fun q hq => absurd hq (hmerged q), fun h => absurd h hthere⟩
      · exact ⟨w.fs, rfl, fun q hq => absurd hq (hnone q), fun h => absurd h hthere⟩

/-- The row is moved to a path that is open. -/
lemma Held.renameSubtree (h : Held d path at' w) (hopen : Open w (d.rowAt path at') new)
    {fs : Fs} (hplace : ∀ q, d.PointerAt fs q → q = new) :
    Executed d new at' w
      { w with fs, db := w.db.withItems (w.db.items.renameSubtree path new) } := by
  have hmoved : d.rowAt new at' ∈ w.db.items.renameSubtree path new := by
    by_cases hne : new = path
    · subst hne
      exact ItemTable.mem_renameSubtree_self h.row rfl fun s hs hpath =>
        congrArg SyncItem.id (w.db.items.path_inj hs h.row hpath)
    · rcases hopen with hsame | haway
      · exact absurd hsame hne
      · exact ItemTable.renameSubtree_arrives h.row rfl hne haway
  have hops : ∀ o : PendingOperation, o.syncItemId = d.row.id →
      (o ∈ (w.db.withItems (w.db.items.renameSubtree path new)).ops ↔ o ∈ w.db.ops) := by
    intro o ho
    rw [Db.mem_ops_withItems]
    exact and_iff_left ⟨_, hmoved, ho.symm⟩
  refine ⟨⟨hmoved, fun s hs hremote => ?_, h.free, fun o ho hitem => ?_, hplace⟩, hops⟩
  · obtain ⟨s₀, hs₀, p, rfl⟩ := ItemTable.mem_renameSubtree hs
    exact h.only s₀ hs₀ hremote
  · exact h.ops o ((hops o hitem).mp ho) hitem

/-- **The rename of the pointer file** moves the row and the file, or fails and moves neither. -/
lemma ends_rename (h : Held d path at' w) (hopen : Open w (d.rowAt path at') new) :
    Ends env (fun x w' => match x with
      | .ok _ => Executed d new at' w w' ∧ (d.PointerAt w.fs path → d.PointerAt w'.fs new)
      | .error _ => Executed d path at' w w' ∧ (d.PointerAt w.fs path → d.PointerAt w'.fs path))
      (Dispatcher.executeRenameLocal (d.rowAt path at') (some (.rename ⟨new⟩))) w := by
  have hpath : (d.rowAt path at').relativePath = path := rfl
  simp only [Dispatcher.executeRenameLocal, decodePayload, Payload.asRename, Prog.bind_eq,
    Prog.ofExcept_ok, Prog.pure_bind, hpath]
  rw [Ends, Prog.safe_bind, safe_ioTry]
  refine fun _ => ⟨trivial, ?_⟩
  simp only [FsCall.run]
  cases hmade : w.fs.createDirAll new.parentDir with
  | error e => exact ⟨h.tree h.place, id⟩
  | ok fs₁ =>
    have hsame : ∀ q, d.PointerAt fs₁ q ↔ d.PointerAt w.fs q := fun q =>
      Fs.file_createDirAll_iff hmade
    have hmove := @ends_moveLocal env d { w with fs := fs₁ } path new
      (fun q hq => h.place q ((hsame q).mp hq)) (Fs.dir_of_createDirAll hmade)
    refine Prog.Safe.bind hmove ?_
      ?_
    · rintro _ w₂ ⟨fs, hw, hplace, hkept⟩
      subst hw
      rw [safe_sql]
      refine fun _ => ⟨trivial, h.renameSubtree hopen hplace, fun hthere => ?_⟩
      exact hkept ((hsame path).mpr hthere)
    · rintro e w₂ ⟨fs, hw, hplace, hkept⟩
      subst hw
      exact ⟨h.tree hplace, fun hthere => hkept ((hsame path).mpr hthere)⟩

/-! ## The bookkeeping -/

/-- The retry data of an operation says nothing about its kind. -/
lemma isRename_of_sameWork {o o' : PendingOperation} (h : DbCall.SameWork o o') {q : RelPath} :
    d.IsRename o' q ↔ d.IsRename o q := by
  obtain ⟨-, hitem, hop, hpayload⟩ := h
  simp only [Document.IsRename, hitem, hop, hpayload]

lemma isDelete_of_sameWork {o o' : PendingOperation} (h : DbCall.SameWork o o') :
    d.IsDelete o' ↔ d.IsDelete o := by
  obtain ⟨-, hitem, hop, hpayload⟩ := h
  simp only [Document.IsDelete, hitem, hop, hpayload]

lemma isWrite_of_sameWork {o o' : PendingOperation} (h : DbCall.SameWork o o') :
    d.IsWrite o' ↔ d.IsWrite o := by
  obtain ⟨-, hitem, hop, hpayload⟩ := h
  simp only [Document.IsWrite, hitem, hop, hpayload]

lemma Held.retried (h : Held d path at' w) (hr : Outcomes.Retried w w') : Held d path at' w' := by
  refine ⟨hr.items ▸ h.row, hr.items ▸ h.only, hr.inFlight ▸ h.free, fun o' ho' hitem => ?_,
    hr.fs ▸ h.place⟩
  obtain ⟨o, ho, hsame⟩ := hr.ops' o' ho'
  simp only [isDelete_of_sameWork hsame, isWrite_of_sameWork hsame, isRename_of_sameWork hsame]
  exact h.ops o ho (hsame.2.1.trans hitem)

lemma Headed.retried (h : Headed d w path rel) (hr : Outcomes.Retried w w') :
    Headed d w' path rel := by
  rcases h with ⟨hnone, hpath⟩ | ⟨o, ho, hren, hmax⟩
  · refine .inl ⟨fun o' ho' q hq => ?_, hpath⟩
    obtain ⟨o, ho, hsame⟩ := hr.ops' o' ho'
    exact hnone o ho q ((isRename_of_sameWork hsame).mp hq)
  · obtain ⟨o', ho', hsame⟩ := hr.ops o ho
    refine .inr ⟨o', ho', (isRename_of_sameWork hsame).mpr hren, fun m' hm' q hq => ?_⟩
    obtain ⟨m, hm, hsame'⟩ := hr.ops' m' hm'
    rw [← hsame.1, ← hsame'.1]
    exact hmax m hm q ((isRename_of_sameWork hsame').mp hq)

lemma Phase.retried {last : Option RelPath} (h : Phase d path at' w last)
    (hr : Outcomes.Retried w w') : Phase d path at' w' last := by
  cases last with
  | some rel =>
    obtain ⟨hlive, hnone, hheaded, hpointer⟩ := h
    refine ⟨hlive, fun o' ho' hdelete => ?_, hheaded.retried hr, ?_⟩
    · obtain ⟨o, ho, hsame⟩ := hr.ops' o' ho'
      exact hnone o ho ((isDelete_of_sameWork hsame).mp hdelete)
    · rw [hr.fs]
      refine hpointer.imp id ?_
      rintro ⟨o, ho, hwrite⟩
      obtain ⟨o', ho', hsame⟩ := hr.ops o ho
      exact ⟨o', ho', (isWrite_of_sameWork hsame).mpr hwrite⟩
  | none =>
    refine h.imp id ?_
    rintro ⟨o, ho, hdelete⟩
    obtain ⟨o', ho', hsame⟩ := hr.ops o ho
    exact ⟨o', ho', (isDelete_of_sameWork hsame).mpr hdelete⟩

lemma Held.completed {id : OpId} (h : Held d path at' w) (hc : Outcomes.Completed id w w') :
    Held d path at' w' :=
  ⟨hc.items ▸ h.row, hc.items ▸ h.only, hc.inFlight ▸ h.free,
    fun o ho hitem => h.ops o ((hc.ops o).mp ho).1 hitem, hc.fs ▸ h.place⟩

/-- The phase depends on the operations of the document, and on the pointer file. -/
lemma Phase.executed {last : Option RelPath} (h : Phase d path at' w last)
    (hops : ∀ o : PendingOperation, o.syncItemId = d.row.id → (o ∈ w'.db.ops ↔ o ∈ w.db.ops))
    (hkept : d.PointerAt w.fs path → d.PointerAt w'.fs path) : Phase d path at' w' last := by
  cases last with
  | some rel =>
    obtain ⟨hlive, hnone, hheaded, hpointer⟩ := h
    refine ⟨hlive, fun o ho hdelete => hnone o ((hops o hdelete.1).mp ho) hdelete,
      hheaded.of_renames fun o q hren => hops o hren.1, hpointer.imp hkept ?_⟩
    rintro ⟨o, ho, hwrite⟩
    exact ⟨o, (hops o hwrite.1).mpr ho, hwrite⟩
  | none =>
    refine h.imp id ?_
    rintro ⟨o, ho, hdelete⟩
    exact ⟨o, (hops o hdelete.1).mpr ho, hdelete⟩

/-! ## All runs -/

/-- **A step of the dispatcher** under the condition.

**Proof sketch.** When the last change was no trash, no deletion is queued: a write puts the pointer
file at the path of the row, and a rename takes both along, to where the other renames lead. When it
was a trash, only the deletion matters, which leaves a tombstone. -/
lemma Inv.drain {root : FileId} {last : Option RelPath} (h : Inv d w last)
    (own : ∀ o, OpTable.nextDue w.db.ops w.now = some o → o.syncItemId = d.row.id)
    (meets : InOrder d w (.drain root)) :
    Inv d (runTask env (Dispatcher.drainOne env root) w).2 last := by
  obtain ⟨path, at', hheld, hphase⟩ := h
  refine Outcomes.drain_keeps (P := fun w' => Inv d w' last)
    (fun w' hr => ⟨path, at', hheld.retried hr, hphase.retried hr⟩) fun op hnext hleft => ?_
  obtain ⟨hop, -⟩ := OpTable.nextDue_mem hnext
  have hitem := own op hnext
  refine ⟨d.rowAt path at', hheld.row, hitem.symm, ?_⟩
  -- after the operation was taken from the queue, the others are still there
  have hothers : ∀ {w₁ w'}, (∀ o : PendingOperation, o.syncItemId = d.row.id →
      (o ∈ w₁.db.ops ↔ o ∈ w.db.ops)) → Outcomes.Completed op.id w₁ w' →
        ∀ o : PendingOperation, o.syncItemId = d.row.id →
          (o ∈ w'.db.ops ↔ o ∈ w.db.ops ∧ o.id ≠ op.id) := by
    intro w₁ w' hops hc o ho
    rw [hc.ops, hops o ho]
  have hstill : ∀ {o : PendingOperation}, o ∈ w.db.ops → o.op ≠ op.op → o.id ≠ op.id := by
    intro o ho hne hid
    obtain rfl := w.db.ops.key_inj ho hop hid
    exact hne rfl
  rcases hheld.ops op hop hitem with hdelete | hwrite | ⟨new, hren⟩
  · obtain ⟨-, hkind, hpayload⟩ := id hdelete
    simp only [Dispatcher.executeItem, hkind, hpayload]
    refine (ends_delete hheld).mono fun x w₁ hx w' hbooked => ?_
    cases x with
    | error e =>
      obtain ⟨hexec, hfs⟩ := hx
      exact ⟨path, at', hexec.held.retried hbooked,
        (hphase.executed hexec.ops fun hthere => hfs ▸ hthere).retried hbooked⟩
    | ok u =>
      obtain ⟨n, hexec⟩ := hx
      cases last with
      | some rel => exact absurd hdelete (hphase.2.1 op hop)
      | none => exact ⟨path, some n, hexec.held.completed hbooked, .inl (by simp)⟩
  · obtain ⟨-, hkind, hpayload⟩ := id hwrite
    simp only [Dispatcher.executeItem, hkind, hpayload]
    refine (ends_write hheld).mono ?_
    rintro x w₁ ⟨hexec, hkept, hthere⟩ w' hbooked
    cases x with
    | error e =>
      exact ⟨path, at', hexec.held.retried hbooked,
        (hphase.executed hexec.ops hkept).retried hbooked⟩
    | ok u =>
      have hops := hothers hexec.ops hbooked
      refine ⟨path, at', hexec.held.completed hbooked, ?_⟩
      cases last with
      | some rel =>
        obtain ⟨hlive, hnone, hheaded, -⟩ := hphase
        refine ⟨hlive, fun o ho hd => hnone o ((hops o hd.1).mp ho).1 hd,
          hheaded.of_renames fun o q hq => ?_, .inl ?_⟩
        · rw [hops o hq.1]
          refine and_iff_left_of_imp fun ho => hstill ho ?_
          rw [hq.2.1, hkind]
          simp
        · rw [hbooked.fs]
          exact hthere rfl
      | none =>
        refine hphase.imp id ?_
        rintro ⟨o, ho, hd⟩
        refine ⟨o, (hops o hd.1).mpr ⟨ho, hstill ho ?_⟩, hd⟩
        rw [hd.2.1, hkind]
        simp
  · obtain ⟨-, hkind, hpayload⟩ := id hren
    simp only [Dispatcher.executeItem, hkind, hpayload]
    obtain ⟨hopen, hkeeps⟩ := meets op hnext hleft new hren
    refine (ends_rename hheld (hopen _ hheld.row rfl)).mono fun x w₁ hx w' hbooked => ?_
    cases x with
    | error e =>
      obtain ⟨hexec, hkept⟩ := hx
      exact ⟨path, at', hexec.held.retried hbooked,
        (hphase.executed hexec.ops hkept).retried hbooked⟩
    | ok u =>
      obtain ⟨hexec, hkept⟩ := hx
      have hops := hothers hexec.ops hbooked
      refine ⟨new, at', hexec.held.completed hbooked, ?_⟩
      cases last with
      | some rel =>
        obtain ⟨hlive, hnone, hheaded, hpointer⟩ := hphase
        refine ⟨hlive, fun o ho hd => hnone o ((hops o hd.1).mp ho).1 hd,
          hheaded.executed hop hren hkeeps hops, ?_⟩
        rw [hbooked.fs]
        refine hpointer.imp hkept ?_
        rintro ⟨o, ho, hw⟩
        refine ⟨o, (hops o hw.1).mpr ⟨ho, hstill ho ?_⟩, hw⟩
        rw [hw.2.1, hkind]
        simp
      | none =>
        refine hphase.imp id ?_
        rintro ⟨o, ho, hd⟩
        refine ⟨o, (hops o hd.1).mpr ⟨ho, hstill ho ?_⟩, hd⟩
        rw [hd.2.1, hkind]
        simp

/-- What happens elsewhere. -/
lemma Inv.elsewhere {last : Option RelPath} (h : Inv d w last) (hs : Spares d w w') :
    Inv d w' last := by
  obtain ⟨path, at', hheld, hphase⟩ := h
  have hrow := (hs.rows (d.rowAt path at') (.inl rfl)).mpr hheld.row
  refine ⟨path, at', ⟨hrow, fun s hmem hremote => ?_, hs.free.trans hheld.free,
    fun o ho hitem => hheld.ops o ((hs.ops o hitem).mp ho) hitem,
    fun q hq => hheld.place q ((hs.pointer q).mp hq)⟩,
    hphase.executed hs.ops (hs.pointer path).mpr⟩
  exact hheld.only s ((hs.rows s (.inr hremote)).mp hmem) hremote

/-- **A delivery**. -/
lemma Inv.deliver {last : Option RelPath} {change : RemoteChange} {file : FileResource}
    (h : Inv d w last) (hdesc : d.Describes change file)
    (meets : InOrder d w (.deliver change file)) :
    Inv d (runTask env (Continuous.applyRemote env change) w).2 (d.placed change file) := by
  cases htrashed : file.trashed with
  | true =>
    rw [Document.placed, htrashed]
    exact h.trash hdesc htrashed
  | false =>
    rw [Document.placed, htrashed]
    exact h.present hdesc htrashed meets

/-- The document `Notes`, and the row of its pointer file. -/
def sampleDocument : Document where
  row := ⟨1, ["Notes.gdoc"], .file, some (.id 9), none, none, .skipped, none⟩
  id := .id 9
  mime := "application/vnd.google-apps.document"
  kind := rfl
  skipped := rfl
  bound := rfl
  native := by decide

/-- The description of the document under a name. -/
def sampleFile (name : String) (trashed : Bool) : FileResource :=
  ⟨.id 9, name, "application/vnd.google-apps.document", none, none, [.id 2], trashed⟩

/-- The change that says so. -/
def sampleChange (name : String) (trashed : Bool) : RemoteChange :=
  ⟨.id 9, false, some (sampleFile name trashed), some [name]⟩

lemma sample_describes (name : String) (trashed : Bool) :
    sampleDocument.Describes (sampleChange name trashed) (sampleFile name trashed) :=
  ⟨⟨rfl, rfl⟩, ⟨rfl, rfl⟩, rfl⟩

/-- The document has arrived, and its pointer file is written. -/
def notesArrived : World :=
  performAll .plain [.job (.batch ⟨[sampleChange "Notes" false], 1⟩) 100,
    .job (.drain (.id 2)) 100] (World.fresh (sampleDrive [65]))

/-- A change of the document is delivered. -/
def delivered (name : String) (trashed : Bool) (w : World) : World :=
  (runTask .plain (Continuous.applyRemote .plain (sampleChange name trashed)) w).2

/-- What the change says. -/
def said (name : String) (trashed : Bool) : Option RelPath :=
  sampleDocument.placed (sampleChange name trashed) (sampleFile name trashed)

lemma deliver_step (name : String) (trashed : Bool) (w : World) (last : Option RelPath) :
    Step .plain sampleDocument (.deliver (sampleChange name trashed) (sampleFile name trashed))
      (w, last) (delivered name trashed w, said name trashed) :=
  .deliver (sample_describes name trashed)

lemma drain_step {last : Option RelPath}
    (h : (OpTable.nextDue w.db.ops w.now).map PendingOperation.syncItemId = some 1) :
    Step .plain sampleDocument (.drain (.id 2)) (w, last) (Restore.drained w, last) :=
  .drain (.id 2) fun o ho => by
    rw [ho] at h
    exact Option.some.inj h

/-- A change is delivered, and the dispatcher takes an operation. -/
lemma runs_round {C : World → Event → Prop} {x : World × Option RelPath} {last : Option RelPath}
    (name : String) (trashed : Bool) (hrun : Runs .plain sampleDocument C x (w, last))
    (hdeliver : C w (.deliver (sampleChange name trashed) (sampleFile name trashed)))
    (hdrain : C (delivered name trashed w) (.drain (.id 2)))
    (hnext : (OpTable.nextDue (delivered name trashed w).db.ops
      (delivered name trashed w).now).map PendingOperation.syncItemId = some 1) :
    Runs .plain sampleDocument C x (Restore.drained (delivered name trashed w), said name trashed) :=
  .step (.step hrun hdeliver (deliver_step name trashed w last)) hdrain (drain_step hnext)

/-- What the arrival leaves. -/
lemma notes_arrived : Restore.kinds notesArrived = [] ∧
    notesArrived.db.items.rows = [sampleDocument.row] ∧
    notesArrived.fs.nodes.rows = [(["Notes.gdoc"],
      .file (Shortcut.bytes (Shortcut.content sampleDocument.mime sampleDocument.id)))] ∧
    notesArrived.inFlight.contains sampleDocument.id = false := by
  decide +kernel

lemma sample_inStep : InStep sampleDocument notesArrived (said "Notes" false) := by
  obtain ⟨hkinds, hrows, hnodes, hfree⟩ := notes_arrived
  have hempty : Drained notesArrived := Restore.drained_of_kinds hkinds
  have hmem : ∀ s, s ∈ notesArrived.db.items ↔ s = sampleDocument.row := by
    intro s
    rw [← ItemTable.mem_rows, hrows, List.mem_singleton]
  have hval : ∀ q n, notesArrived.fs.nodes.val q = some n ↔ (q, n) = (["Notes.gdoc"],
      .file (Shortcut.bytes (Shortcut.content sampleDocument.mime sampleDocument.id))) := by
    intro q n
    rw [Data.FinMap.val_eq_some, hnodes, List.mem_singleton]
  refine ⟨["Notes.gdoc"], none, ⟨(hmem _).mpr rfl, fun s hs _ => (hmem s).mp hs ▸ rfl,
    hfree, fun o ho => absurd ho (hempty o), fun q hq => ?_⟩,
    fun o ho => absurd ho (hempty o), .inl ⟨rfl, .inl ?_, by decide⟩⟩
  · have hne : q ≠ [] := by
      rintro rfl
      simp [Document.PointerAt] at hq
    rw [Document.PointerAt, Fs.node_of_ne_nil _ hne] at hq
    exact congrArg Prod.fst ((hval q _).mp hq)
  · rw [Document.PointerAt, Fs.node_of_ne_nil _ (by simp)]
    exact (hval _ _).mpr rfl

/-- With an empty queue, only the path of a tombstone matters. -/
lemma inOrder_deliver {change : RemoteChange} {file : FileResource} (hempty : Drained w)
    (hrow : ∀ s ∈ w.db.items.rows, s.id = d.row.id → s.trashedAt ≠ none →
      s.relativePath = d.dest change file) : InOrder d w (.deliver change file) := by
  refine fun _ => ⟨fun o ho => absurd ho (hempty o), fun s hs hid =>
    ⟨hrow s (ItemTable.mem_rows.mpr hs) hid, fun hpath => .inl ⟨fun o ho => ?_, hpath⟩⟩⟩
  exact absurd ho (hempty o)

/-- A trash is always in order. -/
lemma inOrder_trash {change : RemoteChange} {file : FileResource} (h : file.trashed = true) :
    InOrder d w (.deliver change file) := fun hnot => by
  rw [h] at hnot
  cases hnot

/-- Only renames have to be in order. -/
lemma inOrder_drain {root : FileId} (h : Operation.renameLocal ∉ Restore.kinds w) :
    InOrder d w (.drain root) := by
  intro op hnext _ new hren
  have hkind := Restore.op_mem_kinds (OpTable.nextDue_mem hnext).1
  rw [hren.2.1] at hkind
  exact absurd hkind h

/-- A rename that is alone in the queue, to a path that no row has, is in order. -/
lemma inOrder_rename {root : FileId} {op : PendingOperation} (hops : w.db.ops.table.rows = [op])
    (hfree : ∀ q, op.payload = some (.rename ⟨q⟩) → ∀ s ∈ w.db.items.rows, s.relativePath ≠ q) :
    InOrder d w (.drain root) := by
  have halone : ∀ o ∈ w.db.ops, o = op := by
    intro o ho
    rwa [Data.Serial.mem_def, hops, List.mem_singleton] at ho
  intro o hnext _ new hren
  obtain rfl := halone o (OpTable.nextDue_mem hnext).1
  refine ⟨fun s _ _ => .inr fun s' hs' hpath => ?_, fun o' ho' _ _ hne => ?_⟩
  · exact absurd hpath (hfree new hren.2.2 s' (ItemTable.mem_rows.mpr hs'))
  · exact absurd (congrArg PendingOperation.id (halone o' ho')) hne

end AirDrive.NativeRestore
