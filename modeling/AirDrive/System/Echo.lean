import AirDrive.Reconcile.Applied
import AirDrive.System.Run

set_option relaxedAutoImplicit false
set_option autoImplicit false

/-!
# Echoes of a completed transfer

After a transfer both sides and the row of a file agree. What the daemon is then told about the
file, by the change feed or by the watcher, describes what it knows already. An echo leads at most
to an `Upload` that finds nothing to transfer, as long as the row is the one that the lookup by
Drive id finds: a second row bound to the same object, which an interrupted initial pass leaves
behind when the object was renamed meanwhile, takes the change in its place.

## Main definitions

* `AirDrive.Echo.Quiet` — the calls that transfer nothing, write nothing, record no conflict and
  leave the row alone.
* `AirDrive.Echo.InStep` — the row, the file and the queue agree.
* `AirDrive.Echo.Work` — the jobs that echoes lead to.
* `AirDrive.Echo.Later` — the states reached by such jobs and what does not concern the file.

## Main results

* `AirDrive.Echo.performs_applyRemote`, `AirDrive.Echo.performs_applyCreated`,
  `AirDrive.Echo.performs_drainOne` — one job.
* `AirDrive.Echo.echoes_quiet` — any number of them, in any order.
-/

namespace AirDrive.Echo

open Effect Continuous

variable {env : Env} {r : SyncItem} {rid : FileId} {b : Bytes} {w w' : World}

/-! ## Quiet calls -/

/-- The engine calls that transfer content. -/
def Transfers {α : Type} : DriveCall α → Prop
  | .uploadMultipart _ _ _ _ => True
  | .patchMedia _ _ => True
  | .getMedia _ => True
  | _ => False

/-- A statement that keeps the row as it is and the conflict records as they are, and queues
nothing but uploads for the row. -/
structure QuietSql {β : Type} (r : SyncItem) (c : DbCall β) : Prop where
  row : ∀ db, r ∈ db.items → r ∈ (c.run db).2.items
  conflicts : ∀ db, (c.run db).2.conflicts = db.conflicts
  queue : ∀ op payload, c.enqueues = some (r.id, op, payload) → op = .upload

/-- A call that transfers nothing, writes nothing to the local tree, records no conflict and
leaves the row as it is. -/
def Quiet (r : SyncItem) : ∀ β, Call β → Prop
  | _, .db c => QuietSql r c
  | _, .fs c => ∀ fs, (c.run fs).2 = fs
  | _, .drive c => ¬Transfers c
  | _, _ => True

section Statements

lemma quietSql_getById (id : ItemId) : QuietSql r (.getById id) :=
  ⟨fun _ h => h, fun _ => rfl, by simp [DbCall.enqueues]⟩

lemma quietSql_getByRemoteId (id : FileId) : QuietSql r (.getByRemoteId id) :=
  ⟨fun _ h => h, fun _ => rfl, by simp [DbCall.enqueues]⟩

lemma quietSql_getByRelativePath (p : RelPath) : QuietSql r (.getByRelativePath p) :=
  ⟨fun _ h => h, fun _ => rfl, by simp [DbCall.enqueues]⟩

lemma quietSql_nextDue (now : ℕ) : QuietSql r (.nextDue now) :=
  ⟨fun _ h => h, fun _ => rfl, by simp [DbCall.enqueues]⟩

lemma quietSql_markAttempt (id : OpId) (next : ℕ) : QuietSql r (.markAttempt id next) :=
  ⟨fun _ h => h, fun _ => rfl, by simp [DbCall.enqueues]⟩

lemma quietSql_deleteOp (id : OpId) : QuietSql r (.deleteOp id) :=
  ⟨fun _ h => h, fun _ => rfl, by simp [DbCall.enqueues]⟩

lemma quietSql_recordSyncCycle (at' up down : ℕ) : QuietSql r (.recordSyncCycle at' up down) :=
  ⟨fun _ h => h, fun _ => rfl, by simp [DbCall.enqueues]⟩

lemma quietSql_clearIfTransient : QuietSql r .clearIfTransient := by
  refine ⟨fun db h => ?_, fun db => ?_, by simp [DbCall.enqueues]⟩ <;>
  · simp only [DbCall.run]
    split_ifs <;> first | exact h | rfl

lemma quietSql_enqueue (item : ItemId) (payload : Option Payload) (now : ℕ) :
    QuietSql r (.enqueue item .upload payload now) := by
  refine ⟨fun db h => ?_, fun db => ?_, ?_⟩
  · simpa [DbCall.run] using h
  · simp only [DbCall.run, Db.enqueue]
    split_ifs <;> rfl
  · intro op payload' h
    simp only [DbCall.enqueues, Option.some.injEq, Prod.mk.injEq] at h
    exact h.2.1.symm

end Statements

/-! ## One job -/

/-- The row is live and bound to the object, and the file at its path holds the bytes that it
records; all that is queued for it are uploads. -/
structure InStep (env : Env) (r : SyncItem) (rid : FileId) (b : Bytes) (w : World) : Prop where
  row : r ∈ w.db.items
  live : r.trashedAt = none
  bound : r.remoteId = some rid
  md5 : r.md5 = some (env.md5 b)
  size : r.size = some b.length
  file : w.fs.node r.relativePath = some (.file b)
  queue : ∀ o ∈ w.db.ops, o.syncItemId = r.id → o.op = .upload

/-- The change describes the object as a regular file with these bytes at this path. -/
structure Describes (env : Env) (rid : FileId) (p : RelPath) (b : Bytes) (c : RemoteChange) :
    Prop where
  id : c.fileId = rid
  path : c.relativePath = some p
  removed : c.removed = false
  file : ∃ f, c.file = some f ∧ f.trashed = false ∧ f.isFolder = false ∧
    Shortcut.isNative f.mimeType = false ∧ f.md5 = some (env.md5 b) ∧ f.size = some b.length

/-- The change feed's echo is passed over, when the row is the one found for the object. -/
lemma performs_applyRemote {c : RemoteChange} (h : InStep env r rid b w)
    (hc : Describes env rid r.relativePath b c)
    (hfirst : rid ∈ w.inFlight ∨ w.db.items.getByRemoteId rid = some r) :
    (applyRemote env c).Performs (handle env) (Quiet r) w := by
  obtain ⟨f, hfile, htrashed, hfolder, hnative, hmd5, hsize⟩ := hc.file
  by_cases hflight : w.inFlight.contains rid = true
  · simp only [applyRemote, Prog.lift, Prog.bind_eq, Prog.call_bind, Prog.pure_bind,
      Prog.performs_call, handle_inFlight, hc.id, hflight, if_true, Prog.pure_eq,
      Prog.performs_pure, and_true]
    trivial
  · have hrow : w.db.items.getByRemoteId rid = some r :=
      hfirst.resolve_left (by simpa using hflight)
    have hsame : sameFingerprint r f (env.md5 b) = true := by
      simp [sameFingerprint, h.md5, h.size, hsize]
    simp only [applyRemote, Prog.lift, Prog.bind_eq, Prog.call_bind, Prog.pure_bind,
      Prog.performs_call, handle_inFlight, hc.id, hflight, Bool.false_eq_true, if_false,
      hc.removed, hfile, applyPresent, htrashed, hfolder, hnative, hmd5, applyFile, sql,
      handle_db, DbCall.run, hrow, h.live, ne_eq, not_true_eq_false, hc.path, applyEdited, hsame,
      if_true, Prog.pure_eq, Prog.performs_pure, and_true]
    exact ⟨trivial, quietSql_getByRemoteId rid⟩

/-- The watcher's echo queues an upload at most. -/
lemma performs_applyCreated (h : InStep env r rid b w) :
    (applyCreated r.relativePath).Performs (handle env) (Quiet r) w := by
  have hdir : w.fs.isDir r.relativePath = false := by simp [Fs.isDir, h.file]
  have hfile : w.fs.isFile r.relativePath = true := Fs.isFile_iff.mpr ⟨b, h.file⟩
  have hrow : w.db.items.getByRelativePath r.relativePath = some r :=
    ItemTable.getByRelativePath_eq_some.mpr ⟨h.row, rfl⟩
  simp only [applyCreated, io, sql, Prog.lift, Prog.bind_eq, Prog.call_bind, Prog.pure_bind,
    Prog.performs_call, handle_fs, FsCall.run, hdir, Bool.false_eq_true, if_false, hfile, if_true,
    enqueueLocalFile, handle_db, DbCall.run, hrow]
  refine ⟨fun _ => rfl, fun _ => rfl, quietSql_getByRelativePath _, ?_⟩
  split
  · trivial
  · obtain ⟨hok, -⟩ := Db.enqueue_of_row .upload none w.now ⟨r, h.row, rfl⟩
    simp only [enqueueOp, unixNow, sqlTry, Prog.lift, Prog.bind_eq, Prog.call_bind,
      Prog.pure_bind, Prog.performs_call, handle_clock, handle_db, DbCall.run, hok,
      Prog.ofExcept_ok, Prog.pure_eq, Prog.performs_pure, and_true]
    exact ⟨trivial, quietSql_enqueue _ _ _⟩

/-- Executing an upload of the row finds nothing to transfer. -/
lemma run_execute {root : FileId} {op : PendingOperation} (h : InStep env r rid b w)
    (hop : op ∈ w.db.ops) (hitem : op.syncItemId = r.id) :
    (Dispatcher.execute env root op).run (handle env) w = (.ok (), w) ∧
      (Dispatcher.execute env root op).Performs (handle env) (Quiet r) w := by
  have hrow : w.db.items.getById op.syncItemId = some r :=
    ItemTable.getById_eq_some.mpr ⟨h.row, hitem.symm⟩
  have hfile : w.fs.isFile r.relativePath = true := Fs.isFile_iff.mpr ⟨b, h.file⟩
  have hread : w.fs.readFile r.relativePath = .ok b := by
    rw [Fs.readFile, h.file]
  simp only [Dispatcher.execute, sql, Prog.lift, Prog.bind_eq, Prog.call_bind, Prog.pure_bind,
    Prog.run_call, Prog.performs_call, handle_db, DbCall.run, hrow, Dispatcher.executeItem,
    h.queue op hop hitem, Dispatcher.executeUpload, io, handle_fs, FsCall.run, hfile, if_true,
    Dispatcher.computeLocal, ioTry, hread, Prog.ofExcept_ok, h.md5, h.size, and_self,
    Prog.pure_eq, Prog.run_pure, Prog.performs_pure, and_true, true_and]
  exact ⟨quietSql_getById _, fun _ => rfl, fun _ => rfl⟩

/-- An iteration of the drain loop that takes an upload of the row. -/
lemma performs_drainOne {root : FileId} {op : PendingOperation} (h : InStep env r rid b w)
    (hnext : OpTable.nextDue w.db.ops w.now = some op) (hitem : op.syncItemId = r.id) :
    (Dispatcher.drainOne env root).Performs (handle env) (Quiet r) w := by
  obtain ⟨hop, -⟩ := OpTable.nextDue_mem hnext
  obtain ⟨hrun, hquiet⟩ := @run_execute env r rid b w root op h hop hitem
  simp only [Dispatcher.drainOne, unixNow, sql, Prog.lift, Prog.bind_eq, Prog.call_bind,
    Prog.pure_bind, Prog.performs_call, handle_clock, handle_db, DbCall.run, hnext]
  refine ⟨trivial, quietSql_nextDue _, ?_⟩
  split
  · exact ⟨quietSql_markAttempt _ _, trivial⟩
  · refine hquiet.attempt.bind fun x w' hx => ?_
    rw [Prog.run_attempt, hrun] at hx
    obtain ⟨rfl, rfl⟩ : .ok () = x ∧ w = w' := by simpa using hx
    simp only [Dispatcher.completed, h.queue op hop hitem, unixNow, sql, Prog.lift, Prog.bind_eq,
      Prog.call_bind, Prog.pure_bind]
    split
    · exact ⟨trivial, quietSql_recordSyncCycle _ _ _, quietSql_clearIfTransient,
        quietSql_deleteOp _, trivial⟩
    · exact ⟨quietSql_clearIfTransient, quietSql_deleteOp _, trivial⟩

/-! ## Any number of echoes -/

/-- The jobs that echoes of the transfer lead to: a change that describes the object as it is,
while the row is the one found for the object or the object is in flight; an event that the file
was created or modified; and an iteration of the drain loop that takes an operation of the row. -/
inductive Work (env : Env) (r : SyncItem) (rid : FileId) (b : Bytes) (w : World) : Task Unit → Prop
  | change (c : RemoteChange) (echo : Describes env rid r.relativePath b c)
      (first : rid ∈ w.inFlight ∨ w.db.items.getByRemoteId rid = some r) :
      Work env r rid b w (applyRemote env c)
  | created : Work env r rid b w (applyLocal (.created r.relativePath))
  | modified : Work env r rid b w (applyLocal (.modified r.relativePath))
  | drain (root : FileId) (op : PendingOperation)
      (next : OpTable.nextDue w.db.ops w.now = some op) (own : op.syncItemId = r.id) :
      Work env r rid b w (void (Dispatcher.drainOne env root))

/-- What does not concern the file: the row and the file stay as they are, and nothing is queued
for the row. -/
structure Elsewhere (r : SyncItem) (w w' : World) : Prop where
  row : r ∈ w'.db.items
  file : w'.fs.node r.relativePath = w.fs.node r.relativePath
  queue : ∀ o ∈ w'.db.ops, o.syncItemId = r.id → ∃ o₀ ∈ w.db.ops, DbCall.SameWork o₀ o

/-- The states reached from `w₀` by jobs that echoes lead to, in any order, with anything in
between that does not concern the file. -/
inductive Later (env : Env) (r : SyncItem) (rid : FileId) (b : Bytes) (w₀ : World) : World → Prop
  | start : Later env r rid b w₀ w₀
  | work {w : World} {p : Task Unit} (before : Later env r rid b w₀ w) (work : Work env r rid b w p) :
      Later env r rid b w₀ (runTask env p w).2
  | elsewhere {w w' : World} (before : Later env r rid b w₀ w) (other : Elsewhere r w w') :
      Later env r rid b w₀ w'

/-- A quiet call leaves the file in step. -/
lemma InStep.call {β : Type} {c : Call β} (hc : Quiet r β c) (h : InStep env r rid b w) :
    InStep env r rid b (handle env β c w).2 := by
  cases c with
  | db c =>
    refine ⟨hc.row _ h.row, h.live, h.bound, h.md5, h.size, h.file, fun o ho hitem => ?_⟩
    rcases DbCall.mem_ops_run ho with ⟨o', ho', hsame⟩ | ⟨henq, -⟩
    · rw [← hsame.2.2.1]
      exact h.queue o' ho' (hsame.2.1.trans hitem)
    · rw [hitem] at henq
      exact hc.queue _ _ henq
  | fs c =>
    refine ⟨h.row, h.live, h.bound, h.md5, h.size, ?_, h.queue⟩
    rw [handle_fs, hc w.fs]
    exact h.file
  | drive c => exact ⟨h.row, h.live, h.bound, h.md5, h.size, h.file, h.queue⟩
  | clock => exact h
  | random range => exact ⟨h.row, h.live, h.bound, h.md5, h.size, h.file, h.queue⟩
  | mark id => exact ⟨h.row, h.live, h.bound, h.md5, h.size, h.file, h.queue⟩
  | unmark id => exact ⟨h.row, h.live, h.bound, h.md5, h.size, h.file, h.queue⟩
  | inFlight id => exact h

/-- Every job that an echo leads to is quiet. -/
lemma Work.performs {p : Task Unit} (h : InStep env r rid b w) (hp : Work env r rid b w p) :
    p.Performs (handle env) (Quiet r) w := by
  cases hp with
  | change c echo first => exact performs_applyRemote h echo first
  | created => exact performs_applyCreated h
  | modified => exact performs_applyCreated h
  | drain root op next own =>
    exact (performs_drainOne h next own).bind fun _ _ _ => trivial

/-- **The file stays in step** in every state reached.

**Proof sketch.** Induction on the run: a job makes quiet calls only, and each of them leaves the
file in step; so does what does not concern the file. -/
lemma inStep_of_later {w₀ : World} (h₀ : InStep env r rid b w₀) (h : Later env r rid b w₀ w) :
    InStep env r rid b w := by
  induction h with
  | start => exact h₀
  | work _ work ih =>
    exact (work.performs ih).invariant (fun β c s hc hs => InStep.call hc hs) ih
  | elsewhere _ other ih =>
    refine ⟨other.row, ih.live, ih.bound, ih.md5, ih.size, other.file.trans ih.file, ?_⟩
    intro o ho hitem
    obtain ⟨o₀, ho₀, hsame⟩ := other.queue o ho hitem
    rw [← hsame.2.2.1]
    exact ih.queue o₀ ho₀ (hsame.2.1.trans hitem)

/-- **No transfer feedback loop**: after a completed transfer, with nothing but uploads queued for
the row, every delivery of an echo and every iteration of the drain loop on what the echoes queued
transfers nothing, writes nothing to the local tree, records no conflict and leaves the row as it
is, as long as each change is delivered while the row is the one found for the object. -/
theorem echoes_quiet {w₀ : World} (h₀ : InStep env r rid b w₀) (h : Later env r rid b w₀ w) :
    InStep env r rid b w ∧
      ∀ p, Work env r rid b w p → p.Performs (handle env) (Quiet r) w :=
  have hw := inStep_of_later h₀ h
  ⟨hw, fun _ hp => hp.performs hw⟩

/-! ## A second row -/

/-- The initial pass is stopped when `a.txt` has its row, before the cursor is stored. -/
def interrupted : World :=
  performAll .plain [.job (.initial 5 (.id 2)) 8] (World.fresh (sampleDrive [65]))

/-- Meanwhile the object is renamed to `b.txt` on Drive. -/
def renamedMeanwhile : World :=
  { interrupted with
    remote := ⟨(sampleDrive [65]).change 3 (fun x => { x with name := "b.txt" }) fun _ => rfl, []⟩ }

/-- The initial pass of the next start downloads it again, and then the user edits `a.txt`. -/
def twoRows : World :=
  let w := performAll .plain [.outside renamedMeanwhile, .job (.initial 5 (.id 2)) 100] interrupted
  match w.fs.writeFile ["a.txt"] [66] with
  | .ok fs => performAll .plain [.outside { w with fs }] w
  | .error _ => w

/-- The row of `b.txt`. -/
def secondRow : SyncItem :=
  ⟨2, ["b.txt"], .file, some (.id 3), some 1, some "A", .synced, none⟩

/-- The change that describes the object as it is. -/
def echo : RemoteChange :=
  ⟨.id 3, false, some ⟨.id 3, "b.txt", "text/plain", some 1, some "A", [.id 2], false⟩,
    some ["b.txt"]⟩

lemma inStep_twoRows : InStep .plain secondRow (.id 3) [65] twoRows where
  row := by
    rw [ItemTable.mem_def, Data.Serial.mem_def]
    decide
  live := rfl
  bound := rfl
  md5 := by decide
  size := rfl
  file := by decide
  queue := by
    have hempty : twoRows.db.ops.table.rows = [] := by decide
    intro o ho
    rw [Data.Serial.mem_def, hempty] at ho
    simp at ho

lemma describes_echo : Describes .plain (.id 3) ["b.txt"] [65] echo :=
  ⟨rfl, rfl, rfl, _, rfl, rfl, rfl, by decide, by decide, rfl⟩

/-- The echo of a file in step is taken for a rename of the other row that is bound to the object:
the next iteration of the drain loop moves `a.txt` over the file. -/
theorem second_row_takes_echo :
    InStep .plain secondRow (.id 3) [65] twoRows ∧ twoRows.db.ops.table.rows = [] ∧
      Describes .plain (.id 3) ["b.txt"] [65] echo ∧
      (performAll .plain [.job (.batch ⟨[echo], 4⟩) 100, .job (.drain (.id 2)) 100]
        twoRows).fs.node ["b.txt"] = some (.file [66]) :=
  ⟨inStep_twoRows, by decide, describes_echo, by decide⟩

/-- After the download of `a.txt`, its change is delivered once more and the watcher reports its
creation: the upload that this queues is quiet, and so are all further echoes. -/
theorem download_echoes_quiet :
    let r : SyncItem := ⟨1, ["a.txt"], .file, some (.id 3), some 1, some "A", .pendingLocal, none⟩
    let told := (runTask .plain (applyRemote .plain (sampleChange [65])) sampleSynced).2
    let queued := (runTask .plain (applyLocal (.created ["a.txt"])) told).2
    InStep .plain r (.id 3) [65] queued ∧ ∀ p, Work .plain r (.id 3) [65] queued p →
      p.Performs (handle .plain) (Quiet r) queued := by
  intro r told queued
  have h₀ : InStep .plain r (.id 3) [65] sampleSynced := by
    refine ⟨?_, rfl, rfl, by decide, rfl, by decide, ?_⟩
    · rw [ItemTable.mem_def, Data.Serial.mem_def]
      decide
    · have hempty : sampleSynced.db.ops.table.rows = [] := by decide
      intro o ho
      rw [Data.Serial.mem_def, hempty] at ho
      simp at ho
  have hdescribes : Describes .plain (.id 3) ["a.txt"] [65] (sampleChange [65]) :=
    ⟨rfl, rfl, rfl, _, rfl, rfl, rfl, by decide, by decide, rfl⟩
  have htold : Later .plain r (.id 3) [65] sampleSynced told :=
    .work .start (.change (sampleChange [65]) hdescribes (.inr (by decide)))
  exact echoes_quiet h₀ (.work htold .created)

end AirDrive.Echo
