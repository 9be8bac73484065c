import AirDrive.System.Calls

set_option relaxedAutoImplicit false
set_option autoImplicit false

/-!
# What the programs can do to the queue and to the cursor

Only some calls add to the queue, change the retry data of an operation or take it from the queue,
or move the cursor. Here every program of the daemon is given the list of such calls that it can
make at all, whatever the answers of its calls are.

## Main definitions

* `AirDrive.Effort`, `AirDrive.effortOf` — the calls that concern the queue or the cursor.
* `AirDrive.Within` — a program that makes only listed ones.
* `AirDrive.handling`, `AirDrive.Handled` — the calls of the handlers.
* `AirDrive.Plain` — a program that makes none, and that leaves the stored block alone.

## Main results

* `AirDrive.plain_execute` — an operation is such a program.
* `AirDrive.within_drainOne` — the drain loop makes attempts only.
* `AirDrive.handled_applyLocal`, `AirDrive.handled_applyRemote`,
  `AirDrive.handled_startupLocalScan` — the calls of the handlers, and the operations that they
  enqueue.
* `AirDrive.within_tick`, `AirDrive.within_prepare` — the poller and the start.
* `AirDrive.within_task`, `AirDrive.within_task_cursor` — no other job makes attempts, and which
  jobs move the cursor.
-/

namespace AirDrive

open Effect

/-- The calls that concern the queue or the cursor. -/
inductive Effort
  /-- An operation is enqueued. -/
  | enqueue (op : Operation)
  /-- An operation is postponed or taken from the queue. -/
  | attempt
  /-- The cursor is moved. -/
  | cursor
deriving DecidableEq, Repr

/-- What a statement is for the queue and the cursor. -/
def effortOfDb {β : Type} : DbCall β → Option Effort
  | .enqueue _ op _ _ => some (.enqueue op)
  | .markAttempt _ _ => some .attempt
  | .deleteOp _ => some .attempt
  | .setCursor _ => some .cursor
  | _ => none

/-- What a call is for the queue and the cursor. -/
def effortOf {β : Type} : Call β → Option Effort
  | .db c => effortOfDb c
  | _ => none

/-- The program makes only calls that `S` allows. -/
def Within {α : Type} (S : Effort → Prop) (p : Task α) : Prop :=
  p.Only fun _ c => ∀ e, effortOf c = some e → S e

section Building

variable {α β : Type} {S S' : Effort → Prop}

lemma Within.mono {p : Task α} (h : Within S p) (hS : ∀ e, S e → S' e) : Within S' p :=
  Prog.Only.mono h fun _ _ hc e he => hS e (hc e he)

lemma Within.bind {p : Task α} {f : α → Task β} (hp : Within S p) (hf : ∀ a, Within S (f a)) :
    Within S (p.bind f) := Prog.Only.bind hp hf

lemma Within.attempt {p : Task α} (hp : Within S p) : Within S p.attempt := Prog.Only.attempt hp

lemma Within.forEach {l : List α} {f : α → Task Unit} (hf : ∀ a ∈ l, Within S (f a)) :
    Within S (Prog.forEach l f) := Prog.Only.forEach hf

lemma Within.foldM {l : List α} {f : β → α → Task β} {b : β}
    (hf : ∀ a ∈ l, ∀ b, Within S (f b a)) : Within S (Prog.foldM l f b) := Prog.Only.foldM hf

@[simp] lemma within_pure (a : α) : Within S (.pure a : Task α) := trivial

@[simp] lemma within_fail (e : Error) : Within S (.fail e : Task α) := trivial

@[simp] lemma within_ofExcept (x : Except Error α) : Within S (.ofExcept x : Task α) :=
  Prog.only_ofExcept x

lemma within_sql {c : DbCall α} (hc : ∀ e, effortOfDb c = some e → S e) : Within S (sql c) :=
  ⟨hc, fun _ => trivial⟩

lemma within_sqlTry {c : DbCall (Except Error α)} (hc : ∀ e, effortOfDb c = some e → S e) :
    Within S (sqlTry c) :=
  ⟨hc, fun _ => by simp⟩

/-- A statement that concerns neither the queue nor the cursor. -/
lemma within_sql_plain {c : DbCall α} (hc : effortOfDb c = none) : Within S (sql c) :=
  within_sql (by simp [hc])

@[simp] lemma within_io (c : FsCall α) : Within S (io c) := by
  simp [Within, io, Prog.lift, effortOf]

@[simp] lemma within_ioTry (c : FsCall (Except Error α)) : Within S (ioTry c) := by
  simp [Within, ioTry, effortOf]

@[simp] lemma within_request (c : DriveCall α) : Within S (request c) := by
  simp [Within, request, effortOf]

@[simp] lemma within_unixNow : Within S unixNow := by simp [Within, unixNow, Prog.lift, effortOf]

lemma Within.withMark {id : FileId} {body : Task α} (h : Within S body) :
    Within S (withMark id body) := by
  have hmark : ∀ c : Call Unit, effortOf c = none → Within S (.lift c : Task Unit) := fun c hc =>
    ⟨by simp [hc], fun _ => trivial⟩
  exact (hmark _ rfl).bind fun _ => h.attempt.bind fun x => (hmark _ rfl).bind fun _ =>
    within_ofExcept x

end Building

/-! ## Calls of an operation -/

/-- A statement that concerns neither the queue nor the cursor nor the block. -/
def plainDb {β : Type} : DbCall β → Bool
  | .enqueue _ _ _ _ => false
  | .nextDue _ => false
  | .markAttempt _ _ => false
  | .deleteOp _ => false
  | .setCursor _ => false
  | .setBlocked _ => false
  | .clearIfTransient => false
  | _ => true

/-- A call that concerns neither the queue nor the cursor nor the block. -/
def plainCall {β : Type} : Call β → Bool
  | .db c => plainDb c
  | _ => true

/-- The program concerns neither the queue nor the cursor nor the block. -/
def Plain {α : Type} (p : Task α) : Prop := p.Only fun _ c => plainCall c = true

section Building

variable {α β : Type}

lemma Plain.bind {p : Task α} {f : α → Task β} (hp : Plain p) (hf : ∀ a, Plain (f a)) :
    Plain (p.bind f) := Prog.Only.bind hp hf

lemma Plain.attempt {p : Task α} (hp : Plain p) : Plain p.attempt := Prog.Only.attempt hp

@[simp] lemma plain_pure (a : α) : Plain (.pure a : Task α) := trivial

@[simp] lemma plain_fail (e : Error) : Plain (.fail e : Task α) := trivial

@[simp] lemma plain_ofExcept (x : Except Error α) : Plain (.ofExcept x : Task α) :=
  Prog.only_ofExcept x

lemma plain_sql {c : DbCall α} (hc : plainDb c = true) : Plain (sql c) :=
  ⟨hc, fun _ => trivial⟩

@[simp] lemma plain_io (c : FsCall α) : Plain (io c) := ⟨rfl, fun _ => trivial⟩

@[simp] lemma plain_ioTry (c : FsCall (Except Error α)) : Plain (ioTry c) :=
  ⟨rfl, fun _ => by simp⟩

@[simp] lemma plain_request (c : DriveCall α) : Plain (request c) := ⟨rfl, fun _ => by simp⟩

@[simp] lemma plain_unixNow : Plain unixNow := ⟨rfl, fun _ => trivial⟩

lemma Plain.withMark {id : FileId} {body : Task α} (h : Plain body) : Plain (withMark id body) := by
  have hmark : Plain (.lift (.mark id) : Task Unit) := ⟨rfl, fun _ => trivial⟩
  have hunmark : Plain (.lift (.unmark id) : Task Unit) := ⟨rfl, fun _ => trivial⟩
  exact hmark.bind fun _ => h.attempt.bind fun x => hunmark.bind fun _ => plain_ofExcept x

/-- A plain program makes none of the listed calls. -/
lemma Plain.within {S : Effort → Prop} {p : Task α} (h : Plain p) : Within S p := by
  refine Prog.Only.mono h fun β c hc e he => ?_
  cases c with
  | db c => cases c <;> cases hc <;> cases he
  | _ => cases he

end Building

variable {S : Effort → Prop} {env : Env}

/-! ## The engine and the dispatcher -/

lemma plain_of_executing {item : SyncItem} {β : Type} {c : Call β} (hc : Calls.Executing item c) :
    plainCall c = true := by
  cases c with
  | db c => cases c <;> first | rfl | exact hc.elim
  | _ => rfl

/-- **An operation** leaves the queue, the cursor and the block to the drain loop. -/
theorem plain_execute {root : FileId} {op : PendingOperation} :
    Plain (Dispatcher.execute env root op) := by
  refine (plain_sql rfl).bind fun row => ?_
  cases row with
  | none => trivial
  | some item =>
    exact (Calls.executing_executeItem env root op item).mono fun _ _ => plain_of_executing

lemma within_execute {root : FileId} {op : PendingOperation} :
    Within S (Dispatcher.execute env root op) := plain_execute.within

lemma within_completed {op : PendingOperation} (hS : S .attempt) :
    Within S (Dispatcher.completed op) := by
  have hend : Within S (do
      let _ ← sql .clearIfTransient
      sql (.deleteOp op.id)) :=
    (within_sql_plain rfl).bind fun _ => within_sql (by simp [effortOfDb, hS])
  unfold Dispatcher.completed
  split
  · exact within_unixNow.bind fun _ => (within_sql_plain rfl).bind fun _ => hend
  · exact hend

lemma within_failed {op : PendingOperation} {e : Error} (hS : S .attempt) :
    Within S (Dispatcher.failed op e) := by
  have hmark : ∀ next, Within S (sql (.markAttempt op.id next)) := fun next =>
    within_sql (by simp [effortOfDb, hS])
  unfold Dispatcher.failed
  split
  · exact (within_sql_plain rfl).bind fun _ => within_unixNow.bind fun _ => (hmark _).bind
      fun _ => trivial
  · have hdelay : Within S (Dispatcher.backoffSeconds (op.attempts + 1)) := by
      simp [Within, Dispatcher.backoffSeconds, Prog.lift, effortOf]
    exact hdelay.bind fun _ => within_unixNow.bind fun _ => (hmark _).bind fun _ => trivial

/-- **The drain loop** changes the queue by its own bookkeeping only. -/
theorem within_drainOne {root : FileId} (hS : S .attempt) :
    Within S (Dispatcher.drainOne env root) := by
  refine within_unixNow.bind fun now => (within_sql_plain rfl).bind fun next => ?_
  cases next with
  | none => trivial
  | some op =>
    simp only
    split
    · exact (within_sql (by simp [effortOfDb, hS])).bind fun _ => trivial
    · refine within_execute.attempt.bind fun res => ?_
      cases res with
      | ok u => exact (within_completed hS).bind fun _ => trivial
      | error e => exact within_failed hS

/-! ## The handlers -/

/-- The calls that the handlers of events and changes and the startup scan can make. -/
def handling {β : Type} : Call β → Bool
  | .db (.insertItem _) => true
  | .db (.getByRelativePath _) => true
  | .db (.getByRemoteId _) => true
  | .db .listForMapping => true
  | .db (.setRelativePath _ _) => true
  | .db (.clearTrashed _) => true
  | .db (.deleteItem _) => true
  | .db (.enqueue _ _ _ _) => true
  | .db (.insertConflict _ _ _ _) => true
  | .db .listUnresolved => true
  | .db (.deleteConflict _) => true
  | .db (.setCursor _) => true
  | .db _ => false
  | .fs (.isFile _) => true
  | .fs (.isDir _) => true
  | .fs (.pathExists _) => true
  | .fs (.readFile _) => true
  | .fs (.walk _) => true
  | .fs (.rename _ _) => true
  | .fs _ => false
  | .drive (.getFile _) => true
  | .drive _ => false
  | .clock => true
  | .inFlight _ => true
  | _ => false

/-- The program makes only such calls, and of those that concern the queue or the cursor only the
ones that `S` allows. -/
def Handled {α : Type} (S : Effort → Prop) (p : Task α) : Prop :=
  p.Only fun _ c => handling c = true ∧ ∀ e, effortOf c = some e → S e

section Handled

variable {α β : Type} {S : Effort → Prop}

lemma Handled.within {p : Task α} (h : Handled S p) : Within S p :=
  Prog.Only.mono h fun _ _ hc => hc.2

lemma Handled.handling {p : Task α} (h : Handled S p) : p.Only fun _ c => handling c = true :=
  Prog.Only.mono h fun _ _ hc => hc.1

lemma Handled.bind {p : Task α} {f : α → Task β} (hp : Handled S p) (hf : ∀ a, Handled S (f a)) :
    Handled S (p.bind f) := Prog.Only.bind hp hf

lemma Handled.attempt {p : Task α} (hp : Handled S p) : Handled S p.attempt :=
  Prog.Only.attempt hp

lemma handled_pure (a : α) : Handled S (.pure a : Task α) := trivial

lemma handled_sql {c : DbCall α} (hc : AirDrive.handling (.db c) = true)
    (hS : ∀ e, effortOfDb c = some e → S e) : Handled S (sql c) := ⟨⟨hc, hS⟩, fun _ => trivial⟩

lemma handled_sqlTry {c : DbCall (Except Error α)} (hc : AirDrive.handling (.db c) = true)
    (hS : ∀ e, effortOfDb c = some e → S e) : Handled S (sqlTry c) :=
  ⟨⟨hc, hS⟩, fun _ => Prog.only_ofExcept _⟩

/-- A statement that concerns neither the queue nor the cursor. -/
lemma handled_sql_plain {c : DbCall α} (hc : AirDrive.handling (.db c) = true)
    (he : effortOfDb c = none) : Handled S (sql c) := handled_sql hc (by simp [he])

lemma handled_sqlTry_plain {c : DbCall (Except Error α)} (hc : AirDrive.handling (.db c) = true)
    (he : effortOfDb c = none) : Handled S (sqlTry c) := handled_sqlTry hc (by simp [he])

lemma handled_io {c : FsCall α} (hc : AirDrive.handling (.fs c) = true) : Handled S (io c) :=
  ⟨⟨hc, by simp [effortOf]⟩, fun _ => trivial⟩

lemma handled_ioTry {c : FsCall (Except Error α)} (hc : AirDrive.handling (.fs c) = true) :
    Handled S (ioTry c) :=
  ⟨⟨hc, by simp [effortOf]⟩, fun _ => Prog.only_ofExcept _⟩

lemma handled_getFile (id : FileId) : Handled S (request (.getFile id)) :=
  ⟨⟨rfl, by simp [effortOf]⟩, fun _ => Prog.only_ofExcept _⟩

lemma handled_unixNow : Handled S unixNow := ⟨⟨rfl, by simp [effortOf]⟩, fun _ => trivial⟩

end Handled

/-! ## Events and changes -/

lemma handled_enqueueOp {item : ItemId} {op : Operation} {payload : Option Payload}
    (hS : S (.enqueue op)) : Handled S (Continuous.enqueueOp item op payload) :=
  handled_unixNow.bind fun _ =>
    (handled_sqlTry rfl (by simp [effortOfDb, hS])).bind fun _ => trivial

lemma handled_enqueueLocalDir {rel : RelPath} (hS : S (.enqueue .createDirRemote)) :
    Handled S (Continuous.enqueueLocalDir rel) := by
  refine (handled_sql_plain rfl rfl).bind fun row => ?_
  cases row with
  | some item => trivial
  | none => exact (handled_sqlTry_plain rfl rfl).bind fun _ => handled_enqueueOp hS

lemma handled_enqueueLocalFile {rel : RelPath} (hS : S (.enqueue .upload)) :
    Handled S (Continuous.enqueueLocalFile rel) := by
  refine (handled_sql_plain rfl rfl).bind fun row => ?_
  cases row with
  | some item =>
    simp only
    split
    · trivial
    · exact handled_enqueueOp hS
  | none => exact (handled_sqlTry_plain rfl rfl).bind fun _ => handled_enqueueOp hS

lemma handled_applyCreated {p : RelPath} (hdir : S (.enqueue .createDirRemote))
    (hfile : S (.enqueue .upload)) : Handled S (Continuous.applyCreated p) := by
  refine (handled_io rfl).bind fun isDir => ?_
  split
  · refine (handled_enqueueLocalDir hdir).bind fun _ => (handled_io rfl).bind fun entries => ?_
    refine Prog.Only.forEach fun e _ => ?_
    unfold Continuous.enqueueLocalEntry
    split
    · exact handled_enqueueLocalDir hdir
    · exact handled_enqueueLocalFile hfile
  · refine (handled_io rfl).bind fun isFile => ?_
    split
    · exact handled_enqueueLocalFile hfile
    · trivial

lemma handled_cleanupOnLocalDelete {p : RelPath} : Handled S (Conflict.cleanupOnLocalDelete p) := by
  refine (handled_sql_plain rfl rfl).bind fun rows => Prog.Only.forEach fun row _ => ?_
  split
  · exact handled_sql_plain rfl rfl
  · trivial

lemma handled_applyDeleted {p : RelPath} (hS : S (.enqueue .deleteRemote)) :
    Handled S (Continuous.applyDeleted p) := by
  refine handled_cleanupOnLocalDelete.bind fun _ => (handled_sql_plain rfl rfl).bind fun row => ?_
  cases row with
  | none => trivial
  | some item =>
    simp only
    split
    · trivial
    · split
      · exact handled_enqueueOp hS
      · exact handled_sql_plain rfl rfl

lemma handled_applyRenamed {from' to' : RelPath} (hdir : S (.enqueue .createDirRemote))
    (hfile : S (.enqueue .upload)) (hrename : S (.enqueue .renameRemote)) :
    Handled S (Continuous.applyRenamed from' to') := by
  refine (handled_sql_plain rfl rfl).bind fun row => ?_
  cases row with
  | none => exact handled_applyCreated hdir hfile
  | some item =>
    simp only
    split
    · exact (handled_sql_plain rfl rfl).bind fun _ => handled_enqueueOp hfile
    · exact handled_enqueueOp hrename

/-- **A watcher event** enqueues operations on Drive only. -/
theorem handled_applyLocal {ev : WatchEvent} (hdir : S (.enqueue .createDirRemote))
    (hfile : S (.enqueue .upload)) (hrename : S (.enqueue .renameRemote))
    (hdelete : S (.enqueue .deleteRemote)) : Handled S (Continuous.applyLocal ev) := by
  cases ev with
  | created p => exact handled_applyCreated hdir hfile
  | modified p => exact handled_applyCreated hdir hfile
  | deleted p => exact handled_applyDeleted hdelete
  | renamed from' to' => exact handled_applyRenamed hdir hfile hrename

lemma handled_renamedDir {item : SyncItem} {file : FileResource} {rel : RelPath} :
    Handled S (Continuous.renamedDir item file rel) := by
  unfold Continuous.renamedDir
  cases file.parents.head? with
  | none => trivial
  | some parent =>
    simp only
    split
    · refine (handled_sql_plain rfl rfl).bind fun dir => ?_
      cases dir with
      | none => trivial
      | some dir =>
        simp only
        split <;> trivial
    · trivial

lemma handled_openConflict {item : ItemId} {rel : RelPath} {now : ℕ} :
    Handled S (Conflict.openConflict item rel now) := by
  refine Handled.bind ?_ fun _ => (handled_sqlTry_plain rfl rfl).bind fun _ => trivial
  refine (handled_io rfl).bind fun present => ?_
  split
  · refine (handled_io rfl).bind fun res => ?_
    cases res <;> trivial
  · trivial

lemma handled_localVersion {item : SyncItem} {md5 : String} :
    Handled S (Continuous.localVersion env item md5) := by
  refine (handled_io rfl).bind fun isFile => ?_
  split
  · cases item.md5 with
    | none => trivial
    | some synced =>
      refine (handled_io rfl).bind fun res => ?_
      cases res with
      | error e => trivial
      | ok bytes =>
        simp only
        split
        · trivial
        · split <;> trivial
  · trivial

lemma handled_applyFile {change : RemoteChange} {file : FileResource} {md5 : String}
    (hdown : S (.enqueue .download)) (hrename : S (.enqueue .renameLocal)) :
    Handled S (Continuous.applyFile env change file md5) := by
  have hmoved : ∀ item rel, Handled S (Continuous.applyMoved item file md5 rel) := by
    intro item rel
    refine handled_renamedDir.bind fun dir => ?_
    cases dir with
    | some dir => exact handled_enqueueOp hrename
    | none =>
      refine (handled_enqueueOp hrename).bind fun _ => ?_
      split
      · trivial
      · exact handled_enqueueOp hdown
  have hedited : ∀ item, Handled S (Continuous.applyEdited env item file md5) := by
    intro item
    unfold Continuous.applyEdited
    split
    · trivial
    · refine handled_localVersion.bind fun version => ?_
      cases version with
      | agrees => trivial
      | edited =>
        exact handled_unixNow.bind fun _ => handled_openConflict.bind fun _ =>
          handled_enqueueOp hdown
      | behind => exact handled_enqueueOp hdown
  refine (handled_sql_plain rfl rfl).bind fun row => ?_
  cases row with
  | some item =>
    simp only
    split
    · exact (handled_sql_plain rfl rfl).bind fun _ => handled_enqueueOp hdown
    · cases change.relativePath with
      | none => exact hedited item
      | some rel =>
        simp only
        split
        · exact hmoved item rel
        · exact hedited item
  | none =>
    refine (handled_sql_plain rfl rfl).bind fun row => ?_
    cases row with
    | some item => trivial
    | none => exact (handled_sqlTry_plain rfl rfl).bind fun _ => handled_enqueueOp hdown

lemma handled_applyFolder {id : FileId} {file : FileResource} {rel : RelPath}
    (hdir : S (.enqueue .createDirLocal)) (hrename : S (.enqueue .renameLocal)) :
    Handled S (Continuous.applyFolder id file rel) := by
  refine (handled_sql_plain rfl rfl).bind fun row => ?_
  cases row with
  | none =>
    refine (handled_sql_plain rfl rfl).bind fun row => ?_
    cases row with
    | some item => trivial
    | none => exact (handled_sqlTry_plain rfl rfl).bind fun _ => handled_enqueueOp hdir
  | some existing =>
    simp only
    split
    · exact handled_enqueueOp hrename
    · trivial

lemma handled_applyNative {id : FileId} {file : FileResource} {rel : RelPath}
    (hwrite : S (.enqueue .writeShortcut)) (hrename : S (.enqueue .renameLocal)) :
    Handled S (Continuous.applyNative id file rel) := by
  refine (handled_sql_plain rfl rfl).bind fun row => ?_
  cases row with
  | none => exact (handled_sqlTry_plain rfl rfl).bind fun _ => handled_enqueueOp hwrite
  | some existing =>
    simp only
    split
    · exact handled_enqueueOp hrename
    · split
      · exact (handled_sql_plain rfl rfl).bind fun _ => handled_enqueueOp hwrite
      · trivial

/-- **A remote change** enqueues local operations only. -/
theorem handled_applyRemote {change : RemoteChange} (hdown : S (.enqueue .download))
    (hrename : S (.enqueue .renameLocal)) (hdelete : S (.enqueue .deleteLocal))
    (hdir : S (.enqueue .createDirLocal)) (hwrite : S (.enqueue .writeShortcut)) :
    Handled S (Continuous.applyRemote env change) := by
  have hflight : Handled S (.lift (.inFlight change.fileId) : Task Bool) :=
    ⟨⟨rfl, by simp [effortOf]⟩, fun _ => trivial⟩
  refine hflight.bind fun flying => ?_
  split
  · trivial
  · split
    · refine (handled_sql_plain rfl rfl).bind fun row => ?_
      cases row with
      | none => trivial
      | some item => exact handled_enqueueOp hdelete
    · cases change.file with
      | none => trivial
      | some file =>
        simp only [Continuous.applyPresent]
        split
        · refine (handled_sql_plain rfl rfl).bind fun row => ?_
          cases row with
          | none => trivial
          | some item =>
            simp only
            split
            · exact handled_enqueueOp hdelete
            · trivial
        · split
          · exact handled_applyFolder hdir hrename
          · split
            · exact handled_applyNative hwrite hrename
            · cases file.md5 with
              | none => trivial
              | some md5 => exact handled_applyFile hdown hrename

/-- The consumer moves the cursor at the end of a batch. -/
lemma handled_applyBatch {b : RemoteBatch} (hdown : S (.enqueue .download))
    (hrename : S (.enqueue .renameLocal)) (hdelete : S (.enqueue .deleteLocal))
    (hdir : S (.enqueue .createDirLocal)) (hwrite : S (.enqueue .writeShortcut))
    (hcursor : S .cursor) : Handled S (Consumer.applyBatch env b) := by
  refine Handled.bind (Prog.Only.foldM fun c _ allApplied => ?_) fun allApplied => ?_
  · refine (handled_applyRemote hdown hrename hdelete hdir hwrite).attempt.bind fun res => ?_
    cases res <;> trivial
  · split
    · exact handled_sql rfl (by simp [effortOfDb, hcursor])
    · trivial

/-! ## The poller -/

lemma effortOf_of_background {β : Type} {c : Call β} (hc : Calls.background c = true) :
    effortOf c = none := by
  cases c with
  | db c => cases c <;> first | rfl | cases hc
  | _ => rfl

/-- A background program touches neither the queue nor the cursor. -/
lemma within_of_background {α : Type} {p : Task α}
    (h : p.Only fun _ c => Calls.background c = true) : Within S p :=
  Prog.Only.mono h fun _ _ hc e he => by cases (effortOf_of_background hc).symm.trans he

lemma within_processChange {fuel : ℕ} {root : FileId} {cache : PathCache} {c : RawChange} :
    Within S (Poller.processChange fuel root cache c) :=
  within_of_background Calls.background_processChange

/-- **A round of the poller** touches neither the queue nor the cursor. -/
lemma within_tick {fuel : ℕ} {root : FileId} {cache : PathCache} :
    Within S (Poller.tick fuel root cache) := within_of_background Calls.background_tick

/-! ## Starting -/

lemma handled_remoteMatchesSynced {item : SyncItem} :
    Handled S (StartupScan.remoteMatchesSynced item) := by
  unfold StartupScan.remoteMatchesSynced
  split
  · trivial
  · exact (handled_getFile _).attempt.bind fun res => by cases res <;> trivial

lemma handled_scanEntry {e : Fs.LocalEntry} (hdir : S (.enqueue .createDirRemote))
    (hfile : S (.enqueue .upload)) : Handled S (StartupScan.scanEntry env e) := by
  unfold StartupScan.scanEntry
  split
  · trivial
  · refine (handled_sql_plain rfl rfl).bind fun existing => ?_
    split
    · cases existing with
      | none => exact handled_applyCreated hdir hfile
      | some item => trivial
    · cases existing with
      | none => exact handled_applyCreated hdir hfile
      | some item =>
        simp only
        split
        · trivial
        · refine ((handled_ioTry rfl).bind fun _ => handled_pure _).bind fun print => ?_
          split
          · refine handled_remoteMatchesSynced.bind fun same => ?_
            split
            · exact handled_applyCreated hdir hfile
            · trivial
          · trivial

lemma handled_scanRow {entries : List Fs.LocalEntry} {item : SyncItem}
    (hdelete : S (.enqueue .deleteRemote)) : Handled S (StartupScan.scanRow env entries item) := by
  unfold StartupScan.scanRow
  split
  · refine handled_remoteMatchesSynced.bind fun same => ?_
    split
    · exact handled_applyDeleted hdelete
    · trivial
  · trivial

lemma handled_startupLocalScan (hdir : S (.enqueue .createDirRemote)) (hfile : S (.enqueue .upload))
    (hdelete : S (.enqueue .deleteRemote)) : Handled S (StartupScan.startupLocalScan env) :=
  (handled_io rfl).bind fun _ =>
    (Prog.Only.forEach fun _ _ => handled_scanEntry hdir hfile).bind fun _ =>
      (handled_sql_plain rfl rfl).bind fun _ =>
        Prog.Only.forEach fun _ _ => handled_scanRow hdelete

/-- **The initial reconciliation** sets the cursor, and queues nothing. -/
lemma within_initial {fuel : ℕ} {root : FileId} (hS : S .cursor) :
    Within S (Initial.initial env fuel root) := by
  have hrecords : (Initial.initial env fuel root).Only fun _ c => Calls.Records (fun _ => True) c :=
    Calls.records_initial (fun _ _ => trivial) (fun _ _ => trivial) fun _ _ _ _ _ => trivial
  refine Prog.Only.mono hrecords fun β c hc e he => ?_
  cases c with
  | db c =>
    cases c with
    | setCursor token => exact Option.some.inj he ▸ hS
    | insertItem new => cases he
    | getByRelativePath rel => cases he
    | _ => exact hc.elim
  | _ => cases he

lemma within_ensureRemoteRoot {mayCreate : Bool} {m : FolderMapping} :
    Within S (Start.ensureRemoteRoot mayCreate m) :=
  within_of_background Calls.background_ensureRemoteRoot

lemma within_housekeeping : Within S Start.housekeeping :=
  within_unixNow.bind fun _ => within_sql_plain rfl

lemma within_map {autoCreate confirmed : Bool} {localPath : String} {spec : RemoteSpec} :
    Within S (Map.map autoCreate confirmed localPath spec) :=
  within_of_background Calls.background_map

/-- **`start` up to the daemon** queues nothing. -/
lemma within_prepare {fuel : ℕ} {answers : Start.Answers} (hS : S .cursor) :
    Within S (Start.prepare env fuel answers) := by
  refine (within_sql_plain rfl).bind fun m => ?_
  cases m with
  | none => trivial
  | some m =>
    refine (within_sql_plain rfl).bind fun cursor => ?_
    split
    · trivial
    · refine within_ensureRemoteRoot.bind fun root => ?_
      have hafter : ∀ didInitial, Within S (do
          let after ← sql .getCursor
          if after = none then .fail (.mapping "drive_change_cursor missing after initial-sync")
          else pure (some (⟨root, didInitial⟩ : Start.Prepared))) := fun didInitial => by
        refine (within_sql_plain rfl).bind fun after => ?_
        split <;> trivial
      simp only
      split
      · exact (within_initial hS).bind fun _ => hafter _
      · exact hafter _

/-- **Only the drain loop** makes attempts. -/
theorem within_task {j : Job} (hj : ∀ root, j ≠ .drain root) :
    Within (fun e => e ≠ .attempt) (j.task env) := by
  cases j with
  | event ev => exact (handled_applyLocal (by simp) (by simp) (by simp) (by simp)).within
  | batch b =>
    exact (handled_applyBatch (by simp) (by simp) (by simp) (by simp) (by simp) (by simp)).within
  | drain root => exact absurd rfl (hj root)
  | poll fuel root cache => exact within_tick.bind fun _ => trivial
  | scan => exact (handled_startupLocalScan (by simp) (by simp) (by simp)).within
  | initial fuel root => exact within_initial (by simp)
  | housekeeping => exact within_housekeeping
  | ensureRoot mayCreate m => exact within_ensureRemoteRoot.bind fun _ => trivial
  | map autoCreate confirmed localPath spec => exact within_map

/-- **Only the consumer and the initial reconciliation** move the cursor. -/
theorem within_task_cursor {j : Job} (hbatch : ∀ b, j ≠ .batch b)
    (hinitial : ∀ fuel root, j ≠ .initial fuel root) :
    Within (fun e => e ≠ .cursor) (j.task env) := by
  cases j with
  | event ev => exact (handled_applyLocal (by simp) (by simp) (by simp) (by simp)).within
  | batch b => exact absurd rfl (hbatch b)
  | drain root => exact (within_drainOne (by simp)).bind fun _ => trivial
  | poll fuel root cache => exact within_tick.bind fun _ => trivial
  | scan => exact (handled_startupLocalScan (by simp) (by simp) (by simp)).within
  | initial fuel root => exact absurd rfl (hinitial fuel root)
  | housekeeping => exact within_housekeeping
  | ensureRoot mayCreate m => exact within_ensureRemoteRoot.bind fun _ => trivial
  | map autoCreate confirmed localPath spec => exact within_map

/-! ## What follows for the queue and the cursor -/

/-- Every call keeps the cursor, except the one that moves it. -/
lemma cursor_handle {β : Type} {c : Call β} {w : World} (hc : effortOf c ≠ some .cursor) :
    (handle env β c w).2.db.cursor = w.db.cursor := by
  cases c with
  | db c =>
    cases c with
    | insertItem new =>
      simp only [handle_db, DbCall.run, Db.insertItem]
      split <;> rfl
    | enqueue item op payload now =>
      simp only [handle_db, DbCall.run, Db.enqueue]
      split <;> rfl
    | insertConflict item original conflict now =>
      simp only [handle_db, DbCall.run, Db.insertConflict]
      split <;> rfl
    | clearIfTransient =>
      simp only [handle_db, DbCall.run]
      split <;> rfl
    | setCursor token => exact absurd rfl hc
    | _ => rfl
  | _ => rfl

section Runs

variable {α : Type} {p : Task α} {w : World}

/-- A program that never moves the cursor leaves it where it was. -/
lemma Within.keeps_cursor {x : Except Error α} {w' : World} (h : Within (fun e => e ≠ .cursor) p)
    (hrun : p.run (handle env) w = (x, w')) : w'.db.cursor = w.db.cursor := by
  induction p generalizing w with
  | pure a => exact congrArg (fun r : Except Error α × World => r.2.db.cursor) hrun.symm
  | fail e => exact congrArg (fun r : Except Error α × World => r.2.db.cursor) hrun.symm
  | call c k ih => exact (ih _ (h.2 _) hrun).trans (cursor_handle fun he => h.1 _ he rfl)

/-- **The queue after a program** holds operations from before it and enqueued ones that are
allowed. -/
theorem Within.ops (h : Within S p) (w : World) :
    Ends env (fun _ w' => ∀ o ∈ w'.db.ops, (∃ o' ∈ w.db.ops, DbCall.SameWork o' o) ∨
      (w.db.ops.next ≤ o.id ∧ S (.enqueue o.op))) p w := by
  refine (Prog.Only.safe (J := fun s => w.db.ops.next ≤ s.db.ops.next ∧ ∀ o ∈ s.db.ops,
    (∃ o' ∈ w.db.ops, DbCall.SameWork o' o) ∨ (w.db.ops.next ≤ o.id ∧ S (.enqueue o.op))) h
    (fun β c s hc _ hJ => ⟨trivial, ?_⟩)
    ⟨Nat.le_refl _, fun o ho => .inl ⟨o, ho, .refl o⟩⟩).mono fun _ _ h => h.2
  obtain ⟨hnext, hops⟩ := hJ
  cases c with
  | db c =>
    refine ⟨hnext.trans (DbCall.nextOp_le_run c s.db), fun o ho => ?_⟩
    rcases DbCall.mem_ops_run ho with ⟨o', ho', hsame⟩ | ⟨hnew, hid⟩
    · rcases hops o' ho' with ⟨o'', ho'', hsame'⟩ | ⟨hlt, hS⟩
      · exact .inl ⟨o'', ho'', hsame'.trans hsame⟩
      · exact .inr ⟨hsame.1 ▸ hlt, hsame.2.2.1 ▸ hS⟩
    · refine .inr ⟨hid ▸ hnext, hc _ ?_⟩
      cases c with
      | enqueue item op payload now =>
        obtain ⟨-, rfl, -⟩ := by simpa [DbCall.enqueues] using hnew
        rfl
      | _ => cases hnew
  | _ => exact ⟨hnext, hops⟩

/-- The counter of the queue never goes back. -/
lemma ends_nextOp_le (env : Env) (p : Task α) (w : World) :
    Ends env (fun _ w' => w.db.ops.next ≤ w'.db.ops.next) p w := by
  induction p generalizing w with
  | pure a => exact Nat.le_refl _
  | fail e => exact Nat.le_refl _
  | call c k ih =>
    refine (Prog.safe_call_solo c k).mpr fun _ => ⟨trivial, (ih _ _).mono fun _ _ h => ?_⟩
    cases c with
    | db c => exact (DbCall.nextOp_le_run c w.db).trans h
    | _ => exact h

end Runs

end AirDrive
