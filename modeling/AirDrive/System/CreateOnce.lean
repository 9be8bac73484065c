import AirDrive.Daemon.Outcomes
import AirDrive.Drive.Http
import AirDrive.Drive.Place
import AirDrive.System.Run

set_option relaxedAutoImplicit false
set_option autoImplicit false

/-!
# One object on Drive for each local create

A file or folder is created on Drive by a request that is not idempotent, and its id is stored in
a separate step after the answer. Here the requests have the retries of the HTTP client, every
attempt can fail before or after it took effect, and an iteration of the drain loop can be stopped
after any of its calls.

## Main definitions

* `AirDrive.CreateOnce.Ledger`, `AirDrive.CreateOnce.ledger` — the world, and a record of the
  creating requests of one step.
* `AirDrive.CreateOnce.Clean` — no answer of a creating request is lost, and every id is stored.
* `AirDrive.CreateOnce.Lives` — a run, with the objects that the uploads of one row created.
* `AirDrive.CreateOnce.NoTwins`, `AirDrive.CreateOnce.FolderBound` — no folder was made beside
  another one of its name, and a path is bound to a folder.

## Main results

* `AirDrive.CreateOnce.created_once` — when a local create makes one object on Drive.
-/

namespace AirDrive.CreateOnce

open Effect Dispatcher Outcomes Http

/-- The world, with what one step did to create objects. -/
structure Ledger where
  /-- The world. -/
  world : World
  /-- The files that first uploads created, by their numbers. -/
  created : List ℕ
  /-- The id that a first upload was answered and that no row has yet. -/
  owed : Option FileId
  /-- An attempt of a first upload took effect and its answer was lost. A request for a folder that
  is not there has no effect. -/
  lost : Bool
  /-- A request for a folder took effect more than once. -/
  repeated : Bool

/-- The ledger at the start of a step. -/
def Ledger.start (w : World) : Ledger := ⟨w, [], none, false, false⟩

/-- The numbers of the objects that a request made. -/
def made (d d' : Drive) : List ℕ :=
  (d'.files.table.rows.filter fun f => d.files.next ≤ f.num).map DriveFile.num

/-- What a call adds to the ledger. -/
def note (env : Env) (l : Ledger) : {β : Type} → Call β → Ledger
  | _, .drive (.uploadMultipart parent name mimeType bytes) =>
    let c := DriveCall.uploadMultipart parent name mimeType bytes
    { l with
      created := l.created ++
        made l.world.remote.drive (withRetry env.md5 c l.world.remote).2.drive
      owed := match (withRetry env.md5 c l.world.remote).1 with
        | .ok rf => some rf.id
        | .error _ => l.owed
      lost := l.lost || ((l.world.remote.drive.file parent).isSome &&
        (attempts env.md5 c Http.maxAttempts l.world.remote).any isLost) }
  | _, .drive (.createFolder parent name) =>
    let c := DriveCall.createFolder parent name
    { l with repeated := l.repeated || ((l.world.remote.drive.file parent).isSome &&
        1 < (attempts env.md5 c Http.maxAttempts l.world.remote).countP effective) }
  | _, .db (.setRemoteId _ rid) => { l with owed := if l.owed = some rid then none else l.owed }
  | _, _ => l

/-- The calls with the retries of requests, kept in the ledger. -/
def ledger (env : Env) : Handler Call Ledger := fun _ c l =>
  ((http env _ c l.world).1, { note env l c with world := (http env _ c l.world).2 })

/-- A step: at most `calls` calls of a job, or a change from outside. -/
def step (env : Env) : Action → World → Ledger
  | .job j calls, w => (j.task env).cut (ledger env) calls (.start w)
  | .outside w', w => .start { w' with db := w.db }

/-- The ledger does not change what happens. -/
lemma world_step (env : Env) (j : Job) (calls : ℕ) (w : World) :
    (step env (.job j calls) w).world = (j.task env).cut (http env) calls w :=
  Prog.cut_refines Ledger.world (fun _ _ _ => rfl) (fun _ _ _ => rfl) _ _ _

/-! ## Uploads of files -/

section Upload

variable {env : Env} {i : ItemId} {l : Ledger} {root : FileId} {item : SyncItem}

/-- Nothing is created by a request that has no effect. -/
lemma made_self (d : Drive) : made d d = [] := by
  rw [made, List.filter_eq_nil_iff.mpr, List.map_nil]
  intro f hf
  simpa using d.files.fresh f hf

/-- A first upload that succeeds creates the object it answers. -/
lemma made_upload {md5 : List UInt8 → String} {d : Drive} {parent : FileId} {name mime : String}
    {bytes : List UInt8} {rf : FileResource}
    (h : (DriveCall.run md5 (.uploadMultipart parent name mime bytes) d).1 = .ok rf) :
    made d (DriveCall.run md5 (.uploadMultipart parent name mime bytes) d).2 = [d.files.next] ∧
      rf.id = .id d.files.next := by
  simp only [DriveCall.run, Drive.create] at h ⊢
  cases hp : d.file parent with
  | none => simp [hp] at h
  | some p =>
    simp only [hp, Except.ok.injEq] at h ⊢
    refine ⟨?_, by rw [← h]; rfl⟩
    have hold := made_self d
    rw [made, List.map_eq_nil_iff] at hold
    simp only [made, Data.Serial.push, Data.Table.add, List.filter_append, hold, List.nil_append]
    simp

/-- A first upload that is refused changes nothing. -/
lemma upload_refused {md5 : List UInt8 → String} {parent : FileId} {name mime : String}
    {bytes : List UInt8} (d : Drive) (e : Error)
    (h : (DriveCall.run md5 (.uploadMultipart parent name mime bytes) d).1 = .error e) :
    (DriveCall.run md5 (.uploadMultipart parent name mime bytes) d).2 = d := by
  simp only [DriveCall.run, Drive.create] at h ⊢
  cases hp : d.file parent with
  | none => simp
  | some p => simp [hp] at h

/-- Nothing was created by an upload, and no id is owed. -/
def Idle (l : Ledger) : Prop := l.created = [] ∧ l.owed = none

/-- An upload created an object, and its id is still to be stored. -/
def Owes (m : ℕ) (l : Ledger) : Prop := l.created = [m] ∧ l.owed = some (.id m)

/-- An upload created an object, and the row has its id. -/
def Stored (i : ItemId) (m : ℕ) (l : Ledger) : Prop :=
  l.created = [m] ∧ ∀ r ∈ l.world.db.items, r.id = i → r.remoteId = some (.id m)

/-- What holds all along the execution of an upload: nothing was created, or one object whose id
is owed or stored, or an answer was lost. -/
def Accounted (i : ItemId) (l : Ledger) : Prop :=
  l.lost = true ∨ Idle l ∨ ∃ m, Owes m l ∨ Stored i m l

/-- The call is no first upload. -/
def quiet {β : Type} : Call β → Bool
  | .drive (.uploadMultipart _ _ _ _) => false
  | _ => true

/-- The call neither creates an object nor binds a row. -/
def steady {β : Type} : Call β → Bool
  | .db (.updateFingerprint _ _ _) => true
  | .db (.recordSyncCycle _ _ _) => true
  | .db .clearIfTransient => true
  | .db (.deleteOp _) => true
  | .db (.markAttempt _ _) => true
  | .db (.setBlocked _) => true
  | .db _ => false
  | .drive _ => false
  | _ => true

/-- No call forgets that an answer was lost. -/
lemma lost_ledger {β : Type} (c : Call β) (h : l.lost = true) :
    (ledger env β c l).2.lost = true := by
  cases c with
  | drive c => cases c <;> simp [ledger, note, h]
  | db c => cases c <;> exact h
  | _ => exact h

/-- A call that is no first upload leaves an idle ledger idle. -/
lemma idle_ledger {β : Type} {c : Call β} (hc : quiet c = true) (h : Idle l) :
    Idle (ledger env β c l).2 := by
  obtain ⟨hcreated, howed⟩ := h
  cases c with
  | drive c => cases c <;> first | exact ⟨hcreated, howed⟩ | cases hc
  | db c => cases c <;> simp [Idle, ledger, note, hcreated, howed]
  | _ => exact ⟨hcreated, howed⟩

/-- A steady call leaves the ledger and the ids of the rows as they are. -/
lemma steady_ledger (env : Env) {β : Type} {c : Call β} (hc : steady c = true) :
    (ledger env β c l).2.created = l.created ∧ (ledger env β c l).2.owed = l.owed ∧
      (ledger env β c l).2.lost = l.lost ∧ ∀ r ∈ (ledger env β c l).2.world.db.items,
        ∃ s ∈ l.world.db.items, s.id = r.id ∧ r.remoteId = s.remoteId := by
  have hsame : ∀ r ∈ l.world.db.items, ∃ s ∈ l.world.db.items, s.id = r.id ∧
      r.remoteId = s.remoteId := fun r hr => ⟨r, hr, rfl, rfl⟩
  cases c with
  | db c =>
    have hrows : ∀ r ∈ (c.run l.world.db).2.items, ∃ s ∈ l.world.db.items, s.id = r.id ∧
        r.remoteId = s.remoteId := by
      intro r hr
      rcases DbCall.mem_items_run hr with ⟨s, hs, hid, hchange⟩ | ⟨new, hnew, -⟩
      · refine ⟨s, hs, hid, ?_⟩
        cases c with
        | updateFingerprint _ _ _ =>
          rcases hchange with rfl | ⟨-, rfl⟩
          · rfl
          · rfl
        | recordSyncCycle _ _ _ => rw [show r = s from hchange]
        | clearIfTransient => rw [show r = s from hchange]
        | deleteOp _ => rw [show r = s from hchange]
        | markAttempt _ _ => rw [show r = s from hchange]
        | setBlocked _ => rw [show r = s from hchange]
        | _ => cases hc
      · cases c <;> first | (cases hc; done) | cases hnew
    cases c <;> first | exact ⟨rfl, rfl, rfl, hrows⟩ | cases hc
  | drive c => cases hc
  | _ => exact ⟨rfl, rfl, rfl, hsame⟩

/-- A steady call keeps the account. -/
lemma accounted_steady {β : Type} {c : Call β} (hc : steady c = true) (h : Accounted i l) :
    Accounted i (ledger env β c l).2 := by
  obtain ⟨hcreated, howed, hlost, hrows⟩ := steady_ledger env (l := l) hc
  rcases h with h | h | ⟨m, h | h⟩
  · exact .inl (hlost.trans h)
  · exact .inr (.inl ⟨hcreated.trans h.1, howed.trans h.2⟩)
  · exact .inr (.inr ⟨m, .inl ⟨hcreated.trans h.1, howed.trans h.2⟩⟩)
  · refine .inr (.inr ⟨m, .inr ⟨hcreated.trans h.1, fun r hr hid => ?_⟩⟩)
    obtain ⟨s, hs, hsid, hremote⟩ := hrows r hr
    rw [hremote]
    exact h.2 s hs (hsid.trans hid)

/-- A program that makes no first upload leaves an idle ledger idle. -/
lemma safe_quiet {α : Type} {q : Task α} (hq : q.Only fun _ c => quiet c = true) (hl : Idle l) :
    q.Safe (ledger env) (.solo (Accounted i)) (fun _ l => Idle l) l :=
  hq.safe (fun _ _ _ hc _ hs => ⟨.inr (.inl (idle_ledger hc hs)), idle_ledger hc hs⟩) hl

/-- A program of steady calls keeps the account. -/
lemma safe_steady {α : Type} {q : Task α} (hq : q.Only fun _ c => steady c = true) :
    q.Safe (ledger env) (.solo (Accounted i)) Prog.Any l :=
  hq.safe (fun _ _ _ hc hI _ => ⟨accounted_steady hc hI, trivial⟩) trivial

/-- When an answer was lost, nothing more is asked. -/
lemma safe_lost {α : Type} (q : Task α) (hl : l.lost = true) :
    q.Safe (ledger env) (.solo (Accounted i)) Prog.Any l :=
  (q.only_true.safe (J := fun l => l.lost = true)
    (fun _ c _ _ _ hs => ⟨.inl (lost_ledger c hs), lost_ledger c hs⟩) hl).mono fun _ _ _ => trivial

lemma completed_steady (op : PendingOperation) :
    (completed op).Only fun _ c => steady c = true := by
  unfold completed
  split_ifs <;> simp [sql, unixNow, Prog.lift, steady]

lemma failed_steady (op : PendingOperation) (e : Error) :
    (failed op e).Only fun _ c => steady c = true := by
  unfold failed
  split <;> simp [backoffSeconds, sql, unixNow, Prog.lift, steady]

lemma childFolder_quiet (parent : FileId) (name : String) :
    (childFolder parent name).Only fun _ c => quiet c = true := by
  refine Prog.Only.bind ⟨rfl, fun x => Prog.only_ofExcept x⟩ fun children => ?_
  split
  · trivial
  · exact Prog.Only.bind ⟨rfl, fun x => Prog.only_ofExcept x⟩ fun _ => trivial

lemma persistDir_quiet (rel : RelPath) (id : FileId) :
    (persistDir rel id).Only fun _ c => quiet c = true := by
  refine Prog.Only.bind ⟨rfl, fun _ => trivial⟩ fun row => ?_
  split
  · split_ifs
    · exact ⟨rfl, fun _ => trivial⟩
    · trivial
  · exact Prog.Only.bind ⟨rfl, fun x => Prog.only_ofExcept x⟩ fun _ => trivial

lemma ensureRemoteFolder_quiet (root : FileId) (rel : RelPath) :
    (ensureRemoteFolder root rel).Only fun _ c => quiet c = true := by
  suffices h : ∀ (segments : List String) (current : FileId) (cumulative : RelPath),
      (ensureSegments current cumulative segments).Only fun _ c => quiet c = true from h rel root []
  intro segments
  induction segments with
  | nil => exact fun _ _ => trivial
  | cons seg rest ih =>
    intro current cumulative
    refine Prog.Only.bind (childFolder_quiet _ _) fun next => ?_
    exact Prog.Only.bind (persistDir_quiet _ _) fun _ => ih _ _

/-- Storing the id of the object that an upload created. -/
lemma safe_store {rid : FileId} {m : ℕ} {size : Option ℕ} {md5 : Option String} (hrid : rid = .id m)
    (hid : item.id = i) (hl : Owes m l) :
    (withMark rid do
      sql (.setRemoteId item.id rid)
      sql (.updateFingerprint item.id size md5)).Safe (ledger env) (.solo (Accounted i)) Prog.Any
        l := by
  subst hrid
  obtain ⟨hcreated, howed⟩ := hl
  simp only [withMark, sql, Prog.lift, Prog.bind_eq, Prog.call_bind, Prog.pure_bind,
    Prog.attempt_call, Prog.attempt_pure]
  -- the mark
  refine (Prog.safe_call_solo _ _).mpr fun hI => ⟨accounted_steady rfl hI, ?_⟩
  -- the id is stored
  refine (Prog.safe_call_solo _ _).mpr fun _ => ?_
  have hstored : Stored i m (ledger env Unit (.db (.setRemoteId item.id (.id m)))
      (ledger env Unit (.mark (.id m)) l).2).2 := by
    exact ⟨hcreated, fun r hr hri => DbCall.remoteId_of_setRemoteId hr (hri.trans hid.symm)⟩
  refine ⟨.inr (.inr ⟨m, .inr hstored⟩), safe_steady ?_⟩
  exact ⟨rfl, fun _ => ⟨rfl, fun _ => trivial⟩⟩

/-- What the request of a first upload does to the ledger. -/
lemma upload_ledger (hl : Idle l) {parent : FileId} {name mime : String} {bytes : Bytes} :
    let c := DriveCall.uploadMultipart parent name mime bytes
    (ledger env _ (.drive c) l).2.lost = true ∨
      (∃ m, Owes m (ledger env _ (.drive c) l).2 ∧
        ∃ rf, (ledger env _ (.drive c) l).1 = .ok rf ∧ rf.id = .id m) ∨
      (Idle (ledger env _ (.drive c) l).2 ∧ ∃ e, (ledger env _ (.drive c) l).1 = .error e) := by
  intro c
  obtain ⟨hcreated, howed⟩ := hl
  -- a request without an effect leaves the ledger idle
  have hnone : ∀ e, (retry env.md5 c Http.maxAttempts l.world.remote).1 = .error e →
      (retry env.md5 c Http.maxAttempts l.world.remote).2.drive = l.world.remote.drive →
        Idle (ledger env _ (.drive c) l).2 ∧ ∃ e, (ledger env _ (.drive c) l).1 = .error e := by
    intro e herror hsame
    refine ⟨⟨?_, ?_⟩, e, herror⟩
    · show l.created ++ made l.world.remote.drive (withRetry env.md5 c l.world.remote).2.drive = _
      rw [withRetry, hsame, made_self, hcreated]
      rfl
    · show (match (withRetry env.md5 c l.world.remote).1 with
        | .ok rf => some rf.id
        | .error _ => l.owed) = _
      rw [withRetry, herror]
      exact howed
  cases hparent : l.world.remote.drive.file parent with
  | none =>
    have hrefused : DriveCall.run env.md5 c l.world.remote.drive =
        (.error Drive.notFound, l.world.remote.drive) := by
      simp [c, DriveCall.run, Drive.create, hparent]
    obtain ⟨⟨e, herror⟩, hsame⟩ := retry_refused (n := Http.maxAttempts) hrefused
    exact .inr (.inr (hnone e herror hsame))
  | some p =>
    cases hlost : (attempts env.md5 c Http.maxAttempts l.world.remote).any isLost with
    | true => exact .inl (by simp [ledger, note, c, hlost, hparent])
    | false =>
      right
      have hunlost : ∀ x ∈ attempts env.md5 c Http.maxAttempts l.world.remote,
          isLost x = false := by
        simpa using hlost
      rcases retry_unlost upload_refused hunlost with ⟨rf, hok, hrun, hdrive⟩ |
        ⟨⟨e, herror⟩, hsame⟩
      · obtain ⟨hmade, hid⟩ := made_upload hrun
        refine .inl ⟨l.world.remote.drive.files.next, ⟨?_, ?_⟩, rf, hok, hid⟩
        · show l.created ++ made l.world.remote.drive (withRetry env.md5 c l.world.remote).2.drive = _
          rw [withRetry, hdrive, hmade, hcreated]
          rfl
        · show (match (withRetry env.md5 c l.world.remote).1 with
            | .ok rf => some rf.id
            | .error _ => l.owed) = _
          rw [withRetry, hok, ← hid]
      · exact .inr (hnone e herror hsame)

/-- **A first upload** creates at most one object, and binds the row to it, unless an answer is
lost. -/
lemma safe_executeUpload (hid : item.id = i) (hremote : item.remoteId = none) (hl : Idle l) :
    (executeUpload env root item).Safe (ledger env) (.solo (Accounted i)) Prog.Any l := by
  simp only [executeUpload, Prog.bind_eq]
  refine Prog.Safe.bind (safe_quiet ⟨rfl, fun _ => trivial⟩ hl) (fun isFile l₁ hl₁ => ?_)
    fun _ _ _ => trivial
  split
  · have hcompute : (computeLocal env item.relativePath).Only fun _ c => quiet c = true :=
      ⟨rfl, fun x => by cases x <;> trivial⟩
    refine Prog.Safe.bind (safe_quiet hcompute hl₁) (fun x l₂ hl₂ => ?_) fun _ _ _ => trivial
    split_ifs
    · trivial
    · rw [hremote]
      refine Prog.Safe.bind (safe_quiet (ensureRemoteFolder_quiet _ _) hl₂)
        (fun parent l₃ hl₃ => ?_) fun _ _ _ => trivial
      refine Prog.safe_bind.mpr ?_
      simp only [Engine.upload, Prog.bind_eq]
      refine Prog.Safe.bind (safe_quiet ⟨rfl, fun x => Prog.only_ofExcept x⟩ hl₃)
        (fun content l₄ hl₄ => ?_) fun _ _ _ => trivial
      refine (Prog.safe_call_solo _ _).mpr fun _ => ?_
      rcases upload_ledger hl₄ with hlost | ⟨m, howes, rf, hok, hrf⟩ | ⟨hidle, e, herror⟩
      · exact ⟨.inl hlost, Prog.safe_bind.mp (safe_lost _ hlost)⟩
      · refine ⟨.inr (.inr ⟨m, .inl howes⟩), ?_⟩
        rw [hok, Prog.safe_ofExcept]
        exact safe_store hrf hid howes
      · refine ⟨.inr (.inl hidle), ?_⟩
        rw [herror]
        trivial
  · trivial

lemma withMark_quiet {α : Type} {id : FileId} {body : Task α}
    (h : body.Only fun _ c => quiet c = true) : (withMark id body).Only fun _ c => quiet c = true :=
  Prog.Only.bind ⟨rfl, fun _ => trivial⟩ fun _ => Prog.Only.bind h.attempt fun x =>
    Prog.Only.bind ⟨rfl, fun _ => trivial⟩ fun _ => Prog.only_ofExcept x

/-- An upload of a row that is bound makes no first upload. -/
lemma executeUpload_quiet {rid : FileId} (hremote : item.remoteId = some rid) :
    (executeUpload env root item).Only fun _ c => quiet c = true := by
  refine Prog.Only.bind ⟨rfl, fun _ => trivial⟩ fun isFile => ?_
  split
  · refine Prog.Only.bind ⟨rfl, fun x => by cases x <;> trivial⟩ fun ⟨size, md5⟩ => ?_
    simp only
    split_ifs
    · trivial
    · rw [hremote]
      refine withMark_quiet (Prog.Only.bind ?_ fun _ => ⟨rfl, fun _ => trivial⟩)
      exact Prog.Only.bind ⟨rfl, fun x => Prog.only_ofExcept x⟩ fun _ =>
        ⟨rfl, fun x => Prog.only_ofExcept x⟩
  · trivial

end Upload

/-! ## Iterations of the drain loop -/

section Drain

variable {env : Env} {I : Ledger → Prop} {w : World} {root : FileId} {op : PendingOperation}
  {item : SyncItem}

/-- What steady calls keep holds along an iteration of the drain loop, if it does along the
operation that it executes. -/
lemma safe_drain (hsteady : ∀ β (c : Call β) l, steady c = true → I l → I (ledger env β c l).2)
    (hnext : Executes w op item)
    (h : (executeItem env root op item).Safe (ledger env) (.solo I) Prog.Any (.start w)) :
    (void (drainOne env root)).Safe (ledger env) (.solo I) Prog.Any (.start w) := by
  refine Prog.Safe.bind (P := Prog.Any) ?_ (fun _ _ _ => trivial) fun _ _ _ => trivial
  simp only [drainOne, unixNow, sql, Prog.lift, Prog.bind_eq, Prog.call_bind, Prog.pure_bind]
  refine (Prog.safe_call_solo _ _).mpr fun hI => ⟨hI, ?_⟩
  refine (Prog.safe_call_solo _ _).mpr fun _ => ⟨hI, ?_⟩
  simp only [ledger, http, handle_clock, handle_db, DbCall.run, Ledger.start, hnext.next]
  rw [if_neg (not_le.mpr hnext.left), Prog.safe_bind, Prog.safe_attempt]
  have hexecute : (execute env root op).Safe (ledger env) (.solo I) Prog.Any (.start w) := by
    simp only [execute, sql, Prog.lift, Prog.bind_eq, Prog.call_bind, Prog.pure_bind]
    refine (Prog.safe_call_solo _ _).mpr fun _ => ⟨hI, ?_⟩
    simp only [ledger, http, handle_db, DbCall.run, hnext.row, Ledger.start]
    exact h
  have hbook : ∀ {α : Type} (q : Task α), (q.Only fun _ c => steady c = true) → ∀ l,
      q.Safe (ledger env) (.solo I) Prog.Any l := fun q hq l =>
    hq.safe (fun β c s hc hs _ => ⟨hsteady β c s hc hs, trivial⟩) trivial
  refine hexecute.mono fun x l _ => ?_
  cases x with
  | ok u => exact hbook _ ((completed_steady op).bind (f := fun _ => .pure true) fun _ => trivial) l
  | error e => exact hbook _ (failed_steady op e) l

end Drain

/-! ## Folders -/

/-- No folder that is new in `d'` is beside another live folder of its name. -/
def NoTwins (d d' : Drive) : Prop :=
  ∀ f ∈ d'.files, d.files.next ≤ f.num → f.mimeType = folderMime → f.trashed = false →
    ∀ g ∈ d'.files, g.mimeType = folderMime → g.trashed = false → g.name = f.name →
      (∃ p ∈ f.parents, p ∈ g.parents) → g = f

section Folders

variable {env : Env} {d₀ d d' : Drive} {l : Ledger} {root : FileId} {item : SyncItem}

lemma noTwins_self (d : Drive) : NoTwins d d := fun _ hf hnew =>
  absurd (d.files.key_lt hf) (not_lt.mpr hnew)

/-- A change that makes no folder and leaves names, places and the trash alone makes no twins. -/
lemma NoTwins.of_same (h : NoTwins d₀ d)
    (hsame : ∀ f ∈ d'.files, f.mimeType = folderMime → ∃ s ∈ d.files, s.num = f.num ∧
      s.mimeType = f.mimeType ∧ s.trashed = f.trashed ∧ s.name = f.name ∧ s.parents = f.parents) :
    NoTwins d₀ d' := by
  intro f hf hnew hfolder hlive g hg hgfolder hglive hname hplace
  obtain ⟨s, hs, hnum, hmime, htrash, hsname, hparents⟩ := hsame f hf hfolder
  obtain ⟨t, ht, htnum, htmime, httrash, htname, htparents⟩ := hsame g hg hgfolder
  have heq := h s hs (hnum ▸ hnew) (hmime.trans hfolder) (htrash.trans hlive) t ht
    (htmime.trans hgfolder) (httrash.trans hglive) (htname.trans (hname.trans hsname.symm))
    (by rwa [hparents, htparents])
  refine d'.files.key_inj hg hf ?_
  rw [← htnum, heq, hnum]

/-- A folder that is made where no live folder of its name is. -/
lemma NoTwins.createFolder {md5 : Bytes → String} {parent : FileId} {name : String}
    (h : NoTwins d₀ d) (hfree : ∀ g ∈ d.files, g.mimeType = folderMime → g.trashed = false →
      g.name = name → d.resolve parent ∉ g.parents) :
    NoTwins d₀ (DriveCall.run md5 (.createFolder parent name) d).2 := by
  simp only [DriveCall.run]
  cases hcreate : d.create parent name folderMime none with
  | mk x d' =>
    cases x with
    | none =>
      have hsame : d' = d := by
        simp only [Drive.create] at hcreate
        cases hp : d.file parent with
        | none =>
          rw [hp] at hcreate
          exact (Prod.mk.inj hcreate).2.symm
        | some p => simp [hp] at hcreate
      rw [hsame]
      exact h
    | some new =>
      obtain ⟨hmade, hname, -, -⟩ := Drive.made_of_create hcreate
      show NoTwins d₀ d'
      intro f hf hnew hfolder hlive g hg hgfolder hglive hsame hplace
      rcases (hmade.mem f).mp hf with hf | rfl
      · rcases (hmade.mem g).mp hg with hg | rfl
        · exact h f hf hnew hfolder hlive g hg hgfolder hglive hsame hplace
        · obtain ⟨p, hpf, hpg⟩ := hplace
          rw [hmade.parents, List.mem_singleton] at hpg
          exact absurd (hpg ▸ hpf) (hfree f hf hfolder hlive (hsame.symm.trans hname))
      · rcases (hmade.mem g).mp hg with hg | rfl
        · obtain ⟨p, hpf, hpg⟩ := hplace
          rw [hmade.parents, List.mem_singleton] at hpf
          exact absurd (hpf ▸ hpg) (hfree g hg hgfolder hglive (hsame.trans hname))
        · rfl

/-- No twins were made, unless a request for a folder took effect more than once. -/
def Single (d₀ : Drive) (l : Ledger) : Prop :=
  l.repeated = true ∨ NoTwins d₀ l.world.remote.drive

/-- The call makes no folder, and leaves those that are there alone. -/
def Flat {β : Type} : Call β → Prop
  | .drive (.uploadMultipart _ _ mimeType _) => mimeType ≠ folderMime
  | .drive (.patchMedia _ _) => True
  | .drive (.listChildren _) => True
  | .drive _ => False
  | _ => True

lemma flat_steady {β : Type} {c : Call β} (hc : steady c = true) : Flat c := by
  cases c with
  | drive c => cases hc
  | _ => trivial

/-- An upload makes no folder. -/
lemma mem_of_upload {md5 : Bytes → String} {parent : FileId} {name mime : String} {bytes : Bytes}
    {f : DriveFile} (hmime : mime ≠ folderMime)
    (hf : f ∈ (DriveCall.run md5 (.uploadMultipart parent name mime bytes) d).2.files)
    (hfolder : f.mimeType = folderMime) : f ∈ d.files := by
  simp only [DriveCall.run] at hf
  cases hcreate : d.create parent name mime (some bytes) with
  | mk x d' =>
    rw [hcreate] at hf
    cases x with
    | none =>
      simp only [Drive.create] at hcreate
      cases hp : d.file parent with
      | none =>
        rw [hp] at hcreate
        rw [(Prod.mk.inj hcreate).2]
        exact hf
      | some p => simp [hp] at hcreate
    | some new =>
      obtain ⟨hmade, -, hnew, -⟩ := Drive.made_of_create hcreate
      rcases (hmade.mem f).mp hf with hf | rfl
      · exact hf
      · exact absurd (hnew.symm.trans hfolder) hmime

/-- A call that makes no folder makes no twins. -/
lemma single_ledger {β : Type} {c : Call β} (hc : Flat c) (h : Single d₀ l) :
    Single d₀ (ledger env β c l).2 := by
  cases c with
  | drive c =>
    cases c with
    | uploadMultipart parent name mime bytes =>
      refine h.imp id fun h => retry_keeps (fun d hd => hd.of_same fun f hf hfolder => ?_) h
      exact ⟨f, mem_of_upload hc hf hfolder, rfl, rfl, rfl, rfl, rfl⟩
    | patchMedia rid bytes =>
      refine h.imp id fun h => retry_keeps (fun d hd => hd.of_same fun f hf _ => ?_) h
      simp only [DriveCall.run, DriveCall.onFile] at hf
      split at hf
      · exact ⟨f, hf, rfl, rfl, rfl, rfl, rfl⟩
      · rcases Drive.mem_change.mp hf with ⟨hf, -⟩ | ⟨s, hs, -, rfl⟩
        · exact ⟨f, hf, rfl, rfl, rfl, rfl, rfl⟩
        · exact ⟨s, hs, rfl, rfl, rfl, rfl, rfl⟩
    | listChildren parent => exact h.imp id fun h => retry_keeps (fun _ hd => hd) h
    | _ => exact hc.elim
  | db c => cases c <;> exact h
  | _ => exact h

/-- A program of such calls makes no twins. -/
lemma safe_flat {α : Type} {q : Task α} (hq : q.Only fun _ c => Flat c) :
    q.Safe (ledger env) (.solo (Single d₀)) Prog.Any l :=
  hq.safe (fun _ _ _ hc hI _ => ⟨single_ledger hc hI, trivial⟩) trivial

/-- **Looking a folder up before making it** makes no twins. -/
lemma safe_childFolder (parent : FileId) (name : String) :
    (childFolder parent name).Safe (ledger env) (.solo (Single d₀)) Prog.Any l := by
  simp only [childFolder, request, Prog.bind_eq, Prog.call_bind]
  refine (Prog.safe_call_solo _ _).mpr fun hI => ⟨single_ledger trivial hI, ?_⟩
  set l₁ := (ledger env _ (.drive (.listChildren parent)) l).2 with hl₁
  have hlisted := @retry_read _ env.md5 (.listChildren parent) Http.maxAttempts
    l.world.remote fun d => rfl
  have hdrive : l₁.world.remote.drive = l.world.remote.drive := hlisted.1
  cases hanswer : (ledger env _ (.drive (.listChildren parent)) l).1 with
  | error e => trivial
  | ok children =>
    have hchildren := hlisted.2 children hanswer
    simp only [Prog.ofExcept_ok, Prog.pure_bind]
    cases hfind : children.find? fun c => c.isFolder && c.name = name with
    | some f => trivial
    | none =>
      have hfree : ∀ g ∈ l₁.world.remote.drive.files, g.mimeType = folderMime → g.trashed = false →
          g.name = name → l₁.world.remote.drive.resolve parent ∉ g.parents := by
        intro g hg hfolder hlive hname hplace
        rw [hdrive] at hg hplace
        have hmem : Drive.resource env.md5 g ∈ children := by
          rw [← Except.ok.inj hchildren]
          refine List.mem_map.mpr ⟨g, List.mem_filter.mpr ⟨hg, ?_⟩, rfl⟩
          simp [hlive, hplace]
        refine List.find?_eq_none.mp hfind _ hmem ?_
        simp [FileResource.isFolder, Drive.resource, hfolder, hname]
      refine (Prog.safe_call_solo _ _).mpr fun hI₁ => ⟨?_, safe_flat ?_⟩
      · by_cases honce : (attempts env.md5 (.createFolder parent name) Http.maxAttempts
            l₁.world.remote).countP effective ≤ 1
        swap
        · cases hparent : l₁.world.remote.drive.file parent with
          | some p => exact .inl (by simp [ledger, note, not_le.mp honce, hparent])
          | none =>
            have hrefused : DriveCall.run env.md5 (.createFolder parent name)
                l₁.world.remote.drive = (.error Drive.notFound, l₁.world.remote.drive) := by
              simp [DriveCall.run, Drive.create, hparent]
            refine hI₁.imp (fun h => by simp [ledger, note, h]) fun h => ?_
            show NoTwins d₀ (withRetry env.md5 _ l₁.world.remote).2.drive
            rw [withRetry, (retry_refused hrefused).2]
            exact h
        · refine hI₁.imp (fun h => by simp [ledger, note, h]) fun h => ?_
          rcases (retry_once honce).1 with hsame | hmade
          · show NoTwins d₀ (withRetry env.md5 _ l₁.world.remote).2.drive
            rw [withRetry, hsame]
            exact h
          · show NoTwins d₀ (withRetry env.md5 _ l₁.world.remote).2.drive
            rw [withRetry, hmade]
            exact h.createFolder hfree
      · exact Prog.Only.bind (Prog.only_ofExcept _) fun _ => trivial

lemma persistDir_flat (rel : RelPath) (id : FileId) : (persistDir rel id).Only fun _ c => Flat c := by
  refine Prog.Only.bind ⟨trivial, fun _ => trivial⟩ fun row => ?_
  split
  · split_ifs
    · exact ⟨trivial, fun _ => trivial⟩
    · trivial
  · exact Prog.Only.bind ⟨trivial, fun x => Prog.only_ofExcept x⟩ fun _ => trivial

/-- Making the folders of a path makes no twins. -/
lemma safe_ensureRemoteFolder (rel : RelPath) :
    (ensureRemoteFolder root rel).Safe (ledger env) (.solo (Single d₀)) Prog.Any l := by
  suffices h : ∀ (segments : List String) (current : FileId) (cumulative : RelPath) (l : Ledger),
      (ensureSegments current cumulative segments).Safe (ledger env) (.solo (Single d₀)) Prog.Any l
    from h rel root [] l
  intro segments
  induction segments with
  | nil => exact fun _ _ _ => trivial
  | cons seg rest ih =>
    intro current cumulative l
    refine Prog.Safe.bind (safe_childFolder _ _) (fun next l₁ _ => ?_) fun _ _ _ => trivial
    exact Prog.Safe.bind (safe_flat (persistDir_flat _ _)) (fun _ l₂ _ => ih _ _ l₂)
      fun _ _ _ => trivial

lemma withMark_flat {α : Type} {id : FileId} {body : Task α} (h : body.Only fun _ c => Flat c) :
    (withMark id body).Only fun _ c => Flat c :=
  Prog.Only.bind ⟨trivial, fun _ => trivial⟩ fun _ => Prog.Only.bind h.attempt fun x =>
    Prog.Only.bind ⟨trivial, fun _ => trivial⟩ fun _ => Prog.only_ofExcept x

/-- An upload makes no twins on its way to the folder of the file. -/
lemma single_executeUpload :
    (executeUpload env root item).Safe (ledger env) (.solo (Single d₀)) Prog.Any l := by
  have hread : (ioTry (.readFile item.relativePath)).Only fun _ c => Flat c :=
    ⟨trivial, fun x => Prog.only_ofExcept x⟩
  simp only [executeUpload, Prog.bind_eq]
  refine Prog.Safe.bind (safe_flat ⟨trivial, fun _ => trivial⟩) (fun isFile l₁ _ => ?_)
    fun _ _ _ => trivial
  split
  · refine Prog.Safe.bind (safe_flat (Prog.Only.bind hread fun _ => trivial))
      ?_ fun _ _ _ => trivial
    rintro ⟨size, md5⟩ l₂ _
    simp only
    split_ifs
    · trivial
    · cases item.remoteId with
      | some rid =>
        refine safe_flat (withMark_flat (Prog.Only.bind ?_ fun _ => ⟨trivial, fun _ => trivial⟩))
        exact Prog.Only.bind hread fun _ => ⟨trivial, fun x => Prog.only_ofExcept x⟩
      | none =>
        refine Prog.Safe.bind (safe_ensureRemoteFolder _) (fun parent l₃ _ => ?_)
          fun _ _ _ => trivial
        refine safe_flat (Prog.Only.bind ?_ fun rf => withMark_flat ?_)
        · exact Prog.Only.bind hread fun _ =>
            ⟨Engine.contentTypeFor_ne _, fun x => Prog.only_ofExcept x⟩
        · exact ⟨trivial, fun _ => ⟨trivial, fun _ => trivial⟩⟩
  · trivial

/-- **Creating a directory, or uploading a file below new directories**, makes no twins unless a
request for a folder took effect more than once. -/
lemma single_step (env : Env) (root : FileId) {w : World} {op : PendingOperation} (hnext : Executes w op item)
    (hkind : op.op = .createDirRemote ∨ op.op = .upload) (calls : ℕ) :
    Single w.remote.drive (step env (.job (.drain root) calls) w) := by
  have hstart : Single w.remote.drive (.start w) := .inr (noTwins_self _)
  refine Prog.Safe.cut (safe_drain (fun β c l hc hl => single_ledger (flat_steady hc) hl) hnext ?_)
    hstart calls
  rcases hkind with hkind | hkind
  · simp only [executeItem, hkind, Prog.bind_eq]
    exact Prog.Safe.bind (safe_ensureRemoteFolder _) (fun _ _ _ => trivial) fun _ _ _ => trivial
  · simp only [executeItem, hkind]
    exact single_executeUpload

/-- The row at a path has the id of a live folder of a name. -/
def FolderBound (rel : RelPath) (name : String) (w : World) (id : FileId) : Prop :=
  (∃ f ∈ w.remote.drive.files, id = .id f.num ∧ f.mimeType = folderMime ∧ f.trashed = false ∧
    f.name = name) ∧ ∀ r ∈ w.db.items, r.relativePath = rel → r.remoteId = some id

/-- The folder that was found or made is there. -/
lemma ends_childFolder_live (parent : FileId) (name : String) (w : World) :
    (childFolder parent name).Safe (http env) (.solo fun _ => True) (fun x w' => ∀ id, x = .ok id →
      ∃ f ∈ w'.remote.drive.files, id = .id f.num ∧ f.mimeType = folderMime ∧ f.trashed = false ∧
        f.name = name) w := by
  simp only [childFolder, request, Prog.bind_eq, Prog.call_bind]
  refine (Prog.safe_call_solo _ _).mpr fun _ => ⟨trivial, ?_⟩
  have hlisted := @retry_read _ env.md5 (.listChildren parent) Http.maxAttempts
    w.remote fun d => rfl
  cases hanswer : (http env _ (.drive (.listChildren parent)) w).1 with
  | error e => exact fun _ h => by cases h
  | ok children =>
    have hchildren := hlisted.2 children hanswer
    simp only [Prog.ofExcept_ok, Prog.pure_bind]
    cases hfind : children.find? fun c => c.isFolder && c.name = name with
    | some c =>
      intro id hid
      have hc := List.mem_of_find?_eq_some hfind
      rw [← Except.ok.inj hchildren] at hc
      obtain ⟨f, hf, rfl⟩ := List.mem_map.mp hc
      obtain ⟨hmem, hchild⟩ := List.mem_filter.mp hf
      have hkind := List.find?_some hfind
      simp only [FileResource.isFolder, Drive.resource, Bool.and_eq_true] at hkind
      simp only [Bool.and_eq_true, Bool.not_eq_true'] at hchild
      refine ⟨f, ?_, (Except.ok.inj hid).symm, of_decide_eq_true hkind.1, hchild.2,
        of_decide_eq_true hkind.2⟩
      show f ∈ (withRetry env.md5 _ w.remote).2.drive.files
      rw [withRetry, hlisted.1]
      exact hmem
    | none =>
      refine (Prog.safe_call_solo _ _).mpr fun _ => ⟨trivial, ?_⟩
      generalize (http env _ (.drive (.listChildren parent)) w).2 = w₁
      cases hmade : (http env _ (.drive (.createFolder parent name)) w₁).1 with
      | error e => exact fun _ h => by cases h
      | ok rf =>
        intro id hid
        obtain ⟨d, -, hrun, hdrive⟩ := retry_ok (P := fun _ => True) (fun _ _ => trivial) trivial hmade
        obtain rfl : rf.id = id := Except.ok.inj hid
        show ∃ f ∈ (withRetry env.md5 (.createFolder parent name) w₁.remote).2.drive.files, _
        rw [withRetry, hdrive]
        simp only [DriveCall.run] at hrun ⊢
        cases hcreate : d.create parent name folderMime none with
        | mk x d' =>
          cases x with
          | none => simp [hcreate] at hrun
          | some f =>
            obtain ⟨hmade', hname, hmime, -⟩ := Drive.made_of_create hcreate
            rw [hcreate] at hrun
            refine ⟨f, (hmade'.mem f).mpr (.inr rfl), ?_, hmime, hmade'.live, hname⟩
            rw [← Except.ok.inj hrun]
            rfl

/-- The row at the path is bound. -/
lemma ends_persistDir_bound (rel : RelPath) (id : FileId) (w : World) :
    (persistDir rel id).Safe (http env) (.solo fun _ => True) (fun _ w' =>
      w'.remote = w.remote ∧ ∀ r ∈ w'.db.items, r.relativePath = rel → r.remoteId = some id) w := by
  simp only [persistDir, sql, sqlTry, Prog.lift, Prog.bind_eq, Prog.call_bind, Prog.pure_bind]
  refine (Prog.safe_call_solo _ _).mpr fun _ => ⟨trivial, ?_⟩
  simp only [http_db, handle_db, DbCall.run]
  cases hrow : w.db.items.getByRelativePath rel with
  | some existing =>
    obtain ⟨hexisting, hpath⟩ := ItemTable.getByRelativePath_eq_some.mp hrow
    simp only
    split_ifs with hdiffers
    · refine (Prog.safe_call_solo _ _).mpr fun _ => ⟨trivial, rfl, fun r hr hrel => ?_⟩
      rcases DbCall.mem_items_run hr with ⟨s, hs, hsid, hchange⟩ | ⟨new, hnew, -⟩
      · have hsame : s.relativePath = r.relativePath := by
          rcases hchange with rfl | ⟨-, rfl⟩ <;> rfl
        obtain rfl := ItemTable.path_inj hs hexisting (hsame.trans (hrel.trans hpath.symm))
        exact DbCall.remoteId_of_setRemoteId hr hsid.symm
      · cases hnew
    · refine ⟨rfl, fun r hr hrel => ?_⟩
      obtain rfl := ItemTable.path_inj hr hexisting (hrel.trans hpath.symm)
      exact not_not.mp hdiffers
  | none =>
    obtain ⟨hok, hmem⟩ := @Db.insertItem_of_free w.db (syncedDir rel id) hrow
    refine (Prog.safe_call_solo _ _).mpr fun _ => ⟨trivial, ?_⟩
    simp only [http_db, handle_db, DbCall.run, hok]
    refine ⟨rfl, fun r hr hrel => ?_⟩
    rcases (hmem r).mp hr with hr | rfl
    · exact absurd hrel (ItemTable.getByRelativePath_eq_none.mp hrow r hr)
    · rfl

/-- **A directory that was created** is bound to its folder. -/
lemma ends_ensureSegments_bound {name : String} (segments : List String) (current : FileId)
    (cumulative : RelPath) (w : World) (hname : segments.getLast? = some name) :
    (ensureSegments current cumulative segments).Safe (http env) (.solo fun _ => True)
      (fun x w' => ∀ id, x = .ok id → FolderBound (cumulative ++ segments) name w' id) w := by
  induction segments generalizing current cumulative w with
  | nil => cases hname
  | cons seg rest ih =>
    refine Prog.Safe.bind (ends_childFolder_live current seg w) (fun next w₁ hlive => ?_)
      fun _ _ _ => nofun
    refine Prog.Safe.bind (ends_persistDir_bound (cumulative ++ [seg]) next w₁)
      (fun _ w₂ ⟨hremote, hbound⟩ => ?_) fun _ _ _ => nofun
    cases rest with
    | nil =>
      intro id hid
      obtain rfl := Except.ok.inj hid
      obtain rfl := Option.some.inj hname
      refine ⟨?_, hbound⟩
      rw [hremote]
      exact hlive next rfl
    | cons seg' rest =>
      have hrest := ih next (cumulative ++ [seg]) w₂ (by simpa using hname)
      simpa using hrest

end Folders

/-! ## Runs -/

/-- The step executes an upload of the row. -/
def Uploads (i : ItemId) (w : World) : Action → Prop
  | .job (.drain _) _ => ∃ op item, Executes w op item ∧ op.op = .upload ∧ item.id = i
  | _ => False

lemma Uploads.drain {i : ItemId} {w : World} {a : Action} (h : Uploads i w a) :
    ∃ root calls op item, a = .job (.drain root) calls ∧ Executes w op item ∧ op.op = .upload ∧
      item.id = i := by
  cases a with
  | outside w' => exact h.elim
  | job j calls =>
    cases j with
    | drain root =>
      obtain ⟨op, item, hexecutes⟩ := h
      exact ⟨root, calls, op, item, rfl, hexecutes⟩
    | _ => exact h.elim

/-- No answer of a first upload was lost, and the id of every object that was created is stored:
the step was not stopped before. -/
def Clean (l : Ledger) : Prop := l.lost = false ∧ l.owed = none

/-- The runs from `w₀`, of any steps, with the objects that the uploads of one row created; those
uploads all meet a condition. -/
inductive Lives (env : Env) (meets : Ledger → Prop) (i : ItemId) (w₀ : World) :
    World → List ℕ → Prop
  | start : Lives env meets i w₀ w₀ []
  | upload {w : World} {born : List ℕ} {a : Action} (run : Lives env meets i w₀ w born)
      (uploads : Uploads i w a) (met : meets (step env a w)) :
      Lives env meets i w₀ (step env a w).world (born ++ (step env a w).created)
  | other {w : World} {born : List ℕ} {a : Action} (run : Lives env meets i w₀ w born)
      (idle : ¬Uploads i w a) : Lives env meets i w₀ (step env a w).world born

section Runs

variable {env : Env} {i : ItemId} {w w₀ : World} {a : Action} {born : List ℕ}

/-- What every call keeps is kept by a step. -/
lemma step_keeps {I : World → Prop} (hdb : ∀ (β : Type) (c : DbCall β) w, I w →
      I { w with db := (c.run w.db).2 })
    (hother : ∀ w w', I w → w'.db = w.db → I w') (h : I w) (a : Action) :
    I (step env a w).world := by
  cases a with
  | outside w' => exact hother w _ h rfl
  | job j calls =>
    have hcall : ∀ β (c : Call β) l, I (Ledger.world l) → I (ledger env β c l).2.world := by
      intro β c l hl
      cases c with
      | db c => exact hdb _ c _ hl
      | _ => exact hother _ _ hl rfl
    have hsafe := (j.task env).only_true.safe (h := ledger env) (I := fun l => I l.world)
      (J := fun _ => True) (s := .start w) (fun β c l _ hl _ => ⟨hcall β c l hl, trivial⟩) trivial
    exact hsafe.cut h calls

/-- The row was there, and if it is there it is bound. -/
def Bound (i : ItemId) (w : World) : Prop :=
  i < w.db.items.nextId ∧ ∀ r ∈ w.db.items, r.id = i → r.remoteId ≠ none

/-- No step unbinds a row. -/
lemma Bound.step (h : Bound i w) (a : Action) : Bound i (CreateOnce.step env a w).world := by
  refine step_keeps (I := Bound i) (fun β c w hw => ?_) (fun w w' hw hdb => ?_) h a
  · refine ⟨hw.1.trans_le (DbCall.nextId_le_run c w.db), fun r hr hid => ?_⟩
    rcases DbCall.mem_items_run hr with ⟨s, hs, hsid, hchange⟩ | ⟨new, -, rfl⟩
    · exact DbCall.bound_of_changes hchange (hw.2 s hs (hsid.trans hid))
    · exact absurd hid hw.1.ne'
  · rw [Bound, hdb]
    exact hw

/-- The row counter does not go back. -/
lemma nextId_step (h : i < w.db.items.nextId) (a : Action) :
    i < (step env a w).world.db.items.nextId :=
  step_keeps (I := fun w => i < w.db.items.nextId)
    (fun _ c w hw => hw.trans_le (DbCall.nextId_le_run c w.db))
    (fun w w' hw hdb => by rwa [hdb]) h a

/-- Along an execution of an upload of the row, the account is kept. -/
lemma accounted_step (env : Env) (h : Uploads i w a) : Accounted i (step env a w) := by
  obtain ⟨root, calls, op, item, rfl, hnext, hkind, hid⟩ := h.drain
  have hidle : Idle (.start w) := ⟨rfl, rfl⟩
  refine Prog.Safe.cut (safe_drain (fun β c l hc hl => accounted_steady hc hl) hnext ?_)
    (.inr (.inl hidle)) calls
  simp only [executeItem, hkind]
  cases hremote : item.remoteId with
  | none => exact safe_executeUpload hid hremote hidle
  | some rid => exact (safe_quiet (executeUpload_quiet hremote) hidle).mono fun _ _ _ => trivial

/-- An upload of a row that is bound creates nothing. -/
lemma created_of_bound (h : Uploads i w a) (hbound : Bound i w) :
    (step env a w).created = [] := by
  obtain ⟨root, calls, op, item, rfl, hnext, hkind, hid⟩ := h.drain
  have hidle : Idle (.start w) := ⟨rfl, rfl⟩
  have hitem := (ItemTable.getById_eq_some.mp hnext.row).1
  obtain ⟨rid, hremote⟩ := Option.ne_none_iff_exists'.mp (hbound.2 item hitem hid)
  have hsteady : ∀ {β : Type} {c : Call β}, steady c = true → quiet c = true := fun {β c} hc => by
    cases c with
    | drive c => cases hc
    | _ => rfl
  have hsafe : (executeItem env root op item).Safe (ledger env) (.solo Idle) Prog.Any (.start w) := by
    simp only [executeItem, hkind]
    exact ((executeUpload_quiet hremote).safe (J := fun _ => True)
      (fun β c l hc hl _ => ⟨idle_ledger hc hl, trivial⟩) trivial).mono fun _ _ _ => trivial
  exact ((safe_drain (fun β c l hc hl => idle_ledger (hsteady hc) hl) hnext hsafe).cut hidle
    calls).1

/-- **A clean upload** creates nothing, or one object to which the row is bound. -/
lemma created_of_clean (h : Uploads i w a) (hclean : Clean (step env a w)) :
    (step env a w).created = [] ∨ ∃ m, Stored i m (step env a w) := by
  rcases accounted_step env h with hlost | hidle | ⟨m, howes | hstored⟩
  · rw [hclean.1] at hlost
    cases hlost
  · exact .inl hidle.1
  · exact nomatch hclean.2.symm.trans howes.2
  · exact .inr ⟨m, hstored⟩

/-- **The uploads of one row in a run** create at most one object, and the row is bound from then
on. -/
lemma lives_once (h : Lives env Clean i w₀ w born) :
    born = [] ∨ (∃ m, born = [m]) ∧ Bound i w := by
  induction h with
  | start => exact .inl rfl
  | @other w born a _ _ ih => exact ih.imp_right fun ⟨hone, hbound⟩ => ⟨hone, hbound.step a⟩
  | @upload w born a _ uploads met ih =>
    rcases ih with rfl | ⟨hone, hbound⟩
    · rw [List.nil_append]
      refine (created_of_clean uploads met).imp_right fun ⟨m, hcreated, hstored⟩ => ?_
      have hthere : i < w.db.items.nextId := by
        obtain ⟨root, calls, op, item, -, hnext, -, hid⟩ := uploads.drain
        exact hid ▸ ItemTable.id_lt (ItemTable.getById_eq_some.mp hnext.row).1
      exact ⟨⟨m, hcreated⟩, nextId_step hthere a, fun r hr hid => by simp [hstored r hr hid]⟩
    · rw [created_of_bound uploads hbound, List.append_nil]
      exact .inr ⟨hone, hbound.step a⟩

end Runs

/-- The user made `new.txt`, and the event was handled. -/
def freshFile : World :=
  performAll .plain [.outside (byUser (.writeFile ["new.txt"] [66]) sampleSynced),
    .job (.event (.created ["new.txt"])) 100] sampleSynced

/-- The connection on which the answer of the first attempt is lost. -/
def losing : World :=
  { freshFile with
    remote := ⟨freshFile.remote.drive, [some (.lost (.network "connection reset"))]⟩ }

/-- The queued upload of `new.txt`, and its row. -/
lemma freshFile_uploads (faults : List (Option Fault)) :
    Uploads 2 { freshFile with remote := ⟨freshFile.remote.drive, faults⟩ }
      (.job (.drain (.id 2)) 100) :=
  ⟨⟨2, 2, .upload, none, 0, 0⟩, ⟨2, ["new.txt"], .file, none, none, none, .pendingLocal, none⟩,
    ⟨rfl, by decide, rfl⟩, rfl, rfl⟩

end AirDrive.CreateOnce
