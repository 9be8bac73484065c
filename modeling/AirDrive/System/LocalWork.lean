import AirDrive.Daemon.Outcomes
import AirDrive.Drive.Place
import AirDrive.Reconcile.Initial
import AirDrive.System.Run

set_option relaxedAutoImplicit false
set_option autoImplicit false

/-!
# Local work and the operations that replace or remove it

A download and a pointer file are written over whatever is at their path, and a removal takes
whatever is at or below the path of its row: none of these operations looks at the local bytes
when it is executed. So they spare local work exactly when none of it is in their way at that
moment; the check that `apply_remote` makes when it enqueues them says nothing about it.

## Main definitions

* `AirDrive.LocalWork.Recorded`, `AirDrive.LocalWork.Synced` — the bytes that were last synced.
* `AirDrive.LocalWork.Preserved`, `AirDrive.LocalWork.OnDrive` — the bytes that are elsewhere.
* `AirDrive.LocalWork.Keeps` — the files that a run leaves as they are.
* `AirDrive.LocalWork.Writes`, `AirDrive.LocalWork.Takes` — what an operation replaces or removes.
* `AirDrive.LocalWork.Clear`, `AirDrive.LocalWork.Spared`, `AirDrive.LocalWork.PointerFree` — no
  local work is in its way.
* `AirDrive.LocalWork.AtExecution` — a condition on the operations that a run executes.

## Main results

* `AirDrive.LocalWork.writes_keep` — when downloads and pointers replace synced bytes only.
* `AirDrive.LocalWork.removals_spare` — when removals take synced bytes only.
-/

namespace AirDrive.LocalWork

open Effect Dispatcher Outcomes

variable (env : Env)

/-! ## Bytes that are known -/

/-- The bytes are those that a row records: they have its fingerprint, or they are the pointer of
its document. -/
def Recorded (s : SyncItem) (b : Bytes) : Prop :=
  (s.md5 = some (env.md5 b) ∧ s.size = some b.length) ∨
    (s.state = .skipped ∧ ∃ id mime, s.remoteId = some id ∧
      b = Shortcut.bytes (Shortcut.content mime id))

/-- The bytes at a path are those that the row at the path records. -/
def Synced (w : World) (q : RelPath) (b : Bytes) : Prop :=
  ∃ s ∈ w.db.items, s.relativePath = q ∧ Recorded env s b

/-- The bytes are the content of a live object below the mapped folder. -/
def OnDrive (root : FileId) (w : World) (b : Bytes) : Prop :=
  ∃ rel f, ObjectAt w.remote.drive root rel f ∧ f.content = some b

/-- The bytes are kept under the conflict name of an open conflict of a row. -/
def Preserved (w : World) (s : SyncItem) (q : RelPath) (b : Bytes) : Prop :=
  ∃ c ∈ w.db.conflicts, c.syncItemId = s.id ∧ c.conflictRelativePath ≠ q ∧
    w.fs.node c.conflictRelativePath = some (.file b)

/-- Every file of the tree has the same bytes after a run, or it was lost with leave. -/
def Keeps (leave : RelPath → Bytes → Prop) (w w' : World) : Prop :=
  ∀ q b, w.fs.node q = some (.file b) → w'.fs.node q = some (.file b) ∨ leave q b

/-! ## Calls that keep files -/

section Calls

variable {env} {leave : RelPath → Bytes → Prop} {w s s' : World} {p : RelPath}

lemma Keeps.refl (w : World) : Keeps leave w w := fun _ _ h => .inl h

lemma Keeps.trans (h : Keeps leave w s) (h' : Keeps leave s s') : Keeps leave w s' := by
  intro q b hq
  rcases h q b hq with hs | hleave
  · exact h' q b hs
  · exact .inr hleave

lemma Keeps.of_fs (h : s'.fs = s.fs) : Keeps leave s s' := by
  intro q b hq
  rw [h]
  exact .inl hq

/-- The two trees have the same files. -/
def SameFiles (w s : World) : Prop :=
  ∀ q b, s.fs.node q = some (.file b) ↔ w.fs.node q = some (.file b)

lemma SameFiles.keeps (h : SameFiles w s) : Keeps leave w s := fun q b hq => .inl ((h q b).mpr hq)

lemma SameFiles.trans (h : SameFiles w s) (h' : SameFiles s s') : SameFiles w s' := fun q b =>
  (h' q b).trans (h q b)

/-- Making directories leaves the files alone. -/
lemma sameFiles_createDirAll (p : RelPath) :
    SameFiles w { w with fs := (FsCall.run (.createDirAll p) w.fs).2 } := by
  intro q b
  simp only [FsCall.run]
  cases h : w.fs.createDirAll p with
  | error e => rfl
  | ok fs' => exact Fs.file_createDirAll_iff h

/-- Writing a file replaces the file that is there. -/
lemma keeps_writeFile {new : Bytes}
    (h : ∀ b, w.fs.node p = some (.file b) → b = new ∨ leave p b) :
    Keeps leave w { w with fs := (FsCall.run (.writeFile p new) w.fs).2 } := by
  intro q b hq
  simp only [FsCall.run]
  cases hwrite : w.fs.writeFile p new with
  | error e => exact .inl hq
  | ok fs' =>
    by_cases heq : q = p
    · subst heq
      refine (h b hq).imp_left fun hb => ?_
      rw [hb]
      exact Fs.node_writeFile_self hwrite
    · refine .inl ?_
      show fs'.node q = _
      rw [Fs.node_writeFile_ne hwrite heq, hq]

/-- The call leaves the local tree as it is. -/
def keepsFs {β : Type} : Call β → Bool
  | .fs (.isFile _) => true
  | .fs (.isDir _) => true
  | .fs (.pathExists _) => true
  | .fs (.readFile _) => true
  | .fs (.walk _) => true
  | .fs _ => false
  | _ => true

lemma fs_of_keepsFs {β : Type} {c : Call β} (hc : keepsFs c = true) (s : World) :
    (handle env β c s).2.fs = s.fs := by
  cases c with
  | fs c => cases c <;> first | rfl | cases hc
  | _ => rfl

/-- A program that makes only such calls keeps every file. -/
lemma safe_keepsFs {α : Type} {q : Task α} (h : q.Only fun _ c => keepsFs c = true) :
    q.Safe (handle env) (.solo (Keeps leave w)) (fun _ (s₁ : World) => s₁.fs = s.fs) s := by
  refine h.safe (fun β c s₁ hc hI hs => ⟨?_, ?_⟩) rfl
  · exact hI.trans (.of_fs (fs_of_keepsFs hc s₁))
  · exact (fs_of_keepsFs hc s₁).trans hs

end Calls

/-! ## Executions -/

/-- What is asked of the iterations of the drain loop that execute an operation: `P` relates the
root, the state before, the operation, its row and the state after. -/
def AtExecution (P : FileId → World → PendingOperation → SyncItem → World → Prop) (w : World) :
    Action → Prop
  | .job (.drain root) calls => ∀ op item, Executes w op item →
      P root w op item ((Action.job (.drain root) calls).perform env w)
  | _ => True

variable {env} in
/-- What an execution that meets a condition does holds of all executions that meet it. -/
lemma AtExecution.mono {P P' : FileId → World → PendingOperation → SyncItem → World → Prop}
    (h : ∀ root w op item calls, Executes w op item →
      P root w op item ((Action.job (.drain root) calls).perform env w) →
        P' root w op item ((Action.job (.drain root) calls).perform env w)) {w : World} {a : Action}
    (ha : AtExecution env P w a) : AtExecution env P' w a := by
  cases a with
  | outside w' => trivial
  | job j calls =>
    cases j with
    | drain root =>
      intro op item hnext
      exact h root w op item calls hnext (ha op item hnext)
    | _ => trivial

section Executions

variable {env} {leave : RelPath → Bytes → Prop} {w : World} {root : FileId}
  {op : PendingOperation} {item : SyncItem}

lemma completed_keepsFs (op : PendingOperation) :
    (completed op).Only fun _ c => keepsFs c = true := by
  unfold completed
  split_ifs <;> simp [sql, unixNow, Prog.lift, keepsFs]

lemma failed_keepsFs (op : PendingOperation) (e : Error) :
    (failed op e).Only fun _ c => keepsFs c = true := by
  unfold failed
  split <;> simp [backoffSeconds, sql, unixNow, Prog.lift, keepsFs]

/-- An iteration of the drain loop keeps the files that the operation it executes keeps. -/
lemma safe_drainOne (h : ∀ op item, Executes w op item →
    (executeItem env root op item).Safe (handle env) (.solo (Keeps leave w)) Prog.Any w) :
    (drainOne env root).Safe (handle env) (.solo (Keeps leave w)) Prog.Any w := by
  simp only [drainOne, Prog.bind_eq, Prog.safe_bind, safe_unixNow, safe_sql, DbCall.run]
  refine fun hw => ⟨hw, fun _ => ⟨hw, ?_⟩⟩
  cases hnext : OpTable.nextDue w.db.ops w.now with
  | none => trivial
  | some op =>
    simp only
    split_ifs with hparked
    · simp only [Prog.safe_bind, safe_sql]
      exact fun _ => ⟨.of_fs rfl, trivial⟩
    · rw [Prog.safe_bind, Prog.safe_attempt]
      have hexecute : (execute env root op).Safe (handle env) (.solo (Keeps leave w)) Prog.Any w := by
        simp only [execute, Prog.bind_eq, Prog.safe_bind, safe_sql, DbCall.run]
        refine fun _ => ⟨hw, ?_⟩
        cases hrow : w.db.items.getById op.syncItemId with
        | none => trivial
        | some item => exact h op item ⟨hnext, not_le.mp hparked, hrow⟩
      refine hexecute.mono fun x s _ => ?_
      cases x with
      | ok u => exact (((completed_keepsFs op).bind (f := fun _ => .pure true) fun _ => trivial).safe
          (fun β c s₁ hc hI _ => ⟨hI.trans (.of_fs (fs_of_keepsFs hc s₁)), trivial⟩) trivial)
      | error e => exact ((failed_keepsFs op e).safe
          (fun β c s₁ hc hI _ => ⟨hI.trans (.of_fs (fs_of_keepsFs hc s₁)), trivial⟩) trivial)

/-- The tree after an iteration of the drain loop is the tree after the operation it executed. -/
lemma fs_drainOne (h : Executes w op item) : (runTask env (drainOne env root) w).2.fs =
    (runTask env (executeItem env root op item) w).2.fs := by
  obtain ⟨hitem, hid⟩ := ItemTable.getById_eq_some.mp h.row
  rw [← execute_of_row root hitem hid]
  rcases drainOne_cases env root w with ⟨hnone, -⟩ | ⟨op', hnext, hcase⟩
  · rw [h.next] at hnone
    cases hnone
  obtain rfl := Option.some.inj (hnext.symm.trans h.next)
  rcases hcase with ⟨hparked, -⟩ | ⟨-, x, w₁, hrun, hafter⟩
  · exact absurd h.left (not_lt.mpr hparked)
  · rw [hrun]
    cases x with
    | ok u => exact hafter.fs
    | error e => exact hafter.fs

end Executions

/-! ## Downloads and pointers -/

/-- The bytes that an operation is about to write over a path. -/
inductive Writes (w : World) (op : PendingOperation) (item : SyncItem) : RelPath → Bytes → Prop
  | download {dl : DownloadPayload} {new : Bytes} (kind : op.op = .download)
      (payload : op.payload = some (.download dl))
      (sent : (w.remote.send env.md5 (.getMedia dl.remoteId)).1 = .ok new) :
      Writes w op item dl.relativePath new
  | pointer {p : ShortcutPayload} (kind : op.op = .writeShortcut)
      (payload : op.payload = some (.shortcut p)) :
      Writes w op item item.relativePath (Shortcut.bytes p.content)

/-- The bytes at a path are known: the row records them, or they are kept under a conflict
name. -/
def Known (w : World) (item : SyncItem) (q : RelPath) (b : Bytes) : Prop :=
  Recorded env item b ∨ Preserved w item q b

/-- No unknown bytes are at the path that the operation is about to write, other than those it
writes. -/
def Clear (w : World) (op : PendingOperation) (item : SyncItem) : Prop :=
  ∀ p new b, Writes env w op item p new → w.fs.node p = some (.file b) →
    b = new ∨ Known env w item p b

section Write

variable {env} {leave : RelPath → Bytes → Prop} {w s : World} {p : RelPath} {new b : Bytes}

/-- Making the directories above a path and writing a file there replaces that file only. -/
lemma safe_write (hs : SameFiles w s)
    (h : ∀ b, w.fs.node p = some (.file b) → b = new ∨ leave p b) :
    ((ioTry (.createDirAll p.parentDir)).bind fun _ => ioTry (.writeFile p new)).Safe (handle env)
      (.solo (Keeps leave w)) Prog.Any s := by
  rw [Prog.safe_bind, safe_ioTry]
  intro hw
  have hmade := sameFiles_createDirAll (w := s) p.parentDir
  refine ⟨hw.trans hmade.keeps, ?_⟩
  split
  · rw [safe_ioTry]
    refine fun hw' => ⟨hw'.trans (keeps_writeFile fun b hb => h b ?_), trivial⟩
    exact ((hs.trans hmade) p b).mp hb
  · trivial

/-- A file that is there is written over. -/
lemma ends_write_over (env : Env) (new : Bytes) (hnode : w.fs.node p = some (.file b)) :
    Ends env (fun x w' => x = .ok () ∧ w'.fs.node p = some (.file new))
      ((ioTry (.createDirAll p.parentDir)).bind fun _ => ioTry (.writeFile p new)) w := by
  have hne : p ≠ [] := by
    rintro rfl
    simp at hnode
  have hparent := Fs.parent_of_node hne (by simp [hnode] : w.fs.node p ≠ none)
  obtain ⟨fs', hwrite⟩ := Fs.writeFile_of_dir (b := new) hne hparent (by simp [hnode])
  simp only [Ends, Prog.safe_bind, safe_ioTry, FsCall.run, RelPath.parentDir,
    Fs.createDirAll_of_dir hparent, hwrite, FsCall.commit, true_and, forall_const]
  exact Fs.node_writeFile_self hwrite

variable {op : PendingOperation} {item : SyncItem} {root : FileId}

/-- Reading the payload of a download. -/
lemma asDownload_ok {payload : Option Payload} {dl : DownloadPayload}
    (h : decodePayload Payload.asDownload payload = .ok dl) : payload = some (.download dl) := by
  cases payload with
  | none => cases h
  | some p =>
    cases p with
    | download dl' => rw [Except.ok.inj h]
    | _ => cases h

/-- Reading the payload of a pointer. -/
lemma asShortcut_ok {payload : Option Payload} {p : ShortcutPayload}
    (h : decodePayload Payload.asShortcut payload = .ok p) : payload = some (.shortcut p) := by
  cases payload with
  | none => cases h
  | some p' =>
    cases p' with
    | shortcut p' => rw [Except.ok.inj h]
    | _ => cases h

/-- The record of a download leaves the tree alone. -/
lemma record_keepsFs (env : Env) (item : SyncItem) (dl : DownloadPayload) :
    ((computeLocal env dl.relativePath).bind fun x =>
      (sql (.updateFingerprint item.id (some x.1) (some x.2))).bind fun _ =>
        if item.remoteId ≠ some dl.remoteId then sql (.setRemoteId item.id dl.remoteId)
        else .pure ()).Only fun _ c => keepsFs c = true := by
  refine Prog.Only.bind ?_ fun x => Prog.Only.bind ?_ fun _ => ?_
  · refine ⟨rfl, fun b => ?_⟩
    cases b <;> trivial
  · exact ⟨rfl, fun _ => trivial⟩
  · split_ifs
    · exact ⟨rfl, fun _ => trivial⟩
    · trivial

/-- Fetching replaces the file at the destination only. -/
lemma safe_download {id : FileId} (hs : SameFiles w s)
    (h : ∀ new b, (s.remote.send env.md5 (.getMedia id)).1 = .ok new →
      w.fs.node p = some (.file b) → b = new ∨ leave p b) :
    (Engine.download id p).Safe (handle env) (.solo (Keeps leave w)) Prog.Any s := by
  rw [Engine.download, Prog.bind_eq, Prog.safe_bind, safe_request]
  refine fun hw => ⟨hw.trans (.of_fs rfl), ?_⟩
  split
  · next new hsent => exact safe_write (fun q b => hs q b) fun b => h new b hsent
  · trivial

/-- **A download** replaces the file at its path only. -/
lemma safe_executeDownload {payload : Option Payload}
    (h : ∀ dl new b, payload = some (.download dl) →
      (w.remote.send env.md5 (.getMedia dl.remoteId)).1 = .ok new →
      w.fs.node dl.relativePath = some (.file b) → b = new ∨ leave dl.relativePath b) :
    (executeDownload env item payload).Safe (handle env) (.solo (Keeps leave w)) Prog.Any w := by
  rw [executeDownload, Prog.bind_eq, Prog.safe_bind, Prog.safe_ofExcept]
  cases hdecode : decodePayload Payload.asDownload payload with
  | error e => trivial
  | ok dl =>
    have hmade := sameFiles_createDirAll (w := w) dl.relativePath.parentDir
    simp only [Prog.bind_eq]
    rw [Prog.safe_bind, safe_ioTry]
    refine fun hw => ⟨hw.trans hmade.keeps, ?_⟩
    split
    · refine Prog.Safe.bind (safe_download hmade fun new b => h dl new b (asDownload_ok hdecode))
        (fun _ s _ => ?_) fun _ _ _ => trivial
      exact (safe_keepsFs (record_keepsFs env item dl)).mono fun _ _ _ => trivial
    · trivial

/-- A download that is sent something writes over the file at its path. -/
lemma ends_executeDownload_over {dl : DownloadPayload}
    (hsent : (w.remote.send env.md5 (.getMedia dl.remoteId)).1 = .ok new)
    (hnode : w.fs.node dl.relativePath = some (.file b)) :
    Ends env (fun _ w' => w'.fs.node dl.relativePath = some (.file new))
      (executeDownload env item (some (.download dl))) w := by
  have hne : dl.relativePath ≠ [] := by
    intro heq
    simp [heq] at hnode
  have hparent := Fs.parent_of_node hne (by simp [hnode] : w.fs.node dl.relativePath ≠ none)
  simp only [Ends, executeDownload, Engine.download, decodePayload, Payload.asDownload,
    Prog.ofExcept_ok, Prog.bind_eq, Prog.pure_bind]
  rw [Prog.safe_bind, safe_ioTry]
  simp only [FsCall.run, RelPath.parentDir, Fs.createDirAll_of_dir hparent, FsCall.commit,
    true_and, forall_const]
  refine Prog.Safe.bind (P := fun _ (s : World) => s.fs.node dl.relativePath = some (.file new)) ?_
    (fun _ s hs => ?_) fun _ _ hs => hs
  · rw [Prog.safe_bind, safe_request, hsent]
    refine fun _ => ⟨trivial, ?_⟩
    have hover := ends_write_over env new
      (w := { w with remote := (w.remote.send env.md5 (.getMedia dl.remoteId)).2 }) hnode
    exact hover.mono fun _ _ h => h.2
  · refine (record_keepsFs env item dl).safe (fun β c s₁ hc _ hs₁ => ⟨trivial, ?_⟩) hs
    show (handle env β c s₁).2.fs.node _ = _
    rw [fs_of_keepsFs hc]
    exact hs₁

/-- **A pointer** replaces the file at the path of its row only. -/
lemma safe_executeWriteShortcut {payload : Option Payload}
    (h : ∀ x b, payload = some (.shortcut x) → w.fs.node item.relativePath = some (.file b) →
      b = Shortcut.bytes x.content ∨ leave item.relativePath b) :
    (executeWriteShortcut item payload).Safe (handle env) (.solo (Keeps leave w)) Prog.Any w := by
  rw [executeWriteShortcut, Prog.bind_eq, Prog.safe_bind, Prog.safe_ofExcept]
  cases hdecode : decodePayload Payload.asShortcut payload with
  | error e => trivial
  | ok x => exact safe_write (fun _ _ => Iff.rfl) fun b => h x b (asShortcut_ok hdecode)

/-- **The writing operations** keep the files that are not in their way. -/
lemma safe_of_clear (hkind : op.op = .download ∨ op.op = .writeShortcut)
    (h : Clear env w op item) : (executeItem env root op item).Safe (handle env)
      (.solo (Keeps (Known env w item) w)) Prog.Any w := by
  rcases hkind with hkind | hkind
  · simp only [executeItem, hkind]
    refine safe_executeDownload fun dl new b hpayload hsent => ?_
    exact h _ _ b (.download hkind hpayload hsent)
  · simp only [executeItem, hkind]
    exact safe_executeWriteShortcut fun x b hpayload => h _ _ b (.pointer hkind hpayload)

/-- What is in the way of a writing operation is replaced. -/
lemma node_of_writes (root : FileId) {p : RelPath} (h : Writes env w op item p new)
    (hnode : w.fs.node p = some (.file b)) :
    (runTask env (executeItem env root op item) w).2.fs.node p = some (.file new) := by
  cases h with
  | download kind payload sent =>
    simp only [executeItem, kind, payload]
    exact (ends_executeDownload_over sent hnode).run
  | @pointer x kind payload =>
    simp only [executeItem, kind, payload]
    exact (ends_write_over env (Shortcut.bytes x.content) hnode).run.2

end Write

/-- No other bytes are where the initial pass is about to write the pointer of a document. -/
def PointerFree (remote : Initial.RemoteEntry) (w : World) : Prop :=
  remote.md5 = none → Shortcut.isNative remote.mimeType = true →
    w.db.items.getByRelativePath (Shortcut.relativePath remote.relativePath remote.mimeType) = none →
      ∀ b, w.fs.node (Shortcut.relativePath remote.relativePath remote.mimeType) = some (.file b) →
        b = Shortcut.bytes (Shortcut.content remote.mimeType remote.id)

variable {env} in
/-- **The pointers of the initial pass** replace nothing exactly when nothing else is there. -/
lemma writeShortcut_keeps_iff (remote : Initial.RemoteEntry) (w : World) :
    Keeps (fun _ _ => False) w (runTask env (Initial.writeShortcut remote) w).2 ↔
      PointerFree remote w := by
  constructor
  · intro hkeeps hmd5 hnative hrow b hnode
    have hover : Ends env (fun _ w' => w'.fs.node
        (Shortcut.relativePath remote.relativePath remote.mimeType) = some (.file
          (Shortcut.bytes (Shortcut.content remote.mimeType remote.id))))
        (Initial.writeShortcut remote) w := by
      simp only [Ends, Initial.writeShortcut, if_neg (not_not.mpr hmd5), if_pos hnative,
        Prog.bind_eq]
      rw [Prog.safe_bind, safe_sql]
      simp only [DbCall.run, hrow, true_and, forall_const]
      refine Prog.Safe.bind (ends_write_over env _ hnode) (fun _ s hs => ?_) fun _ _ hs => hs.2
      rw [Prog.safe_bind, safe_sqlTry]
      refine fun _ => ⟨trivial, ?_⟩
      split <;> exact hs.2
    rcases hkeeps _ b hnode with hsame | hfalse
    · exact (Node.file.inj (Option.some.inj (hover.run.symm.trans hsame))).symm
    · exact hfalse.elim
  · intro hfree
    have hsafe : (Initial.writeShortcut remote).Safe (handle env)
        (.solo (Keeps (fun _ _ => False) w)) Prog.Any w := by
      unfold Initial.writeShortcut
      split_ifs with hmd5 hnative
      · trivial
      · simp only [Prog.bind_eq]
        rw [Prog.safe_bind, safe_sql]
        refine fun hw => ⟨hw, ?_⟩
        simp only [DbCall.run]
        split
        · trivial
        · next hrow =>
          refine Prog.Safe.bind (safe_write (fun _ _ => Iff.rfl) fun b hb =>
            .inl (hfree (not_not.mp hmd5) hnative hrow b hb)) (fun _ s _ => ?_) fun _ _ _ => trivial
          rw [Prog.safe_bind, safe_sqlTry]
          refine fun hs => ⟨hs.trans (.of_fs rfl), ?_⟩
          split <;> trivial
      · trivial
    exact (hsafe.run (.refl w)).1

/-! ## Removals -/

/-- A removal takes the path: it is at or below the path of the row, and what is at the path of
the row is of the row's kind. -/
def Takes (w : World) (item : SyncItem) (q : RelPath) : Prop :=
  item.relativePath ≠ [] ∧ item.relativePath <+: q ∧
    (item.kind = .dir ↔ w.fs.node item.relativePath = some .dir)

/-- The bytes at a path are secured: they were synced, or Drive has them. -/
def Secured (root : FileId) (w : World) (q : RelPath) (b : Bytes) : Prop :=
  Synced env w q b ∨ OnDrive root w b

/-- Everything that the removal of an item takes is secured. -/
def Spared (root : FileId) (w : World) (item : SyncItem) : Prop :=
  ∀ q b, Takes w item q → w.fs.node q = some (.file b) → Secured env root w q b

section Removal

variable {env} {leave : RelPath → Bytes → Prop} {w : World} {item : SyncItem}

/-- The call that removes the local copy of an item. -/
def removal (item : SyncItem) : FsCall (Except Error Unit) :=
  match item.kind with
  | .dir => .removeDirAll item.relativePath
  | .file => .removeFile item.relativePath

/-- **What a removal does** to the files of the tree. -/
lemma node_removal {q : RelPath} {b : Bytes} (hq : w.fs.node q = some (.file b)) :
    (Takes w item q → ((removal item).run w.fs).2.node q = none) ∧
      (¬Takes w item q → ((removal item).run w.fs).2.node q = some (.file b)) := by
  have habove : item.relativePath <+: q →
      item.relativePath = q ∨ w.fs.node item.relativePath = some .dir := by
    rintro ⟨rest, rfl⟩
    cases rest with
    | nil => simp
    | cons x rest => exact .inr (w.fs.dir_of_below (x := x) (q := rest) (by simp [hq]))
  have hgone : ∀ hp : item.relativePath ≠ [], (w.fs.removeTree item.relativePath hp).node q =
      if item.relativePath <+: q then none else some (.file b) := fun hp => by
    rw [Fs.node_removeTree, hq]
  cases hkind : item.kind with
  | dir =>
    simp only [removal, hkind, Takes, FsCall.run, Fs.removeDirAll, true_iff]
    cases hnode : w.fs.node item.relativePath with
    | none => simp [FsCall.commit, hq]
    | some n =>
      cases n with
      | file c => simp [FsCall.commit, hq]
      | dir =>
        simp only [and_true]
        split_ifs with hp
        · simp only [FsCall.commit, hgone]
          split_ifs with hpre
          · simp [hp, hpre]
          · simp [hpre]
        · simp [hp, FsCall.commit, hq]
  | file =>
    simp only [removal, hkind, Takes, FsCall.run, Fs.removeFile]
    cases hnode : w.fs.node item.relativePath with
    | none =>
      refine ⟨?_, fun _ => hq⟩
      rintro ⟨_, hpre, _⟩
      rcases habove hpre with heq | hdir
      · rw [heq, hq] at hnode
        cases hnode
      · rw [hdir] at hnode
        cases hnode
    | some n =>
      cases n with
      | dir => simp [FsCall.commit, hq]
      | file c =>
        have hp : item.relativePath ≠ [] := by
          intro hnil
          simp [hnil] at hnode
        simp only [dif_pos hp, FsCall.commit, hgone]
        split_ifs with hpre
        · simp [hp, hpre]
        · simp [hpre]

/-- What is done about the answer to a removal: a missing path counts as removed. -/
def afterRemoval : Except Error Unit → Task Unit
  | .ok () => .pure ()
  | .error e => if e = .io .notFound then .pure () else .fail e

lemma only_afterRemoval (x : Except Error Unit) :
    (afterRemoval x).Only fun _ c => keepsFs c = true := by
  cases x with
  | ok u => trivial
  | error e =>
    simp only [afterRemoval]
    split_ifs <;> trivial

/-- A removal is one call on the tree and what follows leaves the tree alone. -/
lemma executeDeleteLocal_eq (item : SyncItem) (payload : Option Payload) :
    ∃ rest : Except Error Unit → Task Unit, (∀ x, (rest x).Only fun _ c => keepsFs c = true) ∧
      executeDeleteLocal item payload = (io (removal item)).bind rest := by
  refine ⟨fun x => (afterRemoval x).bind fun _ =>
      (Prog.ofExcept (decodePayload Payload.asDeleteLocal payload)).bind fun p =>
        forgetLocal item p, fun x => ?_, ?_⟩
  · refine Prog.Only.bind (only_afterRemoval x) fun _ =>
      Prog.Only.bind (Prog.only_ofExcept _) fun p => ?_
    unfold forgetLocal
    split_ifs <;> simp [sql, unixNow, Prog.lift, keepsFs]
  · simp only [executeDeleteLocal, removeLocal, removal, Prog.bind_eq]
    cases item.kind <;> rfl

/-- **A removal** loses only what it takes. -/
lemma safe_executeDeleteLocal {payload : Option Payload}
    (h : ∀ q b, Takes w item q → w.fs.node q = some (.file b) → leave q b) :
    (executeDeleteLocal item payload).Safe (handle env) (.solo (Keeps leave w)) Prog.Any w := by
  obtain ⟨rest, hrest, heq⟩ := executeDeleteLocal_eq item payload
  rw [heq, Prog.safe_bind, safe_io]
  refine fun _ => ⟨fun q b hq => ?_, (safe_keepsFs (hrest _)).mono fun _ _ _ => trivial⟩
  by_cases htakes : Takes w item q
  · exact .inr (h q b htakes hq)
  · exact .inl ((node_removal hq).2 htakes)

/-- What a removal takes is gone. -/
lemma ends_executeDeleteLocal {payload : Option Payload} {q : RelPath} {b : Bytes}
    (htakes : Takes w item q) (hq : w.fs.node q = some (.file b)) :
    Ends env (fun _ w' => w'.fs.node q = none) (executeDeleteLocal item payload) w := by
  obtain ⟨rest, hrest, heq⟩ := executeDeleteLocal_eq item payload
  rw [heq, Ends, Prog.safe_bind, safe_io]
  refine fun _ => ⟨trivial, (hrest _).safe (fun β c s hc _ hs => ⟨trivial, ?_⟩)
    ((node_removal hq).1 htakes)⟩
  show (handle env β c s).2.fs.node q = none
  rw [fs_of_keepsFs hc]
  exact hs

end Removal

/-! ## Runs -/

section Cut

variable {env} {leave : RelPath → Bytes → Prop} {w : World} {root : FileId} {op : PendingOperation}
  {item : SyncItem}

/-- An iteration of the drain loop that is stopped anywhere keeps the files that the operation
keeps. -/
lemma keeps_cut (hnext : Executes w op item)
    (h : (executeItem env root op item).Safe (handle env) (.solo (Keeps leave w)) Prog.Any w)
    (calls : ℕ) : Keeps leave w ((Action.job (.drain root) calls).perform env w) := by
  have hsafe : (drainOne env root).Safe (handle env) (.solo (Keeps leave w)) Prog.Any w := by
    refine safe_drainOne fun op' item' hnext' => ?_
    obtain rfl := Option.some.inj (hnext.next.symm.trans hnext'.next)
    obtain rfl := Option.some.inj (hnext.row.symm.trans hnext'.row)
    exact h
  refine Prog.Safe.cut (Q := Prog.Any) ?_ (.refl w) calls
  exact hsafe.bind (fun _ _ _ => trivial) fun _ _ _ => trivial

/-- An iteration of the drain loop keeps the files that the operation keeps. -/
lemma keeps_drainOne (hnext : Executes w op item)
    (h : (executeItem env root op item).Safe (handle env) (.solo (Keeps leave w)) Prog.Any w) :
    Keeps leave w (runTask env (drainOne env root) w).2 := by
  refine (Keeps.trans (h.run (.refl w)).1 (.of_fs ?_))
  exact fs_drainOne hnext

end Cut

/-- The operation writes a file over its target. -/
def Writing (op : PendingOperation) : Prop := op.op = .download ∨ op.op = .writeShortcut

/-- `a.txt` gets new content on Drive, and the change is handled. -/
def remoteEdit : List Action :=
  [.outside { sampleSynced with remote := ⟨sampleDrive [66], []⟩ },
    .job (.batch ⟨[sampleChange [66]], 2⟩) 100]

/-- The state in which the download of the new content is queued. -/
def editQueued : World := performAll .plain remoteEdit sampleSynced

/-- The queued download, and the row it is for. -/
lemma editQueued_next {op : PendingOperation} {item : SyncItem} (h : Executes editQueued op item) :
    op = ⟨2, 1, .download, some (.download ⟨.id 3, 1, "B", ["a.txt"]⟩), 0, 0⟩ ∧
      item = ⟨1, ["a.txt"], .file, some (.id 3), some 1, some "A", .pendingLocal, none⟩ := by
  have hnext : OpTable.nextDue editQueued.db.ops editQueued.now =
      some ⟨2, 1, .download, some (.download ⟨.id 3, 1, "B", ["a.txt"]⟩), 0, 0⟩ := by
    decide +kernel
  obtain rfl := Option.some.inj (hnext.symm.trans h.next)
  have hrow : editQueued.db.items.getById 1 =
      some ⟨1, ["a.txt"], .file, some (.id 3), some 1, some "A", .pendingLocal, none⟩ := by
    decide +kernel
  exact ⟨rfl, (Option.some.inj (hrow.symm.trans h.row)).symm⟩

/-- The user edits `a.txt` while the download is queued. -/
def editRace : List Action :=
  remoteEdit ++ [.outside (byUser (.writeFile ["a.txt"] [67]) editQueued)]

/-- The folder `d` is trashed on Drive, and the change is handled; the local tree is `fs`. -/
def folderTrash (fs : Fs) : List Action :=
  [.outside { sampleArrived with
      fs, remote := ⟨(DriveCall.run Env.plain.md5 (.trash (.id 3)) sampleNested).2, []⟩ },
    .job (.batch ⟨[⟨.id 3, false,
      some ⟨.id 3, "d", folderMime, none, none, [.id 2], true⟩, none⟩], 3⟩) 100]

/-- The operation that removes `d` locally, and its row. -/
lemma folderTrash_next (fs : Fs) : Executes (performAll .plain (folderTrash fs) sampleArrived)
    ⟨3, 1, .deleteLocal, some (.deleteLocal ⟨false⟩), 0, 0⟩
    ⟨1, ["d"], .dir, some (.id 3), none, none, .synced, none⟩ :=
  ⟨rfl, by decide, rfl⟩

end AirDrive.LocalWork
