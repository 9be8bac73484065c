import AirDrive.System.Footprint
import AirDrive.System.InitialPlaces
import AirDrive.System.KindSafety

set_option relaxedAutoImplicit false
set_option autoImplicit false

/-!
# Which paths come into the database

The rows and the queue get their paths from local events and walks, from the change feed and from
the walks of the remote tree. Rules say which paths the rows of a kind may have; what a job brings
in is judged by what it is given and by what it finds. When nothing against the rules comes in, all
rows, and the destinations of all downloads and renames in the queue, keep them.

## Main definitions

* `AirDrive.Admission.Rules` — the paths that rows may have.
* `AirDrive.Admission.Admitted` — the rows and the queue keep the rules.
* `AirDrive.Admission.Brings` — what a job brings in keeps the rules.

## Main results

* `AirDrive.Admission.Admitted.run` — one statement.
* `AirDrive.Admission.admitted_of_runs` — whole runs.
-/

namespace AirDrive.Admission

open Effect Dispatcher Continuous Outcomes Kinds KindSafety

/-- Which paths the rows of a kind may have, and where a tree of rows may be moved. -/
structure Rules where
  /-- A row of the kind may have the path. -/
  row : ItemKind → RelPath → Prop
  /-- A tree of rows may be moved there. -/
  base : RelPath → Prop
  /-- What lies below a path that is moved keeps the rules. -/
  rebase : ∀ {k : ItemKind} {old new rest : RelPath}, rest ≠ [] → row k (old ++ rest) → base new →
    row k (new ++ rest)
  /-- So do the directories above a row. -/
  above : ∀ {k : ItemKind} {p rest : RelPath}, p ≠ [] → row k (p ++ rest) → row .dir p

/-- The rows and the queue keep the rules. -/
structure Admitted (A : Rules) (db : Db) : Prop where
  /-- The rows are at admissible paths. -/
  rows : ∀ r ∈ db.items, A.row r.kind r.relativePath
  /-- Downloads go to admissible paths. -/
  downloads : ∀ o ∈ db.ops, ∀ dl, o.payload = some (.download dl) → A.row .file dl.relativePath
  /-- Renames lead to admissible paths. -/
  renames : ∀ o ∈ db.ops, ∀ p, o.payload = some (.rename p) → ∀ r ∈ db.items,
    r.id = o.syncItemId → A.row r.kind p.newRelativePath ∧ A.base p.newRelativePath

/-- The rows that are bound to an object are of a kind that it may have. -/
def Typed (S : FileId → ItemKind → Prop) (db : Db) : Prop :=
  ∀ r ∈ db.items, ∀ id, r.remoteId = some id → S id r.kind

/-- A statement that keeps the rules and the kinds in every state. -/
def Proper (A : Rules) (S : FileId → ItemKind → Prop) : {β : Type} → DbCall β → Prop
  | _, .insertItem new => A.row new.kind new.relativePath ∧
    ∀ id, new.remoteId = some id → S id new.kind
  | _, .setRemoteId _ rid => ∀ k, S rid k
  | _, .setRelativePath _ _ => False
  | _, .renameSubtree _ _ => False
  | _, .enqueue _ _ payload _ => (∀ dl, payload = some (.download dl) → A.row .file dl.relativePath) ∧
    ∀ p, payload ≠ some (.rename p)
  | _, _ => True

/-- A statement that brings in no path and no id. -/
def pathless : {β : Type} → DbCall β → Bool
  | _, .insertItem _ => false
  | _, .setRemoteId _ _ => false
  | _, .setRelativePath _ _ => false
  | _, .renameSubtree _ _ => false
  | _, .enqueue _ _ payload _ => payload = none
  | _, _ => true

/-- A call that keeps the rules and the kinds in every state. -/
def ProperCall (A : Rules) (S : FileId → ItemKind → Prop) : {β : Type} → Call β → Prop
  | _, .db c => Proper A S c
  | _, _ => True

section Statements

variable {A : Rules} {S : FileId → ItemKind → Prop} {db : Db} {β : Type} {c : DbCall β}

/-- No statement changes the kind of a row. -/
lemma kind_of_changes {s r : SyncItem} (h : c.Changes s r) : r.kind = s.kind := by
  have heq : r = s → r.kind = s.kind := fun heq => by rw [heq]
  cases c with
  | setRemoteId id rid => rcases h with rfl | ⟨-, rfl⟩ <;> rfl
  | setRelativePath id rel =>
    obtain ⟨p, rfl⟩ := h
    rfl
  | renameSubtree old new =>
    obtain ⟨p, rfl⟩ := h
    rfl
  | updateFingerprint id size md5 => rcases h with rfl | ⟨-, rfl⟩ <;> rfl
  | setState id state => rcases h with rfl | ⟨-, rfl⟩ <;> rfl
  | markTrashed id at' => rcases h with rfl | ⟨-, rfl⟩ <;> rfl
  | clearTrashed id => rcases h with rfl | ⟨-, rfl⟩ <;> rfl
  | _ => exact heq h

/-- **One statement** keeps the rules when each row after it is where it was or at an admissible
path, and what it enqueues leads to admissible paths. -/
lemma Admitted.run (h : Admitted A db)
    (hrows : ∀ r ∈ (c.run db).2.items, A.row r.kind r.relativePath)
    (hqueue : ∀ i op payload, c.enqueues = some (i, op, payload) →
      (∀ dl, payload = some (.download dl) → A.row .file dl.relativePath) ∧
      ∀ p, payload = some (.rename p) → ∀ r ∈ db.items, r.id = i →
        A.row r.kind p.newRelativePath ∧ A.base p.newRelativePath) :
    Admitted A (c.run db).2 := by
  refine ⟨hrows, fun o ho dl hdl => ?_, fun o ho p hp r hr hid => ?_⟩
  · rcases DbCall.mem_ops_run ho with ⟨o', ho', -, -, -, hpayload⟩ | ⟨hnew, -⟩
    · exact h.downloads o' ho' dl (hpayload.trans hdl)
    · exact (hqueue _ _ _ hnew).1 dl hdl
  · have hold : ∃ s ∈ db.items, s.id = r.id ∧ s.kind = r.kind := by
      rcases DbCall.mem_items_run hr with ⟨s, hs, hsid, hchange⟩ | ⟨new, hnew, rfl⟩
      · exact ⟨s, hs, hsid, (kind_of_changes hchange).symm⟩
      · -- an operation never waits for a row that is not there yet
        obtain ⟨s, hs, hsid⟩ : ∃ s ∈ db.items, s.id = o.syncItemId := by
          rcases DbCall.mem_ops_run ho with ⟨o', ho', -, hitem, -⟩ | ⟨henq, -⟩
          · exact hitem ▸ db.ops_owned o' ho'
          · cases c <;> cases hnew
            cases henq
        exact absurd (hsid.trans hid.symm) (ItemTable.id_lt hs).ne
    obtain ⟨s, hs, hsid, hkind⟩ := hold
    rw [← hkind]
    rcases DbCall.mem_ops_run ho with ⟨o', ho', -, hitem, -, hpayload⟩ | ⟨hnew, -⟩
    · exact h.renames o' ho' p (hpayload.trans hp) s hs ((hsid.trans hid).trans hitem.symm)
    · exact (hqueue _ _ _ hnew).2 p hp s hs (hsid.trans hid)

lemma proper_of_pathless (hc : pathless c = true) : Proper A S c := by
  cases c with
  | enqueue i op payload now =>
    simp only [pathless, decide_eq_true_eq] at hc
    subst hc
    exact ⟨nofun, nofun⟩
  | insertItem new => cases hc
  | setRemoteId i rid => cases hc
  | setRelativePath i rel => cases hc
  | renameSubtree old new => cases hc
  | _ => trivial

/-- A row whose path a statement leaves alone. -/
lemma path_of_changes {s r : SyncItem} (h : c.Changes s r) (hc : Proper A S c) :
    r.relativePath = s.relativePath := by
  have heq : r = s → r.relativePath = s.relativePath := fun heq => by rw [heq]
  cases c with
  | setRemoteId id rid => rcases h with rfl | ⟨-, rfl⟩ <;> rfl
  | setRelativePath id rel => exact hc.elim
  | renameSubtree old new => exact hc.elim
  | updateFingerprint id size md5 => rcases h with rfl | ⟨-, rfl⟩ <;> rfl
  | setState id state => rcases h with rfl | ⟨-, rfl⟩ <;> rfl
  | markTrashed id at' => rcases h with rfl | ⟨-, rfl⟩ <;> rfl
  | clearTrashed id => rcases h with rfl | ⟨-, rfl⟩ <;> rfl
  | _ => exact heq h

/-- A proper statement keeps the rules. -/
lemma Admitted.proper (h : Admitted A db) (hc : Proper A S c) : Admitted A (c.run db).2 := by
  refine h.run (fun r hr => ?_) fun i op payload henq => ?_
  · rcases DbCall.mem_items_run hr with ⟨s, hs, -, hchange⟩ | ⟨new, hnew, rfl⟩
    · rw [kind_of_changes hchange, path_of_changes hchange hc]
      exact h.rows s hs
    · cases c <;> cases hnew
      exact hc.1
  · cases c <;> cases henq
    exact ⟨hc.1, fun p hp => absurd hp (hc.2 p)⟩

/-- A proper statement keeps the kinds. -/
lemma Typed.proper (h : Typed S db) (hc : Proper A S c) : Typed S (c.run db).2 := by
  intro r hr id hid
  rcases DbCall.mem_items_run hr with ⟨s, hs, -, hchange⟩ | ⟨new, hnew, rfl⟩
  · rw [kind_of_changes hchange]
    have hsame : r.remoteId = s.remoteId → S id s.kind := fun heq => h s hs id (heq ▸ hid)
    have heq : r = s → S id s.kind := fun heq => hsame (by rw [heq])
    cases c with
    | setRemoteId i rid =>
      rcases hchange with heq' | ⟨-, rfl⟩
      · exact heq heq'
      · exact Option.some.inj hid ▸ hc s.kind
    | setRelativePath i rel => exact hc.elim
    | renameSubtree old new => exact hc.elim
    | updateFingerprint i size md5 => rcases hchange with rfl | ⟨-, rfl⟩ <;> exact hsame rfl
    | setState i state => rcases hchange with rfl | ⟨-, rfl⟩ <;> exact hsame rfl
    | markTrashed i at' => rcases hchange with rfl | ⟨-, rfl⟩ <;> exact hsame rfl
    | clearTrashed i => rcases hchange with rfl | ⟨-, rfl⟩ <;> exact hsame rfl
    | _ => exact heq hchange
  · cases c <;> cases hnew
    exact hc.2 id hid

/-- Moving one row. -/
lemma Admitted.setRelativePath (h : Admitted A db) {i : ItemId} {rel : RelPath}
    (hrel : ∀ r ∈ db.items, r.id = i → A.row r.kind rel) :
    Admitted A (DbCall.run (.setRelativePath i rel) db).2 := by
  refine h.run (fun r hr => ?_) nofun
  rcases ItemTable.mem_setRelativePath.mp hr with ⟨s, hs, hid, rfl⟩ | ⟨hr, -⟩
  · exact hrel s hs hid
  · exact h.rows r hr

/-- Moving a tree of rows. -/
lemma Admitted.renameSubtree (h : Admitted A db) {old new : RelPath}
    (hself : ∀ r ∈ db.items, r.relativePath = old → A.row r.kind new) (hbase : A.base new) :
    Admitted A (DbCall.run (.renameSubtree old new) db).2 := by
  refine h.run (fun r hr => ?_) nofun
  obtain ⟨s, hs, rfl | ⟨hselected, rfl⟩⟩ := ItemTable.mem_renameSubtree_cases hr
  · exact h.rows r hs
  · rcases hselected with hsame | hbelow
    · rw [hsame, RelPath.rebase_self]
      exact hself s hs hsame
    · simp only [RelPath.likeBelow, Bool.and_eq_true, decide_eq_true_eq] at hbelow
      have hrow := h.rows s hs
      rw [← List.take_append_drop old.length s.relativePath] at hrow
      refine A.rebase (fun hnil => ?_) hrow hbase
      have := List.drop_eq_nil_iff.mp hnil
      omega

/-- Queueing a rename. -/
lemma Admitted.enqueueRename (h : Admitted A db) {i : ItemId} {op : Operation} {p : RenamePayload}
    {now : ℕ} (hp : ∀ r ∈ db.items, r.id = i →
      A.row r.kind p.newRelativePath ∧ A.base p.newRelativePath) :
    Admitted A (DbCall.run (.enqueue i op (some (.rename p)) now) db).2 := by
  refine h.run (fun r hr => ?_) fun i' op' payload henq => ?_
  · simp only [DbCall.run, Db.items_enqueue] at hr
    exact h.rows r hr
  · cases henq
    exact ⟨fun _ h => (by cases h), fun p' hp' => by cases hp'; exact hp⟩

end Statements

/-- The program keeps the rules and the kinds. -/
abbrev Obeys {α : Type} (A : Rules) (S : FileId → ItemKind → Prop) (env : Env)
    (Q : Except Error α → World → Prop) (p : Task α) (w : World) : Prop :=
  p.Safe (handle env) (.solo fun w => Admitted A w.db ∧ Typed S w.db) Q w

section Programs

variable {A : Rules} {S : FileId → ItemKind → Prop} {env : Env} {w : World} {α : Type}

lemma proper_call {β : Type} {c : Call β} (hc : ProperCall A S c)
    (h : Admitted A w.db ∧ Typed S w.db) :
    Admitted A (handle env β c w).2.db ∧ Typed S (handle env β c w).2.db := by
  cases c with
  | db c => exact ⟨h.1.proper hc, h.2.proper hc⟩
  | _ => exact h

/-- A program of proper calls keeps the rules. -/
lemma obeys_only {p : Task α} (hp : p.Only fun _ c => ProperCall A S c) :
    Obeys A S env Prog.Any p w :=
  (hp.safe (J := fun _ => True) (fun _ _ _ hc hI _ => ⟨proper_call hc hI, trivial⟩) trivial).mono
    fun _ _ _ => trivial

/-- A query: the rules hold in the state that it is asked in. -/
lemma obeys_read {β : Type} {c : DbCall β} (hc : (c.run w.db).2 = w.db) :
    Obeys A S env (fun x w' => w' = w ∧ (Admitted A w.db ∧ Typed S w.db) ∧ x = .ok (c.run w.db).1)
      (sql c) w := by
  refine (safe_sql _).mpr fun hI => ?_
  rw [hc]
  exact ⟨hI, rfl, hI, rfl⟩

/-- A look at the local tree. -/
lemma obeys_look {β : Type} {c : FsCall β} (hc : (c.run w.fs).2 = w.fs) :
    Obeys A S env (fun x w' => w' = w ∧ x = .ok (c.run w.fs).1) (io c) w := by
  refine (safe_io _).mpr fun hI => ?_
  rw [hc]
  exact ⟨hI, rfl, rfl⟩

lemma only_sql {c : DbCall α} (hc : pathless c = true) :
    (sql c).Only fun _ c => ProperCall A S c :=
  ⟨proper_of_pathless hc, fun _ => trivial⟩

lemma only_sqlTry {c : DbCall (Except Error α)} (hc : pathless c = true) :
    (sqlTry c).Only fun _ c => ProperCall A S c :=
  ⟨proper_of_pathless hc, fun x => Prog.only_ofExcept x⟩

/-- Inserting an admissible row. -/
lemma only_insertItem {new : NewSyncItem} (hrow : A.row new.kind new.relativePath)
    (hkind : ∀ id, new.remoteId = some id → S id new.kind) :
    (sqlTry (.insertItem new)).Only fun _ c => ProperCall A S c :=
  ⟨⟨hrow, hkind⟩, fun x => Prog.only_ofExcept x⟩

lemma only_io (c : FsCall α) : (io c).Only fun _ c => ProperCall A S c :=
  ⟨trivial, fun _ => trivial⟩

lemma only_ioTry (c : FsCall (Except Error α)) : (ioTry c).Only fun _ c => ProperCall A S c :=
  ⟨trivial, fun x => Prog.only_ofExcept x⟩

lemma only_request (c : DriveCall α) : (request c).Only fun _ c => ProperCall A S c :=
  ⟨trivial, fun x => Prog.only_ofExcept x⟩

lemma only_unixNow : unixNow.Only fun _ c => ProperCall A S c := ⟨trivial, fun _ => trivial⟩

lemma only_withMark {id : FileId} {body : Task α} (h : body.Only fun _ c => ProperCall A S c) :
    (withMark id body).Only fun _ c => ProperCall A S c := by
  have hmark : (.lift (.mark id) : Task Unit).Only fun _ c => ProperCall A S c :=
    ⟨trivial, fun _ => trivial⟩
  have hunmark : (.lift (.unmark id) : Task Unit).Only fun _ c => ProperCall A S c :=
    ⟨trivial, fun _ => trivial⟩
  exact hmark.bind fun _ => h.attempt.bind fun x => hunmark.bind fun _ => Prog.only_ofExcept x

/-- Queueing anything but a rename. -/
lemma only_enqueueOp {i : ItemId} {op : Operation} {payload : Option Payload}
    (hdownload : ∀ dl, payload = some (.download dl) → A.row .file dl.relativePath)
    (hrename : ∀ p, payload ≠ some (.rename p)) :
    (enqueueOp i op payload).Only fun _ c => ProperCall A S c :=
  only_unixNow.bind fun _ => Prog.Only.bind ⟨⟨hdownload, hrename⟩, fun x => Prog.only_ofExcept x⟩
    fun _ => trivial

lemma only_enqueuePlain {i : ItemId} {op : Operation} :
    (enqueueOp i op none).Only fun _ c => ProperCall A S c :=
  only_enqueueOp (fun _ h => by cases h) fun _ h => by cases h

end Programs

/-! ## Local events -/

/-- The kind of an entry of a local walk. -/
def entryKind (e : Fs.LocalEntry) : ItemKind := if e.isDir then .dir else .file

/-- What the handling of a path finds there keeps the rules: the directory and everything that is
walked below it, or the file. -/
structure Discovers (A : Rules) (fs : Fs) (p : RelPath) : Prop where
  dir : fs.isDir p = true → A.row .dir p
  below : fs.isDir p = true → ∀ e ∈ fs.walk p, A.row (entryKind e) e.relativePath
  file : fs.isFile p = true → A.row .file p

/-- A proper call that leaves the local tree alone and drops no row. -/
def Modest (A : Rules) (S : FileId → ItemKind → Prop) {β : Type} (c : Call β) : Prop :=
  ProperCall A S c ∧ offDisk c = true ∧ lasting c = true

/-- The local tree is as it was, and every row is where it was. -/
def Stays (w w' : World) : Prop :=
  w'.fs = w.fs ∧ ∀ r ∈ w.db.items, ∃ r' ∈ w'.db.items, r'.id = r.id ∧ r'.kind = r.kind ∧
    r'.relativePath = r.relativePath

section Events

variable {A : Rules} {S : FileId → ItemKind → Prop} {env : Env} {w w' w'' : World} {α : Type}
  {p : RelPath}

lemma Stays.refl (w : World) : Stays w w := ⟨rfl, fun r hr => ⟨r, hr, rfl, rfl, rfl⟩⟩

lemma Stays.trans (h : Stays w w') (h' : Stays w' w'') : Stays w w'' := by
  refine ⟨h'.1.trans h.1, fun r hr => ?_⟩
  obtain ⟨r', hr', hid, hkind, hpath⟩ := h.2 r hr
  obtain ⟨r'', hr'', hid', hkind', hpath'⟩ := h'.2 r' hr'
  exact ⟨r'', hr'', hid'.trans hid, hkind'.trans hkind, hpath'.trans hpath⟩

/-- A modest call leaves every row where it is. -/
lemma stays_call {β : Type} {c : Call β} (hc : Modest A S c) : Stays w (handle env β c w).2 := by
  obtain ⟨hproper, hdisk, hlasting⟩ := hc
  refine ⟨fs_of_offDisk hdisk, fun r hr => ?_⟩
  cases c with
  | db c =>
    obtain ⟨r', hr', hid, hchange⟩ := DbCall.rows_persist (c := c) (by simpa [lasting] using hlasting) hr
    exact ⟨r', hr', hid, kind_of_changes hchange, path_of_changes hchange hproper⟩
  | _ => exact ⟨r, hr, rfl, rfl, rfl⟩

/-- A program of modest calls. -/
lemma obeys_modest {q : Task α} (hq : q.Only fun _ c => Modest A S c) :
    Obeys A S env (fun _ w' => Stays w w') q w :=
  hq.safe (J := fun w' => Stays w w') (fun _ _ _ hc hI hJ => ⟨proper_call hc.1 hI,
    hJ.trans (stays_call hc)⟩) (Stays.refl w)

lemma modest_sql {β : Type} {c : DbCall β} (hc : pathless c = true) (hdrop : c.drops = false) :
    (sql c).Only fun _ c => Modest A S c :=
  ⟨⟨proper_of_pathless hc, rfl, by simp [lasting, hdrop]⟩, fun _ => trivial⟩

lemma modest_enqueuePlain {i : ItemId} {op : Operation} :
    (enqueueOp i op none).Only fun _ c => Modest A S c := by
  refine ⟨⟨trivial, rfl, rfl⟩, fun now => ⟨⟨⟨nofun, nofun⟩, rfl, rfl⟩, fun x => ?_⟩⟩
  exact Prog.Only.bind (Prog.only_ofExcept x) fun _ => trivial

/-- Recording a local object and queueing an operation for it. -/
lemma modest_localCreate {kind : ItemKind} {op : Operation} (h : A.row kind p) :
    (do let id ← sqlTry (.insertItem (localCreate p kind)); enqueueOp id op none).Only
      fun _ c => Modest A S c := by
  refine ⟨⟨⟨h, nofun⟩, rfl, rfl⟩, fun x => ?_⟩
  exact Prog.Only.bind (Prog.only_ofExcept x) fun _ => modest_enqueuePlain

lemma modest_enqueueLocalDir (h : A.row .dir p) :
    (enqueueLocalDir p).Only fun _ c => Modest A S c := by
  refine (modest_sql rfl rfl).bind fun row => ?_
  cases row with
  | some item => trivial
  | none => exact modest_localCreate h

lemma modest_enqueueLocalFile (h : A.row .file p) :
    (enqueueLocalFile p).Only fun _ c => Modest A S c := by
  refine (modest_sql rfl rfl).bind fun row => ?_
  cases row with
  | some item =>
    simp only
    split
    · trivial
    · exact modest_enqueuePlain
  | none => exact modest_localCreate h

/-- **A created or modified path.** -/
lemma obeys_applyCreated (h : Discovers A w.fs p) :
    Obeys A S env (fun _ w' => Stays w w') (applyCreated p) w := by
  refine Prog.Safe.bind (obeys_look rfl) ?_ fun _ _ h => by
    rw [h.1]
    exact Stays.refl w
  rintro isDir w₁ ⟨hw₁, hx⟩
  subst hw₁
  obtain rfl := Except.ok.inj hx
  split
  · next hdir =>
    refine Prog.Safe.bind (obeys_modest (modest_enqueueLocalDir (h.dir hdir)))
      (fun _ w₂ hstays => ?_) fun _ _ h => h
    refine Prog.Safe.bind (obeys_look rfl) ?_ fun _ _ h => by
      rw [h.1]
      exact hstays
    rintro entries w₃ ⟨hw₃, hx⟩
    subst hw₃
    obtain rfl := Except.ok.inj hx
    refine (obeys_modest (Prog.Only.forEach fun e he => ?_)).mono fun _ _ h => hstays.trans h
    simp only [FsCall.run, hstays.1] at he
    have hrow := h.below hdir e he
    unfold enqueueLocalEntry
    unfold entryKind at hrow
    split <;> rename_i hkind
    · rw [if_pos hkind] at hrow
      exact modest_enqueueLocalDir hrow
    · rw [if_neg hkind] at hrow
      exact modest_enqueueLocalFile hrow
  · refine Prog.Safe.bind (obeys_look rfl) ?_ fun _ _ h => by
      rw [h.1]
      exact Stays.refl w₁
    rintro isFile w₂ ⟨hw₂, hx⟩
    subst hw₂
    obtain rfl := Except.ok.inj hx
    split
    · next hfile => exact obeys_modest (modest_enqueueLocalFile (h.file hfile))
    · exact Stays.refl w₂

lemma only_applyDeleted : (applyDeleted p).Only fun _ c => ProperCall A S c := by
  have hcleanup : (Conflict.cleanupOnLocalDelete p).Only fun _ c => ProperCall A S c := by
    refine (only_sql rfl).bind fun records => Prog.Only.forEach fun c _ => ?_
    split
    · exact only_sql rfl
    · trivial
  refine hcleanup.bind fun _ => (only_sql rfl).bind fun row => ?_
  cases row with
  | none => trivial
  | some item =>
    simp only
    split
    · trivial
    · split
      · exact only_enqueuePlain
      · exact only_sql rfl

/-- What an event brings in. -/
def EventBrings (A : Rules) (w : World) : WatchEvent → Prop
  | .created p => Discovers A w.fs p
  | .modified p => Discovers A w.fs p
  | .deleted _ => True
  | .renamed from' to' =>
    match w.db.items.getByRelativePath from' with
    | some item => A.row item.kind to' ∧ A.base to'
    | none => Discovers A w.fs to'

/-- Queueing the rename of a row. -/
lemma obeys_enqueueRename {i : ItemId} {op : Operation} {p : RenamePayload}
    (hp : ∀ r ∈ w.db.items, r.id = i → A.row r.kind p.newRelativePath ∧ A.base p.newRelativePath) :
    Obeys A S env (fun _ w' => w'.db.items = w.db.items) (enqueueOp i op (some (.rename p))) w := by
  refine Prog.safe_bind.mpr (safe_unixNow.mpr fun hI => ⟨hI, ?_⟩)
  refine Prog.safe_bind.mpr ((safe_sqlTry _).mpr fun hI =>
    ⟨⟨hI.1.enqueueRename hp, fun r hr => ?_⟩, ?_⟩)
  · simp only [DbCall.run, Db.items_enqueue] at hr
    exact hI.2 r hr
  · cases (DbCall.run (.enqueue i op (some (.rename p)) w.now) w.db).1 <;>
      simp [DbCall.run]

/-- **A renamed path.** -/
lemma obeys_applyRenamed {from' to' : RelPath} (h : EventBrings A w (.renamed from' to')) :
    Obeys A S env Prog.Any (applyRenamed from' to') w := by
  refine Prog.safe_bind.mpr ((safe_sql _).mpr fun hI => ⟨hI, ?_⟩)
  simp only [DbCall.run]
  simp only [EventBrings] at h
  cases hrow : w.db.items.getByRelativePath from' with
  | none =>
    rw [hrow] at h
    exact (obeys_applyCreated h).mono fun _ _ _ => trivial
  | some item =>
    rw [hrow] at h
    obtain ⟨hitem, -⟩ := ItemTable.getByRelativePath_eq_some.mp hrow
    have hown : ∀ r ∈ w.db.items, r.id = item.id → r = item :=
      fun r hr hid => ItemTable.id_inj hr hitem hid
    simp only
    split
    · refine Prog.safe_bind.mpr ((safe_sql _).mpr fun hI => ⟨⟨hI.1.setRelativePath fun r hr hid =>
        hown r hr hid ▸ h.1, fun r hr id hid => ?_⟩, obeys_only only_enqueuePlain⟩)
      rcases ItemTable.mem_setRelativePath.mp hr with ⟨s, hs, -, rfl⟩ | ⟨hr, -⟩
      · exact hI.2 s hs id hid
      · exact hI.2 r hr id hid
    · exact (obeys_enqueueRename fun r hr hid => hown r hr hid ▸ h).mono fun _ _ _ => trivial

/-- **A watcher event.** -/
lemma obeys_applyLocal {ev : WatchEvent} (h : EventBrings A w ev) :
    Obeys A S env Prog.Any (applyLocal ev) w := by
  cases ev with
  | created p => exact (obeys_applyCreated h).mono fun _ _ _ => trivial
  | modified p => exact (obeys_applyCreated h).mono fun _ _ _ => trivial
  | deleted p => exact obeys_only only_applyDeleted
  | renamed from' to' => exact obeys_applyRenamed h

/-! ## The startup scan -/

/-- What the startup scan brings in: a directory without a row, with everything that is walked below
it, and a file. -/
def ScanBrings (A : Rules) (env : Env) (w : World) : Prop :=
  ∀ e ∈ w.fs.walk [], StartupScan.isIgnored env e.relativePath = false →
    if e.isDir then w.db.items.getByRelativePath e.relativePath = none →
      Discovers A w.fs e.relativePath
    else A.row .file e.relativePath

/-- A path that has no row later has none before. -/
lemma Stays.untracked (h : Stays w w') (hp : w'.db.items.getByRelativePath p = none) :
    w.db.items.getByRelativePath p = none := by
  refine ItemTable.getByRelativePath_eq_none.mpr fun r hr hpath => ?_
  obtain ⟨r', hr', -, -, hsame⟩ := h.2 r hr
  exact ItemTable.getByRelativePath_eq_none.mp hp r' hr' (hsame.trans hpath)

/-- Looking whether Drive still has what a row records. -/
lemma modest_remoteMatchesSynced (item : SyncItem) :
    (StartupScan.remoteMatchesSynced item).Only fun _ c => Modest A S c := by
  unfold StartupScan.remoteMatchesSynced
  split
  · trivial
  · refine Prog.Only.bind (Prog.Only.attempt ⟨⟨trivial, rfl, rfl⟩, fun x => Prog.only_ofExcept x⟩)
      fun res => ?_
    split <;> trivial

lemma modest_computeLocal (rel : RelPath) :
    (computeLocal env rel).Only fun _ c => Modest A S c :=
  Prog.Only.bind ⟨⟨trivial, rfl, rfl⟩, fun x => Prog.only_ofExcept x⟩ fun _ => trivial

/-- An entry of the walk that is a file is a file. -/
lemma discovers_file {e : Fs.LocalEntry} (he : e ∈ w.fs.walk p) (hfile : e.isDir = false)
    (h : A.row .file e.relativePath) : Discovers A w.fs e.relativePath := by
  obtain ⟨n, hnode, hkind⟩ := node_of_walk he
  have hno : w.fs.isDir e.relativePath ≠ true := by
    intro hdir
    rw [Fs.isDir_iff.mp hdir] at hnode
    rw [hfile, ← Option.some.inj hnode] at hkind
    simp at hkind
  exact ⟨fun hdir => absurd hdir hno, fun hdir => absurd hdir hno, fun _ => h⟩

/-- **The startup scan.** -/
lemma obeys_startupLocalScan (h : ScanBrings A env w) :
    Obeys A S env Prog.Any (StartupScan.startupLocalScan env) w := by
  have hentry : ∀ e ∈ w.fs.walk [], ∀ w₁, Stays w w₁ →
      Obeys A S env (fun _ w' => Stays w w') (StartupScan.scanEntry env e) w₁ := by
    intro e he w₁ hstays
    have hcreated : Discovers A w.fs e.relativePath → ∀ w₂, Stays w w₂ →
        Obeys A S env (fun _ w' => Stays w w') (applyCreated e.relativePath) w₂ := by
      intro hfinds w₂ hw₂
      have hfinds : Discovers A w₂.fs e.relativePath := by rwa [hw₂.1]
      exact (obeys_applyCreated hfinds).mono fun _ _ h => hw₂.trans h
    unfold StartupScan.scanEntry
    split
    · exact hstays
    · next hignored =>
      have hbrings := h e he (by simpa using hignored)
      refine Prog.safe_bind.mpr ((safe_sql _).mpr fun hI => ⟨hI, ?_⟩)
      simp only [DbCall.run]
      split
      · next hdir =>
        rw [if_pos hdir] at hbrings
        cases hrow : w₁.db.items.getByRelativePath e.relativePath with
        | none => exact hcreated (hbrings (hstays.untracked hrow)) w₁ hstays
        | some item => exact hstays
      · next hfile =>
        rw [if_neg hfile] at hbrings
        have hfinds := discovers_file he (by simpa using hfile) hbrings
        cases w₁.db.items.getByRelativePath e.relativePath with
        | none => exact hcreated hfinds w₁ hstays
        | some item =>
          simp only
          split
          · exact hstays
          · refine Prog.Safe.bind (obeys_modest (modest_computeLocal _)) (fun print w₂ h₂ => ?_)
              fun _ _ h => hstays.trans h
            split
            · refine Prog.Safe.bind (obeys_modest (modest_remoteMatchesSynced item))
                (fun same w₃ h₃ => ?_) fun _ _ h => (hstays.trans h₂).trans h
              split
              · exact hcreated hfinds w₃ ((hstays.trans h₂).trans h₃)
              · exact (hstays.trans h₂).trans h₃
            · exact hstays.trans h₂
  refine Prog.safe_bind.mpr ((safe_io _).mpr fun hI => ⟨hI, ?_⟩)
  simp only [FsCall.run]
  refine Prog.Safe.bind (P := Prog.Any) ?_ (fun _ w₁ _ => obeys_only ?_) fun _ _ _ => trivial
  · refine Prog.Safe.forEach (fun w' => Stays w w') (Stays.refl w) (fun e he w₁ h₁ => ?_)
      fun _ _ => trivial
    refine (hentry e he w₁ h₁).mono fun x _ h => ?_
    cases x <;> first | exact h | trivial
  · refine (only_sql rfl).bind fun rows => Prog.Only.forEach fun item _ => ?_
    unfold StartupScan.scanRow
    split
    · refine ((modest_remoteMatchesSynced item).mono fun _ _ h => h.1).bind fun same => ?_
      split
      · exact only_applyDeleted
      · trivial
    · trivial

end Events

/-! ## Remote changes -/

/-- Where the local object of a change belongs: a native document has a pointer file. -/
def placeOf (c : RemoteChange) (file : FileResource) : RelPath :=
  if !file.isFolder && Shortcut.isNative file.mimeType then
    Shortcut.relativePath (c.path file) file.mimeType
  else c.path file

/-- What a change brings in: the object is of a kind that it may have, it belongs at an admissible
path, and the rows that may be bound to it, or to its parent, may be moved along. -/
structure ChangeBrings (A : Rules) (S : FileId → ItemKind → Prop) (c : RemoteChange)
    (file : FileResource) : Prop where
  kind : S file.id (resourceKind file)
  row : A.row (resourceKind file) (placeOf c file)
  moved : ∀ k, S c.fileId k → A.row k (placeOf c file) ∧ A.base (placeOf c file)
  parent : ∀ id, file.parents.head? = some id → ∀ k, S id k →
    A.row k (placeOf c file).parentDir ∧ A.base (placeOf c file).parentDir
  fetched : file.isFolder = false → ∀ k q, S c.fileId k → A.row k q → A.row .file q

section Changes

variable {A : Rules} {S : FileId → ItemKind → Prop} {env : Env} {w : World} {c : RemoteChange}
  {file : FileResource} {md5 : String} {rel : RelPath} {item : SyncItem}

lemma only_enqueueDownload {i : ItemId} (h : A.row .file rel) :
    (enqueueDownload i file md5 rel).Only fun _ c => ProperCall A S c :=
  only_enqueueOp (fun dl hdl => by cases hdl; exact h) nofun

/-- Queueing the local rename of a row that is there. -/
lemma obeys_enqueueRenameLocal (hitem : item ∈ w.db.items)
    (h : A.row item.kind rel ∧ A.base rel) :
    Obeys A S env (fun _ w' => w'.db.items = w.db.items) (enqueueRenameLocal item.id rel) w :=
  obeys_enqueueRename fun _ hr hid => ItemTable.id_inj hr hitem hid ▸ h

/-- **A live folder.** -/
lemma obeys_applyFolder (h : ChangeBrings A S c file) (hfolder : file.isFolder = true) :
    Obeys A S env Prog.Any (applyFolder c.fileId file (c.path file)) w := by
  have hplace : placeOf c file = c.path file := by simp [placeOf, hfolder]
  have hkind : resourceKind file = .dir := if_pos hfolder
  have hnew : A.row .dir (c.path file) := hplace ▸ hkind ▸ h.row
  have hid : S file.id .dir := hkind ▸ h.kind
  refine Prog.Safe.bind (obeys_read rfl) (fun row w₁ ⟨hw₁, hI, hx⟩ => ?_) fun _ _ _ => trivial
  subst hw₁
  obtain rfl := Except.ok.inj hx
  simp only [DbCall.run]
  cases hrow : w₁.db.items.getByRemoteId c.fileId with
  | some existing =>
    obtain ⟨hmem, hbound⟩ := ItemTable.getByRemoteId_mem hrow
    have hmoved := h.moved existing.kind (hI.2 existing hmem _ hbound)
    rw [hplace] at hmoved
    simp only
    split
    · exact (obeys_enqueueRenameLocal hmem hmoved).mono fun _ _ _ => trivial
    · trivial
  | none =>
    refine obeys_only ((only_sql rfl).bind fun occupant => ?_)
    cases occupant with
    | some _ => trivial
    | none =>
      refine (@only_insertItem A S (remoteDir (c.path file) file.id) hnew fun id heq => ?_).bind
        fun _ => only_enqueuePlain
      exact Option.some.inj heq ▸ hid

/-- **A live native document.** -/
lemma obeys_applyNative (h : ChangeBrings A S c file) (hfile : file.isFolder = false)
    (hnative : Shortcut.isNative file.mimeType = true) :
    Obeys A S env Prog.Any (applyNative c.fileId file
      (Shortcut.relativePath (c.path file) file.mimeType)) w := by
  have hplace : placeOf c file = Shortcut.relativePath (c.path file) file.mimeType := by
    simp [placeOf, hfile, hnative]
  have hkind : resourceKind file = .file := by simp [resourceKind, hfile]
  have hnew : A.row .file (Shortcut.relativePath (c.path file) file.mimeType) :=
    hplace ▸ hkind ▸ h.row
  have hid : S file.id .file := hkind ▸ h.kind
  have hwrite : ∀ i, (enqueueWriteShortcut i file.mimeType file.id).Only
      fun _ c => ProperCall A S c := fun i => only_enqueueOp (fun _ h => by cases h) fun _ h => by cases h
  refine Prog.Safe.bind (obeys_read rfl) ?_ fun _ _ _ => trivial
  rintro row w₁ ⟨hw₁, hI, hx⟩
  subst hw₁
  obtain rfl := Except.ok.inj hx
  simp only [DbCall.run]
  cases hrow : w₁.db.items.getByRemoteId c.fileId with
  | some existing =>
    obtain ⟨hmem, hbound⟩ := ItemTable.getByRemoteId_mem hrow
    have hmoved := h.moved existing.kind (hI.2 existing hmem _ hbound)
    rw [hplace] at hmoved
    simp only
    split
    · exact (obeys_enqueueRenameLocal hmem hmoved).mono fun _ _ _ => trivial
    · split
      · exact obeys_only ((only_sql rfl).bind fun _ => hwrite _)
      · trivial
  | none =>
    refine obeys_only ((@only_insertItem A S (pointer _ file.id) hnew fun id heq => ?_).bind
      fun _ => hwrite _)
    exact Option.some.inj heq ▸ hid

/-- The directory that explains a move is bound to the parent of the file. -/
lemma obeys_renamedDir :
    Obeys A S env (fun x w' => w' = w ∧ ∀ dir, x = .ok (some dir) → dir ∈ w.db.items ∧
      ∃ id, file.parents.head? = some id ∧ dir.remoteId = some id) (renamedDir item file rel) w := by
  unfold renamedDir
  cases hparent : file.parents.head? with
  | none => exact ⟨rfl, fun _ h => by cases h⟩
  | some id =>
    simp only
    split
    · refine Prog.Safe.bind (obeys_read rfl) (fun row w₁ ⟨hw₁, _, hx⟩ => ?_) fun _ _ h => ⟨h.1, nofun⟩
      subst hw₁
      obtain rfl := Except.ok.inj hx
      simp only [DbCall.run]
      cases hrow : w₁.db.items.getByRelativePath item.relativePath.parentDir with
      | none => exact ⟨rfl, fun _ h => by cases h⟩
      | some dir =>
        simp only
        split
        · next hbound =>
          refine ⟨rfl, fun dir' hdir => ?_⟩
          obtain rfl := Option.some.inj (Except.ok.inj hdir)
          exact ⟨(ItemTable.getByRelativePath_eq_some.mp hrow).1, id, rfl, hbound⟩
        · exact ⟨rfl, fun _ h => by cases h⟩
    · exact ⟨rfl, fun _ h => by cases h⟩

/-- **A file that moved.** -/
lemma obeys_applyMoved (hitem : item ∈ w.db.items)
    (hmoved : A.row item.kind rel ∧ A.base rel) (hfile : A.row .file rel)
    (hparent : ∀ dir ∈ w.db.items, ∀ id, file.parents.head? = some id → dir.remoteId = some id →
      A.row dir.kind rel.parentDir ∧ A.base rel.parentDir) :
    Obeys A S env Prog.Any (applyMoved item file md5 rel) w := by
  refine Prog.Safe.bind obeys_renamedDir (fun dir w₁ ⟨hw₁, hdir⟩ => ?_) fun _ _ _ => trivial
  subst hw₁
  cases dir with
  | some dir =>
    obtain ⟨hmem, id, hid, hbound⟩ := hdir dir rfl
    exact (obeys_enqueueRenameLocal hmem (hparent dir hmem id hid hbound)).mono fun _ _ _ => trivial
  | none =>
    refine Prog.Safe.bind (obeys_enqueueRenameLocal hitem hmoved) (fun _ w₂ _ => ?_)
      fun _ _ _ => trivial
    split
    · trivial
    · exact obeys_only (only_enqueueDownload hfile)

lemma only_localVersion : (localVersion env item md5).Only fun _ c => ProperCall A S c := by
  refine (only_io _).bind fun isFile => ?_
  split
  · cases item.md5 with
    | none => trivial
    | some synced =>
      refine (only_io _).bind fun res => ?_
      cases res with
      | error e => trivial
      | ok bytes =>
        simp only
        split
        · trivial
        · split <;> trivial
  · trivial

lemma only_openConflict {i : ItemId} {now : ℕ} :
    (Conflict.openConflict i rel now).Only fun _ c => ProperCall A S c := by
  refine Prog.Only.bind ?_ fun _ => (only_sqlTry rfl).bind fun _ => trivial
  refine (only_io _).bind fun present => ?_
  split
  · refine (only_io _).bind fun res => ?_
    cases res <;> trivial
  · trivial

/-- A file whose content changed. -/
lemma only_applyEdited (h : A.row .file item.relativePath) :
    (applyEdited env item file md5).Only fun _ c => ProperCall A S c := by
  unfold applyEdited
  split
  · trivial
  · refine only_localVersion.bind fun version => ?_
    cases version with
    | agrees => trivial
    | edited =>
      exact only_unixNow.bind fun _ => only_openConflict.bind fun _ => only_enqueueDownload h
    | behind => exact only_enqueueDownload h

/-- **A live file.** -/
lemma obeys_applyFile (h : ChangeBrings A S c file) (hfile : file.isFolder = false)
    (hnative : Shortcut.isNative file.mimeType = false) :
    Obeys A S env Prog.Any (applyFile env c file md5) w := by
  have hplace : placeOf c file = c.path file := by simp [placeOf, hnative]
  have hkind : resourceKind file = .file := by simp [resourceKind, hfile]
  have hnew : A.row .file (c.path file) := hplace ▸ hkind ▸ h.row
  have hid : S file.id .file := hkind ▸ h.kind
  refine Prog.Safe.bind (obeys_read rfl) ?_ fun _ _ _ => trivial
  rintro row w₁ ⟨hw₁, hI, hx⟩
  subst hw₁
  obtain rfl := Except.ok.inj hx
  simp only [DbCall.run]
  cases hrow : w₁.db.items.getByRemoteId c.fileId with
  | some item =>
    obtain ⟨hmem, hbound⟩ := ItemTable.getByRemoteId_mem hrow
    have htyped := hI.2 item hmem _ hbound
    have hown : A.row .file item.relativePath := h.fetched hfile _ _ htyped (hI.1.rows item hmem)
    simp only
    split
    · exact obeys_only ((only_sql rfl).bind fun _ => only_enqueueDownload hown)
    · cases hrel : c.relativePath with
      | none => exact obeys_only (only_applyEdited hown)
      | some rel =>
        have hpath : placeOf c file = rel := by rw [hplace, RemoteChange.path, hrel]; rfl
        simp only
        split
        · refine obeys_applyMoved hmem (hpath ▸ h.moved _ htyped) (hpath ▸ hkind ▸ h.row) ?_
          intro dir hdir id hid hdirBound
          exact hpath ▸ h.parent id hid _ (hI.2 dir hdir id hdirBound)
        · exact obeys_only (only_applyEdited hown)
  | none =>
    refine obeys_only ((only_sql rfl).bind fun occupant => ?_)
    cases occupant with
    | some _ => trivial
    | none =>
      refine (@only_insertItem A S (remoteFile (c.path file) file md5) hnew fun id heq => ?_).bind
        fun _ => only_enqueueDownload hnew
      exact Option.some.inj heq ▸ hid

/-- **A remote change.** -/
lemma obeys_applyRemote (h : ∀ file, c.removed = false → c.file = some file →
    file.trashed = false → ChangeBrings A S c file) :
    Obeys A S env Prog.Any (applyRemote env c) w := by
  have hflight : (.lift (.inFlight c.fileId) : Task Bool).Only fun _ c => ProperCall A S c :=
    ⟨trivial, fun _ => trivial⟩
  refine Prog.Safe.bind (obeys_only hflight) (fun flying w₁ _ => ?_) fun _ _ _ => trivial
  split
  · trivial
  · split
    · refine obeys_only ((only_sql rfl).bind fun row => ?_)
      cases row with
      | none => trivial
      | some item => exact only_enqueueOp (fun _ h => by cases h) fun _ h => by cases h
    · next hremoved =>
      cases hfile : c.file with
      | none => trivial
      | some file =>
        simp only [applyPresent]
        split
        · refine obeys_only ((only_sql rfl).bind fun row => ?_)
          cases row with
          | none => trivial
          | some item =>
            simp only
            split
            · exact only_enqueueOp (fun _ h => by cases h) fun _ h => by cases h
            · trivial
        · next hlive =>
          have hbrings := h file (by simpa using hremoved) hfile (by simpa using hlive)
          split
          · next hfolder => exact obeys_applyFolder hbrings hfolder
          · next hregular =>
            have hregular : file.isFolder = false := by simpa using hregular
            split
            · next hnative => exact obeys_applyNative hbrings hregular hnative
            · next hplain =>
              split
              · trivial
              · exact obeys_applyFile hbrings hregular (by simpa using hplain)

/-- What a batch brings in. -/
def BatchBrings (A : Rules) (S : FileId → ItemKind → Prop) (b : RemoteBatch) : Prop :=
  ∀ c ∈ b.changes, ∀ file, c.removed = false → c.file = some file → file.trashed = false →
    ChangeBrings A S c file

/-- **A batch.** -/
lemma obeys_applyBatch {b : RemoteBatch} (h : BatchBrings A S b) :
    Obeys A S env Prog.Any (Consumer.applyBatch env b) w := by
  refine Prog.Safe.bind (P := Prog.Any) ?_ (fun allApplied w₁ _ => ?_) fun _ _ _ => trivial
  · refine Prog.Safe.foldM (fun _ _ => True) trivial (fun c hc b w₂ _ => ?_) fun _ _ _ => trivial
    refine Prog.Safe.bind (P := Prog.Any) (Prog.safe_attempt.mpr
      ((obeys_applyRemote (h c hc)).mono fun _ _ _ => trivial)) (fun res w₃ _ => ?_) fun _ _ _ => trivial
    cases res <;> trivial
  · split
    · exact obeys_only (only_sql rfl)
    · trivial

end Changes

/-! ## The dispatcher -/

/-- Rows of any kind may be bound to any object. -/
def anyKind : FileId → ItemKind → Prop := fun _ _ => True

section Drain

variable {A : Rules} {env : Env} {w : World} {root : FileId} {item : SyncItem}

lemma modest_setRemoteId {i : ItemId} {rid : FileId} :
    (sql (.setRemoteId i rid)).Only fun _ c => Modest A anyKind c :=
  ⟨⟨fun _ => trivial, rfl, rfl⟩, fun _ => trivial⟩

lemma modest_request {α : Type} (c : DriveCall α) :
    (request c).Only fun _ c => Modest A anyKind c :=
  ⟨⟨trivial, rfl, rfl⟩, fun x => Prog.only_ofExcept x⟩

/-- **Making the folders of a path** records directories above it only. -/
lemma modest_ensureRemoteFolder {dir : RelPath}
    (h : ∀ p, p ≠ [] → p <+: dir → A.row .dir p) :
    (ensureRemoteFolder root dir).Only fun _ c => Modest A anyKind c := by
  suffices hsegments : ∀ (segments : List String) (current : FileId) (cumulative : RelPath),
      cumulative ++ segments <+: dir →
        (ensureSegments current cumulative segments).Only fun _ c => Modest A anyKind c
    from hsegments dir root [] (by simp)
  intro segments
  induction segments with
  | nil => exact fun _ _ _ => trivial
  | cons seg rest ih =>
    intro current cumulative hpre
    have hseg : cumulative ++ [seg] <+: dir := by
      refine List.IsPrefix.trans ⟨rest, ?_⟩ hpre
      simp
    have hchild : (childFolder current seg).Only fun _ c => Modest A anyKind c := by
      refine (modest_request _).bind fun children => ?_
      split
      · trivial
      · exact (modest_request _).bind fun _ => trivial
    have hrow : A.row .dir (cumulative ++ [seg]) := h _ (by simp) hseg
    have hpersist : ∀ next, (persistDir (cumulative ++ [seg]) next).Only
        fun _ c => Modest A anyKind c := by
      intro next
      refine (modest_sql rfl rfl).bind fun row => ?_
      cases row with
      | some existing =>
        simp only
        split
        · exact modest_setRemoteId
        · trivial
      | none =>
        exact Prog.Only.bind ⟨⟨⟨hrow, fun _ _ => trivial⟩, rfl, rfl⟩,
          fun x => Prog.only_ofExcept x⟩ fun _ => trivial
    exact hchild.bind fun next => (hpersist next).bind fun _ => ih next _ (by simpa using hpre)

/-- The directories above an admissible path. -/
lemma row_above {k : ItemKind} {p q : RelPath} (h : A.row k p) (hq : q ≠ []) (hpre : q <+: p) :
    A.row .dir q := by
  obtain ⟨rest, rfl⟩ := hpre
  exact A.above hq h

lemma row_above_parent {k : ItemKind} {p q : RelPath} (h : A.row k p) (hq : q ≠ [])
    (hpre : q <+: p.splitParent.1) : A.row .dir q :=
  row_above h hq (hpre.trans (List.dropLast_prefix p))

/-- **Upload.** -/
lemma only_executeUpload (h : A.row item.kind item.relativePath) :
    (executeUpload env root item).Only fun _ c => ProperCall A anyKind c := by
  have hbind : ∀ rid, (sql (.setRemoteId item.id rid)).Only fun _ c => ProperCall A anyKind c :=
    fun rid => modest_setRemoteId.mono fun _ _ hc => hc.1
  refine (only_io _).bind fun isFile => ?_
  split
  · refine ((modest_computeLocal _).mono fun _ _ hc => hc.1).bind fun print => ?_
    simp only
    split
    · trivial
    · cases item.remoteId with
      | some rid =>
        exact only_withMark (((only_ioTry _).bind fun _ => only_request _).bind fun _ => only_sql rfl)
      | none =>
        refine ((modest_ensureRemoteFolder fun q hq hpre => row_above_parent h hq hpre).mono
          fun _ _ hc => hc.1).bind fun parent => ?_
        refine ((only_ioTry _).bind fun _ => only_request _).bind fun rf => only_withMark ?_
        exact (hbind _).bind fun _ => only_sql rfl
  · trivial

/-- **Download.** -/
lemma only_executeDownload {payload : Option Payload} :
    (executeDownload env item payload).Only fun _ c => ProperCall A anyKind c := by
  have hfetch : ∀ rid rel, (Engine.download rid rel).Only fun _ c => ProperCall A anyKind c :=
    fun _ _ => (only_request _).bind fun _ => (only_ioTry _).bind fun _ => only_ioTry _
  refine (Prog.only_ofExcept _).bind fun dl => (only_ioTry _).bind fun _ =>
    (hfetch _ _).bind fun _ => ((modest_computeLocal _).mono fun _ _ hc => hc.1).bind fun print =>
      (only_sql rfl).bind fun _ => ?_
  split
  · exact modest_setRemoteId.mono fun _ _ hc => hc.1
  · trivial

/-- **DeleteRemote.** -/
lemma only_executeDeleteRemote :
    (executeDeleteRemote env item).Only fun _ c => ProperCall A anyKind c := by
  unfold executeDeleteRemote
  split
  · refine only_withMark (Prog.Only.bind (Prog.Only.attempt ?_) fun res => ?_)
    · unfold Engine.deleteRemote
      split <;> exact only_request _
    · cases res with
      | ok u => exact only_sql rfl
      | error e =>
        simp only
        split
        · refine Prog.Only.bind (Prog.Only.attempt ?_) fun res => ?_
          · refine (only_request _).bind fun v => ?_
            split
            · trivial
            · exact only_request _
          · cases res <;> exact only_sql rfl
        · trivial
  · exact only_sql rfl

/-- **DeleteLocal.** -/
lemma only_executeDeleteLocal {payload : Option Payload} :
    (executeDeleteLocal item payload).Only fun _ c => ProperCall A anyKind c := by
  have hremove : (removeLocal item).Only fun _ c => ProperCall A anyKind c := by
    unfold removeLocal
    split <;>
    · refine (only_io _).bind fun res => ?_
      cases res with
      | ok u => trivial
      | error e =>
        simp only
        split <;> trivial
  refine hremove.bind fun _ => (Prog.only_ofExcept _).bind fun p => ?_
  unfold forgetLocal
  split
  · exact only_unixNow.bind fun _ => only_sql rfl
  · exact only_sql rfl

/-- **RenameRemote**: the row, or the tree of rows, follows the object. -/
lemma obeys_executeRenameRemote {payload : Option Payload} (hitem : item ∈ w.db.items)
    (hpayload : ∀ p, payload = some (.rename p) →
      A.row item.kind p.newRelativePath ∧ A.base p.newRelativePath) :
    Obeys A anyKind env Prog.Any (executeRenameRemote root item payload) w := by
  refine Prog.Safe.bind (P := fun x w' => w' = w ∧ x = decodePayload Payload.asRename payload)
    (Prog.safe_ofExcept _ |>.mpr ⟨rfl, rfl⟩) (fun p w₁ ⟨hw₁, hp⟩ => ?_) fun _ _ _ => trivial
  subst hw₁
  obtain ⟨hrow, hbase⟩ := hpayload p (asRename_ok hp.symm)
  cases item.remoteId with
  | none => exact obeys_only (only_sql rfl)
  | some rid =>
    refine Prog.Safe.bind (obeys_modest (modest_ensureRemoteFolder fun q hq hpre =>
      row_above_parent hrow hq hpre)) (fun parent w₂ hstays => ?_) fun _ _ _ => trivial
    refine safe_withMark.mpr fun hI => ⟨hI, ?_⟩
    have hmove : (Engine.moveRemote rid parent p.newRelativePath.splitParent.2).Only
        fun _ c => Modest A anyKind c := (modest_request _).bind fun _ => modest_request _
    refine Prog.Safe.bind (obeys_modest hmove) (fun _ w₃ hstays' => ?_) fun _ _ _ hI => ⟨hI, trivial⟩
    obtain ⟨r₂, hr₂, hid₂, hkind₂, hpath₂⟩ := hstays.2 item hitem
    obtain ⟨r, hr, hid, hkind, hpath⟩ := hstays'.2 r₂ hr₂
    have hown : A.row r.kind p.newRelativePath := by rwa [hkind, hkind₂]
    split
    · refine (safe_sql _).mpr fun hI => ⟨⟨hI.1.renameSubtree (fun s hs hspath => ?_) hbase,
        fun _ _ _ _ => trivial⟩, fun hI => ⟨hI, trivial⟩⟩
      rwa [ItemTable.path_inj hs hr (hspath.trans (hpath.trans hpath₂).symm)]
    · refine (safe_sql _).mpr fun hI => ⟨⟨hI.1.setRelativePath fun s hs hsid => ?_,
        fun _ _ _ _ => trivial⟩, fun hI => ⟨hI, trivial⟩⟩
      rwa [ItemTable.id_inj hs hr (hsid.trans (hid.trans hid₂).symm)]

/-- A program that only touches the local tree. -/
lemma obeys_onTree {α : Type} {q : Task α}
    (hq : q.Only fun _ c => InitialPlaces.onTree c = true) :
    Obeys A anyKind env (fun _ w' => w'.db = w.db) q w := by
  refine hq.safe (J := fun w' : World => w'.db = w.db) (fun _ c _ hc hI hJ => ?_) rfl
  cases c with
  | fs c => exact ⟨hI, hJ⟩
  | _ => cases hc

lemma onTree_ioTry {α : Type} (c : FsCall (Except Error α)) :
    (ioTry c).Only fun _ c => InitialPlaces.onTree c = true :=
  ⟨rfl, fun x => Prog.only_ofExcept x⟩

/-- **RenameLocal**: the tree of rows follows the local tree. -/
lemma obeys_executeRenameLocal {payload : Option Payload} (hitem : item ∈ w.db.items)
    (hpayload : ∀ p, payload = some (.rename p) →
      A.row item.kind p.newRelativePath ∧ A.base p.newRelativePath) :
    Obeys A anyKind env Prog.Any (executeRenameLocal item payload) w := by
  refine Prog.Safe.bind (P := fun x w' => w' = w ∧ x = decodePayload Payload.asRename payload)
    (Prog.safe_ofExcept _ |>.mpr ⟨rfl, rfl⟩) (fun p w₁ ⟨hw₁, hp⟩ => ?_) fun _ _ _ => trivial
  subst hw₁
  obtain ⟨hrow, hbase⟩ := hpayload p (asRename_ok hp.symm)
  have hmove : (moveLocal item.relativePath p.newRelativePath).Only
      fun _ c => InitialPlaces.onTree c = true := by
    refine Prog.Only.bind ⟨rfl, fun _ => trivial⟩ fun res => ?_
    cases res with
    | ok u => trivial
    | error e =>
      simp only
      split
      · trivial
      · split
        · exact onTree_ioTry _
        · trivial
  refine Prog.Safe.bind (obeys_onTree (onTree_ioTry _)) (fun _ w₂ hdb₂ => ?_) fun _ _ _ => trivial
  refine Prog.Safe.bind (obeys_onTree hmove) (fun _ w₃ hdb₃ => ?_) fun _ _ _ => trivial
  refine (safe_sql _).mpr fun hI => ⟨⟨hI.1.renameSubtree (fun s hs hspath => ?_) hbase,
    fun _ _ _ _ => trivial⟩, trivial⟩
  rw [hdb₃, hdb₂] at hs
  rwa [ItemTable.path_inj hs hitem hspath]

/-- **An operation** whose item and payload keep the rules. -/
lemma obeys_executeItem {op : PendingOperation} (h : Admitted A w.db) (hop : op ∈ w.db.ops)
    (hitem : item ∈ w.db.items) (hid : item.id = op.syncItemId) :
    Obeys A anyKind env Prog.Any (executeItem env root op item) w := by
  have hrow := h.rows item hitem
  have hrename : ∀ p, op.payload = some (.rename p) →
      A.row item.kind p.newRelativePath ∧ A.base p.newRelativePath :=
    fun p hp => h.renames op hop p hp item hitem hid
  unfold executeItem
  split
  · exact obeys_only (only_executeUpload hrow)
  · exact obeys_only only_executeDownload
  · exact obeys_only only_executeDeleteRemote
  · exact obeys_only only_executeDeleteLocal
  · exact obeys_only (((modest_ensureRemoteFolder fun q hq hpre => row_above hrow hq hpre).mono
      fun _ _ hc => hc.1).bind fun _ => trivial)
  · exact obeys_only ((only_ioTry _).bind fun _ => only_sql rfl)
  · exact obeys_only ((Prog.only_ofExcept _).bind fun p => (only_ioTry _).bind fun _ => only_ioTry _)
  · exact obeys_executeRenameRemote hitem hrename
  · exact obeys_executeRenameLocal hitem hrename
  · trivial

/-- **The drain loop.** -/
lemma obeys_drainOne : Obeys A anyKind env Prog.Any (drainOne env root) w := by
  refine safe_drainOne (fun β c w' hc hI => ?_) fun op item hexec hI => ?_
  · refine proper_call ?_ hI
    cases c with
    | db c => cases c <;> trivial
    | _ => trivial
  · obtain ⟨hmem, hid⟩ := ItemTable.getById_eq_some.mp hexec.row
    exact obeys_executeItem hI.1 (OpTable.nextDue_mem hexec.next).1 hmem hid

end Drain

/-! ## Runs -/

/-- What a job brings in keeps the rules: what events and the scan find, and what a batch says. Of
the initial pass it is said separately what it may find. -/
def Brings (A : Rules) (fits : World → FileId → Prop) (env : Env) (w : World) : Job → Prop
  | .event ev => EventBrings A w ev
  | .batch b => ∃ S, Typed S w.db ∧ BatchBrings A S b
  | .scan => ScanBrings A env w
  | .initial _ root => fits w root
  | _ => True

/-- The initial pass keeps the rules where it finds what fits. -/
def PassObeys (A : Rules) (fits : World → FileId → Prop) (env : Env) : Prop :=
  ∀ w fuel root, fits w root → Obeys A anyKind env Prog.Any (Initial.initial env fuel root) w

section Runs

variable {A : Rules} {fits : World → FileId → Prop} {env : Env} {w₀ w : World}

/-- A program that inserts and moves no row and queues nothing. -/
lemma obeys_settled {α : Type} {q : Task α} (hsettled : q.Only fun _ c => settled c = true)
    (hqueue : Within (fun e => ∀ op, e ≠ .enqueue op) q) : Obeys A anyKind env Prog.Any q w := by
  refine obeys_only ((hsettled.and hqueue).mono fun β c hc => ?_)
  cases c with
  | db c =>
    cases c with
    | enqueue i op payload now => exact absurd rfl (hc.2 _ rfl op)
    | insertItem new => cases hc.1
    | setRemoteId i rid => cases hc.1
    | setRelativePath i rel => cases hc.1
    | renameSubtree old new => cases hc.1
    | _ => trivial
  | _ => trivial

/-- **Every job** keeps the rules when what it brings in does. -/
lemma obeys_task (hpass : PassObeys A fits env) {j : Job} (hadmitted : Admitted A w.db)
    (h : Brings A fits env w j) :
    (j.task env).Safe (handle env) (.solo fun w => Admitted A w.db) Prog.Any w := by
  have hdrop : ∀ {S : FileId → ItemKind → Prop}, Typed S w.db →
      Obeys A S env Prog.Any (j.task env) w →
        (j.task env).Safe (handle env) (.solo fun w => Admitted A w.db) Prog.Any w :=
    fun htyped hq => (hq.of_inv (fun _ => And.left) ⟨hadmitted, htyped⟩).mono fun _ _ _ => trivial
  have hany : Typed anyKind w.db := fun _ _ _ _ => trivial
  cases j with
  | event ev => exact hdrop hany (obeys_applyLocal h)
  | batch b =>
    obtain ⟨S, htyped, hbatch⟩ := h
    exact hdrop htyped (obeys_applyBatch hbatch)
  | drain root => exact hdrop hany (Prog.Safe.bind obeys_drainOne (fun _ _ _ => trivial) fun _ _ _ => trivial)
  | poll fuel root cache =>
    exact hdrop hany (obeys_settled ((tick_settled _ _ _).bind fun _ => trivial)
      (within_tick.bind fun _ => trivial))
  | scan => exact hdrop hany (obeys_startupLocalScan h)
  | initial fuel root => exact hdrop hany (hpass w fuel root h)
  | housekeeping =>
    exact hdrop hany (obeys_only (only_unixNow.bind fun _ => only_sql rfl))
  | ensureRoot mayCreate m =>
    exact hdrop hany (obeys_settled ((ensureRemoteRoot_settled _ _).bind fun _ => trivial)
      (within_ensureRemoteRoot.bind fun _ => trivial))
  | map autoCreate confirmed localPath spec =>
    exact hdrop hany (obeys_settled (map_settled _ _ _ _) within_map)

/-- **Whole runs** keep the rules when what comes in does. -/
theorem admitted_of_runs (hpass : PassObeys A fits env) (h₀ : Admitted A w₀.db)
    (h : Runs env (fun w a => ∀ j calls, a = .job j calls → Brings A fits env w j) w₀ w) :
    Admitted A w.db :=
  h.invariant h₀ (fun _ _ calls hI hok => obeys_task hpass hI (hok _ calls rfl)) fun _ _ hI _ => hI

/-- Nothing is in the database before the first start. -/
lemma admitted_empty (A : Rules) : Admitted A Db.empty :=
  ⟨fun r hr => absurd hr (ItemTable.not_mem_empty r),
    fun o ho => absurd ho (Data.Serial.not_mem_empty o),
    fun o ho => absurd ho (Data.Serial.not_mem_empty o)⟩

end Runs

end AirDrive.Admission
