import AirDrive.System.Calls
import AirDrive.System.KindSteps

set_option relaxedAutoImplicit false
set_option autoImplicit false

/-!
# Kind safety

A directory that is replaced by a file of the same name is uploaded as the content of its folder on
Drive, and a file that is replaced by a directory leaves its row behind as the row of the
directory. In a run in which no step finds an object of the other kind at the path of a row, none
of this happens.

## Main definitions

* `AirDrive.KindSafety.Unmixed` — what a job finds has the kind of its row.
* `AirDrive.KindSafety.Lives` — the runs of such jobs, with the past of Drive.
* `AirDrive.KindSafety.step` — a step, watched.

## Main results

* `AirDrive.KindSafety.kinds_kept` — in such a run, kinds are never mixed up.
-/

namespace AirDrive.KindSafety

open Effect Dispatcher Continuous Outcomes Kinds

/-! ## The initial reconciliation -/

/-- A row is at the path. -/
def HasRow (p : RelPath) (w : World) : Prop := ∃ r ∈ w.db.items, r.relativePath = p

/-- Every path that is asked about has its row. -/
def HasRows (D : ItemId → RelPath → Prop) (w : World) : Prop := ∀ i p, D i p → HasRow p w

/-- The call drops and moves no row. -/
def lasting : {β : Type} → Call β → Bool
  | _, .db c => !c.drops
  | _, _ => true

/-- What the remote walk found: a proper path, and the id of an object of its kind. -/
def Walked (past : List Drive) (d : Drive) (e : Initial.RemoteEntry) : Prop :=
  e.relativePath ≠ [] ∧ Names past d e.id (if e.isDir then .dir else .file)

/-- The ids are those of folders; the root may be any id. -/
def Folders (past : List Drive) (d : Drive) (ids : Initial.FolderIds) : Prop :=
  ∀ p id, p ≠ [] → ids.val p = some id → Names past d id .dir

section InitialPass

variable {env : Env} {past : List Drive} {D : ItemId → RelPath → Prop} {w w' : World}
  {p : RelPath}

/-- A row stays at its path. -/
lemma HasRow.call (env : Env) {β : Type} {c : Call β} (hc : lasting c = true) (h : HasRow p w) :
    HasRow p (handle env β c w).2 := by
  obtain ⟨s, hs, rfl⟩ := h
  cases c with
  | db c =>
    have hdrop : c.drops = false := by simpa [lasting] using hc
    obtain ⟨r, hr, -, hchange⟩ := DbCall.rows_persist (c := c) hdrop hs
    refine ⟨r, hr, ?_⟩
    have heq : r = s → r.relativePath = s.relativePath := fun heq => by rw [heq]
    cases c with
    | setRemoteId id rid => rcases hchange with rfl | ⟨-, rfl⟩ <;> rfl
    | setRelativePath id rel => cases hdrop
    | renameSubtree old new => cases hdrop
    | updateFingerprint id size md5 => rcases hchange with rfl | ⟨-, rfl⟩ <;> rfl
    | setState id state => rcases hchange with rfl | ⟨-, rfl⟩ <;> rfl
    | markTrashed id at' => rcases hchange with rfl | ⟨-, rfl⟩ <;> rfl
    | clearTrashed id => rcases hchange with rfl | ⟨-, rfl⟩ <;> rfl
    | _ => exact heq hchange
  | _ => exact ⟨s, hs, rfl⟩

/-- A program of harmless calls that drop no row. -/
lemma kept_lasting {α : Type} {q : Task α}
    (hq : q.Only fun _ c => harmless c = true ∧ lasting c = true) :
    Kept env past D none (fun _ w' => ∀ p, HasRow p w → HasRow p w') q w :=
  kept_only (J := fun w' => ∀ p, HasRow p w → HasRow p w') hq (fun _ _ => And.left)
    (fun _ _ _ hc hJ p hp => (hJ p hp).call env hc.2) fun _ h => h

lemma Walked.mono {d d' : Drive} {e : Initial.RemoteEntry} (h : Walked past d e)
    (hkept : KindsKept d d') : Walked past d' e := ⟨h.1, h.2.mono hkept⟩

lemma Folders.mono {d d' : Drive} {ids : Initial.FolderIds} (h : Folders past d ids)
    (hkept : KindsKept d d') : Folders past d' ids :=
  fun p id hp hval => (h p id hp hval).mono hkept

lemma Folders.set {d : Drive} {ids : Initial.FolderIds} {id : FileId} (h : Folders past d ids)
    (hid : Names past d id .dir) : Folders past d (ids.set p id) := by
  intro q id' hq hval
  by_cases hqp : q = p
  · subst hqp
    rw [Data.FinMap.val_set_self] at hval
    exact Option.some.inj hval ▸ hid
  · rw [Data.FinMap.val_set_ne _ _ hqp] at hval
    exact h q id' hq hval

lemma folders_folderIds {d : Drive} {root : FileId} {entries : List Initial.RemoteEntry}
    (h : ∀ e ∈ entries, Walked past d e) : Folders past d (Initial.folderIds root entries) := by
  refine Initial.folderIds_induction (fun p id hp hval => ?_) fun e he hdir ids hids => ?_
  · rw [Data.FinMap.val_set_ne _ _ hp] at hval
    cases hval
  · have hnames := (h e he).2
    rw [if_pos hdir] at hnames
    exact hids.set hnames

/-- **The remote walk** finds objects of the kinds it says. -/
lemma kept_walkQueue {fuel : ℕ} {queue : List (FileId × RelPath)} {out : List Initial.RemoteEntry}
    (hout : ∀ e ∈ out, Walked past w.remote.drive e) :
    Kept env past D none (fun x w' => w'.db = w.db ∧ ∀ l, x = .ok l → ∀ e ∈ l,
      Walked past w'.remote.drive e) (Initial.walkQueue fuel queue out) w := by
  induction fuel generalizing queue out w with
  | zero =>
    cases queue with
    | nil => exact kept_pure.mpr ⟨rfl, fun l hl => Except.ok.inj hl ▸ hout⟩
    | cons q queue => exact kept_fail.mpr ⟨rfl, nofun⟩
  | succ fuel ih =>
    cases queue with
    | nil => exact kept_pure.mpr ⟨rfl, fun l hl => Except.ok.inj hl ▸ hout⟩
    | cons q queue =>
      obtain ⟨parent, path⟩ := q
      refine Kept.bind (P := fun x w' => w'.db = w.db ∧ KindsKept w.remote.drive w'.remote.drive ∧
        ∀ l, x = .ok l → ∀ c ∈ l, Names past w'.remote.drive c.id (resourceKind c))
        (kept_request (fun _ => .of_harmless rfl) fun h => ⟨rfl, kindsKept_send _ _,
          fun l hl c hc => (names_listed h.history (Remote.send_ok hl) hc).mono
            (kindsKept_send _ _)⟩)
        (fun children w₁ ⟨hdb, hkept, hlisted⟩ => ?_) fun _ _ h => ⟨h.1, nofun⟩
      refine (ih fun e he => ?_).mono fun x w₂ h => ⟨h.1.trans hdb, h.2⟩
      rcases List.mem_append.mp he with he | he
      · exact (hout e he).mono hkept
      · obtain ⟨c, hc, rfl⟩ := List.mem_map.mp he
        have hnames := hlisted children rfl c (List.mem_filter.mp hc).1
        unfold Initial.remoteEntry
        split_ifs with hfolder
        · rw [resourceKind, if_pos hfolder] at hnames
          exact ⟨by simp, hnames⟩
        · rw [resourceKind, if_neg hfolder] at hnames
          exact ⟨by simp, hnames⟩

lemma kept_walkRemote {fuel : ℕ} {root : FileId} :
    Kept env past D none (fun x w' => w'.db = w.db ∧ ∀ l, x = .ok l → ∀ e ∈ l,
      Walked past w'.remote.drive e) (Initial.walkRemote fuel root) w := by
  refine (kept_walkQueue (by simp)).bind (fun out w₁ ⟨hdb, hout⟩ => ?_) fun _ _ h => ⟨h.1, nofun⟩
  refine kept_pure.mpr ⟨hdb, fun l hl e he => ?_⟩
  rw [← Except.ok.inj hl] at he
  exact hout out rfl e ((RelPath.mem_sort _ _ _).mp he)

/-- **Recording an object**, as a file only where no directory row is asked for. -/
lemma kept_recordNew {n : NewSyncItem} {rid : FileId} (hrid : n.remoteId = some rid)
    (hnames : Names past w.remote.drive rid n.kind)
    (hD : n.kind = .file → ∀ i, D i n.relativePath → HasRow n.relativePath w) :
    Kept env past D none (fun x w' => (∀ p, HasRow p w → HasRow p w') ∧
      (x = .ok () → HasRow n.relativePath w')) (Initial.recordNew n) w := by
  refine Kept.bind (P := fun x w' => w' = w ∧
    x = .ok (w.db.items.getByRelativePath n.relativePath)) (kept_sql (fun _ => .of_harmless rfl)
      fun _ => ⟨rfl, rfl⟩) ?_ ?_
  · rintro row w₁ ⟨hw₁, hx⟩
    subst hw₁
    obtain rfl := Except.ok.inj hx
    cases hrow : w₁.db.items.getByRelativePath n.relativePath with
    | some existing =>
      obtain ⟨hmem, hpath⟩ := ItemTable.getByRelativePath_eq_some.mp hrow
      exact kept_pure.mpr ⟨fun _ h => h, fun _ => ⟨existing, hmem, hpath⟩⟩
    | none =>
      have hfine : Fine past D none (.db (.insertItem n)) w₁ := by
        refine ⟨by simp [allowed, hrid], fun rid' h => ?_, fun i hi => ?_⟩
        · exact Option.some.inj (hrid.symm.trans h) ▸ hnames
        · cases hkind : n.kind with
          | dir => rfl
          | file =>
            obtain ⟨r, hr, hpath⟩ := hD hkind i hi
            exact absurd hpath (ItemTable.getByRelativePath_eq_none.mp hrow r hr)
      refine Kept.bind (P := fun x w' => (∀ p, HasRow p w₁ → HasRow p w') ∧
        ((∃ i, x = .ok i) → HasRow n.relativePath w')) (kept_sqlTry (fun _ => hfine) fun _ =>
          ⟨fun p hp => hp.call env (c := .db (.insertItem n)) rfl, fun _ => ?_⟩)
        (fun i w₂ h => kept_pure.mpr ⟨h.1, fun _ => h.2 ⟨i, rfl⟩⟩)
        fun _ _ h => ⟨h.1, by intros; contradiction⟩
      simp only [DbCall.run, Db.insertItem, dif_pos hrow]
      exact ⟨_, (ItemTable.mem_insert (h := hrow)).mpr (.inr rfl), rfl⟩
  · rintro e w₁ ⟨rfl, -⟩
    exact ⟨fun _ h => h, by intros; contradiction⟩

/-- A proper path has a folder id of its own, or gets one. -/
lemma kept_remoteDir {root : FileId} {ids : Initial.FolderIds} {dir : RelPath}
    (hids : Folders past w.remote.drive ids) (hdir : dir ≠ []) :
    Kept env past D none (fun x w' => w'.db = w.db ∧ ∀ found, x = .ok found →
      Names past w'.remote.drive found.1 .dir ∧ Folders past w'.remote.drive found.2)
      (Initial.remoteDir root ids dir) w := by
  unfold Initial.remoteDir
  cases hval : ids.val dir with
  | some id =>
    refine kept_pure.mpr ⟨rfl, fun found hfound => ?_⟩
    obtain rfl := Except.ok.inj hfound
    exact ⟨hids dir id hdir hval, hids⟩
  | none =>
    set parent := (ids.val dir.splitParent.1).getD root with hparent
    refine Kept.bind (P := fun x w' => w'.db = w.db ∧ KindsKept w.remote.drive w'.remote.drive ∧
      ∀ rf, x = .ok rf → Names past w'.remote.drive rf.id .dir)
      (kept_request (fun _ => .of_harmless rfl) fun h => ⟨rfl, kindsKept_send _ _, fun rf hrf => ?_⟩)
      (fun created w₁ ⟨hdb, hkept, hcreated⟩ => ?_) fun _ _ h => ⟨h.1, nofun⟩
    · have hafter := h.history.mono
        (@kindsKept_send env.md5 _ (.createFolder parent dir.splitParent.2) w.remote)
      rw [Remote.send_ok_drive hrf] at hafter ⊢
      have hmade := names_created hafter rfl (Remote.send_ok hrf)
      simpa using hmade
    · refine kept_pure.mpr ⟨hdb, fun found hfound => ?_⟩
      obtain rfl := Except.ok.inj hfound
      have hid := hcreated created rfl
      exact ⟨hid, (hids.mono hkept).set hid⟩

/-- A directory gets its row. -/
lemma kept_reconcileDir {root : FileId} {ids : Initial.FolderIds} {dir : RelPath}
    (hids : Folders past w.remote.drive ids) (hdir : dir ≠ []) :
    Kept env past D none (fun x w' => (∀ p, HasRow p w → HasRow p w') ∧ ∀ ids', x = .ok ids' →
      Folders past w'.remote.drive ids' ∧ HasRow dir w') (Initial.reconcileDir root ids dir) w := by
  have hsame : ∀ {w w' : World}, w'.db = w.db → ∀ p, HasRow p w → HasRow p w' := by
    rintro w w' hdb p ⟨r, hr, hp⟩
    exact ⟨r, by rwa [hdb], hp⟩
  refine (kept_remoteDir hids hdir).bind (fun found w₁ ⟨hdb, hfound⟩ => ?_)
    fun _ _ h => ⟨hsame h.1, nofun⟩
  obtain ⟨hid, hids'⟩ := hfound found rfl
  refine ((kept_lasting (q := ioTry (.createDirAll dir))
    ⟨⟨rfl, rfl⟩, fun x => Prog.only_ofExcept x⟩).evolve).bind (fun _ w₂ ⟨hev₂, hrows₂⟩ => ?_)
    fun _ _ h => ⟨fun p hp => h.2 p (hsame hdb p hp), nofun⟩
  refine ((kept_recordNew (n := syncedDir dir found.1) rfl (hid.mono hev₂.drive)
    nofun).evolve).bind (fun _ w₃ ⟨hev₃, hrows₃, hthere⟩ => kept_pure.mpr ?_) fun _ _ h => ?_
  · refine ⟨fun p hp => hrows₃ p (hrows₂ p (hsame hdb p hp)), fun ids' hids'' => ?_⟩
    obtain rfl := Except.ok.inj hids''
    exact ⟨(hids'.mono hev₂.drive).mono hev₃.drive, hthere rfl⟩
  · exact ⟨fun p hp => h.2.1 p (hrows₂ p (hsame hdb p hp)), nofun⟩

/-- **The directories** all get their rows. -/
lemma kept_reconcileDirs {root : FileId} {ids : Initial.FolderIds} {dirs : List RelPath}
    (hids : Folders past w.remote.drive ids) (hdirs : ∀ dir ∈ dirs, dir ≠ [])
    (hD : ∀ i p, D i p → p ∈ dirs ∨ HasRow p w) :
    Kept env past D none (fun x w' => ∀ ids', x = .ok ids' →
      Folders past w'.remote.drive ids' ∧ HasRows D w')
      (.foldM dirs (Initial.reconcileDir root) ids) w := by
  induction dirs generalizing ids w with
  | nil =>
    refine kept_pure.mpr fun ids' hids' => ?_
    obtain rfl := Except.ok.inj hids'
    exact ⟨hids, fun i p hp => (hD i p hp).resolve_left (by simp)⟩
  | cons dir dirs ih =>
    refine (kept_reconcileDir hids (hdirs dir (by simp))).bind (fun ids' w₁ ⟨hrows, hmade⟩ => ?_)
      fun _ _ _ => nofun
    obtain ⟨hids', hthere⟩ := hmade ids' rfl
    refine ih hids' (fun d hd => hdirs d (by simp [hd])) fun i p hp => ?_
    rcases hD i p hp with hmem | hrow
    · rcases List.mem_cons.mp hmem with rfl | hmem
      · exact .inr hthere
      · exact .inl hmem
    · exact .inr (hrows p hrow)

/-- **Recording a file** keeps the rows that are asked for. -/
lemma kept_recordSyncedItem {rel : RelPath} {id : FileId} {size : ℕ} {md5 : String}
    (hnames : Names past w.remote.drive id .file) (hrows : HasRows D w) :
    Kept env past D none (fun _ w' => HasRows D w')
      (Initial.recordSyncedItem rel id size md5) w :=
  (kept_recordNew rfl hnames fun _ i hi => hrows i rel hi).mono fun _ _ h i p hp =>
    h.1 p (hrows i p hp)

lemma kept_rows {α : Type} {q : Task α}
    (hq : q.Only fun _ c => harmless c = true ∧ lasting c = true) (hrows : HasRows D w) :
    Kept env past D none (fun _ w' => HasRows D w') q w :=
  (kept_lasting hq).mono fun _ _ h i p hp => h p (hrows i p hp)

/-- A pointer file and its row. -/
lemma kept_writeShortcut {e : Initial.RemoteEntry} (hrows : HasRows D w)
    (he : Walked past w.remote.drive e) (hfile : e.isDir = false) :
    Kept env past D none (fun _ w' => HasRows D w') (Initial.writeShortcut e) w := by
  have hnames : Names past w.remote.drive e.id .file := by
    have h := he.2
    rwa [if_neg (by simp [hfile])] at h
  unfold Initial.writeShortcut
  split
  · exact kept_pure.mpr hrows
  · split
    · set rel := Shortcut.relativePath e.relativePath e.mimeType with hrel
      refine Kept.bind (P := fun x w' => w' = w ∧ x = .ok (w.db.items.getByRelativePath rel))
        (kept_sql (fun _ => .of_harmless rfl) fun _ => ⟨rfl, rfl⟩) (fun row w₁ ⟨hw₁, hx⟩ => ?_)
        (by rintro e w₁ ⟨rfl, -⟩; exact hrows)
      subst hw₁
      obtain rfl := Except.ok.inj hx
      cases hrow : w₁.db.items.getByRelativePath rel with
      | some existing => exact kept_pure.mpr hrows
      | none =>
        have hfree : ∀ i, ¬D i rel := fun i hi => by
          obtain ⟨r, hr, hpath⟩ := hrows i rel hi
          exact ItemTable.getByRelativePath_eq_none.mp hrow r hr hpath
        have hwrite : (Shortcut.write rel (Shortcut.content e.mimeType e.id)).Only
            fun _ c => harmless c = true ∧ lasting c = true :=
          Prog.Only.bind ⟨⟨rfl, rfl⟩, fun x => Prog.only_ofExcept x⟩ fun _ =>
            ⟨⟨rfl, rfl⟩, fun x => Prog.only_ofExcept x⟩
        refine ((kept_rows hwrite hrows).evolve).bind (fun _ w₂ ⟨hev₂, hrows₂⟩ => ?_)
          fun _ _ h => h.2
        refine Kept.bind (P := fun _ w' => HasRows D w') (kept_sqlTry (fun _ => ⟨rfl,
          fun rid hrid => ?_, fun i hi => absurd hi (hfree i)⟩) fun _ i p hp => ?_)
          (fun _ _ h => kept_pure.mpr h) fun _ _ h => h
        · exact Option.some.inj hrid ▸ hnames.mono hev₂.drive
        · exact (hrows₂ i p hp).call env (c := .db (.insertItem (pointer rel e.id))) rfl
    · exact kept_pure.mpr hrows

/-- A file entry of a walk names a file. -/
lemma Walked.file {d : Drive} {e : Initial.RemoteEntry} (h : Walked past d e)
    (hfile : e.isDir = false) : Names past d e.id .file := by
  have hnames := h.2
  rwa [if_neg (by simp [hfile])] at hnames

lemma kept_recordEqual {remotes : List Initial.RemoteEntry} {e : Fs.LocalEntry}
    (hrows : HasRows D w) (hremotes : ∀ r ∈ remotes, Names past w.remote.drive r.id .file) :
    Kept env past D none (fun _ w' => HasRows D w') (Initial.recordEqual env remotes e) w := by
  have hcompute : (computeLocal env e.relativePath).Only
      fun _ c => harmless c = true ∧ lasting c = true :=
    Prog.Only.bind ⟨⟨rfl, rfl⟩, fun x => Prog.only_ofExcept x⟩ fun _ => trivial
  unfold Initial.recordEqual
  split
  · exact kept_pure.mpr hrows
  · next remote hremote =>
    split
    · exact kept_pure.mpr hrows
    · refine ((kept_rows hcompute hrows).evolve).bind (fun ⟨size, md5⟩ w₁ ⟨hev₁, hrows₁⟩ => ?_)
        fun _ _ h => h.2
      simp only
      split
      · exact kept_recordSyncedItem
          ((hremotes remote (Initial.mem_of_remoteByPath hremote)).mono hev₁.drive) hrows₁
      · exact kept_pure.mpr hrows₁

lemma planUpload_only {root : FileId} {ids : Initial.FolderIds}
    {remotes : List Initial.RemoteEntry} {ups : List Engine.BulkUpload} {e : Fs.LocalEntry} :
    (Initial.planUpload env root ids remotes ups e).Only
      fun _ c => harmless c = true ∧ lasting c = true := by
  unfold Initial.planUpload
  split
  · trivial
  · split
    · trivial
    · refine Prog.Only.bind ⟨⟨rfl, rfl⟩, fun _ => trivial⟩ fun existing => ?_
      split <;> trivial

lemma kept_bulkUpload {ups : List Engine.BulkUpload} (hrows : HasRows D w) :
    Kept env past D none (fun _ w' => HasRows D w') (Engine.bulkUpload ups) w := by
  refine kept_forEach (HasRows D) hrows (fun up _ w₁ hrows₁ => ?_) fun _ h => h
  refine Kept.bind (P := fun _ w' => HasRows D w') ?_ (fun _ _ h => kept_pure.mpr h)
    fun _ _ h => h
  refine Kept.bind (P := fun _ w' => HasRows D w') (kept_rows (q := ioTry (.readFile up.relPath))
    ⟨⟨rfl, rfl⟩, fun x => Prog.only_ofExcept x⟩ hrows₁) (fun content w₂ hrows₂ => ?_) fun _ _ h => h
  exact kept_request (fun _ => ⟨by simp [allowed], trivial, trivial⟩) fun _ => hrows₂

/-- An upload that the second walk saw. -/
lemma kept_recordSeen {after : List Initial.RemoteEntry} {pending : List Engine.BulkUpload}
    {up : Engine.BulkUpload} (hrows : HasRows D w)
    (hafter : ∀ e ∈ after, Walked past w.remote.drive e) :
    Kept env past D none (fun _ w' => HasRows D w') (Initial.recordSeen after pending up) w := by
  unfold Initial.recordSeen
  split
  · next r md5 hseen =>
    obtain ⟨r', hr', hmd5⟩ := Option.bind_eq_some_iff.mp hseen
    obtain ⟨md5', -, hpair⟩ := Option.map_eq_some_iff.mp hmd5
    obtain ⟨rfl, rfl⟩ := Prod.mk.inj hpair
    obtain ⟨hmem, hfile⟩ := List.mem_filter.mp (Initial.mem_of_remoteByPath hr')
    have hnames := (hafter r' hmem).file (by simpa using hfile)
    exact (kept_recordSyncedItem hnames hrows).bind (fun _ _ h => kept_pure.mpr h) fun _ _ h => h
  · exact kept_pure.mpr hrows

/-- An upload that is looked up in its folder. -/
lemma kept_recordLookedUp {still : List Engine.BulkUpload} {up : Engine.BulkUpload}
    (hrows : HasRows D w) :
    Kept env past D none (fun _ w' => HasRows D w') (Initial.recordLookedUp still up) w := by
  have hlookup : Kept env past D none (fun x w' => HasRows D w' ∧ ∀ id size md5,
      x = .ok (some (id, size, md5)) → Names past w'.remote.drive id .file)
      (Initial.lookupUploaded up.remoteParentId up.name) w := by
    refine Kept.bind (P := fun x w' => HasRows D w' ∧ ∀ l, x = .ok (.ok l) → ∀ c ∈ l,
      Names past w'.remote.drive c.id (resourceKind c)) (kept_attempt (kept_request
        (fun _ => .of_harmless rfl) fun h => ⟨hrows, fun l hl c hc => ?_⟩))
      ?_ fun _ _ h => ⟨h.1, by intros; contradiction⟩
    · exact (names_listed h.history (Remote.send_ok (Except.ok.inj hl)) hc).mono
        (kindsKept_send _ _)
    · rintro res w₁ ⟨hrows₁, hlisted⟩
      cases res with
      | error e => exact kept_pure.mpr ⟨hrows₁, by simp⟩
      | ok children =>
        refine kept_pure.mpr ⟨hrows₁, fun id size md5 hx => ?_⟩
        obtain ⟨c, hc, hmap⟩ := Option.bind_eq_some_iff.mp (Except.ok.inj hx)
        obtain ⟨m, -, hpair⟩ := Option.map_eq_some_iff.mp hmap
        obtain ⟨rfl, -⟩ := Prod.mk.inj hpair
        have hnames := hlisted children rfl c (List.mem_of_find?_eq_some hc)
        have hfile := List.find?_some hc
        simp only [Bool.and_eq_true, Bool.not_eq_true'] at hfile
        rwa [resourceKind, if_neg (by simp [hfile.1])] at hnames
  refine hlookup.bind ?_ fun _ _ h => h.1
  rintro found w₁ ⟨hrows₁, hnames⟩
  cases found with
  | none => exact kept_pure.mpr hrows₁
  | some found =>
    obtain ⟨id, size, md5⟩ := found
    exact (kept_recordSyncedItem (hnames id size md5 rfl) hrows₁).bind
      (fun _ _ h => kept_pure.mpr h) fun _ _ h => h

lemma kept_retryLookups {n : ℕ} {pending : List Engine.BulkUpload} (hrows : HasRows D w) :
    Kept env past D none (fun _ w' => HasRows D w') (Initial.retryLookups n pending) w := by
  induction n generalizing pending w with
  | zero => cases pending <;> exact kept_pure.mpr hrows
  | succ n ih =>
    cases pending with
    | nil => exact kept_pure.mpr hrows
    | cons up pending =>
      refine (kept_foldM (fun _ => HasRows D) hrows (fun _ _ _ _ h => ?_)
        (Q := fun _ w' => HasRows D w') fun _ _ h => h).bind (fun still w₁ h => ih h)
          fun _ _ h => h
      exact (kept_recordLookedUp h).mono fun x _ hx => by cases x <;> exact hx

lemma kept_recordUploads {fuel : ℕ} {root : FileId} {uploads : List Engine.BulkUpload}
    (hrows : HasRows D w) :
    Kept env past D none (fun _ w' => HasRows D w') (Initial.recordUploads fuel root uploads) w := by
  have hsame : ∀ {w'}, w'.db = w.db → HasRows D w' := fun hdb i p hp => by
    obtain ⟨r, hr, hpath⟩ := hrows i p hp
    exact ⟨r, by rwa [hdb], hpath⟩
  unfold Initial.recordUploads
  split
  · exact kept_pure.mpr hrows
  · refine kept_walkRemote.bind (fun after w₁ ⟨hdb, hafter⟩ => ?_) fun _ _ h => hsame h.1
    refine (kept_foldM (fun _ w' => HasRows D w' ∧ KindsKept w₁.remote.drive w'.remote.drive)
      ⟨hsame hdb, .refl _⟩ (fun up _ pending w₂ ⟨hrows₂, hkept⟩ => ?_)
      (Q := fun _ w' => HasRows D w') fun _ _ h => h.1).bind (fun pending w₂ h => kept_retryLookups h) fun _ _ h => h
    refine ((kept_recordSeen hrows₂ fun e he => (hafter after rfl e he).mono hkept).evolve).mono
      fun x w₃ ⟨hev, h⟩ => ?_
    cases x with
    | ok b => exact ⟨h, hkept.trans hev.drive⟩
    | error e => exact h

/-- **The initial reconciliation.** -/
lemma kept_initial {fuel : ℕ} {root : FileId} :
    Kept env past (Tracks env w (.initial fuel root)) none Prog.Any
      (Initial.initial env fuel root) w := by
  set D := Tracks env w (.initial fuel root) with hD
  refine Kept.bind (P := fun x w' => x = .ok (w.fs.walk []) ∧ w' = w) (kept_io
    (fun _ => .of_harmless rfl) fun _ => ⟨rfl, rfl⟩) ?_
    fun _ _ _ => trivial
  rintro locals w₁ ⟨hx, hw₁⟩
  subst hw₁
  obtain rfl := Except.ok.inj hx
  refine kept_walkRemote.bind ?_ fun _ _ _ => trivial
  rintro remotes w₂ ⟨_, hwalked⟩
  replace hwalked := hwalked remotes rfl
  have hfiles : ∀ e ∈ remotes.filter fun e => !e.isDir, Walked past w₂.remote.drive e ∧
      e.isDir = false := fun e he => by
    obtain ⟨hmem, hfile⟩ := List.mem_filter.mp he
    exact ⟨hwalked e hmem, by simpa using hfile⟩
  have hdirs : ∀ dir ∈ Initial.dirPaths (w₁.fs.walk []) remotes, dir ≠ [] := by
    intro dir hdir
    simp only [Initial.dirPaths, RelPath.mem_sort, List.mem_dedup, List.mem_append,
      List.mem_map, List.mem_filter] at hdir
    rcases hdir with ⟨e, ⟨he, -⟩, rfl⟩ | ⟨e, ⟨he, -⟩, rfl⟩
    · obtain ⟨n, -, -, hbelow, -⟩ := Fs.mem_walk.mp he
      obtain ⟨x, rest, hpath⟩ := RelPath.below_iff.mp hbelow
      simp [hpath]
    · exact (hwalked e he).1
  have hall : ∀ i p, D i p → p ∈ Initial.dirPaths (w₁.fs.walk []) remotes ∨ HasRow p w₂ := by
    rintro i p ⟨e, he, hdir, rfl⟩
    refine .inl ?_
    simp only [Initial.dirPaths, RelPath.mem_sort, List.mem_dedup, List.mem_append,
      List.mem_map, List.mem_filter]
    exact .inl ⟨e, ⟨he, hdir⟩, rfl⟩
  refine ((kept_reconcileDirs (folders_folderIds hwalked) hdirs hall).evolve).bind
    ?_ fun _ _ _ => trivial
  rintro ids w₃ ⟨hev₃, h₃⟩
  obtain ⟨-, hrows₃⟩ := h₃ ids rfl
  -- from here on every local directory has its row, and no path of one is free
  have hnames : ∀ {w' : World}, KindsKept w₂.remote.drive w'.remote.drive →
      ∀ r ∈ remotes.filter fun e => !e.isDir, Names past w'.remote.drive r.id .file :=
    fun hkept r hr => ((hfiles r hr).1.file (hfiles r hr).2).mono hkept
  refine (kept_forEach (fun w' => HasRows D w' ∧ KindsKept w₂.remote.drive w'.remote.drive)
    ⟨hrows₃, hev₃.drive⟩ ?_
    (Q := fun _ w' => HasRows D w' ∧ KindsKept w₂.remote.drive w'.remote.drive) fun _ h => h).bind
    ?_ fun _ _ _ => trivial
  · rintro e he w₄ ⟨hrows₄, hkept⟩
    refine ((kept_writeShortcut hrows₄ ((hfiles e he).1.mono hkept) (hfiles e he).2).evolve).mono
      ?_
    rintro x w₅ ⟨hev, h⟩
    cases x <;> exact ⟨h, hkept.trans hev.drive⟩
  rintro _ w₄ ⟨hrows₄, hkept₄⟩
  refine ((kept_rows (Prog.Only.foldM fun _ _ _ => planUpload_only) hrows₄).evolve).bind
    ?_ fun _ _ _ => trivial
  rintro uploads w₅ ⟨hev₅, hrows₅⟩
  have hkept₅ := hkept₄.trans hev₅.drive
  refine (kept_forEach (fun w' => HasRows D w' ∧ KindsKept w₂.remote.drive w'.remote.drive)
    ⟨hrows₅, hkept₅⟩ ?_
    (Q := fun _ w' => HasRows D w' ∧ KindsKept w₂.remote.drive w'.remote.drive) fun _ h => h).bind
    ?_ fun _ _ _ => trivial
  · rintro e _ w₆ ⟨hrows₆, hkept⟩
    refine ((kept_recordEqual hrows₆ (hnames hkept)).evolve).mono ?_
    rintro x w₇ ⟨hev, h⟩
    cases x <;> exact ⟨h, hkept.trans hev.drive⟩
  rintro _ w₆ ⟨hrows₆, hkept₆⟩
  have hdownload : ∀ items : List Engine.BulkDownload, (Engine.bulkDownload items).Only
      fun _ c => harmless c = true ∧ lasting c = true := fun items => Prog.Only.forEach fun item _ =>
    Prog.Only.bind ⟨⟨rfl, rfl⟩, fun x => Prog.only_ofExcept x⟩ fun body =>
      Prog.Only.bind ⟨⟨rfl, rfl⟩, fun x => Prog.only_ofExcept x⟩ fun _ =>
        ⟨⟨rfl, rfl⟩, fun x => Prog.only_ofExcept x⟩
  refine ((kept_rows (hdownload _) hrows₆).evolve).bind ?_
    fun _ _ _ => trivial
  rintro _ w₇ ⟨hev₇, hrows₇⟩
  refine ((kept_bulkUpload hrows₇).evolve).bind ?_ fun _ _ _ => trivial
  rintro _ w₈ ⟨hev₈, hrows₈⟩
  have hkept₈ := (hkept₆.trans hev₇.drive).trans hev₈.drive
  refine (kept_forEach (fun w' => HasRows D w' ∧ KindsKept w₂.remote.drive w'.remote.drive)
    ⟨hrows₈, hkept₈⟩ ?_ (Q := fun _ w' => HasRows D w')
    fun _ h => h.1).bind (fun _ w₉ hrows₉ => ?_) fun _ _ _ => trivial
  · rintro d hd w₉ ⟨hrows₉, hkept⟩
    obtain ⟨r, hr, hplan⟩ := List.mem_filterMap.mp hd
    have hentry : d.1 = r := by
      split_ifs at hplan
      obtain ⟨md5, -, rfl⟩ := Option.map_eq_some_iff.mp hplan
      rfl
    refine ((kept_recordSyncedItem (hnames hkept d.1 (hentry ▸ hr)) hrows₉).evolve).mono
      ?_
    rintro x w₁₀ ⟨hev, h⟩
    cases x with
    | ok u => exact ⟨h, hkept.trans hev.drive⟩
    | error e => exact h
  refine (kept_recordUploads hrows₉).bind (fun _ w₁₀ _ => ?_) fun _ _ _ => trivial
  exact kept_harmless (Prog.Only.bind ⟨rfl, fun x => Prog.only_ofExcept x⟩ fun token =>
    ⟨rfl, fun _ => trivial⟩)

end InitialPass

/-! ## The other jobs -/

section Others

variable {env : Env} {past : List Drive} {D : ItemId → RelPath → Prop} {w : World}

/-- Programs that work in the background are settled. -/
lemma settled_of_background {α : Type} {p : Task α}
    (h : p.Only fun _ c => Calls.background c = true) : p.Only fun _ c => settled c = true := by
  refine h.mono fun β c hc => ?_
  cases c with
  | db c => cases c <;> first | rfl | cases hc
  | drive c => cases c <;> first | rfl | cases hc
  | _ => cases hc

lemma tick_settled (fuel : ℕ) (root : FileId) (cache : PathCache) :
    (Poller.tick fuel root cache).Only fun _ c => settled c = true :=
  settled_of_background Calls.background_tick

lemma map_settled (autoCreate confirmed : Bool) (localPath : String) (spec : RemoteSpec) :
    (Map.map autoCreate confirmed localPath spec).Only fun _ c => settled c = true :=
  settled_of_background Calls.background_map

lemma ensureRemoteRoot_settled (mayCreate : Bool) (m : FolderMapping) :
    (Start.ensureRemoteRoot mayCreate m).Only fun _ c => settled c = true :=
  settled_of_background Calls.background_ensureRemoteRoot

end Others

/-! ## Runs -/

/-- What Drive and the poller may hand to a job: batches describe objects that were on Drive. -/
def Possible (past : List Drive) (_ : World) : Job → Prop
  | .batch b => ∀ c ∈ b.changes, Genuine past c
  | _ => True

/-- No object of the other kind is where a job looks for the object of a row: a local directory
that it comes across is not at the path of a file row, and the operation that it executes finds
nothing of the other kind. -/
structure Unmixed (env : Env) (past : List Drive) (w : World) (j : Job) : Prop where
  /-- The job can be handed out. -/
  possible : Possible past w j
  /-- No file row is in the place of a directory. -/
  tracks : ∀ r ∈ w.db.items, Tracks env w j r.id r.relativePath → r.kind = .dir
  /-- The operation finds nothing of the other kind. -/
  spares : ∀ root, j = .drain root → ∀ op item, Executes w op item → Spares w op item

/-- A step, watched: the state after it, and whether all of its calls were allowed. -/
def step (env : Env) (j : Job) (calls : ℕ) (w : World) : Watched World :=
  (j.task env).cut (judge env (source w j)) calls ⟨w, true, true⟩

/-- The runs from `w₀` of jobs that meet a condition and of changes from outside, with the states
of Drive so far. -/
inductive Lives (env : Env) (meets : List Drive → World → Job → Prop) (w₀ : World) :
    List Drive → World → Prop
  | start : Lives env meets w₀ [w₀.remote.drive] w₀
  | job {past : List Drive} {w : World} {j : Job} (run : Lives env meets w₀ past w)
      (met : meets past w j) (calls : ℕ) :
      Lives env meets w₀ (((Action.job j calls).perform env w).remote.drive :: past)
        ((Action.job j calls).perform env w)
  | outside {past : List Drive} {w : World} (run : Lives env meets w₀ past w) (w' : World)
      (kept : KindsKept w.remote.drive w'.remote.drive) :
      Lives env meets w₀ (w'.remote.drive :: past) ((Action.outside w').perform env w)

section Runs

variable {env : Env} {past : List Drive} {D : ItemId → RelPath → Prop} {w₀ w : World} {j : Job}

/-- Watching a step does not change it. -/
lemma state_step (env : Env) (j : Job) (calls : ℕ) (w : World) :
    (step env j calls w).state = (Action.job j calls).perform env w :=
  Prog.cut_refines Watched.state (fun _ _ _ => rfl) (fun _ _ _ => rfl) _ _ _

/-- **Every job** that finds nothing of the other kind keeps kinds apart. -/
lemma kept_task (h : Unmixed env past w j) :
    Kept env past (Tracks env w j) (source w j) Prog.Any (j.task env) w := by
  have hvoid : ∀ {α : Type} {q : Task α}, (q.Only fun _ c => settled c = true) →
      (void q).Only fun _ c => harmless c = true := fun hq => only_harmless (hq.bind fun _ => trivial)
  cases j with
  | event ev => exact kept_applyLocal
  | batch b => exact kept_applyBatch h.possible
  | drain root =>
    exact (kept_drainOne (h.spares root rfl)).bind (fun _ _ _ => kept_pure.mpr trivial)
      fun _ _ _ => trivial
  | poll fuel root cache => exact kept_harmless (hvoid (tick_settled _ _ _))
  | scan => exact kept_startupLocalScan
  | initial fuel root => exact kept_initial
  | housekeeping =>
    exact kept_harmless (Prog.Only.bind ⟨rfl, fun _ => trivial⟩ fun _ => ⟨rfl, fun _ => trivial⟩)
  | ensureRoot mayCreate m => exact kept_harmless (hvoid (ensureRemoteRoot_settled _ _))
  | map autoCreate confirmed localPath spec => exact kept_harmless (only_harmless (map_settled _ _ _ _))

/-- A step of such a job keeps the invariant and makes only allowed calls. -/
lemma inv_step (hgood : Good past Nothing w) (h : Unmixed env past w j) (calls : ℕ) :
    Inv past (Tracks env w j) (step env j calls w) := by
  have hstart : Inv past (Tracks env w j) ⟨w, true, true⟩ :=
    ⟨⟨hgood.history, hgood.bound, hgood.downloads, h.tracks⟩, rfl⟩
  exact (kept_task h _ rfl).cut hstart calls

/-- The last state of Drive joins the past. -/
lemma good_cons (h : Good past D w) : Good (w.remote.drive :: past) Nothing w :=
  ⟨h.history.cons, fun r hr rid hrid => (h.bound r hr rid hrid).cons,
    fun o ho hop dl hdl => ⟨(h.downloads o ho hop dl hdl).1.cons, (h.downloads o ho hop dl hdl).2⟩,
    fun _ _ h => h.elim⟩

/-- **The invariant holds in every state reached.** -/
lemma good_of_lives (hempty : w₀.db = Db.empty) (h : Lives env (Unmixed env) w₀ past w) :
    Good past Nothing w := by
  induction h with
  | start =>
    refine ⟨consistent_self _, fun r hr => ?_, fun o ho => ?_, fun _ _ h => h.elim⟩
    · rw [hempty] at hr
      exact absurd hr (ItemTable.not_mem_empty r)
    · rw [hempty] at ho
      exact absurd ho (Data.Serial.not_mem_empty o)
  | @job past w j _ met calls ih =>
    have hgood := (inv_step ih met calls).1
    rw [state_step] at hgood
    exact good_cons hgood
  | @outside past w _ w' kept ih =>
    have hgood : Good past Nothing ((Action.outside w').perform env w) :=
      ⟨ih.history.mono kept, fun r hr rid hrid => (ih.bound r hr rid hrid).mono kept,
        fun o ho hop dl hdl => ⟨(ih.downloads o ho hop dl hdl).1.mono kept,
          (ih.downloads o ho hop dl hdl).2⟩, fun _ _ h => h.elim⟩
    exact good_cons hgood

/-- What kind safety asks of the runs from the first start on: in every state reached, a row is of
the kind of the object on Drive that it is bound to; and every job that may follow, stopped
anywhere, sends no content to the id of a folder or from a directory row, records each local object
with its kind, moves no directory for a file row, and leaves no file row in the place of a directory
that it comes across. -/
def KindSafe (env : Env) (meets : List Drive → World → Job → Prop) : Prop :=
  ∀ {w₀ w : World} {past : List Drive}, w₀.db = Db.empty → Lives env meets w₀ past w →
    (∀ r ∈ w.db.items, ∀ f ∈ w.remote.drive.files, r.remoteId = some (.id f.num) →
      r.kind = kindOf f) ∧
    ∀ j calls, meets past w j → (step env j calls w).kept = true ∧
      ∀ r ∈ ((Action.job j calls).perform env w).db.items,
        Tracks env w j r.id r.relativePath → r.kind = .dir

/-- **Kind safety** holds of the runs in which no job finds an object of the other kind in the
place of a row's object. -/
theorem kinds_kept (env : Env) : KindSafe env (Unmixed env) := by
  intro w₀ w past hempty h
  have hgood := good_of_lives hempty h
  refine ⟨fun r hr f hf hrid => ?_, fun j calls hj => ?_⟩
  · obtain ⟨n, hn, -, -, hnow⟩ := hgood.bound r hr _ hrid
    exact (hnow f hf (FileId.id.inj hn)).symm
  · obtain ⟨hafter, hkept⟩ := inv_step hgood hj calls
    rw [state_step] at hafter
    exact ⟨hkept, hafter.dirs⟩

/-- The batch that brings `d` and `d/a.txt`. -/
def arrival : Job :=
  .batch ⟨[⟨.id 3, false, some ⟨.id 3, "d", folderMime, none, none, [.id 2], false⟩, some ["d"]⟩,
    ⟨.id 4, false, some ⟨.id 4, "a.txt", "text/plain", some 1, some "A", [.id 3], false⟩,
      some ["d", "a.txt"]⟩], 2⟩

/-- The user writes `B` to `d/a.txt`, and the event is handled. -/
def editedFile : World :=
  performAll .plain [.outside (byUser (.writeFile ["d", "a.txt"] [66]) sampleArrived),
    .job (.event (.modified ["d", "a.txt"])) 100] sampleArrived

lemma possible_arrival (w : World) : Possible [sampleNested] w arrival := by
  intro c hc file hfile
  rcases List.mem_cons.mp hc with rfl | hc
  · obtain rfl := Option.some.inj hfile
    exact ⟨3, rfl, rfl, sampleNested, List.mem_singleton_self _,
      ⟨3, "d", folderMime, none, [2], false, true, true⟩,
      by simp [Data.Serial.mem_def, sampleNested], rfl, rfl⟩
  · obtain rfl := List.mem_singleton.mp hc
    obtain rfl := Option.some.inj hfile
    exact ⟨4, rfl, rfl, sampleNested, List.mem_singleton_self _,
      ⟨4, "a.txt", "text/plain", some [65], [3], false, true, true⟩,
      by simp [Data.Serial.mem_def, sampleNested], rfl, rfl⟩

/-- The folder and the file arrive, in every run in which jobs may bring them. -/
lemma lives_arrived {meets : List Drive → World → Job → Prop}
    (hbatch : meets [sampleNested] (World.fresh sampleNested) arrival)
    (hdrain : ∀ past w op, OpTable.nextDue w.db.ops w.now = some op →
      op.op = .createDirLocal ∨ op.op = .download → meets past w (.drain (.id 2))) :
    ∃ past, Lives .plain meets (World.fresh sampleNested) past sampleArrived := by
  have hstart : Lives .plain meets (World.fresh sampleNested) [sampleNested] _ := .start
  have hbrought := hstart.job hbatch 100
  have hdir := hbrought.job (hdrain _ _ _ rfl (.inl rfl)) 100
  exact ⟨_, hdir.job (hdrain _ _ _ rfl (.inr rfl)) 100⟩

/-- What the user edits in the local tree is a change from outside. -/
lemma lives_edited {meets : List Drive → World → Job → Prop} {fs : Fs} {p : RelPath}
    (h : Lives env meets w₀ past w)
    (hevent : ∀ w' past', w'.db = w.db → w'.fs = fs → meets past' w' (.event (.modified p))) :
    ∃ past', Lives env meets w₀ past'
      (performAll env [.outside { w with fs }, .job (.event (.modified p)) 100] w) :=
  ⟨_, (h.outside { w with fs } (.refl _)).job (hevent _ _ rfl rfl) 100⟩

/-- An edited file is uploaded to its own object. -/
theorem edited_file_kept_apart : (step .plain (.drain (.id 2)) 100 editedFile).kept = true := by
  obtain ⟨past, harrived⟩ := @lives_arrived (Unmixed .plain)
    ⟨possible_arrival _, fun _ _ => False.elim, by intros; contradiction⟩
    fun past w op hnext hop => ⟨trivial, fun _ _ => False.elim, fun root _ op' item hexec => by
      obtain rfl := Option.some.inj (hnext.symm.trans hexec.next)
      rcases hop with hop | hop <;> simp [Spares, hop]⟩
  obtain ⟨past, hedited⟩ := @lives_edited .plain _ _ _ _
    (byUser (.writeFile ["d", "a.txt"] [66]) sampleArrived).fs ["d", "a.txt"] harrived
    fun w' past' _ hfs => ⟨trivial, fun r _ h => by
      have hdir := h.1
      rw [hfs] at hdir
      exact absurd hdir (by decide +kernel), by intros; contradiction⟩
  refine ((kinds_kept .plain rfl hedited).2 (.drain (.id 2)) 100
    ⟨trivial, fun _ _ => False.elim, ?_⟩).1
  intro root _ op item hexec
  obtain rfl : _ = op := Option.some.inj ((rfl : OpTable.nextDue editedFile.db.ops editedFile.now =
    some ⟨3, 2, .upload, none, 0, 0⟩).symm.trans hexec.next)
  obtain rfl : _ = item := Option.some.inj
    ((rfl : editedFile.db.items.getById 2 = some _).symm.trans hexec.row)
  exact fun _ => ⟨rfl, by intros; contradiction⟩

/-- A directory that the user replaces by a file of the same name is uploaded as the content of its
folder. -/
theorem replaced_dir_uploaded_onto_folder : ¬KindSafe .plain Possible := by
  intro h
  obtain ⟨past, harrived⟩ := @lives_arrived Possible (possible_arrival _) fun _ _ _ _ _ => trivial
  obtain ⟨past, hreplaced⟩ := @lives_edited .plain _ _ _ _
    (byUser (.writeFile ["d"] [66]) (byUser (.removeDirAll ["d"]) sampleArrived)).fs ["d"] harrived
    fun _ _ _ _ => trivial
  have hkept := ((h rfl hreplaced).2 (.drain (.id 2)) 100 trivial).1
  revert hkept
  decide +kernel

end Runs

end AirDrive.KindSafety
