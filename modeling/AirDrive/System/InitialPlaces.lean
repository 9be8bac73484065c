import AirDrive.System.Binding

set_option relaxedAutoImplicit false
set_option autoImplicit false

/-!
# Where the initial pass records objects

The initial pass knows the objects on Drive by paths: those of its walk, and those of the folders
that it makes. Each row that it inserts is bound to an object that lies at the path of the row, or
at the path that its pointer is for; and it is at the path of a local entry, or of an object that
was there when the pass began.

## Main definitions

* `AirDrive.InitialPlaces.Lies`, `AirDrive.InitialPlaces.ownPath` — where an object lies, and where
  its row belongs.
* `AirDrive.InitialPlaces.Describes`, `AirDrive.InitialPlaces.Leads`,
  `AirDrive.InitialPlaces.Aimed` — what the pass knows of Drive.
* `AirDrive.InitialPlaces.Keeps` — an invariant that rows at their own paths keep.

## Main results

* `AirDrive.InitialPlaces.safe_walkRemote` — the walk of the remote tree.
* `AirDrive.InitialPlaces.safe_reconcileDirs` — the ids of the folders.
* `AirDrive.InitialPlaces.safe_initial` — the pass keeps such an invariant.
-/

namespace AirDrive.InitialPlaces

open Effect Dispatcher Initial

/-! ## Places -/

/-- The object lies at a path below the mapped folder. -/
structure Lies (d : Drive) (root : FileId) (p : RelPath) (f : DriveFile) : Prop where
  /-- The mapped folder itself is no such object. -/
  below : p ≠ []
  /-- It is live and lies there. -/
  object : ObjectAt d root p f

/-- The path of the row of an object: that of its pointer file, for a native document. -/
def ownPath (p : RelPath) (f : DriveFile) : RelPath :=
  if f.content = none ∧ Shortcut.isNative f.mimeType = true then
    Shortcut.relativePath p f.mimeType
  else p

section Places

variable {d d' : Drive} {root : FileId} {p : RelPath} {f : DriveFile} {n : ℕ}

lemma Lies.mono (h : Lies d root p f) (hext : d.Extends d') : Lies d' root p f :=
  ⟨h.below, hext.objectAt h.object⟩

/-- An object in a folder of the tree. -/
lemma lies_child {above : RelPath} (h : FolderAt d root above n) (hf : f ∈ d.files)
    (hparent : n ∈ f.parents) (hlive : f.trashed = false) : Lies d root (above ++ [f.name]) f :=
  ⟨by simp, hf, ⟨n, by simpa using h, hparent⟩, by simp, hlive⟩

/-- A folder that lies at a path. -/
lemma lies_of_folderAt (h : FolderAt d root p n) (hp : p ≠ []) :
    ∃ f, Lies d root p f ∧ f.num = n ∧ f.mimeType = folderMime := by
  cases h with
  | root => exact absurd rfl hp
  | child above mem parent live folder => exact ⟨_, lies_child above mem parent live, rfl, folder⟩

lemma dropLast_append_getLastD (hp : p ≠ []) : p.dropLast ++ [p.getLastD ""] = p := by
  have hlast : p.getLastD "" = p.getLast hp := by
    rw [List.getLastD_eq_getLast?, List.getLast?_eq_some_getLast hp]
    rfl
  rw [hlast, List.dropLast_append_getLast]

lemma Lies.folderAt (h : Lies d root p f) (hmime : f.mimeType = folderMime) :
    FolderAt d root p f.num := by
  obtain ⟨n, hn, hparent⟩ := h.object.folder
  have hchild := hn.child h.object.mem hparent h.object.live hmime
  rwa [h.object.name, dropLast_append_getLastD h.below] at hchild

lemma ownPath_of_content (h : f.content ≠ none) : ownPath p f = p := if_neg fun hf => h hf.1

lemma ownPath_of_folder (h : f.mimeType = folderMime) : ownPath p f = p := by
  refine if_neg fun hf => ?_
  have hnative := hf.2
  simp [Shortcut.isNative, h] at hnative

lemma ownPath_of_native (h : f.content = none) (hnative : Shortcut.isNative f.mimeType = true) :
    ownPath p f = Shortcut.relativePath p f.mimeType := if_pos ⟨h, hnative⟩

end Places

/-! ## The walk of the remote tree -/

/-- The entry of a walk describes an object that lies at its path, and whose row belongs at a known
path. -/
def Describes (env : Env) (known : RelPath → Prop) (d : Drive) (root : FileId) (e : RemoteEntry) :
    Prop :=
  ∃ above f, Lies d root (above ++ [f.name]) f ∧ known (ownPath (above ++ [f.name]) f) ∧
    e = remoteEntry above (Drive.resource env.md5 f)

/-- Among the entries there is a directory at the path. -/
def HasDir {α : Type} (path : α → RelPath) (isDir : α → Bool) (l : List α) (p : RelPath) : Prop :=
  p = [] ∨ ∃ e ∈ l, isDir e = true ∧ path e = p

/-- What a walk of the remote tree answers. -/
structure Walked (env : Env) (known : RelPath → Prop) (d : Drive) (root : FileId)
    (l : List RemoteEntry) : Prop where
  /-- The entries describe objects. -/
  describes : ∀ e ∈ l, Describes env known d root e
  /-- They come with their folders. -/
  parents : ∀ e ∈ l, HasDir RemoteEntry.relativePath RemoteEntry.isDir l e.relativePath.dropLast

/-- The calls of the pass that insert no row. -/
def passing : {β : Type} → Call β → Bool
  | _, .db (.getByRelativePath _) => true
  | _, .db (.setCursor _) => true
  | _, .fs _ => true
  | _, .drive c => c.touches.isNone
  | _, _ => false

/-- An invariant that the calls of the pass keep, when each row is at a known path, which is that
of its object. -/
structure Keeps (env : Env) (root : FileId) (known : RelPath → Prop) (I : World → Prop) :
    Prop where
  /-- The calls that insert no row. -/
  call : ∀ {β : Type} {c : Call β} {w : World}, passing c = true → I w → I (handle env β c w).2
  /-- A row for an object. -/
  insert : ∀ {new : NewSyncItem} {p : RelPath} {f : DriveFile} {w : World},
    Lies w.remote.drive root p f → new.remoteId = some (.id f.num) →
      new.relativePath = ownPath p f → known new.relativePath → I w →
        I { w with db := (DbCall.run (.insertItem new) w.db).2 }

section Walk

variable {env : Env} {d : Drive} {root : FileId} {known found : RelPath → Prop}
  {I : World → Prop} {w : World}

lemma HasDir.append {α : Type} {path : α → RelPath} {isDir : α → Bool} {l l' : List α}
    {p : RelPath} (h : HasDir path isDir l p) : HasDir path isDir (l ++ l') p := by
  rcases h with h | ⟨e, he, hdir, hpath⟩
  · exact .inl h
  · exact .inr ⟨e, List.mem_append_left _ he, hdir, hpath⟩

lemma Walked.mono {d' : Drive} {l : List RemoteEntry} (h : Walked env known d root l)
    (hext : d.Extends d') : Walked env known d' root l := by
  refine ⟨fun e he => ?_, h.parents⟩
  obtain ⟨above, f, hlies, hknown, heq⟩ := h.describes e he
  exact ⟨above, f, hlies.mono hext, hknown, heq⟩

/-- What is listed in a folder of the tree. -/
lemma describes_listed {above : RelPath} {id : FileId} {c : FileResource}
    (hfound : ∀ p f, Lies d root p f → found (ownPath p f))
    (h : FolderAt d root above (d.resolve id))
    (hc : c ∈ (d.children (d.resolve id)).map (Drive.resource env.md5)) :
    Describes env found d root (remoteEntry above c) := by
  obtain ⟨f, hf, rfl⟩ := List.mem_map.mp hc
  obtain ⟨hmem, hin⟩ := List.mem_filter.mp hf
  simp only [Bool.and_eq_true, List.contains_eq_mem, decide_eq_true_eq, Bool.not_eq_true'] at hin
  have hlies := lies_child h hmem hin.1 hin.2
  exact ⟨above, f, hlies, hfound _ f hlies, rfl⟩

/-- A directory entry leads to a folder. -/
lemma Describes.folderAt {e : RemoteEntry} (h : Describes env known d root e) (hdir : e.isDir = true) :
    ∃ n, e.id = .id n ∧ FolderAt d root e.relativePath n := by
  obtain ⟨above, f, hlies, -, rfl⟩ := h
  refine ⟨f.num, by simp [Drive.resource], ?_⟩
  have hmime : f.mimeType = folderMime := by
    simpa [FileResource.isFolder, Drive.resource] using hdir
  simpa [Drive.resource] using hlies.folderAt hmime

/-- **The queue of folders** still to be listed. -/
lemma safe_walkQueue (hk : Keeps env root known I)
    (hfound : ∀ p f, Lies w.remote.drive root p f → found (ownPath p f)) {fuel : ℕ}
    {queue : List (FileId × RelPath)} {out : List RemoteEntry}
    (hout : Walked env found w.remote.drive root out)
    (hqueue : ∀ q ∈ queue, FolderAt w.remote.drive root q.2 (w.remote.drive.resolve q.1) ∧
      HasDir RemoteEntry.relativePath RemoteEntry.isDir out q.2) :
    (walkQueue fuel queue out).Safe (handle env) (.solo I) (fun x w' => w'.db = w.db ∧
      w'.fs = w.fs ∧ w'.remote.drive = w.remote.drive ∧
        ∀ l, x = .ok l → Walked env found w.remote.drive root l) w := by
  induction fuel generalizing queue out w with
  | zero =>
    cases queue with
    | nil => exact ⟨rfl, rfl, rfl, fun l hl => Except.ok.inj hl ▸ hout⟩
    | cons q queue => exact ⟨rfl, rfl, rfl, nofun⟩
  | succ fuel ih =>
    cases queue with
    | nil => exact ⟨rfl, rfl, rfl, fun l hl => Except.ok.inj hl ▸ hout⟩
    | cons q queue =>
      obtain ⟨parent, above⟩ := q
      obtain ⟨hfolder, habove⟩ := hqueue _ List.mem_cons_self
      refine Prog.safe_bind.mpr ((safe_request _).mpr fun hI =>
        ⟨hk.call (c := .drive (.listChildren parent)) rfl hI, ?_⟩)
      have hdrive : (w.remote.send env.md5 (.listChildren parent)).2.drive = w.remote.drive :=
        Binding.send_listChildren_drive
      cases hlist : (w.remote.send env.md5 (.listChildren parent)).1 with
      | error e => exact ⟨rfl, rfl, hdrive, nofun⟩
      | ok children =>
        obtain rfl := Except.ok.inj (Remote.send_ok hlist)
        set entries := (((w.remote.drive.children (w.remote.drive.resolve parent)).map
          (Drive.resource env.md5)).filter fun c => isSafeName c.name).map (remoteEntry above)
          with hentries
        have hnew : ∀ e ∈ entries, Describes env found w.remote.drive root e ∧
            e.relativePath.dropLast = above := by
          intro e he
          obtain ⟨c, hc, rfl⟩ := List.mem_map.mp he
          exact ⟨describes_listed hfound hfolder (List.mem_filter.mp hc).1, by simp⟩
        have hout' : Walked env found w.remote.drive root (out ++ entries) := by
          refine ⟨fun e he => ?_, fun e he => ?_⟩
          · rcases List.mem_append.mp he with he | he
            · exact hout.describes e he
            · exact (hnew e he).1
          · rcases List.mem_append.mp he with he | he
            · exact (hout.parents e he).append
            · rw [(hnew e he).2]
              exact habove.append
        have hrec := @ih { w with remote := (w.remote.send env.md5 (.listChildren parent)).2 }
          (by rw [hdrive]; exact hfound)
          (queue ++ (entries.filter (·.isDir)).map fun e => (e.id, e.relativePath))
          (out ++ entries) (by rw [hdrive]; exact hout') fun q hq => ?_
        · refine hrec.mono fun x w' ⟨hdb, hfs, hdr, hl⟩ => ⟨hdb, hfs, hdr.trans hdrive, ?_⟩
          rwa [hdrive] at hl
        · simp only [hdrive]
          rcases List.mem_append.mp hq with hq | hq
          · exact ⟨(hqueue q (List.mem_cons_of_mem _ hq)).1,
              (hqueue q (List.mem_cons_of_mem _ hq)).2.append⟩
          · obtain ⟨e, he, rfl⟩ := List.mem_map.mp hq
            obtain ⟨hmem, hdir⟩ := List.mem_filter.mp he
            obtain ⟨n, hid, hat⟩ := (hnew e hmem).1.folderAt hdir
            refine ⟨by rw [hid]; exact hat, .inr ⟨e, List.mem_append_right _ hmem, hdir, rfl⟩⟩

/-- **The walk of the remote tree** finds objects with their paths. -/
lemma safe_walkRemote (hk : Keeps env root known I)
    (hfound : ∀ p f, Lies w.remote.drive root p f → found (ownPath p f)) {fuel : ℕ} :
    (walkRemote fuel root).Safe (handle env) (.solo I) (fun x w' => w'.db = w.db ∧
      w'.fs = w.fs ∧ w'.remote.drive = w.remote.drive ∧
        ∀ l, x = .ok l → Walked env found w.remote.drive root l) w := by
  have hstart : Walked env found w.remote.drive root [] := ⟨by simp, by simp⟩
  refine Prog.Safe.bind (safe_walkQueue hk hfound hstart ?_)
    (fun out w₁ ⟨hdb, hfs, hdrive, hout⟩ => ⟨hdb, hfs, hdrive, fun l hl => ?_⟩)
    fun _ _ h => ⟨h.1, h.2.1, h.2.2.1, nofun⟩
  · intro q hq
    obtain rfl := List.mem_singleton.mp hq
    exact ⟨.root, .inl rfl⟩
  · obtain rfl := Except.ok.inj hl
    have hwalked := hout out rfl
    refine ⟨fun e he => hwalked.describes e ((RelPath.mem_sort _ _ _).mp he), fun e he => ?_⟩
    rcases hwalked.parents e ((RelPath.mem_sort _ _ _).mp he) with hroot | ⟨dir, hmem, hdir⟩
    · exact .inl hroot
    · exact .inr ⟨dir, (RelPath.mem_sort _ _ _).mpr hmem, hdir⟩

end Walk

/-! ## The ids of the folders -/

/-- The id is that of a folder at the path. -/
def LeadsTo (d : Drive) (root : FileId) (p : RelPath) (id : FileId) : Prop :=
  ∃ n, id = .id n ∧ FolderAt d root p n

/-- The ids by path lead to folders at these paths, the mapped folder being at the empty one. -/
structure Leads (d : Drive) (root : FileId) (ids : FolderIds) : Prop where
  top : ids.val [] = some root
  folder : ∀ p id, p ≠ [] → ids.val p = some id → LeadsTo d root p id

section Ids

variable {env : Env} {d d' : Drive} {root id : FileId} {known : RelPath → Prop}
  {I : World → Prop} {w : World} {ids : FolderIds} {dir : RelPath}

lemma LeadsTo.mono {p : RelPath} (h : LeadsTo d root p id) (hext : d.Extends d') :
    LeadsTo d' root p id := by
  obtain ⟨n, hid, hat⟩ := h
  exact ⟨n, hid, hext.folderAt hat⟩

lemma Leads.mono (h : Leads d root ids) (hext : d.Extends d') : Leads d' root ids :=
  ⟨h.top, fun p id hp hval => (h.folder p id hp hval).mono hext⟩

lemma Leads.set (h : Leads d root ids) (hdir : dir ≠ []) (hid : LeadsTo d root dir id) :
    Leads d root (ids.set dir id) := by
  refine ⟨?_, fun p id' hp hval => ?_⟩
  · rw [Data.FinMap.val_set_ne _ _ hdir.symm]
    exact h.top
  · by_cases hpd : p = dir
    · subst hpd
      rw [Data.FinMap.val_set_self] at hval
      exact Option.some.inj hval ▸ hid
    · rw [Data.FinMap.val_set_ne _ _ hpd] at hval
      exact h.folder p id' hp hval

/-- A path with an id leads to the folder that the code takes for it. -/
lemma Leads.folderAt (h : Leads d root ids) {p : RelPath} (hp : ids.val p ≠ none) :
    FolderAt d root p (d.resolve ((ids.val p).getD root)) := by
  by_cases hnil : p = []
  · subst hnil
    rw [h.top]
    exact .root
  · cases hval : ids.val p with
    | none => exact absurd hval hp
    | some id =>
      obtain ⟨n, rfl, hat⟩ := h.folder p id hnil hval
      exact hat

/-- The map that the ids are entered into. -/
lemma leads_top (d : Drive) (root : FileId) :
    Leads d root (Data.FinMap.set Data.Table.empty [] root) := by
  refine ⟨by simp, fun p id hp hval => ?_⟩
  rw [Data.FinMap.val_set_ne _ _ hp] at hval
  cases hval

/-- The ids that the walk found. -/
lemma leads_folderIds {l : List RemoteEntry} (h : ∀ e ∈ l, Describes env known d root e) :
    Leads d root (folderIds root l) := by
  refine folderIds_induction (leads_top d root) fun e he hdir ids hids => ?_
  refine hids.set ?_ ((h e he).folderAt hdir)
  obtain ⟨above, f, -, -, rfl⟩ := h e he
  simp

/-- A program that inserts no row. -/
lemma safe_passing {α : Type} {q : Task α} (hk : Keeps env root known I)
    (hq : q.Only fun _ c => passing c = true) : q.Safe (handle env) (.solo I)
      (fun _ w' => w.remote.drive.Extends w'.remote.drive) w := by
  refine hq.safe (fun β c w' hc hI hext => ⟨hk.call hc hI, hext.trans ?_⟩) (.refl _)
  cases c with
  | drive c => exact Remote.extends_send (Option.isNone_iff_eq_none.mp hc)
  | _ => exact .refl _

/-- **Recording an object** at its own path, unless the path has a row. -/
lemma safe_recordNew {new : NewSyncItem} {p : RelPath} {f : DriveFile} (hk : Keeps env root known I)
    (hlies : Lies w.remote.drive root p f) (hid : new.remoteId = some (.id f.num))
    (hpath : new.relativePath = ownPath p f) (hknown : known new.relativePath) :
    (recordNew new).Safe (handle env) (.solo I)
      (fun _ w' => w'.remote.drive = w.remote.drive ∧ w'.fs = w.fs) w := by
  refine Prog.safe_bind.mpr ((safe_sql _).mpr fun hI =>
    ⟨hk.call (c := .db (.getByRelativePath new.relativePath)) rfl hI, ?_⟩)
  simp only [DbCall.run]
  cases w.db.items.getByRelativePath new.relativePath with
  | some existing => exact ⟨rfl, rfl⟩
  | none =>
    refine Prog.safe_bind.mpr ((safe_sqlTry _).mpr fun hI =>
      ⟨hk.insert (w := w) hlies hid hpath hknown hI, ?_⟩)
    cases (DbCall.run (.insertItem new) w.db).1 <;> exact ⟨rfl, rfl⟩

/-- The id of a folder, which is made below its parent when Drive lacks it. -/
lemma safe_remoteDir (hk : Keeps env root known I) (hids : Leads w.remote.drive root ids)
    (hdir : dir ≠ []) (hparent : ids.val dir.dropLast ≠ none) :
    (remoteDir root ids dir).Safe (handle env) (.solo I) (fun x w' => w'.db = w.db ∧ w'.fs = w.fs ∧
      w.remote.drive.Extends w'.remote.drive ∧ ∀ found, x = .ok found →
        LeadsTo w'.remote.drive root dir found.1 ∧ Leads w'.remote.drive root found.2 ∧
          ∀ p, found.2.val p ≠ none ↔ p = dir ∨ ids.val p ≠ none) w := by
  unfold remoteDir
  cases hval : ids.val dir with
  | some id =>
    refine ⟨rfl, rfl, .refl _, fun found hfound => ?_⟩
    obtain rfl := Except.ok.inj hfound
    refine ⟨hids.folder dir id hdir hval, hids, fun p => ⟨.inr, ?_⟩⟩
    rintro (rfl | hp)
    · simp [hval]
    · exact hp
  | none =>
    set parent := (ids.val dir.splitParent.1).getD root with hparent'
    have hat : FolderAt w.remote.drive root dir.dropLast (w.remote.drive.resolve parent) :=
      hids.folderAt hparent
    refine Prog.safe_bind.mpr ((safe_request _).mpr fun hI =>
      ⟨hk.call (c := .drive (.createFolder parent dir.splitParent.2)) rfl hI, ?_⟩)
    have hext : w.remote.drive.Extends
        (w.remote.send env.md5 (.createFolder parent dir.splitParent.2)).2.drive :=
      Remote.extends_send rfl
    cases hmake : (w.remote.send env.md5 (.createFolder parent dir.splitParent.2)).1 with
    | error e => exact ⟨rfl, rfl, hext, nofun⟩
    | ok created =>
      refine ⟨rfl, rfl, hext, fun found hfound => ?_⟩
      obtain rfl := Except.ok.inj hfound
      obtain ⟨f, hid, hmade, hname, hmime⟩ := Drive.made_of_createFolder hmake
      have hnew : LeadsTo (w.remote.send env.md5
          (.createFolder parent dir.splitParent.2)).2.drive root dir created.id := by
        refine ⟨f.num, hid, ?_⟩
        have hchild := (hext.folderAt hat).child ((hmade.mem f).mpr (.inr rfl))
          (by rw [hmade.parents]; exact List.mem_singleton_self _) hmade.live hmime
        have hsplit : dir.dropLast ++ [f.name] = dir := by
          rw [hname]
          exact dropLast_append_getLastD hdir
        rwa [hsplit] at hchild
      refine ⟨hnew, (hids.mono hext).set hdir hnew, fun p => ?_⟩
      by_cases hp : p = dir
      · simp [hp]
      · simp [Data.FinMap.val_set_ne _ _ hp, hp]

/-- **One directory** gets its folder and its row. -/
lemma safe_reconcileDir (hk : Keeps env root known I) (hids : Leads w.remote.drive root ids)
    (hdir : dir ≠ []) (hparent : ids.val dir.dropLast ≠ none) (hknown : known dir) :
    (reconcileDir root ids dir).Safe (handle env) (.solo I) (fun x w' =>
      w.remote.drive.Extends w'.remote.drive ∧ ∀ ids', x = .ok ids' →
        Leads w'.remote.drive root ids' ∧ ∀ p, ids'.val p ≠ none ↔ p = dir ∨ ids.val p ≠ none) w := by
  refine Prog.Safe.bind (safe_remoteDir hk hids hdir hparent)
    (fun found w₁ ⟨_, _, hext, hfound⟩ => ?_) fun _ _ h => ⟨h.2.2.1, nofun⟩
  obtain ⟨⟨n, hid, hat⟩, hleads, hkeys⟩ := hfound found rfl
  refine Prog.safe_bind.mpr ((safe_ioTry _).mpr fun hI =>
    ⟨hk.call (c := .fs (.createDirAll dir)) rfl hI, ?_⟩)
  cases (FsCall.run (.createDirAll dir) w₁.fs).1 with
  | error e => exact ⟨hext, nofun⟩
  | ok u =>
    obtain ⟨f, hlies, hnum, hmime⟩ := lies_of_folderAt hat hdir
    refine Prog.Safe.bind (safe_recordNew hk (w := { w₁ with
        fs := (FsCall.run (.createDirAll dir) w₁.fs).2 }) hlies (by simp [syncedDir, hid, hnum])
      (ownPath_of_folder hmime).symm hknown) (fun _ w₂ ⟨hdrive, _⟩ => ?_) fun _ w₂ h => ⟨?_, nofun⟩
    · refine ⟨by rw [hdrive]; exact hext, fun ids' hids' => ?_⟩
      obtain rfl := Except.ok.inj hids'
      rw [hdrive]
      exact ⟨hleads, hkeys⟩
    · rw [h.1]
      exact hext

/-- Every path comes after its parent, unless the parent is known. -/
def ParentsFirst (known : RelPath → Prop) (dirs : List RelPath) : Prop :=
  ∀ pre dir post, dirs = pre ++ dir :: post → dir ≠ [] ∧ (known dir.dropLast ∨ dir.dropLast ∈ pre)

lemma ParentsFirst.tail {known : RelPath → Prop} {dirs : List RelPath}
    (h : ParentsFirst known (dir :: dirs)) :
    ParentsFirst (fun p => p = dir ∨ known p) dirs := by
  intro pre next post hsplit
  obtain ⟨hne, hparent⟩ := h (dir :: pre) next post (by simp [hsplit])
  refine ⟨hne, ?_⟩
  rcases hparent with hknown | hmem
  · exact .inl (.inr hknown)
  · rcases List.mem_cons.mp hmem with heq | hmem
    · exact .inl (.inl heq)
    · exact .inr hmem

/-- **The directories**, parents first: in the end the ids lead to the folders at their paths. -/
lemma safe_reconcileDirs (hk : Keeps env root known I) {dirs : List RelPath}
    (hids : Leads w.remote.drive root ids)
    (hfirst : ParentsFirst (fun p => ids.val p ≠ none) dirs) (hknown : ∀ dir ∈ dirs, known dir) :
    (Prog.foldM dirs (reconcileDir root) ids).Safe (handle env) (.solo I) (fun x w' =>
      w.remote.drive.Extends w'.remote.drive ∧ ∀ ids', x = .ok ids' →
        Leads w'.remote.drive root ids' ∧ ∀ p, p ∈ dirs ∨ ids.val p ≠ none → ids'.val p ≠ none) w := by
  induction dirs generalizing ids w with
  | nil =>
    refine ⟨.refl _, fun ids' hids' => ?_⟩
    obtain rfl := Except.ok.inj hids'
    exact ⟨hids, fun p hp => hp.resolve_left (by simp)⟩
  | cons dir dirs ih =>
    obtain ⟨hdir, hparent⟩ := hfirst [] dir dirs rfl
    refine Prog.Safe.bind (safe_reconcileDir hk hids hdir (hparent.resolve_right (by simp))
      (hknown dir List.mem_cons_self))
      (fun ids' w₁ ⟨hext, hmade⟩ => ?_) fun _ _ h => ⟨h.1, nofun⟩
    obtain ⟨hleads, hkeys⟩ := hmade ids' rfl
    refine (ih hleads ?_ fun q hq => hknown q (List.mem_cons_of_mem _ hq)).mono fun x w₂ ⟨hext₂, hx⟩ => ⟨hext.trans hext₂, fun ids'' hids'' =>
      ⟨(hx ids'' hids'').1, fun p hp => (hx ids'' hids'').2 p ?_⟩⟩
    · intro pre next post hsplit
      simp only [hkeys]
      exact hfirst.tail pre next post hsplit
    · rw [hkeys, ← or_assoc]
      rwa [List.mem_cons, or_comm (a := p = dir)] at hp

end Ids

/-! ## Files -/

/-- The upload of a known path aims at the folder of this path. -/
structure Aimed (known : RelPath → Prop) (d : Drive) (root : FileId) (up : Engine.BulkUpload) :
    Prop where
  known : known up.relPath
  below : up.relPath ≠ []
  folder : FolderAt d root up.relPath.dropLast (d.resolve up.remoteParentId)
  name : up.name = up.relPath.getLastD ""

section Files

variable {env : Env} {d d' : Drive} {root : FileId} {known found : RelPath → Prop}
  {I : World → Prop} {w : World} {ids : FolderIds} {e : RemoteEntry} {rel : RelPath} {f : DriveFile} {size : ℕ} {md5 : String}

lemma Aimed.mono {up : Engine.BulkUpload} (h : Aimed known d root up) (hext : d.Extends d') :
    Aimed known d' root up := by
  refine ⟨h.known, h.below, ?_, h.name⟩
  rw [hext.resolve]
  exact hext.folderAt h.folder

lemma Describes.mono (h : Describes env found d root e) (hext : d.Extends d') :
    Describes env found d' root e := by
  obtain ⟨above, f, hlies, hfound, heq⟩ := h
  exact ⟨above, f, hlies.mono hext, hfound, heq⟩

/-- A file entry describes the object of its id. -/
lemma Describes.file (h : Describes env found d root e) (hfile : e.isDir = false) :
    ∃ f, Lies d root e.relativePath f ∧ found (ownPath e.relativePath f) ∧ e.id = .id f.num ∧
      e.mimeType = f.mimeType ∧ e.md5 = f.content.map env.md5 ∧ e.size = (f.content.map List.length).getD 0 := by
  obtain ⟨above, f, hlies, hfound, rfl⟩ := h
  have hkind : (Drive.resource env.md5 f).isFolder = false := by simpa using hfile
  refine ⟨f, by simpa [Drive.resource] using hlies, by simpa [Drive.resource] using hfound,
    by simp [Drive.resource], by simp [Drive.resource], ?_, ?_⟩
  · simp only [remoteEntry, hkind]
    rfl
  · simp only [remoteEntry, hkind]
    rfl

/-- Recording a file at the path of its object. -/
lemma safe_recordSyncedItem (hk : Keeps env root known I) (hlies : Lies w.remote.drive root rel f)
    (hcontent : f.content ≠ none) (hknown : known rel) :
    (recordSyncedItem rel (.id f.num) size md5).Safe (handle env) (.solo I)
      (fun _ w' => w'.remote.drive = w.remote.drive) w :=
  (safe_recordNew hk hlies rfl (ownPath_of_content hcontent).symm hknown).mono
    fun _ _ => And.left

/-- Recording what an entry describes. -/
lemma safe_recordEntry (hk : Keeps env root known I)
    (he : Describes env found w.remote.drive root e) (hfile : e.isDir = false)
    (hmd5 : e.md5 ≠ none) (hknown : known e.relativePath) :
    (recordSyncedItem e.relativePath e.id size md5).Safe (handle env) (.solo I)
      (fun _ w' => w'.remote.drive = w.remote.drive) w := by
  obtain ⟨f, hlies, -, hid, -, hprint, -⟩ := he.file hfile
  rw [hid]
  refine safe_recordSyncedItem hk hlies (fun hnone => hmd5 ?_) hknown
  rw [hprint, hnone]
  rfl

/-- What an entry of known objects describes is known, if it has content. -/
lemma Describes.found_path (h : Describes env found d root e) (hfile : e.isDir = false)
    (hmd5 : e.md5 ≠ none) : found e.relativePath := by
  obtain ⟨f, -, hfound, -, -, hprint, -⟩ := h.file hfile
  rwa [ownPath_of_content fun hnone => hmd5 (by rw [hprint, hnone]; rfl)] at hfound

/-- The calls on the local tree. -/
def onTree : {β : Type} → Call β → Bool
  | _, .fs _ => true
  | _, _ => false

/-- A program that only reads and writes the local tree. -/
lemma safe_onTree {α : Type} {q : Task α} (hk : Keeps env root known I)
    (hq : q.Only fun _ c => onTree c = true) : q.Safe (handle env) (.solo I)
      (fun _ w' => w'.db = w.db ∧ w'.remote = w.remote) w := by
  refine hq.safe (fun β c w' hc hI hsame => ?_) ⟨rfl, rfl⟩
  cases c with
  | fs c => exact ⟨hk.call (c := .fs c) rfl hI, hsame⟩
  | _ => cases hc

/-- **The pointer of a native document.** -/
lemma safe_writeShortcut (hk : Keeps env root known I)
    (he : Describes env known w.remote.drive root e) (hfile : e.isDir = false) :
    (writeShortcut e).Safe (handle env) (.solo I)
      (fun _ w' => w'.remote.drive = w.remote.drive) w := by
  obtain ⟨f, hlies, hknown, hid, hmime, hprint, -⟩ := he.file hfile
  unfold writeShortcut
  split
  · exact rfl
  · next hmd5 =>
    have hcontent : f.content = none := by
      rw [not_not, hprint, Option.map_eq_none_iff] at hmd5
      exact hmd5
    split
    · next hnative =>
      set rel := Shortcut.relativePath e.relativePath e.mimeType with hrel
      have hown : rel = ownPath e.relativePath f := by
        rw [ownPath_of_native hcontent (hmime ▸ hnative), hrel, hmime]
      refine Prog.safe_bind.mpr ((safe_sql _).mpr fun hI =>
        ⟨hk.call (c := .db (.getByRelativePath rel)) rfl hI, ?_⟩)
      simp only [DbCall.run]
      cases w.db.items.getByRelativePath rel with
      | some existing => exact rfl
      | none =>
        have hwrite : (Shortcut.write rel (Shortcut.content e.mimeType e.id)).Only
            fun _ c => onTree c = true :=
          Prog.Only.bind ⟨rfl, fun x => Prog.only_ofExcept x⟩ fun _ =>
            ⟨rfl, fun x => Prog.only_ofExcept x⟩
        refine Prog.Safe.bind (safe_onTree hk hwrite) ?_
          fun _ _ h => by rw [h.2]
        rintro _ w₁ ⟨_, hremote⟩
        refine Prog.safe_bind.mpr ((safe_sqlTry _).mpr fun hI => ⟨hk.insert (w := w₁) (f := f)
          (by rw [hremote]; exact hlies) (by rw [← hid]; rfl) hown (hown ▸ hknown) hI, ?_⟩)
        cases (DbCall.run (.insertItem (Continuous.pointer rel e.id)) w₁.db).1 <;>
          exact congrArg Remote.drive hremote
    · exact rfl

/-- A file on both sides is recorded with the id of its entry. -/
lemma safe_recordEqual (hk : Keeps env root known I) {remotes : List RemoteEntry} {l : Fs.LocalEntry}
    (hremotes : ∀ r ∈ remotes, Describes env known w.remote.drive root r ∧ r.isDir = false) :
    (recordEqual env remotes l).Safe (handle env) (.solo I)
      (fun _ w' => w'.remote.drive = w.remote.drive) w := by
  unfold recordEqual
  split
  · exact rfl
  · next remote hremote =>
    obtain ⟨hmem, hpath⟩ : remote ∈ remotes ∧ remote.relativePath = l.relativePath :=
      ⟨List.mem_reverse.mp (List.mem_of_find?_eq_some hremote),
        by simpa using List.find?_some hremote⟩
    split
    · exact rfl
    · have hread : (computeLocal env l.relativePath).Only fun _ c => onTree c = true :=
        Prog.Only.bind ⟨rfl, fun x => Prog.only_ofExcept x⟩ fun _ => trivial
      refine Prog.Safe.bind (safe_onTree hk hread) (fun ⟨size, md5⟩ w₁ ⟨_, h₁⟩ => ?_)
        fun _ _ h => by rw [h.2]
      simp only
      split
      · next hsame =>
        have hmd5 : remote.md5 ≠ none := by
          rw [hsame.1]
          exact Option.some_ne_none _
        obtain ⟨hdescribes, hfile⟩ := hremotes remote hmem
        rw [← h₁] at hdescribes
        rw [← h₁, ← hpath]
        exact safe_recordEntry hk hdescribes hfile hmd5 (hdescribes.found_path hfile hmd5)
      · exact congrArg Remote.drive h₁

/-- A file that is to be uploaded aims at its folder. -/
lemma safe_planUpload (hk : Keeps env root known I) {remotes : List RemoteEntry} {l : Fs.LocalEntry}
    {ups : List Engine.BulkUpload} (hids : Leads w.remote.drive root ids)
    (hknown : known l.relativePath) (hl : l.relativePath ≠ [])
    (hparent : ids.val l.relativePath.dropLast ≠ none)
    (hups : ∀ up ∈ ups, Aimed known w.remote.drive root up) :
    (planUpload env root ids remotes ups l).Safe (handle env) (.solo I) (fun x w' =>
      w'.remote.drive = w.remote.drive ∧ ∀ ups', x = .ok ups' →
        ∀ up ∈ ups', Aimed known w.remote.drive root up) w := by
  have hsame : ∀ ups', (.ok ups : Except Error (List Engine.BulkUpload)) = .ok ups' →
      ∀ up ∈ ups', Aimed known w.remote.drive root up := fun ups' h => Except.ok.inj h ▸ hups
  unfold planUpload
  split
  · exact ⟨rfl, hsame⟩
  · split
    · exact ⟨rfl, hsame⟩
    · refine Prog.safe_bind.mpr ((safe_sql _).mpr fun hI =>
        ⟨hk.call (c := .db (.getByRelativePath l.relativePath)) rfl hI, ?_⟩)
      simp only
      split
      · exact ⟨rfl, hsame⟩
      · refine ⟨rfl, fun ups' hups' up hup => ?_⟩
        obtain rfl := Except.ok.inj hups'
        rcases List.mem_append.mp hup with hup | hup
        · exact hups up hup
        · obtain rfl := List.mem_singleton.mp hup
          exact ⟨hknown, hl, hids.folderAt hparent, rfl⟩

/-- An upload that the second walk saw. -/
lemma safe_recordSeen (hk : Keeps env root known I) {after : List RemoteEntry}
    {pending : List Engine.BulkUpload} {up : Engine.BulkUpload}
    (hafter : ∀ e ∈ after, Describes env found w.remote.drive root e) (hknown : known up.relPath) :
    (recordSeen after pending up).Safe (handle env) (.solo I) (fun x w' =>
      w'.remote.drive = w.remote.drive ∧ ∀ pending', x = .ok pending' →
        ∀ u ∈ pending', u ∈ pending ∨ u = up) w := by
  unfold recordSeen
  split
  · next r md5 hseen =>
    obtain ⟨r', hr', hmd5⟩ := Option.bind_eq_some_iff.mp hseen
    obtain ⟨md5', hprint, hpair⟩ := Option.map_eq_some_iff.mp hmd5
    obtain ⟨rfl, rfl⟩ := Prod.mk.inj hpair
    obtain ⟨hmem, hfile⟩ := List.mem_filter.mp
      (List.mem_reverse.mp (List.mem_of_find?_eq_some hr'))
    have hpath : r'.relativePath = up.relPath := by simpa using List.find?_some hr'
    rw [← hpath] at hknown ⊢
    refine Prog.Safe.bind (safe_recordEntry hk (hafter r' hmem) (by simpa using hfile)
      (by rw [hprint]; exact Option.some_ne_none _) hknown) (fun _ w₁ h => ⟨h, fun pending' hp u hu => ?_⟩)
      fun _ _ h => ⟨h, nofun⟩
    exact .inl (Except.ok.inj hp ▸ hu)
  · refine ⟨rfl, fun pending' hp u hu => ?_⟩
    obtain rfl := Except.ok.inj hp
    simpa using hu

/-- An upload that is looked up in its folder. -/
lemma safe_recordLookedUp (hk : Keeps env root known I) {rest : List Engine.BulkUpload}
    {up : Engine.BulkUpload} (hup : Aimed known w.remote.drive root up) :
    (recordLookedUp rest up).Safe (handle env) (.solo I) (fun x w' =>
      w'.remote.drive = w.remote.drive ∧ ∀ rest', x = .ok rest' →
        ∀ u ∈ rest', u ∈ rest ∨ u = up) w := by
  have hlookup : (lookupUploaded up.remoteParentId up.name).Safe (handle env) (.solo I)
      (fun x w' => w'.remote.drive = w.remote.drive ∧ ∀ id size md5,
        x = .ok (some (id, size, md5)) → ∃ f, id = .id f.num ∧ f.content ≠ none ∧
          Lies w.remote.drive root up.relPath f) w := by
    refine Prog.safe_bind.mpr (Prog.safe_attempt.mpr ((safe_request _).mpr fun hI =>
      ⟨hk.call (c := .drive (.listChildren up.remoteParentId)) rfl hI, ?_⟩))
    cases hlist : (w.remote.send env.md5 (.listChildren up.remoteParentId)).1 with
    | error e => exact ⟨Binding.send_listChildren_drive, by simp⟩
    | ok children =>
      refine ⟨Binding.send_listChildren_drive, fun id size md5 hx => ?_⟩
      obtain rfl := Except.ok.inj (Remote.send_ok hlist)
      obtain ⟨c, hc, hmap⟩ := Option.bind_eq_some_iff.mp (Except.ok.inj hx)
      obtain ⟨m, hm, hpair⟩ := Option.map_eq_some_iff.mp hmap
      obtain ⟨rfl, -⟩ := Prod.mk.inj hpair
      obtain ⟨f, hf, rfl⟩ := List.mem_map.mp (List.mem_of_find?_eq_some hc)
      have hname : f.name = up.name := by
        have hfound := List.find?_some hc
        simp only [Bool.and_eq_true, decide_eq_true_eq] at hfound
        exact hfound.2
      obtain ⟨hmem, hin⟩ := List.mem_filter.mp hf
      simp only [Bool.and_eq_true, List.contains_eq_mem, decide_eq_true_eq,
        Bool.not_eq_true'] at hin
      refine ⟨f, rfl, fun hnone => ?_, ?_⟩
      · simp [Drive.resource, hnone] at hm
      · have hlies := lies_child hup.folder hmem hin.1 hin.2
        rwa [hname, hup.name, dropLast_append_getLastD hup.below] at hlies
  refine Prog.Safe.bind hlookup ?_ fun _ _ h => ⟨h.1, by intros; contradiction⟩
  rintro found w₁ ⟨hdrive, hfound⟩
  cases found with
  | none =>
    refine ⟨hdrive, fun rest' hrest u hu => ?_⟩
    obtain rfl := Except.ok.inj hrest
    simpa using hu
  | some found =>
    obtain ⟨id, size, md5⟩ := found
    obtain ⟨f, rfl, hcontent, hlies⟩ := hfound id size md5 rfl
    refine Prog.Safe.bind (safe_recordSyncedItem hk (hdrive ▸ hlies) hcontent hup.known) (fun _ w₂ h =>
      ⟨h.trans hdrive, fun rest' hrest u hu => ?_⟩)
      fun _ _ h => ⟨h.trans hdrive, by intros; contradiction⟩
    exact .inl (Except.ok.inj hrest ▸ hu)

lemma safe_retryLookups (hk : Keeps env root known I) {n : ℕ} {pending : List Engine.BulkUpload}
    (hpending : ∀ up ∈ pending, Aimed known w.remote.drive root up) :
    (retryLookups n pending).Safe (handle env) (.solo I) Prog.Any w := by
  induction n generalizing pending w with
  | zero => cases pending <;> trivial
  | succ n ih =>
    cases pending with
    | nil => trivial
    | cons up pending =>
      refine Prog.Safe.bind (P := fun x w' => ∀ rest, x = .ok rest →
        ∀ u ∈ rest, Aimed known w'.remote.drive root u) (Prog.Safe.foldM (fun rest w' =>
          w'.remote.drive = w.remote.drive ∧ ∀ u ∈ rest, Aimed known w.remote.drive root u)
          ⟨rfl, by simp⟩ (fun u hu rest w₁ ⟨hdrive, hrest⟩ => ?_) fun rest w₁ ⟨hdrive, hrest⟩ =>
            fun rest' h => ?_) (fun rest w₁ hrest => ih (hrest rest rfl)) fun _ _ _ => trivial
      · refine (safe_recordLookedUp hk (hdrive ▸ hpending u hu)).mono fun x w₂ ⟨hdrive₂, hx⟩ => ?_
        cases x with
        | error e => exact nofun
        | ok rest' =>
          refine ⟨hdrive₂.trans hdrive, fun u' hu' => ?_⟩
          rcases hx rest' rfl u' hu' with hold | rfl
          · exact hrest u' hold
          · exact hpending u' hu
      · obtain rfl := Except.ok.inj h
        rw [hdrive]
        exact hrest

/-- **The uploads** are recorded at their paths. -/
lemma safe_recordUploads (hk : Keeps env root known I) {fuel : ℕ} {ups : List Engine.BulkUpload}
    (hups : ∀ up ∈ ups, Aimed known w.remote.drive root up) :
    (recordUploads fuel root ups).Safe (handle env) (.solo I) Prog.Any w := by
  unfold recordUploads
  split
  · trivial
  · have hwalk : (walkRemote fuel root).Safe (handle env) (.solo I) (fun x w' => w'.db = w.db ∧
        w'.fs = w.fs ∧ w'.remote.drive = w.remote.drive ∧
          ∀ l, x = .ok l → Walked env (fun _ => True) w.remote.drive root l) w :=
      safe_walkRemote hk fun _ _ _ => trivial
    refine Prog.Safe.bind hwalk (fun after w₁ ⟨_, _, hdrive, hafter⟩ => ?_) fun _ _ _ => trivial
    have hwalked := hafter after rfl
    refine Prog.Safe.bind (P := fun x w' => ∀ rest, x = .ok rest →
      ∀ u ∈ rest, Aimed known w'.remote.drive root u) (Prog.Safe.foldM (fun rest w' =>
        w'.remote.drive = w.remote.drive ∧ ∀ u ∈ rest, Aimed known w.remote.drive root u)
        ⟨hdrive, by simp⟩ (fun u hu rest w₂ ⟨hdrive₂, hrest⟩ => ?_) fun rest w₂ ⟨hdrive₂, hrest⟩ =>
          fun rest' h => ?_) (fun rest w₂ hrest => safe_retryLookups hk (hrest rest rfl))
          fun _ _ _ => trivial
    · refine (safe_recordSeen hk (by rw [hdrive₂]; exact hwalked.describes) (hups u hu).known).mono
        fun x w₃ ⟨hdrive₃, hx⟩ => ?_
      cases x with
      | error e => exact nofun
      | ok rest' =>
        refine ⟨hdrive₃.trans hdrive₂, fun u' hu' => ?_⟩
        rcases hx rest' rfl u' hu' with hold | rfl
        · exact hrest u' hold
        · exact hups u' hu
    · obtain rfl := Except.ok.inj h
      rw [hdrive₂]
      exact hrest

end Files

/-! ## The pass -/

section Pass

variable {env : Env} {root : FileId} {known : RelPath → Prop} {I : World → Prop} {w : World}

/-- The entries of a local walk come with their directories. -/
lemma local_parents {fs : Fs} {e : Fs.LocalEntry} (he : e ∈ fs.walk []) :
    e.relativePath ≠ [] ∧
      HasDir Fs.LocalEntry.relativePath Fs.LocalEntry.isDir (fs.walk []) e.relativePath.dropLast := by
  obtain ⟨n, hval, -, hbelow, hout⟩ := Fs.mem_walk.mp he
  have hne : e.relativePath ≠ [] := by
    obtain ⟨x, rest, hpath⟩ := RelPath.below_iff.mp hbelow
    simp [hpath]
  refine ⟨hne, ?_⟩
  by_cases hroot : e.relativePath.dropLast = []
  · exact .inl hroot
  · have hdir : fs.node e.relativePath.dropLast = some .dir := by
      refine Fs.parent_of_node hne ?_
      rw [fs.node_of_ne_nil hne, hval]
      exact Option.some_ne_none _
    rw [fs.node_of_ne_nil hroot] at hdir
    refine .inr ⟨⟨e.relativePath.dropLast, true⟩, Fs.mem_walk.mpr ⟨.dir, hdir, by simp, ?_, ?_⟩,
      rfl, rfl⟩
    · obtain ⟨x, rest, hsplit⟩ := List.exists_cons_of_ne_nil hroot
      exact RelPath.below_iff.mpr ⟨x, rest, hsplit⟩
    · exact fun hin => hout (List.mem_of_mem_dropLast hin)

lemma mem_dirPaths {locals : List Fs.LocalEntry} {remotes : List RemoteEntry} {p : RelPath} :
    p ∈ dirPaths locals remotes ↔ (∃ e ∈ locals, e.isDir = true ∧ e.relativePath = p) ∨
      ∃ e ∈ remotes, e.isDir = true ∧ e.relativePath = p := by
  simp [dirPaths, and_assoc]

/-- **The directories come parents first.** -/
lemma parentsFirst_dirPaths {fs : Fs} {d : Drive} {remotes : List RemoteEntry} {ids : FolderIds}
    (hremotes : Walked env known d root remotes) (hids : Leads d root ids) :
    ParentsFirst (fun p => ids.val p ≠ none) (dirPaths (fs.walk []) remotes) := by
  intro pre dir post hsplit
  have hmem : dir ∈ dirPaths (fs.walk []) remotes := by
    rw [hsplit]
    simp
  have hparent : dir ≠ [] ∧ (dir.dropLast = [] ∨ dir.dropLast ∈ dirPaths (fs.walk []) remotes) := by
    rcases mem_dirPaths.mp hmem with ⟨e, he, -, rfl⟩ | ⟨e, he, -, rfl⟩
    · obtain ⟨hne, hroot | habove⟩ := local_parents he
      · exact ⟨hne, .inl hroot⟩
      · exact ⟨hne, .inr (mem_dirPaths.mpr (.inl habove))⟩
    · obtain ⟨above, f, -, -, hentry⟩ := hremotes.describes e he
      have hne : e.relativePath ≠ [] := by simp [hentry]
      rcases hremotes.parents e he with hroot | habove
      · exact ⟨hne, .inl hroot⟩
      · exact ⟨hne, .inr (mem_dirPaths.mpr (.inr habove))⟩
  refine ⟨hparent.1, ?_⟩
  by_cases hroot : dir.dropLast = []
  · refine .inl ?_
    show ids.val dir.dropLast ≠ none
    rw [hroot, hids.top]
    exact Option.some_ne_none _
  · have hbefore := hparent.2.resolve_left hroot
    rw [← dropLast_append_getLastD hparent.1] at hsplit
    exact .inr (RelPath.parent_before hroot ((RelPath.mem_sort _ _ _).mp hbefore) hsplit)

/-- **The initial pass** inserts rows at known paths only, which are the own ones of their
objects. -/
lemma safe_initial (hk : Keeps env root known I)
    (hlocal : ∀ e ∈ w.fs.walk [], known e.relativePath)
    (hremote : ∀ p f, Lies w.remote.drive root p f → known (ownPath p f)) {fuel : ℕ} :
    (initial env fuel root).Safe (handle env) (.solo I) Prog.Any w := by
  refine Prog.safe_bind.mpr ((safe_io _).mpr fun hI => ⟨hk.call (c := .fs (.walk [])) rfl hI, ?_⟩)
  simp only [FsCall.run]
  set locals := w.fs.walk [] with hlocals
  refine Prog.Safe.bind (safe_walkRemote hk hremote)
    ?_ fun _ _ _ => trivial
  rintro remotes w₂ ⟨_, _, hdrive₂, hremotes⟩
  replace hremotes : Walked env known w₂.remote.drive root remotes := by
    rw [hdrive₂]
    exact hremotes remotes rfl
  have hids := leads_folderIds hremotes.describes
  have hdirs : ∀ dir ∈ dirPaths locals remotes, known dir := by
    intro dir hdir
    rcases mem_dirPaths.mp hdir with ⟨e, he, -, rfl⟩ | ⟨e, he, hisDir, rfl⟩
    · exact hlocal e he
    · obtain ⟨above, f, -, hknown, rfl⟩ := hremotes.describes e he
      have hmime : f.mimeType = folderMime := by
        simpa [FileResource.isFolder, Drive.resource] using hisDir
      rw [ownPath_of_folder hmime] at hknown
      simpa [Drive.resource] using hknown
  refine Prog.Safe.bind (safe_reconcileDirs hk hids (parentsFirst_dirPaths hremotes hids) hdirs)
    ?_ fun _ _ _ => trivial
  rintro ids w₃ ⟨hext₃, hids₃⟩
  obtain ⟨hleads, hkeys⟩ := hids₃ ids rfl
  have hparents : ∀ l ∈ locals, l.relativePath ≠ [] ∧ ids.val l.relativePath.dropLast ≠ none := by
    intro l hl
    obtain ⟨hne, hroot | habove⟩ := local_parents hl
    · refine ⟨hne, ?_⟩
      rw [hroot, hleads.top]
      exact Option.some_ne_none _
    · exact ⟨hne, hkeys _ (.inl (mem_dirPaths.mpr (.inl habove)))⟩
  have hfiles : ∀ {d : Drive}, w₂.remote.drive.Extends d → ∀ r ∈ remotes.filter fun e => !e.isDir,
      Describes env known d root r ∧ r.isDir = false := by
    intro d hext r hr
    obtain ⟨hmem, hfile⟩ := List.mem_filter.mp hr
    exact ⟨(hremotes.describes r hmem).mono hext, by simpa using hfile⟩
  -- the pointers
  refine Prog.Safe.bind (P := fun _ w' => w₃.remote.drive.Extends w'.remote.drive)
    (Prog.Safe.forEach (fun w' => w₃.remote.drive.Extends w'.remote.drive) (.refl _)
      (fun e he w₄ hext => ?_) fun _ h => h) (fun _ w₄ hext₄ => ?_) fun _ _ _ => trivial
  · have hdescribes := hfiles (hext₃.trans hext) e he
    refine (safe_writeShortcut hk hdescribes.1 hdescribes.2).mono fun x w₅ hdrive => ?_
    cases x <;> exact hdrive ▸ hext
  -- what will be uploaded
  refine Prog.Safe.bind (P := fun x w' => w₄.remote.drive.Extends w'.remote.drive ∧ ∀ ups, x = .ok ups →
    ∀ up ∈ ups, Aimed known w'.remote.drive root up) (Prog.Safe.foldM (fun ups w' =>
      w'.remote.drive = w₄.remote.drive ∧ ∀ up ∈ ups, Aimed known w₄.remote.drive root up)
      ⟨rfl, by simp⟩ ?_ ?_)
      ?_ fun _ _ _ => trivial
  · rintro l hl ups w₅ ⟨hdrive, hups⟩
    obtain ⟨hne, hkey⟩ := hparents l (List.mem_filter.mp hl).1
    refine (safe_planUpload hk (hdrive ▸ hleads.mono hext₄) (hlocal l (List.mem_filter.mp hl).1)
      hne hkey (hdrive ▸ hups)).mono
      ?_
    rintro x w₆ ⟨hdrive₆, hx⟩
    cases x with
    | error e => exact ⟨by rw [hdrive₆, hdrive]; exact .refl _, by intros; contradiction⟩
    | ok ups' => exact ⟨hdrive₆.trans hdrive, fun up hup => hdrive ▸ hx ups' rfl up hup⟩
  · rintro ups w₅ ⟨hdrive, hups⟩
    refine ⟨by rw [hdrive]; exact .refl _, fun ups' h => ?_⟩
    obtain rfl := Except.ok.inj h
    rw [hdrive]
    exact hups
  rintro uploads w₅ ⟨hext₅, hups⟩
  replace hups := hups uploads rfl
  -- files on both sides
  have hext₂₅ := (hext₃.trans hext₄).trans hext₅
  refine Prog.Safe.bind (P := fun _ w' => w₅.remote.drive.Extends w'.remote.drive)
    (Prog.Safe.forEach (fun w' => w₅.remote.drive.Extends w'.remote.drive) (.refl _)
      (fun l _ w₆ hext => ?_) fun _ h => h) (fun _ w₆ hext₆ => ?_) fun _ _ _ => trivial
  · refine (safe_recordEqual hk (hfiles (hext₂₅.trans hext))).mono fun x w₇ hdrive => ?_
    cases x <;> exact hdrive ▸ hext
  -- the transfers
  have hdown : ∀ items : List Engine.BulkDownload, (Engine.bulkDownload items).Only
      fun _ c => passing c = true := fun items => Prog.Only.forEach fun item _ =>
    Prog.Only.bind ⟨rfl, fun x => Prog.only_ofExcept x⟩ fun body =>
      Prog.Only.bind ⟨rfl, fun x => Prog.only_ofExcept x⟩ fun _ =>
        ⟨rfl, fun x => Prog.only_ofExcept x⟩
  have hup : (Engine.bulkUpload uploads).Only fun _ c => passing c = true :=
    Prog.Only.forEach fun up _ => Prog.Only.bind (Prog.Only.bind
      ⟨rfl, fun x => Prog.only_ofExcept x⟩ fun _ => ⟨rfl, fun x => Prog.only_ofExcept x⟩)
        fun _ => trivial
  refine Prog.Safe.bind (safe_passing hk (hdown _)) (fun _ w₇ hext₇ => ?_) fun _ _ _ => trivial
  refine Prog.Safe.bind (safe_passing hk hup) (fun _ w₈ hext₈ => ?_) fun _ _ _ => trivial
  have hext₅₈ := (hext₆.trans hext₇).trans hext₈
  -- the rows of what was transferred
  refine Prog.Safe.bind (P := fun _ w' => w₈.remote.drive.Extends w'.remote.drive)
    (Prog.Safe.forEach (fun w' => w₈.remote.drive.Extends w'.remote.drive) (.refl _)
      (fun e he w₉ hext => ?_) fun _ h => h) (fun _ w₉ hext₉ => ?_) fun _ _ _ => trivial
  · obtain ⟨r, hr, hplan⟩ := List.mem_filterMap.mp he
    split_ifs at hplan
    obtain ⟨md5, hmd5, rfl⟩ := Option.map_eq_some_iff.mp hplan
    obtain ⟨hdescribes, hfile⟩ := hfiles ((hext₂₅.trans hext₅₈).trans hext) r hr
    have hcontent : r.md5 ≠ none := by
      rw [hmd5]
      exact Option.some_ne_none _
    refine (safe_recordEntry hk hdescribes hfile hcontent (hdescribes.found_path hfile hcontent)).mono
      fun x w₁₀ hdrive => ?_
    cases x <;> exact hdrive ▸ hext
  refine Prog.Safe.bind (safe_recordUploads hk fun up hup =>
    (hups up hup).mono (hext₅₈.trans hext₉)) (fun _ w₁₀ _ => ?_) fun _ _ _ => trivial
  refine Prog.Safe.mono (safe_passing hk (Prog.Only.bind ⟨rfl, fun x => Prog.only_ofExcept x⟩
    fun token => ⟨rfl, fun _ => trivial⟩)) fun _ _ _ => trivial

end Pass

end AirDrive.InitialPlaces
