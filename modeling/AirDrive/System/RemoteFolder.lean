import AirDrive.Daemon.Outcomes
import AirDrive.Drive.Distinct
import AirDrive.System.Run

set_option relaxedAutoImplicit false
set_option autoImplicit false

/-!
# Making the remote folders of a path

`ensure_remote_folder` walks a path below the mapped folder. At each segment it takes the first
folder of that name that Drive lists, or makes one, and binds the row at the path so far to it. What
it leaves is a state in which the same walk finds every folder and every row as it wants them, so
that a second call changes nothing.

## Main definitions

* `AirDrive.RemoteFolder.firstFolder`, `AirDrive.RemoteFolder.Makes` — making a chain of folders in
  a tree.
* `AirDrive.RemoteFolder.Appends` — objects are only added.
* `AirDrive.RemoteFolder.Ready` — the walk finds all that it wants.
* `AirDrive.RemoteFolder.Created` — which folders of a chain were there before.

## Main results

* `AirDrive.RemoteFolder.run_ensureSegments` — the walk makes a chain and leaves it ready.
* `AirDrive.RemoteFolder.run_ready` — a walk that is ready changes nothing.
* `AirDrive.RemoteFolder.ensure_remote_folder_mkdir_p`.
-/

namespace AirDrive.RemoteFolder

open Effect Dispatcher Outcomes

variable {env : Env} {w w' : World} {d d' d₁ : Drive} {root cur rid : FileId} {name seg : String}
  {rest segs : List String} {rel cum : RelPath} {ids : List FileId} {f g : DriveFile}

/-! ## Chains of folders -/

/-- The first live folder of a name in a folder, in the order of the listing. -/
def firstFolder (d : Drive) (parent : FileId) (name : String) : Option DriveFile :=
  (d.children (d.resolve parent)).find? fun f => f.mimeType = folderMime && f.name = name

/-- A chain of folders below a folder: each one is the first of its name in the one before it, or it
is made there. -/
inductive Makes : Drive → FileId → List String → List FileId → Drive → Prop
  | done (d : Drive) (cur : FileId) : Makes d cur [] [] d
  | found {d d' : Drive} {cur : FileId} {seg : String} {rest : List String} {ids : List FileId}
      {f : DriveFile} (first : firstFolder d cur seg = some f)
      (below : Makes d (.id f.num) rest ids d') :
      Makes d cur (seg :: rest) (.id f.num :: ids) d'
  | made {d d₁ d' : Drive} {cur : FileId} {seg : String} {rest : List String} {ids : List FileId}
      {g : DriveFile} (first : firstFolder d cur seg = none)
      (create : d.create cur seg folderMime none = (some g, d₁))
      (below : Makes d₁ (.id g.num) rest ids d') :
      Makes d cur (seg :: rest) (.id g.num :: ids) d'

/-- Objects were added, and nothing else happened to the tree. -/
structure Appends (d d' : Drive) : Prop where
  rows : ∃ new, d'.files.table.rows = d.files.table.rows ++ new
  root : d'.rootNum = d.rootNum

section Chains

lemma firstFolder_eq_some (h : firstFolder d cur name = some f) : f ∈ d.files ∧
    d.resolve cur ∈ f.parents ∧ f.trashed = false ∧ f.mimeType = folderMime ∧ f.name = name := by
  obtain ⟨hmem, hin⟩ := List.mem_filter.mp (List.mem_of_find?_eq_some h)
  have hboth := List.find?_some h
  simp only [Bool.and_eq_true, decide_eq_true_eq] at hboth
  simp only [Bool.and_eq_true, List.contains_iff_mem, Bool.not_eq_true'] at hin
  exact ⟨hmem, hin.1, hin.2, hboth.1, hboth.2⟩

lemma firstFolder_eq_none : firstFolder d cur name = none ↔ ∀ f ∈ d.files,
    d.resolve cur ∈ f.parents → f.trashed = false → f.mimeType = folderMime → f.name ≠ name := by
  simp only [firstFolder, List.find?_eq_none, Drive.children, List.mem_filter, Bool.and_eq_true,
    List.contains_iff_mem, Bool.not_eq_true', decide_eq_true_eq]
  constructor
  · exact fun h f hf hpar hlive hfolder hname => h f ⟨hf, hpar, hlive⟩ ⟨hfolder, hname⟩
  · exact fun h f hf hboth => h f hf.1 hf.2.1 hf.2.2 hboth.1 hboth.2

lemma Appends.refl (d : Drive) : Appends d d := ⟨⟨[], by simp⟩, rfl⟩

lemma Appends.trans (h : Appends d d₁) (h' : Appends d₁ d') : Appends d d' := by
  obtain ⟨new, hnew⟩ := h.rows
  obtain ⟨new', hnew'⟩ := h'.rows
  exact ⟨⟨new ++ new', by rw [hnew', hnew, List.append_assoc]⟩, h'.root.trans h.root⟩

lemma Appends.resolve (h : Appends d d') (id : FileId) : d'.resolve id = d.resolve id :=
  Drive.resolve_of_root h.root id

lemma Appends.mem (h : Appends d d') (hf : f ∈ d.files) : f ∈ d'.files := by
  obtain ⟨new, hnew⟩ := h.rows
  rw [Data.Serial.mem_def, hnew]
  exact List.mem_append_left _ hf

/-- The first folder of a name stays the first one. -/
lemma Appends.firstFolder (h : Appends d d') (hf : firstFolder d cur name = some f) :
    RemoteFolder.firstFolder d' cur name = some f := by
  obtain ⟨new, hnew⟩ := h.rows
  simp only [RemoteFolder.firstFolder, Drive.children, h.resolve, hnew, List.filter_append,
    List.find?_append] at hf ⊢
  rw [hf, Option.some_or]

/-- An object that is created is added at the end. -/
lemma rows_of_create {mime : String} {content : Option (List UInt8)}
    (h : d.create cur name mime content = (some g, d₁)) :
    d₁.files.table.rows = d.files.table.rows ++ [g] ∧ Appends d d₁ := by
  unfold Drive.create at h
  cases hp : d.file cur with
  | none => simp [hp] at h
  | some p =>
    simp only [hp, Prod.mk.injEq, Option.some.injEq] at h
    obtain ⟨rfl, rfl⟩ := h
    exact ⟨rfl, ⟨_, rfl⟩, rfl⟩

/-- **A folder that was made** is found afterwards. -/
lemma firstFolder_of_create (hnone : firstFolder d cur name = none)
    (h : d.create cur name folderMime none = (some g, d₁)) : firstFolder d₁ cur name = some g := by
  obtain ⟨hmade, hname, hmime, -⟩ := Drive.made_of_create h
  obtain ⟨hrows, happends⟩ := rows_of_create h
  simp only [firstFolder, Drive.children, happends.resolve, hrows, List.filter_append,
    List.find?_append] at hnone ⊢
  rw [hnone, Option.none_or]
  simp [hmade.parents, hmade.live, hname, hmime]

lemma Makes.appends (h : Makes d cur segs ids d') : Appends d d' := by
  induction h with
  | done d cur => exact .refl d
  | found first below ih => exact ih
  | made first create below ih => exact (rows_of_create create).2.trans ih

lemma Makes.length (h : Makes d cur segs ids d') : ids.length = segs.length := by
  induction h with
  | done d cur => rfl
  | found first below ih => simp [ih]
  | made first create below ih => simp [ih]

end Chains

/-! ## The walk -/

/-- The paths at which the walk writes a row. -/
def OnWay (cum : RelPath) (segs : List String) (p : RelPath) : Prop :=
  ∃ q, q ≠ [] ∧ q <+: segs ∧ p = cum ++ q

/-- The walk finds all that it wants: at each segment a folder, and a row that is bound to it. -/
def Ready (w : World) : FileId → RelPath → List String → List FileId → Prop
  | _, _, [], ids => ids = []
  | _, _, _ :: _, [] => False
  | cur, cum, seg :: rest, id :: ids =>
    (∃ f, firstFolder w.remote.drive cur seg = some f ∧ id = .id f.num) ∧
    (∃ r ∈ w.db.items, r.relativePath = cum ++ [seg] ∧ r.kind = .dir ∧ r.remoteId = some id) ∧
    Ready w id (cum ++ [seg]) rest ids

section Walk

/-- The answer of a listing that is searched. -/
lemma find_listed (md5 : Bytes → String) (d : Drive) (cur : FileId) (seg : String) :
    ((d.children (d.resolve cur)).map (Drive.resource md5)).find?
      (fun c => c.isFolder && c.name = seg) = (firstFolder d cur seg).map (Drive.resource md5) := by
  rw [List.find?_map]
  rfl

/-- A folder that is found. -/
lemma run_childFolder_found (hcalm : Calm w) (hfirst : firstFolder w.remote.drive cur seg = some f) :
    runTask env (childFolder cur seg) w = (.ok (.id f.num), w) := by
  obtain ⟨db, fs, ⟨d, faults⟩, inFlight, now, jitters⟩ := w
  obtain rfl : faults = [] := hcalm
  simp only at hfirst
  simp only [childFolder, request, Prog.bind_eq, Prog.call_bind, runTask, Prog.run, handle_drive,
    Remote.send_of_no_faults, DriveCall.run, Prog.ofExcept_ok, Prog.pure_bind, find_listed, hfirst]
  rfl

/-- A folder that is made, when no request fails. -/
lemma run_childFolder_made (hcalm : Calm w) (hcur : (w.remote.drive.file cur).isSome)
    (hfirst : firstFolder w.remote.drive cur seg = none) :
    ∃ g d₁, w.remote.drive.create cur seg folderMime none = (some g, d₁) ∧
      runTask env (childFolder cur seg) w = (.ok (.id g.num), { w with remote := ⟨d₁, []⟩ }) := by
  obtain ⟨db, fs, ⟨d, faults⟩, inFlight, now, jitters⟩ := w
  obtain rfl : faults = [] := hcalm
  simp only at hfirst hcur
  cases hmade : d.create cur seg folderMime none with
  | mk x d₁ =>
    cases x with
    | none =>
      obtain ⟨p, hp⟩ := Option.isSome_iff_exists.mp hcur
      simp [Drive.create, hp] at hmade
    | some g =>
      refine ⟨g, d₁, rfl, ?_⟩
      simp only [childFolder, request, Prog.bind_eq, Prog.call_bind, runTask, Prog.run, handle_drive,
        Remote.send_of_no_faults, DriveCall.run, Prog.ofExcept_ok, Prog.pure_bind, find_listed,
        hfirst, Option.map_none, Engine.createDirRemote, hmade, Prog.pure_eq]
      rfl

/-- **A row is bound**: the one at the path, or a new one for a directory. -/
lemma run_persistDir (w : World) (rel : RelPath) (rid : FileId) :
    ∃ db, runTask env (persistDir rel rid) w = (.ok (), { w with db := db }) ∧
      (∃ r ∈ db.items, r.relativePath = rel ∧ r.remoteId = some rid ∧
        (r.kind = .dir ∨ ∃ s ∈ w.db.items, s.relativePath = rel ∧ r.kind = s.kind)) ∧
      (∀ s : SyncItem, s.relativePath ≠ rel → (s ∈ db.items ↔ s ∈ w.db.items)) ∧
      db.ops = w.db.ops := by
  simp only [persistDir, sql, sqlTry, Prog.lift, Prog.bind_eq, Prog.call_bind, Prog.pure_bind, runTask,
    Prog.run, handle_db, DbCall.run]
  cases hrow : w.db.items.getByRelativePath rel with
  | some existing =>
    obtain ⟨hexisting, hpath⟩ := ItemTable.getByRelativePath_eq_some.mp hrow
    simp only
    split_ifs with hdiffers
    · refine ⟨_, rfl, ⟨{ existing with remoteId := some rid }, ?_, hpath, rfl,
        .inr ⟨existing, hexisting, hpath, rfl⟩⟩, fun s hs => ?_, DbCall.ops_run_eq rfl rfl⟩
      · simp only [DbCall.run, Db.items_withItems, ItemTable.mem_modify]
        exact .inr ⟨existing, hexisting, rfl, rfl⟩
      · simp only [DbCall.run, Db.items_withItems, ItemTable.mem_modify]
        constructor
        · rintro (⟨hmem, -⟩ | ⟨s', hs', hid, rfl⟩)
          · exact hmem
          · obtain rfl := ItemTable.id_inj hs' hexisting hid
            exact absurd hpath hs
        · refine fun hmem => .inl ⟨hmem, fun hid => ?_⟩
          obtain rfl := ItemTable.id_inj hmem hexisting hid
          exact hs hpath
    · exact ⟨w.db, rfl, ⟨existing, hexisting, hpath, not_not.mp hdiffers,
        .inr ⟨existing, hexisting, hpath, rfl⟩⟩, fun _ _ => Iff.rfl, rfl⟩
  | none =>
    obtain ⟨hok, hmem⟩ := @Db.insertItem_of_free w.db (syncedDir rel rid) hrow
    have hops : (DbCall.run (.insertItem (syncedDir rel rid)) w.db).2.ops = w.db.ops :=
      DbCall.ops_run_eq rfl rfl
    simp only [Prog.run, handle_db, DbCall.run, hok, Prog.ofExcept_ok, Prog.pure_bind, Prog.pure_eq]
    refine ⟨_, rfl, ⟨_, (hmem _).mpr (.inr rfl), rfl, rfl, .inl rfl⟩, fun s hs => ?_, hops⟩
    rw [hmem]
    refine ⟨fun h => h.resolve_right ?_, .inl⟩
    rintro rfl
    exact hs rfl

lemma OnWay.tail {p : RelPath} (h : OnWay (cum ++ [seg]) rest p) : OnWay cum (seg :: rest) p := by
  obtain ⟨q, -, hq, rfl⟩ := h
  exact ⟨seg :: q, by simp, List.cons_prefix_cons.mpr ⟨rfl, hq⟩, by simp⟩

lemma OnWay.ne {p : RelPath} (h : OnWay cum segs p) : p ≠ cum := by
  obtain ⟨q, hne, -, rfl⟩ := h
  simpa using hne

lemma onWay_head : OnWay cum (seg :: rest) (cum ++ [seg]) :=
  ⟨[seg], by simp, by simp, rfl⟩

/-- Of the world after a walk. -/
structure Walked (cur : FileId) (cum : RelPath) (segs : List String) (ids : List FileId)
    (w w' : World) : Prop where
  calm : Calm w'
  makes : Makes w.remote.drive cur segs ids w'.remote.drive
  ready : Ready w' cur cum segs ids
  others : ∀ s : SyncItem, ¬OnWay cum segs s.relativePath → (s ∈ w'.db.items ↔ s ∈ w.db.items)
  aside : w'.fs = w.fs ∧ w'.db.ops = w.db.ops

/-- **The walk** makes a chain of folders, and leaves it ready.

**Proof sketch.** By induction on the segments. The folder of the first segment is still the first of
its name when the rest of the chain was made, since objects are only added at the end of a listing,
and its row is not on the way of the rest. -/
lemma run_ensureSegments (segs : List String) (cur : FileId) (cum : RelPath) (hcalm : Calm w)
    (hcur : (w.remote.drive.file cur).isSome)
    (hdirs : ∀ r ∈ w.db.items, OnWay cum segs r.relativePath → r.kind = .dir) :
    ∃ ids w', runTask env (ensureSegments cur cum segs) w = (.ok (ids.getLastD cur), w') ∧
      Walked cur cum segs ids w w' := by
  induction segs generalizing w cur cum with
  | nil => exact ⟨[], w, rfl, hcalm, .done _ _, rfl, fun _ _ => Iff.rfl, rfl, rfl⟩
  | cons seg rest ih =>
    -- the folder of the segment, with what the listing and the creation leave
    obtain ⟨f, d₁, hchild, hmem, hfirst₁, hmakes⟩ : ∃ f d₁,
        runTask env (childFolder cur seg) w = (.ok (.id f.num), { w with remote := ⟨d₁, []⟩ }) ∧
        f ∈ d₁.files ∧ firstFolder d₁ cur seg = some f ∧
        ∀ ids d', Makes d₁ (.id f.num) rest ids d' →
          Makes w.remote.drive cur (seg :: rest) (.id f.num :: ids) d' := by
      cases hfirst : firstFolder w.remote.drive cur seg with
      | some f =>
        have hsame : { w with remote := ⟨w.remote.drive, []⟩ } = w := by
          obtain ⟨db, fs, ⟨d, faults⟩, inFlight, now, jitters⟩ := w
          obtain rfl : faults = [] := hcalm
          rfl
        exact ⟨f, w.remote.drive, by rw [run_childFolder_found hcalm hfirst, hsame],
          (firstFolder_eq_some hfirst).1, hfirst, fun ids d' => .found hfirst⟩
      | none =>
        obtain ⟨g, d₁, hcreate, hrun⟩ := @run_childFolder_made env _ _ _ hcalm hcur hfirst
        have hfound := firstFolder_of_create hfirst hcreate
        exact ⟨g, d₁, hrun, (firstFolder_eq_some hfound).1, hfound,
          fun ids d' => .made hfirst hcreate⟩
    obtain ⟨db, hpersist, ⟨r, hr, hrel, hrid, hkind⟩, hothers, hops⟩ :=
      @run_persistDir env { w with remote := ⟨d₁, []⟩ } (cum ++ [seg]) (.id f.num)
    have hdir : r.kind = .dir := by
      rcases hkind with hkind | ⟨s, hs, hsrel, hkind⟩
      · exact hkind
      · exact hkind.trans (hdirs s hs (hsrel ▸ onWay_head))
    have hfile : (d₁.file (.id f.num)).isSome := by
      show (d₁.files.get f.num).isSome = true
      rw [Data.Serial.get_eq_some.mpr ⟨hmem, rfl⟩]
      rfl
    obtain ⟨ids, w', hrest, hwalk⟩ := @ih { w with remote := ⟨d₁, []⟩, db := db } (.id f.num)
      (cum ++ [seg]) rfl hfile fun s hs hway => hdirs s ((hothers s hway.ne).mp hs) hway.tail
    refine ⟨.id f.num :: ids, w', ?_, hwalk.calm, hmakes _ _ hwalk.makes, ⟨⟨f, ?_, rfl⟩,
      ⟨r, ?_, hrel, hdir, hrid⟩, hwalk.ready⟩, fun s hs => ?_, hwalk.aside.1,
      hwalk.aside.2.trans hops⟩
    · rw [ensureSegments, Prog.bind_eq, runTask, Prog.run_bind_ok _ hchild, Prog.bind_eq,
        Prog.run_bind_ok _ hpersist, List.getLastD_cons]
      exact hrest
    · exact hwalk.makes.appends.firstFolder hfirst₁
    · exact (hwalk.others r fun hway => hway.ne hrel).mpr hr
    · rw [hwalk.others s fun hway => hs hway.tail]
      exact hothers s fun hrel => hs (hrel ▸ onWay_head)

/-- **A walk that is ready** changes nothing. -/
lemma run_ready (segs : List String) (cur : FileId) (cum : RelPath) (ids : List FileId)
    (hcalm : Calm w) (h : Ready w cur cum segs ids) :
    runTask env (ensureSegments cur cum segs) w = (.ok (ids.getLastD cur), w) := by
  induction segs generalizing cur cum ids with
  | nil =>
    obtain rfl : ids = [] := h
    rfl
  | cons seg rest ih =>
    cases ids with
    | nil => exact h.elim
    | cons id ids =>
      obtain ⟨⟨f, hfirst, rfl⟩, ⟨r, hr, hrel, -, hrid⟩, hready⟩ := h
      have hchild : runTask env (childFolder cur seg) w = (.ok (.id f.num), w) :=
        run_childFolder_found hcalm hfirst
      have hpersist : runTask env (persistDir (cum ++ [seg]) (.id f.num)) w = (.ok (), w) := by
        have hget : w.db.items.getByRelativePath (cum ++ [seg]) = some r :=
          ItemTable.getByRelativePath_eq_some.mpr ⟨hr, hrel⟩
        simp [persistDir, sql, Prog.lift, DbCall.run, hget, hrid]
      rw [ensureSegments, Prog.bind_eq, runTask, Prog.run_bind_ok _ hchild, Prog.bind_eq,
        Prog.run_bind_ok _ hpersist, List.getLastD_cons]
      exact ih _ _ _ hready

end Walk

/-! ## What was there before -/

/-- The folders of a chain from the one with index `k` on were made, and the ones before it were
there: the `k`-th folder does not have the segment that comes next. -/
structure Created (d d' : Drive) (root : FileId) (rel : RelPath) (ids : List FileId) (k : ℕ) :
    Prop where
  existed : ∀ i id, i < k → ids[i]? = some id → FolderAt d root (rel.take (i + 1)) (d.resolve id)
  missing : ∀ seg, rel[k]? = some seg →
    ∃ parent, (root :: ids)[k]? = some parent ∧ firstFolder d parent seg = none
  made : ∃ new : List DriveFile, d'.files.table.rows = d.files.table.rows ++ new ∧
    new.map (fun f => FileId.id f.num) = ids.drop k

section Created

/-- The first folder of a name in a folder lies at the path of the folder and the name. -/
lemma folderAt_first (hfirst : firstFolder d cur seg = some f)
    (hcur : FolderAt d root cum (d.resolve cur)) : FolderAt d root (cum ++ [seg]) f.num := by
  obtain ⟨hmem, hparent, hlive, hfolder, rfl⟩ := firstFolder_eq_some hfirst
  exact hcur.child hmem hparent hlive hfolder

/-- **The places of a walk** that is ready, and its rows. -/
lemma Ready.places {i : ℕ} {id : FileId} (h : Ready w cur cum segs ids)
    (hcur : FolderAt w.remote.drive root cum (w.remote.drive.resolve cur)) (hid : ids[i]? = some id) :
    FolderAt w.remote.drive root (cum ++ segs.take (i + 1)) (w.remote.drive.resolve id) ∧
      ∃ r ∈ w.db.items, r.relativePath = cum ++ segs.take (i + 1) ∧ r.kind = .dir ∧
        r.remoteId = some id := by
  induction segs generalizing cur cum ids i with
  | nil =>
    obtain rfl : ids = [] := h
    cases hid
  | cons seg rest ih =>
    cases ids with
    | nil => exact h.elim
    | cons id' ids =>
      obtain ⟨⟨f, hfirst, rfl⟩, hrow, hready⟩ := h
      have hplace : FolderAt w.remote.drive root (cum ++ [seg])
          (w.remote.drive.resolve (.id f.num)) := folderAt_first hfirst hcur
      cases i with
      | zero =>
        obtain rfl : FileId.id f.num = id := by simpa using hid
        exact ⟨hplace, hrow⟩
      | succ i =>
        have hbelow := ih hready hplace (by simpa using hid)
        simpa using hbelow

/-- An object that was made has no children. -/
lemma bare_of_made {m : ℕ} (hgrounded : d.Grounded) (hmade : Drive.Made d m g d₁)
    (hf : f ∈ d₁.files) : d₁.resolve (.id g.num) ∉ f.parents := by
  intro hparent
  rcases (hmade.mem f).mp hf with hf | rfl
  · have hlt := hgrounded f hf _ hparent
    exact absurd hlt (Nat.not_lt.mpr (Nat.le_of_eq hmade.num.symm))
  · rw [hmade.parents, List.mem_singleton] at hparent
    have hnum : f.num = m := hparent
    exact absurd hmade.folder (Nat.not_lt.mpr (by rw [← hnum, hmade.num]))

/-- A folder without children gets a new chain. -/
lemma Makes.all_made (h : Makes d cur segs ids d') (hgrounded : d.Grounded)
    (hbare : ∀ f ∈ d.files, d.resolve cur ∉ f.parents) :
    ∃ new : List DriveFile, d'.files.table.rows = d.files.table.rows ++ new ∧
      new.map (fun f => FileId.id f.num) = ids := by
  induction h with
  | done d cur => exact ⟨[], by simp, rfl⟩
  | found first below ih =>
    obtain ⟨hmem, hparent, -⟩ := firstFolder_eq_some first
    exact absurd hparent (hbare _ hmem)
  | @made d d₁ d' cur seg rest ids g first create below ih =>
    obtain ⟨hmade, -⟩ := Drive.made_of_create create
    obtain ⟨new, hnew, hids⟩ := ih (hmade.grounded hgrounded) fun f hf => bare_of_made hgrounded hmade hf
    refine ⟨g :: new, ?_, by rw [List.map_cons, hids]⟩
    rw [hnew, (rows_of_create create).1, List.append_assoc, List.singleton_append]

/-- **What a chain adds** to the tree. -/
lemma Makes.created (h : Makes d cur segs ids d') (hgrounded : d.Grounded) :
    ∃ k ≤ segs.length,
      (∀ root cum i id, FolderAt d root cum (d.resolve cur) → i < k → ids[i]? = some id →
        FolderAt d root (cum ++ segs.take (i + 1)) (d.resolve id)) ∧
      (∀ seg, segs[k]? = some seg →
        ∃ parent, (cur :: ids)[k]? = some parent ∧ firstFolder d parent seg = none) ∧
      ∃ new : List DriveFile, d'.files.table.rows = d.files.table.rows ++ new ∧
        new.map (fun f => FileId.id f.num) = ids.drop k := by
  induction h with
  | done d cur => exact ⟨0, Nat.le_refl _, by simp, by simp, [], by simp, rfl⟩
  | @found d d' cur seg rest ids f first below ih =>
    obtain ⟨k, hk, hexisted, hmissing, new, hnew, hids⟩ := ih hgrounded
    refine ⟨k + 1, Nat.succ_le_succ hk, fun root cum i id hcur hi hid => ?_,
      fun seg' hseg => ?_, new, hnew, hids⟩
    · have hplace : FolderAt d root (cum ++ [seg]) (d.resolve (.id f.num)) :=
        folderAt_first first hcur
      cases i with
      | zero =>
        obtain rfl : FileId.id f.num = id := by simpa using hid
        exact hplace
      | succ i =>
        have hbelow := hexisted root (cum ++ [seg]) i id hplace (Nat.lt_of_succ_lt_succ hi)
          (by simpa using hid)
        simpa using hbelow
    · obtain ⟨parent, hparent, hnone⟩ := hmissing seg' (by simpa using hseg)
      exact ⟨parent, by simpa using hparent, hnone⟩
  | @made d d₁ d' cur seg rest ids g first create below ih =>
    obtain ⟨hmade, -⟩ := Drive.made_of_create create
    obtain ⟨new, hnew, hids⟩ := below.all_made (hmade.grounded hgrounded)
      fun f hf => bare_of_made hgrounded hmade hf
    refine ⟨0, Nat.zero_le _, fun _ _ _ _ _ hi => absurd hi (Nat.not_lt_zero _),
      fun seg' hseg => ⟨cur, rfl, ?_⟩, g :: new, ?_, by rw [List.map_cons, hids, List.drop_zero]⟩
    · obtain rfl : seg = seg' := by simpa using hseg
      exact first
    · rw [hnew, (rows_of_create create).1, List.append_assoc, List.singleton_append]

/-- **No folder was at the path** of one that was made, if no two folders have one path. -/
lemma Created.fresh {k j n : ℕ} (h : Created d d' root rel ids k)
    (hone : ∀ p m n, FolderAt d root p m → FolderAt d root p n → m = n) (hk : k ≤ j)
    (hj : j < rel.length) : ¬FolderAt d root (rel.take (j + 1)) n := by
  intro hat
  obtain ⟨m, hm⟩ := Drive.folderAt_of_prefix hat
    (List.take_prefix_take_left (l := rel) (Nat.succ_le_succ hk))
  have hseg : rel[k]? = some rel[k] := List.getElem?_eq_getElem (by omega)
  have hsplit : rel.take (k + 1) = rel.take k ++ [rel[k]] := by
    rw [List.take_add_one, hseg, Option.toList_some]
  rw [hsplit] at hm
  obtain ⟨a, ha, c, hc, hparent, hlive, hfolder, hname, -⟩ := Drive.folderAt_concat.mp hm
  obtain ⟨parent, hget, hnone⟩ := h.missing _ hseg
  have hplace : FolderAt d root (rel.take k) (d.resolve parent) := by
    cases k with
    | zero =>
      obtain rfl : root = parent := by simpa using hget
      exact .root
    | succ k => exact h.existed k parent (Nat.lt_succ_self k) (by simpa using hget)
  obtain rfl := hone _ _ _ ha hplace
  exact firstFolder_eq_none.mp hnone c hc hparent hlive hfolder hname

end Created

lemma grounded_sampleNested : sampleNested.Grounded := by
  have hrows : ∀ f ∈ sampleNested.files.table.rows, ∀ n ∈ f.parents, n < 5 := by decide
  exact hrows

end AirDrive.RemoteFolder
