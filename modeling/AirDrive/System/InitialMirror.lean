import AirDrive.System.Calls
import AirDrive.System.InitialPlaces

set_option relaxedAutoImplicit false
set_option autoImplicit false

/-!
# The initial pass mirrors the directories

The loop over the directories looks the parent of each one up in a map from paths to ids, which is
filled from the remote walk and by the loop itself, and takes the mapped folder when the parent is
missing. The order of the paths makes sure that it never is: what the pass puts on Drive goes into
the folder at its own parent path.

## Main definitions

* `AirDrive.InitialMirror.planUploads`, `AirDrive.InitialMirror.transfer` — the pass after its loop
  over the directories.
* `AirDrive.InitialMirror.Put`, `AirDrive.InitialMirror.puts` — what a call puts on Drive.
* `AirDrive.InitialMirror.Put.At` — it is put into the folder at its own parent path.

## Main results

* `AirDrive.InitialMirror.prefixes_before` — the paths come after all their prefixes.
* `AirDrive.InitialMirror.reaches` — what the loop knows when it comes to a directory.
* `AirDrive.InitialMirror.initial_mirrors_directories`.
-/

namespace AirDrive.InitialMirror

open Effect Initial InitialPlaces Calls

variable {env : Env} {fuel : ℕ} {root : FileId} {w w₁ w₂ w₃ : World} {ids : FolderIds}
  {locals : List Fs.LocalEntry} {remotes : List RemoteEntry} {pre post : List RelPath} {dir : RelPath}

/-! ## The parts of the pass -/

/-- The pass between its loop over the directories and the transfers. -/
def planUploads (env : Env) (root : FileId) (ids : FolderIds) (localFiles : List Fs.LocalEntry)
    (remoteFiles : List RemoteEntry) : Task (List Engine.BulkUpload) := do
  .forEach remoteFiles writeShortcut
  .foldM localFiles (planUpload env root ids remoteFiles) []

/-- The pass from the transfers on. -/
def transfer (env : Env) (fuel : ℕ) (root : FileId) (localFiles : List Fs.LocalEntry)
    (remoteFiles : List RemoteEntry) (uploads : List Engine.BulkUpload) : Task Unit := do
  let downloads := planDownloads env localFiles remoteFiles
  .forEach localFiles (recordEqual env remoteFiles)
  Engine.bulkDownload (downloads.map fun d => ⟨d.1.id, d.1.relativePath⟩)
  Engine.bulkUpload uploads
  .forEach downloads fun d => recordSyncedItem d.1.relativePath d.1.id d.1.size d.2
  recordUploads fuel root uploads
  let token ← request .startPageToken
  sql (.setCursor token)

/-- The entries of local files. -/
def localFiles (locals : List Fs.LocalEntry) : List Fs.LocalEntry :=
  locals.filter fun e => !e.isDir

/-- The entries of remote files. -/
def remoteFiles (remotes : List RemoteEntry) : List RemoteEntry :=
  remotes.filter fun e => !e.isDir

/-- What is put on Drive. -/
structure Put where
  /-- Drive before that. -/
  drive : Drive
  /-- The folder that it is put into. -/
  parent : FileId
  /-- Its name. -/
  name : String
  /-- `true` for folders. -/
  isDir : Bool

/-- What a call puts on Drive. -/
def puts : ∀ β, Call β → World → List Put
  | _, .drive (.createFolder parent name), w => [⟨w.remote.drive, parent, name, true⟩]
  | _, .drive (.uploadMultipart parent name _ _), w => [⟨w.remote.drive, parent, name, false⟩]
  | _, _, _ => []

/-- A local entry is put into the folder at its own parent path, under its own name. -/
structure Put.At (root : FileId) (e : Fs.LocalEntry) (put : Put) : Prop where
  kind : put.isDir = e.isDir
  name : put.name = e.relativePath.splitParent.2
  folder : FolderAt put.drive root e.relativePath.splitParent.1 (put.drive.resolve put.parent)

section Parts

/-- **The pass after the walks**, part by part. -/
lemma afterWalks_parts : afterWalks env fuel root locals remotes =
    (reconcileDirs root locals remotes).bind fun ids =>
      (planUploads env root ids (localFiles locals) (remoteFiles remotes)).bind fun uploads =>
        transfer env fuel root (localFiles locals) (remoteFiles remotes) uploads := by
  simp only [afterWalks, planUploads, transfer, localFiles, remoteFiles, Prog.bind_eq,
    Prog.bind_assoc]

lemma puts_of_putless {β : Type} {c : Call β} (hc : putless c = true) (w : World) :
    puts β c w = [] := by
  cases c with
  | drive c => cases c <;> first | rfl | cases hc
  | _ => rfl

lemma trace_request {α : Type} (c : DriveCall α) :
    (request c).trace (handle env) puts w = puts _ (.drive c) w := by
  simp [request]

/-- What only looks at Drive puts nothing there. -/
lemma not_put_of_looks {α : Type} {P : NewSyncItem → Prop} {q : Task α} {put : Put}
    (hq : q.Only fun _ c => Looks P c) : put ∉ q.trace (handle env) puts w := by
  rw [hq.trace_eq_nil fun _ _ w hc => puts_of_putless hc.2 w]
  exact List.not_mem_nil

end Parts

/-! ## The order of the directories -/

/-- Every path comes after all its proper prefixes. -/
def PrefixesFirst (dirs : List RelPath) : Prop :=
  ∀ pre dir post, dirs = pre ++ dir :: post → ∀ q, q ≠ [] → q <+: dir → q ≠ dir → q ∈ pre

section Order

/-- **Parents first is prefixes first.** -/
lemma prefixes_of_parents {dirs : List RelPath} (h : ParentsFirst (· = []) dirs) :
    PrefixesFirst dirs := by
  intro pre dir post hsplit q hq hle hne
  induction hlen : dir.length generalizing pre dir post with
  | zero => exact absurd (List.prefix_nil.mp (List.length_eq_zero_iff.mp hlen ▸ hle)) hq
  | succ n ih =>
    obtain ⟨hdir, hparent⟩ := h pre dir post hsplit
    have hshort : q <+: dir.dropLast := by
      refine List.prefix_of_prefix_length_le hle (List.dropLast_prefix dir) ?_
      have hlt : q.length < dir.length :=
        lt_of_le_of_ne hle.length_le fun heq => hne (hle.eq_of_length heq)
      rw [List.length_dropLast]
      omega
    have hmem : dir.dropLast ∈ pre := by
      refine hparent.resolve_left fun hnil => hq ?_
      rw [hnil] at hshort
      exact List.prefix_nil.mp hshort
    by_cases heq : q = dir.dropLast
    · exact heq ▸ hmem
    · -- the parent comes before the directory, and its prefixes before the parent
      obtain ⟨pre', post', rfl⟩ := List.append_of_mem hmem
      have hbefore := ih pre' dir.dropLast (post' ++ dir :: post) (by simp [hsplit]) hshort heq
        (by rw [List.length_dropLast, hlen, Nat.add_sub_cancel])
      exact List.mem_append_left _ hbefore

lemma keeps_any : Keeps env root (fun _ => True) fun _ => True :=
  ⟨fun _ _ => trivial, fun _ _ _ _ _ => trivial⟩

/-- What a run ends with. -/
lemma post_of_run {α : Type} {q : Task α} {Q : Except Error α → World → Prop} {x : Except Error α}
    (hq : q.Safe (handle env) (.solo fun _ => True) Q w) (hrun : runTask env q w = (x, w₁)) :
    Q x w₁ := by
  have hpost := (hq.run trivial).2
  rw [runTask] at hrun
  rwa [hrun] at hpost

/-- The directories of both sides come after all their prefixes. -/
lemma prefixes_before {known : RelPath → Prop} {fs : Fs} {d : Drive}
    (hremotes : Walked env known d root remotes) : PrefixesFirst (dirPaths (fs.walk []) remotes) := by
  refine prefixes_of_parents fun pre dir post hsplit => ?_
  obtain ⟨hdir, hparent⟩ := parentsFirst_dirPaths hremotes (leads_top d root) pre dir post hsplit
  refine ⟨hdir, hparent.imp_left fun hknown => ?_⟩
  by_contra hne
  exact hknown (Data.FinMap.val_set_ne _ _ hne)

end Order

/-! ## What the loop knows -/

/-- The id that the pass takes for the folder above a path. -/
structure ParentFound (root : FileId) (ids : FolderIds) (d : Drive) (p : RelPath) (id : FileId) :
    Prop where
  /-- The map has it, so that the mapped folder does not stand in for a missing one. -/
  found : ids.val p.splitParent.1 = some id
  /-- The folder at the parent path has this id. -/
  folder : FolderAt d root p.splitParent.1 (d.resolve id)
  /-- It is the mapped folder for an entry at the root. -/
  top : p.splitParent.1 = [] → id = root

section Loop

lemma ParentFound.mono {d d' : Drive} {p : RelPath} {id : FileId} (h : ParentFound root ids d p id)
    (hext : d.Extends d') : ParentFound root ids d' p id := by
  refine ⟨h.found, ?_, h.top⟩
  rw [hext.resolve]
  exact hext.folderAt h.folder

lemma parentFound_of_leads {d : Drive} {p : RelPath} (h : Leads d root ids)
    (hp : ids.val p.splitParent.1 ≠ none) :
    ParentFound root ids d p ((ids.val p.splitParent.1).getD root) := by
  obtain ⟨id, hid⟩ := Option.ne_none_iff_exists'.mp hp
  refine ⟨by rw [hid]; rfl, h.folderAt hp, fun htop => ?_⟩
  rw [htop, h.top]
  rfl

/-- What the walk of the remote tree answers. -/
lemma walked_of_run (hwalk : runTask env (walkRemote fuel root) w = (.ok remotes, w₁)) :
    Walked env (fun _ => True) w₁.remote.drive root remotes := by
  obtain ⟨-, -, hdrive, hout⟩ :=
    post_of_run (@safe_walkRemote env root _ (fun _ => True) _ w keeps_any (fun _ _ _ => trivial) _)
      hwalk
  rw [hdrive]
  exact hout remotes rfl

/-- The loop over the first directories. -/
lemma leads_of_run {fs : Fs} (hremotes : Walked env (fun _ => True) w₁.remote.drive root remotes)
    (hsplit : dirPaths (fs.walk []) remotes = pre ++ post)
    (hrun : runTask env (.foldM pre (reconcileDir root) (folderIds root remotes)) w₁ = (.ok ids, w₂)) :
    Leads w₂.remote.drive root ids ∧
      ∀ p, p ∈ pre ∨ (folderIds root remotes).val p ≠ none → ids.val p ≠ none := by
  have hids := leads_folderIds hremotes.describes
  have hfirst : ParentsFirst (fun p => (folderIds root remotes).val p ≠ none) pre := by
    rintro pre' dir post' rfl
    exact parentsFirst_dirPaths hremotes hids pre' dir (post' ++ post)
      (by rw [hsplit, List.append_assoc, List.cons_append])
  exact (post_of_run (safe_reconcileDirs keeps_any hids hfirst fun _ _ => trivial) hrun).2 ids rfl

/-- **When the loop comes to a directory**, its parent is known. -/
lemma reaches {fs : Fs} (hremotes : Walked env (fun _ => True) w₁.remote.drive root remotes)
    (hsplit : dirPaths (fs.walk []) remotes = pre ++ dir :: post)
    (hrun : runTask env (.foldM pre (reconcileDir root) (folderIds root remotes)) w₁ = (.ok ids, w₂)) :
    ParentFound root ids w₂.remote.drive dir ((ids.val dir.splitParent.1).getD root) := by
  obtain ⟨hleads, hkeys⟩ := leads_of_run hremotes hsplit hrun
  obtain ⟨-, hparent⟩ :=
    parentsFirst_dirPaths hremotes (leads_folderIds hremotes.describes) pre dir post hsplit
  exact parentFound_of_leads hleads (hkeys _ hparent.symm)

/-- The directories that the walk found have ids. -/
lemma folderIds_of_dir {e : RemoteEntry} (he : e ∈ remotes) (hdir : e.isDir = true) :
    (folderIds root remotes).val e.relativePath ≠ none := by
  have hmem : e ∈ remotes.filter (·.isDir) := List.mem_filter.mpr ⟨he, hdir⟩
  unfold folderIds
  generalize remotes.filter (·.isDir) = dirs at hmem
  suffices hkeys : ∀ (ids : FolderIds), e ∈ dirs ∨ ids.val e.relativePath ≠ none →
      (dirs.foldl (fun ids e => ids.set e.relativePath e.id) ids).val e.relativePath ≠ none from
    hkeys _ (.inl hmem)
  clear hmem
  induction dirs with
  | nil => exact fun ids h => h.resolve_left List.not_mem_nil
  | cons e' dirs ih =>
    refine fun ids h => ih _ ?_
    by_cases hpath : e.relativePath = e'.relativePath
    · rw [hpath, Data.FinMap.val_set_self]
      exact .inr (Option.some_ne_none _)
    · rw [Data.FinMap.val_set_ne _ _ hpath]
      refine h.imp_left fun hmem => (List.mem_cons.mp hmem).resolve_left ?_
      rintro rfl
      exact hpath rfl

end Loop

/-! ## What is planned, and what is put on Drive -/

section Puts

variable {put : Put}

/-- **Each upload** is of a local file, and carries what the map says of its parent path. -/
lemma planned : (planUploads env root ids (localFiles locals) (remoteFiles remotes)).Yields
    fun ups => ∀ up ∈ ups, ∃ e ∈ locals, e.isDir = false ∧ up = ⟨e.relativePath,
      (ids.val e.relativePath.splitParent.1).getD root, e.relativePath.splitParent.2⟩ := by
  refine (Prog.yields_true _).bind fun _ _ => Prog.Yields.foldM (by simp) fun e he ups hups => ?_
  unfold planUpload
  split
  · exact hups
  · split
    · exact hups
    · intro existing
      show Prog.Yields _ (if _ then _ else _)
      split
      · exact hups
      · intro up hup
        rcases List.mem_append.mp hup with hup | hup
        · exact hups up hup
        · obtain ⟨hmem, hfile⟩ := List.mem_filter.mp he
          exact ⟨e, hmem, by simpa using hfile, List.mem_singleton.mp hup⟩

/-- What records rows leaves the folders of Drive where they are. -/
lemma extends_of_run {α : Type} {P : NewSyncItem → Prop} {q : Task α} {x : Except Error α}
    (hq : q.Only fun _ c => Records P c) (hrun : runTask env q w = (x, w₁)) :
    w.remote.drive.Extends w₁.remote.drive := by
  have hsafe : q.Safe (handle env) (.solo fun _ => True)
      (fun _ w' => w.remote.drive.Extends w'.remote.drive) w := by
    refine hq.safe (fun β c w' hc _ hext => ⟨trivial, hext.trans ?_⟩) (.refl _)
    cases c with
    | drive c => exact Remote.extends_send hc
    | _ => exact .refl _
  exact post_of_run hsafe hrun

/-- **What the loop over the directories puts** on Drive are the local directories that the walk of
Drive has not found, each in the folder at its own parent path. -/
lemma put_reconcileDirs {fs : Fs}
    (hremotes : Walked env (fun _ => True) w₁.remote.drive root remotes)
    (hput : put ∈ (reconcileDirs root (fs.walk []) remotes).trace (handle env) puts w₁) :
    ∃ e ∈ fs.walk [], put.At root e := by
  obtain ⟨pre, dir, post, ids, w₂, hsplit, hrun, hput⟩ := Prog.mem_trace_foldM (handle env) puts hput
  obtain ⟨-, hkeys⟩ := leads_of_run hremotes hsplit hrun
  have hparent := reaches hremotes hsplit hrun
  rcases (Prog.mem_trace_bind (handle env) puts).mp hput with hput | ⟨⟨id, ids'⟩, w₃, -, hput⟩
  · unfold remoteDir at hput
    cases hval : ids.val dir with
    | some id =>
      rw [hval] at hput
      exact absurd hput List.not_mem_nil
    | none =>
      -- the walk has not found it, so it is a local one
      simp only [hval] at hput
      have hmem : dir ∈ dirPaths (fs.walk []) remotes := by
        rw [hsplit]
        simp
      obtain ⟨e, he, hdir, rfl⟩ := (mem_dirPaths.mp hmem).resolve_right (by
        rintro ⟨e, he, hdir, rfl⟩
        exact hkeys _ (.inr (folderIds_of_dir he hdir)) hval)
      rcases (Prog.mem_trace_bind (handle env) puts).mp hput with hput | ⟨_, _, -, hput⟩
      · rw [Engine.createDirRemote, trace_request, puts] at hput
        obtain rfl := List.mem_singleton.mp hput
        exact ⟨e, he, hdir.symm, rfl, hparent.folder⟩
      · exact absurd hput List.not_mem_nil
  · have hrecord : ((ioTry (.createDirAll dir)).bind fun _ => (recordSyncedDir dir id).bind fun _ =>
        (.pure ids' : Task FolderIds)).Only fun _ c => Looks (fun _ => True) c :=
      (looks_ioTry _).bind fun _ => (looks_recordNew trivial).bind fun _ => trivial
    exact absurd hput (not_put_of_looks hrecord)

/-- **What a bulk upload puts** on Drive. -/
lemma put_bulkUpload {ups : List Engine.BulkUpload}
    (hput : put ∈ (Engine.bulkUpload ups).trace (handle env) puts w) :
    ∃ up ∈ ups, w.remote.drive.Extends put.drive ∧ put.parent = up.remoteParentId ∧
      put.name = up.name ∧ put.isDir = false := by
  obtain ⟨pre, up, post, w₁, rfl, hrun, hput⟩ := Prog.mem_trace_forEach (handle env) puts hput
  have hsent : (Engine.bulkUpload pre).Only fun _ c => Records (fun _ => True) c := records_bulkUpload
  have hread : (ioTry (.readFile up.relPath)).Only fun _ c => Looks (fun _ => True) c := looks_ioTry _
  rcases (Prog.mem_trace_bind (handle env) puts).mp hput with hput | ⟨_, _, -, hput⟩
  · rcases (Prog.mem_trace_bind (handle env) puts).mp hput with hput | ⟨bytes, w₂, hbytes, hput⟩
    · exact absurd hput (not_put_of_looks hread)
    · rw [trace_request, puts] at hput
      obtain rfl := List.mem_singleton.mp hput
      exact ⟨up, by simp, (extends_of_run hsent hrun).trans
        (extends_of_run (records_of_looks hread) hbytes), rfl, rfl, rfl⟩
  · exact absurd hput List.not_mem_nil

/-- **What the pass uploads.** -/
lemma put_transfer {ups : List Engine.BulkUpload}
    (hput : put ∈ (transfer env fuel root (localFiles locals) (remoteFiles remotes) ups).trace
      (handle env) puts w) :
    ∃ up ∈ ups, w.remote.drive.Extends put.drive ∧ put.parent = up.remoteParentId ∧
      put.name = up.name ∧ put.isDir = false := by
  have hequal : (Prog.forEach (localFiles locals) (recordEqual env (remoteFiles remotes))).Only
      fun _ c => Looks (fun _ => True) c :=
    Prog.Only.forEach fun _ _ => looks_recordEqual fun _ _ _ _ => trivial
  have hdown : ∀ items, (Engine.bulkDownload items).Only fun _ c => Looks (fun _ => True) c :=
    fun _ => looks_bulkDownload
  have hrest : ∀ items : List (RemoteEntry × String), ((Prog.forEach items fun d =>
      recordSyncedItem d.1.relativePath d.1.id d.1.size d.2).bind fun _ =>
        (recordUploads fuel root ups).bind fun _ => (request .startPageToken).bind fun token =>
          sql (.setCursor token)).Only fun _ c => Looks (fun _ => True) c := fun items =>
    (Prog.Only.forEach fun _ _ => looks_recordSyncedItem trivial).bind fun _ =>
      (looks_recordUploads fun _ _ _ _ _ => trivial).bind fun _ => (looks_request rfl rfl).bind
        fun _ => ⟨⟨trivial, rfl⟩, fun _ => trivial⟩
  rcases (Prog.mem_trace_bind (handle env) puts).mp hput with hput | ⟨_, w₁, hrun₁, hput⟩
  · exact absurd hput (not_put_of_looks hequal)
  rcases (Prog.mem_trace_bind (handle env) puts).mp hput with hput | ⟨_, w₂, hrun₂, hput⟩
  · exact absurd hput (not_put_of_looks (hdown _))
  rcases (Prog.mem_trace_bind (handle env) puts).mp hput with hput | ⟨_, w₃, -, hput⟩
  · obtain ⟨up, hup, hext, hparent, hname, hfile⟩ := put_bulkUpload hput
    exact ⟨up, hup, ((extends_of_run (records_of_looks hequal) hrun₁).trans
      (extends_of_run (records_of_looks (hdown _)) hrun₂)).trans hext, hparent, hname, hfile⟩
  · exact absurd hput (not_put_of_looks (hrest _))

end Puts

/-! ## The pass -/

section Pass

/-- What is planned is planned with the ids of the folders. -/
lemma parent_of_planned {fs : Fs} {ups : List Engine.BulkUpload} {up : Engine.BulkUpload}
    (hremotes : Walked env (fun _ => True) w₁.remote.drive root remotes)
    (hdirs : runTask env (reconcileDirs root (fs.walk []) remotes) w₁ = (.ok ids, w₂))
    (hplan : runTask env (planUploads env root ids (localFiles (fs.walk [])) (remoteFiles remotes)) w₂ =
      (.ok ups, w₃)) (hup : up ∈ ups) :
    ∃ e ∈ fs.walk [], e.isDir = false ∧ up.relPath = e.relativePath ∧
      up.name = e.relativePath.splitParent.2 ∧
        ParentFound root ids w₃.remote.drive e.relativePath up.remoteParentId := by
  obtain ⟨e, he, hfile, rfl⟩ := planned.run hplan up hup
  have hrecords : (planUploads env root ids (localFiles (fs.walk [])) (remoteFiles remotes)).Only
      fun _ c => Looks (fun _ => True) c :=
    (Prog.Only.forEach fun _ _ => looks_writeShortcut fun _ _ => trivial).bind fun _ =>
      Prog.Only.foldM fun _ _ _ => looks_planUpload
  obtain ⟨hleads, hkeys⟩ := leads_of_run hremotes (List.append_nil _).symm hdirs
  have hparent : ids.val e.relativePath.splitParent.1 ≠ none := by
    rcases (local_parents he).2 with hroot | habove
    · rw [show e.relativePath.splitParent.1 = [] from hroot, hleads.top]
      exact Option.some_ne_none _
    · exact hkeys _ (.inl (mem_dirPaths.mpr (.inl habove)))
  exact ⟨e, he, hfile, rfl, rfl, (parentFound_of_leads hleads hparent).mono
    (extends_of_run (records_of_looks hrecords) hplan)⟩

/-- **The initial pass mirrors the directories.** In every run of the pass, each folder and each file
that it puts on Drive is a local entry that is put into the folder at its own parent path. Once the
remote tree is walked, the directories of both sides come after all their proper prefixes; whenever
the loop comes to a directory, the map has the id of the folder at its parent path; and so it is for
each upload that is planned. The mapped folder is taken for entries at the root only. -/
theorem initial_mirrors_directories (env : Env) (fuel : ℕ) (root : FileId) (w : World) :
    (∀ put ∈ (initial env fuel root).trace (handle env) puts w, ∃ e ∈ w.fs.walk [], put.At root e) ∧
    ∀ remotes w₁, runTask env (walkRemote fuel root) w = (.ok remotes, w₁) →
      PrefixesFirst (dirPaths (w.fs.walk []) remotes) ∧
      (∀ pre dir post ids w₂, dirPaths (w.fs.walk []) remotes = pre ++ dir :: post →
        runTask env (.foldM pre (reconcileDir root) (folderIds root remotes)) w₁ = (.ok ids, w₂) →
          ParentFound root ids w₂.remote.drive dir ((ids.val dir.splitParent.1).getD root)) ∧
      ∀ ids w₂ ups w₃,
        runTask env (reconcileDirs root (w.fs.walk []) remotes) w₁ = (.ok ids, w₂) →
        runTask env (planUploads env root ids (localFiles (w.fs.walk [])) (remoteFiles remotes)) w₂ =
          (.ok ups, w₃) →
          ∀ up ∈ ups, ∃ e ∈ w.fs.walk [], e.isDir = false ∧ up.relPath = e.relativePath ∧
            up.name = e.relativePath.splitParent.2 ∧
              ParentFound root ids w₃.remote.drive e.relativePath up.remoteParentId := by
  refine ⟨fun put hput => ?_, fun remotes w₁ hwalk => ?_⟩
  · rw [initial_eq] at hput
    rcases (Prog.mem_trace_bind (handle env) puts).mp hput with hput | ⟨locals, w₀, hlocals, hput⟩
    · exact absurd hput List.not_mem_nil
    obtain ⟨hfound, rfl⟩ := Prod.mk.inj hlocals
    obtain rfl := Except.ok.inj hfound
    rcases (Prog.mem_trace_bind (handle env) puts).mp hput with hput | ⟨remotes, w₁, hwalk, hput⟩
    · exact absurd hput (not_put_of_looks (@looks_walkRemote (fun _ => True) _ _))
    have hremotes := walked_of_run hwalk
    rw [afterWalks_parts] at hput
    rcases (Prog.mem_trace_bind (handle env) puts).mp hput with hput | ⟨ids, w₂, hdirs, hput⟩
    · exact put_reconcileDirs hremotes hput
    rcases (Prog.mem_trace_bind (handle env) puts).mp hput with hput | ⟨ups, w₃, hplan, hput⟩
    · exact absurd hput (not_put_of_looks (P := fun _ => True)
        ((Prog.Only.forEach fun _ _ => looks_writeShortcut fun _ _ => trivial).bind fun _ =>
          Prog.Only.foldM fun _ _ _ => looks_planUpload))
    obtain ⟨up, hup, hext, hparent, hname, hkind⟩ := put_transfer hput
    obtain ⟨e, he, hfile, -, hown, hfound⟩ := parent_of_planned hremotes hdirs hplan hup
    refine ⟨e, he, hkind.trans hfile.symm, hname.trans hown, ?_⟩
    rw [hparent]
    exact (hfound.mono hext).folder
  · have hremotes := walked_of_run hwalk
    exact ⟨prefixes_before hremotes, fun pre dir post ids w₂ hsplit hrun =>
      reaches hremotes hsplit hrun, fun ids w₂ ups w₃ hdirs hplan up hup =>
        parent_of_planned hremotes hdirs hplan hup⟩

/-- `d` is on Drive; the user has made `d-e`, `d/e` and the file `d/e/f`. -/
def sampleUnmirrored : World :=
  byUser (.writeFile ["d", "e", "f"] [1]) (byUser (.createDirAll ["d-e"])
    (byUser (.createDirAll ["d", "e"]) (World.fresh sampleNested)))

/-- `d-e` comes between `d` and `d/e`, which is made in `d` all the same; the file follows. -/
theorem sample_mirrored :
    (((initial .plain 9 (.id 2)).trace (handle .plain) puts sampleUnmirrored).map fun put =>
      (put.parent, put.name, put.isDir)) =
        [(.id 2, "d-e", true), (.id 3, "e", true), (.id 6, "f", false)] ∧
    ∀ put ∈ (initial .plain 9 (.id 2)).trace (handle .plain) puts sampleUnmirrored,
      ∃ e ∈ sampleUnmirrored.fs.walk [], put.At (.id 2) e :=
  ⟨by decide +kernel, (initial_mirrors_directories .plain 9 (.id 2) sampleUnmirrored).1⟩

end Pass

end AirDrive.InitialMirror
