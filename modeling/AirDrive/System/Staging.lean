import AirDrive.System.Admission

set_option relaxedAutoImplicit false
set_option autoImplicit false

/-!
# The staging area and the synced tree

Partial downloads are staged in a directory of the watched folder. The local walks skip its name
wherever they meet it and the watcher skips the directory, but a remote name is only asked to be one
path component. As long as no path that comes in has this name for a component, the two trees are
apart: nothing that is synced lies in the staging area, and the scan finds every file that is there.

## Main definitions

* `AirDrive.Staging.cleanupOrphans` — the sweep of the staging area.
* `AirDrive.Staging.Apart` — the staging area is no part of the synced tree.
* `AirDrive.Staging.KeepsOut` — a step that brings in no path of the staging area.

## Main results

* `AirDrive.Staging.staging_apart` — in runs of such steps, the two are apart.
-/

namespace AirDrive.Staging

open Effect Dispatcher Admission InitialPlaces

/-! ## The sweep -/

/-- One entry of the sweep: a file is removed, and counted unless that fails. -/
def sweepEntry (acc : ℕ × Fs) (name : String) : ℕ × Fs :=
  if acc.2.isFile [partialDir, name] then
    match acc.2.removeFile [partialDir, name] with
    | .ok fs => (acc.1 + 1, fs)
    | .error _ => acc
  else acc

/-- `cleanup_orphans`: the number of files that were removed, and the tree after it. -/
def cleanupOrphans (fs : Fs) : Except Error (ℕ × Fs) :=
  match fs.node [partialDir] with
  | none => .ok (0, fs)
  | some (.file _) => .error (.io .notADirectory)
  | some .dir => .ok ((fs.children [partialDir]).foldl sweepEntry (0, fs))

/-- The path lies in the staging area. -/
def Staged (p : RelPath) : Prop := p.head? = some partialDir

lemma mem_of_staged {p : RelPath} (h : Staged p) : partialDir ∈ p := List.mem_of_mem_head? h

lemma node_sweepEntry {acc : ℕ × Fs} {name : String} {p : RelPath} (hp : ¬Staged p) :
    (sweepEntry acc name).2.node p = acc.2.node p := by
  unfold sweepEntry
  split
  · split
    · next fs hremoved =>
      unfold Fs.removeFile at hremoved
      split at hremoved
      · cases hremoved
      · cases hremoved
      · split_ifs at hremoved with hne
        obtain rfl := Except.ok.inj hremoved
        refine (Fs.node_removeTree acc.2 hne p).trans (if_neg ?_)
        rintro ⟨rest, rfl⟩
        exact hp rfl
    · rfl
  · rfl

/-- **The sweep** leaves everything outside the staging area alone. -/
lemma node_cleanupOrphans {fs fs' : Fs} {n : ℕ} {p : RelPath} (hp : ¬Staged p)
    (h : cleanupOrphans fs = .ok (n, fs')) : fs'.node p = fs.node p := by
  have hloop : ∀ (names : List String) (acc : ℕ × Fs),
      (names.foldl sweepEntry acc).2.node p = acc.2.node p := by
    intro names
    induction names with
    | nil => exact fun _ => rfl
    | cons name names ih => exact fun acc => (ih _).trans (node_sweepEntry hp)
  unfold cleanupOrphans at h
  split at h
  · cases h
    rfl
  · cases h
  · have hend := Except.ok.inj h
    rw [← hloop (fs.children [partialDir]) (0, fs), hend]

/-! ## What is synced -/

/-- The directories that an operation makes, on disk or on Drive. -/
def dirsOf (item : SyncItem) (op : PendingOperation) : List RelPath :=
  match op.op, op.payload with
  | .createDirLocal, _ => [item.relativePath]
  | .createDirRemote, _ => [item.relativePath]
  | .download, some (.download dl) => [dl.relativePath.parentDir]
  | .writeShortcut, _ => [item.relativePath.parentDir]
  | .renameLocal, some (.rename p) => [p.newRelativePath.parentDir]
  | .renameRemote, some (.rename p) => [p.newRelativePath.parentDir]
  | .upload, _ => [item.relativePath.parentDir]
  | _, _ => []

/-- The staging area is no part of the synced tree: no row, no download and no directory of an
operation lies in it, the sweep removes nothing that is tracked, and to the startup scan a tracked
file is gone only when it is not on disk. -/
structure Apart (env : Env) (w : World) : Prop where
  rows : ∀ r ∈ w.db.items, ¬Staged r.relativePath
  downloads : ∀ o ∈ w.db.ops, ∀ dl, o.payload = some (.download dl) → ¬Staged dl.relativePath
  dirs : ∀ o ∈ w.db.ops, ∀ r ∈ w.db.items, r.id = o.syncItemId → ∀ p ∈ dirsOf r o, ¬Staged p
  swept : ∀ n fs, cleanupOrphans w.fs = .ok (n, fs) → ∀ r ∈ w.db.items,
    fs.node r.relativePath = w.fs.node r.relativePath
  scanned : ∀ r ∈ w.db.items, StartupScan.vanished env (w.fs.walk []) r = true →
    w.fs.isFile r.relativePath = false

/-- The paths of an event at which something is recorded. -/
def recorded : WatchEvent → Option RelPath
  | .created p => some p
  | .modified p => some p
  | .deleted _ => none
  | .renamed _ to' => some to'

/-- No path that comes in has the name of the staging area for a component: that of an event, that
of a change, or that of an object that the initial pass walks. -/
def KeepsOut (w : World) : Action → Prop
  | .job (.event ev) _ => ∀ p, recorded ev = some p → partialDir ∉ p
  | .job (.batch b) _ => ∀ c ∈ b.changes, ∀ file, c.file = some file → partialDir ∉ c.path file
  | .job (.initial _ root) _ => ∀ p f, Lies w.remote.drive root p f → partialDir ∉ p
  | _ => True

/-- The rules that keep the name out. -/
def rules : Rules where
  row _ p := partialDir ∉ p
  base p := partialDir ∉ p
  rebase _ hrow hbase := by
    simp only [List.mem_append, not_or] at hrow ⊢
    exact ⟨hbase, hrow.2⟩
  above _ hrow := by
    simp only [List.mem_append, not_or] at hrow
    exact hrow.1

section Paths

variable {env : Env} {w : World}

/-- No pointer file has the name. -/
lemma partialDir_ne_pointer (name mime : String) :
    partialDir ≠ name ++ "." ++ Shortcut.extension mime := by
  intro h
  have hsuffix : ("." ++ Shortcut.extension mime).toList <:+ partialDir.toList := by
    rw [h, String.append_assoc, String.toList_append (s := name)]
    exact List.suffix_append _ _
  unfold Shortcut.extension at hsuffix
  split at hsuffix <;> exact absurd hsuffix (by decide)

lemma not_mem_pointer {p : RelPath} {mime : String} (hp : partialDir ∉ p) :
    partialDir ∉ Shortcut.relativePath p mime := by
  unfold Shortcut.relativePath
  rw [List.mem_append, not_or, List.mem_singleton]
  exact ⟨fun hmem => hp (List.mem_of_mem_dropLast hmem), partialDir_ne_pointer _ _⟩

lemma not_mem_ownPath {p : RelPath} {f : DriveFile} (hp : partialDir ∉ p) :
    partialDir ∉ ownPath p f := by
  unfold ownPath
  split
  · exact not_mem_pointer hp
  · exact hp

/-- What a walk lists below a path. -/
lemma not_mem_of_walk {p : RelPath} {e : Fs.LocalEntry} (hp : partialDir ∉ p)
    (he : e ∈ w.fs.walk p) : partialDir ∉ e.relativePath := by
  obtain ⟨n, -, -, hbelow, hout⟩ := Fs.mem_walk.mp he
  obtain ⟨x, rest, hpath⟩ := RelPath.below_iff.mp hbelow
  rw [hpath, List.drop_left] at hout
  rw [hpath, List.mem_append, not_or]
  exact ⟨hp, hout⟩

/-- The handling of a path finds nothing with the name. -/
lemma discovers {p : RelPath} (hp : partialDir ∉ p) : Discovers rules w.fs p :=
  ⟨fun _ => hp, fun _ _ he => not_mem_of_walk hp he, fun _ => hp⟩

/-- A change whose path has not the name. -/
lemma changeBrings {c : RemoteChange} {file : FileResource} (hp : partialDir ∉ c.path file) :
    ChangeBrings rules anyKind c file := by
  have hplace : partialDir ∉ placeOf c file := by
    unfold placeOf
    split
    · exact not_mem_pointer hp
    · exact hp
  have hparent : partialDir ∉ (placeOf c file).parentDir := fun hmem =>
    hplace (List.mem_of_mem_dropLast hmem)
  exact ⟨trivial, hplace, fun _ _ => ⟨hplace, hplace⟩, fun _ _ _ _ => ⟨hparent, hparent⟩,
    fun _ _ _ _ hq => hq⟩

/-- What the initial pass may find. -/
def fits (w : World) (root : FileId) : Prop :=
  ∀ p f, Lies w.remote.drive root p f → partialDir ∉ p

/-- **The initial pass** keeps the name out. -/
lemma passObeys (env : Env) : PassObeys rules fits env := by
  intro w fuel root hfits
  have hkeeps : Keeps env root (fun p => partialDir ∉ p)
      fun w => Admitted rules w.db ∧ Typed anyKind w.db := by
    refine ⟨fun {β c w'} hc hI => proper_call ?_ hI, fun _ _ _ hknown hI =>
      ⟨hI.1.proper (S := anyKind) ⟨hknown, fun _ _ => trivial⟩, fun _ _ _ _ => trivial⟩⟩
    cases c with
    | db c => cases c <;> trivial
    | _ => trivial
  exact safe_initial hkeeps (fun e he => not_mem_of_walk (by simp) he)
    fun p f hlies => not_mem_ownPath (hfits p f hlies)

/-- What comes in keeps the rules. -/
lemma brings_of_keepsOut {j : Job} {calls : ℕ} (h : KeepsOut w (.job j calls)) :
    Brings rules fits env w j := by
  cases j with
  | event ev =>
    cases ev with
    | created p => exact discovers (h p rfl)
    | modified p => exact discovers (h p rfl)
    | deleted p => trivial
    | renamed from' to' =>
      have hto : partialDir ∉ to' := h to' rfl
      simp only [Brings, EventBrings]
      split
      · exact ⟨hto, hto⟩
      · exact discovers hto
  | batch b =>
    exact ⟨anyKind, fun _ _ _ _ => trivial, fun c hc file _ hfile _ =>
      changeBrings (h c hc file hfile)⟩
  | scan =>
    intro e he _
    have hpath := not_mem_of_walk (by simp) he
    split
    · exact fun _ => discovers hpath
    · exact hpath
  | initial fuel root => exact h
  | _ => trivial

/-- Where no path has the name, the two trees are apart. -/
lemma apart_of_admitted (h : Admitted rules w.db) : Apart env w := by
  have hout : ∀ {p : RelPath}, partialDir ∉ p → ¬Staged p := fun hp hs => hp (mem_of_staged hs)
  have hparent : ∀ {p : RelPath}, partialDir ∉ p → ¬Staged p.parentDir := fun hp hs =>
    hp (List.mem_of_mem_dropLast (mem_of_staged hs))
  refine ⟨fun r hr => hout (h.rows r hr), fun o ho dl hdl => hout (h.downloads o ho dl hdl),
    fun o ho r hr hid p hp => ?_, fun n fs hswept r hr =>
      node_cleanupOrphans (hout (h.rows r hr)) hswept, fun r hr hgone => ?_⟩
  · unfold dirsOf at hp
    split at hp <;> simp only [List.mem_singleton, List.not_mem_nil] at hp <;> subst hp
    · exact hout (h.rows r hr)
    · exact hout (h.rows r hr)
    · next hdl => exact hparent (h.downloads o ho _ hdl)
    · exact hparent (h.rows r hr)
    · next hrename => exact hparent (h.renames o ho _ hrename r hr hid).1
    · next hrename => exact hparent (h.renames o ho _ hrename r hr hid).1
    · exact hparent (h.rows r hr)
  · by_contra hfile
    obtain ⟨b, hnode⟩ := Fs.isFile_iff.mp (by simpa using hfile)
    have hne : r.relativePath ≠ [] := by
      intro hnil
      rw [hnil] at hnode
      cases hnode
    obtain ⟨x, rest, hsplit⟩ := List.exists_cons_of_ne_nil hne
    have hwalked : ⟨r.relativePath, false⟩ ∈ w.fs.walk [] :=
      Fs.mem_walk.mpr ⟨.file b, by rw [← w.fs.node_of_ne_nil hne, hnode], rfl,
        RelPath.below_iff.mpr ⟨x, rest, hsplit⟩, h.rows r hr⟩
    simp only [StartupScan.vanished, Bool.and_eq_true, Bool.not_eq_true', List.any_eq_false,
      List.mem_filter, decide_eq_true_eq] at hgone
    exact hgone.1.2 _ ⟨hwalked, rfl⟩ rfl

/-- The directories that the initial pass makes on one side for the other are outside. -/
lemma dirPaths_outside {fuel : ℕ} {root : FileId} (hfits : fits w root) :
    Ends env (fun x _ => ∀ remotes, x = .ok remotes →
      ∀ dir ∈ Initial.dirPaths (w.fs.walk []) remotes, ¬Staged dir)
      (Initial.walkRemote fuel root) w := by
  have hkeeps : Keeps env root (fun _ => True) fun _ => True :=
    ⟨fun _ _ => trivial, fun _ _ _ _ _ => trivial⟩
  have hfound : ∀ p f, Lies w.remote.drive root p f → partialDir ∉ ownPath p f := fun p f hlies =>
    not_mem_ownPath (hfits p f hlies)
  refine (@safe_walkRemote env root _ (fun p => partialDir ∉ p) _ w hkeeps hfound fuel).mono
    fun x w' ⟨_, _, _, hwalked⟩ remotes hx dir hdir => ?_
  refine fun hstaged => absurd (mem_of_staged hstaged) ?_
  rcases mem_dirPaths.mp hdir with ⟨e, he, -, rfl⟩ | ⟨e, he, hisDir, rfl⟩
  · exact not_mem_of_walk (by simp) he
  · obtain ⟨above, f, -, hfound, rfl⟩ := (hwalked remotes hx).describes e he
    have hmime : f.mimeType = folderMime := by
      simpa [FileResource.isFolder, Drive.resource] using hisDir
    rw [ownPath_of_folder hmime] at hfound
    simpa [Drive.resource] using hfound

end Paths

/-- **The staging area is no part of the synced tree** in runs in which no path that comes in has
its name for a component, and no initial pass makes a directory there. -/
theorem staging_apart (env : Env) (d : Drive) (w : World)
    (h : Runs env KeepsOut (World.fresh d) w) :
    Apart env w ∧ ∀ fuel root, KeepsOut w (.job (.initial fuel root) 0) →
      Ends env (fun x _ => ∀ remotes, x = .ok remotes →
        ∀ dir ∈ Initial.dirPaths (w.fs.walk []) remotes, ¬Staged dir)
        (Initial.walkRemote fuel root) w := by
  have hbrings : Runs env (fun w a => ∀ j calls, a = .job j calls → Brings rules fits env w j)
      (World.fresh d) w := h.mono fun w a hout j calls ha => by
    subst ha
    exact brings_of_keepsOut hout
  have hadmitted := admitted_of_runs (passObeys env) (admitted_empty rules) hbrings
  exact ⟨apart_of_admitted hadmitted, fun fuel root hroot => dirPaths_outside hroot⟩

/-- The mapped folder `Sync` (2) holds a folder (3) with the name of the staging area, and it the
file `a.txt` (4). -/
def drivePartial : Drive where
  files :=
    ⟨⟨[⟨1, "My Drive", folderMime, none, [], false, true, true⟩,
       ⟨2, "Sync", folderMime, none, [1], false, true, true⟩,
       ⟨3, partialDir, folderMime, none, [2], false, true, true⟩,
       ⟨4, "a.txt", "text/plain", some [65], [3], false, true, true⟩],
      by simp⟩, 5, by simp⟩
  rootNum := 1
  feed := [(3, false), (4, false)]

/-- Both objects arrive. -/
def arrivals : List Action :=
  [.job (.batch ⟨[⟨.id 3, false, some ⟨.id 3, partialDir, folderMime, none, none, [.id 2], false⟩,
      some [partialDir]⟩,
    ⟨.id 4, false, some ⟨.id 4, "a.txt", "text/plain", some 1, some "A", [.id 3], false⟩,
      some [partialDir, "a.txt"]⟩], 2⟩) 100,
    .job (.drain (.id 2)) 100, .job (.drain (.id 2)) 100]

/-- The scan of the next start takes `a.txt` for deleted, and asks Drive to delete it. -/
example : (performAll .plain (arrivals ++ [.job .scan 100]) (World.fresh drivePartial)).db.ops.rows.map
    (fun o => (o.syncItemId, o.op)) = [(2, .deleteRemote)] := by decide +kernel

/-- `a.txt` has arrived, and nothing of the staging area is in the synced tree. -/
theorem sample_apart : Apart .plain sampleSynced ∧ ∀ fuel root,
    KeepsOut sampleSynced (.job (.initial fuel root) 0) →
      Ends .plain (fun x _ => ∀ remotes, x = .ok remotes →
        ∀ dir ∈ Initial.dirPaths (sampleSynced.fs.walk []) remotes, ¬Staged dir)
        (Initial.walkRemote fuel root) sampleSynced := by
  refine staging_apart .plain (sampleDrive [65]) sampleSynced
    (Runs.performAll .start ⟨fun c hc file hfile => ?_, trivial, trivial⟩)
  obtain rfl := List.mem_singleton.mp hc
  obtain rfl := Option.some.inj hfile
  decide

/-- **A remote folder with the name** comes into the synced tree. -/
theorem remote_partial_synced : ¬∀ (env : Env) (d : Drive) (w : World),
    Runs env (fun _ _ => True) (World.fresh d) w → Apart env w := by
  intro h
  set w := performAll .plain arrivals (World.fresh drivePartial) with hw
  have hruns : Runs .plain (fun _ _ => True) (World.fresh drivePartial) w :=
    Runs.performAll .start ⟨trivial, trivial, trivial, trivial⟩
  have hgone : ∃ r ∈ w.db.items.rows,
      StartupScan.vanished .plain (w.fs.walk []) r = true ∧ w.fs.isFile r.relativePath = true := by
    decide +kernel
  obtain ⟨r, hr, hvanished, hfile⟩ := hgone
  have hgone := (h .plain drivePartial w hruns).scanned r (ItemTable.mem_rows.mp hr) hvanished
  exact absurd hfile (by simp [hgone])

end AirDrive.Staging
