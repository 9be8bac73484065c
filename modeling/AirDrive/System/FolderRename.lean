import AirDrive.Daemon.Outcomes
import AirDrive.Drive.Subtree
import AirDrive.Local.Merge
import AirDrive.Reconcile.Applied
import AirDrive.System.Run

set_option relaxedAutoImplicit false
set_option autoImplicit false

/-!
# A folder is renamed on Drive

The changes that follow from the rename are delivered in any selection and order, any number of
times, while the dispatcher works. A change of the folder itself, and of a regular file directly in
it, makes the whole tree move. From a change of anything deeper only the folder above that object
is inferred to have moved, so that the renamed folder stays where it was.

## Main definitions

* `AirDrive.FolderRename.TrackedFolder` — a folder in step, and its new name.
* `AirDrive.FolderRename.TrackedFolder.Runs` — deliveries, steps of the dispatcher, and anything
  that leaves the tree alone.
* `AirDrive.FolderRename.TrackedFolder.Clear` — nothing is in the way at the new path.
* `AirDrive.FolderRename.TrackedFolder.Converged` — the tree is at its new place.
* `AirDrive.FolderRename.Inv` — the invariant, for the parts of the tree that have moved.

## Main results

* `AirDrive.FolderRename.converged_iff` — once nothing of the tree is queued, it has converged
  exactly when one of the changes that move it was delivered.
-/

namespace AirDrive.FolderRename

open Effect Outcomes

/-! ## A folder in step -/

/-- The path of the local copy of an object, for the path of the object: the pointer file of a
native document has an extension. -/
def copyPath (f : DriveFile) (rel : RelPath) : RelPath :=
  if Shortcut.isNative f.mimeType then Shortcut.relativePath rel f.mimeType else rel

/-- The daemon syncs the object: it is a folder, a native document, or a file with content. -/
def Syncs (f : DriveFile) : Prop :=
  f.mimeType = folderMime ∨ Shortcut.isNative f.mimeType = true ∨ f.content.isSome

/-- The object is a regular file. -/
def Regular (f : DriveFile) : Prop :=
  f.mimeType ≠ folderMime ∧ Shortcut.isNative f.mimeType = false ∧ f.content.isSome

/-- The row and the local copy of the object at the path agree with it, and no other row is bound
to it. -/
structure InStep (env : Env) (w : World) (rel : RelPath) (f : DriveFile) (r : SyncItem) : Prop where
  row : r ∈ w.db.items
  bound : r.remoteId = some (.id f.num)
  only : ∀ s ∈ w.db.items, s.remoteId = some (.id f.num) → s.id = r.id
  path : r.relativePath = copyPath f rel
  kind : r.kind = if f.mimeType = folderMime then .dir else .file
  live : r.trashedAt = none
  print : ∀ b, f.content = some b → Regular f → r.md5 = some (env.md5 b) ∧ r.size = some b.length
  node : ∃ n, w.fs.node r.relativePath = some n ∧ (n = .dir ↔ f.mimeType = folderMime)

/-- A folder below the mapped folder that is in step with everything in it, and the name that it
gets on Drive. -/
structure TrackedFolder (env : Env) where
  /-- The state before it is renamed. -/
  start : World
  /-- The number of its id. -/
  num : ℕ
  /-- Its path. -/
  path : RelPath
  /-- Its new name. -/
  name : String
  /-- It is not the mapped folder itself. -/
  below : path ≠ []
  /-- The name is a new one. -/
  other : path.getLast? ≠ some name
  /-- It is on Drive. -/
  folder : ∃ g, InFolder start.remote.drive num [] g
  /-- What is in it is in step. -/
  synced : ∀ rel f, InFolder start.remote.drive num rel f → Syncs f →
    ∃ r, InStep env start (path ++ rel) f r
  /-- No operation is queued for its tree. -/
  idle : ∀ r ∈ start.db.items, path <+: r.relativePath → ∀ o ∈ start.db.ops, o.syncItemId ≠ r.id
  /-- Nothing in it is in flight. -/
  free : ∀ rel f, InFolder start.remote.drive num rel f →
    start.inFlight.contains (.id f.num) = false

namespace TrackedFolder

variable {env : Env} (t : TrackedFolder env)

/-- The path of the folder after the rename. -/
def newPath : RelPath := t.path.dropLast ++ [t.name]

/-- Drive after the rename. -/
def drive : Drive := t.start.remote.drive.renamed env.md5 t.num t.name

/-- The state after the rename. -/
def renamed : World := { t.start with remote := ⟨t.drive, t.start.remote.faults⟩ }

/-- A row of the tree. -/
def Row (s : SyncItem) : Prop := s ∈ t.start.db.items ∧ t.path <+: s.relativePath

/-- The id of a row of the tree. -/
def Own (i : ItemId) : Prop := ∃ s, t.Row s ∧ s.id = i

/-- The path is `dir` or below it, up to the case of ASCII letters. -/
def Folded (dir rel : RelPath) : Prop := dir.map RelPath.foldCase <+: rel.map RelPath.foldCase

/-- A row that the rename may concern: its path is the old or the new one or below it, up to case,
or it is a row of the tree or bound to an object of the tree. -/
def Near (r : SyncItem) : Prop :=
  Folded t.path r.relativePath ∨ Folded t.newPath r.relativePath ∨ t.Own r.id ∨
    ∃ rel f, InFolder t.start.remote.drive t.num rel f ∧ Syncs f ∧ r.remoteId = some (.id f.num)

/-- Nothing is in the way: no other row is at or below the old or the new path, up to case, rows of
the tree whose paths differ in case only are not below each other, and what is at the new path
already are directories in the place of directories. -/
structure Clear : Prop where
  rows : ∀ r ∈ t.start.db.items, Folded t.path r.relativePath ∨ Folded t.newPath r.relativePath →
    t.path <+: r.relativePath
  cases : ∀ r s, t.Row r → t.Row s → r.relativePath.likeBelow s.relativePath = true →
    r.relativePath <+: s.relativePath
  nodes : t.start.fs.Fits t.path t.newPath

/-- The change that describes an object of the tree after the rename. -/
def change (rel : RelPath) (f : DriveFile) : RemoteChange :=
  ⟨.id f.num, false, some (Drive.resource env.md5 f), some (t.newPath ++ rel)⟩

/-- The changes that follow from the rename. -/
def Resulting (c : RemoteChange) : Prop := ∃ rel f, InFolder t.drive t.num rel f ∧ c = t.change rel f

/-- The change makes the whole tree move: it describes the folder itself, or a regular file directly
in it. -/
def Anchors (c : RemoteChange) : Prop :=
  c.fileId = .id t.num ∨ ∃ f, InFolder t.drive t.num [f.name] f ∧ Regular f ∧ c.fileId = .id f.num

/-- What everything else leaves alone. -/
structure Spares (w w' : World) : Prop where
  rows : ∀ r, t.Near r → (r ∈ w'.db.items ↔ r ∈ w.db.items)
  ops : ∀ o : PendingOperation, t.Own o.syncItemId → (o ∈ w'.db.ops ↔ o ∈ w.db.ops)
  nodes : ∀ q, t.path <+: q ∨ t.newPath <+: q → w'.fs.node q = w.fs.node q
  free : ∀ rel f, InFolder t.start.remote.drive t.num rel f →
    w'.inFlight.contains (.id f.num) = w.inFlight.contains (.id f.num)

/-- The runs after the rename, with the changes delivered so far: changes that follow from it are
delivered, the dispatcher executes operations of the tree, and other things happen. -/
inductive Runs : List RemoteChange → World → Prop
  | start : Runs [] t.renamed
  | deliver {cs : List RemoteChange} {w : World} {c : RemoteChange} (run : Runs cs w)
      (resulting : t.Resulting c) :
      Runs (c :: cs) (runTask env (Continuous.applyRemote env c) w).2
  | drain {cs : List RemoteChange} {w : World} (run : Runs cs w) (root : FileId)
      (own : ∀ o, OpTable.nextDue w.db.ops w.now = some o → t.Own o.syncItemId) :
      Runs cs (runTask env (Dispatcher.drainOne env root) w).2
  | elsewhere {cs : List RemoteChange} {w w' : World} (run : Runs cs w) (spares : t.Spares w w') :
      Runs cs w'

/-- Nothing of the tree is queued. -/
def Idle (w : World) : Prop := ∀ o ∈ w.db.ops, ¬t.Own o.syncItemId

/-- The path of a row in the tree. -/
def rest (s : SyncItem) : RelPath := s.relativePath.drop t.path.length

/-- The tree is at its new place: every row of it has its new path, every object still has one row,
the old directory is gone, and the local tree with its contents is at the new path. -/
structure Converged (w : World) : Prop where
  rows : ∀ s, t.Row s → { s with relativePath := t.newPath ++ t.rest s } ∈ w.db.items
  one : ∀ rel f, InFolder t.start.remote.drive t.num rel f → Syncs f →
    ∃! r, r ∈ w.db.items ∧ r.remoteId = some (.id f.num)
  gone : w.fs.node t.path = none
  nodes : ∀ q n, t.start.fs.node (t.path ++ q) = some n → w.fs.node (t.newPath ++ q) = some n

end TrackedFolder

variable {env : Env} {t : TrackedFolder env} {w w' : World} {S : List RelPath} {p q rel : RelPath}
  {s r : SyncItem} {f : DriveFile} {c : RemoteChange}

/-! ## Paths and rows of the tree -/

/-- The old and the new path are not below each other. -/
lemma apart : Fs.Apart t.path t.newPath := by
  have hlen : t.newPath.length = t.path.length := by
    have := List.length_pos_iff.mpr t.below
    simp only [TrackedFolder.newPath, List.length_append, List.length_dropLast, List.length_singleton]
    omega
  have hne : t.path ≠ t.newPath := by
    intro heq
    refine t.other ?_
    rw [heq, TrackedFolder.newPath, List.getLast?_concat]
  exact ⟨fun h => hne (h.eq_of_length hlen.symm), fun h => hne (h.eq_of_length hlen).symm⟩

lemma length_newPath : t.newPath.length = t.path.length := by
  have := List.length_pos_iff.mpr t.below
  simp only [TrackedFolder.newPath, List.length_append, List.length_dropLast, List.length_singleton]
  omega

lemma dropLast_newPath : t.newPath.dropLast = t.path.dropLast := by
  rw [TrackedFolder.newPath, List.dropLast_concat]

lemma folded_of_below {dir : RelPath} (h : dir <+: rel) : TrackedFolder.Folded dir rel := h.map _

lemma folded_of_likeBelow {dir : RelPath} (h : dir.likeBelow rel = true) :
    TrackedFolder.Folded dir rel := by
  simp only [RelPath.likeBelow, Bool.and_eq_true, List.isPrefixOf_iff_prefix] at h
  exact h.1.2

/-- A path in the tree is below another one up to case wherever the tree lies. -/
lemma likeBelow_append {base base' new : RelPath} (hlen : base.length = base'.length)
    (hne : new ≠ []) (h : (base ++ p).likeBelow (base' ++ q) = true) :
    (new ++ p).likeBelow (new ++ q) = true := by
  simp only [RelPath.likeBelow, Bool.and_eq_true, List.isPrefixOf_iff_prefix, decide_eq_true_eq,
    List.map_append, List.length_append] at h ⊢
  obtain ⟨⟨-, hfold⟩, hlt⟩ := h
  refine ⟨⟨by simpa using fun h => absurd h hne, ?_⟩, by omega⟩
  obtain ⟨z, hz⟩ := hfold
  rw [List.append_assoc] at hz
  obtain ⟨hbase, hrest⟩ := List.append_inj hz (by simpa using hlen)
  exact ⟨z, by rw [List.append_assoc, hrest]⟩

lemma path_eq (h : t.Row s) : s.relativePath = t.path ++ t.rest s := by
  obtain ⟨z, hz⟩ := h.2
  rw [TrackedFolder.rest, ← hz, List.drop_left]

lemma rest_eq (h : s.relativePath = t.path ++ q) : t.rest s = q := by
  rw [TrackedFolder.rest, h, List.drop_left]

lemma row_inj (h : t.Row s) (h' : t.Row r) (hrest : t.rest s = t.rest r) : s = r :=
  t.start.db.items.path_inj h.1 h'.1 (by rw [path_eq h, path_eq h', hrest])

/-- The path of an object's copy in the tree. -/
lemma copyPath_append {base : RelPath} (h : rel ≠ [] ∨ Shortcut.isNative f.mimeType = false) :
    copyPath f (base ++ rel) = base ++ copyPath f rel := by
  unfold copyPath
  split_ifs with hnative
  · have hne : rel ≠ [] := h.resolve_right (by simp [hnative])
    rw [Shortcut.relativePath, Shortcut.relativePath, List.dropLast_append_of_ne_nil hne,
      List.append_assoc, List.getLastD_eq_getLast?, List.getLastD_eq_getLast?,
      List.getLast?_append_of_ne_nil _ hne]
  · rfl

lemma not_native (h : f.mimeType = folderMime) : Shortcut.isNative f.mimeType = false := by
  simp [Shortcut.isNative, h]

/-- The paths in the tree of an object's copy, wherever the tree lies. -/
lemma copyPath_inFolder {d : Drive} {n : ℕ} {base : RelPath} (h : InFolder d n rel f) :
    copyPath f (base ++ rel) = base ++ copyPath f rel := by
  refine copyPath_append ?_
  cases h with
  | self _ _ _ folder => exact .inr (not_native folder)
  | child => exact .inl (by simp)

/-! ## The parts that have moved -/

/-- The path in the tree is that of a moved part, or below it. -/
def follows (S : List RelPath) (q : RelPath) : Bool := S.any fun p => p.isPrefixOf q

lemma follows_iff : follows S q = true ↔ ∃ p ∈ S, p <+: q := by
  simp [follows, List.isPrefixOf_iff_prefix]

lemma follows_cons : follows (p :: S) q = true ↔ p <+: q ∨ follows S q = true := by
  simp [follows, List.isPrefixOf_iff_prefix]

lemma follows_mono (h : follows S p = true) (hpq : p <+: q) : follows S q = true := by
  obtain ⟨x, hx, hxp⟩ := follows_iff.mp h
  exact follows_iff.mpr ⟨x, hx, hxp.trans hpq⟩

/-- A row of the tree after these parts have moved. -/
def placed (t : TrackedFolder env) (S : List RelPath) (s : SyncItem) : SyncItem :=
  if follows S (t.rest s) then { s with relativePath := t.newPath ++ t.rest s } else s

@[simp] lemma placed_id : (placed t S s).id = s.id := by
  unfold placed
  split_ifs <;> rfl

@[simp] lemma placed_remoteId : (placed t S s).remoteId = s.remoteId := by
  unfold placed
  split_ifs <;> rfl

/-- Only the path of a row changes. -/
lemma placed_repath (q : RelPath) :
    { placed t S s with relativePath := q } = { s with relativePath := q } := by
  unfold placed
  split_ifs <;> rfl

/-- A folder or a native document of the tree: what a change can move on its own. -/
structure Part (t : TrackedFolder env) (p : RelPath) (r : SyncItem) : Prop where
  row : t.Row r
  path : r.relativePath = t.path ++ p
  node : t.start.fs.node (t.path ++ p) ≠ none
  object : ∃ rel f, InFolder t.start.remote.drive t.num rel f ∧ ¬Regular f ∧
    r.remoteId = some (.id f.num)

/-- The operation moves a part of the tree to its new place. -/
structure Moves (t : TrackedFolder env) (o : PendingOperation) (p : RelPath) : Prop where
  part : ∃ r, Part t p r ∧ r.id = o.syncItemId
  op : o.op = .renameLocal
  payload : o.payload = some (.rename ⟨t.newPath ++ p⟩)
  fresh : o.attempts = 0

/-- Where the local tree is after these parts have moved. -/
structure Nodes (t : TrackedFolder env) (S : List RelPath) (fs : Fs) : Prop where
  moved : ∀ q, follows S q = true → fs.node (t.path ++ q) = none ∧
    ∀ n, t.start.fs.node (t.path ++ q) = some n → fs.node (t.newPath ++ q) = some n
  waiting : ∀ q, follows S q = false →
    fs.node (t.path ++ q) = t.start.fs.node (t.path ++ q) ∧
      ∀ n m, t.start.fs.node (t.path ++ q) = some n → fs.node (t.newPath ++ q) = some m →
        n = .dir ∧ m = .dir

/-- The invariant, for the parts that have moved. -/
structure Inv (t : TrackedFolder env) (S : List RelPath) (w : World) : Prop where
  parts : ∀ p ∈ S, ∃ r, Part t p r
  rows : ∀ r, t.Near r → (r ∈ w.db.items ↔ ∃ s, t.Row s ∧ placed t S s = r)
  ops : ∀ o ∈ w.db.ops, t.Own o.syncItemId → ∃ p, Moves t o p
  nodes : Nodes t S w.fs
  free : ∀ rel f, InFolder t.start.remote.drive t.num rel f →
    w.inFlight.contains (.id f.num) = false

/-- What has moved lies at its new place. -/
lemma placed_path (h : t.Row s) : (placed t S s).relativePath =
    (if follows S (t.rest s) then t.newPath else t.path) ++ t.rest s := by
  unfold placed
  split_ifs with hmoved
  · rfl
  · exact path_eq h

lemma near_placed (h : t.Row s) : t.Near (placed t S s) := by
  refine .inr (.inr (.inl ⟨s, h, ?_⟩))
  rw [placed_id]

/-- A row of the tree after parts have moved is one of the table. -/
lemma Inv.mem (h : Inv t S w) (hs : t.Row s) : placed t S s ∈ w.db.items :=
  (h.rows _ (near_placed hs)).mpr ⟨s, hs, rfl⟩

/-- The row of an object of the tree, wherever it is. -/
lemma Inv.bound (h : Inv t S w) (hrow : t.Row s) (hin : InFolder t.start.remote.drive t.num rel f)
    (hsync : Syncs f) (hid : s.remoteId = some (.id f.num)) :
    w.db.items.getByRemoteId (.id f.num) = some (placed t S s) := by
  obtain ⟨r, hr⟩ := t.synced rel f hin hsync
  refine ItemTable.getByRemoteId_of_only (h.mem hrow) (placed_remoteId.trans hid) fun x hx hxid => ?_
  obtain ⟨s', hs', rfl⟩ := (h.rows x (.inr (.inr (.inr ⟨rel, f, hin, hsync, hxid⟩)))).mp hx
  rw [placed_id, placed_id]
  exact (hr.only s' hs'.1 (placed_remoteId.symm.trans hxid)).trans (hr.only s hrow.1 hid).symm

/-- The row at the place of a part that has not moved. -/
lemma Inv.at_path (h : Inv t S w) (hs : t.Row s) (hwait : follows S (t.rest s) = false) :
    w.db.items.getByRelativePath s.relativePath = some (placed t S s) := by
  refine ItemTable.getByRelativePath_eq_some.mpr ⟨h.mem hs, ?_⟩
  rw [placed, if_neg (by simp [hwait])]

/-- The row of an object of the tree. -/
lemma exists_row (hin : InFolder t.start.remote.drive t.num rel f) (hsync : Syncs f) :
    ∃ r, InStep env t.start (t.path ++ rel) f r ∧ t.Row r ∧
      r.relativePath = t.path ++ copyPath f rel := by
  obtain ⟨r, hr⟩ := t.synced rel f hin hsync
  have hpath := hr.path.trans (copyPath_inFolder hin)
  exact ⟨r, hr, ⟨hr.row, hpath ▸ List.prefix_append _ _⟩, hpath⟩

/-- A folder or a native document of the tree is a part of it. -/
lemma exists_part (hin : InFolder t.start.remote.drive t.num rel f)
    (hkind : f.mimeType = folderMime ∨ Shortcut.isNative f.mimeType = true) :
    ∃ r, InStep env t.start (t.path ++ rel) f r ∧ Part t (copyPath f rel) r := by
  have hsync : Syncs f := hkind.imp_right .inl
  obtain ⟨r, hr, hrow, hpath⟩ := exists_row hin hsync
  obtain ⟨n, hn, -⟩ := hr.node
  refine ⟨r, hr, hrow, hpath, by simp [← hpath, hn], rel, f, hin, fun hreg => ?_, hr.bound⟩
  rcases hkind with hfolder | hnative
  · exact hreg.1 hfolder
  · exact absurd hnative (by simp [hreg.2.1])

/-- The folder is a directory at the start. -/
lemma dir_start : t.start.fs.node t.path = some .dir := by
  obtain ⟨g, hg⟩ := t.folder
  have hfolder : g.mimeType = folderMime := hg.folder rfl
  obtain ⟨r, hr, -, hpath⟩ := exists_row hg (.inl hfolder)
  obtain ⟨n, hn, hdir⟩ := hr.node
  have hcopy : copyPath g [] = [] := by simp [copyPath, not_native hfolder]
  rw [hpath, hcopy, List.append_nil, hdir.mpr hfolder] at hn
  exact hn

/-- **The invariant holds after the rename.** -/
lemma inv_start (hclear : t.Clear) : Inv t [] t.renamed := by
  refine ⟨fun p hp => (nomatch hp), fun r hnear => ?_, fun o ho ⟨s, hs, hid⟩ => ?_,
    ⟨fun q hq => by simp [follows] at hq, fun q _ => ⟨rfl, hclear.nodes q⟩⟩, t.free⟩
  · have hplaced : ∀ s, placed t [] s = s := fun s => if_neg (by simp [follows])
    simp only [hplaced, exists_eq_right]
    refine ⟨fun hr => ⟨hr, ?_⟩, fun hr => hr.1⟩
    rcases hnear with hold | hnew | ⟨s, hs, hid⟩ | ⟨rel, f, hin, hsync, hid⟩
    · exact hclear.rows r hr (.inl hold)
    · exact hclear.rows r hr (.inr hnew)
    · rw [← ItemTable.id_inj hs.1 hr hid]
      exact hs.2
    · obtain ⟨x, hx, hrow, -⟩ := exists_row hin hsync
      rw [ItemTable.id_inj hr hx.row (hx.only r hr hid)]
      exact hrow.2
  · exact absurd hid.symm (t.idle s hs.1 hs.2 o ho)

/-- Everything else keeps the invariant. -/
lemma Inv.elsewhere (h : Inv t S w) (hs : t.Spares w w') : Inv t S w' := by
  have hold : ∀ q, w'.fs.node (t.path ++ q) = w.fs.node (t.path ++ q) := fun q =>
    hs.nodes _ (.inl (List.prefix_append _ _))
  have hnew : ∀ q, w'.fs.node (t.newPath ++ q) = w.fs.node (t.newPath ++ q) := fun q =>
    hs.nodes _ (.inr (List.prefix_append _ _))
  refine ⟨h.parts, fun r hr => (hs.rows r hr).trans (h.rows r hr), fun o ho hown => ?_,
    ⟨fun q hq => ?_, fun q hq => ?_⟩, fun rel f hin => (hs.free rel f hin).trans (h.free rel f hin)⟩
  · exact h.ops o ((hs.ops o hown).mp ho) hown
  · rw [hold, hnew]
    exact h.nodes.moved q hq
  · rw [hold, hnew]
    exact h.nodes.waiting q hq

/-! ## Deliveries -/

/-- What a delivery does: nothing, or the move of a part that has not moved is queued. -/
inductive Delivered (t : TrackedFolder env) (S : List RelPath) (c : RemoteChange) (w : World) :
    World → Prop
  | nothing (known : t.Anchors c → follows S [] = true) : Delivered t S c w w
  | queued {p : RelPath} {r : SyncItem} (part : Part t p r)
      (anchor : t.Anchors c ↔ p = []) :
      Delivered t S c w
        (Continuous.queued w r.id .renameLocal (some (.rename ⟨t.newPath ++ p⟩)))

/-- Which changes make the whole tree move. -/
lemma anchors_iff {f' : DriveFile} (h : InFolder t.drive t.num rel f') :
    t.Anchors (t.change rel f') ↔ rel = [] ∨ Regular f' ∧ rel = [f'.name] := by
  constructor
  · rintro (hid | ⟨g, hg, hreg, hid⟩)
    · exact .inl (h.nil_iff.mpr (FileId.id.inj hid))
    · obtain rfl := t.drive.files.key_inj h.mem hg.mem (FileId.id.inj hid)
      exact .inr ⟨hreg, h.unique hg⟩
  · rintro (hnil | ⟨hreg, hrel⟩)
    · exact .inl (congrArg FileId.id (h.nil_iff.mp hnil))
    · exact .inr ⟨f', hrel ▸ h, hreg, rfl⟩

/-- A part that a change moves on its own: it is there already, or its move is queued. -/
lemma delivered_part {q : Task Unit} (h : Inv t S w) (hpart : Part t p r)
    (hanchor : t.Anchors c ↔ p = [])
    (hthere : (placed t S r).relativePath = t.newPath ++ p → q = .pure ())
    (hwaits : (placed t S r).relativePath ≠ t.newPath ++ p →
      q = Continuous.enqueueRenameLocal r.id (t.newPath ++ p)) :
    Ends env (fun x w' => x = .ok () ∧ Delivered t S c w w') q w := by
  have hpath := placed_path (S := S) hpart.row
  rw [rest_eq hpart.path] at hpath
  by_cases hfollows : follows S p = true
  · rw [if_pos hfollows] at hpath
    rw [hthere hpath]
    exact ⟨rfl, .nothing fun hc => by rwa [hanchor.mp hc] at hfollows⟩
  · rw [if_neg hfollows] at hpath
    have hne : (placed t S r).relativePath ≠ t.newPath ++ p := by
      rw [hpath]
      exact fun heq => (apart (t := t)).append p p (heq ▸ List.prefix_rfl)
    rw [hwaits hne]
    exact Continuous.ends_enqueueOp ⟨_, h.mem hpart.row, placed_id⟩ ⟨rfl, .queued hpart hanchor⟩

/-- The object of a row is the only one that the row is bound to. -/
lemma object_unique {f' : DriveFile} (hf : InFolder t.start.remote.drive t.num rel f)
    (hf' : f' ∈ t.start.remote.drive.files) (hid : r.remoteId = some (.id f.num))
    (hid' : r.remoteId = some (.id f'.num)) : f' = f :=
  t.start.remote.drive.files.key_inj hf' hf.mem
    (FileId.id.inj (Option.some.inj (hid'.symm.trans hid)))

/-- A regular file follows a folder above it: no change moves it on its own. -/
lemma follows_dropLast (h : Inv t S w) (hrow : t.Row r) (hpath : r.relativePath = t.path ++ rel)
    (hin : InFolder t.start.remote.drive t.num rel f) (hreg : Regular f)
    (hid : r.remoteId = some (.id f.num)) (hfollows : follows S rel = true) :
    follows S rel.dropLast = true := by
  obtain ⟨p, hp, hprefix⟩ := follows_iff.mp hfollows
  refine follows_iff.mpr ⟨p, hp, ?_⟩
  rcases eq_or_ne p rel with rfl | hne
  · obtain ⟨r', hpart⟩ := h.parts p hp
    obtain rfl := row_inj hrow hpart.row (by rw [rest_eq hpath, rest_eq hpart.path])
    obtain ⟨rel', f', hin', hnot, hid'⟩ := hpart.object
    exact absurd hreg (object_unique hin hin'.mem hid hid' ▸ hnot)
  · obtain ⟨z, rfl⟩ := hprefix
    have hz : z ≠ [] := fun hz => hne (by simp [hz])
    rw [List.dropLast_append_of_ne_nil hz]
    exact List.prefix_append _ _

/-- An object of the tree, before and after the rename. -/
structure Object (t : TrackedFolder env) (rel : RelPath) (f f' : DriveFile) : Prop where
  before : InFolder t.start.remote.drive t.num rel f
  after : InFolder t.drive t.num rel f'
  num : f'.num = f.num
  mime : f'.mimeType = f.mimeType
  content : f'.content = f.content
  parents : f'.parents = f.parents

lemma exists_object {f' : DriveFile} (h : InFolder t.drive t.num rel f') :
    ∃ f, Object t rel f f' := by
  obtain ⟨f, hf, hlabel⟩ := inFolder_renamed h
  rcases hlabel with ⟨-, rfl⟩ | ⟨-, rfl⟩ <;> exact ⟨_, hf, h, rfl, rfl, rfl, rfl⟩

lemma placed_live (h : s.trashedAt = none) : (placed t S s).trashedAt = none := by
  unfold placed
  split_ifs <;> exact h

section Deliver

variable {f' : DriveFile}

/-- A folder moves on its own. -/
lemma ends_deliver_folder (h : Inv t S w) (ho : Object t rel f f')
    (hfolder : f'.mimeType = folderMime) :
    Ends env (fun x w' => x = .ok () ∧ Delivered t S (t.change rel f') w w')
      (Continuous.applyFolder (t.change rel f').fileId (Drive.resource env.md5 f')
        (t.newPath ++ rel)) w := by
  have hfolder₀ := ho.mime ▸ hfolder
  obtain ⟨r, hr, hpart⟩ := exists_part ho.before (.inl hfolder₀)
  rw [copyPath, if_neg (by simp [not_native hfolder₀])] at hpart
  have hbound : w.db.items.getByRemoteId (t.change rel f').fileId = some (placed t S r) := by
    rw [TrackedFolder.change, ho.num]
    exact h.bound hpart.row ho.before (.inl hfolder₀) hr.bound
  simp only [Continuous.applyFolder, Prog.bind_eq]
  rw [Ends, Prog.safe_bind, safe_sql]
  refine fun _ => ⟨trivial, ?_⟩
  simp only [DbCall.run, hbound]
  refine delivered_part h hpart ?_ (fun heq => if_neg (by simp [heq])) fun hne => ?_
  · rw [anchors_iff ho.after]
    exact ⟨fun hc => hc.resolve_right fun hreg => hreg.1.1 hfolder, .inl⟩
  · rw [if_pos hne, placed_id]

/-- So does the pointer file of a native document. -/
lemma ends_deliver_native (h : Inv t S w) (ho : Object t rel f f')
    (hnative : Shortcut.isNative f'.mimeType = true) :
    Ends env (fun x w' => x = .ok () ∧ Delivered t S (t.change rel f') w w')
      (Continuous.applyNative (t.change rel f').fileId (Drive.resource env.md5 f')
        (Shortcut.relativePath (t.newPath ++ rel) f'.mimeType)) w := by
  have hnative₀ := ho.mime ▸ hnative
  have hne : rel ≠ [] := by
    intro hnil
    have := not_native (ho.after.folder hnil)
    simp [this] at hnative
  obtain ⟨r, hr, hpart⟩ := exists_part ho.before (.inr hnative₀)
  have hcopy : copyPath f rel = Shortcut.relativePath rel f.mimeType := if_pos hnative₀
  have hpointer : Shortcut.relativePath (t.newPath ++ rel) f'.mimeType =
      t.newPath ++ copyPath f rel := by
    have happend : copyPath f (t.newPath ++ rel) = t.newPath ++ copyPath f rel :=
      copyPath_append (.inl hne)
    rwa [copyPath, if_pos hnative₀, ← ho.mime] at happend
  have hbound : w.db.items.getByRemoteId (t.change rel f').fileId = some (placed t S r) := by
    rw [TrackedFolder.change, ho.num]
    exact h.bound hpart.row ho.before (.inr (.inl hnative₀)) hr.bound
  rw [hpointer]
  simp only [Continuous.applyNative, Prog.bind_eq]
  rw [Ends, Prog.safe_bind, safe_sql]
  refine fun _ => ⟨trivial, ?_⟩
  simp only [DbCall.run, hbound]
  refine delivered_part h hpart ?_ (fun heq => ?_) fun hmoves => ?_
  · rw [anchors_iff ho.after, hcopy]
    refine ⟨fun hc => ?_, fun hnil => by simp [Shortcut.relativePath] at hnil⟩
    rcases hc with hnil | ⟨hreg, -⟩
    · exact absurd hnil hne
    · simp [hreg.2.1] at hnative
  · rw [if_neg (by simp [heq]), if_neg (by simp [placed_live hr.live])]
    rfl
  · rw [if_pos hmoves, placed_id]

/-- Of a regular file, the folder above it is taken to have moved. -/
lemma ends_deliver_regular (h : Inv t S w) (ho : Object t rel f f') {b : Bytes}
    (hreg' : Regular f') (hbytes : f'.content = some b) :
    Ends env (fun x w' => x = .ok () ∧ Delivered t S (t.change rel f') w w')
      (Continuous.applyFile env (t.change rel f') (Drive.resource env.md5 f') (env.md5 b)) w := by
  have hreg : Regular f := by
    rwa [Regular, ← ho.mime, ← ho.content]
  have hne : rel ≠ [] := fun hnil => hreg'.1 (ho.after.folder hnil)
  have hsync : Syncs f := .inr (.inr hreg.2.2)
  obtain ⟨r, hr, hrow, hpath⟩ := exists_row ho.before hsync
  rw [copyPath, if_neg (by simp [hreg.2.1])] at hpath
  have hbound : w.db.items.getByRemoteId (t.change rel f').fileId = some (placed t S r) := by
    rw [TrackedFolder.change, ho.num]
    exact h.bound hrow ho.before hsync hr.bound
  have hplaced := placed_path (S := S) hrow
  rw [rest_eq hpath] at hplaced
  have hdirect : t.Anchors (t.change rel f') ↔ rel.dropLast = [] := by
    rw [anchors_iff ho.after]
    obtain ⟨-, -, -, -, hrel'⟩ := ho.after.above hne
    constructor
    · rintro (hnil | ⟨-, hname⟩)
      · exact absurd hnil hne
      · simp [hname]
    · intro hnil
      rw [hnil, List.nil_append] at hrel'
      exact .inr ⟨hreg', hrel'⟩
  by_cases hfollows : follows S rel = true
  · -- the file has followed, and its content is known
    rw [if_pos hfollows] at hplaced
    obtain ⟨hprint, hsize⟩ := hr.print b (ho.content ▸ hbytes) hreg
    refine Continuous.ends_applyFile_echo hbound (placed_live hr.live) ?_ ?_
      ⟨rfl, .nothing fun hc => ?_⟩
    · rw [hplaced]
      rfl
    · have hsame : (placed t S r).md5 = r.md5 ∧ (placed t S r).size = r.size := by
        unfold placed
        split_ifs <;> exact ⟨rfl, rfl⟩
      simp [Continuous.sameFingerprint, hsame, hprint, hsize, Drive.resource, hbytes]
    · have hdrop := follows_dropLast h hrow hpath ho.before hreg hr.bound hfollows
      rwa [hdirect.mp hc] at hdrop
  · rw [if_neg hfollows] at hplaced
    obtain ⟨g, hg, hgfolder, hparent, -⟩ := ho.before.above hne
    obtain ⟨rg, hrg, hpart⟩ := exists_part hg (.inl hgfolder)
    rw [copyPath, if_neg (by simp [not_native hgfolder])] at hpart
    have hwaits : follows S rel.dropLast = false := by
      rw [← Bool.not_eq_true]
      exact fun hdrop => hfollows (follows_mono hdrop (List.dropLast_prefix _))
    have hdrop : ∀ base : RelPath, (base ++ rel).parentDir = base ++ rel.dropLast := fun base =>
      List.dropLast_append_of_ne_nil hne
    have hdir := h.at_path hpart.row (by rwa [rest_eq hpart.path])
    rw [hpart.path] at hdir
    have hparentId : (placed t S rg).remoteId = some (.id g.num) := placed_remoteId.trans hrg.bound
    refine Continuous.ends_applyFile_folderMoved hbound (placed_live hr.live) rfl ?_ ?_ ?_ ?_ ?_
      hparentId ?_
    · rw [hplaced]
      exact fun heq => (apart (t := t)).append rel rel (heq ▸ List.prefix_rfl)
    · simp [Drive.resource, ho.parents, hparent]
    · rw [hplaced, hdrop, hdrop]
      intro heq
      exact (apart (t := t)).append rel.dropLast rel.dropLast (heq ▸ List.prefix_rfl)
    · rw [hplaced, hdrop]
      simp [t.below]
    · rw [hplaced, hdrop]
      exact hdir
    · rw [hdrop, placed_id]
      exact ⟨rfl, .queued hpart hdirect⟩

/-- **A delivery** does nothing, or queues the move of a part. -/
lemma ends_deliver (h : Inv t S w) (hc : t.Resulting c) :
    Ends env (fun x w' => x = .ok () ∧ Delivered t S c w w') (Continuous.applyRemote env c) w := by
  obtain ⟨rel, f', hin', rfl⟩ := hc
  obtain ⟨f, ho⟩ := exists_object hin'
  refine Continuous.ends_applyRemote_present ?_ rfl rfl ?_
  · simpa [TrackedFolder.change, ho.num] using h.free rel f ho.before
  have hlive : (Drive.resource env.md5 f').trashed = false := hin'.live
  have hisFolder : (Drive.resource env.md5 f').isFolder = decide (f'.mimeType = folderMime) := rfl
  have hmime : (Drive.resource env.md5 f').mimeType = f'.mimeType := rfl
  simp only [Continuous.applyPresent, hlive, hisFolder, hmime, RemoteChange.path, Bool.false_eq_true,
    if_false, decide_eq_true_eq]
  split_ifs with hfolder hnative
  · exact ends_deliver_folder h ho hfolder
  · exact ends_deliver_native h ho hnative
  cases hbytes : f'.content with
  | none =>
    -- an object without content is passed over
    have hmd5 : (Drive.resource env.md5 f').md5 = none := by simp [Drive.resource, hbytes]
    simp only [hmd5]
    refine ⟨rfl, .nothing fun hc => ?_⟩
    rcases (anchors_iff hin').mp hc with hnil | ⟨hreg, -⟩
    · exact absurd (hin'.folder hnil) hfolder
    · simp [Regular, hbytes] at hreg
  | some b =>
    have hmd5 : (Drive.resource env.md5 f').md5 = some (env.md5 b) := by
      simp [Drive.resource, hbytes]
    simp only [hmd5]
    exact ends_deliver_regular h ho ⟨hfolder, by simpa using hnative, by simp [hbytes]⟩ hbytes

end Deliver

/-! ## Moving a part -/

/-- The folder above is a directory all along. -/
lemma Inv.above (h : Inv t S w) : w.fs.node t.path.dropLast = some .dir := by
  have hparent : ∀ {base : RelPath}, base ≠ [] → w.fs.node base = some .dir →
      w.fs.node base.dropLast = some .dir := by
    intro base hne hdir
    refine w.fs.dir_of_below (x := base.getLast hne) (q := []) ?_
    rw [List.dropLast_append_getLast, hdir]
    simp
  have hstart : t.start.fs.node (t.path ++ []) = some .dir := by simpa using dir_start
  by_cases hmoved : follows S [] = true
  · rw [← dropLast_newPath]
    exact hparent apart.ne_nil.2 (by simpa using (h.nodes.moved [] hmoved).2 _ hstart)
  · have hwait := (h.nodes.waiting [] (by simpa using hmoved)).1
    rw [hstart, List.append_nil] at hwait
    exact hparent t.below hwait

/-- What is above a part is a directory. -/
lemma Part.dir_above {x : String} {z : RelPath} (h : Part t (q ++ x :: z) r) :
    t.start.fs.node (t.path ++ q) = some .dir := by
  refine t.start.fs.dir_of_below (x := x) (q := z) ?_
  rw [List.append_assoc]
  exact h.node

/-- At the new place of a directory there is a directory, or nothing. -/
lemma Inv.fits_dir (h : Inv t S w) (hdir : t.start.fs.node (t.path ++ q) = some .dir) {m : Node}
    (hm : w.fs.node (t.newPath ++ q) = some m) : m = .dir := by
  by_cases hmoved : follows S q = true
  · exact Option.some.inj (hm.symm.trans ((h.nodes.moved q hmoved).2 _ hdir))
  · exact ((h.nodes.waiting q (by simpa using hmoved)).2 _ m hdir hm).2

/-- The paths above the new place of a part. -/
lemma prefix_parentDir {q' : RelPath} (h : q' <+: (t.newPath ++ p).parentDir) :
    q' <+: t.path.dropLast ∨ ∃ q x z, q' = t.newPath ++ q ∧ p = q ++ x :: z := by
  have hne : t.newPath ++ p ≠ [] := by simp [apart.ne_nil.2]
  obtain ⟨z, hz⟩ := h
  obtain ⟨x, z', htail⟩ : ∃ x z', z ++ [(t.newPath ++ p).getLast hne] = x :: z' :=
    List.exists_cons_of_ne_nil (by simp)
  have hwhole : q' ++ x :: z' = t.newPath ++ p := by
    rw [← htail, ← List.append_assoc, hz]
    exact List.dropLast_append_getLast hne
  rcases List.append_eq_append_iff.mp hwhole with ⟨u, hup, hrest⟩ | ⟨q, hdown, hrest⟩
  · cases u with
    | nil =>
      rw [List.append_nil] at hup
      exact .inr ⟨[], x, z', by simp [hup], hrest.symm⟩
    | cons y u =>
      refine .inl ⟨(y :: u).dropLast, ?_⟩
      rw [← dropLast_newPath, hup, List.dropLast_append_of_ne_nil (by simp)]
  · exact .inr ⟨q, x, z', hdown, hrest⟩

/-- The directories above the new place of a part can be made, and nothing of the tree is
disturbed. -/
lemma Inv.parents (h : Inv t S w) (hpart : Part t p r) :
    ∃ fs', fs'.node (t.newPath ++ p).parentDir = some .dir ∧
      w.fs.createDirAll (t.newPath ++ p).parentDir = .ok fs' ∧ Inv t S { w with fs := fs' } := by
  have hup : ∀ q', q' <+: t.path.dropLast → w.fs.node q' = some .dir := by
    intro q' ⟨z, hz⟩
    have habove := h.above
    rw [← hz] at habove
    cases z with
    | nil => simpa using habove
    | cons x z => exact w.fs.dir_of_below (x := x) (q := z) (by simp [habove])
  have hfree : ∀ q', q' <+: (t.newPath ++ p).parentDir → ∀ b, w.fs.node q' ≠ some (.file b) := by
    intro q' hq' b hb
    rcases prefix_parentDir hq' with habove | ⟨q, x, z, rfl, rfl⟩
    · rw [hup q' habove] at hb
      cases hb
    · cases h.fits_dir hpart.dir_above hb
  obtain ⟨fs', hmade⟩ := Fs.createDirAll_ok hfree
  have hnode := Fs.node_createDirAll_cases hmade
  have hold : ∀ q, fs'.node (t.path ++ q) = w.fs.node (t.path ++ q) := by
    intro q
    refine (hnode _).resolve_right fun ⟨hnone, _, hprefix⟩ => ?_
    rcases prefix_parentDir hprefix with habove | ⟨y, x, z, heq, -⟩
    · rw [hup _ habove] at hnone
      cases hnone
    · exact (apart (t := t)).append q y (heq ▸ List.prefix_rfl)
  refine ⟨fs', Fs.dir_of_createDirAll hmade, hmade, h.parts, h.rows, h.ops,
    ⟨fun q hq => ?_, fun q hq => ?_⟩, h.free⟩
  · simp only [hold]
    refine ⟨(h.nodes.moved q hq).1, fun n hn => ?_⟩
    have harrived := (h.nodes.moved q hq).2 n hn
    rcases hnode (t.newPath ++ q) with hsame | ⟨hnone, -⟩
    · rw [hsame, harrived]
    · rw [harrived] at hnone
      cases hnone
  · simp only [hold]
    refine ⟨(h.nodes.waiting q hq).1, fun n m hn hm => ?_⟩
    rcases hnode (t.newPath ++ q) with hsame | ⟨-, hdir, hprefix⟩
    · exact (h.nodes.waiting q hq).2 n m hn (hsame ▸ hm)
    · obtain rfl := Option.some.inj (hdir.symm.trans hm)
      rcases prefix_parentDir hprefix with habove | ⟨y, x, z, heq, rfl⟩
      · have hlen := habove.length_le
        have := List.length_pos_iff.mpr t.below
        simp only [List.length_append, length_newPath, List.length_dropLast] at hlen
        omega
      · obtain rfl := List.append_cancel_left heq
        exact ⟨Option.some.inj (hn.symm.trans hpart.dir_above), rfl⟩

/-- The place of a part, wherever the tree is. -/
def place (t : TrackedFolder env) (S : List RelPath) (p : RelPath) : RelPath :=
  (if follows S p then t.newPath else t.path) ++ p

lemma Part.path_placed (h : Part t p r) : (placed t S r).relativePath = place t S p := by
  rw [placed_path h.row, rest_eq h.path, place]

lemma Part.node_place (hpart : Part t p r) {fs : Fs} (h : Nodes t S fs) :
    fs.node (place t S p) ≠ none := by
  obtain ⟨n, hn⟩ := Option.ne_none_iff_exists'.mp hpart.node
  unfold place
  split_ifs with hmoved
  · simp [(h.moved p hmoved).2 n hn]
  · simp [(h.waiting p (by simpa using hmoved)).1, hn]

/-- The tree after a part has moved. -/
lemma Nodes.move {fs fs' : Fs} (h : Nodes t S fs)
    (hmoved : Fs.Moved (fun _ => True) (t.path ++ p) (t.newPath ++ p) fs fs') :
    Nodes t (p :: S) fs' := by
  have hfixed : ∀ q, ¬p <+: q → fs'.node (t.path ++ q) = fs.node (t.path ++ q) ∧
      fs'.node (t.newPath ++ q) = fs.node (t.newPath ++ q) := by
    intro q hq
    have happ : ∀ base : RelPath, ¬base ++ p <+: base ++ q := fun base hp =>
      hq ((List.prefix_append_right_inj base).mp hp)
    exact ⟨hmoved.fixed _ (happ _) (apart.symm.append _ _),
      hmoved.fixed _ (apart.append _ _) (happ _)⟩
  constructor
  · intro q hq
    by_cases hp : p <+: q
    · obtain ⟨z, rfl⟩ := hp
      have hleft := hmoved.left z trivial
      have harrived := hmoved.arrived z trivial
      rw [List.append_assoc] at hleft harrived
      rw [List.append_assoc] at harrived
      refine ⟨hleft, fun n hn => ?_⟩
      rw [harrived]
      by_cases hbefore : follows S (p ++ z) = true
      · rw [(h.moved _ hbefore).1, Option.none_or, (h.moved _ hbefore).2 n hn]
      · rw [(h.waiting _ (by simpa using hbefore)).1, hn, Option.some_or]
    · rw [(hfixed q hp).1, (hfixed q hp).2]
      exact h.moved q ((follows_cons.mp hq).resolve_left hp)
  · intro q hq
    obtain ⟨hp, hS⟩ := not_or.mp (mt follows_cons.mpr (by simpa using hq))
    rw [(hfixed q hp).1, (hfixed q hp).2]
    exact h.waiting q (by simpa using hS)

/-- Where a part moves to, only directories are in the way of directories. -/
lemma Nodes.fits {fs : Fs} (h : Nodes t S fs) : fs.Fits (t.path ++ p) (t.newPath ++ p) := by
  intro z n m hn hm
  rw [List.append_assoc] at hn hm
  by_cases hmoved : follows S (p ++ z) = true
  · rw [(h.moved _ hmoved).1] at hn
    cases hn
  · have hwait := h.waiting _ (by simpa using hmoved)
    exact hwait.2 n m (hwait.1 ▸ hn) hm

/-- A part that has moved already moves no further. -/
lemma Nodes.again {fs : Fs} (h : Nodes t S fs) (hfollows : follows S p = true) :
    Nodes t (p :: S) fs := by
  have hsame : ∀ q, follows (p :: S) q = follows S q := by
    intro q
    refine Bool.eq_iff_iff.mpr (follows_cons.trans ?_)
    exact ⟨fun hq => hq.elim (follows_mono hfollows) id, .inr⟩
  exact ⟨fun q hq => h.moved q (hsame q ▸ hq), fun q hq => h.waiting q (hsame q ▸ hq)⟩

/-- **A part moves on disk**: it is there already, it is renamed, or it is merged into a directory
that is populated. -/
lemma ends_moveLocal (h : Nodes t S w.fs) (hpart : Part t p r)
    (hparent : w.fs.node (t.newPath ++ p).parentDir = some .dir) :
    Ends env (fun x w' => x = .ok () ∧ ∃ fs', w' = { w with fs := fs' } ∧ Nodes t (p :: S) fs')
      (Dispatcher.moveLocal (place t S p) (t.newPath ++ p)) w := by
  have hnode := hpart.node_place h
  simp only [Ends, Dispatcher.moveLocal, Prog.bind_eq, Prog.safe_bind, safe_io, FsCall.run,
    true_and, forall_const]
  by_cases hfollows : follows S p = true
  · have hplace : place t S p = t.newPath ++ p := by rw [place, if_pos hfollows]
    rw [hplace] at hnode ⊢
    rw [Fs.rename_self hnode hparent]
    exact ⟨rfl, w.fs, rfl, h.again hfollows⟩
  · have hplace : place t S p = t.path ++ p := by rw [place, if_neg hfollows]
    rw [hplace] at hnode ⊢
    have hapart : Fs.Apart (t.path ++ p) (t.newPath ++ p) :=
      ⟨apart.append _ _, apart.symm.append _ _⟩
    rcases Fs.moved_rename hnode hparent hapart h.fits.alike with
      ⟨fs', hok, hmoved⟩ | ⟨hfull, hsrc, hdst⟩
    · rw [hok]
      exact ⟨rfl, fs', rfl, h.move hmoved⟩
    · obtain ⟨fs', hmerge, hmoved⟩ :=
        Fs.moved_mergeMoveDirIn Fs.listing_children hsrc hdst hapart h.fits.alike
      rw [← Fs.mergeMoveDir_eq] at hmerge
      rw [hfull]
      simpa [FsCall.commit, FsCall.run, hmerge] using h.move hmoved

/-- A path of the tree after parts have moved. -/
lemma length_base (b b' : Bool) : (if b then t.newPath else t.path).length =
    (if b' then t.newPath else t.path).length := by
  cases b <;> cases b' <;> simp [length_newPath]

/-- The rows that a move selects are those of the part. -/
lemma Part.prefix_of_selected (hclear : t.Clear) (hpart : Part t p r) (hs : t.Row s)
    (h : ItemTable.Selected (place t S p) (placed t S s)) : p <+: t.rest s := by
  rw [ItemTable.Selected, placed_path hs, place] at h
  rcases h with heq | hlike
  · rw [(List.append_inj heq (length_base _ _)).2]
  · have hold : (t.path ++ p).likeBelow (t.path ++ t.rest s) = true :=
      likeBelow_append (length_base _ _) t.below hlike
    have hprefix := hclear.cases r s hpart.row hs (by rwa [hpart.path, path_eq hs])
    rw [hpart.path, path_eq hs] at hprefix
    exact (List.prefix_append_right_inj _).mp hprefix

lemma selected_of_prefix (h : p <+: q) : t.path ++ q = t.path ++ p ∨
    (t.path ++ p).likeBelow (t.path ++ q) = true := by
  obtain ⟨z, rfl⟩ := h
  cases z with
  | nil => exact .inl (by simp)
  | cons x z =>
    right
    simp [RelPath.likeBelow, t.below, List.isPrefixOf_iff_prefix]

/-- Where a row of a part goes. -/
lemma rebase_placed (hs : t.Row s) (hp : p <+: t.rest s) :
    RelPath.rebase (place t S p) (t.newPath ++ p) (placed t S s).relativePath =
      t.newPath ++ t.rest s := by
  obtain ⟨z, hz⟩ := hp
  have hlen : (place t S p).length =
      ((if follows S (t.rest s) then t.newPath else t.path) ++ p).length := by
    rw [place, List.length_append, List.length_append, length_base]
  rw [RelPath.rebase, placed_path hs, hlen]
  conv_lhs => rw [← hz, ← List.append_assoc]
  rw [hz, List.drop_left, List.append_assoc, hz]

/-- **What a move does to a row of the tree.** -/
lemma renamedTo_placed (hclear : t.Clear) (hpart : Part t p r) (hs : t.Row s) :
    ItemTable.renamedTo (place t S p) (t.newPath ++ p) (placed t S s) = placed t (p :: S) s := by
  by_cases hp : p <+: t.rest s
  · have hnow : follows (p :: S) (t.rest s) = true := follows_cons.mpr (.inl hp)
    have hafter : placed t (p :: S) s = { s with relativePath := t.newPath ++ t.rest s } :=
      if_pos hnow
    rw [ItemTable.renamedTo, rebase_placed hs hp, placed_repath, hafter]
    split_ifs with hselected
    · rfl
    · -- a row that is not selected has moved already
      refine if_pos (by_contra fun hwait => hselected ?_)
      have hwaits : ¬follows S p = true := fun hmoved => hwait (follows_mono hmoved hp)
      rw [ItemTable.Selected, placed_path hs, place, if_neg hwait, if_neg hwaits]
      exact selected_of_prefix hp
  · have hnot : ¬ItemTable.Selected (place t S p) (placed t S s) := fun hsel =>
      hp (hpart.prefix_of_selected hclear hs hsel)
    have hsame : follows (p :: S) (t.rest s) = follows S (t.rest s) := by
      refine Bool.eq_iff_iff.mpr (follows_cons.trans ?_)
      exact ⟨fun hq => hq.resolve_left hp, .inr⟩
    rw [ItemTable.renamedTo, if_neg hnot, placed, placed, hsame]

/-- What is selected by a move is of the tree. -/
lemma Inv.of_folded (h : Inv t S w) {x : SyncItem} (hx : x ∈ w.db.items) (b : Bool)
    (hfolded : TrackedFolder.Folded (if b then t.newPath else t.path) x.relativePath) :
    ∃ s, t.Row s ∧ placed t S s = x := by
  refine (h.rows x ?_).mp hx
  cases b
  · exact .inl hfolded
  · exact .inr (.inl hfolded)

lemma Inv.of_selected (h : Inv t S w) {x : SyncItem} (hx : x ∈ w.db.items)
    (hsel : ItemTable.Selected (place t S p) x) : ∃ s, t.Row s ∧ placed t S s = x := by
  refine h.of_folded hx (follows S p) ?_
  have happ : ∀ base : RelPath, base <+: base ++ p := fun base => List.prefix_append _ _
  rcases hsel with heq | hlike
  · rw [heq]
    exact folded_of_below (happ _)
  · exact ((happ _).map _).trans (folded_of_likeBelow hlike)

/-- **The rows after a part has moved.** -/
lemma Inv.mem_renameSubtree (hclear : t.Clear) (h : Inv t S w) (hpart : Part t p r)
    {x : SyncItem} :
    x ∈ w.db.items.renameSubtree (place t S p) (t.newPath ++ p) ↔
      ∃ y ∈ w.db.items, ItemTable.renamedTo (place t S p) (t.newPath ++ p) y = x := by
  have hto : ∀ s, t.Row s → ItemTable.Selected (place t S p) (placed t S s) →
      RelPath.rebase (place t S p) (t.newPath ++ p) (placed t S s).relativePath =
        t.newPath ++ t.rest s := fun s hs hsel =>
    rebase_placed hs (hpart.prefix_of_selected hclear hs hsel)
  refine ItemTable.mem_renameSubtree_iff (fun y hy hsel z hz hpath => ?_)
    fun y hy hsel z hz hsel' hpath => ?_
  · obtain ⟨s, hs, rfl⟩ := h.of_selected hy hsel
    rw [hto s hs hsel] at hpath
    obtain ⟨s', hs', rfl⟩ := h.of_folded hz true (folded_of_below ⟨_, hpath.symm⟩)
    rw [placed_path hs'] at hpath
    rw [placed_id, placed_id, row_inj hs' hs (List.append_inj hpath (length_base _ true)).2]
  · obtain ⟨s, hs, rfl⟩ := h.of_selected hy hsel
    obtain ⟨s', hs', rfl⟩ := h.of_selected hz hsel'
    rw [hto s hs hsel, hto s' hs' hsel'] at hpath
    rw [placed_id, placed_id, row_inj hs hs' (List.append_cancel_left hpath)]

/-- **The rows of the tree after a part has moved.** -/
lemma Inv.rows_move (hclear : t.Clear) (h : Inv t S w) (hpart : Part t p r) {x : SyncItem}
    (hx : t.Near x) :
    x ∈ w.db.items.renameSubtree (place t S p) (t.newPath ++ p) ↔
      ∃ s, t.Row s ∧ placed t (p :: S) s = x := by
  rw [h.mem_renameSubtree hclear hpart]
  constructor
  · rintro ⟨y, hy, hyx⟩
    by_cases hsel : ItemTable.Selected (place t S p) y
    · obtain ⟨s, hs, rfl⟩ := h.of_selected hy hsel
      exact ⟨s, hs, (renamedTo_placed hclear hpart hs).symm.trans hyx⟩
    · rw [ItemTable.renamedTo, if_neg hsel] at hyx
      obtain ⟨s, hs, rfl⟩ := (h.rows y (hyx ▸ hx)).mp hy
      refine ⟨s, hs, ?_⟩
      rw [← renamedTo_placed hclear hpart hs, ItemTable.renamedTo, if_neg hsel, hyx]
  · rintro ⟨s, hs, hsx⟩
    exact ⟨_, h.mem hs, (renamedTo_placed hclear hpart hs).trans hsx⟩

/-! ## Steps of the dispatcher -/

/-- **Executing the move of a part.** -/
lemma ends_execute (hclear : t.Clear) (h : Inv t S w) {o : PendingOperation} (root : FileId)
    (hmoves : Moves t o p) (hpart : Part t p r) :
    Ends env (fun x w' => x = .ok () ∧ Inv t (p :: S) w' ∧ w'.db.ops = w.db.ops ∧
        w'.remote = w.remote)
      (Dispatcher.executeItem env root o (placed t S r)) w := by
  obtain ⟨fs', hparent, hmade, hinv⟩ := h.parents hpart
  simp only [Dispatcher.executeItem, hmoves.op, Dispatcher.executeRenameLocal, hmoves.payload,
    decodePayload, Payload.asRename, Prog.bind_eq, Prog.ofExcept_ok, Prog.pure_bind,
    hpart.path_placed]
  rw [Ends, Prog.safe_bind, safe_ioTry]
  simp only [FsCall.run, hmade, FsCall.commit]
  refine fun _ => ⟨trivial, ?_⟩
  refine Prog.Safe.bind (ends_moveLocal hinv.nodes hpart hparent) ?_
    fun e w₁ h' => by cases h'.1
  rintro _ w₁ ⟨_, fs₁, hw₁, hnodes⟩
  rw [safe_sql]
  refine fun _ => ⟨trivial, rfl, ?_⟩
  subst hw₁
  have hops : (w.db.withItems (w.db.items.renameSubtree (place t S p) (t.newPath ++ p))).ops =
      w.db.ops := by
    refine Db.ops_withItems_of_ids fun x hx => ?_
    refine ⟨_, (h.mem_renameSubtree hclear hpart).mpr ⟨x, hx, rfl⟩, ?_⟩
    unfold ItemTable.renamedTo
    split_ifs <;> rfl
  refine ⟨⟨fun q hq => ?_, fun x hx => h.rows_move hclear hpart hx, fun o' ho' => ?_, hnodes,
    h.free⟩, hops, rfl⟩
  · rcases List.mem_cons.mp hq with rfl | hq
    · exact ⟨r, hpart⟩
    · exact h.parts q hq
  · exact h.ops o' (hops ▸ ho')

/-- What a step of the dispatcher does: nothing, or it takes the move of a part from the queue and
moves the part. -/
inductive Stepped (t : TrackedFolder env) (S : List RelPath) (w w' : World) : Prop
  | nothing (same : w' = w)
  | moved {o : PendingOperation} {p : RelPath} (mem : o ∈ w.db.ops) (moves : Moves t o p)
      (inv : Inv t (p :: S) w') (ops : ∀ o', o' ∈ w'.db.ops ↔ o' ∈ w.db.ops ∧ o'.id ≠ o.id)
      (remote : w'.remote = w.remote)

/-- **A step of the dispatcher** moves a part. -/
lemma stepped (hclear : t.Clear) (h : Inv t S w) (root : FileId)
    (hown : ∀ o, OpTable.nextDue w.db.ops w.now = some o → t.Own o.syncItemId) :
    Stepped t S w (runTask env (Dispatcher.drainOne env root) w).2 := by
  rcases drainOne_cases env root w with ⟨-, hsame⟩ | ⟨o, hnext, hcase⟩
  · exact .nothing hsame
  have ho := (OpTable.nextDue_mem hnext).1
  obtain ⟨p, hmoves⟩ := h.ops o ho (hown o hnext)
  obtain ⟨r, hpart, hid⟩ := hmoves.part
  rcases hcase with ⟨hparked, -⟩ | ⟨-, x, w₁, hrun, hafter⟩
  · rw [hmoves.fresh] at hparked
    exact absurd hparked (by decide)
  have hend := (ends_execute hclear h root hmoves hpart).run
  rw [← execute_of_row root (h.mem hpart.row) (placed_id.trans hid), hrun] at hend
  obtain ⟨rfl, hinv, hops, hremote⟩ := hend
  refine .moved ho hmoves ?_ (fun o' => hops ▸ hafter.ops o') (hafter.drive.trans hremote)
  refine ⟨hinv.parts, fun y hy => ?_, fun o' ho' => hinv.ops o' ((hafter.ops o').mp ho').1,
    hafter.fs ▸ hinv.nodes, fun rel f hin => hafter.inFlight ▸ hinv.free rel f hin⟩
  rw [hafter.items]
  exact hinv.rows y hy

/-! ## Runs -/

/-- The whole tree has moved, or its move is queued. -/
def Underway (t : TrackedFolder env) (S : List RelPath) (w : World) : Prop :=
  [] ∈ S ∨ ∃ o ∈ w.db.ops, Moves t o []

/-- The place an operation moves to tells which part it moves. -/
lemma Moves.unique {o : PendingOperation} (h : Moves t o p) (h' : Moves t o q) : p = q := by
  have hsame := h.payload.symm.trans h'.payload
  simpa using hsame

/-- A delivery keeps the invariant. -/
lemma Inv.delivered (h : Inv t S w) (hd : Delivered t S c w w') :
    Inv t S w' ∧ (Underway t S w' ↔ t.Anchors c ∨ Underway t S w) ∧ w'.remote = w.remote := by
  cases hd with
  | nothing known =>
    refine ⟨h, ⟨.inr, fun hu => hu.elim (fun hc => .inl ?_) id⟩, rfl⟩
    obtain ⟨p, hp, hnil⟩ := follows_iff.mp (known hc)
    exact List.prefix_nil.mp hnil ▸ hp
  | @queued p r part anchor =>
    have hr : ∃ s ∈ w.db.items, s.id = r.id := ⟨_, h.mem part.row, placed_id⟩
    have hnew : Moves t (Continuous.nextOp w r.id .renameLocal (some (.rename ⟨t.newPath ++ p⟩))) p :=
      ⟨⟨r, part, rfl⟩, rfl, rfl, rfl⟩
    refine ⟨⟨h.parts, fun x hx => ?_, fun o ho hown => ?_, h.nodes, h.free⟩, ?_, rfl⟩
    · rw [Continuous.queued_items]
      exact h.rows x hx
    · rcases (Continuous.mem_queued hr).mp ho with hold | rfl
      · exact h.ops o hold hown
      · exact ⟨p, hnew⟩
    · rw [anchor]
      constructor
      · rintro (hmoved | ⟨o, ho, hmoves⟩)
        · exact .inr (.inl hmoved)
        · rcases (Continuous.mem_queued hr).mp ho with hold | rfl
          · exact .inr (.inr ⟨o, hold, hmoves⟩)
          · exact .inl (hnew.unique hmoves)
      · rintro (rfl | hmoved | ⟨o, ho, hmoves⟩)
        · exact .inr ⟨_, (Continuous.mem_queued hr).mpr (.inr rfl), hnew⟩
        · exact .inl hmoved
        · exact .inr ⟨o, (Continuous.mem_queued hr).mpr (.inl ho), hmoves⟩

/-- A step of the dispatcher keeps it. -/
lemma Inv.stepped (h : Inv t S w) (hs : Stepped t S w w') :
    ∃ S', Inv t S' w' ∧ (Underway t S' w' ↔ Underway t S w) ∧ w'.remote = w.remote := by
  cases hs with
  | nothing same =>
    subst same
    exact ⟨S, h, .rfl, rfl⟩
  | @moved o p mem moves inv ops remote =>
    refine ⟨p :: S, inv, ⟨fun hu => ?_, fun hu => ?_⟩, remote⟩
    · rcases hu with hmoved | ⟨o', ho', hmoves⟩
      · rcases List.mem_cons.mp hmoved with rfl | hmoved
        · exact .inr ⟨o, mem, moves⟩
        · exact .inl hmoved
      · exact .inr ⟨o', ((ops o').mp ho').1, hmoves⟩
    · rcases hu with hmoved | ⟨o', ho', hmoves⟩
      · exact .inl (.tail _ hmoved)
      · by_cases hid : o'.id = o.id
        · obtain rfl := w.db.ops.key_inj ho' mem hid
          exact .inl (moves.unique hmoves ▸ .head _)
        · exact .inr ⟨o', (ops o').mpr ⟨ho', hid⟩, hmoves⟩

/-- **The invariant of a run**: parts of the tree have moved, and the whole tree has, or is going
to, exactly when one of the changes that move it was delivered. -/
lemma inv_run (hclear : t.Clear) {cs : List RemoteChange} (run : t.Runs cs w) :
    ∃ S, Inv t S w ∧ (Underway t S w ↔ ∃ c ∈ cs, t.Anchors c) := by
  induction run with
  | start =>
    refine ⟨[], inv_start hclear, ?_⟩
    have hnone : ¬Underway t [] t.renamed := by
      rintro (hmoved | ⟨o, ho, hmoves⟩)
      · cases hmoved
      · obtain ⟨r, hpart, hid⟩ := hmoves.part
        exact t.idle r hpart.row.1 hpart.row.2 o ho hid.symm
    simp [hnone]
  | deliver run resulting ih =>
    obtain ⟨S, hinv, hiff⟩ := ih
    obtain ⟨hinv', hstep, -⟩ := hinv.delivered (ends_deliver hinv resulting).run.2
    refine ⟨S, hinv', hstep.trans ?_⟩
    rw [hiff, List.exists_mem_cons_iff]
  | drain run root own ih =>
    obtain ⟨S, hinv, hiff⟩ := ih
    obtain ⟨S', hinv', hsame, -⟩ := hinv.stepped (FolderRename.stepped hclear hinv root own)
    exact ⟨S', hinv', hsame.trans hiff⟩
  | elsewhere run spares ih =>
    obtain ⟨S, hinv, hiff⟩ := ih
    refine ⟨S, hinv.elsewhere spares, Iff.trans ?_ hiff⟩
    refine or_congr_right (exists_congr fun o => and_congr_left fun hmoves => ?_)
    obtain ⟨r, hpart, hid⟩ := hmoves.part
    exact spares.ops o ⟨r, hpart.row, hid⟩

/-- The tree has converged when all of it has moved. -/
lemma Inv.converged (h : Inv t S w) : t.Converged w ↔ [] ∈ S := by
  constructor
  · intro hconverged
    by_contra hnot
    have hwait : follows S [] = false := by
      rw [← Bool.not_eq_true]
      intro hfollows
      obtain ⟨p, hp, hnil⟩ := follows_iff.mp hfollows
      exact hnot (List.prefix_nil.mp hnil ▸ hp)
    have hnode := (h.nodes.waiting [] hwait).1
    rw [List.append_nil, hconverged.gone, dir_start] at hnode
    cases hnode
  · intro hmoved
    have hall : ∀ q, follows S q = true := fun q => follows_iff.mpr ⟨[], hmoved, List.nil_prefix⟩
    refine ⟨fun s hs => ?_, fun rel f hin hsync => ?_, ?_, fun q => (h.nodes.moved q (hall q)).2⟩
    · have hplaced : placed t S s = { s with relativePath := t.newPath ++ t.rest s } :=
        if_pos (hall _)
      exact hplaced ▸ h.mem hs
    · obtain ⟨r, hr, hrow, -⟩ := exists_row hin hsync
      refine ⟨_, ⟨h.mem hrow, placed_remoteId.trans hr.bound⟩, fun x ⟨hx, hid⟩ => ?_⟩
      obtain ⟨s, hs, rfl⟩ := (h.rows x (.inr (.inr (.inr ⟨rel, f, hin, hsync, hid⟩)))).mp hx
      have hsame := hr.only s hs.1 (placed_remoteId.symm.trans hid)
      rw [t.start.db.items.id_inj hs.1 hrow.1 hsame]
    · simpa using (h.nodes.moved [] (hall [])).1

/-- **A renamed folder converges.** Nothing is in the way at its new place. In every run, what is
queued for the tree are moves on disk, and neither a delivery nor a step of the dispatcher sends
anything to Drive. Once nothing is queued for the tree, it has converged exactly when the change of
the folder itself or of a regular file directly in it was among those delivered. -/
theorem converged_iff {cs : List RemoteChange} (hclear : t.Clear) (run : t.Runs cs w) :
    (∀ o ∈ w.db.ops, t.Own o.syncItemId → o.op = .renameLocal) ∧
      (∀ c, t.Resulting c →
        (runTask env (Continuous.applyRemote env c) w).2.remote = w.remote) ∧
      (∀ root, (∀ o, OpTable.nextDue w.db.ops w.now = some o → t.Own o.syncItemId) →
        (runTask env (Dispatcher.drainOne env root) w).2.remote = w.remote) ∧
      (t.Idle w → (t.Converged w ↔ ∃ c ∈ cs, t.Anchors c)) := by
  obtain ⟨S, hinv, hiff⟩ := inv_run hclear run
  refine ⟨fun o ho hown => ?_, fun c hc => ?_, fun root hown => ?_, fun hidle => ?_⟩
  · obtain ⟨p, hmoves⟩ := hinv.ops o ho hown
    exact hmoves.op
  · exact (hinv.delivered (ends_deliver hinv hc).run.2).2.2
  · obtain ⟨_, _, _, hremote⟩ := hinv.stepped (stepped hclear hinv root hown)
    exact hremote
  · rw [hinv.converged, ← hiff]
    refine ⟨.inl, fun hu => hu.resolve_right fun ⟨o, ho, hmoves⟩ => ?_⟩
    obtain ⟨r, hpart, hid⟩ := hmoves.part
    exact hidle o ho ⟨r, hpart.row, hid⟩

/-! ## A folder in a folder -/

/-- The mapped folder `Sync` (2) holds the folder `a` (3), which holds the folder `b` (4) with the
file `f.txt` (5). -/
def deepDrive : Drive where
  files :=
    ⟨⟨[⟨1, "My Drive", folderMime, none, [], false, true, true⟩,
       ⟨2, "Sync", folderMime, none, [1], false, true, true⟩,
       ⟨3, "a", folderMime, none, [2], false, true, true⟩,
       ⟨4, "b", folderMime, none, [3], false, true, true⟩,
       ⟨5, "f.txt", "text/plain", some [65], [4], false, true, true⟩],
      by simp⟩, 6, by simp⟩
  rootNum := 1
  feed := [(3, false), (4, false), (5, false)]

/-- All of it has arrived. -/
def deepArrived : World :=
  performAll .plain
    [.job (.batch ⟨[⟨.id 3, false, some ⟨.id 3, "a", folderMime, none, none, [.id 2], false⟩,
        some ["a"]⟩,
      ⟨.id 4, false, some ⟨.id 4, "b", folderMime, none, none, [.id 3], false⟩,
        some ["a", "b"]⟩,
      ⟨.id 5, false, some ⟨.id 5, "f.txt", "text/plain", some 1, some "A", [.id 4], false⟩,
        some ["a", "b", "f.txt"]⟩], 3⟩) 100,
      .job (.drain (.id 2)) 100, .job (.drain (.id 2)) 100, .job (.drain (.id 2)) 100]
    (World.fresh deepDrive)

/-- The objects in `a`. -/
lemma inFolder_deep (h : InFolder deepArrived.remote.drive 3 rel f) :
    rel = [] ∧ f = ⟨3, "a", folderMime, none, [2], false, true, true⟩ ∨
      rel = ["b"] ∧ f = ⟨4, "b", folderMime, none, [3], false, true, true⟩ ∨
      rel = ["b", "f.txt"] ∧ f = ⟨5, "f.txt", "text/plain", some [65], [4], false, true, true⟩ := by
  have hfiles : ∀ {g : DriveFile}, g ∈ deepArrived.remote.drive.files →
      g ∈ deepDrive.files.table.rows := fun hg => Data.Serial.mem_def.mp hg
  simp only [deepDrive, List.mem_cons, List.not_mem_nil, or_false] at hfiles
  induction h with
  | self mem num =>
    rcases hfiles mem with rfl | rfl | rfl | rfl | rfl <;> simp at num ⊢
  | child above folder mem parent live other ih =>
    rcases hfiles mem with rfl | rfl | rfl | rfl | rfl <;>
      rcases ih with ⟨rfl, rfl⟩ | ⟨rfl, rfl⟩ | ⟨rfl, rfl⟩ <;> simp at parent other ⊢

/-- The rows of `a` and of what is in it. -/
lemma mem_deep {r : SyncItem} : r ∈ deepArrived.db.items ↔
    r = ⟨1, ["a"], .dir, some (.id 3), none, none, .synced, none⟩ ∨
      r = ⟨2, ["a", "b"], .dir, some (.id 4), none, none, .synced, none⟩ ∨
      r = ⟨3, ["a", "b", "f.txt"], .file, some (.id 5), some 1, some "A", .pendingLocal, none⟩ := by
  have hrows : deepArrived.db.items.rows =
      [⟨1, ["a"], .dir, some (.id 3), none, none, .synced, none⟩,
        ⟨2, ["a", "b"], .dir, some (.id 4), none, none, .synced, none⟩,
        ⟨3, ["a", "b", "f.txt"], .file, some (.id 5), some 1, some "A", .pendingLocal, none⟩] := by
    decide +kernel
  rw [← ItemTable.mem_rows, hrows]
  simp

/-- No two of them have one id. -/
lemma deep_only {r s : SyncItem} (hr : r ∈ deepArrived.db.items) (hs : s ∈ deepArrived.db.items)
    (h : s.remoteId = r.remoteId) : s.id = r.id := by
  rcases mem_deep.mp hr with rfl | rfl | rfl <;> rcases mem_deep.mp hs with rfl | rfl | rfl <;>
    simp at h ⊢

/-- `a` gets the name `x`. -/
def deepFolder : TrackedFolder .plain where
  start := deepArrived
  num := 3
  path := ["a"]
  name := "x"
  below := by simp
  other := by simp
  folder := ⟨_, .self (Data.Serial.mem_def.mpr (.tail _ (.tail _ (.head _)))) rfl rfl rfl⟩
  synced := by
    intro rel f hin _
    rcases inFolder_deep hin with ⟨rfl, rfl⟩ | ⟨rfl, rfl⟩ | ⟨rfl, rfl⟩
    · have hrow := mem_deep.mpr (.inl rfl)
      exact ⟨_, hrow, rfl, fun s hs hid => deep_only hrow hs hid, rfl, rfl, rfl, nofun,
        .dir, by decide +kernel, by simp⟩
    · have hrow := mem_deep.mpr (.inr (.inl rfl))
      exact ⟨_, hrow, rfl, fun s hs hid => deep_only hrow hs hid, rfl, rfl, rfl, nofun,
        .dir, by decide +kernel, by simp⟩
    · have hrow := mem_deep.mpr (.inr (.inr rfl))
      refine ⟨_, hrow, rfl, fun s hs hid => deep_only hrow hs hid, rfl, rfl, rfl, fun b hb _ => ?_,
        .file [65], by decide +kernel, by simp [folderMime]⟩
      obtain rfl := Option.some.inj hb
      exact ⟨rfl, rfl⟩
  idle := by
    intro r _ _ o ho
    have hnone : deepArrived.db.ops.table.rows = [] := by decide +kernel
    rw [Data.Serial.mem_def, hnone] at ho
    cases ho
  free := by
    intro rel f _
    have hnone : deepArrived.inFlight = [] := by decide +kernel
    simp [hnone]

lemma deep_clear : deepFolder.Clear := by
  refine ⟨fun r hr _ => ?_, fun r s hr hs hlike => ?_, fun q n m _ hm => ?_⟩
  · rcases mem_deep.mp hr with rfl | rfl | rfl <;> simp [deepFolder]
  · rcases mem_deep.mp hr.1 with rfl | rfl | rfl <;>
      rcases mem_deep.mp hs.1 with rfl | rfl | rfl <;> revert hlike <;> decide
  · -- nothing is at the new path
    have hnodes : ∀ x ∈ deepArrived.fs.nodes.rows, x.1.head? = some "a" := by decide +kernel
    change deepArrived.fs.node ("x" :: q) = some m at hm
    rw [Fs.node_of_ne_nil _ (by simp)] at hm
    have := hnodes _ (Data.FinMap.val_eq_some.mp hm)
    simp at this

/-- The state after a change of an object of the tree was delivered and the operation that it
queued was executed. -/
def deepMoved (c : RemoteChange) : World :=
  (runTask .plain (Dispatcher.drainOne .plain (.id 2))
    (runTask .plain (Continuous.applyRemote .plain c) deepFolder.renamed).2).2

/-- The change of the folder itself. -/
def folderChange : RemoteChange :=
  deepFolder.change [] ⟨3, "x", folderMime, none, [2], false, true, true⟩

/-- The change of the file in the folder in it. -/
def fileChange : RemoteChange :=
  deepFolder.change ["b", "f.txt"] ⟨5, "f.txt", "text/plain", some [65], [4], false, true, true⟩

lemma resulting_folderChange : deepFolder.Resulting folderChange :=
  ⟨[], _, .self (Data.Serial.mem_def.mpr (.tail _ (.tail _ (.head _)))) rfl rfl rfl, rfl⟩

lemma resulting_fileChange : deepFolder.Resulting fileChange := by
  have hfolder : InFolder deepFolder.drive 3 [] ⟨3, "x", folderMime, none, [2], false, true, true⟩ :=
    .self (Data.Serial.mem_def.mpr (.tail _ (.tail _ (.head _)))) rfl rfl rfl
  have hnested : InFolder deepFolder.drive 3 ["b"]
      ⟨4, "b", folderMime, none, [3], false, true, true⟩ :=
    .child hfolder rfl (Data.Serial.mem_def.mpr (.tail _ (.tail _ (.tail _ (.head _))))) rfl rfl
      (by simp)
  exact ⟨["b", "f.txt"], _, .child hnested rfl
    (Data.Serial.mem_def.mpr (.tail _ (.tail _ (.tail _ (.tail _ (.head _)))))) rfl rfl (by simp), rfl⟩

/-- The next operation is for a row of the tree. -/
lemma runs_deepMoved {c : RemoteChange} (h : deepFolder.Resulting c) {o : PendingOperation}
    (hnext : OpTable.nextDue (runTask .plain (Continuous.applyRemote .plain c)
      deepFolder.renamed).2.db.ops 0 = some o)
    (hown : deepFolder.Own o.syncItemId) (hnow : (runTask .plain (Continuous.applyRemote .plain c)
      deepFolder.renamed).2.now = 0) :
    deepFolder.Runs [c] (deepMoved c) :=
  .drain (.deliver .start h) (.id 2) fun o' ho' => by
    rw [hnow] at ho'
    exact Option.some.inj (hnext.symm.trans ho') ▸ hown

/-- A delivery of the folder's own change moves all of it. -/
theorem folder_moved : deepFolder.Converged (deepMoved folderChange) := by
  have hrun : deepFolder.Runs [folderChange] (deepMoved folderChange) :=
    runs_deepMoved resulting_folderChange (o := ⟨4, 1, .renameLocal, some (.rename ⟨["x"]⟩), 0, 0⟩)
      rfl ⟨_, ⟨mem_deep.mpr (.inl rfl), by simp [deepFolder]⟩, rfl⟩ rfl
  refine ((converged_iff deep_clear hrun).2.2.2 ?_).mpr ⟨_, .head _, .inl rfl⟩
  intro o ho
  have hnone : (deepMoved folderChange).db.ops.table.rows = [] := by decide +kernel
  rw [Data.Serial.mem_def, hnone] at ho
  cases ho

/-- A delivery of the change of a file that is not directly in the folder leaves the folder where
it was. -/
theorem folder_stranded : ∃ (t : TrackedFolder .plain) (cs : List RemoteChange) (w : World),
    t.Clear ∧ t.Runs cs w ∧ cs ≠ [] ∧ t.Idle w ∧ ¬t.Converged w := by
  refine ⟨deepFolder, [fileChange], deepMoved fileChange, deep_clear,
    runs_deepMoved resulting_fileChange
      (o := ⟨4, 2, .renameLocal, some (.rename ⟨["x", "b"]⟩), 0, 0⟩) rfl
      ⟨_, ⟨mem_deep.mpr (.inr (.inl rfl)), by simp [deepFolder]⟩, rfl⟩ rfl, by simp,
    fun o ho => ?_, fun h => ?_⟩
  · have hnone : (deepMoved fileChange).db.ops.table.rows = [] := by decide +kernel
    rw [Data.Serial.mem_def, hnone] at ho
    cases ho
  · have hleft : (deepMoved fileChange).fs.node ["a"] = some .dir := by decide +kernel
    rw [show (deepMoved fileChange).fs.node ["a"] = none from h.gone] at hleft
    cases hleft

end AirDrive.FolderRename
