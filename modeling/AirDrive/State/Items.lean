import AirDrive.Data.Table
import AirDrive.State.Path

set_option relaxedAutoImplicit false
set_option autoImplicit false

/-!
# The `sync_item` table

One row per known file or folder of the mapping. The constraints of the schema are part of the
table: row ids are unique and below the autoincrement counter, and no two rows have the same
relative path. The mapping id of the source is always `1` and is left out.

## Main definitions

* `AirDrive.SyncItem`, `AirDrive.NewSyncItem` — rows, and rows without an id.
* `AirDrive.ItemTable` — the table with its constraints.
* `AirDrive.ItemTable.insert`, `AirDrive.ItemTable.modify`, `AirDrive.ItemTable.keep`,
  `AirDrive.ItemTable.setRelativePath`, `AirDrive.ItemTable.renameSubtree` — the writes.

## Main results

* `AirDrive.ItemTable.getByRelativePath_eq_some`, `AirDrive.ItemTable.getById_eq_some` — lookups
  as memberships.
* `AirDrive.ItemTable.mem_insert`, `AirDrive.ItemTable.mem_modify`,
  `AirDrive.ItemTable.mem_setRelativePath` — what a write leaves in the table.
* `AirDrive.ItemTable.mem_renameSubtree` — `rename_subtree` changes nothing of a row but its path.
-/

namespace AirDrive

open Data

/-- A Drive file id: the alias `root` of the user's My Drive folder, or the id that Drive minted
for an object. -/
inductive FileId
  | rootAlias
  | id (n : ℕ)
deriving DecidableEq, Repr

/-- `sync_item.id`. -/
abbrev ItemId := ℕ

/-- `sync_item.kind`. -/
inductive ItemKind
  | file
  | dir
deriving DecidableEq, Repr

/-- `sync_item.state`. -/
inductive ItemState
  | synced
  | pendingLocal
  | pendingRemote
  | conflict
  | skipped
deriving DecidableEq, Repr

/-- A `sync_item` row. A row with a `trashedAt` is a tombstone. -/
structure SyncItem where
  /-- Primary key. -/
  id : ItemId
  /-- Path relative to the watched local root. -/
  relativePath : RelPath
  /-- File or directory. -/
  kind : ItemKind
  /-- Drive file id; `none` before the first upload of a local create. -/
  remoteId : Option FileId
  /-- Size in bytes for files. -/
  size : Option ℕ
  /-- Hex MD5 for files. -/
  md5 : Option String
  /-- Lifecycle state. -/
  state : ItemState
  /-- When the row became a tombstone. -/
  trashedAt : Option ℕ
deriving DecidableEq, Repr

/-- A row without an id, as given to `insert`. -/
structure NewSyncItem where
  /-- Path relative to the watched local root. -/
  relativePath : RelPath
  /-- File or directory. -/
  kind : ItemKind
  /-- Drive file id, when known. -/
  remoteId : Option FileId
  /-- Size in bytes for files. -/
  size : Option ℕ
  /-- Hex MD5 for files. -/
  md5 : Option String
  /-- Initial state. -/
  state : ItemState
deriving DecidableEq, Repr

/-- The row made from a new row: live, under the given id. -/
def NewSyncItem.withId (new : NewSyncItem) (id : ItemId) : SyncItem :=
  { id, relativePath := new.relativePath, kind := new.kind, remoteId := new.remoteId,
    size := new.size, md5 := new.md5, state := new.state, trashedAt := none }

@[simp] lemma NewSyncItem.withId_id (new : NewSyncItem) (id : ItemId) : (new.withId id).id = id :=
  rfl

@[simp] lemma NewSyncItem.withId_relativePath (new : NewSyncItem) (id : ItemId) :
    (new.withId id).relativePath = new.relativePath := rfl

/-- The `sync_item` table with the constraints of its schema. -/
structure ItemTable where
  /-- The rows, keyed by their autoincrement id. -/
  serial : Serial SyncItem.id
  /-- The unique index on the relative path. -/
  paths : (serial.table.rows.map SyncItem.relativePath).Nodup

namespace ItemTable

instance : Membership SyncItem ItemTable := ⟨fun t r => r ∈ t.serial⟩

lemma mem_def {t : ItemTable} {r : SyncItem} : r ∈ t ↔ r ∈ t.serial := Iff.rfl

/-- The table with no row. -/
def empty : ItemTable := ⟨Serial.empty, List.nodup_nil⟩

instance : Inhabited ItemTable := ⟨empty⟩

@[simp] lemma not_mem_empty (r : SyncItem) : r ∉ empty := by simp [mem_def, empty]

/-- The rows, in id order. -/
def rows (t : ItemTable) : List SyncItem := t.serial.table.rows

/-- The id of the next row. -/
def nextId (t : ItemTable) : ItemId := t.serial.next

@[simp] lemma mem_rows {t : ItemTable} {r : SyncItem} : r ∈ t.rows ↔ r ∈ t := Iff.rfl

lemma id_lt {t : ItemTable} {r : SyncItem} (hr : r ∈ t) : r.id < t.nextId := t.serial.key_lt hr

lemma id_inj {t : ItemTable} {r s : SyncItem} (hr : r ∈ t) (hs : s ∈ t) (h : r.id = s.id) :
    r = s := t.serial.key_inj hr hs h

lemma path_inj {t : ItemTable} {r s : SyncItem} (hr : r ∈ t) (hs : s ∈ t)
    (h : r.relativePath = s.relativePath) : r = s :=
  List.inj_on_of_nodup_map t.paths hr hs h

/-- A list of rows with distinct ids has distinct paths when rows of one path are one row. -/
private lemma nodup_paths (s : Serial SyncItem.id)
    (h : ∀ r ∈ s, ∀ r' ∈ s, r.relativePath = r'.relativePath → r = r') :
    (s.table.rows.map SyncItem.relativePath).Nodup :=
  (List.nodup_map_iff_inj_on (List.Nodup.of_map _ s.table.nodup)).mpr h

/-! ## Lookups -/

/-- `get_by_relative_path`. -/
def getByRelativePath (t : ItemTable) (rel : RelPath) : Option SyncItem :=
  t.rows.find? fun r => r.relativePath = rel

/-- `get_by_id`. -/
def getById (t : ItemTable) (id : ItemId) : Option SyncItem := t.serial.get id

/-- `get_by_remote_id`: the first row, in id order, bound to the Drive id. -/
def getByRemoteId (t : ItemTable) (rid : FileId) : Option SyncItem :=
  t.rows.find? fun r => r.remoteId = some rid

/-- `list_for_mapping`: all rows, ordered by path. -/
def listForMapping (t : ItemTable) : List SyncItem := RelPath.sort SyncItem.relativePath t.rows

lemma getByRelativePath_eq_some {t : ItemTable} {rel : RelPath} {r : SyncItem} :
    t.getByRelativePath rel = some r ↔ r ∈ t ∧ r.relativePath = rel := by
  constructor
  · intro h
    exact ⟨List.mem_of_find?_eq_some h, by simpa using List.find?_some h⟩
  · rintro ⟨hr, rfl⟩
    cases h : t.getByRelativePath r.relativePath with
    | none => simpa using List.find?_eq_none.mp h r hr
    | some s =>
      have hs : s.relativePath = r.relativePath := by simpa using List.find?_some h
      rw [t.path_inj (List.mem_of_find?_eq_some h) hr hs]

lemma getByRelativePath_eq_none {t : ItemTable} {rel : RelPath} :
    t.getByRelativePath rel = none ↔ ∀ r ∈ t, r.relativePath ≠ rel := by
  simp [getByRelativePath]

lemma getById_eq_some {t : ItemTable} {id : ItemId} {r : SyncItem} :
    t.getById id = some r ↔ r ∈ t ∧ r.id = id := Serial.get_eq_some

lemma getById_eq_none {t : ItemTable} {id : ItemId} :
    t.getById id = none ↔ ∀ r ∈ t, r.id ≠ id := Serial.get_eq_none

lemma getByRemoteId_mem {t : ItemTable} {rid : FileId} {r : SyncItem}
    (h : t.getByRemoteId rid = some r) : r ∈ t ∧ r.remoteId = some rid :=
  ⟨List.mem_of_find?_eq_some h, by simpa using List.find?_some h⟩

lemma getByRemoteId_eq_none {t : ItemTable} {rid : FileId} :
    t.getByRemoteId rid = none ↔ ∀ r ∈ t, r.remoteId ≠ some rid := by
  simp [getByRemoteId]

/-- The only row bound to an id is the one that is found. -/
lemma getByRemoteId_of_only {t : ItemTable} {rid : FileId} {r : SyncItem} (hr : r ∈ t)
    (hrid : r.remoteId = some rid) (honly : ∀ s ∈ t, s.remoteId = some rid → s.id = r.id) :
    t.getByRemoteId rid = some r := by
  cases hget : t.getByRemoteId rid with
  | none => exact absurd hrid (getByRemoteId_eq_none.mp hget r hr)
  | some s =>
    obtain ⟨hs, hsrid⟩ := getByRemoteId_mem hget
    rw [id_inj hs hr (honly s hs hsrid)]

@[simp] lemma mem_listForMapping {t : ItemTable} {r : SyncItem} :
    r ∈ t.listForMapping ↔ r ∈ t := by
  simp [listForMapping]

/-! ## Writes -/

/-- Keep the rows that satisfy `p`: the deletions. -/
def keep (t : ItemTable) (p : SyncItem → Bool) : ItemTable :=
  ⟨t.serial.keep p, t.paths.sublist (List.filter_sublist.map _)⟩

@[simp] lemma mem_keep {t : ItemTable} {p : SyncItem → Bool} {r : SyncItem} :
    r ∈ t.keep p ↔ r ∈ t ∧ p r = true := Serial.mem_keep

@[simp] lemma nextId_keep (t : ItemTable) (p : SyncItem → Bool) : (t.keep p).nextId = t.nextId :=
  rfl

/-- Delete the row of a given id. -/
def delete (t : ItemTable) (id : ItemId) : ItemTable := t.keep fun r => r.id ≠ id

@[simp] lemma mem_delete {t : ItemTable} {id : ItemId} {r : SyncItem} :
    r ∈ t.delete id ↔ r ∈ t ∧ r.id ≠ id := by
  simp [delete]

@[simp] lemma nextId_delete (t : ItemTable) (id : ItemId) : (t.delete id).nextId = t.nextId := rfl

/-- Change the row of a given id in place, without moving it. -/
def modify (t : ItemTable) (id : ItemId) (f : SyncItem → SyncItem) (hid : ∀ r, (f r).id = r.id)
    (hpath : ∀ r, (f r).relativePath = r.relativePath) : ItemTable :=
  ⟨t.serial.modify id f hid, by
    have h : (SyncItem.relativePath ∘ fun r => if r.id = id then f r else r) =
        SyncItem.relativePath := by
      funext r
      simp only [Function.comp_apply]
      split_ifs <;> simp [hpath]
    simpa [Serial.modify, Serial.update, Table.update, h] using t.paths⟩

lemma mem_modify {t : ItemTable} {id : ItemId} {f : SyncItem → SyncItem}
    {hid : ∀ r, (f r).id = r.id} {hpath : ∀ r, (f r).relativePath = r.relativePath}
    {r : SyncItem} :
    r ∈ t.modify id f hid hpath ↔ (r ∈ t ∧ r.id ≠ id) ∨ ∃ s ∈ t, s.id = id ∧ f s = r :=
  @Serial.mem_modify _ _ _ _ _ hid _

@[simp] lemma nextId_modify (t : ItemTable) (id : ItemId) (f : SyncItem → SyncItem)
    (hid : ∀ r, (f r).id = r.id) (hpath : ∀ r, (f r).relativePath = r.relativePath) :
    (t.modify id f hid hpath).nextId = t.nextId := rfl

/-- Insert a row with the next id at a path that no row has. -/
def insert (t : ItemTable) (new : NewSyncItem) (h : t.getByRelativePath new.relativePath = none) :
    ItemTable :=
  ⟨t.serial.push new.withId new.withId_id, nodup_paths _ <| by
    have hnew := getByRelativePath_eq_none.mp h
    intro r hr s hs hp
    rcases Serial.mem_push.mp hr with hr | rfl <;> rcases Serial.mem_push.mp hs with hs | rfl
    · exact t.path_inj hr hs hp
    · exact absurd hp (hnew r hr)
    · exact absurd hp.symm (hnew s hs)
    · rfl⟩

@[simp] lemma mem_insert {t : ItemTable} {new : NewSyncItem}
    {h : t.getByRelativePath new.relativePath = none} {r : SyncItem} :
    r ∈ t.insert new h ↔ r ∈ t ∨ r = new.withId t.nextId :=
  @Serial.mem_push _ _ _ _ new.withId_id _

@[simp] lemma nextId_insert (t : ItemTable) (new : NewSyncItem)
    (h : t.getByRelativePath new.relativePath = none) : (t.insert new h).nextId = t.nextId + 1 :=
  rfl

/-- The row `r` after the row `id` was given the path `rel`. -/
def movedTo (id : ItemId) (rel : RelPath) (r : SyncItem) : SyncItem :=
  if r.id = id then { r with relativePath := rel } else r

@[simp] lemma movedTo_id (id : ItemId) (rel : RelPath) (r : SyncItem) :
    (movedTo id rel r).id = r.id := by
  unfold movedTo; split_ifs <;> rfl

/-- `set_relative_path`: give the row `id` a new path. The row that is already there is dropped
first; nothing happens when there is no row `id`. -/
def setRelativePath (t : ItemTable) (id : ItemId) (rel : RelPath) : ItemTable :=
  ⟨(t.serial.keep fun r => t.getById id = none || r.id = id || r.relativePath ≠ rel).update
      (movedTo id rel) (movedTo_id id rel), nodup_paths _ <| by
    intro r' hr' s' hs' h
    obtain ⟨r, hr, rfl⟩ := Serial.mem_update.mp hr'
    obtain ⟨s, hs, rfl⟩ := Serial.mem_update.mp hs'
    obtain ⟨hr, hrk⟩ := Serial.mem_keep.mp hr
    obtain ⟨hs, hsk⟩ := Serial.mem_keep.mp hs
    congr 1
    by_cases hri : r.id = id <;> by_cases hsi : s.id = id
    · exact t.id_inj hr hs (hri.trans hsi.symm)
    · have hid : t.getById id ≠ none := fun hn => getById_eq_none.mp hn r hr hri
      simp [movedTo, hri, hsi, hid] at h hsk
      exact absurd h.symm hsk
    · have hid : t.getById id ≠ none := fun hn => getById_eq_none.mp hn s hs hsi
      simp [movedTo, hri, hsi, hid] at h hrk
      exact absurd h hrk
    · exact t.path_inj hr hs (by simpa [movedTo, hri, hsi] using h)⟩

lemma mem_setRelativePath {t : ItemTable} {id : ItemId} {rel : RelPath} {r : SyncItem} :
    r ∈ t.setRelativePath id rel ↔
      (∃ s ∈ t, s.id = id ∧ { s with relativePath := rel } = r) ∨
        (r ∈ t ∧ r.id ≠ id ∧ (r.relativePath ≠ rel ∨ t.getById id = none)) := by
  simp only [mem_def, setRelativePath, Serial.mem_update, Serial.mem_keep, Bool.or_eq_true,
    decide_eq_true_eq, movedTo]
  constructor
  · rintro ⟨s, ⟨hs, hk⟩, rfl⟩
    split_ifs with h
    · exact .inl ⟨s, hs, h, rfl⟩
    · exact .inr ⟨hs, h, by tauto⟩
  · rintro (⟨s, hs, h, rfl⟩ | ⟨hr, h, hk⟩)
    · exact ⟨s, ⟨hs, by simp [h]⟩, by simp [h]⟩
    · exact ⟨r, ⟨hr, by tauto⟩, by simp [h]⟩

@[simp] lemma nextId_setRelativePath (t : ItemTable) (id : ItemId) (rel : RelPath) :
    (t.setRelativePath id rel).nextId = t.nextId := rfl

/-- One iteration of `rename_subtree`, for the selected row `id` whose path was `path`: the row
moves along with the directory, or is dropped when another row is at its destination. -/
def renameRow (old new : RelPath) (t : ItemTable) (selected : ItemId × RelPath) : ItemTable :=
  let rel := RelPath.rebase old new selected.2
  if ∃ r ∈ t.rows, r.relativePath = rel ∧ r.id ≠ selected.1 then t.delete selected.1
  else t.setRelativePath selected.1 rel

/-- The rows that `rename_subtree` selects: the directory and what `LIKE` finds below it. -/
def renameAffected (t : ItemTable) (old : RelPath) : List (ItemId × RelPath) :=
  (t.rows.filter fun r => r.relativePath = old || old.likeBelow r.relativePath).map
    fun r => (r.id, r.relativePath)

/-- `rename_subtree`: rewrite the paths of a directory and of its descendants. -/
def renameSubtree (t : ItemTable) (old new : RelPath) : ItemTable :=
  (t.renameAffected old).foldl (renameRow old new) t

/-- What an operation that only moves and drops rows leaves of a row. -/
lemma mem_renameRow {old new : RelPath} {t : ItemTable} {sel : ItemId × RelPath} {r : SyncItem}
    (h : r ∈ renameRow old new t sel) : ∃ s ∈ t, ∃ p, { s with relativePath := p } = r := by
  simp only [renameRow] at h
  split_ifs at h with hc
  · exact ⟨r, (mem_delete.mp h).1, _, rfl⟩
  · rcases mem_setRelativePath.mp h with ⟨s, hs, -, rfl⟩ | ⟨hr, -, -⟩
    · exact ⟨s, hs, _, rfl⟩
    · exact ⟨r, hr, _, rfl⟩

/-- `rename_subtree` changes nothing of a row but its path. -/
lemma mem_renameSubtree {old new : RelPath} {t : ItemTable} {r : SyncItem}
    (h : r ∈ t.renameSubtree old new) : ∃ s ∈ t, ∃ p, { s with relativePath := p } = r := by
  unfold renameSubtree at h
  generalize t.renameAffected old = l at h
  induction l generalizing t with
  | nil => exact ⟨r, h, _, rfl⟩
  | cons sel l ih =>
    obtain ⟨s, hs, p, rfl⟩ := ih h
    obtain ⟨s', hs', p', rfl⟩ := mem_renameRow hs
    exact ⟨s', hs', p, rfl⟩

/-- A row other than the selected one stays where it is. -/
lemma mem_renameRow_other {old new : RelPath} {t : ItemTable} {sel : ItemId × RelPath}
    {r : SyncItem} (hr : r ∈ t) (hid : r.id ≠ sel.1) : r ∈ renameRow old new t sel := by
  simp only [renameRow]
  split_ifs with hc
  · exact mem_delete.mpr ⟨hr, hid⟩
  · exact mem_setRelativePath.mpr (.inr ⟨hr, hid, .inl fun hpath => hc ⟨r, hr, hpath, hid⟩⟩)

/-- A row stays where it is while other rows are moved. -/
lemma mem_foldl_renameRow_other {old new : RelPath} {l : List (ItemId × RelPath)} {t : ItemTable}
    {r : SyncItem} (hr : r ∈ t) (hids : ∀ sel ∈ l, r.id ≠ sel.1) :
    r ∈ l.foldl (renameRow old new) t := by
  induction l generalizing t with
  | nil => exact hr
  | cons sel l ih =>
    exact ih (mem_renameRow_other hr (hids sel (.head _))) fun x hx => hids x (.tail _ hx)

/-- **The rows after some rows were moved** are those that were not selected, where they were, and
selected ones at their destinations. -/
lemma mem_foldl_renameRow_from {old new : RelPath} {l : List (ItemId × RelPath)} {t : ItemTable}
    {r : SyncItem} (h : r ∈ l.foldl (renameRow old new) t) :
    (r ∈ t ∧ ∀ sel ∈ l, sel.1 ≠ r.id) ∨ ∃ sel ∈ l, ∃ s ∈ t, s.id = sel.1 ∧
      r = { s with relativePath := RelPath.rebase old new sel.2 } := by
  induction l generalizing t with
  | nil => exact .inl ⟨h, nofun⟩
  | cons sel l ih =>
    have hstep : ∀ {s : SyncItem}, s ∈ renameRow old new t sel → (s ∈ t ∧ sel.1 ≠ s.id) ∨
        ∃ s' ∈ t, s'.id = sel.1 ∧ s = { s' with relativePath := RelPath.rebase old new sel.2 } := by
      intro s hs
      simp only [renameRow] at hs
      split_ifs at hs with hc
      · obtain ⟨hs, hid⟩ := mem_delete.mp hs
        exact .inl ⟨hs, hid.symm⟩
      · rcases mem_setRelativePath.mp hs with ⟨s', hs', hid, rfl⟩ | ⟨hs, hid, -⟩
        · exact .inr ⟨s', hs', hid, rfl⟩
        · exact .inl ⟨hs, hid.symm⟩
    rcases ih h with ⟨hr, hothers⟩ | ⟨sel', hsel', s, hs, hid, rfl⟩
    · rcases hstep hr with ⟨hr, hid⟩ | ⟨s, hs, hid, rfl⟩
      · exact .inl ⟨hr, List.forall_mem_cons.mpr ⟨hid, hothers⟩⟩
      · exact .inr ⟨sel, .head _, s, hs, hid, rfl⟩
    · rcases hstep hs with ⟨hs, -⟩ | ⟨s', hs', hid', rfl⟩
      · exact .inr ⟨sel', .tail _ hsel', s, hs, hid, rfl⟩
      · exact .inr ⟨sel', .tail _ hsel', s', hs', hid, rfl⟩

/-- The other selected rows stay away from the row `r` and from a destination. -/
lemma mem_foldl_renameRow {old new dest : RelPath} {l : List (ItemId × RelPath)} {t : ItemTable}
    {r : SyncItem} (hr : r ∈ t) (hl : ∀ sel ∈ l, r.id ≠ sel.1 ∧ RelPath.rebase old new sel.2 ≠ dest) :
    r ∈ l.foldl (renameRow old new) t ∧
      ∀ s ∈ l.foldl (renameRow old new) t, s.relativePath = dest → s ∈ t := by
  induction l generalizing t with
  | nil => exact ⟨hr, fun s hs _ => hs⟩
  | cons sel l ih =>
    obtain ⟨hid, hpath⟩ := hl sel (.head _)
    obtain ⟨hkept, hnew⟩ := ih (mem_renameRow_other hr hid) fun x hx => hl x (.tail _ hx)
    refine ⟨hkept, fun s hs hsnew => ?_⟩
    have hstep := hnew s hs hsnew
    simp only [renameRow] at hstep
    split_ifs at hstep with hc
    · exact (mem_delete.mp hstep).1
    · rcases mem_setRelativePath.mp hstep with ⟨s', -, -, rfl⟩ | ⟨hs', -⟩
      · exact absurd hsnew hpath
      · exact hs'

/-- Moving selected rows one after the other, when no two of them and no other row get in each
other's way. -/
lemma mem_foldl_renameRow_iff {old new : RelPath} {l : List (ItemId × RelPath)} {t : ItemTable}
    {r' : SyncItem} (hids : (l.map Prod.fst).Nodup)
    (hrows : ∀ sel ∈ l, ∃ r ∈ t, r.id = sel.1 ∧ r.relativePath = sel.2)
    (hfree : ∀ sel ∈ l, ∀ s ∈ t, s.relativePath = RelPath.rebase old new sel.2 → s.id = sel.1)
    (hinj : ∀ sel ∈ l, ∀ sel' ∈ l,
      RelPath.rebase old new sel.2 = RelPath.rebase old new sel'.2 → sel.1 = sel'.1) :
    r' ∈ l.foldl (renameRow old new) t ↔ (r' ∈ t ∧ ∀ sel ∈ l, r'.id ≠ sel.1) ∨
      ∃ sel ∈ l, ∃ r ∈ t, r.id = sel.1 ∧
        { r with relativePath := RelPath.rebase old new sel.2 } = r' := by
  induction l generalizing t with
  | nil => simp
  | cons sel l ih =>
    obtain ⟨hsel, hids⟩ := List.nodup_cons.mp hids
    have hother : ∀ x ∈ l, x.1 ≠ sel.1 := fun x hx heq => hsel (heq ▸ List.mem_map_of_mem hx)
    have hstep : renameRow old new t sel =
        t.setRelativePath sel.1 (RelPath.rebase old new sel.2) := by
      refine if_neg fun ⟨s, hs, hpath, hid⟩ => ?_
      exact hid (hfree sel (.head _) s hs hpath)
    have hmem : ∀ r, r ∈ renameRow old new t sel ↔
        (∃ s ∈ t, s.id = sel.1 ∧ { s with relativePath := RelPath.rebase old new sel.2 } = r) ∨
          r ∈ t ∧ r.id ≠ sel.1 := by
      intro r
      rw [hstep, mem_setRelativePath]
      refine or_congr Iff.rfl (and_congr_right fun hr => and_iff_left_of_imp fun hid => .inl ?_)
      exact fun hpath => hid (hfree sel (.head _) r hr hpath)
    rw [List.foldl_cons, ih hids]
    · simp only [hmem, List.mem_cons, forall_eq_or_imp, exists_eq_or_imp]
      constructor
      · rintro (⟨⟨s, hs, hid, rfl⟩ | ⟨hr, hne⟩, hl⟩ | ⟨x, hx, r, ⟨s, hs, hid, rfl⟩ | ⟨hr, hne⟩, hxid, rfl⟩)
        · exact .inr (.inl ⟨s, hs, hid, rfl⟩)
        · exact .inl ⟨hr, hne, hl⟩
        · exact absurd (hxid.symm.trans hid) (hother x hx)
        · exact .inr (.inr ⟨x, hx, r, hr, hxid, rfl⟩)
      · rintro (⟨hr, hne, hl⟩ | ⟨s, hs, hid, rfl⟩ | ⟨x, hx, r, hr, hxid, rfl⟩)
        · exact .inl ⟨.inr ⟨hr, hne⟩, hl⟩
        · exact .inl ⟨.inl ⟨s, hs, hid, rfl⟩, fun x hx => hid ▸ (hother x hx).symm⟩
        · exact .inr ⟨x, hx, r, .inr ⟨hr, hxid ▸ hother x hx⟩, hxid, rfl⟩
    · intro x hx
      obtain ⟨r, hr, hid, hpath⟩ := hrows x (.tail _ hx)
      exact ⟨r, (hmem r).mpr (.inr ⟨hr, hid ▸ hother x hx⟩), hid, hpath⟩
    · intro x hx s hs hpath
      rcases (hmem s).mp hs with ⟨s', -, hid, rfl⟩ | ⟨hs, -⟩
      · exact hid.trans (hinj sel (.head _) x (.tail _ hx) hpath)
      · exact hfree x (.tail _ hx) s hs hpath
    · exact fun x hx y hy => hinj x (.tail _ hx) y (.tail _ hy)

/-- `rename_subtree` moves the row: it is the directory or a descendant. -/
def Selected (old : RelPath) (r : SyncItem) : Prop :=
  r.relativePath = old ∨ old.likeBelow r.relativePath = true

instance (old : RelPath) (r : SyncItem) : Decidable (Selected old r) :=
  inferInstanceAs (Decidable (_ ∨ _))

/-- The selected rows are those that `rename_subtree` looks up, and it meets each of them once. -/
lemma mem_renameAffected {old : RelPath} {t : ItemTable} {sel : ItemId × RelPath} :
    sel ∈ t.renameAffected old ↔ ∃ r ∈ t, Selected old r ∧ (r.id, r.relativePath) = sel := by
  simp only [renameAffected, List.mem_map, List.mem_filter, Bool.or_eq_true, decide_eq_true_eq,
    and_assoc]
  rfl

lemma nodup_renameAffected (t : ItemTable) (old : RelPath) :
    ((t.renameAffected old).map Prod.fst).Nodup := by
  have hrows : ((t.rows.filter fun r => r.relativePath = old || old.likeBelow r.relativePath).map
      SyncItem.id).Nodup := t.serial.table.nodup.sublist (List.filter_sublist.map SyncItem.id)
  simpa [renameAffected, Function.comp_def] using hrows

/-- **A selected row** moves to its destination, when no other row is there or moves there. -/
lemma mem_renameSubtree_moved {old new : RelPath} {t : ItemTable} {r : SyncItem} (hr : r ∈ t)
    (hselected : Selected old r)
    (hfree : ∀ s ∈ t, s.relativePath = RelPath.rebase old new r.relativePath → s.id = r.id)
    (halone : ∀ s ∈ t, Selected old s →
      RelPath.rebase old new s.relativePath = RelPath.rebase old new r.relativePath →
        s.id = r.id) :
    { r with relativePath := RelPath.rebase old new r.relativePath } ∈ t.renameSubtree old new := by
  set dest := RelPath.rebase old new r.relativePath with hdest
  have hmem : (r.id, r.relativePath) ∈ t.renameAffected old :=
    mem_renameAffected.mpr ⟨r, hr, hselected, rfl⟩
  have hothers : ∀ sel ∈ t.renameAffected old, r.id ≠ sel.1 →
      RelPath.rebase old new sel.2 ≠ dest := by
    intro sel hsel hid heq
    obtain ⟨s, hs, hselected', rfl⟩ := mem_renameAffected.mp hsel
    exact hid (halone s hs hselected' heq).symm
  have hids := t.nodup_renameAffected old
  unfold renameSubtree
  obtain ⟨l₁, l₂, hl⟩ := List.append_of_mem hmem
  rw [hl] at hothers hids ⊢
  simp only [List.map_append, List.map_cons, List.nodup_append, List.nodup_cons] at hids
  obtain ⟨-, ⟨htail, -⟩, hhead⟩ := hids
  have hbefore : ∀ sel ∈ l₁, r.id ≠ sel.1 := fun sel hsel heq =>
    hhead sel.1 (List.mem_map_of_mem hsel) r.id (.head _) heq.symm
  have hafter : ∀ sel ∈ l₂, r.id ≠ sel.1 := fun sel hsel heq =>
    htail (heq ▸ List.mem_map_of_mem hsel)
  obtain ⟨hkept, hnew⟩ := @mem_foldl_renameRow old new dest l₁ t r hr fun sel hsel =>
    ⟨hbefore sel hsel, hothers sel (by simp [hsel]) (hbefore sel hsel)⟩
  rw [List.foldl_append, List.foldl_cons]
  generalize l₁.foldl (renameRow old new) t = t₁ at hkept hnew
  have hmoved : { r with relativePath := dest } ∈ renameRow old new t₁ (r.id, r.relativePath) := by
    simp only [renameRow]
    rw [← hdest, if_neg]
    · exact mem_setRelativePath.mpr (.inl ⟨r, hkept, rfl, rfl⟩)
    · rintro ⟨s, hs, hsnew, hid⟩
      exact hid (hfree s (hnew s hs hsnew) hsnew)
  exact (mem_foldl_renameRow hmoved fun sel hsel =>
    ⟨hafter sel hsel, hothers sel (by simp [hsel]) (hafter sel hsel)⟩).1

/-- A row that is not selected stays where it is. -/
lemma mem_renameSubtree_other {old new : RelPath} {t : ItemTable} {r : SyncItem} (hr : r ∈ t)
    (hnot : ¬Selected old r) : r ∈ t.renameSubtree old new := by
  refine mem_foldl_renameRow_other hr fun sel hsel hid => ?_
  obtain ⟨s, hs, hselected, rfl⟩ := mem_renameAffected.mp hsel
  exact hnot (t.id_inj hr hs hid ▸ hselected)

/-- **The renamed row itself** moves to the destination, unless another row is there. -/
lemma mem_renameSubtree_self {old new : RelPath} {t : ItemTable} {r : SyncItem} (hr : r ∈ t)
    (hpath : r.relativePath = old) (hfree : ∀ s ∈ t, s.relativePath = new → s.id = r.id) :
    { r with relativePath := new } ∈ t.renameSubtree old new := by
  have hmoved := @mem_renameSubtree_moved old new t r hr (.inl hpath)
  rw [hpath, RelPath.rebase_self] at hmoved
  refine hmoved hfree fun s hs hselected heq => ?_
  rcases hselected with hsame | hbelow
  · rw [t.path_inj hs hr (hsame.trans hpath.symm)]
  · -- what lies below the directory ends up below the destination
    simp only [RelPath.likeBelow, Bool.and_eq_true, decide_eq_true_eq] at hbelow
    have hlen := congrArg List.length heq
    simp only [RelPath.rebase, List.length_append, List.length_drop] at hlen
    have := hbelow.2
    omega

/-- The row after `rename_subtree`, when nothing is in its way. -/
def renamedTo (old new : RelPath) (r : SyncItem) : SyncItem :=
  if Selected old r then { r with relativePath := RelPath.rebase old new r.relativePath } else r

/-- A row after `rename_subtree` is where it was, or was selected and moved along. -/
lemma mem_renameSubtree_cases {old new : RelPath} {t : ItemTable} {r : SyncItem}
    (h : r ∈ t.renameSubtree old new) : ∃ s ∈ t, r = s ∨ Selected old s ∧
      r = { s with relativePath := RelPath.rebase old new s.relativePath } := by
  rcases mem_foldl_renameRow_from h with ⟨hr, -⟩ | ⟨sel, hsel, s, hs, hid, rfl⟩
  · exact ⟨r, hr, .inl rfl⟩
  · obtain ⟨s', hs', hselected, rfl⟩ := mem_renameAffected.mp hsel
    obtain rfl := t.id_inj hs hs' hid
    exact ⟨s, hs, .inr ⟨hselected, rfl⟩⟩

/-- **`rename_subtree` moves every selected row**, when no row is at the destination of
another. -/
lemma mem_renameSubtree_iff {old new : RelPath} {t : ItemTable} {r' : SyncItem}
    (hfree : ∀ r ∈ t, Selected old r → ∀ s ∈ t,
      s.relativePath = RelPath.rebase old new r.relativePath → s.id = r.id)
    (hinj : ∀ r ∈ t, Selected old r → ∀ s ∈ t, Selected old s →
      RelPath.rebase old new r.relativePath = RelPath.rebase old new s.relativePath →
        r.id = s.id) :
    r' ∈ t.renameSubtree old new ↔ ∃ r ∈ t, renamedTo old new r = r' := by
  unfold renameSubtree
  rw [mem_foldl_renameRow_iff (t.nodup_renameAffected old)]
  · constructor
    · rintro (⟨hr, hnot⟩ | ⟨sel, hsel, r, hr, hid, rfl⟩)
      · refine ⟨r', hr, if_neg fun hs => ?_⟩
        exact hnot _ (mem_renameAffected.mpr ⟨r', hr, hs, rfl⟩) rfl
      · obtain ⟨s, hs, hsel', rfl⟩ := mem_renameAffected.mp hsel
        obtain rfl := t.id_inj hr hs hid
        exact ⟨r, hr, if_pos hsel'⟩
    · rintro ⟨r, hr, rfl⟩
      by_cases hs : Selected old r
      · refine .inr ⟨_, mem_renameAffected.mpr ⟨r, hr, hs, rfl⟩, r, hr, rfl, ?_⟩
        rw [renamedTo, if_pos hs]
      · rw [renamedTo, if_neg hs]
        refine .inl ⟨hr, fun sel hsel hid => hs ?_⟩
        obtain ⟨s, hmem, hsel', rfl⟩ := mem_renameAffected.mp hsel
        obtain rfl := t.id_inj hr hmem hid
        exact hsel'
  · intro sel hsel
    obtain ⟨r, hr, -, rfl⟩ := mem_renameAffected.mp hsel
    exact ⟨r, hr, rfl, rfl⟩
  · intro sel hsel
    obtain ⟨r, hr, hs, rfl⟩ := mem_renameAffected.mp hsel
    exact hfree r hr hs
  · intro sel hsel sel' hsel'
    obtain ⟨r, hr, hs, rfl⟩ := mem_renameAffected.mp hsel
    obtain ⟨s, hs', hs'', rfl⟩ := mem_renameAffected.mp hsel'
    exact hinj r hr hs s hs' hs''

@[simp] lemma nextId_renameSubtree (t : ItemTable) (old new : RelPath) :
    (t.renameSubtree old new).nextId = t.nextId := by
  unfold renameSubtree
  generalize t.renameAffected old = l
  induction l generalizing t with
  | nil => rfl
  | cons sel l ih =>
    rw [List.foldl_cons, ih]
    simp only [renameRow]
    split_ifs <;> rfl

end ItemTable

end AirDrive
