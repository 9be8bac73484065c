import AirDrive.Data.Cascade
import AirDrive.State.Db
import AirDrive.State.Schema

set_option relaxedAutoImplicit false
set_option autoImplicit false

/-!
# Deletions in the state database

Every foreign key of the schema is `ON DELETE CASCADE`. The command `unlink` deletes the account and
relies on this to clear the state; the deletion of a row of `sync_item` relies on it to clear what
belongs to the row. The tables of the model do the latter by themselves.

## Main definitions

* `AirDrive.Deletion.unlinkRows`, `AirDrive.Deletion.deleteById`, `AirDrive.Deletion.deleteExpired`
  — the rows that the statements name.
* `AirDrive.Deletion.Encoding`, `AirDrive.Deletion.Represents` — a file that has the content of the
  tables of the model.

## Main results

* `AirDrive.Deletion.unlink_clears` — what `unlink` leaves of the state.
* `AirDrive.Deletion.delete_refines` — deletions of the model are those of the file.
-/

namespace AirDrive.Deletion

open Data Data.Sql Schema

/-- How far down a table is in the hierarchy of references. -/
def level (name : String) : ℕ :=
  if name = "folder_mapping" then 1
  else if name = "sync_item" ∨ name = "drive_change_cursor" then 2
  else if name = "pending_operation" ∨ name = "conflict_record" then 3
  else 0

/-- References go up the hierarchy. -/
lemma ranked_schema : Ranked (schemaAt latestVersion) level := by
  have hup : ∀ T ∈ schemaAt latestVersion, ∀ c ∈ T.columns,
      c.references.all (fun p => decide (level p < level T.name)) = true := by decide +kernel
  refine ⟨fun T hT c hc p hp => ?_, by decide +kernel⟩
  have hall := hup T hT c hc
  rw [hp, Option.all_some] at hall
  exact of_decide_eq_true hall

/-! ## `unlink` -/

/-- `DELETE FROM account WHERE id = 1`. -/
def unlinkRows (name : String) (r : Row) : Bool := name = "account" && r "id" = .integer 1

/-- The rows of one table must refer to rows of another. -/
def mustRefer (child parent : String) : Bool :=
  (schemaAt latestVersion).any (fun P => P.name = parent) &&
    (schemaAt latestVersion).any fun T => T.name = child &&
      T.columns.any fun c => c.notNull && c.references = some parent

/-- What refers to rows that all go, goes. -/
lemma all_doomed_of_mustRefer {db : Database} {chosen : String → Row → Bool} (h : Sound db)
    (htables : db.tables = schemaAt latestVersion) {child parent : String}
    (hrefer : mustRefer child parent = true)
    (hall : ∀ s ∈ db.rows parent, Doomed db chosen parent s) :
    ∀ r ∈ db.rows child, Doomed db chosen child r := by
  simp only [mustRefer, Bool.and_eq_true, List.any_eq_true, decide_eq_true_eq] at hrefer
  obtain ⟨⟨P, hP, rfl⟩, T, hT, rfl, c, hc, hnull, href⟩ := hrefer
  rw [← htables] at hP hT
  exact all_doomed h hT hc hP href hnull hall

/-- **What `unlink` leaves of the state**: nothing of the account, of the mapping and of what
belongs to the mapping, if there is no second account; and the recorded block and the counters. -/
theorem unlink_clears {db : Database} (h : Sound db) (htables : db.tables = schemaAt latestVersion)
    (hone : ∀ r ∈ db.rows "account", r "id" = .integer 1) :
    Sound (db.deleteCascade unlinkRows) ∧
    (∀ name ∈ ["account", "folder_mapping", "sync_item", "pending_operation", "conflict_record",
      "drive_change_cursor"], (db.deleteCascade unlinkRows).rows name = []) ∧
    ∀ name ∈ ["state_meta", "schema_version"],
      (db.deleteCascade unlinkRows).rows name = db.rows name := by
  have hranked : Ranked db.tables level := htables ▸ ranked_schema
  have haccount : ∀ r ∈ db.rows "account", Doomed db unlinkRows "account" r := fun r hr =>
    .chosen (by simp [unlinkRows, hone r hr])
  have hmapping := all_doomed_of_mustRefer h htables
    (show mustRefer "folder_mapping" "account" = true by decide +kernel) haccount
  have hitem := all_doomed_of_mustRefer h htables
    (show mustRefer "sync_item" "folder_mapping" = true by decide +kernel) hmapping
  have hgone : ∀ name, level name ≤ db.tables.length →
      (∀ r ∈ db.rows name, Doomed db unlinkRows name r) →
      (db.deleteCascade unlinkRows).rows name = [] := by
    intro name hname hall
    rw [rows_deleteCascade hranked hname (fun _ => false) fun r hr =>
      iff_of_true (hall r hr) rfl, List.filter_false]
  have hsize : 3 ≤ db.tables.length := by rw [htables]; decide +kernel
  refine ⟨h.deleteCascade hranked, fun name hname => hgone name ?_ ?_, fun name hname => ?_⟩
  · refine Nat.le_trans ?_ hsize
    unfold level
    split_ifs <;> omega
  · simp only [List.mem_cons, List.not_mem_nil, or_false] at hname
    rcases hname with rfl | rfl | rfl | rfl | rfl | rfl
    · exact haccount
    · exact hmapping
    · exact hitem
    · exact all_doomed_of_mustRefer h htables (by decide +kernel) hitem
    · exact all_doomed_of_mustRefer h htables (by decide +kernel) hitem
    · exact all_doomed_of_mustRefer h htables (by decide +kernel) hmapping
  · have hlevel : level name = 0 ∧ name ≠ "account" := by
      simp only [List.mem_cons, List.not_mem_nil, or_false] at hname
      rcases hname with rfl | rfl <;> decide
    rw [rows_deleteCascade hranked (by omega) (fun _ => true) fun r hr => ?_,
      List.filter_true]
    rw [doomed_iff_chosen 0 hranked (fun _ _ _ => Nat.zero_le _) hlevel.1.le]
    simp [unlinkRows, hlevel.2]

/-! ## Rows of the model -/

/-- How the rows of the model are stored; the file has columns that the model leaves out. -/
structure Encoding where
  item : SyncItem → Row
  op : PendingOperation → Row
  conflict : ConflictRecord → Row
  mapping : FolderMapping → Row
  cursor : PageToken → Row
  item_id : ∀ r, item r "id" = .integer r.id
  item_trashed : ∀ r, item r "trashed_at" = (r.trashedAt.map fun t => .integer t).getD .null
  op_item : ∀ o, op o "sync_item_id" = .integer o.syncItemId
  conflict_item : ∀ c, conflict c "sync_item_id" = .integer c.syncItemId

/-- The file has the content of the tables of the model. -/
structure Represents (enc : Encoding) (sql : Database) (db : Db) : Prop where
  items : sql.rows "sync_item" = db.items.rows.map enc.item
  ops : sql.rows "pending_operation" = (OpTable.rows db.ops).map enc.op
  conflicts : sql.rows "conflict_record" = db.conflicts.table.rows.map enc.conflict
  mapping : sql.rows "folder_mapping" = db.mapping.toList.map enc.mapping
  cursor : sql.rows "drive_change_cursor" = db.cursor.toList.map enc.cursor

/-- `DELETE FROM sync_item WHERE ...`. -/
def itemsWhere (gone : Row → Bool) (name : String) (r : Row) : Bool :=
  name = "sync_item" && gone r

/-- The rows that belong to a row of `sync_item`. -/
def belongs (T : Table) : Bool :=
  T.columns.all (fun c => c.references = none || (c.name = "sync_item_id" &&
    c.references = some "sync_item")) && T.columns.any fun c => c.name = "sync_item_id" &&
    c.references = some "sync_item"

/-- What belongs to a row goes with it. -/
lemma doomed_of_belongs {sql : Database} (h : Sound sql)
    (htables : sql.tables = schemaAt latestVersion) {gone : Row → Bool} {name : String}
    (hbelongs : ∃ T ∈ schemaAt latestVersion, T.name = name ∧ belongs T = true)
    (hlevel : level name = 3) {r : Row} (hr : r ∈ sql.rows name) :
    Doomed sql (itemsWhere gone) name r ↔
      ∃ s ∈ sql.rows "sync_item", s "id" = r "sync_item_id" ∧ gone s = true := by
  have hranked : Ranked sql.tables level := htables ▸ ranked_schema
  have hitem : ∀ {s : Row}, Doomed sql (itemsWhere gone) "sync_item" s ↔ gone s = true := by
    intro s
    rw [doomed_iff_chosen 2 hranked (fun name r hchosen => ?_) (by decide)]
    · simp [itemsWhere]
    · have hname : name = "sync_item" := by
        simp only [itemsWhere, Bool.and_eq_true, decide_eq_true_eq] at hchosen
        exact hchosen.1
      rw [hname]
      decide
  have hkey : ∀ P ∈ sql.tables, P.name = "sync_item" → P.key = "id" := by
    rw [htables]
    decide +kernel
  obtain ⟨T, hT, rfl, hbelongs⟩ := hbelongs
  rw [← htables] at hT
  simp only [belongs, Bool.and_eq_true, Bool.or_eq_true, List.all_eq_true, List.any_eq_true,
    decide_eq_true_eq] at hbelongs
  obtain ⟨hall, c, hc, hcname, hcref⟩ := hbelongs
  constructor
  · intro hdoomed
    generalize hname : T.name = name at hdoomed hlevel
    cases hdoomed with
    | chosen hchosen =>
      simp only [itemsWhere, Bool.and_eq_true, decide_eq_true_eq] at hchosen
      rw [hchosen.1] at hlevel
      exact absurd hlevel (by decide)
    | @follows T' P c' _ s hT' hc' hP href hs hkey' hnull hup =>
      obtain rfl := List.inj_on_of_nodup_map h.names hT hT' hname
      rcases hall c' hc' with hnone | ⟨hcname', hcref'⟩
      · rw [hnone] at href
        cases href
      · have hPname : P.name = "sync_item" := Option.some.inj (href.symm.trans hcref')
        rw [hPname] at hs hup
        rw [hkey P hP hPname, hcname'] at hkey'
        exact ⟨s, hs, hkey', hitem.mp hup⟩
  · rintro ⟨s, hs, hid, hgone⟩
    have hrefers := (h.fits T hT r hr).refers c hc "sync_item" hcref
    obtain ⟨P, hP, hPname⟩ : ∃ P ∈ sql.tables, P.name = "sync_item" := by
      rw [htables]
      decide +kernel
    have hinteger := (h.fits P hP s (hPname ▸ hs)).key
    rw [hkey P hP hPname] at hinteger
    refine .follows hT hc hP (hPname ▸ hcref) (hPname ▸ hs) (by rw [hkey P hP hPname, hid, hcname])
      (fun hnull => ?_) (hPname ▸ hitem.mpr hgone)
    rw [hcname, ← hid] at hnull
    rw [hnull] at hinteger
    cases hinteger

/-- **A deletion of rows** of the model is one of the file, with all that goes along. -/
lemma represents_withItems {enc : Encoding} {sql : Database} {db : Db} (h : Sound sql)
    (htables : sql.tables = schemaAt latestVersion) (hrep : Represents enc sql db)
    {gone : Row → Bool} {keep : SyncItem → Bool} (hgone : ∀ r, gone (enc.item r) = !keep r) :
    Represents enc (sql.deleteCascade (itemsWhere gone)) (db.withItems (db.items.keep keep)) := by
  have hranked : Ranked sql.tables level := htables ▸ ranked_schema
  have hsize : 3 ≤ sql.tables.length := by rw [htables]; decide +kernel
  have habove : ∀ name, level name ≤ 2 →
      (sql.deleteCascade (itemsWhere gone)).rows name =
        (sql.rows name).filter fun r => !itemsWhere gone name r := by
    intro name hname
    refine rows_deleteCascade hranked (by omega) _ fun r _ => ?_
    rw [doomed_iff_chosen 2 hranked (fun name r hchosen => ?_) hname,
      Bool.not_eq_false']
    have hitem : name = "sync_item" := by
      simp only [itemsWhere, Bool.and_eq_true, decide_eq_true_eq] at hchosen
      exact hchosen.1
    rw [hitem]
    decide
  have hother : ∀ name, level name ≤ 2 → name ≠ "sync_item" →
      (sql.deleteCascade (itemsWhere gone)).rows name = sql.rows name := by
    intro name hname hne
    rw [habove name hname]
    exact List.filter_eq_self.mpr fun r _ => by simp [itemsWhere, hne]
  -- what belongs to a row stays exactly when the row does
  have hbelow : ∀ name, level name = 3 →
      (∃ T ∈ schemaAt latestVersion, T.name = name ∧ belongs T = true) →
      ∀ {ρ : Type} {owner : ρ → ItemId} {row : ρ → Row} {l : List ρ},
        (∀ o, row o "sync_item_id" = .integer (owner o)) → sql.rows name = l.map row →
        (∀ o ∈ l, ∃ r ∈ db.items, r.id = owner o) →
        (sql.deleteCascade (itemsWhere gone)).rows name =
          (l.filter fun o => Db.hasItem (db.items.keep keep) (owner o)).map row := by
    intro name hlevel hbelongs ρ owner row l howner hrows howned
    rw [rows_deleteCascade hranked (by omega) (fun r =>
      !(sql.rows "sync_item").any fun s => decide (s "id" = r "sync_item_id") && gone s)
      fun r hr => ?_, hrows, List.filter_map]
    · refine congrArg (List.map row) (List.filter_congr fun o ho => ?_)
      obtain ⟨r, hr, hid⟩ := howned o ho
      have hany : (sql.rows "sync_item").any
          (fun s => decide (s "id" = row o "sync_item_id") && gone s) = !keep r := by
        rw [hrep.items, howner, Bool.eq_iff_iff, List.any_eq_true]
        constructor
        · rintro ⟨s, hs, hmatch⟩
          obtain ⟨r', hr', rfl⟩ := List.mem_map.mp hs
          rw [Bool.and_eq_true, decide_eq_true_eq, enc.item_id] at hmatch
          have hsame : r'.id = owner o := by
            have hint := Value.integer.inj hmatch.1
            exact_mod_cast hint
          rw [← db.items.id_inj hr' hr (hsame.trans hid.symm), ← hgone]
          exact hmatch.2
        · intro hkeep
          refine ⟨enc.item r, List.mem_map.mpr ⟨r, hr, rfl⟩, ?_⟩
          rw [Bool.and_eq_true, decide_eq_true_eq, enc.item_id, hid, hgone]
          exact ⟨rfl, hkeep⟩
      show (!_) = _
      rw [hany, Bool.not_not, Bool.eq_iff_iff, Db.hasItem_iff]
      constructor
      · exact fun hkeep => ⟨r, ItemTable.mem_keep.mpr ⟨hr, hkeep⟩, hid⟩
      · rintro ⟨r', hr', hid'⟩
        obtain ⟨hmem, hkeep⟩ := ItemTable.mem_keep.mp hr'
        rwa [db.items.id_inj hr hmem (hid.trans hid'.symm)]
    · rw [doomed_of_belongs h htables hbelongs hlevel hr, Bool.not_eq_false', List.any_eq_true]
      simp only [Bool.and_eq_true, decide_eq_true_eq]
  refine ⟨?_, ?_, ?_, ?_, ?_⟩
  · rw [habove "sync_item" (by decide), hrep.items, List.filter_map]
    refine congrArg (List.map enc.item) (List.filter_congr fun r _ => ?_)
    simp [itemsWhere, hgone]
  · exact hbelow "pending_operation" (by decide) (by decide +kernel) enc.op_item hrep.ops
      db.ops_owned
  · exact hbelow "conflict_record" (by decide) (by decide +kernel) enc.conflict_item
      hrep.conflicts db.conflicts_owned
  · rw [hother "folder_mapping" (by decide) (by decide)]
    exact hrep.mapping
  · rw [hother "drive_change_cursor" (by decide) (by decide)]
    exact hrep.cursor

/-- `DELETE FROM sync_item WHERE id = ?1`. -/
def deleteById (id : ItemId) : String → Row → Bool :=
  itemsWhere fun r => decide (r "id" = .integer id)

/-- `DELETE FROM sync_item WHERE trashed_at IS NOT NULL AND trashed_at < ?1`. -/
def deleteExpired (cutoff : ℕ) : String → Row → Bool :=
  itemsWhere fun r => match r "trashed_at" with
    | .integer t => decide (t < cutoff)
    | _ => false

/-- **The deletions of the model are those of the file**: `items::delete` and the removal of expired
tombstones take the operations and the conflict records of a row with it, and nothing else. -/
theorem delete_refines {enc : Encoding} {sql : Database} {db : Db} (h : Sound sql)
    (htables : sql.tables = schemaAt latestVersion) (hrep : Represents enc sql db) :
    (∀ id, Sound (sql.deleteCascade (deleteById id)) ∧
      Represents enc (sql.deleteCascade (deleteById id)) (DbCall.run (.deleteItem id) db).2) ∧
    ∀ cutoff, Sound (sql.deleteCascade (deleteExpired cutoff)) ∧
      Represents enc (sql.deleteCascade (deleteExpired cutoff))
        (DbCall.run (.gcTombstones cutoff) db).2 := by
  have hranked : Ranked sql.tables level := htables ▸ ranked_schema
  refine ⟨fun id => ⟨h.deleteCascade hranked, represents_withItems h htables hrep fun r => ?_⟩,
    fun cutoff => ⟨h.deleteCascade hranked, represents_withItems h htables hrep fun r => ?_⟩⟩
  · rw [enc.item_id]
    simp [Int.ofNat_inj]
  · rw [enc.item_trashed, Bool.not_not]
    unfold DbCall.expired
    cases r.trashedAt <;> simp

/-! ## A file -/

/-- A file with an item that has an operation. -/
def fileStatements : List Statement :=
  .createTable schemaVersion :: pendingSteps 0 0 1 migrations ++ [
    .insert "account" [("id", .integer 1), ("email", .text "a@b.c"), ("created_at", .integer 5),
      ("linked_at", .integer 5)],
    .insert "folder_mapping" [("id", .integer 1), ("account_id", .integer 1),
      ("local_path", .text "/sync"), ("remote_folder_id", .text "0"),
      ("created_at", .integer 6)],
    .insert "sync_item" [("id", .integer 1), ("mapping_id", .integer 1),
      ("relative_path", .text "a"), ("kind", .text "file"), ("last_synced_at", .integer 8),
      ("state", .text "pending_local"), ("trashed_at", .null)],
    .insert "pending_operation" [("id", .integer 1), ("sync_item_id", .integer 1),
      ("op", .text "upload"), ("attempts", .integer 0), ("next_attempt_at", .integer 10),
      ("enqueued_at", .integer 8)],
    .insert "drive_change_cursor" [("id", .integer 1), ("mapping_id", .integer 1),
      ("page_token", .text "3"), ("updated_at", .integer 11)]]

/-- What the statements make. -/
def file : Database :=
  match runAll (fun _ => false) 0 fileStatements Database.empty with
  | .ok db => db
  | .error _ => Database.empty

/-- It obeys the schema. -/
lemma sound_file : Sound file ∧ file.tables = schemaAt latestVersion :=
  ⟨sound_empty.runAll (show runAll (fun _ => false) 0 fileStatements Database.empty = .ok file
    from rfl), rfl⟩

/-- `unlink_clears`, of a file in use. -/
theorem file_unlinked : (file.rows "pending_operation").length = 1 ∧
    (file.deleteCascade unlinkRows).rows "pending_operation" = [] ∧
    (file.deleteCascade unlinkRows).rows "state_meta" = file.rows "state_meta" := by
  obtain ⟨-, hgone, hkept⟩ := unlink_clears sound_file.1 sound_file.2 fun r hr => by
    obtain rfl := List.mem_singleton.mp (show r ∈ [_] from hr)
    rfl
  exact ⟨rfl, hgone _ (by decide), hkept _ (by decide)⟩

/-- The row that is stored for some values. -/
def stored (name : String) (given : List (String × Value)) : Row :=
  match (schemaAt latestVersion).find? fun T => T.name = name with
  | some T => T.row fun n => List.lookup n given
  | none => fun _ => .null

/-- A way to store the rows, of which everything was stored at one time. -/
def encoding : Encoding where
  item r := stored "sync_item" [("id", .integer r.id), ("mapping_id", .integer 1),
    ("relative_path", .text ("/".intercalate r.relativePath)),
    ("kind", .text (match r.kind with | .file => "file" | .dir => "dir")),
    ("last_synced_at", .integer 8),
    ("state", .text (match r.state with
      | .synced => "synced"
      | .pendingLocal => "pending_local"
      | .pendingRemote => "pending_remote"
      | .conflict => "conflict"
      | .skipped => "skipped")),
    ("trashed_at", (r.trashedAt.map fun t => .integer t).getD .null)]
  op o := stored "pending_operation" [("id", .integer o.id),
    ("sync_item_id", .integer o.syncItemId),
    ("op", .text (if o.op = .upload then "upload" else "download")),
    ("attempts", .integer o.attempts), ("next_attempt_at", .integer o.nextAttemptAt),
    ("enqueued_at", .integer 8)]
  conflict c := stored "conflict_record" [("id", .integer c.id),
    ("sync_item_id", .integer c.syncItemId),
    ("original_relative_path", .text ("/".intercalate c.originalRelativePath)),
    ("conflict_relative_path", .text ("/".intercalate c.conflictRelativePath)),
    ("detected_at", .integer c.detectedAt)]
  mapping m := stored "folder_mapping" [("id", .integer 1), ("account_id", .integer 1),
    ("local_path", .text m.localPath), ("remote_folder_id", .text (match m.remoteFolderId with
      | .rootAlias => "root"
      | .id n => toString n)),
    ("created_at", .integer 6)]
  cursor t := stored "drive_change_cursor" [("id", .integer 1), ("mapping_id", .integer 1),
    ("page_token", .text (toString t)), ("updated_at", .integer 11)]
  item_id _ := rfl
  item_trashed r := by cases r.trashedAt <;> rfl
  op_item _ := rfl
  conflict_item _ := rfl

/-- The content of the file. -/
def content : Db :=
  let db := (DbCall.run (.upsertMapping ⟨"/sync", .id 0, none⟩) Db.empty).2
  let db := (DbCall.run (.insertItem ⟨["a"], .file, none, none, none, .pendingLocal⟩) db).2
  let db := (DbCall.run (.enqueue 1 .upload none 10) db).2
  (DbCall.run (.setCursor 3) db).2

/-- `delete_refines`, of a row with an operation. -/
theorem file_refined :
    Represents encoding (file.deleteCascade (deleteById 1)) (DbCall.run (.deleteItem 1) content).2 ∧
    (DbCall.run (.deleteItem 1) content).2.ops.rows = [] := by
  have hrep : Represents encoding file content := ⟨rfl, rfl, rfl, rfl, rfl⟩
  exact ⟨((delete_refines sound_file.1 sound_file.2 hrep).1 1).2, rfl⟩

end AirDrive.Deletion
