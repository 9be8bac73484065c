import AirDrive.State.Schema

set_option relaxedAutoImplicit false
set_option autoImplicit false

/-!
# The migration of the state database

Each step of the ladder builds new tables, adds a column that starts out null, or copies a table
into one whose checks allow more. So a step goes through on every content that obeys the schema,
and keeps it; steps done in one opening or in several leave the same tables and rows, and a step
that fails takes the whole opening back.

## Main definitions

* `AirDrive.Schema.tracked` — the tables whose content is kept.
* `AirDrive.Schema.StartsAt`, `AirDrive.Schema.Opened` — the files of a version.
* `AirDrive.Schema.Brought` — a file that was brought from one version to another.
* `AirDrive.Schema.openStepwise` — opening with each release in turn.

## Main results

* `AirDrive.Schema.step_ok` — what a step does.
* `AirDrive.Schema.open_migrates` — what opening a file does.
-/

namespace AirDrive.Schema

open Data.Sql

/-- The tables whose rows a migration has to keep. -/
def tracked : List String :=
  ["account", "folder_mapping", "sync_item", "pending_operation", "conflict_record",
    "drive_change_cursor", "state_meta"]

/-- The names of the tables at a version. -/
def namesAt (version : ℕ) : List String := (schemaAt version).map Table.name

/-- The one row of a new `state_meta`: nothing is blocked, nothing has been transferred. -/
def metaRow : Row := fun column =>
  if column = "id" then .integer 1
  else if column = "items_uploaded" ∨ column = "items_downloaded" then .integer 0
  else .null

/-- The rows that a table has in a new file. -/
def initialRows (table : String) : List Row := if table = "state_meta" then [metaRow] else []

/-- A file with the schema of a version, whatever its content. -/
structure StartsAt (version : ℕ) (db : Database) : Prop where
  tables : db.tables = schemaAt version
  sound : Sound db
  version : currentVersion db = version

/-- A file of a version; a file without any table is one of version 0. -/
def Opened (version : ℕ) (db : Database) : Prop :=
  StartsAt version db ∨ version = 0 ∧ db = Database.empty

/-! ## The steps -/

/-- The queue as the first versions have it. -/
def pendingOperation : Table where
  name := "pending_operation"
  columns := operationColumns ["upload", "download", "delete_local", "delete_remote",
    "rename_local", "rename_remote", "create_dir_local", "create_dir_remote", "mark_conflict"]
  indexes := [⟨"pending_operation_next_attempt", ["next_attempt_at"], false⟩]

/-- The table of the daemon's state as the first versions have it. -/
def stateMeta : Table where
  name := "state_meta"
  columns := metaColumns ["auth", "remote", "mapping"]

/-- A check that allows more is passed by all that was allowed. -/
lemma accepts_oneOf {l l' : List String} (hsub : ∀ x ∈ l, x ∈ l') (c : Column) (v : Value)
    (h : (oneOf l c).accepts v = true) : (oneOf l' c).accepts v = true := by
  simp only [oneOf, Column.accepts, Option.all_some, Bool.and_eq_true, Bool.or_eq_true,
    List.contains_eq_mem, decide_eq_true_eq, List.mem_map] at h ⊢
  exact ⟨h.1, h.2.imp_right fun ⟨x, hx, hv⟩ => ⟨x, hsub x hx, hv⟩⟩

lemma covers_pendingOperation : pendingOperationV5.Covers pendingOperation := by
  refine ⟨rfl, rfl, fun c hc => ?_, rfl⟩
  simp only [pendingOperationV5, operationColumns, List.mem_cons, List.not_mem_nil, or_false] at hc
  rcases hc with rfl | rfl | rfl | rfl | rfl | rfl | rfl | rfl
  case inr.inr.inl =>
    exact ⟨_, .tail _ (.tail _ (.head _)), rfl, rfl, rfl, accepts_oneOf (by decide) _⟩
  all_goals exact ⟨_, by simp [pendingOperation, operationColumns], rfl, rfl, rfl, fun _ h => h⟩

lemma covers_stateMeta : stateMetaV6.Covers stateMeta := by
  refine ⟨rfl, rfl, fun c hc => ?_, rfl⟩
  simp only [stateMetaV6, metaColumns, List.mem_cons, List.not_mem_nil, or_false] at hc
  rcases hc with rfl | rfl | rfl | rfl | rfl | rfl | rfl
  case inr.inl =>
    exact ⟨_, .tail _ (.head _), rfl, rfl, rfl, accepts_oneOf (by decide) _⟩
  all_goals exact ⟨_, by simp [stateMeta, metaColumns], rfl, rfl, rfl, fun _ h => h⟩

/-- What a step of the ladder leaves of the content: the rows of all tables that are there before,
and in a new table the rows of a new file. -/
structure Stepped (version : ℕ) (db db' : Database) : Prop where
  tables : db'.tables = schemaAt (version + 1)
  kept : ∀ t ∈ namesAt version, db'.rows t = db.rows t
  made : ∀ t ∈ tracked, t ∉ namesAt version → t ∈ namesAt (version + 1) → db'.rows t = initialRows t

/-- A new table, and the copy of another one into it. -/
def copying (T S : Table) : List Statement :=
  [.createTable T,
    .insertSelect T.name (T.columns.map Column.name) (T.columns.map Column.name) S.name]

/-- The copy into a table that asks no more goes through. -/
lemma copying_ok {db : Database} (h : Sound db) {T S : Table} (hS : S ∈ db.tables)
    (hcreate : exec (.createTable T) db =
      .ok ⟨db.tables ++ [T], Function.update db.rows T.name []⟩)
    (hne : S.name ≠ T.name) (hcovers : T.Covers S) :
    ∃ db', runAll (fun _ => false) 0 (copying T S) db = .ok db' ∧ Sound db' ∧
      db'.tables = db.tables ++ [T] ∧ db'.rows T.name = db.rows S.name ∧
      ∀ n, n ≠ T.name → db'.rows n = db.rows n := by
  set db₁ : Database := ⟨db.tables ++ [T], Function.update db.rows T.name []⟩ with hdb₁
  have h₁ : Sound db₁ := h.exec hcreate
  have hsame : db₁.rows S.name = db.rows S.name := Function.update_of_ne hne _ _
  have hcopy := exec_copy h₁ (T := T) (S := S) (by simp [hdb₁]) (by simp [hdb₁, hS])
    (Function.update_self _ _ _) hcovers
  refine ⟨db₁.withRows T.name (db₁.rows S.name), ?_, h₁.exec hcopy, rfl, ?_, fun n hn => ?_⟩
  · simp only [copying, runAll, Bool.false_eq_true, if_false, hcreate, Except.bind, hcopy]
  · exact (Function.update_self _ _ _).trans hsame
  · exact (Function.update_of_ne hn _ _).trans (Function.update_of_ne hn _ _)

lemma step_one {db : Database} (htables : db.tables = schemaAt 0) :
    ∃ db', runAll (fun _ => false) 0 v1Schema db = .ok db' ∧ Stepped 0 db db' := by
  obtain ⟨tables, rows⟩ := db
  subst htables
  refine ⟨_, rfl, rfl, fun t ht => ?_, fun t ht => ?_⟩
  · obtain rfl : t = "schema_version" := List.mem_singleton.mp ht
    rfl
  · simp only [tracked, List.mem_cons, List.not_mem_nil, or_false] at ht
    rcases ht with rfl | rfl | rfl | rfl | rfl | rfl | rfl
    case inr.inr.inr.inr.inr.inr => exact fun _ h => absurd h (by decide)
    all_goals exact fun _ _ => rfl

/-- The row that the second step inserts. -/
lemma row_stateMeta :
    (stateMeta.row fun n => List.lookup n [("id", .integer 1)]) = metaRow := by
  funext n
  unfold Table.row metaRow
  split
  case h_1 c hfind =>
    have hc : c ∈ stateMeta.columns := List.mem_of_find?_eq_some hfind
    obtain rfl : c.name = n := by simpa using List.find?_some hfind
    simp only [stateMeta, metaColumns, List.mem_cons, List.not_mem_nil, or_false] at hc
    rcases hc with rfl | rfl | rfl | rfl | rfl | rfl | rfl <;> rfl
  case h_2 hfind =>
    have hnone : ∀ c ∈ stateMeta.columns, c.name ≠ n := by
      simpa using List.find?_eq_none.mp hfind
    have hid : n ≠ "id" := fun h => hnone (stateMeta.columns.get ⟨0, by decide⟩) (by decide) h.symm
    have hup : n ≠ "items_uploaded" := fun h =>
      hnone (stateMeta.columns.get ⟨5, by decide⟩) (by decide) h.symm
    have hdown : n ≠ "items_downloaded" := fun h =>
      hnone (stateMeta.columns.get ⟨6, by decide⟩) (by decide) h.symm
    simp [hid, hup, hdown]

/-- The tracked tables that the first version has. -/
lemma tracked_of_first {version : ℕ} (hsub : ∀ t ∈ tracked, t ≠ "state_meta" → t ∈ namesAt version)
    {t : String} (ht : t ∈ tracked) (hnew : t ∉ namesAt version) : t = "state_meta" := by
  by_contra hne
  exact hnew (hsub t ht hne)

lemma step_two {db : Database} (htables : db.tables = schemaAt 1) :
    ∃ db', runAll (fun _ => false) 0 v2Schema db = .ok db' ∧ Stepped 1 db db' := by
  obtain ⟨tables, rows⟩ := db
  subst htables
  refine ⟨_, rfl, rfl, fun t ht => ?_, fun t ht hnew _ => ?_⟩
  · have hne : t ≠ "state_meta" := fun h => absurd (h ▸ ht) (by decide)
    exact (Function.update_of_ne hne _ _).trans (Function.update_of_ne hne _ _)
  · obtain rfl := tracked_of_first (by decide) ht hnew
    show [_] = [metaRow]
    rw [← row_stateMeta]
    rfl

/-- A step that adds a column to a table of a version. -/
lemma step_column {db : Database} (h : Sound db) {version : ℕ} {T : Table} {c : Column}
    (htables : db.tables = schemaAt version) (hT : T ∈ schemaAt version)
    (hfresh : c.name ∉ T.columns.map Column.name) (hnull : c.default = .null)
    (haccepts : c.accepts .null = true) (hnoref : c.references = none)
    (hnext : redefine (schemaAt version) T.name (fun T => T.addColumn c) = schemaAt (version + 1))
    (hnames : namesAt (version + 1) = namesAt version) :
    ∃ db', runAll (fun _ => false) 0 [.addColumn T.name c] db = .ok db' ∧
      Stepped version db db' := by
  have hadd := exec_addColumn h (htables ▸ hT) hfresh hnull haccepts hnoref
  refine ⟨⟨redefine db.tables T.name fun T => T.addColumn c, db.rows⟩, ?_, ?_, fun _ _ => rfl,
    fun t _ hnew hthere => absurd (hnames ▸ hthere) hnew⟩
  · simp only [runAll, Bool.false_eq_true, if_false, hadd, Except.bind]
  · rw [htables]
    exact hnext

lemma step_three {db : Database} (h : Sound db) (htables : db.tables = schemaAt 2) :
    ∃ db', runAll (fun _ => false) 0 v3Schema db = .ok db' ∧ Stepped 2 db db' :=
  @step_column db h 2 ((schemaAt 2).get ⟨2, by decide⟩) (textColumn "remote_folder_spec") htables
    (by decide) (by decide) rfl rfl rfl rfl rfl

lemma step_four {db : Database} (h : Sound db) (htables : db.tables = schemaAt 3) :
    ∃ db', runAll (fun _ => false) 0 v4Schema db = .ok db' ∧ Stepped 3 db db' :=
  @step_column db h 3 ((schemaAt 3).get ⟨3, by decide⟩) (integerColumn "trashed_at") htables
    (by decide) (by decide) rfl rfl rfl rfl rfl

lemma step_five {db : Database} (h : Sound db) (htables : db.tables = schemaAt 4) :
    ∃ db', runAll (fun _ => false) 0 v5Schema db = .ok db' ∧ Stepped 4 db db' := by
  have hS : pendingOperation ∈ db.tables := htables ▸ by decide
  have hcreate : exec (.createTable pendingOperationV5) db =
      .ok ⟨db.tables ++ [pendingOperationV5],
        Function.update db.rows "pending_operation_v5" []⟩ := by
    obtain ⟨tables, rows⟩ := db
    subst htables
    rfl
  obtain ⟨db₁, hcopy, h₁, htables₁, hcopied, hothers⟩ :=
    copying_ok h hS hcreate (by decide) covers_pendingOperation
  obtain ⟨tables, rows⟩ := db₁
  obtain rfl : tables = schemaAt 4 ++ [pendingOperationV5] := htables ▸ htables₁
  obtain ⟨db₂, hreplace, hnew, hrest, htables₂⟩ : ∃ db₂, runAll (fun _ => false) 0
      [.dropTable "pending_operation", .renameTable "pending_operation_v5" "pending_operation"]
        ⟨schemaAt 4 ++ [pendingOperationV5], rows⟩ = .ok db₂ ∧
      db₂.rows "pending_operation" = rows "pending_operation_v5" ∧
      (∀ n, n ≠ "pending_operation" → n ≠ "pending_operation_v5" → db₂.rows n = rows n) ∧
      db₂.tables = (schemaAt 4).filter (fun T => T.name ≠ "pending_operation") ++
        [{ pendingOperationV5 with name := "pending_operation" }] := by
    refine ⟨_, rfl, rfl, fun n hn hn' => ?_, rfl⟩
    exact (Function.update_of_ne hn _ _).trans
      ((Function.update_of_ne hn' _ _).trans (Function.update_of_ne hn _ _))
  have h₂ : Sound db₂ := h₁.runAll hreplace
  have hindex := @exec_createIndex db₂ { pendingOperationV5 with name := "pending_operation" } h₂
    (by simp [htables₂]) ⟨"pending_operation_next_attempt", ["next_attempt_at"], false⟩ rfl
    (by rw [htables₂]; rfl) rfl
  refine ⟨⟨redefine db₂.tables "pending_operation" fun T => T.addIndex
    ⟨"pending_operation_next_attempt", ["next_attempt_at"], false⟩, db₂.rows⟩, ?_, ?_,
    fun t ht => ?_, fun t ht hnew' _ => ?_⟩
  · have hsplit : v5Schema = copying pendingOperationV5 pendingOperation ++
        ([.dropTable "pending_operation", .renameTable "pending_operation_v5" "pending_operation"] ++
          [.createIndex "pending_operation"
            ⟨"pending_operation_next_attempt", ["next_attempt_at"], false⟩]) := rfl
    rw [hsplit, runAll_append hcopy, runAll_append hreplace]
    simp only [runAll, Bool.false_eq_true, if_false]
    rw [hindex]
    rfl
  · show redefine db₂.tables _ _ = _
    rw [htables₂]
    rfl
  · show db₂.rows t = db.rows t
    have hv5 : t ≠ "pending_operation_v5" := fun heq => absurd (heq ▸ ht) (by decide)
    by_cases hop : t = "pending_operation"
    · subst hop
      exact hnew.trans hcopied
    · rw [hrest t hop hv5]
      exact hothers t hv5
  · exact absurd ((tracked_of_first (by decide) ht hnew').symm ▸ hnew') (by decide)

lemma step_six {db : Database} (h : Sound db) (htables : db.tables = schemaAt 5) :
    ∃ db', runAll (fun _ => false) 0 v6Schema db = .ok db' ∧ Stepped 5 db db' := by
  have hS : stateMeta ∈ db.tables := htables ▸ by decide
  have hcreate : exec (.createTable stateMetaV6) db =
      .ok ⟨db.tables ++ [stateMetaV6], Function.update db.rows "state_meta_v6" []⟩ := by
    obtain ⟨tables, rows⟩ := db
    subst htables
    rfl
  obtain ⟨db₁, hcopy, h₁, htables₁, hcopied, hothers⟩ :=
    copying_ok h hS hcreate (by decide) covers_stateMeta
  obtain ⟨tables, rows⟩ := db₁
  obtain rfl : tables = schemaAt 5 ++ [stateMetaV6] := htables ▸ htables₁
  obtain ⟨db₂, hreplace, hnew, hrest, htables₂⟩ : ∃ db₂, runAll (fun _ => false) 0
      [.dropTable "state_meta", .renameTable "state_meta_v6" "state_meta"]
        ⟨schemaAt 5 ++ [stateMetaV6], rows⟩ = .ok db₂ ∧
      db₂.rows "state_meta" = rows "state_meta_v6" ∧
      (∀ n, n ≠ "state_meta" → n ≠ "state_meta_v6" → db₂.rows n = rows n) ∧
      db₂.tables = schemaAt 6 := by
    refine ⟨_, rfl, rfl, fun n hn hn' => ?_, rfl⟩
    exact (Function.update_of_ne hn _ _).trans
      ((Function.update_of_ne hn' _ _).trans (Function.update_of_ne hn _ _))
  refine ⟨db₂, ?_, htables₂, fun t ht => ?_, fun t ht hnew' _ => ?_⟩
  · have hsplit : v6Schema = copying stateMetaV6 stateMeta ++
        [.dropTable "state_meta", .renameTable "state_meta_v6" "state_meta"] := rfl
    rw [hsplit, runAll_append hcopy, hreplace]
  · have hv6 : t ≠ "state_meta_v6" := fun heq => absurd (heq ▸ ht) (by decide)
    by_cases hmeta : t = "state_meta"
    · subst hmeta
      exact hnew.trans hcopied
    · rw [hrest t hmeta hv6]
      exact hothers t hv6
  · exact absurd ((tracked_of_first (by decide) ht hnew').symm ▸ hnew') (by decide)

/-! ## Recording the version -/

/-- The row of `schema_version` for a step. -/
def versionRow (target : ℕ) (now : ℤ) : Row :=
  schemaVersion.row fun n =>
    List.lookup n [("version", .integer target), ("applied_at", .integer now)]

@[simp] lemma versionOf_versionRow (target : ℕ) (now : ℤ) :
    versionOf (versionRow target now) = target := rfl

/-- A recorded version is not above the current one. -/
lemma versionOf_le {db : Database} {r : Row} (hr : r ∈ db.rows "schema_version") :
    versionOf r ≤ currentVersion db := by
  have hmem : versionOf r ∈ (db.rows "schema_version").map versionOf := List.mem_map_of_mem hr
  unfold currentVersion
  cases hmax : ((db.rows "schema_version").map versionOf).max? with
  | none => rw [List.max?_eq_none_iff.mp hmax] at hmem; cases hmem
  | some m => exact (List.max?_eq_some_iff.mp hmax).2 _ hmem

/-- The version after a row with a higher one. -/
lemma currentVersion_append {db db' : Database} {r : Row}
    (hrows : db'.rows "schema_version" = db.rows "schema_version" ++ [r])
    (habove : currentVersion db ≤ versionOf r) : currentVersion db' = versionOf r := by
  have hmax : ((db'.rows "schema_version").map versionOf).max? = some (versionOf r) := by
    refine List.max?_eq_some_iff.mpr ⟨by simp [hrows], fun n hn => ?_⟩
    obtain ⟨s, hs, rfl⟩ := List.mem_map.mp hn
    rw [hrows, List.mem_append, List.mem_singleton] at hs
    rcases hs with hs | rfl
    · exact Int.le_trans (versionOf_le hs) habove
    · exact Int.le_refl _
  rw [currentVersion, hmax, Option.getD_some]

/-- A version above the current one is recorded. -/
lemma record_ok {db : Database} (h : Sound db) (hT : schemaVersion ∈ db.tables) {target : ℕ}
    (habove : currentVersion db < target) (now : ℤ) :
    exec (recordVersion target now) db =
      .ok (db.withRows "schema_version" (db.rows "schema_version" ++ [versionRow target now])) := by
  refine bind_eq_ok.mpr ⟨schemaVersion, (table_eq_ok h.names).mpr ⟨hT, rfl⟩, ?_⟩
  have hadmits : db.admits schemaVersion (versionRow target now) = true := rfl
  have hnew : ((db.rows "schema_version").any fun s =>
      schemaVersion.clash s (versionRow target now)) = false := by
    rw [List.any_eq_false]
    intro s hs hclash
    have hkey : s "version" = versionRow target now "version" := by
      simp only [Table.clash, schemaVersion, List.any_nil, Bool.or_false] at hclash
      exact of_decide_eq_true hclash
    have hvalue : versionRow target now "version" = .integer target := rfl
    have hle := versionOf_le hs
    simp only [versionOf, hkey, hvalue] at hle
    omega
  show insertRow schemaVersion (versionRow target now) db = _
  unfold insertRow
  rw [hadmits]
  show (if (true && !((db.rows "schema_version").any _)) = true then _ else _) = _
  rw [hnew]
  rfl

/-! ## Several steps -/

/-- A file of a version that was brought to another one, each step at the time of a clock. -/
structure Brought (clock : ℕ → ℤ) (v k : ℕ) (db db' : Database) : Prop extends StartsAt k db' where
  recorded : db'.rows "schema_version" = db.rows "schema_version" ++
    (List.range' v (k - v)).map fun i => versionRow (i + 1) (clock i)
  kept : ∀ t ∈ tracked, t ∈ namesAt v → db'.rows t = db.rows t
  made : ∀ t ∈ tracked, t ∉ namesAt v → t ∈ namesAt k → db'.rows t = initialRows t

/-- No release drops a table. -/
lemma namesAt_mono {v k : ℕ} (hvk : v ≤ k) (hk : k ≤ 6) {t : String} (ht : t ∈ namesAt v) :
    t ∈ namesAt k := by
  have hall : ∀ k ≤ 6, ∀ v ≤ k, ∀ t ∈ namesAt v, t ∈ namesAt k := by decide +kernel
  exact hall k hk v hvk t ht

/-- Every release records versions, and none of the tables it keeps is the one for that. -/
lemma schemaVersion_mem {k : ℕ} (hk : k ≤ 6) : schemaVersion ∈ schemaAt k := by
  have hall : ∀ k ≤ 6, schemaVersion ∈ schemaAt k := by decide +kernel
  exact hall k hk

lemma Brought.refl {clock : ℕ → ℤ} {v : ℕ} {db : Database} (h : StartsAt v db) :
    Brought clock v v db db :=
  ⟨h, by simp, fun _ _ _ => rfl, fun _ _ hnew hthere => absurd hthere hnew⟩

lemma Brought.trans {clock : ℕ → ℤ} {a b c : ℕ} (hab : a ≤ b) (hbc : b ≤ c) (hc : c ≤ 6)
    {db db₁ db₂ : Database} (h : Brought clock a b db db₁) (h' : Brought clock b c db₁ db₂) :
    Brought clock a c db db₂ := by
  refine ⟨h'.toStartsAt, ?_, fun t ht hold => ?_, fun t ht hnew hthere => ?_⟩
  · have hsteps : List.range' a (c - a) = List.range' a (b - a) ++ List.range' b (c - b) := by
      rw [show c - a = (b - a) + (c - b) by omega, ← List.range'_append_1,
        show a + (b - a) = b by omega]
    rw [h'.recorded, h.recorded, hsteps, List.map_append, List.append_assoc]
  · rw [h'.kept t ht (namesAt_mono hab (Nat.le_trans hbc hc) hold), h.kept t ht hold]
  · by_cases hmid : t ∈ namesAt b
    · rw [h'.kept t ht hmid, h.made t ht hnew hmid]
    · exact h'.made t ht hmid hthere

/-- The content of a file that was brought to the latest version is determined. -/
lemma Brought.unique {clock : ℕ → ℤ} {v : ℕ} {db db₁ db₂ : Database}
    (h₁ : Brought clock v 6 db db₁) (h₂ : Brought clock v 6 db db₂) : db₁ = db₂ := by
  have hrows : db₁.rows = db₂.rows := by
    funext n
    by_cases hn : n ∈ namesAt 6
    · have hcases : n = "schema_version" ∨ n ∈ tracked := by
        have hall : ∀ n ∈ namesAt 6, n = "schema_version" ∨ n ∈ tracked := by decide +kernel
        exact hall n hn
      rcases hcases with rfl | ht
      · rw [h₁.recorded, h₂.recorded]
      · by_cases hold : n ∈ namesAt v
        · rw [h₁.kept n ht hold, h₂.kept n ht hold]
        · rw [h₁.made n ht hold hn, h₂.made n ht hold hn]
    · rw [h₁.sound.absent n (by rwa [h₁.tables]), h₂.sound.absent n (by rwa [h₂.tables])]
  have htables : db₁.tables = db₂.tables := h₁.tables.trans h₂.tables.symm
  cases db₁
  cases db₂
  simp_all

/-- The statements of each step go through. -/
lemma step_ok {k : ℕ} (hk : k < 6) {db : Database} (h : Sound db)
    (htables : db.tables = schemaAt k) :
    ∃ db', runAll (fun _ => false) 0 (migrations.get ⟨k, hk⟩) db = .ok db' ∧ Stepped k db db' := by
  match k, hk with
  | 0, _ => exact step_one htables
  | 1, _ => exact step_two htables
  | 2, _ => exact step_three h htables
  | 3, _ => exact step_four h htables
  | 4, _ => exact step_five h htables
  | 5, _ => exact step_six h htables

/-- A step and its record. -/
lemma raise_ok {clock : ℕ → ℤ} {k : ℕ} (hk : k < 6) {db : Database} (h : StartsAt k db) :
    ∃ db', runAll (fun _ => false) 0
        (migrations.get ⟨k, hk⟩ ++ [recordVersion (k + 1) (clock k)]) db = .ok db' ∧
      Brought clock k (k + 1) db db' := by
  obtain ⟨db₁, hrun, hstep⟩ := step_ok hk h.sound h.tables
  have h₁ : Sound db₁ := h.sound.runAll hrun
  have hmem : schemaVersion ∈ db₁.tables := hstep.tables ▸ schemaVersion_mem hk
  have hversions : db₁.rows "schema_version" = db.rows "schema_version" :=
    hstep.kept _ (List.mem_map_of_mem (schemaVersion_mem (Nat.le_of_lt hk)))
  have hcurrent : currentVersion db₁ = k := by
    rw [currentVersion, hversions]
    exact h.version
  have hrecord := @record_ok db₁ h₁ hmem (k + 1) (by rw [hcurrent]; omega) (clock k)
  set db₂ := db₁.withRows "schema_version"
    (db₁.rows "schema_version" ++ [versionRow (k + 1) (clock k)]) with hdb₂
  have hrows : db₂.rows "schema_version" =
      db₁.rows "schema_version" ++ [versionRow (k + 1) (clock k)] := by
    simp only [hdb₂, Database.withRows, Function.update_self]
  have hothers : ∀ t ∈ tracked, db₂.rows t = db₁.rows t := by
    intro t ht
    have hne : t ≠ "schema_version" := fun heq => absurd (heq ▸ ht) (by decide)
    exact Function.update_of_ne hne _ _
  refine ⟨db₂, ?_, ⟨hstep.tables, h₁.exec hrecord, ?_⟩, ?_, fun t ht hold => ?_,
    fun t ht hnew hthere => ?_⟩
  · rw [runAll_append hrun]
    simp only [runAll, Bool.false_eq_true, if_false, hrecord]
    rfl
  · rw [currentVersion_append hrows (by rw [hcurrent, versionOf_versionRow]; omega)]
    rfl
  · rw [hrows, hversions, show k + 1 - k = 1 by omega]
    rfl
  · rw [hothers t ht, hstep.kept t hold]
  · rw [hothers t ht, hstep.made t ht hnew hthere]

/-! ## The steps of a ladder -/

/-- The steps up to the current version are left out. -/
lemma pendingSteps_done {current now : ℤ} {l : List (List Statement)} {n : ℕ}
    (hle : (n : ℤ) + l.length ≤ current + 1) : pendingSteps current now n l = [] := by
  induction l generalizing n with
  | nil => rfl
  | cons sql l ih =>
    simp only [List.length_cons, Int.natCast_add, Int.cast_ofNat_Int] at hle
    rw [pendingSteps, if_pos (by omega), ih (by omega), List.append_nil]

lemma pendingSteps_append (current now : ℤ) (n : ℕ) (l l' : List (List Statement)) :
    pendingSteps current now n (l ++ l') =
      pendingSteps current now n l ++ pendingSteps current now (n + l.length) l' := by
  induction l generalizing n with
  | nil => rfl
  | cons sql l ih =>
    rw [List.cons_append, pendingSteps, ih, pendingSteps, List.append_assoc, List.length_cons,
      show n + 1 + l.length = n + (l.length + 1) by omega]

/-- The ladder of the next release has one step more. -/
lemma pendingSteps_succ {v k : ℕ} (hvk : v ≤ k) (hk : k < 6) (now : ℤ) :
    pendingSteps v now 1 (migrations.take (k + 1)) =
      pendingSteps v now 1 (migrations.take k) ++
        (migrations.get ⟨k, hk⟩ ++ [recordVersion (k + 1) now]) := by
  have htake : migrations.take (k + 1) = migrations.take k ++ [migrations.get ⟨k, hk⟩] :=
    List.take_succ_eq_append_getElem hk
  have hlength : (migrations.take k).length = k := List.length_take_of_le (Nat.le_of_lt hk)
  have hnot : ¬((1 + k : ℕ) : ℤ) ≤ v := by omega
  rw [htake, pendingSteps_append, hlength, pendingSteps, if_neg hnot, Nat.add_comm 1 k]
  simp [pendingSteps]

/-- The steps between two versions go through. -/
lemma climb_ok {v k : ℕ} (hvk : v ≤ k) (hk : k ≤ 6) {db : Database} (h : StartsAt v db) (now : ℤ) :
    ∃ db', runAll (fun _ => false) 0 (pendingSteps v now 1 (migrations.take k)) db = .ok db' ∧
      Brought (fun _ => now) v k db db' := by
  induction hvk with
  | refl =>
    have hlength : (migrations.take v).length = v := List.length_take_of_le hk
    rw [pendingSteps_done (by rw [hlength]; omega)]
    exact ⟨db, rfl, .refl h⟩
  | @step k hvk ih =>
    obtain ⟨db₁, hrun, hbrought⟩ := ih (by omega)
    obtain ⟨db₂, hrun', hraised⟩ := @raise_ok (fun _ => now) k hk db₁ hbrought.toStartsAt
    refine ⟨db₂, ?_, hbrought.trans hvk (by omega) hk hraised⟩
    rw [pendingSteps_succ hvk hk, runAll_append hrun]
    exact hrun'

/-! ## Opening -/

/-- The file after the bootstrap of a new one. -/
def bootstrapped : Database := ⟨[schemaVersion], fun _ => []⟩

lemma bootstrap_empty : exec (.createTable schemaVersion) Database.empty = .ok bootstrapped := by
  have hrows : Function.update Database.empty.rows "schema_version" [] = bootstrapped.rows :=
    Function.update_eq_self _ _
  exact congrArg (fun rows => (.ok ⟨[schemaVersion], rows⟩ : Except Failure Database)) hrows

lemma startsAt_bootstrapped : StartsAt 0 bootstrapped :=
  ⟨rfl, sound_empty.exec bootstrap_empty, rfl⟩

/-- What the bootstrap does with a file of a version. -/
lemma bootstrap_ok {v : ℕ} (hv : v ≤ 6) {db : Database} (h : Opened v db) :
    ∃ db₁, bootstrap db = .ok db₁ ∧ StartsAt v db₁ ∧ db₁.rows = db.rows ∧
      (db₁ = db ∨ db = Database.empty ∧ db₁ = bootstrapped) := by
  rcases h with h | ⟨rfl, rfl⟩
  · refine ⟨db, ?_, h, rfl, .inl rfl⟩
    have hthere : (db.tables.any fun T => T.name = schemaVersion.name) = true :=
      List.any_eq_true.mpr ⟨_, h.tables ▸ schemaVersion_mem hv, by simp⟩
    rw [bootstrap, if_pos hthere]
  · exact ⟨bootstrapped, bootstrap_empty, startsAt_bootstrapped, rfl, .inr ⟨rfl, rfl⟩⟩

lemma Brought.of_rows {clock : ℕ → ℤ} {v k : ℕ} {db₀ db db' : Database} (h : Brought clock v k db db')
    (hrows : db.rows = db₀.rows) : Brought clock v k db₀ db' :=
  ⟨h.toStartsAt, hrows ▸ h.recorded, hrows ▸ h.kept, h.made⟩

/-- Opening a file with a release that is not older than it. -/
lemma open_ok {v k : ℕ} (hvk : v ≤ k) (hk : k ≤ 6) {db : Database} (h : Opened v db) (now : ℤ) :
    ∃ db', openDb (migrations.take k) now (fun _ => false) db = (.ok (), db') ∧
      Brought (fun _ => now) v k db db' := by
  obtain ⟨db₁, hboot, hstarts, hrows, -⟩ := bootstrap_ok (Nat.le_trans hvk hk) h
  obtain ⟨db', hrun, hbrought⟩ := climb_ok hvk hk hstarts now
  have hlength : (migrations.take k).length = k := List.length_take_of_le hk
  have hsupported : ¬((migrations.take k).length : ℤ) < currentVersion db₁ := by
    rw [hlength, hstarts.version]
    omega
  have htransaction : transaction (fun _ => false) 2
      (pendingSteps (currentVersion db₁) now 1 (migrations.take k)) db₁ = (.ok (), db') := by
    rw [hstarts.version, transaction, runAll_start, hrun]
    rfl
  refine ⟨db', ?_, hbrought.of_rows hrows⟩
  simp only [openDb, Bool.false_eq_true, if_false, hboot, hsupported, htransaction]

/-- Open a file of version `v` with the next `n` releases, one after the other. -/
def openStepwise (clock : ℕ → ℤ) : ℕ → ℕ → Database → Except OpenFailure Unit × Database
  | 0, _, db => (.ok (), db)
  | n + 1, v, db =>
    match openDb (migrations.take (v + 1)) (clock v) (fun _ => false) db with
    | (.ok (), db) => openStepwise clock n (v + 1) db
    | failed => failed

/-- The times of later steps do not matter. -/
lemma Brought.clock {clock clock' : ℕ → ℤ} {v k : ℕ} {db db' : Database}
    (h : Brought clock v k db db') (hsame : ∀ i, v ≤ i → i < k → clock i = clock' i) :
    Brought clock' v k db db' := by
  refine ⟨h.toStartsAt, ?_, h.kept, h.made⟩
  rw [h.recorded]
  congr 1
  refine List.map_congr_left fun i hi => ?_
  obtain ⟨hge, hlt⟩ := List.mem_range'_1.mp hi
  rw [hsame i hge (by omega)]

/-- Opening with each release in turn. -/
lemma openStepwise_ok (clock : ℕ → ℤ) {n v : ℕ} (hn : v + n ≤ 6) {db : Database}
    (h : StartsAt v db) :
    ∃ db', openStepwise clock n v db = (.ok (), db') ∧ Brought clock v (v + n) db db' := by
  induction n generalizing v db with
  | zero => exact ⟨db, rfl, .refl h⟩
  | succ n ih =>
    obtain ⟨db₁, hopen, hfirst⟩ :=
      @open_ok v (v + 1) (by omega) (by omega) db (.inl h) (clock v)
    obtain ⟨db₂, hopens, hrest⟩ := @ih (v + 1) (by omega) db₁ hfirst.toStartsAt
    refine ⟨db₂, ?_, ?_⟩
    · rw [openStepwise, hopen]
      exact hopens
    · have hfirst' : Brought clock v (v + 1) db db₁ := by
        refine hfirst.clock fun i hge hlt => ?_
        rw [show i = v by omega]
      rw [show v + (n + 1) = v + 1 + n by omega]
      exact hfirst'.trans (by omega) (by omega) (by omega) hrest

/-- A file that may be the empty one is opened by the first release as well. -/
lemma openStepwise_opened (clock : ℕ → ℤ) {v : ℕ} (hv : v < 6) {db : Database} (h : Opened v db) :
    ∃ db', openStepwise clock (6 - v) v db = (.ok (), db') ∧ Brought clock v 6 db db' := by
  obtain ⟨db₁, hopen, hfirst⟩ := @open_ok v (v + 1) (by omega) (by omega) db h (clock v)
  obtain ⟨db₂, hopens, hrest⟩ :=
    @openStepwise_ok clock (5 - v) (v + 1) (by omega) db₁ hfirst.toStartsAt
  refine ⟨db₂, ?_, ?_⟩
  · rw [show 6 - v = (5 - v) + 1 by omega, openStepwise, hopen]
    exact hopens
  · rw [show v + 1 + (5 - v) = 6 by omega] at hrest
    refine Brought.trans (by omega) (by omega) (Nat.le_refl 6) (hfirst.clock fun i hge hlt => ?_) hrest
    rw [show i = v by omega]

/-- What an opening that fails leaves, and what one does that meets no error. -/
lemma openDb_faulty {v : ℕ} (hv : v ≤ 6) {db db' : Database} (h : Opened v db) {now : ℤ}
    (hopen : openDb migrations now (fun _ => false) db = (.ok (), db')) (fails : ℕ → Bool) :
    openDb migrations now fails db = (.ok (), db') ∨
      ∃ e db₁, openDb migrations now fails db = (.error e, db₁) ∧
        (db₁ = db ∨ db = Database.empty ∧ db₁ = bootstrapped) := by
  obtain ⟨db₁, hboot, hstarts, -, hsame⟩ := bootstrap_ok hv h
  have hsupported : ¬(migrations.length : ℤ) < currentVersion db₁ := by
    rw [hstarts.version, show migrations.length = 6 from rfl]
    omega
  set steps := pendingSteps (currentVersion db₁) now 1 migrations with hsteps
  have hdone : (transaction (fun _ => false) 2 steps db₁) = (.ok (), db') := by
    simp only [openDb, Bool.false_eq_true, if_false, hboot, hsupported, ← hsteps] at hopen
    split at hopen
    case h_1 db₂ heq =>
      rw [heq, show db₂ = db' from (Prod.mk.inj hopen).2]
    case h_2 => cases hopen
  by_cases h₀ : fails 0 = true
  · exact .inr ⟨.sqlite .io, db, by simp [openDb, h₀], .inl rfl⟩
  by_cases h₁ : fails 1 = true
  · exact .inr ⟨.sqlite .io, db₁, by simp [openDb, h₀, h₁, hboot], hsame⟩
  cases hrun : (transaction fails 2 steps db₁).1 with
  | error e =>
    have hback := @transaction_failed fails 2 steps db₁ (by rw [hrun]; exact nofun)
    have hpair : transaction fails 2 steps db₁ = (.error e, db₁) := Prod.ext hrun hback
    exact .inr ⟨.sqlite e, db₁, by simp [openDb, h₀, h₁, hboot, hsupported, ← hsteps, hpair], hsame⟩
  | ok u =>
    have hall := transaction_done hrun
    have hfaultless := @transaction_done (fun _ => false) 2 steps db₁ (by rw [hdone])
    rw [hdone, hall] at hfaultless
    have hpair : transaction fails 2 steps db₁ = (.ok (), db') :=
      Prod.ext hrun (Except.ok.inj hfaultless)
    exact .inl (by simp [openDb, h₀, h₁, hboot, hsupported, ← hsteps, hpair])

/-- Files that were brought to the latest version at different times agree. -/
lemma Brought.agree {clock clock' : ℕ → ℤ} {v : ℕ} {db db₁ db₂ : Database}
    (h₁ : Brought clock v 6 db db₁) (h₂ : Brought clock' v 6 db db₂) :
    db₁.tables = db₂.tables ∧ (∀ t ∈ tracked, db₁.rows t = db₂.rows t) ∧
      (db₁.rows "schema_version").map versionOf = (db₂.rows "schema_version").map versionOf := by
  refine ⟨h₁.tables.trans h₂.tables.symm, fun t ht => ?_, ?_⟩
  · have hthere : t ∈ namesAt 6 := by
      have hall : ∀ t ∈ tracked, t ∈ namesAt 6 := by decide +kernel
      exact hall t ht
    by_cases hold : t ∈ namesAt v
    · rw [h₁.kept t ht hold, h₂.kept t ht hold]
    · rw [h₁.made t ht hold hthere, h₂.made t ht hold hthere]
  · rw [h₁.recorded, h₂.recorded]
    simp [List.map_map, Function.comp_def]

/-- **Migrations lose nothing.** A file of any version that the ladder starts from, with any
content that its schema allows, is brought to the latest version: its tables have the latest
schema, their rows are the ones that were there, where new columns are null, or the ones of a new
file. Releases that open the file one after the other leave the same, but for the times of the
steps. Whatever statement fails, the file keeps its version and its content, and a new file gets no
more than the table that records versions. -/
theorem open_migrates {v : ℕ} (hv : v ≤ latestVersion) {db : Database} (h : Opened v db) (now : ℤ) :
    ∃ db', openDb migrations now (fun _ => false) db = (.ok (), db') ∧
      Brought (fun _ => now) v latestVersion db db' ∧
      (∀ T ∈ schemaAt v, T.name ∈ tracked → ∀ r ∈ db'.rows T.name,
        ∀ n, n ∉ T.columns.map Column.name → r n = .null) ∧
      (∀ clock : ℕ → ℤ, ∃ db₁,
        openStepwise clock (latestVersion - v) v db = (.ok (), db₁) ∧
        db₁.tables = db'.tables ∧ (∀ t ∈ tracked, db₁.rows t = db'.rows t) ∧
        (db₁.rows "schema_version").map versionOf = (db'.rows "schema_version").map versionOf ∧
        ((∀ i, clock i = now) → db₁ = db')) ∧
      ∀ fails, openDb migrations now fails db = (.ok (), db') ∨
        ∃ e db₁, openDb migrations now fails db = (.error e, db₁) ∧ currentVersion db₁ = v ∧
          (db₁ = db ∨ db = Database.empty ∧ db₁ = bootstrapped) := by
  obtain ⟨db', hopen, hbrought⟩ := open_ok hv (Nat.le_refl 6) h now
  refine ⟨db', hopen, hbrought, fun T hT htracked r hr n hn => ?_, fun clock => ?_, fun fails => ?_⟩
  · rw [hbrought.kept T.name htracked (List.mem_map_of_mem hT)] at hr
    rcases h with h | ⟨-, rfl⟩
    · exact (h.sound.fits T (h.tables ▸ hT) r hr).beyond n hn
    · cases hr
  · obtain ⟨db₁, hopens, hbrought₁⟩ : ∃ db₁, openStepwise clock (latestVersion - v) v db =
        (.ok (), db₁) ∧ Brought clock v 6 db db₁ := by
      by_cases hlatest : v = 6
      · subst hlatest
        rcases h with h | ⟨hzero, -⟩
        · exact ⟨db, rfl, .refl h⟩
        · cases hzero
      · exact openStepwise_opened clock (Nat.lt_of_le_of_ne hv hlatest) h
    obtain ⟨htables, hrows, hversions⟩ := hbrought₁.agree hbrought
    refine ⟨db₁, hopens, htables, hrows, hversions, fun hclock => ?_⟩
    exact (hbrought₁.clock fun i _ _ => hclock i).unique hbrought
  · rcases openDb_faulty hv h hopen fails with hok | ⟨e, db₁, herr, hsame⟩
    · exact .inl hok
    · refine .inr ⟨e, db₁, herr, ?_, hsame⟩
      rcases hsame with rfl | ⟨rfl, rfl⟩
      · rcases h with h | ⟨rfl, rfl⟩
        · exact h.version
        · rfl
      · rcases h with h | ⟨rfl, -⟩
        · exact absurd (h.tables ▸ schemaVersion_mem hv) (by simp [Database.empty])
        · rfl

/-- What an earlier release ran: four steps of the ladder, and an item with an operation. -/
def sampleStatements : List Statement :=
  .createTable schemaVersion :: pendingSteps 0 0 1 (migrations.take 4) ++ [
    .insert "account" [("id", .integer 1), ("email", .text "a@b.c"), ("created_at", .integer 5),
      ("linked_at", .integer 5)],
    .insert "folder_mapping" [("id", .integer 1), ("account_id", .integer 1),
      ("local_path", .text "/sync"), ("remote_folder_id", .text "root"),
      ("created_at", .integer 6)],
    .insert "sync_item" [("id", .integer 7), ("mapping_id", .integer 1),
      ("relative_path", .text "a/b"), ("kind", .text "file"), ("last_synced_at", .integer 8),
      ("state", .text "synced")],
    .insert "pending_operation" [("id", .integer 9), ("sync_item_id", .integer 7),
      ("op", .text "upload"), ("next_attempt_at", .integer 10), ("enqueued_at", .integer 10)]]

/-- The file it left. -/
def sampleFile : Database :=
  match runAll (fun _ => false) 0 sampleStatements Database.empty with
  | .ok db => db
  | .error _ => Database.empty

theorem open_migrates_sample : sampleFile.rows "pending_operation" ≠ [] ∧
    ∃ db', openDb migrations 20 (fun _ => false) sampleFile = (.ok (), db') ∧
      db'.tables = schemaAt 6 ∧
      db'.rows "pending_operation" = sampleFile.rows "pending_operation" := by
  have hrun : runAll (fun _ => false) 0 sampleStatements Database.empty = .ok sampleFile := rfl
  have hstarts : StartsAt 4 sampleFile := ⟨rfl, sound_empty.runAll hrun, rfl⟩
  obtain ⟨db', hopen, hbrought, -⟩ := open_migrates (by decide) (.inl hstarts) 20
  exact ⟨nofun, db', hopen, hbrought.tables,
    hbrought.kept "pending_operation" (by decide) (by decide)⟩

end AirDrive.Schema
