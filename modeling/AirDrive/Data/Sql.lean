import Mathlib.Tactic.Lemma
import Mathlib.Data.Int.Notation
import Mathlib.Data.List.Nodup
import Mathlib.Logic.Function.Basic

set_option relaxedAutoImplicit false
set_option autoImplicit false

/-!
# A small relational database

Tables with typed columns, checks, foreign keys, a primary key and indexes, and the statements by
which a schema is built and changed, after SQLite: a column has an affinity by which values are
converted when they are stored, tables cannot be changed in place but for a new column, and a
transaction that fails leaves no trace.

## Main definitions

* `Data.Sql.Table`, `Data.Sql.Database` — schema and content.
* `Data.Sql.Statement`, `Data.Sql.exec` — the statements.
* `Data.Sql.runAll`, `Data.Sql.transaction` — several statements, each of which may fail.
* `Data.Sql.Sound` — the content obeys the schema.

## Main results

* `Data.Sql.Sound.exec` — a statement that goes through keeps the content sound.
* `Data.Sql.exec_copy` — rows are copied as they are into a table that asks no more of them.
* `Data.Sql.transaction_failed` — a failed transaction changes nothing.

## Design

A row gives a value for every column name, which is null for names that are no column of its
table; so a new column that starts out null leaves the rows as they are. A foreign key refers to
the primary key of another table. Row ids that the engine chooses are not modelled.
-/

namespace Data.Sql

/-- A stored value. A real number that is no integer is given by its numeral. -/
inductive Value
  | null
  | integer (n : ℤ)
  | real (numeral : String)
  | text (s : String)
  | blob (bytes : List UInt8)
deriving DecidableEq, Repr

/-- The affinity of a column. -/
inductive Affinity
  | integer
  | text
deriving DecidableEq, Repr

/-- The value that is stored in a column for a value that is given. -/
def Affinity.store : Affinity → Value → Value
  | .text, .integer n => .text (toString n)
  | .text, .real s => .text s
  | .integer, .text s =>
    match s.toInt? with
    | some n => .integer n
    | none => .text s
  | _, v => v

/-- A column of a table. -/
structure Column where
  /-- Its name. -/
  name : String
  /-- What is stored in it. -/
  affinity : Affinity
  /-- `NOT NULL`. -/
  notNull : Bool := false
  /-- `DEFAULT`. -/
  default : Value := .null
  /-- `CHECK (column IN (...))`. -/
  allowed : Option (List Value) := none
  /-- `REFERENCES`: the table whose primary key it holds. -/
  references : Option String := none
deriving DecidableEq, Repr

/-- An index of a table. -/
structure Index where
  /-- Its name, unique among all tables and indexes. -/
  name : String
  /-- The indexed columns. -/
  columns : List String
  /-- `UNIQUE`. -/
  unique : Bool := false
deriving DecidableEq, Repr

/-- The definition of a table. -/
structure Table where
  /-- Its name. -/
  name : String
  /-- Its columns. -/
  columns : List Column
  /-- The column that is its `INTEGER PRIMARY KEY`. -/
  key : String := "id"
  /-- Its indexes. -/
  indexes : List Index := []
deriving DecidableEq, Repr

/-- A row: the value of each column. -/
abbrev Row := String → Value

/-- A database: the definitions of its tables and, by name, their rows. -/
structure Database where
  /-- The schema. -/
  tables : List Table
  /-- The content. -/
  rows : String → List Row

/-- The database of a new file. -/
def Database.empty : Database := ⟨[], fun _ => []⟩

/-- The ways a statement fails. -/
inductive Failure
  | alreadyExists
  | noSuchTable
  | constraint
  | io
deriving DecidableEq, Repr

/-! ## Constraints -/

/-- The value obeys the constraints of the column. A check that is null passes. -/
def Column.accepts (c : Column) (v : Value) : Bool :=
  (!c.notNull || v ≠ .null) && (c.allowed.all fun l => v = .null || l.contains v)

/-- The value refers to a row of the table that the column references. -/
def Database.refers (db : Database) (c : Column) (v : Value) : Bool :=
  c.references.all fun parent => v = .null ||
    ((db.tables.find? fun T => T.name = parent).any fun T =>
      (db.rows parent).any fun r => r T.key = v)

/-- A primary key is an integer. -/
def isInteger : Value → Bool
  | .integer _ => true
  | _ => false

/-- The row obeys the constraints that do not depend on the other rows of its table. -/
def Database.admits (db : Database) (T : Table) (r : Row) : Bool :=
  isInteger (r T.key) && T.columns.all fun c => c.accepts (r c.name) && db.refers c (r c.name)

/-- Two rows agree on a column, and their value is not null. -/
def agree (r s : Row) (column : String) : Bool := r column = s column && r column ≠ .null

/-- Two rows cannot be in the table together. -/
def Table.clash (T : Table) (r s : Row) : Bool :=
  r T.key = s T.key || T.indexes.any fun i => i.unique && i.columns.all (agree r s)

/-- The row that is stored for the values that are given for some columns. -/
def Table.row (T : Table) (given : String → Option Value) : Row := fun n =>
  match T.columns.find? fun c => c.name = n with
  | some c => c.affinity.store ((given n).getD c.default)
  | none => .null

/-! ## Statements -/

/-- A statement. -/
inductive Statement
  /-- `CREATE TABLE`. -/
  | createTable (T : Table)
  /-- `CREATE [UNIQUE] INDEX ... ON table`. -/
  | createIndex (table : String) (i : Index)
  /-- `INSERT INTO table (columns) VALUES (values)`. -/
  | insert (table : String) (given : List (String × Value))
  /-- `INSERT INTO table (columns) SELECT selected FROM source`. -/
  | insertSelect (table : String) (columns selected : List String) (source : String)
  /-- `DROP TABLE`. -/
  | dropTable (table : String)
  /-- `ALTER TABLE old RENAME TO new`. -/
  | renameTable (old new : String)
  /-- `ALTER TABLE table ADD COLUMN`. -/
  | addColumn (table : String) (c : Column)
deriving DecidableEq, Repr

/-- The definition of a table. -/
def Database.table (db : Database) (name : String) : Except Failure Table :=
  match db.tables.find? fun T => T.name = name with
  | some T => .ok T
  | none => .error .noSuchTable

/-- A table or an index has the name. -/
def nameUsed (tables : List Table) (name : String) : Bool :=
  tables.any fun T => T.name = name || T.indexes.any fun i => i.name = name

/-- The columns of the table have different names, and the primary key and the indexes are about
some of them. -/
def Table.wellFormed (T : Table) : Bool :=
  decide (T.columns.map Column.name).Nodup && (T.columns.map Column.name).contains T.key &&
    T.indexes.all fun i => i.columns.all fun n => (T.columns.map Column.name).contains n

/-- The table with one more index. -/
def Table.addIndex (T : Table) (i : Index) : Table := { T with indexes := T.indexes ++ [i] }

/-- The table with one more column. -/
def Table.addColumn (T : Table) (c : Column) : Table := { T with columns := T.columns ++ [c] }

/-- Other rows for a table. -/
def Database.withRows (db : Database) (name : String) (rows : List Row) : Database :=
  ⟨db.tables, Function.update db.rows name rows⟩

/-- Add a row to a table. -/
def insertRow (T : Table) (r : Row) (db : Database) : Except Failure Database :=
  if db.admits T r && !(db.rows T.name).any fun s => T.clash s r then
    .ok (db.withRows T.name (db.rows T.name ++ [r]))
  else .error .constraint

/-- Add rows to a table, one after the other. -/
def insertRows (T : Table) : List Row → Database → Except Failure Database
  | [], db => .ok db
  | r :: rs, db => (insertRow T r db).bind (insertRows T rs)

/-- The tables with another definition for a name. -/
def redefine (tables : List Table) (name : String) (f : Table → Table) : List Table :=
  tables.map fun T => if T.name = name then f T else T

/-- A reference after a table was renamed. -/
def Column.follow (old new : String) (c : Column) : Column :=
  { c with references := c.references.map fun p => if p = old then new else p }

/-- A table after a table was renamed, itself or another one. -/
def Table.follow (old new : String) (T : Table) : Table :=
  { T with name := if T.name = old then new else T.name
           columns := T.columns.map (Column.follow old new) }

/-- What a statement does. A table that others refer to is not dropped. -/
def exec : Statement → Database → Except Failure Database
  | .createTable T, db =>
    if nameUsed db.tables T.name || T.indexes ≠ [] || !T.wellFormed then .error .alreadyExists
    else .ok ⟨db.tables ++ [T], Function.update db.rows T.name []⟩
  | .createIndex name i, db => do
    let T ← db.table name
    if nameUsed db.tables i.name || !(T.addIndex i).wellFormed then .error .alreadyExists
    else if decide ((db.rows name).Pairwise fun r s => (T.addIndex i).clash r s = false) then
      .ok ⟨redefine db.tables name fun T => T.addIndex i, db.rows⟩
    else .error .constraint
  | .insert name given, db => do
    let T ← db.table name
    insertRow T (T.row fun n => List.lookup n given) db
  | .insertSelect name columns selected source, db => do
    let T ← db.table name
    let _ ← db.table source
    insertRows T ((db.rows source).map fun r =>
      T.row fun n => (List.lookup n (columns.zip selected)).map r) db
  | .dropTable name, db => do
    let _ ← db.table name
    if db.tables.any fun T => T.columns.any fun c => c.references = some name then
      .error .constraint
    else
      .ok ⟨db.tables.filter fun T => T.name ≠ name, Function.update db.rows name []⟩
  | .renameTable old new, db => do
    let _ ← db.table old
    if nameUsed db.tables new then .error .alreadyExists
    else
      .ok ⟨db.tables.map (Table.follow old new),
        Function.update (Function.update db.rows old []) new (db.rows old)⟩
  | .addColumn name c, db => do
    let T ← db.table name
    if (T.columns.map Column.name).contains c.name then .error .alreadyExists
    else if c.accepts c.default && c.references = none && c.affinity.store c.default = c.default then
      .ok ⟨redefine db.tables name fun T => T.addColumn c,
        Function.update db.rows name
          ((db.rows name).map fun r => Function.update r c.name c.default)⟩
    else .error .constraint

/-- Several statements, from the `n`-th on. Besides its own ways to fail, each of them may meet an
I/O error. -/
def runAll (fails : ℕ → Bool) : ℕ → List Statement → Database → Except Failure Database
  | _, [], db => .ok db
  | n, s :: rest, db => if fails n then .error .io else (exec s db).bind (runAll fails (n + 1) rest)

/-- Several statements of which all are done or none: the answer, and the database after. The
commit is one more step that may fail. -/
def transaction (fails : ℕ → Bool) (n : ℕ) (l : List Statement) (db : Database) :
    Except Failure Unit × Database :=
  match runAll fails n l db with
  | .ok db' => if fails (n + l.length) then (.error .io, db) else (.ok (), db')
  | .error e => (.error e, db)

/-! ## Sound databases -/

/-- The value refers to a row of the table that the column references. -/
def Database.Refers (db : Database) (c : Column) (v : Value) : Prop :=
  ∀ p, c.references = some p → v = .null ∨ ∃ T ∈ db.tables, T.name = p ∧ ∃ r ∈ db.rows p, r T.key = v

/-- The row is one of the table: its values are as they are stored, they obey the constraints, and
there are no others. -/
structure Fits (db : Database) (T : Table) (r : Row) : Prop where
  key : isInteger (r T.key) = true
  accepts : ∀ c ∈ T.columns, c.accepts (r c.name) = true
  refers : ∀ c ∈ T.columns, db.Refers c (r c.name)
  stored : ∀ c ∈ T.columns, c.affinity.store (r c.name) = r c.name
  beyond : ∀ n, n ∉ T.columns.map Column.name → r n = .null

/-- The content of the database obeys its schema. -/
structure Sound (db : Database) : Prop where
  names : (db.tables.map Table.name).Nodup
  formed : ∀ T ∈ db.tables, T.wellFormed = true
  absent : ∀ n, n ∉ db.tables.map Table.name → db.rows n = []
  fits : ∀ T ∈ db.tables, ∀ r ∈ db.rows T.name, Fits db T r
  distinct : ∀ T ∈ db.tables, (db.rows T.name).Pairwise fun r s => T.clash r s = false

lemma sound_empty : Sound Database.empty :=
  ⟨List.nodup_nil, nofun, fun _ _ => rfl, nofun, nofun⟩

section Sound

variable {db db' : Database} {T : Table} {r : Row} {name : String}

/-- There is one table for a name. -/
lemma table_eq_ok (hn : (db.tables.map Table.name).Nodup) :
    db.table name = .ok T ↔ T ∈ db.tables ∧ T.name = name := by
  unfold Database.table
  constructor
  · intro h
    cases hfind : db.tables.find? fun T => T.name = name with
    | none => simp [hfind] at h
    | some T' =>
      obtain rfl : T' = T := by simpa [hfind] using h
      exact ⟨List.mem_of_find?_eq_some hfind, by simpa using List.find?_some hfind⟩
  · rintro ⟨hT, rfl⟩
    cases hfind : db.tables.find? fun T' => T'.name = T.name with
    | none =>
      have := List.find?_eq_none.mp hfind T hT
      simp at this
    | some T' =>
      have hname : T'.name = T.name := by simpa using List.find?_some hfind
      rw [List.inj_on_of_nodup_map hn (List.mem_of_find?_eq_some hfind) hT hname]

lemma refers_iff (hn : (db.tables.map Table.name).Nodup) {c : Column} {v : Value} :
    db.refers c v = true ↔ db.Refers c v := by
  unfold Database.refers Database.Refers
  cases hc : c.references with
  | none => simp
  | some p =>
    have hfind : ∀ T', db.tables.find? (fun T => T.name = p) = some T' ↔
        T' ∈ db.tables ∧ T'.name = p := by
      intro T'
      have htable := @table_eq_ok db T' p hn
      rw [← htable, Database.table]
      cases db.tables.find? fun T => T.name = p <;> simp
    simp only [Option.all_some, Bool.or_eq_true, decide_eq_true_eq, Option.any_eq_true,
      List.any_eq_true, hfind, Option.some.injEq, forall_eq']
    exact or_congr_right ⟨fun ⟨T', hT', hr⟩ => ⟨T', hT'.1, hT'.2, hr⟩,
      fun ⟨T', hT', hname, hr⟩ => ⟨T', ⟨hT', hname⟩, hr⟩⟩

lemma admits_iff (hn : (db.tables.map Table.name).Nodup) : db.admits T r = true ↔
    isInteger (r T.key) = true ∧ (∀ c ∈ T.columns, c.accepts (r c.name) = true) ∧
      ∀ c ∈ T.columns, db.Refers c (r c.name) := by
  simp only [Database.admits, Bool.and_eq_true, List.all_eq_true, refers_iff hn]
  exact and_congr_right fun _ => ⟨fun h => ⟨fun c hc => (h c hc).1, fun c hc => (h c hc).2⟩,
    fun h c hc => ⟨h.1 c hc, h.2 c hc⟩⟩

/-- The keys of a table are still there. -/
def KeepsKeys (db db' : Database) (p : String) : Prop :=
  ∀ T ∈ db.tables, T.name = p → ∃ T' ∈ db'.tables, T'.name = p ∧
    ∀ r ∈ db.rows p, ∃ r' ∈ db'.rows p, r' T'.key = r T.key

lemma Database.Refers.mono {c : Column} {v : Value} (h : db.Refers c v)
    (hkeys : ∀ p, c.references = some p → KeepsKeys db db' p) : db'.Refers c v := by
  intro p hp
  refine (h p hp).imp_right fun ⟨T, hT, hname, r, hr, hv⟩ => ?_
  obtain ⟨T', hT', hname', hrows⟩ := hkeys p hp T hT hname
  obtain ⟨r', hr', hkey⟩ := hrows r hr
  exact ⟨T', hT', hname', r', hr', hkey.trans hv⟩

/-- Where the keys that others refer to are kept, rows stay rows of their table. -/
lemma Fits.mono (h : Fits db T r)
    (hkeys : ∀ c ∈ T.columns, ∀ p, c.references = some p → KeepsKeys db db' p) : Fits db' T r :=
  ⟨h.key, h.accepts, fun c hc => (h.refers c hc).mono (hkeys c hc), h.stored, h.beyond⟩

/-- What is stored is stored as it is. -/
@[simp] lemma store_store (a : Affinity) (v : Value) : a.store (a.store v) = a.store v := by
  cases a with
  | text => cases v <;> rfl
  | integer =>
    cases v with
    | text t =>
      simp only [Affinity.store]
      cases ht : t.toInt? <;> simp [Affinity.store, ht]
    | null => rfl
    | integer n => rfl
    | real t => rfl
    | blob b => rfl

/-- A table that has a well-formed definition has one column for a name. -/
lemma column_of_find (hT : T.wellFormed = true) {c : Column} (hc : c ∈ T.columns) :
    T.columns.find? (fun c' => c'.name = c.name) = some c := by
  simp only [Table.wellFormed, Bool.and_eq_true, decide_eq_true_eq] at hT
  cases hfind : T.columns.find? fun c' => c'.name = c.name with
  | none =>
    have := List.find?_eq_none.mp hfind c hc
    simp at this
  | some c' =>
    have hname : c'.name = c.name := by simpa using List.find?_some hfind
    rw [List.inj_on_of_nodup_map hT.1.1 (List.mem_of_find?_eq_some hfind) hc hname]

/-- A row that is made for a table and admitted is one of the table. -/
lemma fits_row (hn : (db.tables.map Table.name).Nodup) (hT : T.wellFormed = true)
    {given : String → Option Value} (h : db.admits T (T.row given) = true) :
    Fits db T (T.row given) := by
  obtain ⟨hkey, haccepts, hrefers⟩ := (admits_iff hn).mp h
  refine ⟨hkey, haccepts, hrefers, fun c hc => ?_, fun n hnone => ?_⟩
  · simp only [Table.row, column_of_find hT hc, store_store]
  · have hfind : T.columns.find? (fun c => c.name = n) = none := by
      simpa [List.mem_map] using hnone
    simp only [Table.row, hfind]

/-- Rows are added that fit: the content stays sound. -/
lemma Sound.insertRow (h : Sound db) (hT : T ∈ db.tables) (hfits : db.admits T r = true → Fits db T r)
    (hrun : insertRow T r db = .ok db') : Sound db' ∧ db'.tables = db.tables ∧
      ∀ n, n ≠ T.name → db'.rows n = db.rows n := by
  unfold Sql.insertRow at hrun
  split at hrun
  case isFalse => simp at hrun
  case isTrue hcheck =>
    obtain rfl := Except.ok.inj hrun
    simp only [Bool.and_eq_true, Bool.not_eq_true', List.any_eq_false, Bool.not_eq_true] at hcheck
    obtain ⟨hadmits, hnew⟩ := hcheck
    have hgrows : ∀ n, ∀ s ∈ db.rows n,
        s ∈ (db.withRows T.name (db.rows T.name ++ [r])).rows n := by
      intro n s hs
      simp only [Database.withRows]
      by_cases hn : n = T.name
      · subst hn
        simp [hs]
      · rwa [Function.update_of_ne hn]
    have hkeeps : ∀ p, KeepsKeys db (db.withRows T.name (db.rows T.name ++ [r])) p :=
      fun p T' hT' hname => ⟨T', hT', hname, fun s hs => ⟨s, hgrows p s hs, rfl⟩⟩
    refine ⟨⟨h.names, h.formed, fun n hn => ?_, fun T' hT' s hs => ?_, fun T' hT' => ?_⟩, rfl,
      fun n hn => Function.update_of_ne hn _ _⟩
    · have hne : n ≠ T.name := by
        rintro rfl
        exact hn (List.mem_map.mpr ⟨T, hT, rfl⟩)
      simp only [Database.withRows, Function.update_of_ne hne]
      exact h.absent n hn
    · simp only [Database.withRows] at hs
      by_cases hname : T'.name = T.name
      · obtain rfl : T' = T := List.inj_on_of_nodup_map h.names hT' hT hname
        rw [Function.update_self, List.mem_append, List.mem_singleton] at hs
        rcases hs with hs | rfl
        · exact (h.fits T' hT' s hs).mono fun c _ p _ => hkeeps p
        · exact (hfits hadmits).mono fun c _ p _ => hkeeps p
      · rw [Function.update_of_ne hname] at hs
        exact (h.fits T' hT' s hs).mono fun c _ p _ => hkeeps p
    · simp only [Database.withRows]
      by_cases hname : T'.name = T.name
      · obtain rfl : T' = T := List.inj_on_of_nodup_map h.names hT' hT hname
        rw [Function.update_self]
        refine List.pairwise_append.mpr ⟨h.distinct T' hT', by simp, fun s hs t ht => ?_⟩
        obtain rfl := List.mem_singleton.mp ht
        exact hnew s hs
      · rw [Function.update_of_ne hname]
        exact h.distinct T' hT'

/-- So do several rows, made for the table. -/
lemma Sound.insertRows (h : Sound db) (hT : T ∈ db.tables) {rs : List Row}
    (hrows : ∀ r ∈ rs, ∃ given, r = T.row given) (hrun : insertRows T rs db = .ok db') :
    Sound db' ∧ db'.tables = db.tables ∧ ∀ n, n ≠ T.name → db'.rows n = db.rows n := by
  induction rs generalizing db with
  | nil =>
    obtain rfl := Except.ok.inj hrun
    exact ⟨h, rfl, fun _ _ => rfl⟩
  | cons r rs ih =>
    simp only [Sql.insertRows] at hrun
    cases hfirst : Sql.insertRow T r db with
    | error e =>
      rw [hfirst] at hrun
      cases hrun
    | ok db₁ =>
      rw [hfirst] at hrun
      obtain ⟨given, rfl⟩ := hrows r (by simp)
      obtain ⟨h₁, htables, hothers⟩ := h.insertRow hT (fits_row h.names (h.formed T hT)) hfirst
      obtain ⟨h₂, htables', hothers'⟩ := ih h₁ (by rwa [htables]) (fun r hr => hrows r (by simp [hr]))
        hrun
      exact ⟨h₂, htables'.trans htables, fun n hn => (hothers' n hn).trans (hothers n hn)⟩

/-- A step that goes through went through in its parts. -/
lemma bind_eq_ok {α β : Type} {x : Except Failure α} {f : α → Except Failure β} {b : β} :
    (x >>= f) = .ok b ↔ ∃ a, x = .ok a ∧ f a = .ok b := by
  cases x with
  | error e => exact ⟨nofun, nofun⟩
  | ok a => exact ⟨fun h => ⟨a, rfl, h⟩, fun ⟨a', ha, h⟩ => by cases ha; exact h⟩

/-- Soundness of a database whose tables are changed one by one. -/
lemma sound_of_map {g : Table → Table} (htables : db'.tables = db.tables.map g)
    (hnames : (db.tables.map fun T => (g T).name).Nodup)
    (hformed : ∀ T ∈ db.tables, (g T).wellFormed = true)
    (habsent : ∀ n, (∀ T ∈ db.tables, (g T).name ≠ n) → db'.rows n = [])
    (hfits : ∀ T ∈ db.tables, ∀ r ∈ db'.rows (g T).name, Fits db' (g T) r)
    (hdistinct : ∀ T ∈ db.tables,
      (db'.rows (g T).name).Pairwise fun r s => (g T).clash r s = false) : Sound db' := by
  refine ⟨?_, fun T hT => ?_, fun n hn => ?_, fun T hT => ?_, fun T hT => ?_⟩
  · rw [htables, List.map_map]
    exact hnames
  · rw [htables] at hT
    obtain ⟨T₀, hT₀, rfl⟩ := List.mem_map.mp hT
    exact hformed T₀ hT₀
  · refine habsent n fun T hT hname => hn ?_
    rw [htables, List.map_map]
    exact List.mem_map.mpr ⟨T, hT, hname⟩
  · rw [htables] at hT
    obtain ⟨T₀, hT₀, rfl⟩ := List.mem_map.mp hT
    exact hfits T₀ hT₀
  · rw [htables] at hT
    obtain ⟨T₀, hT₀, rfl⟩ := List.mem_map.mp hT
    exact hdistinct T₀ hT₀

/-- A new table is empty. -/
lemma Sound.createTable (h : Sound db) (hrun : exec (.createTable T) db = .ok db') : Sound db' := by
  simp only [exec] at hrun
  split at hrun
  case isTrue => simp at hrun
  case isFalse hcheck =>
    simp only [Bool.or_eq_true, not_or, Bool.not_eq_true, nameUsed, List.any_eq_false,
      Bool.or_eq_false_iff, decide_eq_false_iff_not, Bool.not_eq_false'] at hcheck
    obtain ⟨⟨hfresh, -⟩, hformed⟩ := hcheck
    have htables : db'.tables = db.tables ++ [T] := by rw [← Except.ok.inj hrun]
    have hnone : db'.rows T.name = [] := by
      rw [← Except.ok.inj hrun]
      exact Function.update_self _ _ _
    have hothers : ∀ n, n ≠ T.name → db'.rows n = db.rows n := by
      rw [← Except.ok.inj hrun]
      exact fun n hn => Function.update_of_ne hn _ _
    have hnew : ∀ T' ∈ db.tables, T'.name ≠ T.name := fun T' hT' => (hfresh T' hT').1
    have hsame : ∀ T' ∈ db.tables, db'.rows T'.name = db.rows T'.name :=
      fun T' hT' => hothers _ (hnew T' hT')
    have hmem : ∀ T', T' ∈ db'.tables ↔ T' ∈ db.tables ∨ T' = T := by simp [htables]
    have hkeeps : ∀ p, KeepsKeys db db' p := by
      rintro p T' hT' rfl
      exact ⟨T', (hmem T').mpr (.inl hT'), rfl, fun r hr => ⟨r, by rwa [hsame T' hT'], rfl⟩⟩
    refine ⟨?_, fun T' hT' => ?_, fun n hn => ?_, fun T' hT' r hr => ?_, fun T' hT' => ?_⟩
    · rw [htables, List.map_append, List.nodup_append]
      refine ⟨h.names, by simp, ?_⟩
      rintro a ha b hb rfl
      obtain ⟨T', hT', rfl⟩ := List.mem_map.mp ha
      exact hnew T' hT' (by simpa using hb)
    · rcases (hmem T').mp hT' with hT' | rfl
      · exact h.formed T' hT'
      · exact hformed
    · simp only [htables, List.map_append, List.mem_append, not_or, List.map_cons, List.map_nil,
        List.mem_singleton] at hn
      rw [hothers n hn.2]
      exact h.absent n hn.1
    · rcases (hmem T').mp hT' with hT' | rfl
      · rw [hsame T' hT'] at hr
        exact (h.fits T' hT' r hr).mono fun c _ p _ => hkeeps p
      · rw [hnone] at hr
        cases hr
    · rcases (hmem T').mp hT' with hT' | rfl
      · rw [hsame T' hT']
        exact h.distinct T' hT'
      · simp [hnone]

/-- An index is made only where no two rows clash. -/
lemma Sound.createIndex (h : Sound db) {i : Index} (hrun : exec (.createIndex name i) db = .ok db') :
    Sound db' := by
  obtain ⟨T, htable, hrun⟩ := bind_eq_ok.mp hrun
  obtain ⟨hT, rfl⟩ := (table_eq_ok h.names).mp htable
  split at hrun
  case isTrue => simp at hrun
  case isFalse hcheck =>
  split at hrun
  case isFalse => simp at hrun
  case isTrue hclash =>
  simp only [Bool.or_eq_true, not_or, Bool.not_eq_true, Bool.not_eq_false'] at hcheck
  have htables : db'.tables = redefine db.tables T.name fun T => T.addIndex i := by
    rw [← Except.ok.inj hrun]
  have hrows : db'.rows = db.rows := by rw [← Except.ok.inj hrun]
  have hname : ∀ T' : Table, (if T'.name = T.name then T'.addIndex i else T').name = T'.name := by
    intro T'
    split <;> rfl
  have hkeeps : ∀ p, KeepsKeys db db' p := by
    rintro p T' hT' rfl
    refine ⟨_, htables ▸ List.mem_map.mpr ⟨T', hT', rfl⟩, hname T', fun r hr => ⟨r, ?_, ?_⟩⟩
    · rwa [hrows]
    · split <;> rfl
  refine sound_of_map htables ?_ (fun T' hT' => ?_) (fun n hn => ?_) (fun T' hT' r hr => ?_)
    fun T' hT' => ?_
  · simp only [hname]
    exact h.names
  · split
    case isTrue heq =>
      rw [List.inj_on_of_nodup_map h.names hT' hT heq]
      exact hcheck.2
    case isFalse => exact h.formed T' hT'
  · rw [hrows]
    refine h.absent n fun hmem => ?_
    obtain ⟨T', hT', rfl⟩ := List.mem_map.mp hmem
    exact hn T' hT' (hname T')
  · rw [hname, hrows] at hr
    have hfits := (h.fits T' hT' r hr).mono fun c _ p _ => hkeeps p
    split
    · exact ⟨hfits.key, hfits.accepts, hfits.refers, hfits.stored, hfits.beyond⟩
    · exact hfits
  · rw [hname, hrows]
    split
    case isTrue heq =>
      rw [List.inj_on_of_nodup_map h.names hT' hT heq]
      simpa using hclash
    case isFalse => exact h.distinct T' hT'

/-- Only a table that no other one refers to is dropped. -/
lemma Sound.dropTable (h : Sound db) (hrun : exec (.dropTable name) db = .ok db') : Sound db' := by
  obtain ⟨T, -, hrun⟩ := bind_eq_ok.mp hrun
  split at hrun
  case isTrue => simp at hrun
  case isFalse hcheck =>
  have htables : ∀ T, T ∈ db'.tables ↔ T ∈ db.tables ∧ T.name ≠ name := by
    rw [← Except.ok.inj hrun]
    simp
  have hrows : ∀ n, n ≠ name → db'.rows n = db.rows n := by
    rw [← Except.ok.inj hrun]
    exact fun n hn => Function.update_of_ne hn _ _
  have hgone : db'.rows name = [] := by
    rw [← Except.ok.inj hrun]
    exact Function.update_self _ _ _
  have hkeeps : ∀ T ∈ db.tables, ∀ c ∈ T.columns, ∀ p, c.references = some p →
      KeepsKeys db db' p := by
    rintro T hT c hc p hp T' hT' rfl
    have hne : T'.name ≠ name := by
      intro heq
      refine hcheck (List.any_eq_true.mpr ⟨T, hT, List.any_eq_true.mpr ⟨c, hc, ?_⟩⟩)
      simp [hp, heq]
    exact ⟨T', (htables T').mpr ⟨hT', hne⟩, rfl, fun r hr => ⟨r, by rwa [hrows _ hne], rfl⟩⟩
  refine ⟨?_, fun T hT => h.formed T ((htables T).mp hT).1, fun n hn => ?_, fun T hT r hr => ?_,
    fun T hT => ?_⟩
  · rw [← Except.ok.inj hrun]
    exact h.names.sublist (List.filter_sublist.map _)
  · by_cases hname : n = name
    · rw [hname]
      exact hgone
    · rw [hrows n hname]
      refine h.absent n fun hmem => hn ?_
      obtain ⟨T, hT, rfl⟩ := List.mem_map.mp hmem
      exact List.mem_map.mpr ⟨T, (htables T).mpr ⟨hT, hname⟩, rfl⟩
  · obtain ⟨hT, hne⟩ := (htables T).mp hT
    rw [hrows _ hne] at hr
    exact (h.fits T hT r hr).mono (hkeeps T hT)
  · obtain ⟨hT, hne⟩ := (htables T).mp hT
    rw [hrows _ hne]
    exact h.distinct T hT

/-- A renamed table keeps its rows, and so do the tables that refer to it. -/
lemma Sound.renameTable (h : Sound db) {old new : String}
    (hrun : exec (.renameTable old new) db = .ok db') : Sound db' := by
  obtain ⟨T₀, htable, hrun⟩ := bind_eq_ok.mp hrun
  obtain ⟨hT₀, hold⟩ := (table_eq_ok h.names).mp htable
  split at hrun
  case isTrue => simp at hrun
  case isFalse hcheck =>
  have hnew : ∀ T ∈ db.tables, T.name ≠ new := by
    intro T hT heq
    exact hcheck (List.any_eq_true.mpr ⟨T, hT, by simp [heq]⟩)
  have hne : old ≠ new := hold ▸ hnew T₀ hT₀
  have htables : db'.tables = db.tables.map (Table.follow old new) := by rw [← Except.ok.inj hrun]
  have hrows : ∀ T ∈ db.tables, db'.rows (T.follow old new).name = db.rows T.name := by
    rw [← Except.ok.inj hrun]
    intro T hT
    simp only [Table.follow]
    split
    case isTrue heq => rw [Function.update_self, heq]
    case isFalse heq => rw [Function.update_of_ne (hnew T hT), Function.update_of_ne heq]
  have hcolumns : ∀ T : Table, (T.follow old new).columns.map Column.name =
      T.columns.map Column.name := by
    intro T
    simp only [Table.follow, List.map_map]
    rfl
  have hrefers : ∀ (c : Column) (v : Value), db.Refers c v → db'.Refers (c.follow old new) v := by
    intro c v hc p hp
    obtain ⟨q, hq, rfl⟩ := Option.map_eq_some_iff.mp hp
    refine (hc q hq).imp_right fun ⟨T, hT, hname, r, hr, hv⟩ => ?_
    have hsame := hrows T hT
    refine ⟨T.follow old new, htables ▸ List.mem_map_of_mem hT, by simp [Table.follow, hname], r, ?_,
      hv⟩
    simp only [Table.follow, hname] at hsame
    rwa [hsame]
  refine sound_of_map htables ?_ (fun T hT => ?_) (fun n hn => ?_) (fun T hT r hr => ?_)
    fun T hT => ?_
  · refine (List.Nodup.of_map _ h.names).map_on fun T hT T' hT' heq => ?_
    refine List.inj_on_of_nodup_map h.names hT hT' ?_
    simp only [Table.follow] at heq
    split at heq <;> split at heq <;> rename_i h₁ h₂
    · exact h₁.trans h₂.symm
    · exact absurd heq.symm (hnew T' hT')
    · exact absurd heq (hnew T hT)
    · exact heq
  · have hformed := h.formed T hT
    simp only [Table.wellFormed, hcolumns] at hformed ⊢
    exact hformed
  · rw [← Except.ok.inj hrun]
    have hnew' : n ≠ new := fun heq => hn T₀ hT₀ (by simp [Table.follow, hold, heq])
    simp only [Function.update_of_ne hnew']
    by_cases hn' : n = old
    · rw [hn', Function.update_self]
    · rw [Function.update_of_ne hn']
      refine h.absent n fun hmem => ?_
      obtain ⟨T, hT, rfl⟩ := List.mem_map.mp hmem
      exact hn T hT (by simp [Table.follow, hn'])
  · rw [hrows T hT] at hr
    have hfits := h.fits T hT r hr
    refine ⟨hfits.key, fun c hc => ?_, fun c hc => ?_, fun c hc => ?_, fun n hn => ?_⟩
    · obtain ⟨c₀, hc₀, rfl⟩ := List.mem_map.mp hc
      exact hfits.accepts c₀ hc₀
    · obtain ⟨c₀, hc₀, rfl⟩ := List.mem_map.mp hc
      exact hrefers c₀ _ (hfits.refers c₀ hc₀)
    · obtain ⟨c₀, hc₀, rfl⟩ := List.mem_map.mp hc
      exact hfits.stored c₀ hc₀
    · rw [hcolumns] at hn
      exact hfits.beyond n hn
  · rw [hrows T hT]
    exact h.distinct T hT

/-- Rows agree on a column of the table whatever a new column holds. -/
lemma clash_addColumn (hT : T.wellFormed = true) {c : Column}
    (hc : c.name ∉ T.columns.map Column.name) (r s : Row) (v : Value) :
    (T.addColumn c).clash (Function.update r c.name v) (Function.update s c.name v) = T.clash r s := by
  simp only [Table.wellFormed, Bool.and_eq_true, List.contains_eq_mem, decide_eq_true_eq,
    List.all_eq_true] at hT
  obtain ⟨⟨-, hkey⟩, hindexes⟩ := hT
  have hother : ∀ n ∈ T.columns.map Column.name, ∀ t : Row, Function.update t c.name v n = t n :=
    fun n hn t => Function.update_of_ne (fun heq : n = c.name => hc (heq ▸ hn)) _ _
  simp only [Table.clash, Table.addColumn, hother T.key hkey]
  congr 1
  rw [Bool.eq_iff_iff, List.any_eq_true, List.any_eq_true]
  refine exists_congr fun i => and_congr_right fun hi => ?_
  simp only [Bool.and_eq_true, List.all_eq_true]
  refine and_congr_right fun _ => forall_congr' fun n => forall_congr' fun hn => ?_
  simp only [agree, hother n (hindexes i hi n hn)]

/-- A new column holds its default. -/
lemma Sound.addColumn (h : Sound db) {c : Column} (hrun : exec (.addColumn name c) db = .ok db') :
    Sound db' := by
  obtain ⟨T, htable, hrun⟩ := bind_eq_ok.mp hrun
  obtain ⟨hT, rfl⟩ := (table_eq_ok h.names).mp htable
  split at hrun
  case isTrue => simp at hrun
  case isFalse hfresh =>
  split at hrun
  case isFalse => simp at hrun
  case isTrue hcheck =>
  simp only [List.contains_eq_mem, decide_eq_true_eq] at hfresh
  simp only [Bool.and_eq_true, decide_eq_true_eq] at hcheck
  obtain ⟨⟨haccepts, hnoref⟩, hstored⟩ := hcheck
  have htables : db'.tables = redefine db.tables T.name fun T => T.addColumn c := by
    rw [← Except.ok.inj hrun]
  have hrows : ∀ n, n ≠ T.name → db'.rows n = db.rows n := by
    rw [← Except.ok.inj hrun]
    exact fun n hn => Function.update_of_ne hn _ _
  have hhere : db'.rows T.name =
      (db.rows T.name).map fun r => Function.update r c.name c.default := by
    rw [← Except.ok.inj hrun]
    exact Function.update_self _ _ _
  have hname : ∀ T' : Table, (if T'.name = T.name then T'.addColumn c else T').name = T'.name := by
    intro T'
    split <;> rfl
  have hother : ∀ n ∈ T.columns.map Column.name, ∀ r : Row,
      Function.update r c.name c.default n = r n :=
    fun n hn r => Function.update_of_ne (fun heq : n = c.name => hfresh (heq ▸ hn)) _ _
  have hformed := h.formed T hT
  simp only [Table.wellFormed, Bool.and_eq_true, List.contains_eq_mem, decide_eq_true_eq,
    List.all_eq_true] at hformed
  obtain ⟨⟨hnodup, hkey⟩, hindexes⟩ := hformed
  have hkeeps : ∀ p, KeepsKeys db db' p := by
    rintro p T' hT' rfl
    refine ⟨_, htables ▸ List.mem_map.mpr ⟨T', hT', rfl⟩, hname T', fun r hr => ?_⟩
    by_cases heq : T'.name = T.name
    · obtain rfl : T' = T := List.inj_on_of_nodup_map h.names hT' hT heq
      refine ⟨Function.update r c.name c.default, hhere ▸ List.mem_map.mpr ⟨r, hr, rfl⟩, ?_⟩
      simpa [Table.addColumn] using hother T'.key hkey r
    · exact ⟨r, by rwa [hrows _ heq], by rw [if_neg heq]⟩
  refine sound_of_map htables ?_ (fun T' hT' => ?_) (fun n hn => ?_) (fun T' hT' r hr => ?_)
    fun T' hT' => ?_
  · simp only [hname]
    exact h.names
  · split
    case isTrue heq =>
      rw [List.inj_on_of_nodup_map h.names hT' hT heq]
      simp only [Table.wellFormed, Table.addColumn, List.map_append, List.map_cons, List.map_nil,
        Bool.and_eq_true, List.contains_eq_mem, decide_eq_true_eq, List.all_eq_true,
        List.nodup_append, List.mem_append]
      refine ⟨⟨⟨hnodup, by simp, ?_⟩, .inl hkey⟩, fun i hi n hn => .inl (hindexes i hi n hn)⟩
      rintro a ha b hb rfl
      exact hfresh (List.mem_singleton.mp hb ▸ ha)
    case isFalse => exact h.formed T' hT'
  · have hne : n ≠ T.name := fun heq => hn T hT (by rw [hname, heq])
    rw [hrows n hne]
    refine h.absent n fun hmem => ?_
    obtain ⟨T', hT', rfl⟩ := List.mem_map.mp hmem
    exact hn T' hT' (hname T')
  · rw [hname] at hr
    by_cases heq : T'.name = T.name
    · obtain rfl : T' = T := List.inj_on_of_nodup_map h.names hT' hT heq
      rw [hhere] at hr
      obtain ⟨r, hr₀, rfl⟩ := List.mem_map.mp hr
      have hfits := (h.fits T' hT r hr₀).mono fun c _ p _ => hkeeps p
      have hcolumn : ∀ c' ∈ T'.columns, Function.update r c.name c.default c'.name = r c'.name :=
        fun c' hc' => hother c'.name (List.mem_map_of_mem hc') r
      rw [if_pos rfl]
      refine ⟨?_, fun c' hc' => ?_, fun c' hc' => ?_, fun c' hc' => ?_, fun n hn => ?_⟩
      · simpa [Table.addColumn, hother T'.key hkey r] using hfits.key
      · rcases List.mem_append.mp hc' with hc' | hc'
        · rw [hcolumn c' hc']
          exact hfits.accepts c' hc'
        · rw [List.mem_singleton.mp hc', Function.update_self]
          exact haccepts
      · rcases List.mem_append.mp hc' with hc' | hc'
        · rw [hcolumn c' hc']
          exact hfits.refers c' hc'
        · rw [List.mem_singleton.mp hc']
          intro p hp
          rw [hnoref] at hp
          cases hp
      · rcases List.mem_append.mp hc' with hc' | hc'
        · rw [hcolumn c' hc']
          exact hfits.stored c' hc'
        · rw [List.mem_singleton.mp hc', Function.update_self]
          exact hstored
      · simp only [Table.addColumn, List.map_append, List.mem_append, List.map_cons, List.map_nil,
          List.mem_singleton, not_or] at hn
        rw [Function.update_of_ne hn.2]
        exact hfits.beyond n hn.1
    · rw [hrows _ heq] at hr
      rw [if_neg heq]
      exact (h.fits T' hT' r hr).mono fun c _ p _ => hkeeps p
  · rw [hname]
    by_cases heq : T'.name = T.name
    · obtain rfl : T' = T := List.inj_on_of_nodup_map h.names hT' hT heq
      rw [hhere, if_pos rfl, List.pairwise_map]
      refine (h.distinct T' hT).imp fun {r s} hrs => ?_
      rw [clash_addColumn (h.formed T' hT) hfresh]
      exact hrs
    · rw [hrows _ heq, if_neg heq]
      exact h.distinct T' hT'

/-- **A statement that goes through keeps the content sound.** -/
theorem Sound.exec (h : Sound db) {s : Statement} (hrun : Sql.exec s db = .ok db') : Sound db' := by
  cases s with
  | createTable T => exact h.createTable hrun
  | createIndex name i => exact h.createIndex hrun
  | insert name given =>
    obtain ⟨T, htable, hrun⟩ := bind_eq_ok.mp hrun
    have hT := ((table_eq_ok h.names).mp htable).1
    exact (h.insertRow hT (fits_row h.names (h.formed T hT)) hrun).1
  | insertSelect name columns selected source =>
    obtain ⟨T, htable, hrun⟩ := bind_eq_ok.mp hrun
    obtain ⟨-, -, hrun⟩ := bind_eq_ok.mp hrun
    have hT := ((table_eq_ok h.names).mp htable).1
    refine (h.insertRows hT (fun r hr => ?_) hrun).1
    obtain ⟨r, -, rfl⟩ := List.mem_map.mp hr
    exact ⟨_, rfl⟩
  | dropTable name => exact h.dropTable hrun
  | renameTable old new => exact h.renameTable hrun
  | addColumn name c => exact h.addColumn hrun

/-- A sequence of statements keeps it sound. -/
lemma Sound.runAll (h : Sound db) {fails : ℕ → Bool} {n : ℕ} {l : List Statement}
    (hrun : runAll fails n l db = .ok db') : Sound db' := by
  induction l generalizing n db with
  | nil =>
    obtain rfl := Except.ok.inj hrun
    exact h
  | cons s l ih =>
    simp only [Sql.runAll] at hrun
    split at hrun
    · cases hrun
    · obtain ⟨db₁, hfirst, hrest⟩ := bind_eq_ok.mp hrun
      exact ih (h.exec hfirst) hrest

/-! ## Copies -/

/-- The table `T` asks no more of a row than the table `S`: it has the same columns with weaker
checks, and no indexes. -/
structure Table.Covers (T S : Table) : Prop where
  key : T.key = S.key
  columns : T.columns.map Column.name = S.columns.map Column.name
  weaker : ∀ c ∈ T.columns, ∃ c' ∈ S.columns, c'.name = c.name ∧ c'.affinity = c.affinity ∧
    c'.references = c.references ∧ ∀ v, c'.accepts v = true → c.accepts v = true
  indexes : T.indexes = []

lemma Fits.covered {S : Table} (h : Fits db S r) (hcovers : T.Covers S) : Fits db T r := by
  refine ⟨hcovers.key ▸ h.key, fun c hc => ?_, fun c hc => ?_, fun c hc => ?_, fun n hn => ?_⟩
  · obtain ⟨c', hc', hname, -, -, haccepts⟩ := hcovers.weaker c hc
    exact haccepts _ (hname ▸ h.accepts c' hc')
  · obtain ⟨c', hc', hname, -, hrefs, -⟩ := hcovers.weaker c hc
    have := h.refers c' hc'
    rw [hname] at this
    exact fun p hp => this p (hrefs.trans hp)
  · obtain ⟨c', hc', hname, haff, -, -⟩ := hcovers.weaker c hc
    have := h.stored c' hc'
    rwa [hname, haff] at this
  · exact h.beyond n (hcovers.columns ▸ hn)

/-- A row that fits is stored as it is. -/
lemma row_eq (hT : T.wellFormed = true) (h : Fits db T r) :
    (T.row fun n => (List.lookup n ((T.columns.map Column.name).zip
      (T.columns.map Column.name))).map r) = r := by
  have hlookup : ∀ (l : List String) (n : String), n ∈ l → List.lookup n (l.zip l) = some n := by
    intro l n hn
    induction l with
    | nil => cases hn
    | cons a l ih =>
      by_cases ha : n = a
      · subst ha
        simp [List.lookup_cons]
      · have hmem : n ∈ l := (List.mem_cons.mp hn).resolve_left ha
        simp [List.lookup_cons, beq_false_of_ne ha, ih hmem]
  funext n
  by_cases hn : n ∈ T.columns.map Column.name
  · obtain ⟨c, hc, rfl⟩ := List.mem_map.mp hn
    simp only [Table.row, column_of_find hT hc, hlookup _ _ hn, Option.map_some, Option.getD_some]
    exact h.stored c hc
  · have hfind : T.columns.find? (fun c => c.name = n) = none := by simpa [List.mem_map] using hn
    simp only [Table.row, hfind]
    exact (h.beyond n hn).symm

/-- Rows that fit and do not clash are all added. -/
lemma insertRows_ok (hn : (db.tables.map Table.name).Nodup) {rs : List Row}
    (hfits : ∀ r ∈ rs, Fits db T r)
    (hdistinct : (db.rows T.name ++ rs).Pairwise fun r s => T.clash r s = false) :
    insertRows T rs db = .ok (db.withRows T.name (db.rows T.name ++ rs)) := by
  induction rs generalizing db with
  | nil => simp [insertRows, Database.withRows]
  | cons r rs ih =>
    obtain ⟨-, -, hcross⟩ := List.pairwise_append.mp hdistinct
    have hr := hfits r (by simp)
    have hadmits : db.admits T r = true := (admits_iff hn).mpr ⟨hr.key, hr.accepts, hr.refers⟩
    have hnew : ((db.rows T.name).any fun s => T.clash s r) = false := by
      simp only [List.any_eq_false, Bool.not_eq_true]
      exact fun s hs => hcross s hs r (by simp)
    have hstep : insertRow T r db = .ok (db.withRows T.name (db.rows T.name ++ [r])) := by
      simp [insertRow, hadmits, hnew]
    have hkeeps : ∀ p, KeepsKeys db (db.withRows T.name (db.rows T.name ++ [r])) p := by
      intro p T' hT' hname
      refine ⟨T', hT', hname, fun s hs => ⟨s, ?_, rfl⟩⟩
      simp only [Database.withRows]
      by_cases hp : p = T.name
      · subst hp
        simp [hs]
      · rwa [Function.update_of_ne hp]
    rw [insertRows, hstep]
    have hrest := @ih (db.withRows T.name (db.rows T.name ++ [r])) hn
      (fun s hs => (hfits s (by simp [hs])).mono fun c _ p _ => hkeeps p)
      (by simpa [Database.withRows] using hdistinct)
    simpa [Database.withRows, Except.bind] using hrest

/-- An index that is not unique can be made on any rows. -/
lemma exec_createIndex (h : Sound db) (hT : T ∈ db.tables) {i : Index} (hunique : i.unique = false)
    (hfresh : nameUsed db.tables i.name = false) (hformed : (T.addIndex i).wellFormed = true) :
    Sql.exec (.createIndex T.name i) db =
      .ok ⟨redefine db.tables T.name fun T => T.addIndex i, db.rows⟩ := by
  refine bind_eq_ok.mpr ⟨T, (table_eq_ok h.names).mpr ⟨hT, rfl⟩, ?_⟩
  have hclash : (db.rows T.name).Pairwise fun r s => (T.addIndex i).clash r s = false := by
    refine (h.distinct T hT).imp fun {r s} hrs => ?_
    have hsame : (T.addIndex i).clash r s = T.clash r s := by
      simp only [Table.clash, Table.addIndex, List.any_append, List.any_cons, List.any_nil, hunique,
        Bool.false_and, Bool.or_false]
      rfl
    rw [hsame]
    exact hrs
  simp [hfresh, hformed, hclash]

/-- A column that starts out null leaves the rows as they are. -/
lemma exec_addColumn (h : Sound db) (hT : T ∈ db.tables) {c : Column}
    (hfresh : c.name ∉ T.columns.map Column.name) (hnull : c.default = .null)
    (haccepts : c.accepts .null = true) (hnoref : c.references = none) :
    Sql.exec (.addColumn T.name c) db =
      .ok ⟨redefine db.tables T.name fun T => T.addColumn c, db.rows⟩ := by
  refine bind_eq_ok.mpr ⟨T, (table_eq_ok h.names).mpr ⟨hT, rfl⟩, ?_⟩
  have hrows : (db.rows T.name).map (fun r => Function.update r c.name c.default) =
      db.rows T.name := by
    refine (List.map_congr_left fun r hr => ?_).trans (List.map_id _)
    rw [hnull, ← (h.fits T hT r hr).beyond c.name hfresh]
    exact Function.update_eq_self _ _
  have hstored : c.affinity.store .null = .null := by cases c.affinity <;> rfl
  have hfresh' : ¬(T.columns.map Column.name).contains c.name = true := by
    simpa [List.contains_eq_mem] using hfresh
  rw [if_neg hfresh', hrows, Function.update_eq_self, hnull, if_pos (by simp [haccepts, hnoref, hstored])]

/-- **A copy keeps the rows**: all rows of a table go into an empty one that asks no more of
them, as they are. -/
theorem exec_copy (h : Sound db) {S : Table} (hT : T ∈ db.tables) (hS : S ∈ db.tables)
    (hempty : db.rows T.name = []) (hcovers : T.Covers S) :
    Sql.exec (.insertSelect T.name (T.columns.map Column.name) (T.columns.map Column.name) S.name)
      db = .ok (db.withRows T.name (db.rows S.name)) := by
  have hfits : ∀ r ∈ db.rows S.name, Fits db T r :=
    fun r hr => (h.fits S hS r hr).covered hcovers
  have hrows : (db.rows S.name).map (fun r => T.row fun n =>
      (List.lookup n ((T.columns.map Column.name).zip (T.columns.map Column.name))).map r) =
        db.rows S.name := by
    refine (List.map_congr_left fun r hr => row_eq (h.formed T hT) (hfits r hr)).trans ?_
    simp
  have hdistinct : (db.rows S.name).Pairwise fun r s => T.clash r s = false := by
    refine (h.distinct S hS).imp fun {r s} hrs => ?_
    simp only [Table.clash, Bool.or_eq_false_iff] at hrs
    simp only [Table.clash, hcovers.indexes, hcovers.key, hrs.1, List.any_nil, Bool.or_self]
  have hTok : db.table T.name = .ok T := (table_eq_ok h.names).mpr ⟨hT, rfl⟩
  have hSok : db.table S.name = .ok S := (table_eq_ok h.names).mpr ⟨hS, rfl⟩
  refine bind_eq_ok.mpr ⟨T, hTok, bind_eq_ok.mpr ⟨S, hSok, ?_⟩⟩
  rw [hrows, insertRows_ok h.names hfits (by simpa [hempty] using hdistinct), hempty, List.nil_append]

end Sound

/-! ## Several statements -/

/-- Without I/O errors, the number of the first statement does not matter. -/
lemma runAll_start {n : ℕ} {l : List Statement} {db : Database} :
    runAll (fun _ => false) n l db = runAll (fun _ => false) 0 l db := by
  suffices h : ∀ n m, runAll (fun _ => false) n l db = runAll (fun _ => false) m l db from h n 0
  induction l generalizing db with
  | nil => exact fun _ _ => rfl
  | cons s l ih =>
    intro n m
    simp only [runAll, Bool.false_eq_true, if_false]
    congr 1
    funext db₁
    exact ih _ _

/-- Without I/O errors, statements run one after the other. -/
lemma runAll_append {l l' : List Statement} {db db₁ : Database}
    (h : runAll (fun _ => false) 0 l db = .ok db₁) :
    runAll (fun _ => false) 0 (l ++ l') db = runAll (fun _ => false) 0 l' db₁ := by
  suffices hall : ∀ n, runAll (fun _ => false) n (l ++ l') db =
      (runAll (fun _ => false) n l db).bind (runAll (fun _ => false) 0 l') by
    rw [hall, h]
    rfl
  clear h
  induction l generalizing db with
  | nil => exact fun _ => runAll_start
  | cons s l ih =>
    intro n
    simp only [List.cons_append, runAll, Bool.false_eq_true, if_false]
    cases exec s db with
    | error e => rfl
    | ok db₂ => exact ih _

/-- With I/O errors, statements fail or do what they do without. -/
lemma runAll_faulty {fails : ℕ → Bool} {n : ℕ} {l : List Statement} {db db' : Database}
    (hrun : runAll fails n l db = .ok db') : runAll (fun _ => false) n l db = .ok db' := by
  induction l generalizing n db with
  | nil => exact hrun
  | cons s l ih =>
    simp only [runAll] at hrun ⊢
    split at hrun
    · cases hrun
    · obtain ⟨db₁, hfirst, hrest⟩ := bind_eq_ok.mp hrun
      exact bind_eq_ok.mpr ⟨db₁, hfirst, ih hrest⟩

/-- **A failed transaction changes nothing.** -/
theorem transaction_failed {fails : ℕ → Bool} {n : ℕ} {l : List Statement} {db : Database}
    (h : (transaction fails n l db).1 ≠ .ok ()) : (transaction fails n l db).2 = db := by
  unfold transaction at h ⊢
  split
  case h_1 db' hrun =>
    rw [hrun] at h
    simp only at h
    split at h
    case isTrue hfail => rw [if_pos hfail]
    case isFalse => exact absurd rfl h
  case h_2 => rfl

/-- A transaction that goes through does what its statements do. -/
lemma transaction_done {fails : ℕ → Bool} {n : ℕ} {l : List Statement} {db : Database}
    (h : (transaction fails n l db).1 = .ok ()) :
    runAll (fun _ => false) n l db = .ok (transaction fails n l db).2 := by
  unfold transaction at h ⊢
  split
  case h_1 db' hrun =>
    rw [hrun] at h
    simp only at h
    split at h
    case isTrue => simp at h
    case isFalse hfail =>
      rw [if_neg hfail]
      exact runAll_faulty hrun
  case h_2 e hrun =>
    rw [hrun] at h
    simp at h

end Data.Sql
