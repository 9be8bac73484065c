import AirDrive.Daemon.FileStatus

set_option relaxedAutoImplicit false
set_option autoImplicit false

/-!
# `list_child_states` as SQL

The rows of `sync_item` as the statement reads them: the path and the state are texts, and the rows
of all mappings are in one table. The paths are arbitrary texts here, with no condition that they
are paths of a file system.

The statement selects by a pattern of `LIKE`, which ignores the case of ASCII letters and reaches
any depth. What is left of each path after the prefix is then looked at in the code. Together they
leave exactly the live rows one level below the directory.

## Main definitions

* `AirDrive.ItemState.asSql`, `AirDrive.ItemState.fromSql` — the states as texts.
* `AirDrive.ItemRow`, `AirDrive.ItemRows` — a row, and the table with its constraints.
* `AirDrive.ItemRows.listChildStates` — the function.
* `AirDrive.ItemRows.IsChild` — a path one level below another one.

## Main results

* `AirDrive.ItemRows.list_child_states_exact` — each child once, with its state, and nothing else.
* `AirDrive.ItemRows.listChildStates_ofTable` — for the rows of one mapping this is the function of
  the file manager's statuses.
-/

namespace AirDrive

open Data.Like

/-- `as_sql`. -/
def ItemState.asSql : ItemState → String
  | synced => "synced"
  | pendingLocal => "pending_local"
  | pendingRemote => "pending_remote"
  | conflict => "conflict"
  | skipped => "skipped"

/-- `FromSqlConversionFailure` of a text. -/
structure ConversionFailure where
  /-- The column of the result. -/
  column : ℕ
  /-- What is wrong with the text. -/
  message : String
deriving DecidableEq, Repr

/-- `from_sql`. -/
def ItemState.fromSql (s : String) (col : ℕ) : Except ConversionFailure ItemState :=
  if s = "synced" then .ok .synced
  else if s = "pending_local" then .ok .pendingLocal
  else if s = "pending_remote" then .ok .pendingRemote
  else if s = "conflict" then .ok .conflict
  else if s = "skipped" then .ok .skipped
  else .error ⟨col, "unknown sync_item.state: " ++ s⟩

/-- **A state is read back** from its text. -/
@[simp] lemma ItemState.fromSql_asSql (s : ItemState) (col : ℕ) : fromSql s.asSql col = .ok s := by
  cases s <;> simp [asSql, fromSql]

lemma ItemState.asSql_injective : Function.Injective asSql := fun s s' h => by
  have hread : fromSql s.asSql 0 = fromSql s'.asSql 0 := by rw [h]
  simpa using hread

/-- The texts of `CHECK(state IN (...))`. -/
def ItemState.texts : List String :=
  ["synced", "pending_local", "pending_remote", "conflict", "skipped"]

/-- The check admits exactly the texts of states. -/
lemma ItemState.mem_texts {s : String} : s ∈ texts ↔ ∃ state : ItemState, s = state.asSql := by
  constructor
  · intro h
    simp only [texts, List.mem_cons, List.not_mem_nil, or_false] at h
    obtain rfl | rfl | rfl | rfl | rfl := h
    · exact ⟨.synced, rfl⟩
    · exact ⟨.pendingLocal, rfl⟩
    · exact ⟨.pendingRemote, rfl⟩
    · exact ⟨.conflict, rfl⟩
    · exact ⟨.skipped, rfl⟩
  · rintro ⟨state, rfl⟩
    cases state <;> simp [texts, asSql]

/-- What the statement reads of a row of `sync_item`. -/
structure ItemRow where
  /-- The mapping that the row belongs to. -/
  mappingId : ℕ
  /-- The path, with components separated by slashes. -/
  relativePath : List Char
  /-- The state, as a text. -/
  state : String
  /-- When the row became a tombstone. -/
  trashedAt : Option ℕ
deriving DecidableEq, Repr

/-- The rows of `sync_item` in the order in which a query visits them, with the constraints of the
schema. -/
structure ItemRows where
  /-- The rows. -/
  rows : List ItemRow
  /-- `sync_item_mapping_relpath`. -/
  unique : (rows.map fun r => (r.mappingId, r.relativePath)).Nodup
  /-- `CHECK(state IN (...))`. -/
  checked : ∀ r ∈ rows, r.state ∈ ItemState.texts

namespace ItemRows

instance : Membership ItemRow ItemRows := ⟨fun t r => r ∈ t.rows⟩

/-- What the paths below a directory begin with. -/
def childPrefix (dirRel : List Char) : List Char := if dirRel = [] then [] else dirRel ++ ['/']

/-- The rows that the `SELECT` of `list_child_states` gives. -/
def selectLike (t : ItemRows) (mapping : ℕ) (pattern : List Char) : List ItemRow :=
  t.rows.filter fun r =>
    r.mappingId = mapping && r.trashedAt = none && like '\\' pattern r.relativePath

/-- The loop over the rows in `list_child_states`. -/
def keepChildren (pre : List Char) :
    List ItemRow → Except ConversionFailure (List (List Char × ItemState))
  | [] => .ok []
  | r :: rows => do
    let state ← ItemState.fromSql r.state 1
    let out ← keepChildren pre rows
    match r.relativePath.dropPrefix? pre with
    | none => .ok out
    | some rest => if rest ≠ [] ∧ '/' ∉ rest then .ok ((rest, state) :: out) else .ok out

/-- `list_child_states`. -/
def listChildStates (t : ItemRows) (mapping : ℕ) (dirRel : List Char) :
    Except ConversionFailure (List (List Char × ItemState)) :=
  let pre := childPrefix dirRel
  keepChildren pre (t.selectLike mapping (escapeLike pre ++ ['%']))

/-- A path is a directory, a slash and one name; the empty path is the directory of the paths without
a slash. -/
def IsChild (dirRel name path : List Char) : Prop :=
  name ≠ [] ∧ '/' ∉ name ∧ path = if dirRel = [] then name else dirRel ++ '/' :: name

instance (dirRel name path : List Char) : Decidable (IsChild dirRel name path) :=
  inferInstanceAs (Decidable (_ ∧ _ ∧ _))

section Exact

variable {t : ItemRows} {mapping : ℕ} {dirRel pre name path : List Char} {rows : List ItemRow}
  {out : List (List Char × ItemState)}

lemma isChild_iff :
    IsChild dirRel name path ↔ name ≠ [] ∧ '/' ∉ name ∧ path = childPrefix dirRel ++ name := by
  by_cases h : dirRel = [] <;> simp [IsChild, childPrefix, h]

/-- **The pattern misses no child**: it finds every path that begins with the prefix. -/
lemma mem_selectLike_of_append {r : ItemRow} (hr : r ∈ t) (hmapping : r.mappingId = mapping)
    (hlive : r.trashedAt = none) (hpath : r.relativePath = pre ++ name) :
    r ∈ t.selectLike mapping (escapeLike pre ++ ['%']) := by
  have hlike : like '\\' (escapeLike pre ++ ['%']) r.relativePath = true := by
    rw [ItemTable.escapeLike_eq]
    exact (like_escape_any (by decide)).mpr ⟨pre, name, hpath, rfl⟩
  exact List.mem_filter.mpr ⟨hr, by simp [hmapping, hlive, hlike]⟩

lemma of_mem_selectLike {pattern : List Char} {r : ItemRow}
    (hr : r ∈ t.selectLike mapping pattern) :
    r ∈ t ∧ r.mappingId = mapping ∧ r.trashedAt = none := by
  obtain ⟨hmem, hfound⟩ := List.mem_filter.mp hr
  simp only [Bool.and_eq_true, decide_eq_true_eq] at hfound
  exact ⟨hmem, hfound.1.1, hfound.1.2⟩

/-- What is left of a path after a prefix. -/
lemma dropPrefix?_eq_some {p q rest : List Char} : p.dropPrefix? q = some rest ↔ p = q ++ rest := by
  constructor
  · intro h
    obtain ⟨q', htext, hsame⟩ := List.dropPrefix?_eq_some_iff.mp h
    rw [htext, eq_of_beq hsame]
  · rintro rfl
    exact List.dropPrefix?_append_of_beq _ (by simp)

/-- One iteration over a row whose state can be read. -/
lemma keepChildren_cons {r : ItemRow} {state : ItemState}
    (hread : ItemState.fromSql r.state 1 = .ok state) (hout : keepChildren pre rows = .ok out) :
    keepChildren pre (r :: rows) = .ok (match r.relativePath.dropPrefix? pre with
      | none => out
      | some rest => if rest ≠ [] ∧ '/' ∉ rest then (rest, state) :: out else out) := by
  simp only [keepChildren, hread, hout, bind, Except.bind]
  cases r.relativePath.dropPrefix? pre with
  | none => rfl
  | some rest => exact (apply_ite _ _ _ _).symm

/-- **The loop** over rows whose states can be read gives one pair for each path that is the prefix
and a name. -/
lemma keepChildren_spec (hstates : ∀ r ∈ rows, ∃ s : ItemState, r.state = s.asSql) :
    ∃ out, keepChildren pre rows = .ok out ∧
      ((rows.map ItemRow.relativePath).Nodup → (out.map Prod.fst).Nodup) ∧
      ∀ name s, (name, s) ∈ out ↔ ∃ r ∈ rows,
        name ≠ [] ∧ '/' ∉ name ∧ r.relativePath = pre ++ name ∧ r.state = s.asSql := by
  induction rows with
  | nil => exact ⟨[], rfl, by simp, by simp⟩
  | cons r rows ih =>
    obtain ⟨out, hout, hnodup, hmem⟩ := ih fun r hr => hstates r (.tail _ hr)
    obtain ⟨state, hstate⟩ := hstates r (.head _)
    have hread : ItemState.fromSql r.state 1 = .ok state := by rw [hstate, ItemState.fromSql_asSql]
    by_cases hchild : ∃ rest, rest ≠ [] ∧ '/' ∉ rest ∧ r.relativePath = pre ++ rest
    · obtain ⟨rest, hne, hslash, hpath⟩ := hchild
      have hdrop : r.relativePath.dropPrefix? pre = some rest := dropPrefix?_eq_some.mpr hpath
      refine ⟨(rest, state) :: out, ?_, ?_, fun name s => ?_⟩
      · rw [keepChildren_cons hread hout, hdrop]
        exact congrArg _ (if_pos ⟨hne, hslash⟩)
      · intro hpaths
        obtain ⟨hnew, hpaths⟩ := List.nodup_cons.mp hpaths
        refine List.nodup_cons.mpr ⟨fun hrest => ?_, hnodup hpaths⟩
        -- another row with this name would have the same path
        obtain ⟨⟨_, s⟩, hs, rfl⟩ := List.mem_map.mp hrest
        obtain ⟨r', hr', -, -, hpath', -⟩ := (hmem _ s).mp hs
        exact hnew (List.mem_map.mpr ⟨r', hr', by rw [hpath', hpath]⟩)
      · rw [List.mem_cons, List.exists_mem_cons_iff, hmem]
        refine or_congr ?_ Iff.rfl
        constructor
        · intro h
          obtain ⟨rfl, rfl⟩ := Prod.mk.inj h
          exact ⟨hne, hslash, hpath, hstate⟩
        · rintro ⟨-, -, hpath', hstate'⟩
          rw [List.append_cancel_left (hpath'.symm.trans hpath),
            ItemState.asSql_injective (hstate'.symm.trans hstate)]
    · refine ⟨out, ?_, fun hpaths => hnodup (List.nodup_cons.mp hpaths).2, fun name s => ?_⟩
      · rw [keepChildren_cons hread hout]
        cases hdrop : r.relativePath.dropPrefix? pre with
        | none => rfl
        | some rest =>
          exact congrArg _ (if_neg fun h => hchild ⟨rest, h.1, h.2, dropPrefix?_eq_some.mp hdrop⟩)
      · rw [List.exists_mem_cons_iff, hmem]
        refine (or_iff_right ?_).symm
        rintro ⟨hne, hslash, hpath, -⟩
        exact hchild ⟨name, hne, hslash, hpath⟩

/-- The selected rows have distinct paths. -/
lemma nodup_selectLike (pattern : List Char) :
    ((t.selectLike mapping pattern).map ItemRow.relativePath).Nodup := by
  have hsub : (t.selectLike mapping pattern).Sublist t.rows := List.filter_sublist
  have hkeys := t.unique.sublist (hsub.map _)
  refine (List.nodup_map_iff_inj_on (List.Nodup.of_map _ hkeys)).mpr fun r hr r' hr' hpath => ?_
  refine List.inj_on_of_nodup_map hkeys hr hr' ?_
  rw [(of_mem_selectLike hr).2.1, (of_mem_selectLike hr').2.1, hpath]

end Exact

/-- **The children of a directory.** The function gives each live row of the mapping whose path is
the path of the directory, a slash and one name, exactly once with its state, and nothing else; for
the empty path, each live row whose path is one name.

The pattern finds more, but no less (`mem_selectLike_of_append`), and the loop keeps a row exactly if
the rest of its path is a name (`keepChildren_spec`). -/
theorem list_child_states_exact (t : ItemRows) (mapping : ℕ) (dirRel : List Char) :
    ∃ out, t.listChildStates mapping dirRel = .ok out ∧ (out.map Prod.fst).Nodup ∧
      ∀ name s, (name, s) ∈ out ↔ ∃ r ∈ t, r.mappingId = mapping ∧ r.trashedAt = none ∧
        IsChild dirRel name r.relativePath ∧ r.state = s.asSql := by
  have hstates : ∀ r ∈ t.selectLike mapping (escapeLike (childPrefix dirRel) ++ ['%']),
      ∃ s : ItemState, r.state = s.asSql := fun r hr =>
    ItemState.mem_texts.mp (t.checked r (of_mem_selectLike hr).1)
  obtain ⟨out, hout, hnodup, hmem⟩ :=
    @keepChildren_spec (childPrefix dirRel) _ hstates
  refine ⟨out, hout, hnodup (nodup_selectLike _), fun name s => ?_⟩
  rw [hmem]
  constructor
  · rintro ⟨r, hr, hne, hslash, hpath, hstate⟩
    obtain ⟨hr, hmapping, hlive⟩ := of_mem_selectLike hr
    exact ⟨r, hr, hmapping, hlive, isChild_iff.mpr ⟨hne, hslash, hpath⟩, hstate⟩
  · rintro ⟨r, hr, hmapping, hlive, hchild, hstate⟩
    obtain ⟨hne, hslash, hpath⟩ := isChild_iff.mp hchild
    exact ⟨r, mem_selectLike_of_append hr hmapping hlive hpath, hne, hslash, hpath, hstate⟩

/-- A directory whose name is a metacharacter, with a row that differs from its child in case only,
and one deeper down. -/
example : listChildStates ⟨[⟨1, "_A/x".toList, "synced", none⟩, ⟨1, "_a/x".toList, "skipped", none⟩,
      ⟨1, "bA/x".toList, "synced", none⟩, ⟨1, "_A/y/z".toList, "synced", none⟩,
      ⟨1, "_A/t".toList, "synced", some 5⟩, ⟨2, "_A/x".toList, "conflict", none⟩],
      by decide, by decide +kernel⟩ 1 "_A".toList = .ok [("x".toList, .synced)] := by
  decide +kernel

/-! ## The rows of one mapping -/

section OfTable

variable {t : ItemTable} {mapping : ℕ}

/-- The row that the database holds for a `SyncItem` of a mapping. -/
def ofItem (mapping : ℕ) (r : SyncItem) : ItemRow :=
  ⟨mapping, r.relativePath.text, r.state.asSql, r.trashedAt⟩

/-- The rows of a table whose paths stand for texts. -/
def ofTable (t : ItemTable) (mapping : ℕ) (h : ∀ r ∈ t, r.relativePath.Canonical) : ItemRows where
  rows := t.rows.map (ofItem mapping)
  unique := by
    rw [List.map_map]
    refine (List.nodup_map_iff_inj_on (List.Nodup.of_map _ t.paths)).mpr fun r hr r' hr' heq => ?_
    obtain ⟨-, htext⟩ := Prod.mk.inj heq
    exact List.inj_on_of_nodup_map t.paths hr hr' ((RelPath.text_inj (h r hr) (h r' hr')).mp htext)
  checked := by
    intro r hr
    obtain ⟨item, -, rfl⟩ := List.mem_map.mp hr
    exact ItemState.mem_texts.mpr ⟨item.state, rfl⟩

/-- The loop over the rows of a table. -/
lemma keepChildren_ofItem (pre : List Char) (rows : List SyncItem) :
    keepChildren pre (rows.map (ofItem mapping)) = .ok (rows.filterMap fun r =>
      match r.relativePath.text.dropPrefix? pre with
      | none => none
      | some rest => if rest ≠ [] ∧ '/' ∉ rest then some (rest, r.state) else none) := by
  induction rows with
  | nil => rfl
  | cons r rows ih =>
    have hread : ItemState.fromSql (ofItem mapping r).state 1 = .ok r.state :=
      ItemState.fromSql_asSql _ _
    rw [List.map_cons, keepChildren_cons hread ih, List.filterMap_cons]
    simp only [ofItem]
    cases r.relativePath.text.dropPrefix? pre with
    | none => rfl
    | some rest => simp only; split_ifs <;> rfl

/-- **For one mapping** this is the function of the file manager's statuses. -/
theorem listChildStates_ofTable (h : ∀ r ∈ t, r.relativePath.Canonical) (dirRel : List Char) :
    (ofTable t mapping h).listChildStates mapping dirRel =
      .ok (FileStatus.listChildStates t dirRel) := by
  have hselect : (ofTable t mapping h).selectLike mapping
      (escapeLike (childPrefix dirRel) ++ ['%']) = (t.rows.filter fun r => r.trashedAt = none &&
        like '\\' (escapeLike (childPrefix dirRel) ++ ['%']) r.relativePath.text).map
          (ofItem mapping) := by
    rw [selectLike, ofTable, List.filter_map]
    refine congrArg _ (List.filter_congr fun r _ => ?_)
    simp only [ofItem, Function.comp_apply, decide_true, Bool.true_and]
    congr
  rw [listChildStates, hselect, keepChildren_ofItem]
  rfl

end OfTable

end ItemRows

end AirDrive
