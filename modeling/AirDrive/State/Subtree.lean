import AirDrive.State.Items
import AirDrive.State.PathText

set_option relaxedAutoImplicit false
set_option autoImplicit false

/-!
# `rename_subtree` as SQL

The source selects the rows of a directory by a pattern of `LIKE`, cuts the text of each path at the
length of the old one in bytes, and rewrites the rows one at a time. No order of the rows is asked
for. The pattern finds more than the directory: also what differs from it in the case of ASCII
letters. And a row may come to the place of another one that is still to move.

## Main definitions

* `AirDrive.ItemTable.selectSubtree`, `AirDrive.ItemTable.renameRows` — the statements.
* `AirDrive.ItemTable.Within`, `AirDrive.ItemTable.ExactlyRenamed` — a row of the directory, and
  what is expected of the rows.
* `AirDrive.ItemTable.Moves`, `AirDrive.ItemTable.OrderFree`, `AirDrive.ItemTable.Clear`.

## Main results

* `AirDrive.ItemTable.renameRows_eq` — the statements do what `renameSubtree` does.
* `AirDrive.ItemTable.exactlyRenamed_iff` — when the rows of the directory, and no others, move.
* `AirDrive.ItemTable.orderFree_iff` — when the order does not matter.
-/

namespace AirDrive

open Data.Like

/-- `str::replace` of a character. -/
def replaceChar (c : Char) (by' : List Char) (s : List Char) : List Char :=
  s.flatMap fun x => if x = c then by' else [x]

/-- `escape_like`. -/
def escapeLike (s : List Char) : List Char :=
  replaceChar '_' ['\\', '_'] (replaceChar '%' ['\\', '%'] (replaceChar '\\' ['\\', '\\'] s))

/-- What can go wrong in `rename_subtree`. -/
inductive RenameFault
  /-- A text is cut beyond its end, or within a character. -/
  | outOfRange
  /-- The unique index on the paths is violated. -/
  | constraint
deriving DecidableEq, Repr

namespace ItemTable

/-- `relative_path = old OR relative_path LIKE 'old/%' ESCAPE '\'`. -/
def isSelected (old path : List Char) : Bool :=
  path = old || like '\\' (escapeLike old ++ ['/', '%']) path

/-- The ids and the paths of the selected rows. -/
def selectSubtree (t : ItemTable) (old : List Char) : List (ItemId × List Char) :=
  (t.rows.filter fun r => isSelected old r.relativePath.text).map
    fun r => (r.id, r.relativePath.text)

/-- `UPDATE sync_item SET relative_path = ?1 WHERE id = ?2`. -/
def updatePath (t : ItemTable) (id : ItemId) (rel : RelPath) : Except RenameFault ItemTable :=
  if ∃ r ∈ t.rows, r.relativePath = rel ∧ r.id ≠ id then .error .constraint
  else .ok (t.setRelativePath id rel)

/-- One iteration of `rename_subtree`. -/
def renameRowSql (old new : List Char) (t : ItemTable) (row : ItemId × List Char) :
    Except RenameFault ItemTable :=
  match sliceFrom (byteLen old) row.2 with
  | none => .error .outOfRange
  | some rest =>
    let rel := RelPath.ofText (new ++ rest)
    if ∃ r ∈ t.rows, r.relativePath = rel ∧ r.id ≠ row.1 then .ok (t.delete row.1)
    else t.updatePath row.1 rel

/-- `rename_subtree`, for the selected rows in the order in which the query gives them. -/
def renameRows (old new : List Char) (rows : List (ItemId × List Char)) (t : ItemTable) :
    Except RenameFault ItemTable :=
  rows.foldlM (renameRowSql old new) t

/-- The paths of the rows, and the two paths given, stand for texts; those given are not empty. -/
structure Textual (t : ItemTable) (old new : RelPath) : Prop where
  rows : ∀ r ∈ t, r.relativePath.Canonical
  old : old.Canonical ∧ old ≠ []
  new : new.Canonical ∧ new ≠ []

/-! ## The pattern and the cut -/

/-- The three replacements escape a text. -/
lemma escapeLike_eq (s : List Char) : escapeLike s = escape '\\' s := by
  induction s with
  | nil => rfl
  | cons c s ih =>
    have happend : ∀ s s', escapeLike (s ++ s') = escapeLike s ++ escapeLike s' := by
      intro s s'
      simp [escapeLike, replaceChar]
    have hchar : escapeLike [c] = escape '\\' [c] := by
      by_cases h : c = '\\'
      · subst h; decide
      · by_cases h' : c = '%'
        · subst h'; decide
        · by_cases h'' : c = '_'
          · subst h''; decide
          · simp [escapeLike, replaceChar, escape, h, h', h'']
    have hsplit : escape '\\' (c :: s) = escape '\\' [c] ++ escape '\\' s := by simp [escape]
    rw [hsplit, ← hchar, ← ih, ← happend]
    rfl

section Text

variable {t : ItemTable} {old new p : RelPath} {r : SyncItem}

/-- What the pattern finds. -/
lemma isSelected_iff {old path : List Char} : isSelected old path = true ↔
    path = old ∨ ∃ pre rest, path = pre ++ '/' :: rest ∧ fold pre = fold old := by
  have hslash : ∀ rest, like '\\' ['/', '%'] rest = true ↔ ∃ s, rest = '/' :: s := by
    intro rest
    have hescape : (['/', '%'] : List Char) = escape '\\' ['/'] ++ ['%'] := by decide
    rw [hescape, like_escape_any (by decide)]
    constructor
    · rintro ⟨pre, s, rfl, hpre⟩
      obtain ⟨c, rfl⟩ : ∃ c, pre = [c] := by
        have hlen := congrArg List.length hpre
        simp only [fold, List.length_map, List.length_singleton] at hlen
        exact List.length_eq_one_iff.mp hlen
      have hc : c.toLower = '/' := by simpa [fold] using hpre
      exact ⟨s, by rw [(RelPath.toLower_slash c).mp hc]; rfl⟩
    · rintro ⟨s, rfl⟩
      exact ⟨['/'], s, rfl, rfl⟩
  rw [isSelected, Bool.or_eq_true, decide_eq_true_eq, escapeLike_eq, like_escape]
  refine or_congr Iff.rfl ⟨?_, ?_⟩
  · rintro ⟨pre, rest, rfl, hpre, hrest⟩
    obtain ⟨s, rfl⟩ := (hslash rest).mp hrest
    exact ⟨pre, s, rfl, hpre⟩
  · rintro ⟨pre, s, rfl, hpre⟩
    exact ⟨pre, '/' :: s, rfl, hpre, (hslash _).mpr ⟨s, rfl⟩⟩

/-- The query selects the rows that `renameSubtree` moves. -/
lemma isSelected_text (hold : old.Canonical ∧ old ≠ []) (hr : r.relativePath.Canonical) :
    isSelected old.text r.relativePath.text = true ↔ Selected old r := by
  rw [isSelected_iff, Selected, RelPath.text_inj hr hold.1,
    RelPath.likeBelow_iff_text hold.1 hr hold.2]

/-- **No text is cut out of range.** What is left begins a component or is empty, and put after the
new path it makes the path to which the row moves. -/
lemma cut_of_selected (ht : Textual t old new) (hr : r ∈ t) (hselected : Selected old r) :
    ∃ pre rest, r.relativePath.text = pre ++ rest ∧ fold pre = fold old.text ∧
      (rest = [] ∨ ∃ s, rest = '/' :: s) ∧
      sliceFrom (byteLen old.text) r.relativePath.text = some rest ∧
      RelPath.ofText (new.text ++ rest) = RelPath.rebase old new r.relativePath := by
  have hrow := ht.rows r hr
  rcases hselected with hsame | hbelow
  · refine ⟨old.text, [], by simp [hsame], rfl, .inl rfl, ?_, ?_⟩
    · simpa [hsame] using sliceFrom_append old.text []
    · rw [List.append_nil, hsame, RelPath.rebase_self, RelPath.ofText_text ht.new.1]
  · obtain ⟨pre, rest, htext, hfold⟩ :=
      (RelPath.likeBelow_iff_text ht.old.1 hrow ht.old.2).mp hbelow
    refine ⟨pre, '/' :: rest, htext, hfold, .inr ⟨rest, rfl⟩,
      by rw [htext, sliceFrom_of_fold hfold], ?_⟩
    have hpath := RelPath.ofText_text hrow
    rw [htext, RelPath.ofText_append (RelPath.ne_nil_of_fold ht.old.1 ht.old.2 hfold)] at hpath
    have hlen : (RelPath.ofText pre).length = old.length := by
      simpa using congrArg List.length (RelPath.foldCase_ofText ht.old.1 ht.old.2 hfold)
    rw [RelPath.ofText_append (RelPath.text_ne_nil ht.new.1 ht.new.2),
      RelPath.ofText_text ht.new.1, RelPath.rebase, ← hpath, ← hlen, List.drop_left]

/-- The rows that the query gives, as `renameSubtree` looks them up. -/
def asPaths (rows : List (ItemId × List Char)) : List (ItemId × RelPath) :=
  rows.map fun x => (x.1, RelPath.ofText x.2)

/-- The query gives each row that `renameSubtree` moves once. -/
lemma asPaths_perm (ht : Textual t old new) {rows : List (ItemId × List Char)}
    (hrows : rows.Perm (t.selectSubtree old.text)) : (asPaths rows).Perm (t.renameAffected old) := by
  have hsame : asPaths (t.selectSubtree old.text) = t.renameAffected old := by
    have hfilter : (t.rows.filter fun r => isSelected old.text r.relativePath.text) =
        t.rows.filter fun r => r.relativePath = old || old.likeBelow r.relativePath := by
      refine List.filter_congr fun r hr => ?_
      rw [Bool.eq_iff_iff, isSelected_text ht.old (ht.rows r hr)]
      simp [Selected]
    simp only [asPaths, selectSubtree, renameAffected, hfilter, List.map_map]
    refine List.map_congr_left fun r hr => ?_
    simp only [Function.comp_apply]
    rw [RelPath.ofText_text (ht.rows r (List.mem_filter.mp hr).1)]
  exact hsame ▸ hrows.map _

/-- **The statements do what `renameSubtree` does**: they succeed, in every order of the rows. -/
theorem renameRows_eq (ht : Textual t old new) {rows : List (ItemId × List Char)}
    (hrows : rows.Perm (t.selectSubtree old.text)) :
    renameRows old.text new.text rows t =
      .ok ((asPaths rows).foldl (renameRow old new) t) := by
  have hloop : ∀ rows : List (ItemId × List Char),
      (∀ x ∈ rows, ∃ r ∈ t, Selected old r ∧ (r.id, r.relativePath.text) = x) → ∀ t₁,
      renameRows old.text new.text rows t₁ = .ok ((asPaths rows).foldl (renameRow old new) t₁) := by
    intro rows
    induction rows with
    | nil => exact fun _ _ => rfl
    | cons x rows ih =>
      intro hall t₁
      obtain ⟨r, hr, hselected, rfl⟩ := hall x (.head _)
      obtain ⟨-, rest, -, -, -, hcut, hpath⟩ := cut_of_selected ht hr hselected
      have hstep : renameRowSql old.text new.text t₁ (r.id, r.relativePath.text) =
          .ok (renameRow old new t₁ (r.id, r.relativePath)) := by
        simp only [renameRowSql, renameRow, hcut, hpath]
        split
        · rfl
        · next hfree => rw [updatePath, if_neg hfree]
      have htail := ih (fun y hy => hall y (.tail _ hy)) (renameRow old new t₁ (r.id, r.relativePath))
      simp only [renameRows, List.foldlM_cons, hstep, asPaths, List.map_cons, List.foldl_cons,
        RelPath.ofText_text (ht.rows r hr)] at htail ⊢
      exact htail
  refine hloop rows (fun x hx => ?_) t
  obtain ⟨r, hr, rfl⟩ := List.mem_map.mp (hrows.mem_iff.mp hx)
  obtain ⟨hmem, hselected⟩ := List.mem_filter.mp hr
  exact ⟨r, hmem, (isSelected_text ht.old (ht.rows r hmem)).mp hselected, rfl⟩

end Text

/-! ## The rows of the directory -/

/-- The path is that of the directory or begins with it and a slash, byte for byte. -/
def Within (old path : List Char) : Prop :=
  ∃ rest, path = old ++ rest ∧ (rest = [] ∨ ∃ s, rest = '/' :: s)

/-- The rows of the directory have moved along, or are gone; the other rows are as they were. -/
structure ExactlyRenamed (t t' : ItemTable) (old new : List Char) : Prop where
  others : ∀ r ∈ t, ¬Within old r.relativePath.text → r ∈ t'
  moved : ∀ r' ∈ t', r' ∈ t ∧ ¬Within old r'.relativePath.text ∨
    ∃ r ∈ t, ∃ rest, r.relativePath.text = old ++ rest ∧ (rest = [] ∨ ∃ s, rest = '/' :: s) ∧
      r' = { r with relativePath := RelPath.ofText (new ++ rest) }

section Exact

variable {t : ItemTable} {old new : RelPath} {r : SyncItem}

/-- A row of the directory is selected. -/
lemma selected_of_within (ht : Textual t old new) (hr : r ∈ t)
    (h : Within old.text r.relativePath.text) : Selected old r := by
  obtain ⟨rest, htext, hrest⟩ := h
  refine (isSelected_text ht.old (ht.rows r hr)).mp (isSelected_iff.mpr ?_)
  rcases hrest with rfl | ⟨s, rfl⟩
  · exact .inl (by simpa using htext)
  · exact .inr ⟨_, s, htext, rfl⟩

/-- A selected row that stays where it is: the two paths differ in case only, and the row is below
the new one. -/
lemma stays_iff (ht : Textual t old new) (hr : r ∈ t) (hselected : Selected old r) :
    RelPath.rebase old new r.relativePath = r.relativePath ↔
      fold new.text = fold old.text ∧ Within new.text r.relativePath.text := by
  obtain ⟨pre, rest, htext, hfold, hrest, -, hpath⟩ := cut_of_selected ht hr hselected
  have hnew : (RelPath.rebase old new r.relativePath).text = new.text ++ rest := by
    rw [← hpath, RelPath.text_ofText]
  constructor
  · intro hstays
    rw [hstays, htext] at hnew
    have hsame := List.append_cancel_right hnew
    exact ⟨hsame ▸ hfold, rest, hsame ▸ htext, hrest⟩
  · rintro ⟨hcase, rest', htext', -⟩
    have hlen : new.text.length = pre.length := by
      have hlength := congrArg List.length (hcase.trans hfold.symm)
      simpa [fold] using hlength
    have hsame := (List.append_inj (htext'.symm.trans htext) hlen).1
    rw [← hpath, hsame, ← htext, RelPath.ofText_text (ht.rows r hr)]

/-- A row stays where it is while it is moved there. -/
lemma mem_foldl_renameRow_stays {l : List (ItemId × RelPath)} (hr : r ∈ t)
    (hl : ∀ sel ∈ l, sel.1 = r.id → RelPath.rebase old new sel.2 = r.relativePath) :
    r ∈ l.foldl (renameRow old new) t := by
  induction l generalizing t with
  | nil => exact hr
  | cons sel l ih =>
    refine ih ?_ fun x hx => hl x (.tail _ hx)
    by_cases hid : sel.1 = r.id
    · have hrel := hl sel (.head _) hid
      simp only [renameRow, hrel]
      have halone : ¬∃ s ∈ t.rows, s.relativePath = r.relativePath ∧ s.id ≠ sel.1 := by
        rintro ⟨s, hs, hpath, hne⟩
        exact hne (t.path_inj hs hr hpath ▸ hid.symm)
      rw [if_neg halone]
      exact mem_setRelativePath.mpr (.inl ⟨r, hr, hid.symm, rfl⟩)
    · exact mem_renameRow_other hr (Ne.symm hid)

/-- What the query gives, by the row. -/
lemma mem_asPaths (ht : Textual t old new) {rows : List (ItemId × List Char)}
    (hrows : rows.Perm (t.selectSubtree old.text)) {sel : ItemId × RelPath} :
    sel ∈ asPaths rows ↔ ∃ r ∈ t, Selected old r ∧ (r.id, r.relativePath) = sel := by
  rw [(asPaths_perm ht hrows).mem_iff, mem_renameAffected]

/-- **The rows of the directory move, and no others**, exactly when every row that `LIKE` finds is
one of them, or is below the new path where that differs from the old one in the case of ASCII
letters only. -/
theorem exactlyRenamed_iff (t : ItemTable) (old new : RelPath) (ht : Textual t old new)
    (rows : List (ItemId × List Char)) (hrows : rows.Perm (t.selectSubtree old.text)) :
    (∃ t', renameRows old.text new.text rows t = .ok t' ∧
      ExactlyRenamed t t' old.text new.text) ↔
    ∀ r ∈ t, isSelected old.text r.relativePath.text = true →
      Within old.text r.relativePath.text ∨
        fold new.text = fold old.text ∧ Within new.text r.relativePath.text := by
  rw [renameRows_eq ht hrows]
  simp only [Except.ok.injEq, exists_eq_left']
  have hown : ∀ {r}, r ∈ t → ∀ {sel}, sel ∈ asPaths rows → sel.1 = r.id →
      Selected old r ∧ sel.2 = r.relativePath := by
    intro r hr sel hsel hid
    obtain ⟨s, hs, hselected, rfl⟩ := (mem_asPaths ht hrows).mp hsel
    obtain rfl := t.id_inj hs hr hid
    exact ⟨hselected, rfl⟩
  constructor
  · intro h r hr hsel
    have hselected := (isSelected_text ht.old (ht.rows r hr)).mp hsel
    refine or_iff_not_imp_left.mpr fun hout => (stays_iff ht hr hselected).mp ?_
    rcases mem_foldl_renameRow_from (h.others r hr hout) with ⟨-, hids⟩ | ⟨sel, hsel, s, hs, hid, heq⟩
    · exact absurd rfl (hids _ ((mem_asPaths ht hrows).mpr ⟨r, hr, hselected, rfl⟩))
    · have hpath : sel.2 = r.relativePath :=
        (hown hr hsel (hid.symm.trans (congrArg SyncItem.id heq).symm)).2
      rw [← hpath]
      exact (congrArg SyncItem.relativePath heq).symm.trans hpath.symm
  · intro h
    have hstays : ∀ r ∈ t, Selected old r → ¬Within old.text r.relativePath.text →
        RelPath.rebase old new r.relativePath = r.relativePath := fun r hr hselected hout =>
      (stays_iff ht hr hselected).mpr
        ((h r hr ((isSelected_text ht.old (ht.rows r hr)).mpr hselected)).resolve_left hout)
    refine ⟨fun r hr hout => mem_foldl_renameRow_stays hr fun sel hsel hid => ?_, fun r' hr' => ?_⟩
    · obtain ⟨hselected, hpath⟩ := hown hr hsel hid
      rw [hpath, hstays r hr hselected hout]
    · rcases mem_foldl_renameRow_from hr' with ⟨hr, hids⟩ | ⟨sel, hsel, s, hs, hid, rfl⟩
      · refine .inl ⟨hr, fun hin => hids _ ((mem_asPaths ht hrows).mpr
          ⟨r', hr, selected_of_within ht hr hin, rfl⟩) rfl⟩
      · obtain ⟨hselected, hpath⟩ := hown hs hsel hid.symm
        rw [hpath]
        by_cases hin : Within old.text s.relativePath.text
        · obtain ⟨rest, htext, hrest⟩ := hin
          refine .inr ⟨s, hs, rest, htext, hrest, ?_⟩
          obtain ⟨pre, rest', htext', hfold, -, -, hrel⟩ := cut_of_selected ht hs hselected
          have hlen : old.text.length = pre.length := by
            have hlength := congrArg List.length hfold
            simpa [fold] using hlength.symm
          rw [(List.append_inj (htext.symm.trans htext') hlen).2, hrel]
        · rw [hstays s hs hselected hin]
          exact .inl ⟨hs, hin⟩

/-- A table with files at some paths. -/
def withFiles (paths : List RelPath) : ItemTable :=
  paths.foldl (fun t p =>
    if h : t.getByRelativePath p = none then t.insert ⟨p, .file, none, none, none, .synced⟩ h
    else t) empty

/-- `%` and `_` are no wildcards. -/
theorem wildcards_exact :
    ∃ t', renameRows "a%".toList "b".toList
        ((withFiles [["a%"], ["a%", "x_"], ["ab", "y"]]).selectSubtree "a%".toList)
        (withFiles [["a%"], ["a%", "x_"], ["ab", "y"]]) = .ok t' ∧
      ExactlyRenamed (withFiles [["a%"], ["a%", "x_"], ["ab", "y"]]) t' "a%".toList "b".toList := by
  have hcanonical : ∀ r ∈ (withFiles [["a%"], ["a%", "x_"], ["ab", "y"]]).rows,
      r.relativePath.Canonical := by decide
  refine (exactlyRenamed_iff (withFiles [["a%"], ["a%", "x_"], ["ab", "y"]]) ["a%"] ["b"]
    ⟨hcanonical, by decide, by decide⟩ _ (.refl _)).mpr fun r hr hselected => .inl ?_
  have hselects : ∀ r ∈ (withFiles [["a%"], ["a%", "x_"], ["ab", "y"]]).rows,
      isSelected ['a', '%'] r.relativePath.text = true →
        r.relativePath.text = ['a', '%'] ++ [] ∨ r.relativePath.text = ['a', '%'] ++ ['/', 'x', '_'] := by
    decide
  rcases hselects r hr hselected with htext | htext
  · exact ⟨_, htext, .inl rfl⟩
  · exact ⟨_, htext, .inr ⟨_, rfl⟩⟩

/-- What is below a directory that differs in case only is moved as well. -/
theorem other_case_moved :
    ¬∀ (t : ItemTable) (old new : RelPath), Textual t old new →
      ∀ rows : List (ItemId × List Char), rows.Perm (t.selectSubtree old.text) →
        ∃ t', renameRows old.text new.text rows t = .ok t' ∧
          ExactlyRenamed t t' old.text new.text := by
  intro h
  have hcanonical : ∀ r ∈ (withFiles [["docs"], ["Docs", "x"]]).rows, r.relativePath.Canonical := by
    decide
  obtain ⟨t', hok, hexact⟩ := h (withFiles [["docs"], ["Docs", "x"]]) ["docs"] ["new"]
    ⟨hcanonical, by decide, by decide⟩ _ (.refl _)
  have hpaths : (renameRows "docs".toList "new".toList
      ((withFiles [["docs"], ["Docs", "x"]]).selectSubtree "docs".toList)
      (withFiles [["docs"], ["Docs", "x"]])).map (fun t => t.rows.map SyncItem.relativePath) =
        .ok [["new"], ["new", "x"]] := by decide +kernel
  obtain ⟨r, hr, hpath⟩ : ∃ r ∈ (withFiles [["docs"], ["Docs", "x"]]).rows,
      r.relativePath = ["Docs", "x"] := by decide
  have hout : ¬Within (RelPath.text ["docs"]) r.relativePath.text := by
    rintro ⟨rest, htext, -⟩
    have hupper : (RelPath.text ["Docs", "x"]).head? = some 'D' := by decide
    have hlower : (RelPath.text ["docs"] ++ rest).head? = some 'd' := rfl
    rw [hpath] at htext
    rw [htext, hlower] at hupper
    exact absurd hupper (by decide)
  have hkept := List.mem_map_of_mem (f := SyncItem.relativePath) (hexact.others r hr hout)
  have hsame : t'.rows.map SyncItem.relativePath = [["new"], ["new", "x"]] := by
    have hmap := congrArg (Except.map fun t : ItemTable => t.rows.map SyncItem.relativePath) hok
    exact Except.ok.inj (hmap.symm.trans hpaths)
  rw [show t'.serial.table.rows = t'.rows from rfl, hsame, hpath] at hkept
  exact absurd hkept (by decide)

end Exact

/-! ## The order of the rows -/

/-- The row moves to another place. -/
def Moves (old new : RelPath) (r : SyncItem) : Prop :=
  Selected old r ∧ RelPath.rebase old new r.relativePath ≠ r.relativePath

/-- No row that rests is at the destination of the row. -/
def Free (t : ItemTable) (old new : RelPath) (r : SyncItem) : Prop :=
  ∀ s ∈ t, s.relativePath = RelPath.rebase old new r.relativePath → Moves old new s

/-- What is expected of a renaming in whatever order the rows are given: it succeeds, no two rows
have one path, a row is dropped only if a row that is not moved is at its destination, and the paths
with their objects are the same in all orders. -/
structure OrderFree (t : ItemTable) (old new : RelPath) : Prop where
  succeeds : ∀ rows : List (ItemId × List Char), rows.Perm (t.selectSubtree old.text) →
    ∃ t', renameRows old.text new.text rows t = .ok t' ∧
      (t'.rows.map SyncItem.relativePath).Nodup
  dropped : ∀ rows t', rows.Perm (t.selectSubtree old.text) →
    renameRows old.text new.text rows t = .ok t' → ∀ r ∈ t, (∀ r' ∈ t', r'.id ≠ r.id) →
      ∃ s ∈ t, s.relativePath = RelPath.rebase old new r.relativePath ∧ ¬Moves old new s
  same : ∀ rows rows' t' t'', rows.Perm (t.selectSubtree old.text) →
    rows'.Perm (t.selectSubtree old.text) → renameRows old.text new.text rows t = .ok t' →
    renameRows old.text new.text rows' t = .ok t'' → ∀ p rid,
      (∃ r ∈ t', r.relativePath = p ∧ r.remoteId = rid) ↔
        ∃ r ∈ t'', r.relativePath = p ∧ r.remoteId = rid

/-- No row moves to the place of another one that moves, and two of them move to one place only if a
row that rests is there. -/
def Clear (t : ItemTable) (old new : RelPath) : Prop :=
  ∀ r ∈ t, Moves old new r → ∀ s ∈ t, Moves old new s → r.id ≠ s.id →
    RelPath.rebase old new r.relativePath ≠ s.relativePath ∧
      (RelPath.rebase old new r.relativePath = RelPath.rebase old new s.relativePath →
        ¬Free t old new r)

instance (old new : RelPath) (r : SyncItem) : Decidable (Moves old new r) :=
  inferInstanceAs (Decidable (_ ∧ _))

section Order

variable {t : ItemTable} {old new : RelPath} {r : SyncItem}

/-- Moving a row to where it is changes nothing. -/
lemma mem_renameRow_stays (hr : r ∈ t)
    (hstays : RelPath.rebase old new r.relativePath = r.relativePath) {r' : SyncItem} :
    r' ∈ renameRow old new t (r.id, r.relativePath) ↔ r' ∈ t := by
  simp only [renameRow, hstays]
  have halone : ¬∃ s ∈ t.rows, s.relativePath = r.relativePath ∧ s.id ≠ r.id := by
    rintro ⟨s, hs, hpath, hid⟩
    exact hid (t.path_inj hs hr hpath ▸ rfl)
  rw [if_neg halone, mem_setRelativePath]
  constructor
  · rintro (⟨s, hs, hid, rfl⟩ | ⟨hr', -⟩)
    · obtain rfl := t.id_inj hs hr hid
      exact hr
    · exact hr'
  · intro hr'
    by_cases hid : r'.id = r.id
    · obtain rfl := t.id_inj hr' hr hid
      exact .inl ⟨r', hr', rfl, rfl⟩
    · exact .inr ⟨hr', hid, .inl fun hpath => hid (t.path_inj hr' hr hpath ▸ rfl)⟩

/-- Moving a row to a place that no row has. -/
lemma mem_renameRow_free (hr : r ∈ t)
    (hfree : ∀ s ∈ t, s.relativePath ≠ RelPath.rebase old new r.relativePath) {r' : SyncItem} :
    r' ∈ renameRow old new t (r.id, r.relativePath) ↔
      r' = { r with relativePath := RelPath.rebase old new r.relativePath } ∨
        r' ∈ t ∧ r'.id ≠ r.id := by
  simp only [renameRow]
  have hopen : ¬∃ s ∈ t.rows, s.relativePath = RelPath.rebase old new r.relativePath ∧ s.id ≠ r.id := by
    rintro ⟨s, hs, hpath, -⟩
    exact hfree s hs hpath
  rw [if_neg hopen, mem_setRelativePath]
  constructor
  · rintro (⟨s, hs, hid, rfl⟩ | ⟨hr', hid, -⟩)
    · obtain rfl := t.id_inj hs hr hid
      exact .inl rfl
    · exact .inr ⟨hr', hid⟩
  · rintro (rfl | ⟨hr', hid⟩)
    · exact .inl ⟨r, hr, rfl, rfl⟩
    · exact .inr ⟨hr', hid, .inl (hfree r' hr')⟩

/-- Moving a row to the place of another one drops it. -/
lemma mem_renameRow_held {s : SyncItem} (hs : s ∈ t)
    (hpath : s.relativePath = RelPath.rebase old new r.relativePath) (hid : s.id ≠ r.id)
    {r' : SyncItem} :
    r' ∈ renameRow old new t (r.id, r.relativePath) ↔ r' ∈ t ∧ r'.id ≠ r.id := by
  simp only [renameRow]
  rw [if_pos ⟨s, hs, hpath, hid⟩, mem_delete]

/-- What some selected rows leave when they are clear of each other, in whatever order they move. -/
lemma mem_foldl_clear (hclear : Clear t old new) {l : List (ItemId × RelPath)}
    (hids : (l.map Prod.fst).Nodup)
    (hl : ∀ sel ∈ l, ∃ r ∈ t, Selected old r ∧ (r.id, r.relativePath) = sel) {r' : SyncItem} :
    r' ∈ l.foldl (renameRow old new) t ↔
      (r' ∈ t ∧ (Moves old new r' → ∀ sel ∈ l, sel.1 ≠ r'.id)) ∨
        ∃ r ∈ t, Moves old new r ∧ Free t old new r ∧ (∃ sel ∈ l, sel.1 = r.id) ∧
          r' = { r with relativePath := RelPath.rebase old new r.relativePath } := by
  induction l using List.reverseRecOn generalizing r' with
  | nil => simp
  | append_singleton l sel ih =>
    obtain ⟨r, hr, hselected, rfl⟩ := hl sel (by simp)
    have hbefore : ∀ x ∈ l, x.1 ≠ r.id := by
      intro x hx heq
      simp only [List.map_append, List.nodup_append, List.map_cons, List.map_nil] at hids
      exact hids.2.2 x.1 (List.mem_map_of_mem hx) r.id (by simp) heq
    replace ih : ∀ {r'}, _ := fun {r'} =>
      @ih (by simpa using hids.sublist (List.sublist_append_left _ _ |>.map Prod.fst))
        (fun x hx => hl x (by simp [hx])) r'
    rw [List.foldl_append, List.foldl_cons, List.foldl_nil]
    set t₁ := l.foldl (renameRow old new) t with ht₁
    have hr₁ : r ∈ t₁ := ih.mpr (.inl ⟨hr, fun _ => hbefore⟩)
    by_cases hmoves : Moves old new r
    · have hstep : r' ∈ renameRow old new t₁ (r.id, r.relativePath) ↔ Free t old new r ∧
          r' = { r with relativePath := RelPath.rebase old new r.relativePath } ∨
            r' ∈ t₁ ∧ r'.id ≠ r.id := by
        by_cases hfree : Free t old new r
        · have hnone : ∀ s ∈ t₁, s.relativePath ≠ RelPath.rebase old new r.relativePath := by
            intro s hs hpath
            rcases ih.mp hs with ⟨hs, -⟩ | ⟨s', hs', hmoves', hfree', ⟨x, hx, hid⟩, rfl⟩
            · by_cases hid : r.id = s.id
              · exact hmoves.2 (t.id_inj hr hs hid ▸ hpath.symm)
              · exact (hclear r hr hmoves s hs (hfree s hs hpath) hid).1 hpath.symm
            · have hne : s'.id ≠ r.id := fun heq => hbefore x hx (hid.trans heq)
              exact (hclear s' hs' hmoves' r hr hmoves hne).2 hpath hfree'
          rw [mem_renameRow_free hr₁ hnone, and_iff_right hfree]
        · obtain ⟨s, hs, hpath, hrests⟩ : ∃ s ∈ t,
              s.relativePath = RelPath.rebase old new r.relativePath ∧ ¬Moves old new s := by
            simpa [Free] using hfree
          have hid : s.id ≠ r.id := fun hid => hrests (t.id_inj hs hr hid ▸ hmoves)
          rw [mem_renameRow_held (ih.mpr (.inl ⟨hs, fun h => absurd h hrests⟩)) hpath hid]
          exact ⟨.inr, fun h => h.resolve_left fun h => hfree h.1⟩
      rw [hstep, ih]
      constructor
      · rintro (⟨hfree, rfl⟩ | ⟨⟨hr', hl'⟩ | ⟨s, hs, hmoves', hfree', ⟨x, hx, hid⟩, rfl⟩, hne⟩)
        · exact .inr ⟨r, hr, hmoves, hfree, ⟨_, List.mem_append_right l (.head _), rfl⟩, rfl⟩
        · refine .inl ⟨hr', fun hmoves' x hx => ?_⟩
          rcases List.mem_append.mp hx with hx | hx
          · exact hl' hmoves' x hx
          · obtain rfl := List.mem_singleton.mp hx
            exact hne.symm
        · exact .inr ⟨s, hs, hmoves', hfree', ⟨x, by simp [hx], hid⟩, rfl⟩
      · rintro (⟨hr', hl'⟩ | ⟨s, hs, hmoves', hfree', ⟨x, hx, hid⟩, rfl⟩)
        · refine .inr ⟨.inl ⟨hr', fun hmoves' x hx => hl' hmoves' x (by simp [hx])⟩, fun hid => ?_⟩
          obtain rfl := t.id_inj hr' hr hid
          exact hl' hmoves _ (List.mem_append_right l (.head _)) rfl
        · by_cases hsame : s.id = r.id
          · obtain rfl := t.id_inj hs hr hsame
            exact .inl ⟨hfree', rfl⟩
          · rcases List.mem_append.mp hx with hx | hx
            · exact .inr ⟨.inr ⟨s, hs, hmoves', hfree', ⟨x, hx, hid⟩, rfl⟩, hsame⟩
            · obtain rfl := List.mem_singleton.mp hx
              exact absurd hid.symm hsame
    · have hstays : RelPath.rebase old new r.relativePath = r.relativePath := by
        by_contra hne
        exact hmoves ⟨hselected, hne⟩
      have hother : ∀ s ∈ t, Moves old new s → r.id ≠ s.id := fun s hs hs' hid =>
        hmoves (t.id_inj hr hs hid ▸ hs')
      rw [mem_renameRow_stays hr₁ hstays, ih]
      refine or_congr (and_congr_right fun hr' => forall_congr' fun hmoves' => ?_) ?_
      · simp only [List.mem_append, List.mem_singleton, or_imp, forall_and, forall_eq]
        exact (and_iff_left (hother r' hr' hmoves')).symm
      · refine exists_congr fun s => and_congr_right fun hs => and_congr_right fun hs' => ?_
        have hnot : r.id ≠ s.id := hother s hs hs'
        simp [or_and_right, exists_or, hnot]

/-- A row that is gone does not come back. -/
lemma id_ne_of_foldl {i : ItemId} {l : List (ItemId × RelPath)} (h : ∀ s ∈ t, s.id ≠ i)
    {r' : SyncItem} (hr' : r' ∈ l.foldl (renameRow old new) t) : r'.id ≠ i := by
  rcases mem_foldl_renameRow_from hr' with ⟨hr', -⟩ | ⟨-, -, s, hs, -, rfl⟩
  · exact h r' hr'
  · exact h s hs

/-- **The order does not matter** exactly when no row moves to the place of another one that moves,
and two of them move to one place only if a row that rests is there. -/
theorem orderFree_iff (t : ItemTable) (old new : RelPath) (ht : Textual t old new) :
    OrderFree t old new ↔ Clear t old new := by
  have hcases : ∀ rows : List (ItemId × List Char), rows.Perm (t.selectSubtree old.text) →
      ((asPaths rows).map Prod.fst).Nodup ∧
        ∀ sel ∈ asPaths rows, ∃ r ∈ t, Selected old r ∧ (r.id, r.relativePath) = sel :=
    fun rows hrows => ⟨((asPaths_perm ht hrows).map Prod.fst).nodup_iff.mpr
      (t.nodup_renameAffected old), fun sel hsel => (mem_asPaths ht hrows).mp hsel⟩
  constructor
  · intro h
    have hentry : ∀ {r}, r ∈ t → Moves old new r →
        (r.id, r.relativePath.text) ∈ t.selectSubtree old.text := fun {r} hr hmoves =>
      List.mem_map.mpr ⟨r, List.mem_filter.mpr ⟨hr, (isSelected_text ht.old (ht.rows r hr)).mpr
        hmoves.1⟩, rfl⟩
    have hpath : ∀ {r}, r ∈ t → ∀ rows, asPaths ((r.id, r.relativePath.text) :: rows) =
        (r.id, r.relativePath) :: asPaths rows := fun {r} hr rows => by
      simp only [asPaths, List.map_cons, RelPath.ofText_text (ht.rows r hr)]
    -- a row that comes first finds another one at its destination
    have hplaces : ∀ r ∈ t, Moves old new r → ∀ s ∈ t, Moves old new s → r.id ≠ s.id →
        RelPath.rebase old new r.relativePath ≠ s.relativePath := by
      intro r hr hmoves s hs hmoves' hid hdest
      have hperm := (List.perm_cons_erase (hentry hr hmoves)).symm
      obtain ⟨u, hu, hudest, hrests⟩ := h.dropped _ _ hperm (renameRows_eq ht hperm) r hr
        fun r' hr' => by
          rw [hpath hr, List.foldl_cons] at hr'
          exact id_ne_of_foldl (fun s' hs' => ((mem_renameRow_held hs hdest.symm hid.symm).mp hs').2)
            hr'
      exact hrests (t.path_inj hu hs (hudest.trans hdest) ▸ hmoves')
    intro r hr hmoves s hs hmoves' hid
    refine ⟨hplaces r hr hmoves s hs hmoves' hid, fun hdest hfree => ?_⟩
    -- the row that comes second finds the first one at its destination
    have hnone : ∀ u ∈ t, u.relativePath ≠ RelPath.rebase old new r.relativePath := by
      intro u hu hudest
      by_cases hsame : r.id = u.id
      · exact hmoves.2 (t.id_inj hr hu hsame ▸ hudest.symm)
      · exact hplaces r hr hmoves u hu (hfree u hu hudest) hsame hudest.symm
    have hsecond : (s.id, s.relativePath.text) ∈
        (t.selectSubtree old.text).erase (r.id, r.relativePath.text) :=
      (List.mem_erase_of_ne fun heq => hid (Prod.ext_iff.mp heq).1.symm).mpr (hentry hs hmoves')
    have hperm := ((List.perm_cons_erase (hentry hr hmoves)).trans
      ((List.perm_cons_erase hsecond).cons _)).symm
    obtain ⟨u, hu, hudest, hrests⟩ := h.dropped _ _ hperm (renameRows_eq ht hperm) s hs
      fun r' hr' => by
        rw [hpath hr, List.foldl_cons, hpath hs, List.foldl_cons] at hr'
        refine id_ne_of_foldl (fun s' hs' => ?_) hr'
        have hmoved := (mem_renameRow_free hr hnone).mpr (.inl rfl)
        exact ((mem_renameRow_held hmoved hdest hid).mp hs').2
    exact hrests (hfree u hu (hudest.trans hdest.symm))
  · intro hclear
    have hmem : ∀ rows t', rows.Perm (t.selectSubtree old.text) →
        renameRows old.text new.text rows t = .ok t' → ∀ r', r' ∈ t' ↔
          (r' ∈ t ∧ ¬Moves old new r') ∨ ∃ r ∈ t, Moves old new r ∧ Free t old new r ∧
            r' = { r with relativePath := RelPath.rebase old new r.relativePath } := by
      intro rows t' hrows hok r'
      rw [renameRows_eq ht hrows] at hok
      obtain rfl := Except.ok.inj hok
      obtain ⟨hids, hl⟩ := hcases rows hrows
      have hlisted : ∀ r ∈ t, Moves old new r → (r.id, r.relativePath) ∈ asPaths rows :=
        fun r hr hmoves => (mem_asPaths ht hrows).mpr ⟨r, hr, hmoves.1, rfl⟩
      rw [mem_foldl_clear hclear hids hl]
      refine or_congr (and_congr_right fun hr => ⟨fun h hmoves => h hmoves _ (hlisted r' hr hmoves) rfl,
        fun h hmoves => absurd hmoves h⟩) ?_
      refine exists_congr fun r => and_congr_right fun hr => and_congr_right fun hmoves =>
        and_congr_right fun _ => and_iff_right ⟨_, hlisted r hr hmoves, rfl⟩
    refine ⟨fun rows hrows => ⟨_, renameRows_eq ht hrows, ItemTable.paths _⟩,
      fun rows t' hrows hok r hr hdropped => ?_, fun rows rows' t' t'' hrows hrows' hok hok' p rid => ?_⟩
    · by_contra hnone
      have hfree : Free t old new r := by
        intro s hs hpath
        by_contra hrests
        exact hnone ⟨s, hs, hpath, hrests⟩
      by_cases hmoves : Moves old new r
      · exact hdropped _ ((hmem rows t' hrows hok _).mpr (.inr ⟨r, hr, hmoves, hfree, rfl⟩)) rfl
      · exact hdropped r ((hmem rows t' hrows hok r).mpr (.inl ⟨hr, hmoves⟩)) rfl
    · simp only [hmem rows t' hrows hok, hmem rows' t'' hrows' hok']

/-- A directory moves to a place of its own. -/
theorem elsewhere_orderFree : OrderFree (withFiles [["a"], ["a", "b"], ["c"]]) ["a"] ["d"] := by
  have hcanonical : ∀ r ∈ (withFiles [["a"], ["a", "b"], ["c"]]).rows, r.relativePath.Canonical := by
    decide
  have hplaces : ∀ r ∈ (withFiles [["a"], ["a", "b"], ["c"]]).rows, Moves ["a"] ["d"] r →
      ∀ s ∈ (withFiles [["a"], ["a", "b"], ["c"]]).rows, Moves ["a"] ["d"] s → r.id ≠ s.id →
        RelPath.rebase ["a"] ["d"] r.relativePath ≠ s.relativePath ∧
          RelPath.rebase ["a"] ["d"] r.relativePath ≠ RelPath.rebase ["a"] ["d"] s.relativePath := by
    decide
  refine (orderFree_iff (withFiles [["a"], ["a", "b"], ["c"]]) ["a"] ["d"]
    ⟨hcanonical, by decide, by decide⟩).mpr fun r hr hmoves s hs hmoves' hid => ?_
  obtain ⟨hplace, hdest⟩ := hplaces r hr hmoves s hs hmoves' hid
  exact ⟨hplace, fun heq => absurd heq hdest⟩

/-- A directory that moves into itself. -/
theorem inside_drops : ¬∀ (t : ItemTable) (old new : RelPath), Textual t old new →
    OrderFree t old new := by
  intro h
  have hcanonical : ∀ r ∈ (withFiles [["a"], ["a", "b"]]).rows, r.relativePath.Canonical := by decide
  have hfree := h (withFiles [["a"], ["a", "b"]]) ["a"] ["a", "b"] ⟨hcanonical, by decide, by decide⟩
  obtain ⟨t', hok, -⟩ := hfree.succeeds _ (.refl _)
  have hids : (renameRows "a".toList "a/b".toList
      ((withFiles [["a"], ["a", "b"]]).selectSubtree "a".toList)
      (withFiles [["a"], ["a", "b"]])).map (fun t => t.rows.map SyncItem.id) = .ok [2] := by
    decide +kernel
  have hsame : t'.rows.map SyncItem.id = [2] := by
    have hmap := congrArg (Except.map fun t : ItemTable => t.rows.map SyncItem.id) hok
    exact Except.ok.inj (hmap.symm.trans hids)
  obtain ⟨r, hr, hpath, hid⟩ : ∃ r ∈ (withFiles [["a"], ["a", "b"]]).rows,
      r.relativePath = ["a"] ∧ r.id = 1 := by decide
  obtain ⟨s, hs, hdest, hrests⟩ := hfree.dropped _ t' (.refl _) hok r hr fun r' hr' heq => by
    have hmem := List.mem_map_of_mem (f := SyncItem.id) hr'
    rw [show t'.serial.table.rows = t'.rows from rfl, hsame, heq, hid] at hmem
    exact absurd hmem (by decide)
  have hmoves : ∀ s ∈ (withFiles [["a"], ["a", "b"]]).rows, Moves ["a"] ["a", "b"] s := by decide
  exact hrests (hmoves s hs)

end Order

end ItemTable

end AirDrive
