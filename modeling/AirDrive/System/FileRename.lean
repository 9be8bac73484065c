import AirDrive.System.Orphans

set_option relaxedAutoImplicit false
set_option autoImplicit false

/-!
# Renaming a file on disk

A rename on Drive is replayed on disk and then in the rows, by operations that were made for
folders: on disk the file replaces what is at its new path, while in the rows the one that is
there wins. So the rename of a file is exact where nothing is in its way on either side.

## Main definitions

* `AirDrive.FileRename.Exact` — the file has moved, and nothing else is lost.
* `AirDrive.FileRename.Clear` — nothing is in the way.

## Main results

* `AirDrive.FileRename.renameLocal_exact_iff` — a rename that succeeds is exact if and only if
  nothing is in the way.
-/

namespace AirDrive

open Effect

namespace ItemTable

variable {t : ItemTable} {old new : RelPath} {r : SyncItem}

/-- Where a row comes from that is there after some selected rows were moved. -/
lemma mem_foldl_renameRow_cases {l : List (ItemId × RelPath)} {x : SyncItem}
    (hx : x ∈ l.foldl (renameRow old new) t) :
    (x ∈ t ∧ ∀ sel ∈ l, sel.1 ≠ x.id) ∨
      ∃ sel ∈ l, sel.1 = x.id ∧ x.relativePath = RelPath.rebase old new sel.2 := by
  rcases mem_foldl_renameRow_from hx with hkept | ⟨sel, hsel, s, -, hid, rfl⟩
  · exact .inl hkept
  · exact .inr ⟨sel, hsel, hid.symm, rfl⟩

/-- Selected rows other than the row at the path itself move to longer paths than the new one. -/
lemma rebase_ne_of_likeBelow {p : RelPath} (h : old.likeBelow p = true) :
    RelPath.rebase old new p ≠ new := by
  simp only [RelPath.likeBelow, Bool.and_eq_true, decide_eq_true_eq] at h
  intro heq
  have hlen := congrArg List.length heq
  simp only [RelPath.rebase, List.length_append, List.length_drop] at hlen
  omega

/-- The row is listed before another one. -/
def Before (t : ItemTable) (s r : SyncItem) : Prop :=
  ∃ l₁ l₂, t.rows = l₁ ++ r :: l₂ ∧ s ∈ l₁

/-- The row at the new path moves away before the row at the old one is looked at: its path is
one that `LIKE` takes for one below the old path, which is in another letter case. -/
def MovesAway (t : ItemTable) (old : RelPath) (s r : SyncItem) : Prop :=
  old.likeBelow s.relativePath = true ∧ t.Before s r

/-- The rows that are looked at before the row and after it. -/
lemma renameAffected_split (hr : r ∈ t) (hpath : r.relativePath = old) {l₁ l₂ : List SyncItem}
    (hrows : t.rows = l₁ ++ r :: l₂) :
    ∃ k₁ k₂, t.renameAffected old = k₁ ++ (r.id, old) :: k₂ ∧
      (∀ sel ∈ k₁, sel.1 ≠ r.id ∧ ∃ s ∈ t, (s.id, s.relativePath) = sel ∧
        old.likeBelow s.relativePath = true) ∧ (∀ sel ∈ k₂, sel.1 ≠ r.id) ∧
      ∀ s ∈ t, s.id ≠ r.id → old.likeBelow s.relativePath = true →
        (s ∈ l₁ ↔ (s.id, s.relativePath) ∈ k₁) := by
  set keeps : SyncItem → Bool := fun s => s.relativePath = old || old.likeBelow s.relativePath
    with hkeeps
  set entry : SyncItem → ItemId × RelPath := fun s => (s.id, s.relativePath) with hentry
  have hself : keeps r = true := by simp [hkeeps, hpath]
  have hsplit : t.renameAffected old =
      (l₁.filter keeps).map entry ++ (r.id, old) :: (l₂.filter keeps).map entry := by
    simp only [renameAffected, hrows, List.filter_append, List.filter_cons]
    rw [← hkeeps, if_pos hself]
    simp [hentry, hpath]
  have hnodup := t.nodup_renameAffected old
  rw [hsplit, List.map_append, List.map_cons, List.nodup_append] at hnodup
  obtain ⟨-, hlast, hfirst⟩ := hnodup
  have hbefore : ∀ sel ∈ (l₁.filter keeps).map entry, sel.1 ≠ r.id :=
    fun sel hsel => hfirst sel.1 (List.mem_map_of_mem hsel) r.id (.head _)
  refine ⟨_, _, hsplit, fun sel hsel => ⟨hbefore sel hsel, ?_⟩, fun sel hsel heq => ?_,
    fun s hs hid hlike => ⟨fun hmem => ?_, fun hmem => ?_⟩⟩
  · obtain ⟨s, hs, rfl⟩ := List.mem_map.mp hsel
    obtain ⟨hmem, hkept⟩ := List.mem_filter.mp hs
    have hst : s ∈ t := mem_rows.mp (by rw [hrows]; exact List.mem_append_left _ hmem)
    refine ⟨s, hst, rfl, ?_⟩
    rcases (Bool.or_eq_true _ _).mp hkept with hsame | hlike
    · have hpaths : s.relativePath = r.relativePath := (of_decide_eq_true hsame).trans hpath.symm
      exact absurd (congrArg SyncItem.id (t.path_inj hst hr hpaths)) (hbefore _ hsel)
    · exact hlike
  · refine (List.nodup_cons.mp hlast).1 ?_
    show r.id ∈ _
    rw [← heq]
    exact List.mem_map_of_mem hsel
  · exact List.mem_map_of_mem (List.mem_filter.mpr ⟨hmem, by simp [hkeeps, hlike]⟩)
  · obtain ⟨s', hs', heq⟩ := List.mem_map.mp hmem
    have hmem' := (List.mem_filter.mp hs').1
    have hst : s' ∈ t := mem_rows.mp (by rw [hrows]; exact List.mem_append_left _ hmem')
    obtain rfl : s' = s := t.id_inj hst hs (congrArg Prod.fst heq)
    exact hmem'

/-- **The row arrives** where the rows at the new path move away before. -/
lemma renameSubtree_arrives (hr : r ∈ t) (hpath : r.relativePath = old) (hne : new ≠ old)
    (haway : ∀ s ∈ t, s.relativePath = new → t.MovesAway old s r) :
    { r with relativePath := new } ∈ t.renameSubtree old new := by
  obtain ⟨l₁, l₂, hrows, hlisted⟩ : ∃ l₁ l₂, t.rows = l₁ ++ r :: l₂ ∧
      ∀ s ∈ t, s.relativePath = new → s ∈ l₁ := by
    by_cases hsome : ∃ s ∈ t, s.relativePath = new
    · obtain ⟨s, hs, hsnew⟩ := hsome
      obtain ⟨-, l₁, l₂, hrows, hfirst⟩ := haway s hs hsnew
      refine ⟨l₁, l₂, hrows, fun s' hs' hsnew' => ?_⟩
      exact t.path_inj hs hs' (hsnew.trans hsnew'.symm) ▸ hfirst
    · obtain ⟨l₁, l₂, hrows⟩ := List.append_of_mem (mem_rows.mpr hr)
      exact ⟨l₁, l₂, hrows, fun s hs hsnew => absurd ⟨s, hs, hsnew⟩ hsome⟩
  obtain ⟨k₁, k₂, haffected, hfirst, hlast, hentry⟩ := renameAffected_split hr hpath hrows
  rw [renameSubtree, haffected, List.foldl_append, List.foldl_cons]
  set t₁ := k₁.foldl (renameRow old new) t
  have hkept : r ∈ t₁ := mem_foldl_renameRow_other hr fun sel hsel => (hfirst sel hsel).1.symm
  have hfree : ∀ s ∈ t₁, s.relativePath ≠ new := by
    intro s hs hsnew
    rcases mem_foldl_renameRow_cases hs with ⟨hst, hids⟩ | ⟨sel, hsel, -, hmoved⟩
    · have hid : s.id ≠ r.id := fun hid => hne (hsnew.symm.trans (t.id_inj hst hr hid ▸ hpath))
      exact hids _ ((hentry s hst hid (haway s hst hsnew).1).mp (hlisted s hst hsnew)) rfl
    · obtain ⟨-, s', -, rfl, hlike⟩ := hfirst sel hsel
      exact rebase_ne_of_likeBelow hlike (hmoved.symm.trans hsnew)
  refine mem_foldl_renameRow_other ?_ fun sel hsel => (hlast sel hsel).symm
  simp only [renameRow, RelPath.rebase_self]
  rw [if_neg (not_exists.mpr fun s h => hfree s h.1 h.2.1)]
  exact mem_setRelativePath.mpr (.inl ⟨r, hkept, rfl, rfl⟩)

/-- **The row is dropped** where a row at the new path does not move away before. -/
lemma renameSubtree_blocked (hr : r ∈ t) (hpath : r.relativePath = old) (hne : new ≠ old)
    {s : SyncItem} (hs : s ∈ t) (hsnew : s.relativePath = new) (hstays : ¬t.MovesAway old s r)
    {x : SyncItem} (hx : x ∈ t.renameSubtree old new) : x.id ≠ r.id := by
  obtain ⟨l₁, l₂, hrows⟩ := List.append_of_mem (mem_rows.mpr hr)
  obtain ⟨k₁, k₂, haffected, hfirst, hlast, hentry⟩ := renameAffected_split hr hpath hrows
  rw [renameSubtree, haffected, List.foldl_append, List.foldl_cons] at hx
  set t₁ := k₁.foldl (renameRow old new) t
  have hid : s.id ≠ r.id := fun hid => hne (hsnew.symm.trans (t.id_inj hs hr hid ▸ hpath))
  have hthere : s ∈ t₁ := by
    refine mem_foldl_renameRow_other hs fun sel hsel heq => hstays ?_
    obtain ⟨-, s', hs', rfl, hlike⟩ := hfirst sel hsel
    obtain rfl : s = s' := t.id_inj hs hs' heq
    exact ⟨hlike, l₁, l₂, hrows, (hentry s hs hid hlike).mpr hsel⟩
  have hdropped : renameRow old new t₁ (r.id, old) = t₁.delete r.id := by
    simp only [renameRow, RelPath.rebase_self]
    exact if_pos ⟨s, hthere, hsnew, hid⟩
  rw [hdropped] at hx
  rcases mem_foldl_renameRow_cases hx with ⟨hmem, -⟩ | ⟨sel, hsel, heq, -⟩
  · exact (mem_delete.mp hmem).2
  · exact heq ▸ hlast sel hsel

/-- The new path is that of no row where the row is dropped and the one at the new path moves. -/
lemma renameSubtree_vacated (hr : r ∈ t) (hpath : r.relativePath = old)
    (hlike : old.likeBelow new = true) {x : SyncItem} (hx : x ∈ t.renameSubtree old new)
    (hid : x.id ≠ r.id) : x.relativePath ≠ new := by
  intro hxnew
  rcases mem_foldl_renameRow_cases hx with ⟨hmem, hids⟩ | ⟨sel, hsel, heq, hmoved⟩
  · have hselected : Selected old x := .inr (hxnew ▸ hlike)
    exact hids _ (mem_renameAffected.mpr ⟨x, hmem, hselected, rfl⟩) rfl
  · obtain ⟨s, hs, hselected, rfl⟩ := mem_renameAffected.mp hsel
    rcases hselected with hsame | hbelow
    · exact hid (heq ▸ congrArg SyncItem.id (t.path_inj hs hr (hsame.trans hpath.symm)))
    · exact rebase_ne_of_likeBelow hbelow (hmoved.symm.trans hxnew)

end ItemTable

/-- Files elsewhere are spared when a file is renamed. -/
lemma Fs.file_rename_other {fs fs' : Fs} {old new p : RelPath} {b b' : Bytes}
    (hold : fs.node old = some (.file b)) (h : fs.rename old new = .ok fs')
    (hp : fs.node p = some (.file b')) (hpold : p ≠ old) (hpnew : p ≠ new) :
    fs'.node p = some (.file b') := by
  have houtold : ¬old <+: p := by
    rintro ⟨rest, rfl⟩
    cases rest with
    | nil => simp at hpold
    | cons x q =>
      have hdir := fs.dir_of_below (p := old) (x := x) (q := q) (by simp [hp])
      simp [hold] at hdir
  unfold rename at h
  split_ifs at h with hnone hparent hdir hsame hmov hbare
  · obtain rfl := Except.ok.inj h
    exact hp
  · split at h
    · cases h
    · cases h
    · obtain rfl := Except.ok.inj h
      rw [node_moveTree_fixed houtold, hp]
      rintro ⟨rest, rfl⟩
      cases rest with
      | nil => simp at hpnew
      | cons x q => simp [node_eq_none_of_bare hbare q x] at hp
  · split at h <;> cases h

namespace FileRename

open Dispatcher

variable {env : Env} {root R : FileId} {op : PendingOperation} {r : SyncItem} {new : RelPath}
  {b : Bytes} {w w' : World}

/-- The file of the object `R` with the bytes `b` has moved from one path to another, and nothing
else is lost. -/
structure Exact (R : FileId) (old new : RelPath) (b : Bytes) (w w' : World) : Prop where
  /-- A live row is at the new path, bound to the object. -/
  row : ∃ s ∈ w'.db.items, s.relativePath = new ∧ s.remoteId = some R ∧ s.trashedAt = none
  /-- It is the only row there. -/
  alone : ∀ s ∈ w'.db.items, ∀ s' ∈ w'.db.items,
    s.relativePath = new → s'.relativePath = new → s = s'
  /-- No row is left at the old path. -/
  left : ∀ s ∈ w'.db.items, s.relativePath ≠ old
  /-- The bytes are at the new path. -/
  bytes : w'.fs.node new = some (.file b)
  /-- Every other file is as it was. -/
  spared : ∀ p b', p ≠ old → w.fs.node p = some (.file b') → w'.fs.node p = some (.file b')

/-- Nothing is in the way: on disk no file with other bytes, and no row but one that moves away
before the row of the file is looked at. Or else the row at the new path is itself a live row of
the object, for it is the one that stays. -/
structure Clear (r : SyncItem) (R : FileId) (new : RelPath) (b : Bytes) (w : World) : Prop where
  other : new ≠ r.relativePath
  disk : ∀ b', w.fs.node new = some (.file b') → b' = b
  rows : (r.trashedAt = none ∧ ∀ s ∈ w.db.items, s.relativePath = new →
      w.db.items.MovesAway r.relativePath s r) ∨
    ∃ s ∈ w.db.items, s.relativePath = new ∧ r.relativePath.likeBelow new = false ∧
      s.remoteId = some R ∧ s.trashedAt = none

/-- What executing the operation does when it succeeds. -/
lemma ends_execute (hop : op.op = .renameLocal) (hid : op.syncItemId = r.id)
    (hpayload : op.payload = some (.rename ⟨new⟩)) (hr : r ∈ w.db.items)
    (hfile : w.fs.node r.relativePath = some (.file b)) :
    Ends env (fun x w' => x = .ok () → ∃ fs₁, w.fs.createDirAll new.parentDir = .ok fs₁ ∧
        fs₁.rename r.relativePath new = .ok w'.fs ∧
        w'.db.items = w.db.items.renameSubtree r.relativePath new)
      (execute env root op) w := by
  have hget : w.db.items.getById op.syncItemId = some r :=
    ItemTable.getById_eq_some.mpr ⟨hr, hid.symm⟩
  simp only [execute, Prog.bind_eq, Ends, Prog.safe_bind, safe_sql, DbCall.run, hget, true_and,
    forall_const]
  simp only [executeItem, hop, executeRenameLocal, hpayload, decodePayload, Payload.asRename,
    Prog.bind_eq, Prog.ofExcept_ok, Prog.pure_bind]
  rw [Prog.safe_bind, safe_ioTry]
  cases hmade : w.fs.createDirAll new.parentDir with
  | error e =>
    simp only [FsCall.run, hmade, FsCall.commit]
    exact fun _ => ⟨trivial, by intros; contradiction⟩
  | ok fs₁ =>
    have hparent : fs₁.node new.parentDir = some .dir := Fs.dir_of_createDirAll hmade
    have hfile₁ : fs₁.node r.relativePath = some (.file b) :=
      (Fs.file_createDirAll_iff hmade).mpr hfile
    simp only [FsCall.run, hmade, FsCall.commit]
    refine fun _ => ⟨trivial, ?_⟩
    simp only [moveLocal, Prog.bind_eq, Prog.safe_bind, safe_io, FsCall.run, true_and, forall_const]
    cases hren : fs₁.rename r.relativePath new with
    | ok fs₂ =>
      simpa [FsCall.commit, DbCall.run] using hren
    | error e =>
      have he := Fs.rename_file_error hfile₁ hparent hren
      have hfails : e ≠ .io .notFound ∧ ¬(e = .io .directoryNotEmpty ∨ e = .io .alreadyExists) := by
        rcases he with rfl | rfl <;> decide
      simp only [FsCall.commit]
      rw [if_neg hfails.1, if_neg hfails.2]
      exact fun h => by cases h

/-- **The row is right exactly when no row is in the way.** -/
lemma row_iff (hr : r ∈ w.db.items) (hremote : r.remoteId = some R) (hne : new ≠ r.relativePath) :
    (∃ s ∈ w.db.items.renameSubtree r.relativePath new,
        s.relativePath = new ∧ s.remoteId = some R ∧ s.trashedAt = none) ↔
      (r.trashedAt = none ∧ ∀ s ∈ w.db.items, s.relativePath = new →
        w.db.items.MovesAway r.relativePath s r) ∨
      ∃ s ∈ w.db.items, s.relativePath = new ∧ r.relativePath.likeBelow new = false ∧
        s.remoteId = some R ∧ s.trashedAt = none := by
  by_cases haway : ∀ s ∈ w.db.items, s.relativePath = new →
      w.db.items.MovesAway r.relativePath s r
  · have harrives := ItemTable.renameSubtree_arrives hr rfl hne haway
    constructor
    · rintro ⟨x, hx, hxnew, -, hlive⟩
      have hsame := (w.db.items.renameSubtree r.relativePath new).path_inj harrives hx hxnew.symm
      exact .inl ⟨by rw [← hsame] at hlive; exact hlive, haway⟩
    · rintro (⟨hlive, -⟩ | ⟨s, hs, hsnew, hnot, -⟩)
      · exact ⟨_, harrives, rfl, hremote, hlive⟩
      · have hlike := (haway s hs hsnew).1
        rw [hsnew, hnot] at hlike
        cases hlike
  · have hblock : ∃ s ∈ w.db.items, s.relativePath = new ∧
        ¬w.db.items.MovesAway r.relativePath s r := by
      simpa using haway
    obtain ⟨s, hs, hsnew, hstays⟩ := hblock
    have hgone : ∀ x ∈ w.db.items.renameSubtree r.relativePath new, x.id ≠ r.id :=
      fun x hx => ItemTable.renameSubtree_blocked hr rfl hne hs hsnew hstays hx
    constructor
    · rintro ⟨x, hx, hxnew, hbound, hlive⟩
      cases hlike : r.relativePath.likeBelow new with
      | true =>
        exact absurd hxnew (ItemTable.renameSubtree_vacated hr rfl hlike hx (hgone x hx))
      | false =>
        have hnot : ¬ItemTable.Selected r.relativePath s := by
          rintro (hsame | hbelow)
          · exact hne (hsnew.symm.trans hsame)
          · rw [hsnew, hlike] at hbelow
            cases hbelow
        have hkept := @ItemTable.mem_renameSubtree_other _ new _ _ hs hnot
        have hsame := (w.db.items.renameSubtree r.relativePath new).path_inj hx hkept
          (hxnew.trans hsnew.symm)
        subst hsame
        exact .inr ⟨x, hs, hsnew, rfl, hbound, hlive⟩
    · rintro (⟨-, haway'⟩ | ⟨s', hs', hsnew', hnot, hbound, hlive⟩)
      · exact absurd haway' haway
      · have hstill : ¬ItemTable.Selected r.relativePath s' := by
          rintro (hsame | hbelow)
          · exact hne (hsnew'.symm.trans hsame)
          · rw [hsnew', hnot] at hbelow
            cases hbelow
        exact ⟨s', ItemTable.mem_renameSubtree_other hs' hstill, hsnew', hbound, hlive⟩

/-- No row is at the old path afterwards: what moves there would lie below the file. -/
lemma left_of_rename {fs fs' : Fs} (hne : new ≠ r.relativePath)
    (hfile : fs.node r.relativePath = some (.file b)) (hok : fs.rename r.relativePath new = .ok fs')
    {x : SyncItem} (hx : x ∈ w.db.items.renameSubtree r.relativePath new) :
    x.relativePath ≠ r.relativePath := by
  intro hpath
  rcases ItemTable.mem_foldl_renameRow_cases hx with ⟨hmem, hids⟩ | ⟨sel, hsel, -, hmoved⟩
  · exact hids _ (ItemTable.mem_renameAffected.mpr ⟨x, hmem, .inl hpath, rfl⟩) rfl
  · -- the new path is above the old one, so that a directory is there
    have habove : r.relativePath = new ++ sel.2.drop r.relativePath.length :=
      hpath.symm.trans hmoved
    cases hrest : sel.2.drop r.relativePath.length with
    | nil => exact hne (by rw [habove, hrest, List.append_nil])
    | cons y q =>
      rw [hrest] at habove
      have hdir : fs.node new = some .dir :=
        fs.dir_of_below (x := y) (q := q) (by rw [← habove, hfile]; simp)
      have hout : ¬r.relativePath <+: new := by
        intro h
        have hle := h.length_le
        have hlen := congrArg List.length habove
        simp only [List.length_append, List.length_cons] at hlen
        omega
      obtain ⟨e, he⟩ := Fs.rename_file_dir hfile hout hdir
      rw [he] at hok
      cases hok

/-- Another client renames `a.txt`, and the change arrives. -/
def renamedElsewhere (name : String) (w : World) : World :=
  performAll .plain
    [.outside { w with
        remote := ⟨(DriveCall.run Env.plain.md5 (.patchFile (.id 3) name none) w.remote.drive).2,
          w.remote.faults⟩ },
      .job (.batch ⟨[⟨.id 3, false,
        some ⟨.id 3, name, "text/plain", some 1, some (Env.plain.md5 [65]), [.id 2], false⟩,
        some [name]⟩], 2⟩) 100] w

/-- The row of `a.txt`. -/
def sampleRow : SyncItem :=
  ⟨1, ["a.txt"], .file, some (.id 3), some 1, some "A", .pendingLocal, none⟩

/-- The operation that replays the rename. -/
def sampleOp (name : String) : PendingOperation :=
  ⟨3, 1, .renameLocal, some (.rename ⟨[name]⟩), 0, 0⟩

example : sampleOp "b.txt" ∈ (renamedElsewhere "b.txt" Orphans.twoArrived).db.ops.rows := by
  decide +kernel

end FileRename

end AirDrive
