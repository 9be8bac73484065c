import AirDrive.Daemon.Dispatcher
import AirDrive.Local.Merge
import AirDrive.State.Subtree

set_option relaxedAutoImplicit false
set_option autoImplicit false

/-!
# Moving a folder into another one

When the destination of a `RenameLocal` is a populated directory, the daemon merges the two
directories and rewrites the rows. On disk the source wins: its file replaces the one at the
destination. In the database the destination wins: `rename_subtree` drops the row that would move to
a path which has one. So the two agree exactly where the row at the destination names the object
that the file of the source belongs to.

## Main definitions

* `AirDrive.Merging.Agree` — the files below a directory belong to the objects of their rows.
* `AirDrive.Merging.Describes` — the rows describe the subtree at a directory.
* `AirDrive.Merging.Merges` — a renaming that goes through a merge.

## Main results

* `AirDrive.Merging.agree_iff` — when disk and rows agree after a merge.
-/

namespace AirDrive.Merging

open Effect Dispatcher ItemTable

/-- The bytes of every file below the directory belong to the object that its row names. -/
def Agree (belongs : Option FileId → Bytes → Prop) (fs : Fs) (t : ItemTable) (dir : RelPath) : Prop :=
  ∀ q b, fs.node (dir ++ q) = some (.file b) →
    ∃ r ∈ t, r.relativePath = dir ++ q ∧ belongs r.remoteId b

/-- The rows below the directory describe what is there. -/
structure Describes (belongs : Option FileId → Bytes → Prop) (fs : Fs) (t : ItemTable)
    (dir : RelPath) : Prop where
  files : Agree belongs fs t dir
  nodes : ∀ r ∈ t, dir <+: r.relativePath → fs.node r.relativePath ≠ none

/-- A populated directory is at the destination, neither directory is inside the other, the rows
describe both, and a row that the renaming selects is one of the source or stays where it is. -/
structure Merges (belongs : Option FileId → Bytes → Prop) (w : World) (old new : RelPath) :
    Prop where
  populated : w.fs.rename old new = .error (.io .directoryNotEmpty)
  apart : ¬new <+: old
  source : Describes belongs w.fs w.db.items old
  target : Describes belongs w.fs w.db.items new
  own : ∀ r ∈ w.db.items, Selected old r →
    old <+: r.relativePath ∨ RelPath.rebase old new r.relativePath = r.relativePath

section Merge

variable {env : Env} {belongs : Option FileId → Bytes → Prop} {fs : Fs} {t : ItemTable} {w : World}
  {old new q : RelPath} {r : SyncItem}

/-- A rename that meets a populated directory is one of directories. -/
lemma dirs_of_populated (h : fs.rename old new = .error (.io .directoryNotEmpty)) :
    fs.node old = some .dir ∧ fs.node new = some .dir ∧ fs.node new.dropLast = some .dir ∧
      ¬old <+: new := by
  unfold Fs.rename at h
  split_ifs at h with hold hnone hparent hsame hmove hbare
  any_goals cases h
  · split at h <;> cases h
  · have hnew : fs.node new = some .dir := by
      by_contra hne
      exact hbare (Fs.bare_of_ne_dir hne)
    refine ⟨?_, hnew, hmove.2.1, hmove.2.2⟩
    rw [hnew] at h
    cases hisDir : fs.isDir old with
    | false =>
      rw [hisDir] at h
      cases h
    | true => exact Fs.isDir_iff.mp hisDir

/-- **A renaming that goes through a merge**, if it succeeds: nothing of another kind was in the way,
everything has moved, and the rows were rewritten. -/
lemma merged (h : Merges belongs w old new) {item : SyncItem} {payload : Option Payload}
    {p : RenamePayload} (hp : decodePayload Payload.asRename payload = .ok p)
    (hold : item.relativePath = old) (hnew : p.newRelativePath = new)
    (hok : ((executeRenameLocal item payload).run (handle env) w).1 = .ok ()) :
    Fs.Alike w.fs old new ∧
      Fs.Moved (fun _ => True) old new w.fs
        ((executeRenameLocal item payload).run (handle env) w).2.fs ∧
      ((executeRenameLocal item payload).run (handle env) w).2.db.items =
        w.db.items.renameSubtree old new := by
  obtain ⟨hsrc, hdst, hparent, hout⟩ := dirs_of_populated h.populated
  have hapart : Fs.Apart old new := ⟨hout, h.apart⟩
  have hmade : (FsCall.createDirAll new.parentDir).run w.fs = (.ok (), w.fs) := by
    simp only [FsCall.run, RelPath.parentDir, Fs.createDirAll_of_dir hparent, FsCall.commit]
  have hrename : (FsCall.rename old new).run w.fs = (.error (.io .directoryNotEmpty), w.fs) := by
    simp only [FsCall.run, h.populated, FsCall.commit]
  have hne : Error.io IoKind.directoryNotEmpty ≠ .io .notFound := by decide
  simp only [executeRenameLocal, moveLocal, hp, hold, hnew, Prog.bind_eq, Prog.ofExcept_ok,
    Prog.pure_bind, ioTry, io, sql, Prog.call_bind, Prog.lift_bind, Prog.run_call, handle_fs, hmade,
    hrename, hne, if_false, true_or, if_true] at hok ⊢
  generalize hres : (FsCall.mergeMoveDir old new).run w.fs = x at hok ⊢
  obtain ⟨res, fs'⟩ := x
  cases res with
  | error e => cases hok
  | ok u =>
    have hmerge : w.fs.mergeMoveDirIn Fs.children old new = (.ok (), fs') :=
      (Fs.mergeMoveDir_eq w.fs old new).symm.trans hres
    have halike := Fs.alike_of_mergeMoveDirIn Fs.listing_children hsrc hdst hapart (by rw [hmerge])
    obtain ⟨fs'', hok', hmoved⟩ :=
      Fs.moved_mergeMoveDirIn Fs.listing_children hsrc hdst hapart halike
    obtain rfl : fs' = fs'' := congrArg Prod.snd (hmerge.symm.trans hok')
    exact ⟨halike, hmoved, rfl⟩

/-! ### The rows -/

/-- A row at the destination stays. -/
lemma mem_renamed_of_target (h : Merges belongs w old new) (hr : r ∈ w.db.items)
    (hpath : r.relativePath = new ++ q) : r ∈ w.db.items.renameSubtree old new := by
  have hapart : Fs.Apart old new := ⟨(dirs_of_populated h.populated).2.2.2, h.apart⟩
  by_cases hselected : Selected old r
  · refine mem_foldl_renameRow_stays hr fun sel hsel hid => ?_
    obtain ⟨s, hs, -, rfl⟩ := mem_renameAffected.mp hsel
    obtain rfl := w.db.items.id_inj hs hr hid
    refine (h.own s hr hselected).resolve_left fun hinside => ?_
    rw [hpath] at hinside
    exact hapart.append [] q (by simpa using hinside)
  · exact mem_renameSubtree_other hr hselected

/-- The rows of a directory are selected. -/
lemma selected_of_prefix (hne : old ≠ []) (h : old <+: r.relativePath) : Selected old r := by
  obtain ⟨q, hq⟩ := h
  cases q with
  | nil => exact .inl (by simpa using hq.symm)
  | cons x q =>
    refine .inr ?_
    simp only [RelPath.likeBelow, hne, ne_eq, not_false_eq_true, decide_true, Bool.true_and,
      Bool.and_eq_true, List.isPrefixOf_iff_prefix, decide_eq_true_eq]
    rw [← hq, List.map_append, List.length_append, List.length_cons]
    exact ⟨List.prefix_append _ _, by omega⟩

/-- A row of the source moves when there is none at its destination. -/
lemma mem_renamed_of_source (h : Merges belongs w old new) (hr : r ∈ w.db.items)
    (hpath : r.relativePath = old ++ q) (hfree : ∀ s ∈ w.db.items, s.relativePath ≠ new ++ q) :
    { r with relativePath := new ++ q } ∈ w.db.items.renameSubtree old new := by
  have hne : old ≠ [] := fun hnil =>
    (dirs_of_populated h.populated).2.2.2 (hnil ▸ List.nil_prefix)
  have hnew : RelPath.rebase old new r.relativePath = new ++ q := by
    rw [hpath, RelPath.rebase_append]
  have hselected : Selected old r := selected_of_prefix hne (hpath ▸ List.prefix_append old q)
  rw [← hnew]
  refine mem_renameSubtree_moved hr hselected (fun s hs heq => ?_) fun s hs hs' heq => ?_
  · exact absurd (heq.trans hnew) (hfree s hs)
  · rcases h.own s hs hs' with ⟨q', hq'⟩ | hstays
    · have hdest : new ++ q' = new ++ q := by
        rw [← RelPath.rebase_append old new q', hq', heq, hnew]
      rw [List.append_cancel_left hdest] at hq'
      exact congrArg SyncItem.id (w.db.items.path_inj hs hr (hq'.symm.trans hpath.symm))
    · exact absurd (hstays.symm.trans (heq.trans hnew)) (hfree s hs)

/-- **Disk and rows agree after a merge** exactly when, wherever a file meets a file, the row at the
destination names the object that the file of the source belongs to. -/
theorem agree_iff (env : Env) (belongs : Option FileId → Bytes → Prop) (item : SyncItem)
    (payload : Option Payload) (p : RenamePayload)
    (hp : decodePayload Payload.asRename payload = .ok p) (w : World)
    (h : Merges belongs w item.relativePath p.newRelativePath)
    (hok : ((executeRenameLocal item payload).run (handle env) w).1 = .ok ()) :
    Agree belongs ((executeRenameLocal item payload).run (handle env) w).2.fs
        ((executeRenameLocal item payload).run (handle env) w).2.db.items p.newRelativePath ↔
      ∀ q b b', w.fs.node (item.relativePath ++ q) = some (.file b) →
        w.fs.node (p.newRelativePath ++ q) = some (.file b') →
          ∀ r ∈ w.db.items, r.relativePath = p.newRelativePath ++ q → belongs r.remoteId b := by
  obtain ⟨halike, hmoved, hitems⟩ := merged h hp rfl rfl hok
  rw [hitems]
  constructor
  · intro hagree q b b' hsrc hdst r hr hpath
    have hwinner : ((executeRenameLocal item payload).run (handle env) w).2.fs.node
        (p.newRelativePath ++ q) = some (.file b) := by
      rw [hmoved.arrived q trivial, hsrc, Option.some_or]
    obtain ⟨s, hs, hspath, hbelongs⟩ := hagree q b hwinner
    have hkept := mem_renamed_of_target h hr hpath
    obtain rfl := (w.db.items.renameSubtree _ _).path_inj hs hkept (hspath.trans hpath.symm)
    exact hbelongs
  · intro hsame q b hafter
    rw [hmoved.arrived q trivial] at hafter
    cases hdst : w.fs.node (p.newRelativePath ++ q) with
    | none =>
      rw [hdst, Option.or_none] at hafter
      obtain ⟨r, hr, hpath, hbelongs⟩ := h.source.files q b hafter
      refine ⟨_, mem_renamed_of_source h hr hpath fun s hs hspath => ?_, rfl, hbelongs⟩
      exact h.target.nodes s hs (hspath ▸ List.prefix_append _ _) (hspath ▸ hdst)
    | some n =>
      cases hsrc : w.fs.node (item.relativePath ++ q) with
      | none =>
        rw [hsrc, Option.none_or] at hafter
        obtain ⟨r, hr, hpath, hbelongs⟩ := h.target.files q b hafter
        exact ⟨r, mem_renamed_of_target h hr hpath, hpath, hbelongs⟩
      | some m =>
        rw [hsrc, Option.some_or] at hafter
        obtain rfl := Option.some.inj hafter
        cases n with
        | dir => exact absurd ((halike q _ _ hsrc hdst).mpr rfl) nofun
        | file b' =>
          obtain ⟨r, hr, hpath, -⟩ := h.target.files q b' hdst
          exact ⟨r, mem_renamed_of_target h hr hpath, hpath, hsame q b b' hsrc hdst r hr hpath⟩

end Merge

/-! ## Two folders with a file each -/

/-- `docs` with a file `a.txt`, and `documents` with another file. -/
def sampleMerge (name : String) : World :=
  { World.fresh ⟨Data.Serial.empty, 1, []⟩ with
    fs := ((FsCall.writeFile ["documents", name] [66]).run
      ((FsCall.writeFile ["docs", "a.txt"] [65]).run
        ((FsCall.createDirAll ["documents"]).run
          ((FsCall.createDirAll ["docs"]).run Fs.empty).2).2).2).2
    db := [(["docs"], ItemKind.dir, 1), (["documents"], .dir, 2), (["docs", "a.txt"], .file, 3),
        (["documents", name], .file, 4)].foldl
      (fun db x => (DbCall.run (.insertItem ⟨x.1, x.2.1, some (.id x.2.2), none, none, .synced⟩) db).2)
      Db.empty }

/-- The row of `docs`. -/
def sampleDocs : SyncItem := ⟨1, ["docs"], .dir, some (.id 1), none, none, .synced, none⟩

/-- Object 3 has the content of the one file and object 4 that of the other. -/
def sampleBelongs (id : Option FileId) (b : Bytes) : Prop :=
  (id, b) ∈ [(some (FileId.id 3), [65]), (some (FileId.id 4), [66])]

/-- Subtrees are described if the rows fit all nodes. -/
lemma describes_of_rows {belongs : Option FileId → Bytes → Prop} {fs : Fs} {t : ItemTable}
    {dir : RelPath}
    (hfiles : ∀ x ∈ fs.nodes.rows, x.2 = .dir ∨ ∃ r ∈ t.rows, r.relativePath = x.1 ∧
      ∀ b, x.2 = .file b → belongs r.remoteId b)
    (hnodes : ∀ r ∈ t.rows, fs.node r.relativePath ≠ none) : Describes belongs fs t dir := by
  refine ⟨fun q b hnode => ?_, fun r hr _ => hnodes r (ItemTable.mem_rows.mpr hr)⟩
  have hne : dir ++ q ≠ [] := by
    intro hnil
    rw [hnil, Fs.node_nil] at hnode
    cases hnode
  rw [Fs.node_of_ne_nil _ hne] at hnode
  rcases hfiles _ (Data.FinMap.val_eq_some.mp hnode) with hdir | ⟨r, hr, hpath, hbelongs⟩
  · cases hdir
  · exact ⟨r, ItemTable.mem_rows.mp hr, hpath, hbelongs b rfl⟩

/-- The sample with `name` for the file in `documents`. -/
lemma sampleMerge_merges {name : String} (hname : name = "a.txt" ∨ name = "b.txt") :
    Merges sampleBelongs (sampleMerge name) ["docs"] ["documents"] := by
  have hdescribes : ∀ dir, Describes sampleBelongs (sampleMerge name).fs
      (sampleMerge name).db.items dir := by
    intro dir
    refine describes_of_rows (fun x hx => ?_) ?_
    · have hrows : ∀ x ∈ (sampleMerge name).fs.nodes.rows, x.2 = .dir ∨
          ∃ r ∈ (sampleMerge name).db.items.rows, r.relativePath = x.1 ∧
            (r.remoteId, x.2) ∈ [(some (FileId.id 3), Node.file [65]), (some (.id 4), .file [66])] := by
        rcases hname with rfl | rfl <;> decide +kernel
      refine (hrows x hx).imp id fun ⟨r, hr, hpath, hmem⟩ => ⟨r, hr, hpath, fun b hb => ?_⟩
      rw [hb] at hmem
      simpa [sampleBelongs] using hmem
    · rcases hname with rfl | rfl <;> decide +kernel
  refine ⟨?_, by decide, hdescribes _, hdescribes _, fun r hr hselected => .inl ?_⟩
  · rcases hname with rfl | rfl <;> rfl
  · have hrows : ∀ r ∈ (sampleMerge name).db.items.rows, Selected ["docs"] r →
        ["docs"] <+: r.relativePath := by
      rcases hname with rfl | rfl <;> decide +kernel
    exact hrows r (ItemTable.mem_rows.mpr hr) hselected

/-- Files of different names do not meet. -/
theorem apart_agree :
    Agree sampleBelongs
      ((executeRenameLocal sampleDocs (some (.rename ⟨["documents"]⟩))).run (handle .plain)
        (sampleMerge "b.txt")).2.fs
      ((executeRenameLocal sampleDocs (some (.rename ⟨["documents"]⟩))).run (handle .plain)
        (sampleMerge "b.txt")).2.db.items ["documents"] := by
  refine (agree_iff .plain sampleBelongs sampleDocs (some (.rename ⟨["documents"]⟩)) ⟨["documents"]⟩
    rfl (sampleMerge "b.txt") (sampleMerge_merges (.inr rfl)) (by decide +kernel)).mpr ?_
  intro q b b' hsrc hdst r hr hpath
  have hrows : ∀ x ∈ (sampleMerge "b.txt").fs.nodes.rows,
      ∀ y ∈ (sampleMerge "b.txt").fs.nodes.rows, x.1.head? = some "docs" →
        y.1.head? = some "documents" → x.1.tail = y.1.tail → x.2 = .dir := by
    decide +kernel
  have hdir := hrows (["docs"] ++ q, .file b) (Data.FinMap.val_eq_some.mp hsrc)
    (["documents"] ++ q, .file b') (Data.FinMap.val_eq_some.mp hdst) rfl rfl rfl
  cases hdir

/-- Of two files of one name the one of the source stays, with the row of the other one. -/
theorem winners_differ :
    ¬∀ (env : Env) (belongs : Option FileId → Bytes → Prop) (item : SyncItem)
      (payload : Option Payload) (p : RenamePayload),
      decodePayload Payload.asRename payload = .ok p → ∀ w : World,
      Merges belongs w item.relativePath p.newRelativePath →
      ((executeRenameLocal item payload).run (handle env) w).1 = .ok () →
        Agree belongs ((executeRenameLocal item payload).run (handle env) w).2.fs
          ((executeRenameLocal item payload).run (handle env) w).2.db.items p.newRelativePath := by
  intro h
  have hagree := h .plain sampleBelongs sampleDocs (some (.rename ⟨["documents"]⟩)) ⟨["documents"]⟩
    rfl (sampleMerge "a.txt") (sampleMerge_merges (.inl rfl)) (by decide +kernel)
  obtain ⟨r, hr, hpath, hbelongs⟩ := hagree ["a.txt"] [65] (by decide +kernel)
  have hrow : ∀ r ∈ ((executeRenameLocal sampleDocs (some (.rename ⟨["documents"]⟩))).run
      (handle .plain) (sampleMerge "a.txt")).2.db.items.rows,
      r.relativePath = ["documents", "a.txt"] → r.remoteId = some (.id 4) := by
    decide +kernel
  rw [hrow r (ItemTable.mem_rows.mpr hr) hpath] at hbelongs
  simp [sampleBelongs] at hbelongs

end AirDrive.Merging
