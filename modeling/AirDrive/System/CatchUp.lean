import AirDrive.System.Offline

set_option relaxedAutoImplicit false
set_option autoImplicit false

/-!
# The startup catch-up

The operations that the startup scan has queued, executed by the dispatcher one after the other:
each keeps the invariant of the replay, and takes one row to where it belongs. Once nothing is
queued, the Drive tree equals the local tree.

## Main definitions

* `AirDrive.CatchUp.Orderly` — requests fail without taking effect, and not for lack of permission.
* `AirDrive.CatchUp.Settled` — a row that waits for nothing.
* `AirDrive.CatchUp.Offline`, `AirDrive.CatchUp.Replays` — what happens while the daemon is
  stopped, and the drain of the queue after the scan.

## Main results

* `AirDrive.CatchUp.Inv.drain` — a step of the dispatcher keeps the invariant.
* `AirDrive.CatchUp.replay_mirrors` — after the catch-up Drive mirrors the local tree.
-/

namespace AirDrive.CatchUp

open Effect Outcomes

variable {env : Env} {root : FileId} {w₀ w w' : World} {F : Fs} {T : RelPath → Prop}
  {r : SyncItem} {p : RelPath}

/-! ## The connection -/

/-- Requests fail without taking effect, and not for lack of permission. -/
def Orderly (r : Remote) : Prop :=
  ∀ x ∈ r.faults, ∀ f, x = some f → ∃ e, f = .failed e ∧ e.isInsufficientPermissions = false

lemma Orderly.send {α : Type} {md5 : Bytes → String} {c : DriveCall α} {r : Remote}
    (h : Orderly r) : Orderly (r.send md5 c).2 ∧
      (((r.send md5 c).1 = (c.run md5 r.drive).1 ∧
          (r.send md5 c).2.drive = (c.run md5 r.drive).2) ∨
        ∃ e, (r.send md5 c).1 = .error e ∧ e.isInsufficientPermissions = false ∧
          (r.send md5 c).2.drive = r.drive) := by
  obtain ⟨d, faults⟩ := r
  match faults, h with
  | [], _ => exact ⟨fun x hx => (by cases hx), .inl ⟨rfl, rfl⟩⟩
  | none :: rest, h => exact ⟨fun x hx => h x (.tail _ hx), .inl ⟨rfl, rfl⟩⟩
  | some f :: rest, h =>
    obtain ⟨e, rfl, he⟩ := h _ (.head _) f rfl
    exact ⟨fun x hx => h x (.tail _ hx), .inr ⟨e, rfl, he, rfl⟩⟩

/-! ## Frames -/

/-- A row that waits for nothing. -/
structure Settled (env : Env) (root : FileId) (F : Fs) (w : World) (r : SyncItem) : Prop where
  file : Tracked r → Seen env r.relativePath →
    ∃ b, F.node r.relativePath = some (.file b) ∧ Placed env root r b w
  dir : r.kind = .dir → Seen env r.relativePath →
    ∃ n, FolderAt w.remote.drive root r.relativePath n

/-- The rows, the local tree and the objects on Drive are the same. -/
lemma Inv.congr (h : Inv env root w₀ F T w) (hdb : w'.db = w.db) (hfs : w'.fs = w.fs)
    (hdrive : w'.remote.drive = w.remote.drive) : Inv env root w₀ F T w' := by
  refine ⟨hfs.trans h.fs, hdrive ▸ h.tree, hdrive ▸ h.folders, ?_, fun r hr => ?_, hdb ▸ h.only,
    hdb ▸ h.ops, hdb ▸ h.nodes⟩
  · rw [hdb, hdrive]
    exact h.objects
  · rw [hdb] at hr
    exact (h.rows r hr).same hdrive (fun op => by rw [Queued, Queued, hdb]; exact id) id

/-- The retry data of the queue does not matter. -/
lemma Inv.retried (h : Inv env root w₀ F T w) (hr : Retried w w') : Inv env root w₀ F T w' := by
  refine ⟨hr.fs.trans h.fs, hr.drive ▸ h.tree, hr.drive ▸ h.folders, ?_, fun r hmem => ?_,
    hr.items ▸ h.only, fun o' ho' => ?_, hr.items ▸ h.nodes⟩
  · rw [hr.items, hr.drive]
    exact h.objects
  · rw [hr.items] at hmem
    refine (h.rows r hmem).same (by rw [hr.drive]) (fun op ⟨o, ho, hop, hid⟩ => ?_) id
    obtain ⟨o', ho', -, hsame, hop', -⟩ := hr.ops o ho
    exact ⟨o', ho', hop'.symm.trans hop, hsame.symm.trans hid⟩
  · obtain ⟨o, ho, -, hsame, hop, -⟩ := hr.ops' o' ho'
    rw [hr.items, ← hop, ← hsame]
    exact h.ops o ho

/-- A row that waits for nothing does not need the queue. -/
lemma RowOk.settled (h : RowOk env root w₀ F T w r) (hs : Settled env root F w r)
    (hdrive : w'.remote.drive = w.remote.drive) : RowOk env root w₀ F T w' r := by
  refine ⟨h.inside, hdrive ▸ h.bound, h.skipped, fun hkind hp => ?_, h.file, h.tomb,
    fun ht hp => ?_, hdrive ▸ h.regular⟩
  · obtain ⟨hlive, hdir, -⟩ := h.dir hkind hp
    rw [hdrive]
    exact ⟨hlive, hdir, .inl (hs.dir hkind hp)⟩
  · obtain ⟨b, hfile, hplaced⟩ := hs.file ht hp
    refine .placed b hfile ⟨hplaced.print, ?_⟩
    rw [hdrive]
    exact hplaced.object

/-- An operation whose row is settled is taken from the queue. -/
lemma Inv.completed {id : OpId} (h : Inv env root w₀ F T w) (hc : Completed id w w')
    (hsettled : ∀ o ∈ w.db.ops, o.id = id → ∀ r ∈ w.db.items, r.id = o.syncItemId →
      Settled env root F w r) : Inv env root w₀ F T w' := by
  refine ⟨hc.fs.trans h.fs, hc.drive ▸ h.tree, hc.drive ▸ h.folders, ?_, fun r hmem => ?_,
    hc.items ▸ h.only, fun o ho => ?_, hc.items ▸ h.nodes⟩
  · rw [hc.items, hc.drive]
    exact h.objects
  · rw [hc.items] at hmem
    have hrow := h.rows r hmem
    by_cases hmine : ∃ o ∈ w.db.ops, o.id = id ∧ o.syncItemId = r.id
    · obtain ⟨o, ho, hid, hitem⟩ := hmine
      exact hrow.settled (hsettled o ho hid r hmem hitem.symm) (by rw [hc.drive])
    · refine hrow.same (by rw [hc.drive]) (fun op' ⟨o, ho, hop, hid⟩ => ?_) fun hT => hT
      exact ⟨o, (hc.ops o).mpr ⟨ho, fun heq => hmine ⟨o, ho, heq, hid⟩⟩, hop, hid⟩
  · rw [hc.items]
    exact h.ops o ((hc.ops o).mp ho).1

/-! ## New objects on Drive -/

/-- The folders below the mapped folder have been made. -/
lemma Tree.lt {d : Drive} (h : Tree root d) {n : ℕ} (hn : FolderAt d root p n) :
    n < d.files.next := by
  cases hn with
  | root => exact h.mapped
  | child above mem parent live folder => exact d.files.key_lt mem

/-- A new object leaves the folders a tree. -/
lemma Tree.made {d d' : Drive} {m : ℕ} {f : DriveFile} (h : Tree root d) (hmade : d.Made m f d') :
    Tree root d' := by
  refine ⟨hmade.grounded h.ground, ?_, fun p q n hp hq => ?_⟩
  · rw [hmade.resolve, hmade.next]
    exact h.mapped.trans (Nat.lt_succ_self _)
  · rcases hmade.folderAt h.ground hp with hp₀ | ⟨-, hn, above, rfl, hp₀⟩
    · rcases hmade.folderAt h.ground hq with hq₀ | ⟨-, hn, -⟩
      · exact h.one p q n hp₀ hq₀
      · have := h.lt hp₀
        rw [hn, hmade.num] at this
        omega
    · rcases hmade.folderAt h.ground hq with hq₀ | ⟨-, -, above', rfl, hq₀⟩
      · have := h.lt hq₀
        rw [hn, hmade.num] at this
        omega
      · rw [h.one above above' m hp₀ hq₀]

/-- What the invariant says about a row when an object was made on Drive. -/
lemma RowOk.made {m : ℕ} {f : DriveFile} (h : RowOk env root w₀ F T w r)
    (hmade : w.remote.drive.Made m f w'.remote.drive)
    (hqueue : ∀ op, Queued op r w → Queued op r w') : RowOk env root w₀ F T w' r := by
  have hext := hmade.adds
  refine h.mono hext.next (fun p n hn => hext.folderAt hn)
    (fun _ _ b ⟨hprint, g, hg, hcontent, hat⟩ => ⟨hprint, g, hg, hcontent, hext.objectAt hat⟩)
    (fun g hg hbound => ?_) hqueue id
  rcases (hmade.mem g).mp hg with hg | rfl
  · exact ⟨g, hg, rfl, rfl, rfl⟩
  · -- the new object is bound to no row that was there
    obtain ⟨n, hn, heq⟩ := h.bound _ hbound
    obtain rfl := FileId.id.inj heq
    rw [hmade.num] at hn
    exact absurd hn (lt_irrefl _)

/-- **A folder is made** on Drive, at the path of a local directory. -/
lemma Inv.madeFolder {m : ℕ} {f : DriveFile} {above : RelPath} (h : Inv env root w₀ F T w)
    (hmade : w.remote.drive.Made m f w'.remote.drive) (hfolder : f.mimeType = folderMime)
    (hm : FolderAt w.remote.drive root above m) (hdir : F.node (above ++ [f.name]) = some .dir)
    (hdb : w'.db = w.db) (hfs : w'.fs = w.fs) : Inv env root w₀ F T w' := by
  refine ⟨hfs.trans h.fs, h.tree.made hmade, fun p n hn hp => ?_, fun p g hg hreg hp => ?_,
    fun r hr => ?_, hdb ▸ h.only, hdb ▸ h.ops, hdb ▸ h.nodes⟩
  · rcases hmade.folderAt h.tree.ground hn with hn | ⟨-, -, above', rfl, hm'⟩
    · exact h.folders p n hn hp
    · rwa [h.tree.one above' above m hm' hm]
  · rw [hdb]
    rcases hmade.objectAt h.tree.ground hg with hg | ⟨rfl, -⟩
    · exact h.objects p g hg hreg hp
    · exact absurd hfolder hreg.1
  · rw [hdb] at hr
    exact (h.rows r hr).made hmade fun op => by rw [Queued, Queued, hdb]; exact id

/-! ## Rows that change -/

/-- The rows keep their paths. -/
def Followed (w w' : World) : Prop :=
  ∀ r ∈ w.db.items, ∃ r' ∈ w'.db.items, r'.id = r.id ∧ r'.relativePath = r.relativePath

lemma Followed.refl (w : World) : Followed w w := fun r hr => ⟨r, hr, rfl, rfl⟩

lemma Followed.trans {w'' : World} (h : Followed w w') (h' : Followed w' w'') :
    Followed w w'' := by
  intro r hr
  obtain ⟨r', hr', hid, hpath⟩ := h r hr
  obtain ⟨r'', hr'', hid', hpath'⟩ := h' r' hr'
  exact ⟨r'', hr'', hid'.trans hid, hpath'.trans hpath⟩

/-- What a change of a row's binding and fingerprint keeps. -/
structure Core (r r' : SyncItem) : Prop where
  id : r'.id = r.id
  path : r'.relativePath = r.relativePath
  kind : r'.kind = r.kind
  state : r'.state = r.state
  trashedAt : r'.trashedAt = r.trashedAt

lemma Core.tracked {r' : SyncItem} (h : Core r r') : Tracked r' ↔ Tracked r := by
  rw [Tracked, Tracked, h.kind, h.state, h.trashedAt]

lemma Core.opOk {r' : SyncItem} {op : Operation} (h : Core r r') (hok : OpOk env F r op) :
    OpOk env F r' op := by
  cases op with
  | upload =>
    rw [OpOk, h.path, h.state, h.tracked]
    exact hok
  | deleteRemote =>
    rw [OpOk, h.path, h.tracked]
    exact hok
  | createDirRemote =>
    rw [OpOk, h.path]
    exact hok
  | _ => exact hok

/-- **A row changes** its binding or its fingerprint. -/
lemma Inv.replace {r' : SyncItem} (h : Inv env root w₀ F T w) (hr : r ∈ w.db.items)
    (hcore : Core r r') (hitems : ∀ s, s ∈ w'.db.items ↔ (s ∈ w.db.items ∧ s ≠ r) ∨ s = r')
    (hops : w'.db.ops = w.db.ops) (hfs : w'.fs = w.fs) (htree : Tree root w'.remote.drive)
    (hfolders : ∀ p n, FolderAt w'.remote.drive root p n → Seen env p → F.node p = some .dir)
    (hobjects : ∀ p f, ObjectAt w'.remote.drive root p f → Regular f → Seen env p →
      ∃ s ∈ w'.db.items, s.relativePath = p ∧ Tracked s ∧ s.remoteId = some (.id f.num))
    (hothers : ∀ s ∈ w.db.items, s ≠ r → RowOk env root w₀ F T w' s)
    (hrow : RowOk env root w₀ F T w' r')
    (honly : ∀ s ∈ w'.db.items, Tracked s → Seen env s.relativePath → s.remoteId ≠ none →
      ∀ s' ∈ w'.db.items, s'.remoteId = s.remoteId → s' = s) :
    Inv env root w₀ F T w' := by
  refine ⟨hfs.trans h.fs, htree, hfolders, hobjects, fun s hs => ?_, honly, fun o ho => ?_,
    fun p hp hseen => ?_⟩
  · rcases (hitems s).mp hs with ⟨hs, hne⟩ | rfl
    · exact hothers s hs hne
    · exact hrow
  · rw [hops] at ho
    obtain ⟨s, hs, hid, hok⟩ := h.ops o ho
    by_cases heq : s = r
    · subst heq
      refine ⟨r', (hitems _).mpr (.inr rfl), hcore.id.trans hid, ?_⟩
      exact hcore.opOk hok
    · exact ⟨s, (hitems _).mpr (.inl ⟨hs, heq⟩), hid, hok⟩
  · refine (h.nodes p hp hseen).imp id ?_
    rintro ⟨s, hs, hpath⟩
    by_cases heq : s = r
    · subst heq
      exact ⟨r', (hitems _).mpr (.inr rfl), hcore.path.trans hpath⟩
    · exact ⟨s, (hitems _).mpr (.inl ⟨hs, heq⟩), hpath⟩

/-- No regular file's row is bound to a folder. -/
lemma Inv.not_folder {n : ℕ} (h : Inv env root w₀ F T w) (hr : r ∈ w.db.items) (ht : Tracked r)
    (hp : Seen env r.relativePath) (hn : FolderAt w.remote.drive root p n) (hne : p ≠ []) :
    r.remoteId ≠ some (.id n) := by
  intro hbound
  obtain ⟨c, hc, rfl, hfolder⟩ := hn.mem hne
  exact ((h.rows r hr).regular ht hp c hc hbound).1 hfolder

/-- A change of a row in place. -/
lemma mem_modify_row {t : ItemTable} {f : SyncItem → SyncItem} {hid : ∀ r, (f r).id = r.id}
    {hpath : ∀ r, (f r).relativePath = r.relativePath} (hr : r ∈ t) (s : SyncItem) :
    s ∈ t.modify r.id f hid hpath ↔ (s ∈ t ∧ s ≠ r) ∨ s = f r := by
  rw [ItemTable.mem_modify]
  constructor
  · rintro (⟨hs, hne⟩ | ⟨r', hr', hid', rfl⟩)
    · exact .inl ⟨hs, fun heq => hne (heq ▸ rfl)⟩
    · rw [ItemTable.id_inj hr' hr hid']
      exact .inr rfl
  · rintro (⟨hs, hne⟩ | rfl)
    · exact .inl ⟨hs, fun heq => hne (ItemTable.id_inj hs hr heq)⟩
    · exact .inr ⟨r, hr, rfl, rfl⟩

lemma followed_of_replace {r' : SyncItem} (hcore : Core r r')
    (hitems : ∀ s, s ∈ w'.db.items ↔ (s ∈ w.db.items ∧ s ≠ r) ∨ s = r') : Followed w w' := by
  intro s hs
  by_cases heq : s = r
  · exact ⟨r', (hitems r').mpr (.inr rfl), heq ▸ hcore.id, heq ▸ hcore.path⟩
  · exact ⟨s, (hitems s).mpr (.inl ⟨hs, heq⟩), rfl, rfl⟩

/-! ## Recording folders -/

/-- The row of a directory is not that of a regular file. -/
lemma RowOk.not_tracked (h : RowOk env root w₀ F T w r)
    (hdir : F.node r.relativePath = some .dir) (hp : Seen env r.relativePath) : ¬Tracked r :=
  fun ht => h.file ht.1 hp hdir

/-- **A folder is bound** to the row at its path. -/
lemma Inv.boundDir {n : ℕ} (h : Inv env root w₀ F T w) (hr : r ∈ w.db.items)
    (hn : FolderAt w.remote.drive root r.relativePath n)
    (hdir : F.node r.relativePath = some .dir)
    (hitems : ∀ s, s ∈ w'.db.items ↔ (s ∈ w.db.items ∧ s ≠ r) ∨
      s = { r with remoteId := some (.id n) })
    (hops : w'.db.ops = w.db.ops) (hfs : w'.fs = w.fs) (hremote : w'.remote = w.remote) :
    Inv env root w₀ F T w' := by
  have hrow := h.rows r hr
  have hcore : Core r { r with remoteId := some (.id n) } := ⟨rfl, rfl, rfl, rfl, rfl⟩
  have hdrive : w'.remote.drive = w.remote.drive := by rw [hremote]
  have hqueue : ∀ s op, Queued op s w → Queued op s w' := by
    intro s op ⟨o, ho, hrest⟩
    exact ⟨o, hops.symm ▸ ho, hrest⟩
  refine h.replace hr hcore hitems hops hfs (hdrive ▸ h.tree)
    (hdrive ▸ h.folders) (fun p f hf hreg hp => ?_)
    (fun s hs _ => (h.rows s hs).same hdrive (hqueue s) id) ?_
    fun s hs ht hp hne s' hs' heq => ?_
  · rw [hdrive] at hf
    obtain ⟨s, hs, hpath, ht, hbound⟩ := h.objects p f hf hreg hp
    refine ⟨s, (hitems s).mpr (.inl ⟨hs, ?_⟩), hpath, ht, hbound⟩
    rintro rfl
    exact hrow.not_tracked hdir (hpath ▸ hp) ht
  · refine ⟨hrow.inside, fun rid hrid => ⟨n, ?_, (Option.some.inj hrid).symm⟩, hrow.skipped,
      fun hkind hp => ?_, hrow.file, hrow.tomb, fun ht hp => ?_, fun ht hp => ?_⟩
    · rw [hdrive]
      exact h.tree.lt hn
    · obtain ⟨hlive, hdir', -⟩ := hrow.dir hkind hp
      refine ⟨hlive, hdir', .inl ⟨n, ?_⟩⟩
      rw [hdrive]
      exact hn
    · exact absurd ht (hrow.not_tracked hdir hp)
    · exact absurd ht (hrow.not_tracked hdir hp)
  · rcases (hitems s).mp hs with ⟨hs, -⟩ | rfl
    · rcases (hitems s').mp hs' with ⟨hs', -⟩ | rfl
      · exact h.only s hs ht hp hne s' hs' heq
      · exact absurd heq.symm (h.not_folder hs ht hp hn hrow.inside.1)
    · exact absurd ht (hrow.not_tracked hdir hp)

/-- **A folder without a row** is recorded. -/
lemma Inv.addedDir {n : ℕ} (h : Inv env root w₀ F T w) (hinside : Inside p)
    (hn : FolderAt w.remote.drive root p n) (hdir : F.node p = some .dir)
    (hr : r.relativePath = p ∧ r.kind = .dir ∧ r.state ≠ .skipped ∧ r.trashedAt = none ∧
      r.remoteId = some (.id n))
    (hitems : ∀ s, s ∈ w'.db.items ↔ s ∈ w.db.items ∨ s = r) (hops : w'.db.ops = w.db.ops)
    (hfs : w'.fs = w.fs) (hremote : w'.remote = w.remote) : Inv env root w₀ F T w' := by
  obtain ⟨rfl, hkind, hskip, hlive, hbound⟩ := hr
  have hdrive : w'.remote.drive = w.remote.drive := by rw [hremote]
  have hnot : ¬Tracked r := fun ht => by
    rw [ht.1] at hkind
    cases hkind
  have hkept : ∀ s ∈ w.db.items, s ∈ w'.db.items := fun s hs => (hitems s).mpr (.inl hs)
  refine ⟨hfs.trans h.fs, hdrive ▸ h.tree, hdrive ▸ h.folders, fun p f hf hreg hp => ?_,
    fun s hs => ?_, fun s hs ht hp hne s' hs' heq => ?_, fun o ho => ?_, fun q hq hp => ?_⟩
  · rw [hdrive] at hf
    obtain ⟨s, hs, hrest⟩ := h.objects p f hf hreg hp
    exact ⟨s, hkept s hs, hrest⟩
  · rcases (hitems s).mp hs with hs | rfl
    · exact (h.rows s hs).same hdrive (fun op ⟨o, ho, hrest⟩ => ⟨o, hops.symm ▸ ho, hrest⟩) id
    · refine ⟨hinside, fun rid hrid => ⟨n, ?_, ?_⟩, fun hs => absurd hs hskip, fun _ _ =>
        ⟨hlive, hdir, .inl ⟨n, ?_⟩⟩, fun hfile => ?_, fun htomb => absurd hlive htomb,
        fun ht => absurd ht hnot, fun ht => absurd ht hnot⟩
      · rw [hdrive]
        exact h.tree.lt hn
      · exact Option.some.inj (hrid.symm.trans hbound)
      · rw [hdrive]
        exact hn
      · rw [hkind] at hfile
        cases hfile
  · rcases (hitems s).mp hs with hs | rfl
    · rcases (hitems s').mp hs' with hs' | rfl
      · exact h.only s hs ht hp hne s' hs' heq
      · exact absurd (heq.symm.trans hbound) (h.not_folder hs ht hp hn hinside.1)
    · exact absurd ht hnot
  · rw [hops] at ho
    obtain ⟨s, hs, hrest⟩ := h.ops o ho
    exact ⟨s, hkept s hs, hrest⟩
  · exact (h.nodes q hq hp).imp id fun ⟨s, hs, hrest⟩ => ⟨s, hkept s hs, hrest⟩

/-- **A folder of a path is recorded.** -/
lemma ends_persistDir_inv {n : ℕ} (h : Inv env root w₀ F T w) (hinside : Inside p)
    (hn : FolderAt w.remote.drive root p n) (hdir : F.node p = some .dir) :
    Ends env (fun _ w' => Inv env root w₀ F T w' ∧ w'.remote = w.remote ∧ Followed w w')
      (Dispatcher.persistDir p (.id n)) w := by
  unfold Dispatcher.persistDir
  rw [Prog.bind_eq, Ends, Prog.safe_bind, safe_sql]
  refine fun _ => ⟨trivial, ?_⟩
  cases hget : w.db.items.getByRelativePath p with
  | some s =>
    obtain ⟨hs, hpath⟩ := ItemTable.getByRelativePath_eq_some.mp hget
    simp only [DbCall.run, hget]
    split
    · rw [safe_sql]
      have hitems : ∀ t, t ∈ (DbCall.run (.setRemoteId s.id (.id n)) w.db).2.items ↔
          (t ∈ w.db.items ∧ t ≠ s) ∨ t = { s with remoteId := some (.id n) } := fun t =>
        @mem_modify_row s w.db.items (fun r => { r with remoteId := some (.id n) })
          (fun _ => rfl) (fun _ => rfl) hs t
      have hcore : Core s { s with remoteId := some (.id n) } := ⟨rfl, rfl, rfl, rfl, rfl⟩
      exact fun _ => ⟨trivial, h.boundDir hs (hpath ▸ hn) (hpath ▸ hdir) hitems
        (DbCall.ops_run_eq rfl rfl) rfl rfl, rfl, followed_of_replace hcore hitems⟩
    · exact ⟨h, rfl, .refl w⟩
  | none =>
    obtain ⟨hok, hmem⟩ := @Db.insertItem_of_free w.db (Dispatcher.syncedDir p (.id n)) hget
    have hops : (w.db.insertItem (Dispatcher.syncedDir p (.id n))).2.ops = w.db.ops :=
      DbCall.ops_run_eq (c := .insertItem (Dispatcher.syncedDir p (.id n))) rfl rfl
    simp only [DbCall.run, hget, Prog.bind_eq, Prog.safe_bind, safe_sqlTry, hok, true_and,
      forall_const]
    have hskip : ((Dispatcher.syncedDir p (.id n)).withId w.db.items.nextId).state ≠ .skipped := by
      simp [Dispatcher.syncedDir, NewSyncItem.withId]
    refine ⟨h.addedDir hinside hn hdir ⟨rfl, rfl, hskip, rfl, rfl⟩ hmem hops rfl rfl, rfl, ?_⟩
    exact fun s hs => ⟨s, (hmem s).mpr (.inl hs), rfl, rfl⟩

/-- The folder of a name below a folder. -/
lemma ends_childFolder_inv {parent : FileId} {above : RelPath} {name : String}
    (h : Inv env root w₀ F T w) (ho : Orderly w.remote)
    (hn : FolderAt w.remote.drive root above (w.remote.drive.resolve parent))
    (hdir : F.node (above ++ [name]) = some .dir) :
    Ends env (fun x w' => Inv env root w₀ F T w' ∧ Orderly w'.remote ∧ w'.db = w.db ∧
      ∀ id, x = .ok id → ∃ n, id = .id n) (Dispatcher.childFolder parent name) w := by
  simp only [Ends, Dispatcher.childFolder, Prog.bind_eq, Prog.safe_bind, safe_request, true_and,
    forall_const]
  obtain ⟨ho₁, hlist⟩ := @Orderly.send _ env.md5 (.listChildren parent) _ ho
  have hdrive₁ : (w.remote.send env.md5 (.listChildren parent)).2.drive = w.remote.drive := by
    rcases hlist with ⟨-, hd⟩ | ⟨e, -, -, hd⟩
    · rw [hd]
      rfl
    · exact hd
  have h₁ : Inv env root w₀ F T
      { w with remote := (w.remote.send env.md5 (.listChildren parent)).2 } :=
    h.congr rfl rfl hdrive₁
  cases hl : (w.remote.send env.md5 (.listChildren parent)).1 with
  | error e => exact ⟨h₁, ho₁, fun id hid => by cases hid⟩
  | ok children =>
    simp only
    cases hfind : children.find? fun c => c.isFolder && c.name = name with
    | some f =>
      refine ⟨h₁, ho₁, rfl, ?_⟩
      rintro id ⟨⟩
      obtain rfl := Except.ok.inj (Remote.send_ok hl)
      obtain ⟨g, -, rfl⟩ := List.mem_map.mp (List.mem_of_find?_eq_some hfind)
      exact ⟨g.num, rfl⟩
    | none =>
      simp only [Engine.createDirRemote, Prog.safe_bind, safe_request, true_and, forall_const]
      set r₁ := (w.remote.send env.md5 (.listChildren parent)).2 with hr₁
      obtain ⟨ho₂, hmake⟩ := @Orderly.send _ env.md5 (.createFolder parent name) _ ho₁
      rcases hmake with ⟨hanswer, hd⟩ | ⟨e, hanswer, -, hd⟩
      · simp only [DriveCall.run] at hanswer hd
        rcases hmade : r₁.drive.create parent name folderMime none with ⟨o, d'⟩
        rw [hmade] at hanswer hd
        cases o with
        | none =>
          have hsame : d' = r₁.drive := by
            unfold Drive.create at hmade
            split at hmade
            · exact (Prod.mk.inj hmade).2.symm
            · exact absurd (Prod.mk.inj hmade).1 (by simp)
          rw [hanswer]
          exact ⟨h₁.congr rfl rfl (hd.trans hsame), ho₂, fun id hid => by cases hid⟩
        | some f =>
          obtain ⟨hnew, rfl, hfolder, -⟩ := Drive.made_of_create hmade
          have hdrive₂ : (r₁.send env.md5 (.createFolder parent f.name)).2.drive = d' := hd
          rw [hanswer]
          refine ⟨h₁.madeFolder (hdrive₂.symm ▸ hnew) hfolder ?_ hdir rfl rfl, ho₂, rfl, ?_⟩
          · show FolderAt r₁.drive root above (r₁.drive.resolve parent)
            rw [hdrive₁]
            exact hn
          · rintro id ⟨⟩
            exact ⟨f.num, rfl⟩
      · rw [hanswer]
        exact ⟨h₁.congr rfl rfl hd, ho₂, fun id hid => by cases hid⟩

/-- **The remote folders of a local directory** are found or made. -/
lemma ends_ensureSegments_inv {current : FileId} {cumulative : RelPath} {segments : List String}
    (h : Inv env root w₀ F T w) (ho : Orderly w.remote)
    (hn : FolderAt w.remote.drive root cumulative (w.remote.drive.resolve current))
    (hdir : F.node (cumulative ++ segments) = some .dir)
    (hstaged : partialDir ∉ cumulative ++ segments) :
    Ends env (fun x w' => (Inv env root w₀ F T w' ∧ Orderly w'.remote ∧ Followed w w') ∧
      ∀ id, x = .ok id →
        FolderAt w'.remote.drive root (cumulative ++ segments) (w'.remote.drive.resolve id))
      (Dispatcher.ensureSegments current cumulative segments) w := by
  induction segments generalizing current cumulative w with
  | nil =>
    refine ⟨⟨h, ho, .refl w⟩, ?_⟩
    rintro id ⟨⟩
    simpa using hn
  | cons seg rest ih =>
    have hseg : F.node (cumulative ++ [seg]) = some .dir := by
      cases rest with
      | nil => exact hdir
      | cons y rest =>
        refine F.dir_of_below (x := y) (q := rest) ?_
        rw [List.append_assoc, List.singleton_append, hdir]
        simp
    simp only [Dispatcher.ensureSegments, Prog.bind_eq]
    refine Prog.Safe.bind (Ends.and (ends_childFolder_inv h ho hn hseg) (ends_childFolder_at hn))
      ?_
      fun e w₁ h' => ⟨⟨h'.1.1, h'.1.2.1, ?_⟩, fun _ he => by cases he⟩
    · rintro next w₁ ⟨⟨h₁, ho₁, hdb₁, hid⟩, hnext⟩
      obtain ⟨n, rfl⟩ := hid next rfl
      have hinside : Inside (cumulative ++ [seg]) := by
        refine ⟨by simp, fun hmem => hstaged ?_⟩
        rw [List.mem_append, List.mem_singleton] at hmem
        rcases hmem with hmem | rfl
        · exact List.mem_append_left _ hmem
        · simp
      refine Prog.Safe.bind (ends_persistDir_inv h₁ hinside (hnext _ rfl) hseg)
        ?_
        fun e w₂ h' => ⟨⟨h'.1, h'.2.1.symm ▸ ho₁, ?_⟩, fun _ he => by cases he⟩
      · rintro _ w₂ ⟨h₂, hremote, hf₂⟩
        refine (ih h₂ (hremote.symm ▸ ho₁) ?_ (by simpa using hdir) (by simpa using hstaged)).mono
          fun x w₃ h' => ⟨⟨h'.1.1, h'.1.2.1, ?_⟩, by simpa using h'.2⟩
        · rw [hremote]
          exact hnext _ rfl
        · intro s hs
          exact (hf₂.trans h'.1.2.2) s (hdb₁.symm ▸ hs)
      · intro s hs
        exact h'.2.2 s (hdb₁.symm ▸ hs)
    · intro s hs
      exact ⟨s, h'.1.2.2.1.symm ▸ hs, rfl, rfl⟩

/-! ## Uploads -/

/-- The name and the folder of a path determine it. -/
lemma path_eq {p q : RelPath} (hp : p ≠ []) (hq : q ≠ []) (hfolder : p.dropLast = q.dropLast)
    (hname : p.getLastD "" = q.getLastD "") : p = q := by
  rw [← List.dropLast_append_getLast hp, ← List.dropLast_append_getLast hq, hfolder]
  rw [List.getLastD_eq_getLast?, List.getLastD_eq_getLast?, List.getLast?_eq_some_getLast hp,
    List.getLast?_eq_some_getLast hq] at hname
  simpa using hname

/-- The uploaded bytes are where the invariant wants them. -/
lemma RowOk.uploaded {b : Bytes} {r' : SyncItem} (h : RowOk env root w₀ F T w r)
    (hcore : Core r r') (hfile : F.node r.relativePath = some (.file b))
    (hplaced : Tracked r → Seen env r.relativePath → Placed env root r' b w')
    (hbound : ∀ rid, r'.remoteId = some rid → ∃ n < w'.remote.drive.files.next, rid = .id n)
    (hreg : ∀ f ∈ w'.remote.drive.files, r'.remoteId = some (.id f.num) → Tracked r →
      Seen env r.relativePath → Regular f) :
    RowOk env root w₀ F T w' r' ∧ Settled env root F w' r' := by
  have hnot : r'.kind = .dir → ¬Seen env r'.relativePath := by
    intro hkind hp
    rw [hcore.path] at hp
    have hdir := (h.dir (hcore.kind ▸ hkind) hp).2.1
    rw [hfile] at hdir
    cases hdir
  have hfile' : F.node r'.relativePath = some (.file b) := hcore.path ▸ hfile
  have hplaced' : Tracked r' → Seen env r'.relativePath → Placed env root r' b w' := fun ht hp =>
    hplaced (hcore.tracked.mp ht) (hcore.path ▸ hp)
  refine ⟨⟨hcore.path ▸ h.inside, hbound, fun hs => ?_, fun hkind hp => ?_, fun _ _ => ?_,
    fun htomb hp => ?_, fun ht hp => .placed b hfile' (hplaced' ht hp), fun ht hp f hf hid => ?_⟩,
    fun ht hp => ⟨b, hfile', hplaced' ht hp⟩, fun hkind hp => absurd hp (hnot hkind)⟩
  · rw [hcore.path]
    exact h.skipped (hcore.state ▸ hs)
  · exact absurd hp (hnot hkind)
  · rw [hfile']
    simp
  · rw [hcore.path] at hp ⊢
    exact h.tomb (hcore.trashedAt ▸ htomb) hp
  · exact hreg f hf hid (hcore.tracked.mp ht) (hcore.path ▸ hp)

/-- **A first upload**: a new object, and the row bound to it. -/
lemma Inv.madeFile {m : ℕ} {f : DriveFile} {b : Bytes} (h : Inv env root w₀ F T w)
    (hr : r ∈ w.db.items) (hnone : r.remoteId = none)
    (hfile : F.node r.relativePath = some (.file b)) (htracked : Seen env r.relativePath → Tracked r)
    (hmade : w.remote.drive.Made m f w'.remote.drive)
    (hm : FolderAt w.remote.drive root r.relativePath.dropLast m)
    (hname : f.name = r.relativePath.getLastD "") (hreg : Regular f) (hcontent : f.content = some b)
    (hitems : ∀ s, s ∈ w'.db.items ↔ (s ∈ w.db.items ∧ s ≠ r) ∨ s = uploaded env r b (.id f.num))
    (hops : w'.db.ops = w.db.ops) (hfs : w'.fs = w.fs) :
    Inv env root w₀ F T w' ∧ Settled env root F w' (uploaded env r b (.id f.num)) := by
  have hcore : Core r (uploaded env r b (.id f.num)) := ⟨rfl, rfl, rfl, rfl, rfl⟩
  have hrow := h.rows r hr
  have hnew : (uploaded env r b (.id f.num)) ∈ w'.db.items := (hitems _).mpr (.inr rfl)
  have hat : ObjectAt w'.remote.drive root r.relativePath f := by
    refine ⟨(hmade.mem f).mpr (.inr rfl), ⟨m, hmade.adds.folderAt hm, ?_⟩, hname, hmade.live⟩
    rw [hmade.parents]
    exact List.mem_singleton_self m
  have hplaced : Placed env root (uploaded env r b (.id f.num)) b w' :=
    ⟨⟨rfl, rfl⟩, f, rfl, hcontent, hat⟩
  -- the id of the new object is recorded nowhere
  have hfresh : ∀ s ∈ w.db.items, s.remoteId ≠ some (.id f.num) := by
    intro s hs hbound
    obtain ⟨n, hn, heq⟩ := (h.rows s hs).bound _ hbound
    rw [← FileId.id.inj heq, hmade.num] at hn
    exact lt_irrefl _ hn
  have hqueue : ∀ s op, Queued op s w → Queued op s w' := by
    intro s op ⟨o, ho, hrest⟩
    exact ⟨o, hops.symm ▸ ho, hrest⟩
  obtain ⟨hrow', hsettled⟩ := hrow.uploaded hcore hfile (fun _ _ => hplaced)
    (fun rid hrid => ⟨f.num, w'.remote.drive.files.key_lt hat.mem, (Option.some.inj hrid).symm⟩)
    fun g hg hid _ _ => by
      have hnum : f.num = g.num := FileId.id.inj (Option.some.inj hid)
      rw [← w'.remote.drive.files.key_inj hat.mem hg hnum]
      exact hreg
  refine ⟨h.replace hr hcore hitems hops hfs (h.tree.made hmade) (fun p n hn hp => ?_)
    (fun p g hg hg' hp => ?_) (fun s hs _ => (h.rows s hs).made hmade (hqueue s)) hrow'
    fun s hs ht hp hne s' hs' heq => ?_, hsettled⟩
  · rcases hmade.folderAt h.tree.ground hn with hn | ⟨hfolder, -⟩
    · exact h.folders p n hn hp
    · exact absurd hfolder hreg.1
  · rcases hmade.objectAt h.tree.ground hg with hg | ⟨rfl, hfolder, hname'⟩
    · obtain ⟨s, hs, hpath, ht, hbound⟩ := h.objects p g hg hg' hp
      refine ⟨s, (hitems s).mpr (.inl ⟨hs, ?_⟩), hpath, ht, hbound⟩
      rintro rfl
      rw [hnone] at hbound
      cases hbound
    · have hpath : r.relativePath = p := path_eq hrow.inside.1 hp.1.1
        (h.tree.one _ _ m hm hfolder) (hname.symm.trans hname')
      exact ⟨_, hnew, hpath, hcore.tracked.mpr (htracked (hpath.symm ▸ hp)), rfl⟩
  · rcases (hitems s).mp hs with ⟨hs, -⟩ | rfl
    · rcases (hitems s').mp hs' with ⟨hs', -⟩ | rfl
      · exact h.only s hs ht hp hne s' hs' heq
      · exact absurd heq.symm (hfresh s hs)
    · rcases (hitems s').mp hs' with ⟨hs', -⟩ | rfl
      · exact absurd heq (hfresh s' hs')
      · rfl

/-- **An update**: the object of the row has the new bytes, and the row their fingerprint. -/
lemma Inv.updated {n : ℕ} {b : Bytes} (h : Inv env root w₀ F T w) (hr : r ∈ w.db.items)
    (hbound : r.remoteId = some (.id n)) (hfile : F.node r.relativePath = some (.file b))
    (hdrive : w'.remote.drive =
      w.remote.drive.change n (fun x => { x with content := some b }) fun _ => rfl)
    (hitems : ∀ s, s ∈ w'.db.items ↔ (s ∈ w.db.items ∧ s ≠ r) ∨
      s = { r with size := some b.length, md5 := some (env.md5 b) })
    (hops : w'.db.ops = w.db.ops) (hfs : w'.fs = w.fs) :
    Inv env root w₀ F T w' ∧
      Settled env root F w' { r with size := some b.length, md5 := some (env.md5 b) } := by
  set d := w.remote.drive with hd
  set k : DriveFile → DriveFile := fun x => { x with content := some b } with hk
  set r' : SyncItem := { r with size := some b.length, md5 := some (env.md5 b) } with hr'
  have hcore : Core r r' := ⟨rfl, rfl, rfl, rfl, rfl⟩
  have hrow := h.rows r hr
  have hfolder : ∀ p m, FolderAt w'.remote.drive root p m ↔ FolderAt d root p m := by
    intro p m
    rw [hdrive]
    exact Drive.folderAt_change (fun _ => rfl) fun _ _ _ _ => ⟨rfl, rfl, rfl⟩
  have hfolder' : ∀ p m, FolderAt (d.change n k fun _ => rfl) root p m ↔ FolderAt d root p m :=
    hdrive ▸ hfolder
  have hqueue : ∀ s op, Queued op s w → Queued op s w' := by
    intro s op ⟨o, ho, hrest⟩
    exact ⟨o, hops.symm ▸ ho, hrest⟩
  -- an object and what it was before
  have hobject : ∀ g' ∈ w'.remote.drive.files, ∃ g ∈ d.files, g.num = g'.num ∧
      g.mimeType = g'.mimeType ∧ g.owned = g'.owned ∧
        ∀ p, ObjectAt w'.remote.drive root p g' → ObjectAt d root p g := by
    intro g' hg'
    rw [hdrive] at hg' ⊢
    rcases Drive.mem_change.mp hg' with ⟨hg, hne⟩ | ⟨g, hg, hnum, rfl⟩
    · exact ⟨g', hg, rfl, rfl, rfl, fun p => (Drive.objectAt_change hfolder' hne).mp⟩
    · exact ⟨g, hg, rfl, rfl, rfl,
        fun p => (Drive.objectAt_change_self hfolder' rfl rfl rfl hg hnum).mp⟩
  -- the objects of the other rows
  have hothers : ∀ s ∈ w.db.items, s ≠ r → Tracked s → Seen env s.relativePath →
      ∀ c, Placed env root s c w → Placed env root s c w' := by
    rintro s hs hne ht hp c ⟨hprint, g, hg, hcontent, hat⟩
    refine ⟨hprint, g, hg, hcontent, ?_⟩
    have hnum : g.num ≠ n := by
      rintro rfl
      exact hne (h.only s hs ht hp (by simp [hg]) r hr (hbound.trans hg.symm)).symm
    rw [hdrive]
    exact (Drive.objectAt_change hfolder' hnum).mpr hat
  have hplaced : Tracked r → Seen env r.relativePath → Placed env root r' b w' := by
    intro ht hp
    have hold : ∃ g, g.num = n ∧ ObjectAt d root r.relativePath g := by
      cases hrow.stand ht hp with
      | waiting md5 remote =>
        rw [remote] at hbound
        cases hbound
      | placed c file placed =>
        obtain ⟨g, hg, -, hat⟩ := placed.object
        exact ⟨g, FileId.id.inj (Option.some.inj (hg.symm.trans hbound)), hat⟩
      | old c before placed =>
        obtain ⟨g, hg, -, hat⟩ := placed.object
        exact ⟨g, FileId.id.inj (Option.some.inj (hg.symm.trans hbound)), hat⟩
    obtain ⟨g, hnum, hat⟩ := hold
    refine ⟨⟨rfl, rfl⟩, k g, ?_, rfl, ?_⟩
    · show r.remoteId = some (.id g.num)
      rw [hnum]
      exact hbound
    · rw [hdrive]
      exact (Drive.objectAt_change_self hfolder' rfl rfl rfl hat.mem hnum).mpr hat
  have hnext : w'.remote.drive.files.next = d.files.next := by
    rw [hdrive]
    rfl
  have hroot : w'.remote.drive.resolve root = d.resolve root := by
    rw [hdrive]
    cases root <;> rfl
  obtain ⟨hrow', hsettled⟩ := hrow.uploaded hcore hfile hplaced (hnext.symm ▸ hrow.bound)
    fun g' hg' hid ht hp => by
      obtain ⟨g, hg, hnum, hmime, -⟩ := hobject g' hg'
      have hreg := hrow.regular ht hp g hg (hnum ▸ hid)
      rw [Regular, hmime] at hreg
      exact hreg
  refine ⟨h.replace hr hcore hitems hops hfs ⟨?_, ?_, fun p q m hp hq => ?_⟩ (fun p m hm hp => ?_)
    (fun p g' hg' hreg hp => ?_) (fun s hs hne => ?_) hrow' fun s hs ht hp hne s' hs' heq => ?_,
    hsettled⟩
  · intro g' hg' m hm
    rw [hnext]
    rw [hdrive] at hg'
    rcases Drive.mem_change.mp hg' with ⟨hg, -⟩ | ⟨g, hg, -, rfl⟩
    · exact h.tree.ground g' hg m hm
    · exact h.tree.ground g hg m hm
  · rw [hnext, hroot]
    exact h.tree.mapped
  · exact h.tree.one p q m ((hfolder p m).mp hp) ((hfolder q m).mp hq)
  · exact h.folders p m ((hfolder p m).mp hm) hp
  · obtain ⟨g, hg, hnum, hmime, -, hat⟩ := hobject g' hg'.mem
    rw [Regular, ← hmime] at hreg
    obtain ⟨s, hs, hpath, ht, hsbound⟩ := h.objects p g (hat p hg') hreg hp
    rw [hnum] at hsbound
    by_cases heq : s = r
    · subst heq
      exact ⟨r', (hitems _).mpr (.inr rfl), hpath, ht, hsbound⟩
    · exact ⟨s, (hitems s).mpr (.inl ⟨hs, heq⟩), hpath, ht, hsbound⟩
  · refine (h.rows s hs).mono hnext.ge (fun p m hm => (hfolder p m).mpr hm)
      (fun ht hp => hothers s hs hne ht hp) (fun g' hg' _ => ?_) (hqueue s) id
    obtain ⟨g, hg, hnum, hmime, howned, -⟩ := hobject g' hg'
    exact ⟨g, hg, hnum, hmime, howned⟩
  · -- the bindings are what they were
    have hback : ∀ t ∈ w'.db.items, ∃ t₀ ∈ w.db.items, t₀.remoteId = t.remoteId ∧
        t₀.id = t.id ∧ (Tracked t → Seen env t.relativePath →
          Tracked t₀ ∧ Seen env t₀.relativePath) := by
      intro t ht
      rcases (hitems t).mp ht with ⟨ht, -⟩ | rfl
      · exact ⟨t, ht, rfl, rfl, fun ht hp => ⟨ht, hp⟩⟩
      · exact ⟨r, hr, rfl, rfl, fun ht hp => ⟨ht, hp⟩⟩
    obtain ⟨s₀, hs₀, hrid, hid, hseen⟩ := hback s hs
    obtain ⟨s₀', hs₀', hrid', hid', -⟩ := hback s' hs'
    obtain ⟨ht₀, hp₀⟩ := hseen ht hp
    have hsame := h.only s₀ hs₀ ht₀ hp₀ (hrid.symm ▸ hne) s₀' hs₀' (hrid'.trans (heq.trans hrid.symm))
    refine ItemTable.id_inj hs' hs ?_
    rw [← hid', ← hid, hsame]

/-- What an operation of the row has come to: it queues nothing, and the row is settled when it
went well. -/
structure Performed (env : Env) (root : FileId) (w₀ : World) (F : Fs) (T : RelPath → Prop)
    (r : SyncItem) (w : World) (x : Except Error Unit) (w' : World) : Prop where
  inv : Inv env root w₀ F T w'
  ops : ∀ o ∈ w'.db.ops, o ∈ w.db.ops
  settled : x = .ok () → ∀ s ∈ w'.db.items, s.id = r.id → Settled env root F w' s

lemma performed_of_error {e : Error} (h : Inv env root w₀ F T w') (hops : w'.db.ops = w.db.ops) :
    Performed env root w₀ F T r w (.error e) w' :=
  ⟨h, fun _ ho => hops ▸ ho, fun hx => by cases hx⟩

lemma performed_of_settled {x : Except Error Unit} {r' : SyncItem}
    (h : Inv env root w₀ F T w') (hops : w'.db.ops = w.db.ops) (hr : r' ∈ w'.db.items)
    (hid : r'.id = r.id) (hs : Settled env root F w' r') : Performed env root w₀ F T r w x w' :=
  ⟨h, fun _ ho => hops ▸ ho,
    fun _ _ hs' hid' => ItemTable.id_inj hr hs' (hid.trans hid'.symm) ▸ hs⟩

/-- A new object gets the type of a regular file. -/
lemma regular_contentTypeFor (name : String) {f : DriveFile}
    (h : f.mimeType = Engine.contentTypeFor name) : Regular f := by
  rw [Regular, h, Engine.contentTypeFor]
  split <;> decide

/-- The content of the row's object replaced. -/
lemma ends_update_inv {b : Bytes} {rid : FileId} (h : Inv env root w₀ F T w)
    (ho : Orderly w.remote) (hr : r ∈ w.db.items) (hrid : r.remoteId = some rid)
    (hfile : F.node r.relativePath = some (.file b)) :
    Ends env (Performed env root w₀ F T r w)
      (withMark rid do
        let _ ← Engine.update rid r.relativePath
        sql (.updateFingerprint r.id (some b.length) (some (env.md5 b)))) w := by
  obtain ⟨n, -, rfl⟩ := (h.rows r hr).bound rid hrid
  have hread : w.fs.readFile r.relativePath = .ok b := by
    rw [Fs.readFile, h.fs, hfile]
  simp only [Ends, safe_withMark, Engine.update, Prog.bind_eq, Prog.safe_bind, safe_ioTry,
    FsCall.run, hread, safe_request, true_and, forall_const]
  obtain ⟨-, hsend⟩ := @Orderly.send _ env.md5 (.patchMedia (.id n) b) _ ho
  rcases hsend with ⟨hanswer, hd⟩ | ⟨e, hanswer, -, hd⟩
  · cases hfound : w.remote.drive.file (.id n) with
    | none =>
      simp only [DriveCall.run, DriveCall.onFile, hfound] at hanswer hd
      rw [hanswer]
      exact performed_of_error (h.congr rfl rfl hd) rfl
    | some f =>
      obtain rfl : f.num = n := (Data.Serial.get_eq_some.mp hfound).2
      simp only [DriveCall.run, DriveCall.onFile, hfound] at hanswer hd
      rw [hanswer]
      simp only [safe_sql, true_and, forall_const]
      have hitems : ∀ s, s ∈ (DbCall.run (.updateFingerprint r.id (some b.length)
          (some (env.md5 b))) w.db).2.items ↔ (s ∈ w.db.items ∧ s ≠ r) ∨
            s = { r with size := some b.length, md5 := some (env.md5 b) } := fun s =>
        @mem_modify_row r w.db.items
          (fun r => { r with size := some b.length, md5 := some (env.md5 b) }) (fun _ => rfl)
          (fun _ => rfl) hr s
      obtain ⟨h₁, hsettled⟩ := @Inv.updated _ _ _ w
        { w with
          db := (DbCall.run (.updateFingerprint r.id (some b.length) (some (env.md5 b))) w.db).2
          remote := (w.remote.send env.md5 (.patchMedia (.id f.num) b)).2
          inFlight := (FileId.id f.num :: w.inFlight).erase (.id f.num) }
        F T r _ b h hr hrid hfile hd hitems (DbCall.ops_run_eq rfl rfl) rfl
      exact performed_of_settled h₁ (DbCall.ops_run_eq rfl rfl) ((hitems _).mpr (.inr rfl)) rfl
        hsettled
  · rw [hanswer]
    exact performed_of_error (h.congr rfl rfl hd) rfl

/-- The first upload of a file. -/
lemma ends_firstUpload_inv {b : Bytes} (h : Inv env root w₀ F T w) (ho : Orderly w.remote)
    (hr : r ∈ w.db.items) (hnone : r.remoteId = none)
    (hfile : F.node r.relativePath = some (.file b))
    (htracked : Seen env r.relativePath → Tracked r) :
    Ends env (Performed env root w₀ F T r w)
      (do
        let parentId ← Dispatcher.ensureRemoteFolder root r.relativePath.splitParent.1
        let rf ← Engine.upload r.relativePath parentId r.relativePath.splitParent.2
        withMark rf.id do
          sql (.setRemoteId r.id rf.id)
          sql (.updateFingerprint r.id (some b.length) (some (env.md5 b)))) w := by
  have hinside := (h.rows r hr).inside
  have hdir : F.node ([] ++ r.relativePath.splitParent.1) = some .dir :=
    Fs.parent_of_node hinside.1 (by simp [hfile])
  have hstaged : partialDir ∉ [] ++ r.relativePath.splitParent.1 := fun hmem =>
    hinside.2 (List.dropLast_subset _ hmem)
  have haside : ¬r.relativePath <+: r.relativePath.splitParent.1 := by
    intro hpre
    have hlen := hpre.length_le
    have hpos := List.length_pos_iff.mpr hinside.1
    simp only [RelPath.splitParent, List.length_dropLast] at hlen
    omega
  simp only [Ends, Prog.bind_eq]
  refine Prog.Safe.bind (Ends.and (ends_ensureSegments_inv h ho .root hdir hstaged)
    (ends_ensureSegments (List.prefix_refl _))) ?_
    fun e w₁ h' => performed_of_error h'.1.1.1 h'.2.1.ops
  rintro parent w₁ ⟨⟨⟨h₁, ho₁, _⟩, hat⟩, haside₁, _⟩
  have hr₁ : r ∈ w₁.db.items := (haside₁.rows r haside).mpr hr
  have hread : w₁.fs.readFile r.relativePath = .ok b := by
    rw [Fs.readFile, h₁.fs, hfile]
  simp only [Engine.upload, Prog.bind_eq, Prog.safe_bind, safe_ioTry, FsCall.run, hread,
    safe_request, true_and, forall_const]
  set name := r.relativePath.splitParent.2 with hname
  obtain ⟨-, hsend⟩ := @Orderly.send _ env.md5
    (.uploadMultipart parent name (Engine.contentTypeFor name) b) _ ho₁
  rcases hsend with ⟨hanswer, hd⟩ | ⟨e, hanswer, -, hd⟩
  · simp only [DriveCall.run] at hanswer hd
    rcases hmade : w₁.remote.drive.create parent name (Engine.contentTypeFor name) (some b) with
      ⟨o, d'⟩
    rw [hmade] at hanswer hd
    cases o with
    | none =>
      have hsame : d' = w₁.remote.drive := by
        unfold Drive.create at hmade
        split at hmade
        · exact (Prod.mk.inj hmade).2.symm
        · exact absurd (Prod.mk.inj hmade).1 (by simp)
      rw [hanswer]
      exact performed_of_error (h₁.congr rfl rfl (hd.trans hsame)) haside₁.ops
    | some f =>
      obtain ⟨hnew, hfname, hmime, hcontent⟩ := Drive.made_of_create hmade
      rw [hanswer]
      simp only [safe_withMark, Prog.safe_bind, safe_sql, true_and, forall_const, Drive.resource]
      set db₁ := (DbCall.run (.setRemoteId r.id (.id f.num)) w₁.db).2 with hdb₁
      set db₂ := (DbCall.run (.updateFingerprint r.id (some b.length) (some (env.md5 b))) db₁).2
        with hdb₂
      have hitems₁ : ∀ s, s ∈ db₁.items ↔ (s ∈ w₁.db.items ∧ s ≠ r) ∨
          s = { r with remoteId := some (.id f.num) } := fun s =>
        @mem_modify_row r w₁.db.items (fun r => { r with remoteId := some (.id f.num) })
          (fun _ => rfl) (fun _ => rfl) hr₁ s
      have hitems₂ : ∀ s, s ∈ db₂.items ↔ (s ∈ w₁.db.items ∧ s ≠ r) ∨
          s = uploaded env r b (.id f.num) := by
        intro s
        have hrow₁ := (hitems₁ _).mpr (.inr rfl)
        have hiff := @mem_modify_row { r with remoteId := some (.id f.num) } db₁.items
          (fun r => { r with size := some b.length, md5 := some (env.md5 b) })
          (fun _ => rfl) (fun _ => rfl) hrow₁ s
        refine hiff.trans (or_congr_left ?_)
        rw [hitems₁]
        refine ⟨fun hs => hs.1.resolve_right hs.2, fun hs => ⟨.inl hs, ?_⟩⟩
        rintro rfl
        exact hs.2 (ItemTable.id_inj hs.1 hr₁ rfl)
      have hops : db₂.ops = w₁.db.ops :=
        (DbCall.ops_run_eq rfl rfl).trans (DbCall.ops_run_eq rfl rfl)
      obtain ⟨h₂, hsettled⟩ := @Inv.madeFile _ _ _ w₁
        { w₁ with
          db := db₂
          remote := (w₁.remote.send env.md5
            (.uploadMultipart parent name (Engine.contentTypeFor name) b)).2
          inFlight := (FileId.id f.num :: w₁.inFlight).erase (.id f.num) }
        F T r _ f b h₁ hr₁ hnone hfile htracked (hd.symm ▸ hnew) (hat parent rfl) hfname
        (regular_contentTypeFor name hmime) hcontent hitems₂ hops rfl
      exact performed_of_settled h₂ (hops.trans haside₁.ops) ((hitems₂ _).mpr (.inr rfl)) rfl
        hsettled
  · rw [hanswer]
    exact performed_of_error (h₁.congr rfl rfl hd) haside₁.ops

/-- **An upload.** -/
lemma ends_executeUpload_inv (hcond : Replayable env w₀ F) (h : Inv env root w₀ F (fun _ => False) w)
    (ho : Orderly w.remote) (hr : r ∈ w.db.items) (hok : OpOk env F r .upload) :
    Ends env (Performed env root w₀ F (fun _ => False) r w)
      (Dispatcher.executeUpload env root r) w := by
  obtain ⟨⟨b, hfile⟩, -, htracked⟩ := hok
  have hbytes : w.fs.node r.relativePath = some (.file b) := h.fs.symm ▸ hfile
  have hisFile : w.fs.isFile r.relativePath = true := Fs.isFile_iff.mpr ⟨b, hbytes⟩
  have hread : w.fs.readFile r.relativePath = .ok b := by
    rw [Fs.readFile, hbytes]
  simp only [Ends, Dispatcher.executeUpload, Prog.bind_eq, Prog.safe_bind, safe_io, FsCall.run,
    hisFile, if_true, Dispatcher.computeLocal, safe_ioTry, hread, Prog.pure_eq, Prog.safe_pure,
    true_and, forall_const]
  split
  · next hsame =>
    refine performed_of_settled h rfl hr rfl ⟨fun ht hp => ⟨b, hfile, ?_⟩, fun hkind hp => ?_⟩
    · cases (h.rows r hr).stand ht hp with
      | waiting md5 =>
        rw [md5] at hsame
        cases hsame.1
      | placed c file placed =>
        rw [hfile] at file
        obtain rfl := Node.file.inj (Option.some.inj file)
        exact placed
      | old c before placed =>
        have hmd5 := Option.some.inj (placed.print.1.symm.trans hsame.1)
        have hlen := Option.some.inj (placed.print.2.symm.trans hsame.2)
        obtain rfl := hcond.prints _ b c hp before hfile hmd5.symm hlen.symm
        exact placed
    · have hdir := ((h.rows r hr).dir hkind hp).2.1
      rw [hfile] at hdir
      cases hdir
  · cases hremote : r.remoteId with
    | some rid => exact ends_update_inv h ho hr hremote hfile
    | none => exact ends_firstUpload_inv h ho hr hremote hfile htracked

/-! ## Deletions -/

/-- **A deletion**: the object of the row is gone, and so are the row and its operations. -/
lemma Inv.deleted {n : ℕ} (h : Inv env root w₀ F T w) (hr : r ∈ w.db.items) (ht : Tracked r)
    (hp : Seen env r.relativePath) (hnode : F.node r.relativePath = none)
    (hbound : r.remoteId = some (.id n)) (hgone : w.remote.drive.Gone n w'.remote.drive)
    (hitems : ∀ s, s ∈ w'.db.items ↔ s ∈ w.db.items ∧ s ≠ r)
    (hops : ∀ o, o ∈ w'.db.ops ↔ o ∈ w.db.ops ∧ o.syncItemId ≠ r.id) (hfs : w'.fs = w.fs) :
    Inv env root w₀ F T w' := by
  -- no other row is bound to the object
  have hother : ∀ s ∈ w.db.items, s ≠ r → s.remoteId ≠ some (.id n) := fun s hs hne heq =>
    hne (h.only r hr ht hp (by simp [hbound]) s hs (heq.trans hbound.symm))
  refine ⟨hfs.trans h.fs, ⟨fun g' hg' m hm => ?_, ?_, fun p q m hp hq => ?_⟩, fun p m hm hseen => ?_,
    fun p g hg hreg hseen => ?_, fun s hs => ?_, fun s hs ht hp hne s' hs' heq => ?_, fun o ho => ?_,
    fun p hnode' hseen => ?_⟩
  · obtain ⟨g, hg, hparents⟩ := hgone.parents g' hg'
    rw [hgone.next]
    exact h.tree.ground g hg m (hparents ▸ hm)
  · rw [hgone.next, hgone.resolve]
    exact h.tree.mapped
  · exact h.tree.one p q m ((hgone.folder root p m).mp hp) ((hgone.folder root q m).mp hq)
  · exact h.folders p m ((hgone.folder root p m).mp hm) hseen
  · obtain ⟨hg, hne⟩ := (hgone.object root p g).mp hg
    obtain ⟨s, hs, hpath, hts, hsbound⟩ := h.objects p g hg hreg hseen
    refine ⟨s, (hitems s).mpr ⟨hs, ?_⟩, hpath, hts, hsbound⟩
    rintro rfl
    exact hne (FileId.id.inj (Option.some.inj (hsbound.symm.trans hbound)))
  · obtain ⟨hs, hne⟩ := (hitems s).mp hs
    refine (h.rows s hs).mono hgone.next.ge (fun p m => (hgone.folder root p m).mpr)
      (fun _ _ b ⟨hprint, g, hg, hcontent, hat⟩ => ⟨hprint, g, hg, hcontent, ?_⟩)
      (fun g' hg' hid => ⟨g', hgone.others g' hg' ?_, rfl, rfl, rfl⟩)
      (fun op ⟨o, ho, hop, hid⟩ => ⟨o, (hops o).mpr ⟨ho, ?_⟩, hop, hid⟩) id
    · refine (hgone.object root _ g).mpr ⟨hat, ?_⟩
      rintro rfl
      exact hother s hs hne hg
    · rintro rfl
      exact hother s hs hne hid
    · rw [hid]
      exact fun heq => hne (ItemTable.id_inj hs hr heq)
  · exact h.only s ((hitems s).mp hs).1 ht hp hne s' ((hitems s').mp hs').1 heq
  · obtain ⟨ho, hne⟩ := (hops o).mp ho
    obtain ⟨s, hs, hid, hok⟩ := h.ops o ho
    refine ⟨s, (hitems s).mpr ⟨hs, ?_⟩, hid, hok⟩
    rintro rfl
    exact hne hid.symm
  · refine (h.nodes p hnode' hseen).imp id ?_
    rintro ⟨s, hs, hpath⟩
    refine ⟨s, (hitems s).mpr ⟨hs, ?_⟩, hpath⟩
    rintro rfl
    exact hnode' (hpath ▸ hnode)

/-- A row that is deleted. -/
lemma deleteItem_items (db : Db) (hr : r ∈ db.items) (s : SyncItem) :
    s ∈ (DbCall.run (.deleteItem r.id) db).2.items ↔ s ∈ db.items ∧ s ≠ r := by
  simp only [DbCall.run, Db.items_withItems, ItemTable.mem_delete]
  exact and_congr_right fun hs =>
    ⟨fun hne heq => hne (heq ▸ rfl), fun hne heq => hne (ItemTable.id_inj hs hr heq)⟩

/-- The operations of the row go with it. -/
lemma deleteItem_ops (db : Db) (id : ItemId) (o : PendingOperation) :
    o ∈ (DbCall.run (.deleteItem id) db).2.ops ↔ o ∈ db.ops ∧ o.syncItemId ≠ id := by
  simp only [DbCall.run, Db.mem_ops_withItems, ItemTable.mem_delete]
  refine and_congr_right fun ho => ⟨?_, fun hne => ?_⟩
  · rintro ⟨s, ⟨_, hne⟩, hid⟩
    exact hid ▸ hne
  · obtain ⟨s, hs, hid⟩ := db.ops_owned o ho
    exact ⟨s, ⟨hs, hid.symm ▸ hne⟩, hid⟩

/-- The request of a deletion, in either mode. -/
lemma ends_deleteRequest_inv {n : ℕ} (h : Inv env root w₀ F (fun _ => False) w)
    (ho : Orderly w.remote) (hr : r ∈ w.db.items) (ht : Tracked r) (hp : Seen env r.relativePath)
    (hnode : F.node r.relativePath = none) (hbound : r.remoteId = some (.id n)) {c : DriveCall Unit}
    {d' : Drive} (hrun : c.run env.md5 w.remote.drive = (.ok (), d'))
    (hgone : w.remote.drive.Gone n d') :
    Ends env (Performed env root w₀ F (fun _ => False) r w)
      (withMark (.id n) do
        match ← (request c).attempt with
        | .ok () => sql (.deleteItem r.id)
        | .error e =>
          if e.isInsufficientPermissions then Dispatcher.deleteRefused r (.id n)
          else .fail e) w := by
  simp only [Ends, safe_withMark, Prog.bind_eq, Prog.safe_bind, Prog.safe_attempt, safe_request,
    true_and, forall_const]
  obtain ⟨-, hsend⟩ := @Orderly.send _ env.md5 c _ ho
  rcases hsend with ⟨hanswer, hd⟩ | ⟨e, hanswer, hperm, hd⟩
  · rw [hrun] at hanswer hd
    rw [hanswer]
    simp only [safe_sql, true_and, forall_const]
    have h₁ := @Inv.deleted _ _ _ w
      { w with
        db := (DbCall.run (.deleteItem r.id) w.db).2
        remote := (w.remote.send env.md5 c).2
        inFlight := (FileId.id n :: w.inFlight).erase (.id n) }
      F _ r n h hr ht hp hnode hbound (hd.symm ▸ hgone) (deleteItem_items w.db hr)
      (deleteItem_ops w.db r.id) rfl
    refine ⟨h₁, fun o ho => ((deleteItem_ops w.db r.id o).mp ho).1, fun _ s hs hid => ?_⟩
    obtain ⟨hs, hne⟩ := (deleteItem_items w.db hr s).mp hs
    exact absurd (ItemTable.id_inj hs hr hid) hne
  · rw [hanswer]
    simp only [hperm, Bool.false_eq_true, if_false]
    exact performed_of_error (h.congr rfl rfl hd) rfl

/-- **A deletion on Drive.** -/
lemma ends_executeDeleteRemote_inv (h : Inv env root w₀ F (fun _ => False) w)
    (ho : Orderly w.remote) (hr : r ∈ w.db.items) (hok : OpOk env F r .deleteRemote) :
    Ends env (Performed env root w₀ F (fun _ => False) r w)
      (Dispatcher.executeDeleteRemote env r) w := by
  obtain ⟨ht, hp, hnode⟩ := hok
  have hrow := h.rows r hr
  obtain ⟨f, hbound, hat, howned⟩ : ∃ f, r.remoteId = some (.id f.num) ∧
      ObjectAt w.remote.drive root r.relativePath f ∧ f.owned = true := by
    cases hrow.stand ht hp with
    | waiting md5 remote file =>
      obtain ⟨b, hfile⟩ := file
      rw [hnode] at hfile
      cases hfile
    | placed b file =>
      rw [hnode] at file
      cases file
    | old c before placed owned =>
      obtain ⟨f, hf, -, hat⟩ := placed.object
      exact ⟨f, hf, hat, owned hnode f hat.mem hf⟩
  have hfound : w.remote.drive.file (.id f.num) = some f :=
    Data.Serial.get_eq_some.mpr ⟨hat.mem, rfl⟩
  have hno : ∀ x ∈ w.remote.drive.files, x.num = f.num → x.mimeType ≠ folderMime := by
    intro x hx hnum
    rw [w.remote.drive.files.key_inj hx hat.mem hnum]
    exact (hrow.regular ht hp f hat.mem hbound).1
  unfold Dispatcher.executeDeleteRemote
  simp only [hbound, Engine.deleteRemote]
  cases env.deleteMode with
  | trash =>
    refine ends_deleteRequest_inv h ho hr ht hp hnode hbound (c := .trash (.id f.num)) ?_
      (Drive.gone_of_trash hno)
    simp [DriveCall.run, DriveCall.onFile, hfound, howned]
  | permanent =>
    refine ends_deleteRequest_inv h ho hr ht hp hnode hbound (c := .deleteFile (.id f.num)) ?_
      (Drive.gone_of_remove hno)
    simp [DriveCall.run, DriveCall.onFile, hfound, howned]

/-! ## New directories -/

/-- **A directory is made on Drive.** -/
lemma ends_createDirRemote_inv (h : Inv env root w₀ F (fun _ => False) w) (ho : Orderly w.remote)
    (hr : r ∈ w.db.items) (hdir : F.node r.relativePath = some .dir) :
    Ends env (Performed env root w₀ F (fun _ => False) r w)
      (do
        let _ ← Dispatcher.ensureRemoteFolder root r.relativePath
        pure ()) w := by
  have hinside := (h.rows r hr).inside
  simp only [Ends, Prog.bind_eq]
  refine Prog.Safe.bind (Ends.and (ends_ensureSegments_inv h ho .root hdir hinside.2)
    (ends_ensureSegments (List.prefix_refl _))) (fun n w₁ ⟨⟨⟨h₁, _, hf⟩, hat⟩, haside, _⟩ => ?_)
    fun e w₁ ⟨⟨⟨h₁, _⟩, _⟩, haside, _⟩ => performed_of_error h₁ haside.ops
  obtain ⟨r', hr', hid, hpath⟩ := hf r hr
  have hsettled : Settled env root F w₁ r' := by
    refine ⟨fun ht hp => ?_, fun _ _ => ⟨w₁.remote.drive.resolve n, ?_⟩⟩
    · exact absurd (hpath ▸ hdir) ((h₁.rows r' hr').file ht.1 hp)
    · rw [hpath]
      exact hat n rfl
  exact performed_of_settled h₁ haside.ops hr' hid hsettled

/-! ## The drain -/

/-- **A step of the dispatcher** keeps the invariant. -/
lemma Inv.drain (hcond : Replayable env w₀ F) (h : Inv env root w₀ F (fun _ => False) w)
    (ho : Orderly w.remote) :
    Inv env root w₀ F (fun _ => False) (runTask env (Dispatcher.drainOne env root) w).2 := by
  rcases drainOne_cases env root w with ⟨-, hsame⟩ | ⟨op, hnext, hcase⟩
  · exact hsame.symm ▸ h
  rcases hcase with ⟨-, hretried⟩ | ⟨-, x, w₁, hrun, hafter⟩
  · exact h.retried hretried
  obtain ⟨hop, -⟩ := OpTable.nextDue_mem hnext
  obtain ⟨r, hr, hid, hok⟩ := h.ops op hop
  have hget : w.db.items.getById op.syncItemId = some r :=
    ItemTable.getById_eq_some.mpr ⟨hr, hid⟩
  have hexecute : (Dispatcher.execute env root op).run (handle env) w =
      (Dispatcher.executeItem env root op r).run (handle env) w := by
    simp only [Dispatcher.execute, sql, Prog.lift, Prog.bind_eq, Prog.call_bind, Prog.pure_bind,
      Prog.run_call, handle_db, DbCall.run, hget]
  have hperformed : Ends env (Performed env root w₀ F (fun _ => False) r w)
      (Dispatcher.executeItem env root op r) w := by
    unfold Dispatcher.executeItem
    cases hkind : op.op <;> rw [hkind] at hok
    case upload => exact ends_executeUpload_inv hcond h ho hr hok
    case deleteRemote => exact ends_executeDeleteRemote_inv h ho hr hok
    case createDirRemote => exact ends_createDirRemote_inv h ho hr hok
    all_goals exact absurd hok id
  have hends := hperformed.run
  rw [runTask, hexecute] at hrun
  rw [runTask, hrun] at hends
  cases x with
  | error e => exact hends.inv.retried hafter
  | ok u =>
    refine hends.inv.completed hafter fun o ho' hsame s hs hsid => ?_
    obtain rfl := w.db.ops.key_inj (hends.ops o ho') hop hsame
    exact hends.settled rfl s hs (hsid.trans hid.symm)

/-- With nothing queued, the Drive tree equals the local tree. -/
lemma Inv.mirrors (h : Inv env root w₀ F (fun _ => False) w) (hempty : Drained w) :
    Mirrors env root w₀ w := by
  have hidle : ∀ op (s : SyncItem), ¬Queued op s w := fun op s ⟨o, ho, _⟩ => hempty o ho
  have hplaced : ∀ r ∈ w.db.items, Tracked r → Seen env r.relativePath →
      ∃ b, F.node r.relativePath = some (.file b) ∧ Placed env root r b w := by
    intro r hr ht hp
    cases (h.rows r hr).stand ht hp with
    | waiting md5 remote file queued => exact absurd queued (hidle _ _)
    | placed b file placed => exact ⟨b, file, placed⟩
    | old c before placed owned next =>
      rcases next with hT | ⟨-, hqueued⟩ | ⟨-, hqueued⟩
      · cases hT
      · exact absurd hqueued (hidle _ _)
      · exact absurd hqueued (hidle _ _)
  have hcontent : ∀ p f, ObjectAt w.remote.drive root p f → Regular f → Seen env p →
      ∃ b, f.content = some b ∧ F.node p = some (.file b) := by
    intro p f hf hreg hp
    obtain ⟨r, hr, rfl, ht, hbound⟩ := h.objects p f hf hreg hp
    obtain ⟨b, hfile, -, g, hg, hgcontent, hat⟩ := hplaced r hr ht hp
    have hnum : g.num = f.num := FileId.id.inj (Option.some.inj (hg.symm.trans hbound))
    rw [w.remote.drive.files.key_inj hat.mem hf.mem hnum] at hgcontent
    exact ⟨b, hgcontent, hfile⟩
  refine ⟨fun p hp => ⟨fun ⟨n, hn⟩ => h.fs.symm ▸ h.folders p n hn hp, fun hdir => ?_⟩,
    fun p hp hpointer b => ⟨fun ⟨f, hf, hreg, hb⟩ => ?_, fun hfile => ?_⟩, fun p f hf hreg hp => ?_⟩
  · rw [h.fs] at hdir
    obtain ⟨r, hr, rfl⟩ := (h.nodes p (by simp [hdir]) hp).resolve_left id
    cases hkind : r.kind with
    | file => exact absurd hdir ((h.rows r hr).file hkind hp)
    | dir => exact ((h.rows r hr).dir hkind hp).2.2.resolve_right (hidle _ _)
  · obtain ⟨b', hb', hfile⟩ := hcontent p f hf hreg hp
    rw [h.fs, hfile, Option.some.inj (hb'.symm.trans hb)]
  · rw [h.fs] at hfile
    obtain ⟨r, hr, rfl⟩ := (h.nodes p (by simp [hfile]) hp).resolve_left id
    have hskip : r.state ≠ .skipped := fun hs => hpointer ((h.rows r hr).skipped hs)
    have ht := (h.rows r hr).tracked hfile hskip hp
    obtain ⟨b', hfile', -, f, hbound, hb, hat⟩ := hplaced r hr ht hp
    rw [hfile] at hfile'
    obtain rfl := Node.file.inj (Option.some.inj hfile')
    exact ⟨f, hat, (h.rows r hr).regular ht hp f hat.mem hbound, hb⟩
  · obtain ⟨b, hb, -⟩ := hcontent p f hf hreg hp
    simp [hb]

/-! ## The catch-up -/

/-- What happens while the daemon is stopped: a call of the user on the local tree, or time passes
and the connection changes. -/
inductive Offline : World → World → Prop
  | user {β : Type} (c : FsCall β) (w : World) : Offline w { w with fs := (c.run w.fs).2 }
  | wait (w : World) (now : ℕ) (faults : List (Option Fault)) (jitters : List ℤ) :
    Offline w { w with remote := ⟨w.remote.drive, faults⟩, inFlight := [], now, jitters }

/-- The drain of the queue, with requests that fail in an orderly way only. -/
def Replays (env : Env) (root : FileId) : World → World → Prop :=
  Relation.ReflTransGen fun w w' => Orderly w.remote ∧ DrainStep env root w w'

/-- The drain of the queue keeps the invariant. -/
lemma Inv.replays (hcond : Replayable env w₀ F) (h : Inv env root w₀ F (fun _ => False) w)
    (hr : Replays env root w w') : Inv env root w₀ F (fun _ => False) w' := by
  induction hr with
  | refl => exact h
  | tail _ hstep ih =>
    obtain ⟨horderly, hstep⟩ := hstep
    cases hstep with
    | drain => exact ih.drain hcond horderly
    | wait now faults jitters later => exact ih.congr rfl rfl rfl

/-- The database and Drive stay as they are while the daemon is stopped. -/
lemma offline_keeps (h : Relation.ReflTransGen Offline w w') :
    w'.db = w.db ∧ w'.remote.drive = w.remote.drive := by
  induction h with
  | refl => exact ⟨rfl, rfl⟩
  | tail _ hstep ih =>
    cases hstep with
    | user c => exact ih
    | wait now faults jitters => exact ih

/-- **The startup catch-up.** From every state in which rows, local tree and Drive agree, and for
every sequence of calls on the local tree while the daemon is stopped that leaves a tree which can
be replayed: when the requests of the startup scan go well, and those of the drain fail in an
orderly way only, then once the queue has drained the Drive tree equals the local tree.

**Proof sketch.** Every row is looked at by the scan, or its operation is queued, or it is settled
(`ends_startupLocalScan`), and the operations settle their rows (`Inv.drain`); with an empty queue
all rows are settled (`Inv.mirrors`). -/
theorem replay_mirrors {w₁ : World} (hsynced : Synced env root w₀)
    (hoffline : Relation.ReflTransGen Offline w₀ w₁) (hcond : Replayable env w₀ w₁.fs)
    (hcalm : Calm w₁) (hdrain : Replays env root
      (runTask env (StartupScan.startupLocalScan env) w₁).2 w) (hempty : Drained w) :
    w.fs = w₁.fs ∧ Mirrors env root w₀ w := by
  obtain ⟨hdb, hdrive⟩ := offline_keeps hoffline
  have hscanned := (ends_startupLocalScan hcond
    (inv_of_synced hsynced hcond rfl hdb hdrive) hcalm).run.2
  have hinv := hscanned.replays hcond hdrain
  exact ⟨hinv.fs, hinv.mirrors hempty⟩

/-! ## A directory with a file -/

/-- The startup scan. -/
def scanned (w : World) : World := (runTask .plain (StartupScan.startupLocalScan .plain) w).2

/-- The dispatcher takes an operation. -/
def drained (w : World) : World := (runTask .plain (Dispatcher.drainOne .plain (.id 2)) w).2

lemma replays_drained (h : w.remote.faults = []) : Replays .plain (.id 2) w (drained w) := by
  refine .single ⟨?_, .drain w⟩
  rw [Orderly, h]
  exact fun x hx => by cases hx

/-- The folders of the sample. -/
lemma folderAt_sample {n : ℕ} (h : FolderAt sampleNested (.id 2) p n) :
    p = [] ∧ n = 2 ∨ p = ["d"] ∧ n = 3 := by
  induction h with
  | root => exact .inl ⟨rfl, rfl⟩
  | child above mem parent live folder ih =>
    have hfiles := Data.Serial.mem_def.mp mem
    simp only [sampleNested, List.mem_cons, List.not_mem_nil, or_false] at hfiles
    rcases hfiles with rfl | rfl | rfl | rfl
    · cases parent
    · simp only [List.mem_singleton] at parent
      omega
    · simp only [List.mem_singleton] at parent
      rcases ih with ⟨rfl, -⟩ | ⟨-, rfl⟩
      · exact .inr ⟨rfl, rfl⟩
      · omega
    · exact absurd folder (by decide)

/-- The folder `d`. -/
lemma folderAt_d : FolderAt sampleNested (.id 2) ["d"] 3 :=
  @FolderAt.child sampleNested (.id 2) [] 2 ⟨3, "d", folderMime, none, [2], false, true, true⟩
    .root (by simp [Data.Serial.mem_def, sampleNested]) (by simp) rfl rfl

/-- The regular file of the sample. -/
lemma objectAt_sample {f : DriveFile} (h : ObjectAt sampleNested (.id 2) p f) (hf : Regular f) :
    p = ["d", "a.txt"] ∧ f = ⟨4, "a.txt", "text/plain", some [65], [3], false, true, true⟩ := by
  have hfiles := Data.Serial.mem_def.mp h.mem
  simp only [sampleNested, List.mem_cons, List.not_mem_nil, or_false] at hfiles
  rcases hfiles with rfl | rfl | rfl | rfl
  · exact absurd rfl hf.1
  · exact absurd rfl hf.1
  · exact absurd rfl hf.1
  · obtain ⟨n, hn, hparent⟩ := h.folder
    simp only [List.mem_singleton] at hparent
    subst hparent
    obtain ⟨hdrop, -⟩ := (folderAt_sample hn).resolve_left fun h => absurd h.2 (by decide)
    have hne : p ≠ [] := by
      rintro rfl
      cases hdrop
    obtain ⟨x, rfl⟩ : ∃ x, p = ["d"] ++ [x] :=
      ⟨p.getLast hne, by rw [← hdrop, List.dropLast_append_getLast]⟩
    have hname : "a.txt" = x := h.name.trans (by simp)
    exact ⟨by simp [← hname], rfl⟩

/-- A drive is given by its objects, its counter, its root and its feed. -/
lemma drive_eq {d d' : Drive} (hrows : d.files.table.rows = d'.files.table.rows)
    (hnext : d.files.next = d'.files.next) (hroot : d.rootNum = d'.rootNum)
    (hfeed : d.feed = d'.feed) : d = d' := by
  obtain ⟨⟨⟨rows, nodup⟩, next, below⟩, rootNum, feed⟩ := d
  obtain ⟨⟨⟨rows', nodup'⟩, next', below'⟩, rootNum', feed'⟩ := d'
  dsimp only at hrows hnext hroot hfeed
  subst hrows hnext hroot hfeed
  rfl

lemma sample_drive : sampleArrived.remote.drive = sampleNested :=
  drive_eq (by decide +kernel) (by decide +kernel) (by decide +kernel) (by decide +kernel)

/-- The row of `d`. -/
def sampleDir : SyncItem := ⟨1, ["d"], .dir, some (.id 3), none, none, .synced, none⟩

/-- The row of `d/a.txt`. -/
def sampleFile : SyncItem :=
  ⟨2, ["d", "a.txt"], .file, some (.id 4), some 1, some "A", .pendingLocal, none⟩

/-- What the arrival leaves. -/
lemma sample_arrived : sampleArrived.db.items.rows = [sampleDir, sampleFile] ∧
    sampleArrived.fs.nodes.rows = [(["d"], .dir), (["d", "a.txt"], .file [65])] ∧
    sampleArrived.db.ops.rows = [] ∧ sampleArrived.remote.faults = [] := by decide +kernel

lemma mem_sample {s : SyncItem} : s ∈ sampleArrived.db.items ↔ s = sampleDir ∨ s = sampleFile := by
  rw [← ItemTable.mem_rows, sample_arrived.1]
  simp

lemma node_sample (hp : p ≠ []) {n : Node} : sampleArrived.fs.node p = some n ↔
    p = ["d"] ∧ n = .dir ∨ p = ["d", "a.txt"] ∧ n = .file [65] := by
  rw [Fs.node_of_ne_nil _ hp, Data.FinMap.val_eq_some, sample_arrived.2.1]
  simp

/-- Rows, local tree and Drive agree. -/
lemma sample_synced : Synced .plain (.id 2) sampleArrived where
  idle := drained_of_rows sample_arrived.2.2.1
  tree := by
    rw [sample_drive]
    refine ⟨fun f hf n hn => ?_, by decide, fun p q n hp hq => ?_⟩
    · have hfiles := Data.Serial.mem_def.mp hf
      simp only [sampleNested, List.mem_cons, List.not_mem_nil, or_false] at hfiles ⊢
      rcases hfiles with rfl | rfl | rfl | rfl <;> simp_all
    · have hp := folderAt_sample hp
      have hq := folderAt_sample hq
      grind
  inside r hr := by
    rcases mem_sample.mp hr with rfl | rfl <;> exact ⟨by decide, by decide⟩
  bound r hr rid hrid := by
    rw [sample_drive]
    rcases mem_sample.mp hr with rfl | rfl
    · exact ⟨3, by decide, (Option.some.inj hrid).symm⟩
    · exact ⟨4, by decide, (Option.some.inj hrid).symm⟩
  nodes p hnode hp := by
    obtain ⟨n, hn⟩ := Option.ne_none_iff_exists'.mp hnode
    rcases (node_sample hp.1.1).mp hn with ⟨rfl, -⟩ | ⟨rfl, -⟩
    · exact ⟨sampleDir, mem_sample.mpr (.inl rfl), rfl⟩
    · exact ⟨sampleFile, mem_sample.mpr (.inr rfl), rfl⟩
  folders p n hn hp := by
    rw [sample_drive] at hn
    rcases folderAt_sample hn with ⟨rfl, -⟩ | ⟨rfl, -⟩
    · exact absurd rfl hp.1.1
    · exact (node_sample hp.1.1).mpr (.inl ⟨rfl, rfl⟩)
  objects p f hf hreg hp := by
    rw [sample_drive] at hf
    obtain ⟨rfl, rfl⟩ := objectAt_sample hf hreg
    exact ⟨sampleFile, mem_sample.mpr (.inr rfl), rfl, ⟨rfl, by decide, rfl⟩, rfl⟩
  dirs r hr hkind hp := by
    rcases mem_sample.mp hr with rfl | rfl
    · rw [sample_drive]
      exact ⟨rfl, (node_sample hp.1.1).mpr (.inl ⟨rfl, rfl⟩), 3, folderAt_d⟩
    · cases hkind
  files r hr ht hp := by
    rcases mem_sample.mp hr with rfl | rfl
    · cases ht.1
    · refine ⟨[65], (node_sample hp.1.1).mpr (.inr ⟨rfl, rfl⟩), ⟨by decide, rfl⟩,
        ⟨4, "a.txt", "text/plain", some [65], [3], false, true, true⟩, rfl, rfl, ?_⟩
      rw [sample_drive]
      exact ⟨by simp [Data.Serial.mem_def, sampleNested], ⟨3, folderAt_d, by simp⟩, rfl, rfl⟩
  own r hr ht hp := by
    rcases mem_sample.mp hr with rfl | rfl
    · cases ht.1
    · refine ⟨fun s hs hsame => ?_, fun f hf hbound => ?_⟩
      · rcases mem_sample.mp hs with rfl | rfl
        · cases hsame
        · rfl
      · rw [sample_drive] at hf
        have hfiles := Data.Serial.mem_def.mp hf
        simp only [sampleNested, List.mem_cons, List.not_mem_nil, or_false] at hfiles
        rcases hfiles with rfl | rfl | rfl | rfl
        · cases hbound
        · cases hbound
        · cases hbound
        · exact ⟨by decide, by decide⟩

/-- The user deletes `d` with its file while the daemon is stopped. The scan finds that the file is
gone, but not that the directory is: the folder stays on Drive. -/
theorem removed_directory_stays :
    Synced .plain (.id 2) sampleArrived ∧ ∃ w₁ w,
      Relation.ReflTransGen Offline sampleArrived w₁ ∧ Calm w₁ ∧
        Replays .plain (.id 2) (scanned w₁) w ∧ Drained w ∧
          ¬Mirrors .plain (.id 2) sampleArrived w := by
  have hafter : (scanned (byUser (.removeDirAll ["d"]) sampleArrived)).remote.faults = [] ∧
      (drained (scanned (byUser (.removeDirAll ["d"]) sampleArrived))).db.ops.rows = [] ∧
      (drained (scanned (byUser (.removeDirAll ["d"]) sampleArrived))).fs.node ["d"] = none ∧
      ⟨3, "d", folderMime, none, [2], false, true, true⟩ ∈ (drained (scanned
        (byUser (.removeDirAll ["d"]) sampleArrived))).remote.drive.files.table.rows := by
    decide +kernel
  obtain ⟨hcalm, hempty, hgone, hstays⟩ := hafter
  refine ⟨sample_synced, byUser (.removeDirAll ["d"]) sampleArrived,
    drained (scanned (byUser (.removeDirAll ["d"]) sampleArrived)),
    .single (.user (.removeDirAll ["d"]) sampleArrived), sample_arrived.2.2.2,
    replays_drained hcalm, drained_of_rows hempty, fun h => ?_⟩
  have hroot : FolderAt (drained (scanned (byUser (.removeDirAll ["d"])
      sampleArrived))).remote.drive (.id 2) [] 2 := .root
  have hdir := (h.folders ["d"] ⟨⟨by decide, by decide⟩, rfl⟩).mp
    ⟨3, hroot.child (Data.Serial.mem_def.mpr hstays) (by simp) rfl rfl⟩
  rw [hgone] at hdir
  cases hdir

/-- The user replaces `d/a.txt` by a new file `d/b.txt` while the daemon is stopped. -/
def sampleReplaced : World :=
  byUser (.writeFile ["d", "b.txt"] [66]) (byUser (.removeFile ["d", "a.txt"]) sampleArrived)

lemma node_replaced (hp : p ≠ []) {n : Node} : sampleReplaced.fs.node p = some n ↔
    p = ["d"] ∧ n = .dir ∨ p = ["d", "b.txt"] ∧ n = .file [66] := by
  have hnodes : sampleReplaced.fs.nodes.rows = [(["d"], .dir), (["d", "b.txt"], .file [66])] := by
    decide +kernel
  rw [Fs.node_of_ne_nil _ hp, Data.FinMap.val_eq_some, hnodes]
  simp

lemma sample_replayable : Replayable .plain sampleArrived sampleReplaced.fs where
  dirs p hp hdir := by
    rcases (node_sample hp.1.1).mp hdir with ⟨rfl, -⟩ | ⟨-, hfile⟩
    · exact (node_replaced hp.1.1).mpr (.inl ⟨rfl, rfl⟩)
    · cases hfile
  files r hr hkind hp hdir := by
    rcases mem_sample.mp hr with rfl | rfl
    · cases hkind
    · rcases (node_replaced hp.1.1).mp hdir with ⟨hpath, -⟩ | ⟨hpath, -⟩
      · exact absurd hpath (by decide)
      · exact absurd hpath (by decide)
  tombs r hr htomb := by
    rcases mem_sample.mp hr with rfl | rfl <;> exact absurd rfl htomb
  prints p b c hp hbefore hafter := by
    rcases (node_sample hp.1.1).mp hbefore with ⟨rfl, -⟩ | ⟨rfl, -⟩
    all_goals
      rcases (node_replaced hp.1.1).mp hafter with ⟨hpath, hdir⟩ | ⟨hpath, -⟩
    · cases hdir
    · exact absurd hpath (by decide)
    · exact absurd hpath (by decide)
    · exact absurd hpath (by decide)
  owned r hr ht hp hgone f hf hbound := by
    rw [sample_drive] at hf
    have hfiles := Data.Serial.mem_def.mp hf
    simp only [sampleNested, List.mem_cons, List.not_mem_nil, or_false] at hfiles
    rcases hfiles with rfl | rfl | rfl | rfl <;> rfl

/-- The new file is uploaded and the object of the old one deleted: Drive mirrors the tree. -/
theorem replaced_file_mirrors :
    Mirrors .plain (.id 2) sampleArrived (drained (drained (scanned sampleReplaced))) := by
  have hoffline : Relation.ReflTransGen Offline sampleArrived sampleReplaced :=
    .tail (.single (.user (.removeFile ["d", "a.txt"]) sampleArrived))
      (.user (.writeFile ["d", "b.txt"] [66]) _)
  have hafter : sampleReplaced.remote.faults = [] ∧ (scanned sampleReplaced).remote.faults = [] ∧
      (drained (scanned sampleReplaced)).remote.faults = [] ∧
      (drained (drained (scanned sampleReplaced))).db.ops.rows = [] := by decide +kernel
  obtain ⟨hcalm, hscanned, hdrained, hempty⟩ := hafter
  have hdrain : Replays .plain (.id 2)
      (runTask .plain (StartupScan.startupLocalScan .plain) sampleReplaced).2
      (drained (drained (scanned sampleReplaced))) :=
    (replays_drained hscanned).trans (replays_drained hdrained)
  exact (replay_mirrors sample_synced hoffline sample_replayable hcalm hdrain
    (drained_of_rows hempty)).2

end AirDrive.CatchUp
