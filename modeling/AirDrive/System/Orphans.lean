import AirDrive.Drive.Distinct
import AirDrive.System.Binding
import AirDrive.System.LocalWork
import AirDrive.Daemon.Places

set_option relaxedAutoImplicit false
set_option autoImplicit false

/-!
# Objects without a row

A rename onto a path that has a row drops one of the two rows, and the object of the dropped row
stays on Drive, next to the one that takes its path. Where the rows that are dropped or bound anew
stand for nothing on Drive, and no object is at the paths where others arrive, every object keeps a
row and every path leads to one object.

## Main definitions

* `AirDrive.Orphans.OnDrive`, `AirDrive.Orphans.Held` — the object is on Drive, and has a row.
* `AirDrive.Orphans.Tidy` — every path on Drive leads to one object at most.
* `AirDrive.Orphans.Spares` — the operation drops no row of an object on Drive.
* `AirDrive.Orphans.RenameSafe` — what is claimed of a local rename and the drain after it.

## Main results

* `AirDrive.Orphans.kept_call` — a call keeps the object and its row together.
* `AirDrive.Orphans.tidy_call` — a call puts no two objects at one path.
* `AirDrive.Orphans.rename_safe` — the claim holds for operations that drop no such row.
* `AirDrive.Orphans.overwritten_file_orphaned` — it fails when a file is renamed onto another.
-/

namespace AirDrive.Orphans

open Effect Dispatcher Continuous Outcomes Kinds KindSafety

/-! ## An object and its row -/

/-- The object is on Drive: not in the trash, and in some folder. -/
def OnDrive (d : Drive) (n : ℕ) : Prop :=
  ∃ f ∈ d.files, f.num = n ∧ f.trashed = false ∧ f.parents ≠ []

/-- A live row is bound to the object. -/
def Held (items : ItemTable) (n : ℕ) : Prop :=
  ∃ r ∈ items, r.trashedAt = none ∧ r.remoteId = some (.id n)

/-- The object was made, and has a live row while it is on Drive. -/
structure Kept (n : ℕ) (w : World) : Prop where
  made : n < w.remote.drive.files.next
  held : OnDrive w.remote.drive n → Held w.db.items n

/-- The object that a request renames or moves. -/
def moves : {α : Type} → DriveCall α → Option FileId
  | _, .patchFile id _ _ => some id
  | _, _ => none

/-- A live object lies in a folder. -/
def Placed (d : Drive) (n : ℕ) : Prop :=
  ∀ f ∈ d.files, f.num = n → f.trashed = false → f.parents ≠ []

/-- The call drops, hides or rebinds no row of the object while it is on Drive, and moves the object
only when it lies in a folder. -/
def Gentle (n : ℕ) (w : World) : {β : Type} → Call β → Prop
  | _, .db (.deleteItem id) => ∀ r ∈ w.db.items, r.id = id → r.remoteId = some (.id n) →
    ¬OnDrive w.remote.drive n
  | _, .db (.markTrashed id _) => ∀ r ∈ w.db.items, r.id = id → r.remoteId = some (.id n) →
    ¬OnDrive w.remote.drive n
  | _, .db (.setRemoteId id rid) => ∀ r ∈ w.db.items, r.id = id → r.remoteId = some (.id n) →
    OnDrive w.remote.drive n → rid = .id n
  | _, .db (.setRelativePath id rel) => ∀ r ∈ w.db.items, r.relativePath = rel → r.id ≠ id →
    r.remoteId = some (.id n) → ¬OnDrive w.remote.drive n
  | _, .db (.renameSubtree old new) => ∀ r ∈ w.db.items, ItemTable.Selected old r →
    r.remoteId = some (.id n) → OnDrive w.remote.drive n → ∀ s ∈ w.db.items,
      (s.relativePath = RelPath.rebase old new r.relativePath ∨ ItemTable.Selected old s ∧
        RelPath.rebase old new s.relativePath = RelPath.rebase old new r.relativePath) → s.id = r.id
  | _, .drive (.patchFile id _ _) => w.remote.drive.resolve id = n → Placed w.remote.drive n
  | _, _ => True

section Calls

variable {env : Env} {w : World} {d d' : Drive} {n : ℕ} {α β : Type}

lemma onDrive_of_shrinks (h : Drive.Shrinks d d') (hn : OnDrive d' n) : OnDrive d n := by
  obtain ⟨g', hg', hnum, hlive, hparents⟩ := hn
  obtain ⟨g, hg, hgnum, hglive, -, -, hsub⟩ := h.files g' hg'
  refine ⟨g, hg, hgnum.trans hnum, hglive hlive, fun hnone => hparents ?_⟩
  rwa [hnone, List.sublist_nil] at hsub

lemma onDrive_of_made {m : ℕ} {f : DriveFile} (h : Drive.Made d m f d') (hn : n < d.files.next)
    (hon : OnDrive d' n) : OnDrive d n := by
  obtain ⟨g, hg, hnum, hlive, hparents⟩ := hon
  rcases (h.mem g).mp hg with hold | rfl
  · exact ⟨g, hold, hnum, hlive, hparents⟩
  · rw [← hnum, h.num] at hn
    exact absurd hn (lt_irrefl _)

/-- While no object changes, an object stays on Drive or away from it. -/
lemma onDrive_extends (h : d.Extends d') (hn : n < d.files.next) (hon : OnDrive d' n) :
    OnDrive d n := by
  obtain ⟨g, hg, rfl, hlive, hparents⟩ := hon
  have hsame := h.same g.num hn
  rw [Data.Serial.get_eq_some.mpr ⟨hg, rfl⟩] at hsame
  exact ⟨g, (Data.Serial.get_eq_some.mp hsame.symm).1, rfl, hlive, hparents⟩

/-- A request brings no object back, unless it moves one that lies in no folder. -/
lemma onDrive_run {md5 : Bytes → String} {c : DriveCall α} (hn : n < d.files.next)
    (hmove : ∀ id, moves c = some id → d.resolve id = n → Placed d n)
    (hon : OnDrive (c.run md5 d).2 n) : OnDrive d n := by
  cases c with
  | createFolder parent name =>
    rcases @DriveCall.made_createFolder md5 d parent name with hsame | ⟨f, hmade, -⟩
    · rwa [hsame] at hon
    · exact onDrive_of_made hmade hn hon
  | uploadMultipart parent name mime bytes =>
    rcases @DriveCall.made_uploadMultipart md5 d parent name mime bytes with
      hsame | ⟨f, hmade, -⟩
    · rwa [hsame] at hon
    · exact onDrive_of_made hmade hn hon
  | patchFile id name move =>
    simp only [DriveCall.run, DriveCall.onFile] at hon
    cases hfile : d.file id with
    | none => simpa only [hfile] using hon
    | some f =>
      obtain ⟨hf, hnum⟩ := Data.Serial.get_eq_some.mp hfile
      simp only [hfile] at hon
      obtain ⟨g, hg, hgnum, hlive, hparents⟩ := hon
      rcases Drive.mem_change.mp hg with ⟨hold, -⟩ | ⟨s, hs, hsnum, rfl⟩
      · exact ⟨g, hold, hgnum, hlive, hparents⟩
      · have hid : d.resolve id = n := by rw [← hnum, ← hsnum, ← hgnum]
        exact ⟨s, hs, hgnum, hlive, hmove id rfl hid s hs hgnum hlive⟩
  | _ => exact onDrive_of_shrinks (DriveCall.shrinks_run rfl) hon

/-- So does a call. -/
lemma onDrive_call {c : Call β} (hn : n < w.remote.drive.files.next) (hgentle : Gentle n w c)
    (hon : OnDrive (handle env β c w).2.remote.drive n) : OnDrive w.remote.drive n := by
  cases c with
  | drive c =>
    rcases @Remote.send_drive _ env.md5 c w.remote with hsame | hrun
    · rw [← hsame]
      exact hon
    · refine onDrive_run (c := c) hn (fun id hid hresolve => ?_) (hrun ▸ hon)
      cases c with
      | patchFile id' name move =>
        obtain rfl := Option.some.inj hid
        exact hgentle hresolve
      | _ => cases hid
  | _ => exact hon

/-- **A call keeps the object and its row together.** -/
lemma kept_call {c : Call β} (h : Kept n w) (hgentle : Gentle n w c) :
    Kept n (handle env β c w).2 := by
  refine ⟨h.made.trans_le (Binding.next_le_handle c), fun hon => ?_⟩
  cases c with
  | db c =>
    obtain ⟨r, hr, hlive, hrid⟩ := h.held hon
    have hpersist := fun hdrops => DbCall.rows_persist (c := c) hdrops hr
    cases c with
    | deleteItem id =>
      by_cases hid : r.id = id
      · exact absurd hon (hgentle r hr hid hrid)
      · exact ⟨r, ItemTable.mem_delete.mpr ⟨hr, hid⟩, hlive, hrid⟩
    | setRelativePath id rel =>
      by_cases hid : r.id = id
      · exact ⟨_, ItemTable.mem_setRelativePath.mpr (.inl ⟨r, hr, hid, rfl⟩), hlive, hrid⟩
      · refine ⟨r, ItemTable.mem_setRelativePath.mpr (.inr ⟨hr, hid, .inl fun hpath => ?_⟩), hlive,
          hrid⟩
        exact hgentle r hr hpath hid hrid hon
    | renameSubtree old new =>
      by_cases hselected : ItemTable.Selected old r
      · have hfree := hgentle r hr hselected hrid hon
        exact ⟨_, ItemTable.mem_renameSubtree_moved hr hselected
          (fun s hs hpath => hfree s hs (.inl hpath))
          (fun s hs hsel hpath => hfree s hs (.inr ⟨hsel, hpath⟩)), hlive, hrid⟩
      · exact ⟨r, ItemTable.mem_renameSubtree_other hr hselected, hlive, hrid⟩
    | gcTombstones cutoff =>
      exact ⟨r, ItemTable.mem_keep.mpr ⟨hr, by simp [DbCall.expired, hlive]⟩, hlive, hrid⟩
    | deleteOp id => exact ⟨r, hr, hlive, hrid⟩
    | setRemoteId id rid =>
      obtain ⟨s, hs, -, hchange⟩ := hpersist rfl
      rcases hchange with rfl | ⟨hrow, rfl⟩
      · exact ⟨s, hs, hlive, hrid⟩
      · exact ⟨_, hs, hlive, congrArg some (hgentle r hr hrow hrid hon)⟩
    | markTrashed id at' =>
      obtain ⟨s, hs, -, hchange⟩ := hpersist rfl
      rcases hchange with rfl | ⟨hrow, rfl⟩
      · exact ⟨s, hs, hlive, hrid⟩
      · exact absurd hon (hgentle r hr hrow hrid)
    | updateFingerprint id size md5 =>
      obtain ⟨s, hs, -, hchange⟩ := hpersist rfl
      rcases hchange with rfl | ⟨-, rfl⟩
      · exact ⟨s, hs, hlive, hrid⟩
      · exact ⟨_, hs, hlive, hrid⟩
    | setState id state =>
      obtain ⟨s, hs, -, hchange⟩ := hpersist rfl
      rcases hchange with rfl | ⟨-, rfl⟩
      · exact ⟨s, hs, hlive, hrid⟩
      · exact ⟨_, hs, hlive, hrid⟩
    | clearTrashed id =>
      obtain ⟨s, hs, -, hchange⟩ := hpersist rfl
      rcases hchange with rfl | ⟨-, rfl⟩
      · exact ⟨s, hs, hlive, hrid⟩
      · exact ⟨_, hs, rfl, hrid⟩
    | _ =>
      obtain ⟨s, hs, -, rfl⟩ := hpersist rfl
      exact ⟨s, hs, hlive, hrid⟩
  | drive c => exact h.held (onDrive_call h.made hgentle hon)
  | _ => exact h.held hon

end Calls

/-! ## The paths on Drive -/

/-- An object lies in one folder at most, which was made, and every path below one of the folders
leads to one object at most. -/
structure Tidy (T : FileId → Prop) (d : Drive) : Prop where
  grounded : d.Grounded
  single : ∀ f ∈ d.files, f.parents.length ≤ 1
  distinct : ∀ root, T root → d.Distinct root

/-- What the call makes or moves gets a name that is free in its folder. -/
def Orderly (w : World) : {β : Type} → Call β → Prop
  | _, .drive (.createFolder parent name) =>
    w.remote.drive.Vacant (w.remote.drive.resolve parent) name w.remote.drive.files.next
  | _, .drive (.uploadMultipart parent name _ _) =>
    w.remote.drive.Vacant (w.remote.drive.resolve parent) name w.remote.drive.files.next
  | _, .drive (.patchFile id name move) => ∀ f, w.remote.drive.file id = some f → ∃ m,
    DriveCall.newParents w.remote.drive f move = [m] ∧ m < w.remote.drive.files.next ∧
      w.remote.drive.Distinct (.id f.num) ∧ w.remote.drive.Vacant m name f.num
  | _, _ => True

section Paths

variable {env : Env} {T : FileId → Prop} {w : World} {d d' : Drive} {n m : ℕ} {f : DriveFile}
  {α β : Type}

lemma Tidy.shrink (h : Tidy T d) (hshrinks : Drive.Shrinks d d') : Tidy T d' := by
  refine ⟨hshrinks.grounded h.grounded, fun g' hg' => ?_,
    fun root hroot => (h.distinct root hroot).shrink hshrinks⟩
  obtain ⟨g, hg, -, -, -, -, hparents⟩ := hshrinks.files g' hg'
  exact hparents.length_le.trans (h.single g hg)

lemma Tidy.made (h : Tidy T d) (hmade : Drive.Made d m f d') (hfree : d.Vacant m f.name f.num) :
    Tidy T d' := by
  refine ⟨hmade.grounded h.grounded, fun g hg => ?_,
    fun root hroot => (h.distinct root hroot).made hmade h.grounded hfree⟩
  rcases (hmade.mem g).mp hg with hg | rfl
  · exact h.single g hg
  · rw [hmade.parents]
    exact Nat.le_refl _

lemma Tidy.moved (h : Tidy T d) (hmoved : Drive.Moved d n m f d') (hm : m < d.files.next)
    (hsub : d.Distinct (.id n)) (hfree : d.Vacant m f.name n) : Tidy T d' := by
  refine ⟨fun g hg k hk => ?_, fun g hg => ?_,
    fun root hroot => (h.distinct root hroot).moved hsub hmoved hfree⟩
  · rw [hmoved.next]
    rcases hmoved.files g hg with ⟨hg, -⟩ | rfl
    · exact h.grounded g hg k hk
    · rw [hmoved.parents, List.mem_singleton] at hk
      rwa [hk]
  · rcases hmoved.files g hg with ⟨hg, -⟩ | rfl
    · exact h.single g hg
    · rw [hmoved.parents]
      exact Nat.le_refl _

/-- **A call puts no two objects at one path.** -/
lemma tidy_call {c : Call β} (h : Tidy T w.remote.drive) (horderly : Orderly w c) :
    Tidy T (handle env β c w).2.remote.drive := by
  cases c with
  | drive c =>
    rcases @Remote.send_drive _ env.md5 c w.remote with hsame | hrun
    · rw [← hsame] at h
      exact h
    · suffices hafter : Tidy T (c.run env.md5 w.remote.drive).2 by
        rw [← hrun] at hafter
        exact hafter
      cases c with
      | createFolder parent name =>
        rcases @DriveCall.made_createFolder env.md5 w.remote.drive parent name with
          hsame | ⟨f, hmade, rfl⟩
        · rwa [hsame]
        · exact h.made hmade (hmade.num ▸ horderly)
      | uploadMultipart parent name mime bytes =>
        rcases @DriveCall.made_uploadMultipart env.md5 w.remote.drive parent name mime bytes with
          hsame | ⟨f, hmade, rfl⟩
        · rwa [hsame]
        · exact h.made hmade (hmade.num ▸ horderly)
      | patchFile id name move =>
        rcases @DriveCall.moved_patchFile env.md5 w.remote.drive id name move with
          hsame | ⟨f, hfile, hmoved⟩
        · rwa [hsame]
        · obtain ⟨m, hparents, hm, hsub, hfree⟩ := horderly f hfile
          exact h.moved (hmoved m hparents) hm hsub hfree
      | _ => exact h.shrink (DriveCall.shrinks_run rfl)
  | _ => exact h

end Paths

/-! ## Programs -/

/-- The objects have their rows, and the paths below the folders lead to one object each. -/
structure Sound (N : ℕ → Prop) (T : FileId → Prop) (w : World) : Prop where
  kept : ∀ n, N n → Kept n w
  tidy : Tidy T w.remote.drive

/-- The calls that drop, hide, rebind or move no row, and make or move no object. -/
def benign : {β : Type} → Call β → Bool
  | _, .db (.deleteItem _) => false
  | _, .db (.markTrashed _ _) => false
  | _, .db (.setRemoteId _ _) => false
  | _, .db (.setRelativePath _ _) => false
  | _, .db (.renameSubtree _ _) => false
  | _, .drive c => !c.placing
  | _, _ => true

section Programs

variable {env : Env} {N : ℕ → Prop} {T : FileId → Prop} {w : World} {root current : FileId} {α β : Type}

/-- Only the database and Drive matter. -/
lemma Sound.congr {w' : World} (h : Sound N T w) (hdb : w'.db = w.db)
    (hremote : w'.remote = w.remote) : Sound N T w' := by
  obtain ⟨hkept, htidy⟩ := h
  refine ⟨fun n hn => ?_, ?_⟩
  · obtain ⟨hmade, hheld⟩ := hkept n hn
    refine ⟨?_, ?_⟩
    · rwa [hremote]
    · rwa [hremote, hdb]
  · rwa [hremote]

lemma Sound.call {c : Call β} (h : Sound N T w) (hgentle : ∀ n, N n → Gentle n w c)
    (horderly : Orderly w c) :
    Sound N T (handle env β c w).2 :=
  ⟨fun n hn => kept_call (h.kept n hn) (hgentle n hn), tidy_call h.tidy horderly⟩

lemma Sound.db {c : DbCall α} (h : Sound N T w) (hgentle : ∀ n, N n → Gentle n w (.db c)) :
    Sound N T { w with db := (c.run w.db).2 } := by
  have hcall : Sound N T (handle Env.plain _ (.db c) w).2 := h.call hgentle trivial
  exact hcall

lemma Sound.benign {c : Call β} (h : Sound N T w) (hc : benign c = true) :
    Sound N T (handle env β c w).2 := by
  refine h.call (fun n _ => ?_) ?_
  · cases c with
    | db c =>
      cases c with
      | deleteItem id => cases hc
      | markTrashed id at' => cases hc
      | setRemoteId id rid => cases hc
      | setRelativePath id rel => cases hc
      | renameSubtree old new => cases hc
      | _ => trivial
    | drive c =>
      cases c with
      | patchFile id name move => cases hc
      | _ => trivial
    | _ => trivial
  · cases c with
    | drive c =>
      cases c with
      | createFolder parent name => cases hc
      | uploadMultipart parent name mime bytes => cases hc
      | patchFile id name move => cases hc
      | _ => trivial
    | _ => trivial

/-- A program of such calls. -/
lemma safe_benign {p : Task α} (hp : p.Only fun _ c => benign c = true) :
    p.Safe (handle env) (.solo (Sound N T)) Prog.Any w :=
  hp.safe (J := fun _ => True) (fun _ _ _ hc hI _ => ⟨hI.benign hc, trivial⟩) trivial

lemma benign_of_booking {c : Call β} (hc : booking c = true) : Orphans.benign c = true := by
  cases c with
  | db c => cases c <;> first | rfl | cases hc
  | clock => rfl
  | random n => rfl
  | _ => cases hc

end Programs

/-! ## Remote folders -/

/-- Below the path `cum` on the way to `dir` there are only folders on Drive, and the rows there of
the objects are at their paths. -/
structure Way (root : FileId) (N : ℕ → Prop) (cum dir : RelPath) (w : World) : Prop where
  folders : ∀ q, cum <+: q → q ≠ cum → q <+: dir → ∀ f, ObjectAt w.remote.drive root q f →
    f.mimeType = folderMime
  rows : ∀ n, N n → ∀ q, cum <+: q → q ≠ cum → q <+: dir → ∀ r ∈ w.db.items,
    r.relativePath = q → r.remoteId = some (.id n) → OnDrive w.remote.drive n →
      ∃ f, ObjectAt w.remote.drive root q f ∧ f.num = n

/-- What making remote folders has done: the objects at the paths beyond `dir` are the same, and so
are the rows that are not on the way. -/
structure Beside (root : FileId) (dir : RelPath) (w w' : World) : Prop where
  drive : w.remote.drive.Extends w'.remote.drive
  beyond : ∀ t g, dir <+: t.dropLast → ObjectAt w'.remote.drive root t g →
    ObjectAt w.remote.drive root t g
  rows : ∀ s, ¬s.relativePath <+: dir → (s ∈ w'.db.items ↔ s ∈ w.db.items)

section Folders

variable {env : Env} {N : ℕ → Prop} {T : FileId → Prop} {w : World} {d : Drive}
  {root current : FileId} {cum dir : RelPath} {seg : String}

/-- A name of which no folder is found is free in a folder in which every object of the name is
one. -/
lemma not_found {g : DriveFile} (h : Binding.foundFolder d current seg = none) (hg : g ∈ d.files)
    (hparent : d.resolve current ∈ g.parents) (hlive : g.trashed = false)
    (hfolder : g.mimeType = folderMime) : g.name ≠ seg := by
  intro hname
  have hnot := List.find?_eq_none.mp h g (List.mem_filter.mpr ⟨hg, by simp [hparent, hlive]⟩)
  simp [hfolder, hname] at hnot

/-- **The folder of a name** is the only object at its path. -/
lemma safe_childFolder (hT : T root)
    (hcurrent : FolderAt w.remote.drive root cum (w.remote.drive.resolve current))
    (hfolders : ∀ f, ObjectAt w.remote.drive root (cum ++ [seg]) f → f.mimeType = folderMime) :
    (childFolder current seg).Safe (handle env) (.solo (Sound N T)) (fun x w' => ∀ id, x = .ok id →
      w'.db = w.db ∧ w.remote.drive.Extends w'.remote.drive ∧
      FolderAt w'.remote.drive root (cum ++ [seg]) (w'.remote.drive.resolve id) ∧
      ((∃ f, ObjectAt w.remote.drive root (cum ++ [seg]) f ∧ id = .id f.num) ∨
        ∀ f, ¬ObjectAt w.remote.drive root (cum ++ [seg]) f) ∧
      ∀ t g, cum ++ [seg] <+: t.dropLast → ObjectAt w'.remote.drive root t g →
        ObjectAt w.remote.drive root t g) w := by
  refine Prog.safe_bind.mpr ((safe_request _).mpr fun h =>
    ⟨h.benign (c := .drive (.listChildren current)) rfl, ?_⟩)
  set w₁ : World := { w with remote := (w.remote.send env.md5 (.listChildren current)).2 } with hw₁
  have hdrive : w₁.remote.drive = w.remote.drive := Binding.send_listChildren_drive
  cases hlist : (w.remote.send env.md5 (.listChildren current)).1 with
  | error e => exact nofun
  | ok children =>
    simp only [Binding.find_listed hlist]
    cases hfound : Binding.foundFolder w.remote.drive current seg with
    | some f =>
      rintro id ⟨⟩
      obtain ⟨hmem, hin⟩ := List.mem_filter.mp (List.mem_of_find?_eq_some hfound)
      have hboth := List.find?_some hfound
      simp only [Bool.and_eq_true, decide_eq_true_eq] at hboth
      obtain ⟨hparent, hlive⟩ : w.remote.drive.resolve current ∈ f.parents ∧ f.trashed = false := by
        simpa using hin
      have hat := Drive.objectAt_child hcurrent hmem hparent hlive
      have hfolder := hcurrent.child hmem hparent hlive hboth.1
      rw [hboth.2] at hat hfolder
      refine ⟨rfl, hdrive ▸ .refl _, hdrive ▸ hfolder, .inl ⟨f, hat, rfl⟩, ?_⟩
      rw [hdrive]
      exact fun _ _ _ h => h
    | none =>
      have hdistinct := h.tidy.distinct root hT
      have hnone : ∀ f, ¬ObjectAt w.remote.drive root (cum ++ [seg]) f := by
        intro f hf
        obtain ⟨m, hm, hparent⟩ := hf.folder
        rw [List.dropLast_concat] at hm
        obtain rfl := hdistinct.folder_inj hm hcurrent
        refine not_found hfound hf.mem hparent hf.live (hfolders f hf) ?_
        rw [hf.name, List.getLastD_concat]
      refine Prog.safe_bind.mpr ((safe_request _).mpr fun h₁ => ⟨h₁.call
        (c := .drive (.createFolder current seg)) (fun _ _ => trivial) ?_, ?_⟩)
      · intro g hg _ hparent hlive hname
        rw [hdrive] at hg hparent
        have hat := Drive.objectAt_child hcurrent hg hparent hlive
        rw [hname] at hat
        exact hnone g hat
      · cases hmake : (w₁.remote.send env.md5 (.createFolder current seg)).1 with
        | error e => exact nofun
        | ok created =>
          rintro id ⟨⟩
          obtain ⟨f, hid, hmade, -⟩ := Drive.made_of_createFolder hmake
          have hat := folderAt_createFolder hmake (by rw [hdrive]; exact hcurrent)
          have hext : w₁.remote.drive.Extends
              (w₁.remote.send env.md5 (.createFolder current seg)).2.drive :=
            Remote.extends_send rfl
          rw [hdrive] at hmade hext
          refine ⟨rfl, hext, hat, .inr hnone, fun t g ht hg => ?_⟩
          rcases hmade.objectAt h.tidy.grounded hg with hold | ⟨-, hm, -⟩
          · exact hold
          · -- the new folder is empty, so nothing beyond it is below its parent at another path
            obtain ⟨k, hk⟩ := Drive.folderAt_of_prefix hm ht
            obtain ⟨m, hm', c, hc, hparent, hlive, -, hname, -⟩ := Drive.folderAt_concat.mp hk
            have hcat := Drive.objectAt_child hm' hc hparent hlive
            rw [hname] at hcat
            exact absurd hcat (hnone c)

/-- Binding the row of a folder. -/
lemma safe_persistDir {p : RelPath} {id : FileId} (hrow : ∀ n, N n → ∀ r ∈ w.db.items,
    r.relativePath = p → r.remoteId = some (.id n) → OnDrive w.remote.drive n → id = .id n) :
    (persistDir p id).Safe (handle env) (.solo (Sound N T)) (fun _ w' => w'.remote = w.remote ∧
      ∀ s, s.relativePath ≠ p → (s ∈ w'.db.items ↔ s ∈ w.db.items)) w := by
  refine Prog.safe_bind.mpr ((safe_sql _).mpr fun h => ⟨h, ?_⟩)
  simp only [DbCall.run]
  cases hget : w.db.items.getByRelativePath p with
  | some existing =>
    obtain ⟨hmem, hpath⟩ := ItemTable.getByRelativePath_eq_some.mp hget
    simp only
    split
    · refine (safe_sql _).mpr fun h => ⟨h.db fun n hn r hr hid hrid hon => ?_, rfl, fun s hs => ?_⟩
      · obtain rfl := ItemTable.id_inj hr hmem hid
        exact hrow n hn r hr hpath hrid hon
      · simp only [DbCall.run, Db.items_withItems, ItemTable.mem_modify]
        constructor
        · rintro (⟨hs', -⟩ | ⟨s', hs', hid, rfl⟩)
          · exact hs'
          · obtain rfl := ItemTable.id_inj hs' hmem hid
            exact absurd hpath hs
        · intro hs'
          refine .inl ⟨hs', fun hid => hs ?_⟩
          rw [ItemTable.id_inj hs' hmem hid, hpath]
    · exact ⟨rfl, fun _ _ => Iff.rfl⟩
  | none =>
    refine Prog.safe_bind.mpr ((safe_sqlTry _).mpr fun h =>
      ⟨h.db (c := .insertItem (syncedDir p id)) fun _ _ => trivial, ?_⟩)
    have hrows : ∀ s, s.relativePath ≠ p → (s ∈ (DbCall.run (.insertItem (syncedDir p id))
        w.db).2.items ↔ s ∈ w.db.items) := by
      intro s hs
      rw [DbCall.run, (Db.insertItem_of_free hget).2 s]
      refine or_iff_left ?_
      rintro rfl
      exact hs rfl
    cases (DbCall.run (.insertItem (syncedDir p id)) w.db).1 with
    | error e => exact ⟨rfl, hrows⟩
    | ok i => exact ⟨rfl, hrows⟩

/-- One folder further on the way. -/
lemma Way.step {w' : World} {rest : List String}
    (hway : Way root N cum (cum ++ seg :: rest) w) (hmade : ∀ n, N n → n < w.remote.drive.files.next)
    (hext : w.remote.drive.Extends w'.remote.drive)
    (hbeyond : ∀ t g, cum ++ [seg] <+: t.dropLast → ObjectAt w'.remote.drive root t g →
      ObjectAt w.remote.drive root t g)
    (hrows : ∀ s, s.relativePath ≠ cum ++ [seg] → (s ∈ w'.db.items ↔ s ∈ w.db.items)) :
    Way root N (cum ++ [seg]) (cum ++ seg :: rest) w' := by
  have hlonger : ∀ q, cum ++ [seg] <+: q → q ≠ cum ++ [seg] → cum ++ [seg] <+: q.dropLast := by
    rintro q ⟨tail, rfl⟩ hne
    have htail : tail ≠ [] := by
      rintro rfl
      exact hne (List.append_nil _)
    rw [List.dropLast_append_of_ne_nil htail]
    exact List.prefix_append _ _
  have hcum : ∀ q, cum ++ [seg] <+: q → cum <+: q ∧ q ≠ cum := by
    intro q hq
    refine ⟨(List.prefix_append _ _).trans hq, ?_⟩
    rintro rfl
    have hlen := hq.length_le
    simp only [List.length_append, List.length_singleton] at hlen
    omega
  refine ⟨fun q hq hne hdir f hf => ?_, fun n hn q hq hne hdir r hr hpath hrid hon => ?_⟩
  · exact hway.folders q (hcum q hq).1 (hcum q hq).2 hdir f (hbeyond q f (hlonger q hq hne) hf)
  · rw [hrows r (by rwa [hpath])] at hr
    obtain ⟨f, hf, hnum⟩ := hway.rows n hn q (hcum q hq).1 (hcum q hq).2 hdir r hr hpath
      hrid (onDrive_extends hext (hmade n hn) hon)
    exact ⟨f, hext.objectAt hf, hnum⟩

/-- **The remote folder of a path**, on the way to which there are only folders. -/
lemma safe_ensureSegments {segments : List String} (hT : T root) (hsound : Sound N T w)
    (hcurrent : FolderAt w.remote.drive root cum (w.remote.drive.resolve current))
    (hway : Way root N cum (cum ++ segments) w) :
    (ensureSegments current cum segments).Safe (handle env) (.solo (Sound N T))
      (fun x w' => ∀ id, x = .ok id → Beside root (cum ++ segments) w w' ∧
        FolderAt w'.remote.drive root (cum ++ segments) (w'.remote.drive.resolve id)) w := by
  induction segments generalizing current cum w with
  | nil =>
    rintro id ⟨⟩
    rw [List.append_nil]
    exact ⟨⟨.refl _, fun _ _ _ h => h, fun _ _ => Iff.rfl⟩, hcurrent⟩
  | cons seg rest ih =>
    have hseg : cum ++ [seg] <+: cum ++ seg :: rest := ⟨rest, by simp⟩
    have hstart := hway.folders (cum ++ [seg]) ⟨[seg], rfl⟩ (by simp) hseg
    refine Prog.Safe.bind ((safe_childFolder hT hcurrent hstart).and_inv hsound)
      (fun next w₁ ⟨hsound₁, hnext⟩ => ?_) fun _ _ _ => nofun
    obtain ⟨hdb, hext, hat, hfound, hbeyond⟩ := hnext next rfl
    have hbind : ∀ n, N n → ∀ r ∈ w₁.db.items, r.relativePath = cum ++ [seg] →
        r.remoteId = some (.id n) → OnDrive w₁.remote.drive n → next = .id n := by
      intro n hn r hr hpath hrid hon
      rw [hdb] at hr
      obtain ⟨f, hf, hnum⟩ := hway.rows n hn (cum ++ [seg]) ⟨[seg], rfl⟩ (by simp) hseg r hr
        hpath hrid (onDrive_extends hext (hsound.kept n hn).made hon)
      rcases hfound with ⟨f', hf', hid⟩ | hnone
      · rw [hid, ← hnum, hsound.tidy.distinct root hT _ _ _ hf hf']
      · exact absurd hf (hnone f)
    refine Prog.Safe.bind ((safe_persistDir hbind).and_inv hsound₁)
      (fun _ w₂ ⟨hsound₂, hremote, hrows⟩ => ?_) fun _ _ _ => nofun
    have hdrive : w₂.remote.drive = w₁.remote.drive := by rw [hremote]
    have hrows' : ∀ s, s.relativePath ≠ cum ++ [seg] → (s ∈ w₂.db.items ↔ s ∈ w.db.items) := by
      intro s hs
      rw [hrows s hs, hdb]
    have hway' : Way root N (cum ++ [seg]) ((cum ++ [seg]) ++ rest) w₂ := by
      rw [List.append_assoc]
      exact hway.step (fun n hn => (hsound.kept n hn).made) (hdrive ▸ hext) (hdrive ▸ hbeyond) hrows'
    refine (ih hsound₂ (by rw [hdrive]; exact hat) hway').mono fun x w₃ hx id hid => ?_
    obtain ⟨hbeside, hfinal⟩ := hx id hid
    rw [List.append_assoc] at hbeside hfinal
    refine ⟨⟨(hdrive ▸ hext).trans hbeside.drive, fun t g ht hg => ?_, fun s hs => ?_⟩, hfinal⟩
    · have hold := hbeside.beyond t g ht hg
      rw [hdrive] at hold
      exact hbeyond t g (hseg.trans ht) hold
    · rw [hbeside.rows s hs, hrows' s]
      rintro hpath
      exact hs (hpath ▸ hseg)

lemma safe_ensureRemoteFolder (hT : T root) (hsound : Sound N T w)
    (hway : Way root N [] dir w) :
    (ensureRemoteFolder root dir).Safe (handle env) (.solo (Sound N T))
      (fun x w' => Sound N T w' ∧ ∀ id, x = .ok id → Beside root dir w w' ∧
        FolderAt w'.remote.drive root dir (w'.remote.drive.resolve id)) w := by
  have hsegments : (ensureSegments root [] dir).Safe (handle env) (.solo (Sound N T))
      (fun x w' => ∀ id, x = .ok id → Beside root ([] ++ dir) w w' ∧
        FolderAt w'.remote.drive root ([] ++ dir) (w'.remote.drive.resolve id)) w :=
    safe_ensureSegments hT hsound .root hway
  exact hsegments.and_inv hsound

end Folders

/-! ## Operations -/

/-- The row is bound to nothing that is on Drive. -/
def Loose (w : World) (r : SyncItem) : Prop :=
  ∀ n, r.remoteId = some (.id n) → ¬OnDrive w.remote.drive n

/-- On the way to a remote folder there are only folders, and the rows there are bound to them. -/
def Clear (w : World) (root : FileId) (dir : RelPath) : Prop := Way root (fun _ => True) [] dir w

/-- No row of an object on Drive has another in its way when a directory is renamed. -/
def Unobstructed (w : World) (old new : RelPath) : Prop :=
  ∀ r ∈ w.db.items, ItemTable.Selected old r → Loose w r ∨ ∀ s ∈ w.db.items,
    (s.relativePath = RelPath.rebase old new r.relativePath ∨ ItemTable.Selected old s ∧
      RelPath.rebase old new s.relativePath = RelPath.rebase old new r.relativePath) → s.id = r.id

/-- The object `k` of the row can be moved to the new path. -/
structure Movable (w : World) (root : FileId) (item : SyncItem) (k : ℕ) (new : RelPath) : Prop where
  /-- The object was made, and lies in a folder if it is live. -/
  made : k < w.remote.drive.files.next
  placed : Placed w.remote.drive k
  /-- The mapped folder was made. -/
  known : w.remote.drive.resolve root < w.remote.drive.files.next
  /-- The new path is not that of the mapped folder. -/
  proper : new ≠ []
  /-- Nor is it below the old one. -/
  outside : ∀ q, q <+: new.dropLast →
    ¬(q = item.relativePath ∨ item.relativePath.likeBelow q = true)
  /-- The folders on the way to it can be made. -/
  way : Clear w root new.dropLast
  /-- No other object is there. -/
  free : ∀ f, ObjectAt w.remote.drive root new f → f.num = k
  /-- The paths below the object lead to one object each. -/
  below : w.remote.drive.Distinct (.id k)
  /-- The rows that are dropped stand for nothing on Drive. -/
  rows : match item.kind with
    | .dir => Unobstructed w item.relativePath new
    | .file => ∀ r ∈ w.db.items, r.relativePath = new → r.id ≠ item.id → Loose w r

/-- The operation drops and rebinds no row of an object on Drive, and puts no object at a path where
another is. -/
def Spares (w : World) (root : FileId) (op : PendingOperation) (item : SyncItem) : Prop :=
  match op.op with
  | .upload => w.fs.isFile item.relativePath = true → item.remoteId = none →
    Clear w root item.relativePath.dropLast ∧
      ∀ f, ¬ObjectAt w.remote.drive root item.relativePath f
  | .download => ∀ dl, op.payload = some (.download dl) →
    item.remoteId = some dl.remoteId ∨ Loose w item
  | .deleteLocal => Loose w item
  | .createDirRemote => Clear w root item.relativePath
  | .renameRemote => ∀ rid p, item.remoteId = some rid → op.payload = some (.rename p) →
    ∃ k, rid = .id k ∧ Movable w root item k p.newRelativePath
  | .renameLocal => ∀ p, op.payload = some (.rename p) →
    Unobstructed w item.relativePath p.newRelativePath
  | _ => True

section Operations

variable {env : Env} {N : ℕ → Prop} {T : FileId → Prop} {w : World} {d : Drive} {n k : ℕ}
  {root rid : FileId} {item : SyncItem} {α : Type}

lemma way_of_clear {dir : RelPath} (h : Clear w root dir) : Way root N [] dir w :=
  ⟨h.folders, fun n _ => h.rows n trivial⟩

/-- The calls on the local tree. -/
def onDisk : {β : Type} → Call β → Bool
  | _, .fs _ => true
  | _, .clock => true
  | _, _ => false

/-- A program that works on the local tree. -/
lemma safe_onDisk {p : Task α} (hp : p.Only fun _ c => onDisk c = true) :
    p.Safe (handle env) (.solo (Sound N T))
      (fun _ w' => w'.db = w.db ∧ w'.remote = w.remote) w := by
  refine hp.safe (J := fun w' : World => w'.db = w.db ∧ w'.remote = w.remote)
    (fun β c w' hc hI hJ => ?_) ⟨rfl, rfl⟩
  cases c with
  | fs c => exact ⟨hI.congr rfl rfl, hJ⟩
  | clock => exact ⟨hI, hJ⟩
  | _ => cases hc

/-- A guarded program. -/
lemma safe_marked {id : FileId} {body : Task α} {Q : Except Error α → World → Prop}
    (hQ : ∀ x w', Q x w' → Q x { w' with inFlight := w'.inFlight.erase id })
    (h : body.Safe (handle env) (.solo (Sound N T)) Q { w with inFlight := id :: w.inFlight }) :
    (withMark id body).Safe (handle env) (.solo (Sound N T)) Q w :=
  safe_withMark.mpr fun hI => ⟨hI.congr rfl rfl, h.mono fun x w' hx hI =>
    ⟨hI.congr rfl rfl, hQ x w' hx⟩⟩

lemma readFile_onDisk (rel : RelPath) : (ioTry (.readFile rel)).Only fun _ c => onDisk c = true :=
  ⟨rfl, fun x => Prog.only_ofExcept x⟩

lemma benign_of_onDisk {β : Type} {c : Call β} (hc : onDisk c = true) : benign c = true := by
  cases c with
  | fs c => rfl
  | clock => rfl
  | _ => cases hc

/-- Dropping or hiding the row of the item, when it is bound to nothing on Drive. -/
lemma gentle_of_loose (hitem : item ∈ w.db.items) (hloose : Loose w item) {r : SyncItem}
    (hr : r ∈ w.db.items) (hid : r.id = item.id) (hrid : r.remoteId = some (.id n)) :
    ¬OnDrive w.remote.drive n := by
  obtain rfl := ItemTable.id_inj hr hitem hid
  exact hloose n hrid

/-- **DeleteLocal**, of an item that is no longer on Drive. -/
lemma safe_executeDeleteLocal {payload : Option Payload} (hitem : item ∈ w.db.items)
    (hloose : Loose w item) :
    (executeDeleteLocal item payload).Safe (handle env) (.solo (Sound N T)) Prog.Any w := by
  have hremove : (removeLocal item).Only fun _ c => onDisk c = true := by
    unfold removeLocal
    cases item.kind <;> refine Prog.Only.bind ⟨rfl, fun _ => trivial⟩ fun res => ?_
    all_goals
      cases res with
      | ok u => trivial
      | error e =>
        simp only
        split <;> trivial
  refine Prog.Safe.bind (safe_onDisk hremove) ?_ fun _ _ _ => trivial
  rintro _ w₁ ⟨hdb, hremote⟩
  refine Prog.Safe.bind (P := fun _ w' => w' = w₁) ((Prog.safe_ofExcept _).mpr rfl)
    (fun p w₂ hw₂ => ?_) fun _ _ _ => trivial
  subst hw₂
  have hitem₂ : item ∈ w₂.db.items := hdb ▸ hitem
  have hloose₂ : Loose w₂ item := fun m hm => hremote ▸ hloose m hm
  unfold forgetLocal
  split
  · refine Prog.Safe.bind (P := fun _ w' => w' = w₂) ((Prog.safe_call_solo _ _).mpr fun hI =>
      ⟨hI, rfl⟩) (fun now w₃ hw₃ => ?_) fun _ _ _ => trivial
    subst hw₃
    exact (safe_sql _).mpr fun h => ⟨h.db fun _ _ r hr => gentle_of_loose hitem₂ hloose₂ hr, trivial⟩
  · exact (safe_sql _).mpr fun h => ⟨h.db fun _ _ r hr => gentle_of_loose hitem₂ hloose₂ hr, trivial⟩

/-- An object that was trashed is no longer on Drive. -/
lemma gone_of_trash {md5 : Bytes → String} {r : Remote}
    (h : (r.send md5 (.trash (.id n))).1 = .ok ()) : ¬OnDrive (r.send md5 (.trash (.id n))).2.drive n := by
  have hrun := Remote.send_ok h
  rw [Remote.send_ok_drive h]
  simp only [DriveCall.run, DriveCall.onFile] at hrun ⊢
  cases hfile : r.drive.file (.id n) with
  | none => simp [hfile] at hrun
  | some f =>
    obtain ⟨hf, hnum⟩ := Data.Serial.get_eq_some.mp hfile
    simp only [hfile] at hrun ⊢
    split at hrun
    · next howned =>
      rw [if_pos howned]
      rintro ⟨g, hg, hgnum, hlive, -⟩
      rcases Drive.mem_change.mp hg with ⟨-, hne⟩ | ⟨s, -, -, rfl⟩
      · exact hne (hgnum.trans hnum.symm)
      · cases hlive
    · cases hrun

/-- So is one that was deleted for good. -/
lemma gone_of_delete {md5 : Bytes → String} {r : Remote}
    (h : (r.send md5 (.deleteFile (.id n))).1 = .ok ()) :
    ¬OnDrive (r.send md5 (.deleteFile (.id n))).2.drive n := by
  have hrun := Remote.send_ok h
  rw [Remote.send_ok_drive h]
  simp only [DriveCall.run, DriveCall.onFile] at hrun ⊢
  cases hfile : r.drive.file (.id n) with
  | none => simp [hfile] at hrun
  | some f =>
    obtain ⟨hf, hnum⟩ := Data.Serial.get_eq_some.mp hfile
    simp only [hfile] at hrun ⊢
    split at hrun
    · next howned =>
      rw [if_pos howned]
      rintro ⟨g, hg, hgnum, -⟩
      exact (Drive.mem_remove.mp hg).2 (hgnum.trans hnum.symm)
    · cases hrun

/-- And one that was taken out of all its folders. -/
lemma gone_of_removeParents {md5 : Bytes → String} {r : Remote} {parents : List FileId}
    (h : (r.send md5 (.removeParents (.id n) parents)).1 = .ok ())
    (hall : ∀ f ∈ r.drive.files, f.num = n → f.parents.map .id = parents) :
    ¬OnDrive (r.send md5 (.removeParents (.id n) parents)).2.drive n := by
  have hrun := Remote.send_ok h
  rw [Remote.send_ok_drive h]
  simp only [DriveCall.run, DriveCall.onFile] at hrun ⊢
  cases hfile : r.drive.file (.id n) with
  | none => simp [hfile] at hrun
  | some f =>
    obtain ⟨hf, hnum⟩ := Data.Serial.get_eq_some.mp hfile
    simp only [hfile] at hrun ⊢
    split at hrun
    · next hremovable =>
      rw [if_pos hremovable]
      rintro ⟨g, hg, hgnum, -, hparents⟩
      rcases Drive.mem_change.mp hg with ⟨-, hne⟩ | ⟨s, hs, hsnum, rfl⟩
      · exact hne (hgnum.trans hnum.symm)
      · refine hparents (List.filter_eq_nil_iff.mpr fun m hm => ?_)
        rw [← hall s hs hgnum]
        simp [Drive.resolve, Function.comp_def, hm]
    · cases hrun

/-- Taking an object out of the user's folders. -/
lemma safe_removeFromMyDrive : (removeFromMyDrive rid).Safe (handle env) (.solo (Sound N T))
    (fun x w' => w'.db = w.db ∧
      (x = .ok () → ∀ n, rid = .id n → ¬OnDrive w'.remote.drive n)) w := by
  refine Prog.safe_bind.mpr ((safe_request _).mpr fun h =>
    ⟨h.benign (c := .drive (.getFile rid)) rfl, ?_⟩)
  cases hget : (w.remote.send env.md5 (.getFile rid)).1 with
  | error e => exact ⟨rfl, nofun⟩
  | ok v =>
    obtain ⟨-, f, hfile, rfl⟩ := Remote.send_getFile_eq_ok.mp hget
    have hdrive : (w.remote.send env.md5 (.getFile rid)).2.drive = w.remote.drive :=
      Remote.send_getFile_drive
    obtain ⟨hf, hnum⟩ := Data.Serial.get_eq_some.mp hfile
    have honly : ∀ n, rid = .id n → ∀ g ∈ w.remote.drive.files, g.num = n → g = f := by
      rintro n rfl g hg hgnum
      exact w.remote.drive.files.key_inj hg hf (hgnum.trans hnum.symm)
    simp only
    split
    · next hnone =>
      refine ⟨rfl, fun _ n hrid => ?_⟩
      rw [hdrive]
      rintro ⟨g, hg, hgnum, -, hparents⟩
      rw [honly n hrid g hg hgnum] at hparents
      exact hparents (List.map_eq_nil_iff.mp hnone)
    · refine (safe_request _).mpr fun h => ⟨h.benign (c := .drive
        (.removeParents rid (Drive.resource env.md5 f).parents)) rfl, rfl, ?_⟩
      rintro hok n rfl
      refine gone_of_removeParents hok fun g hg hgnum => ?_
      rw [hdrive] at hg
      rw [honly n rfl g hg hgnum]
      rfl

/-- **DeleteRemote** drops the row of an object that is no longer on Drive. -/
lemma safe_executeDeleteRemote (hitem : item ∈ w.db.items) :
    (executeDeleteRemote env item).Safe (handle env) (.solo (Sound N T)) Prog.Any w := by
  have hdrop : ∀ w' : World, w'.db = w.db → (∀ n, item.remoteId = some (.id n) →
      ¬OnDrive w'.remote.drive n) →
      (sql (.deleteItem item.id)).Safe (handle env) (.solo (Sound N T)) Prog.Any w' := by
    intro w' hdb hgone
    refine (safe_sql _).mpr fun h => ⟨h.db fun n _ r hr hid hrid => ?_, trivial⟩
    rw [hdb] at hr
    obtain rfl := ItemTable.id_inj hr hitem hid
    exact hgone n hrid
  cases hremote : item.remoteId with
  | none =>
    simp only [executeDeleteRemote, hremote]
    exact hdrop w rfl fun n h => by simp [hremote] at h
  | some rid =>
    simp only [executeDeleteRemote, hremote]
    refine safe_marked (fun _ _ _ => trivial) ?_
    refine Prog.Safe.bind (P := fun x w' => w'.db = w.db ∧
      (x = .ok (.ok ()) → ∀ n, rid = .id n → ¬OnDrive w'.remote.drive n))
      (Prog.safe_attempt.mpr ?_) (fun res w₁ ⟨hdb, hgone⟩ => ?_) fun _ _ _ => trivial
    · unfold Engine.deleteRemote
      split
      · refine (safe_request _).mpr fun h => ⟨h.benign (c := .drive (.trash rid)) rfl, rfl, ?_⟩
        rintro hok n rfl
        exact gone_of_trash (Except.ok.inj hok)
      · refine (safe_request _).mpr fun h => ⟨h.benign (c := .drive (.deleteFile rid)) rfl, rfl, ?_⟩
        rintro hok n rfl
        exact gone_of_delete (Except.ok.inj hok)
    · cases res with
      | ok u => exact hdrop w₁ hdb fun n hrid => hgone rfl n (Option.some.inj (hremote.symm.trans hrid))
      | error e =>
        simp only
        split
        · refine Prog.Safe.bind (P := fun x w' => w'.db = w.db ∧
            (x = .ok (.ok ()) → ∀ n, rid = .id n → ¬OnDrive w'.remote.drive n))
            (Prog.safe_attempt.mpr ?_) (fun res w₂ ⟨hdb₂, hgone₂⟩ => ?_) fun _ _ _ => trivial
          · exact safe_removeFromMyDrive.mono fun x w₂ ⟨hdb₂, hgone₂⟩ =>
              ⟨hdb₂.trans hdb, fun hok => hgone₂ (Except.ok.inj hok)⟩
          · cases res with
            | ok u =>
              exact hdrop w₂ hdb₂ fun n hrid => hgone₂ rfl n (Option.some.inj (hremote.symm.trans hrid))
            | error e => exact safe_benign ⟨rfl, fun _ => trivial⟩
        · trivial

/-- The rows of the item keep its id of Drive, and Drive is what it was. -/
def Faithful (item : SyncItem) (d : Drive) (w : World) : Prop :=
  (∀ r ∈ w.db.items, r.id = item.id → r.remoteId = item.remoteId) ∧ w.remote.drive = d

/-- The calls of a download before its row is bound. -/
def fetching : {β : Type} → Call β → Bool
  | _, .db (.updateFingerprint _ _ _) => true
  | _, .drive (.getMedia _) => true
  | _, .fs _ => true
  | _, _ => false

lemma safe_fetching {p : Task α} (hp : p.Only fun _ c => fetching c = true)
    (h : Faithful item d w) : p.Safe (handle env) (.solo (Sound N T))
      (fun _ w' => Faithful item d w') w := by
  refine hp.safe (J := Faithful item d) (fun β c w' hc hI hJ => ?_) h
  cases c with
  | db c =>
    cases c with
    | updateFingerprint id size md5 =>
      refine ⟨hI.db fun _ _ => trivial, fun r hr hid => ?_, hJ.2⟩
      rcases DbCall.mem_items_run hr with ⟨s, hs, hsid, rfl | ⟨-, rfl⟩⟩ | ⟨new, hnew, -⟩
      · exact hJ.1 r hs hid
      · exact hJ.1 s hs hid
      · cases hnew
    | _ => cases hc
  | drive c =>
    cases c with
    | getMedia id =>
      exact ⟨hI.benign (c := .drive (.getMedia id)) rfl, hJ.1, Remote.send_getMedia_drive.trans hJ.2⟩
    | _ => cases hc
  | fs c => exact ⟨hI.congr rfl rfl, hJ⟩
  | _ => cases hc

/-- **Download**, into a row that stands for what is fetched, or for nothing. -/
lemma safe_executeDownload {payload : Option Payload} (hitem : item ∈ w.db.items)
    (hspares : ∀ dl, payload = some (.download dl) → item.remoteId = some dl.remoteId ∨ Loose w item) :
    (executeDownload env item payload).Safe (handle env) (.solo (Sound N T)) Prog.Any w := by
  refine Prog.Safe.bind (P := fun x w' => w' = w ∧ x = decodePayload Payload.asDownload payload)
    ((Prog.safe_ofExcept _).mpr ⟨rfl, rfl⟩) (fun dl w₁ ⟨hw₁, hdl⟩ => ?_) fun _ _ _ => trivial
  subst hw₁
  have hloose := hspares dl (LocalWork.asDownload_ok hdl.symm)
  have hstart : Faithful item w₁.remote.drive w₁ :=
    ⟨fun r hr hid => by rw [ItemTable.id_inj hr hitem hid], rfl⟩
  have hdir : (ioTry (.createDirAll dl.relativePath.parentDir)).Only
      fun _ c => fetching c = true := ⟨rfl, fun x => Prog.only_ofExcept x⟩
  have hfetch : (Engine.download dl.remoteId dl.relativePath).Only
      fun _ c => fetching c = true :=
    Prog.Only.bind ⟨rfl, fun x => Prog.only_ofExcept x⟩ fun body =>
      Prog.Only.bind ⟨rfl, fun x => Prog.only_ofExcept x⟩ fun _ =>
        ⟨rfl, fun x => Prog.only_ofExcept x⟩
  have hcompute : (computeLocal env dl.relativePath).Only fun _ c => fetching c = true :=
    Prog.Only.bind ⟨rfl, fun x => Prog.only_ofExcept x⟩ fun _ => trivial
  refine Prog.Safe.bind (safe_fetching hdir hstart) (fun _ w₂ h₂ => ?_) fun _ _ _ => trivial
  refine Prog.Safe.bind (safe_fetching hfetch h₂) (fun _ w₃ h₃ => ?_) fun _ _ _ => trivial
  refine Prog.Safe.bind (safe_fetching hcompute h₃) (fun ⟨size, md5⟩ w₄ h₄ => ?_) fun _ _ _ => trivial
  refine Prog.Safe.bind (safe_fetching (p := sql (.updateFingerprint item.id (some size) (some md5)))
    ⟨rfl, fun _ => trivial⟩ h₄) (fun _ w₅ h₅ => ?_) fun _ _ _ => trivial
  split
  · next hne =>
    refine (safe_sql _).mpr fun h => ⟨h.db fun n _ r hr hid hrid hon => ?_, trivial⟩
    rw [h₅.1 r hr hid] at hrid
    rcases hloose with hsame | hloose
    · exact absurd hsame hne
    · rw [h₅.2] at hon
      exact absurd hon (hloose n hrid)
  · trivial

/-- **RenameLocal**, when nothing is in the way of the rows that move. -/
lemma safe_executeRenameLocal {payload : Option Payload}
    (hfree : ∀ p, payload = some (.rename p) → Unobstructed w item.relativePath p.newRelativePath) :
    (executeRenameLocal item payload).Safe (handle env) (.solo (Sound N T)) Prog.Any w := by
  refine Prog.Safe.bind (P := fun x w' => w' = w ∧ x = decodePayload Payload.asRename payload)
    ((Prog.safe_ofExcept _).mpr ⟨rfl, rfl⟩) (fun p w₁ ⟨hw₁, hp⟩ => ?_) fun _ _ _ => trivial
  subst hw₁
  have hfree₁ := hfree p (asRename_ok hp.symm)
  have hmove : (moveLocal item.relativePath p.newRelativePath).Only
      fun _ c => onDisk c = true := by
    refine Prog.Only.bind ⟨rfl, fun _ => trivial⟩ fun res => ?_
    split
    · trivial
    · split
      · trivial
      · split
        · exact ⟨rfl, fun x => Prog.only_ofExcept x⟩
        · trivial
  have hdir : (ioTry (.createDirAll p.newRelativePath.parentDir)).Only
      fun _ c => onDisk c = true := ⟨rfl, fun x => Prog.only_ofExcept x⟩
  refine Prog.Safe.bind (safe_onDisk hdir) (fun _ w₂ ⟨hdb₂, hremote₂⟩ => ?_) fun _ _ _ => trivial
  refine Prog.Safe.bind (safe_onDisk hmove) (fun _ w₃ ⟨hdb₃, hremote₃⟩ => ?_) fun _ _ _ => trivial
  refine (safe_sql _).mpr fun h => ⟨h.db fun n _ r hr hselected hrid hon => ?_, trivial⟩
  rw [hdb₃, hdb₂] at hr ⊢
  rw [hremote₃, hremote₂] at hon
  rcases hfree₁ r hr hselected with hloose | hothers
  · exact absurd hon (hloose n hrid)
  · exact hothers

/-- No object is under a name in a folder when none is at the path. -/
lemma vacant_of_path {new : RelPath} {m : ℕ} (hm : FolderAt d root new.dropLast m)
    (hfree : ∀ f, ObjectAt d root new f → f.num = k) : d.Vacant m (new.getLastD "") k := by
  intro g hg hne hparent hlive hname
  exact hne (hfree g ⟨hg, ⟨m, hm, hparent⟩, hname, hlive⟩)

/-- A row whose path is not on the way stays. -/
lemma Beside.row_eq {dir : RelPath} {w' : World} {r : SyncItem} (h : Beside root dir w w')
    (hitem : item ∈ w.db.items) (hpath : ¬item.relativePath <+: dir) (hr : r ∈ w'.db.items)
    (hid : r.id = item.id) : r = item :=
  ItemTable.id_inj hr ((h.rows item hpath).mpr hitem) hid

/-- **Upload**, to a path at which nothing is on Drive. -/
lemma safe_executeUpload (hT : T root) (hsound : Sound N T w) (hitem : item ∈ w.db.items)
    (hspares : w.fs.isFile item.relativePath = true → item.remoteId = none →
      Clear w root item.relativePath.dropLast ∧
        ∀ f, ¬ObjectAt w.remote.drive root item.relativePath f) :
    (executeUpload env root item).Safe (handle env) (.solo (Sound N T)) Prog.Any w := by
  refine Prog.Safe.bind (P := fun x w' => w' = w ∧ x = .ok (w.fs.isFile item.relativePath))
    ((safe_io _).mpr fun hI => ⟨hI.congr rfl rfl, rfl, rfl⟩) (fun isFile w₀ ⟨hw₀, hx⟩ => ?_)
    fun _ _ _ => trivial
  subst hw₀
  obtain rfl := Except.ok.inj hx
  split
  · next hfile =>
    have hpath : item.relativePath ≠ [] := by
      intro hnil
      rw [hnil] at hfile
      cases hfile
    have hcompute : (computeLocal env item.relativePath).Only fun _ c => onDisk c = true :=
      (readFile_onDisk _).bind fun _ => trivial
    refine Prog.Safe.bind ((safe_onDisk hcompute).and_inv hsound)
      (fun ⟨size, md5⟩ w₁ ⟨hsound₁, hdb, hremote⟩ => ?_) fun _ _ _ => trivial
    simp only
    split
    · trivial
    · cases hid : item.remoteId with
      | some rid =>
        refine safe_benign (Prog.Only.bind ⟨rfl, fun _ => trivial⟩ fun _ => Prog.Only.bind
          (Prog.Only.attempt (Prog.Only.bind ?_ fun _ => ⟨rfl, fun _ => trivial⟩)) fun x =>
            Prog.Only.bind ⟨rfl, fun _ => trivial⟩ fun _ => Prog.only_ofExcept x)
        exact ((readFile_onDisk _).mono fun _ _ => benign_of_onDisk).bind fun _ =>
          ⟨rfl, fun x => Prog.only_ofExcept x⟩
      | none =>
        obtain ⟨hclear, hfree⟩ := hspares hfile hid
        have hway : Way root N [] item.relativePath.dropLast w₁ := by
          obtain ⟨hfolders, hrows⟩ := hclear
          refine ⟨?_, fun n _ => ?_⟩
          · rwa [hremote]
          · rw [hremote, hdb]
            exact hrows n trivial
        refine Prog.Safe.bind (safe_ensureRemoteFolder hT hsound₁ hway)
          (fun parent w₂ ⟨hsound₂, hparent⟩ => ?_) fun _ _ _ => trivial
        obtain ⟨hbeside, hat⟩ := hparent parent rfl
        have hvacant : ∀ m : ℕ, w₂.remote.drive.Vacant (w₂.remote.drive.resolve parent)
            (item.relativePath.getLastD "") m := by
          refine fun m => vacant_of_path hat fun f hf => ?_
          have hold := hbeside.beyond _ f List.prefix_rfl hf
          rw [hremote] at hold
          exact absurd hold (hfree f)
        have hnone : ∀ r ∈ w₂.db.items, r.id = item.id → r.remoteId = none := by
          intro r hr hrid
          have hlonger : ¬item.relativePath <+: item.relativePath.dropLast := by
            intro hprefix
            have hlen := hprefix.length_le
            rw [List.length_dropLast] at hlen
            have := List.length_pos_of_ne_nil hpath
            omega
          rw [hbeside.row_eq (hdb ▸ hitem) hlonger hr hrid, hid]
        refine Prog.Safe.bind (P := fun _ w' => w'.db = w₂.db) ?_ (fun rf w₃ hdb₃ => ?_)
          fun _ _ _ => trivial
        · refine Prog.Safe.bind (safe_onDisk (readFile_onDisk _))
            (fun content w₃ ⟨hdb₃, hremote₃⟩ => ?_) fun _ _ h => h.1
          refine (safe_request _).mpr fun h => ⟨h.call (c := .drive (.uploadMultipart parent
            item.relativePath.splitParent.2 (Engine.contentTypeFor item.relativePath.splitParent.2)
              content)) (fun _ _ => trivial) ?_, hdb₃⟩
          show w₃.remote.drive.Vacant _ _ _
          rw [hremote₃]
          exact hvacant _
        · refine safe_marked (fun _ _ _ => trivial) ?_
          refine Prog.Safe.bind (P := Prog.Any) ((safe_sql _).mpr fun h =>
            ⟨h.db fun n _ r hr hrid hbound => ?_, trivial⟩) (fun _ w₄ _ => ?_) fun _ _ _ => trivial
          · have hr₂ : r ∈ w₂.db.items := hdb₃ ▸ hr
            rw [hnone r hr₂ hrid] at hbound
            cases hbound
          · exact safe_benign ⟨rfl, fun _ => trivial⟩
  · trivial

/-- Moving an object to a free name. -/
lemma safe_moveRemote {parent : FileId} {name : String} (hsound : Sound N T w)
    (hplaced : Placed w.remote.drive k)
    (hbelow : w.remote.drive.Distinct (.id k))
    (hparent : w.remote.drive.resolve parent < w.remote.drive.files.next)
    (hvacant : w.remote.drive.Vacant (w.remote.drive.resolve parent) name k) :
    (Engine.moveRemote (.id k) parent name).Safe (handle env) (.solo (Sound N T))
      (fun _ w' => w'.db = w.db ∧ ∀ n, N n → OnDrive w'.remote.drive n → OnDrive w.remote.drive n)
      w := by
  refine Prog.safe_bind.mpr ((safe_request _).mpr fun h =>
    ⟨h.benign (c := .drive (.getFile (.id k))) rfl, ?_⟩)
  have hdrive : (w.remote.send env.md5 (.getFile (.id k))).2.drive = w.remote.drive :=
    Remote.send_getFile_drive
  cases hget : (w.remote.send env.md5 (.getFile (.id k))).1 with
  | error e => exact ⟨rfl, fun n _ hon => hdrive ▸ hon⟩
  | ok current =>
    obtain ⟨-, f, hfile, rfl⟩ := Remote.send_getFile_eq_ok.mp hget
    obtain ⟨hf, hnum⟩ := Data.Serial.get_eq_some.mp hfile
    have hk : f.num = k := hnum
    set w₁ : World := { w with remote := (w.remote.send env.md5 (.getFile (.id k))).2 } with hw₁
    set move := if !(Drive.resource env.md5 f).parents.contains parent then
      some (parent, (Drive.resource env.md5 f).parents) else none with hmove
    have hgentle : ∀ n, N n → Gentle n w₁ (.drive (.patchFile (.id k) name move)) := by
      intro n _ hid
      rw [hdrive]
      have hkn : k = n := hid
      exact hkn ▸ hplaced
    have hparents : DriveCall.newParents w.remote.drive f move = [w.remote.drive.resolve parent] := by
      by_cases hin : (Drive.resource env.md5 f).parents.contains parent = true
      · -- it stays in its only folder
        obtain ⟨m, hm, rfl⟩ : ∃ m ∈ f.parents, FileId.id m = parent := by
          simpa [Drive.resource] using hin
        rw [hmove, hin]
        have hsingle := hsound.tidy.single f hf
        obtain ⟨a, ha⟩ : ∃ a, f.parents = [a] := by
          rcases hp : f.parents with _ | ⟨a, _ | ⟨b, rest⟩⟩
          · simp [hp] at hm
          · exact ⟨a, rfl⟩
          · simp [hp] at hsingle
        rw [ha, List.mem_singleton] at hm
        subst hm
        exact ha
      · rw [hmove, Bool.eq_false_iff.mpr hin]
        have hnone : (f.parents.filter fun q =>
            !((Drive.resource env.md5 f).parents.map w.remote.drive.resolve).contains q) = [] := by
          refine List.filter_eq_nil_iff.mpr fun m hm => ?_
          simp [Drive.resource, Drive.resolve, Function.comp_def, hm]
        simp only [DriveCall.newParents, Bool.not_false, if_true, hnone, List.nil_append]
    have horderly : Orderly w₁ (.drive (.patchFile (.id k) name move)) := by
      intro g hg
      rw [hdrive, hfile] at hg
      obtain rfl := Option.some.inj hg
      refine ⟨w.remote.drive.resolve parent, ?_⟩
      rw [hdrive, hk]
      exact ⟨hparents, hparent, hbelow, hvacant⟩
    refine (safe_request _).mpr fun h => ⟨h.call hgentle horderly, rfl, fun n hn hon => ?_⟩
    have hback : OnDrive w₁.remote.drive n :=
      @onDrive_call env _ _ _ _ (h.kept n hn).made (hgentle n hn) hon
    rwa [hdrive] at hback

/-- **RenameRemote**, of an object that can be moved. -/
lemma safe_executeRenameRemote {payload : Option Payload} (hT : T root) (hsound : Sound N T w)
    (hitem : item ∈ w.db.items)
    (hmovable : ∀ rid p, item.remoteId = some rid → payload = some (.rename p) →
      ∃ k, rid = .id k ∧ Movable w root item k p.newRelativePath) :
    (executeRenameRemote root item payload).Safe (handle env) (.solo (Sound N T)) Prog.Any w := by
  refine Prog.Safe.bind (P := fun x w' => w' = w ∧ x = decodePayload Payload.asRename payload)
    ((Prog.safe_ofExcept _).mpr ⟨rfl, rfl⟩) (fun p w₁ ⟨hw₁, hp⟩ => ?_) fun _ _ _ => trivial
  subst hw₁
  cases hremote : item.remoteId with
  | none =>
    refine (safe_sql _).mpr fun h => ⟨h.db fun n _ r hr hid hrid => ?_, trivial⟩
    obtain rfl := ItemTable.id_inj hr hitem hid
    rw [hremote] at hrid
    cases hrid
  | some rid =>
    obtain ⟨k, rfl, hmove⟩ := hmovable rid p hremote (asRename_ok hp.symm)
    set new := p.newRelativePath with hnew
    have hboth : Sound N (fun r => T r ∨ r = .id k) w₁ := by
      refine ⟨hsound.kept, hsound.tidy.grounded, hsound.tidy.single, ?_⟩
      rintro r (hr | rfl)
      · exact hsound.tidy.distinct r hr
      · exact hmove.below
    have hfewer : ∀ w', Sound N (fun r => T r ∨ r = .id k) w' → Sound N T w' := fun w' h =>
      ⟨h.kept, h.tidy.grounded, h.tidy.single, fun r hr => h.tidy.distinct r (.inl hr)⟩
    refine Prog.Safe.bind ((safe_ensureRemoteFolder (.inl hT) hboth (way_of_clear hmove.way)).of_inv hfewer
      hboth) (fun parent w₂ ⟨hboth₂, _, hparent⟩ => ?_) fun _ _ _ => trivial
    obtain ⟨hbeside, hat⟩ := hparent parent rfl
    have hsound₂ := hfewer w₂ hboth₂
    have hlonger : ∀ tail, ¬new ++ tail <+: new.dropLast := by
      intro tail hprefix
      have hlen := hprefix.length_le
      have := List.length_pos_of_ne_nil hmove.proper
      rw [List.length_append, List.length_dropLast] at hlen
      omega
    have hknown : w₂.remote.drive.resolve parent < w₂.remote.drive.files.next := by
      by_cases hnil : new.dropLast = []
      · rw [Drive.folderAt_nil hat hnil, hbeside.drive.resolve]
        exact hmove.known.trans_le hbeside.drive.next
      · obtain ⟨c, hc, hnum, -⟩ := hat.mem hnil
        rw [← hnum]
        exact w₂.remote.drive.files.key_lt hc
    have hplaced : Placed w₂.remote.drive k := by
      intro f hf hnum
      have hsame := hbeside.drive.same k hmove.made
      rw [Data.Serial.get_eq_some.mpr ⟨hf, hnum⟩] at hsame
      exact hmove.placed f (Data.Serial.get_eq_some.mp hsame.symm).1 hnum
    have hvacant : w₂.remote.drive.Vacant (w₂.remote.drive.resolve parent) (new.getLastD "") k :=
      vacant_of_path hat fun f hf => hmove.free f (hbeside.beyond _ f List.prefix_rfl hf)
    refine safe_marked (fun _ _ _ => trivial) (Prog.Safe.bind (safe_moveRemote
      (hsound₂.congr rfl rfl) hplaced (hboth₂.tidy.distinct _ (.inr rfl)) hknown hvacant)
      (fun _ w₃ ⟨hdb₃, hon₃⟩ => ?_) fun _ _ _ => trivial)
    have hback : ∀ n, N n → OnDrive w₃.remote.drive n → OnDrive w₁.remote.drive n :=
      fun n hn hon => onDrive_extends hbeside.drive (hsound.kept n hn).made (hon₃ n hn hon)
    have hrows : ∀ r ∈ w₃.db.items, ¬r.relativePath <+: new.dropLast → r ∈ w₁.db.items := by
      intro r hr hpath
      have hr₂ : r ∈ w₂.db.items := hdb₃ ▸ hr
      exact (hbeside.rows r hpath).mp hr₂
    have hmoverows := hmove.rows
    cases hkind : item.kind with
    | dir =>
      simp only [hkind] at hmoverows
      refine (safe_sql _).mpr fun h => ⟨h.db fun n hn r hr hselected hrid hon s hs hcase => ?_,
        trivial⟩
      have hselected_in : ∀ r ∈ w₃.db.items, ItemTable.Selected item.relativePath r →
          r ∈ w₁.db.items := fun r hr hsel =>
        hrows r hr fun hpath => hmove.outside _ hpath hsel
      have hs₁ : s ∈ w₁.db.items := by
        rcases hcase with hpath | ⟨hsel, -⟩
        · exact hrows s hs (hpath ▸ hlonger _)
        · exact hselected_in s hs hsel
      rcases hmoverows r (hselected_in r hr hselected) hselected with hloose | hothers
      · exact absurd (hback n hn hon) (hloose n hrid)
      · exact hothers s hs₁ hcase
    | file =>
      simp only [hkind] at hmoverows
      refine (safe_sql _).mpr fun h => ⟨h.db fun n hn r hr hpath hid hrid hon => ?_, trivial⟩
      have hr₁ : r ∈ w₁.db.items := hrows r hr (by simpa [hpath] using hlonger [])
      exact hmoverows r hr₁ hpath hid n hrid (hback n hn hon)

/-- **An operation** that spares the rows of the objects on Drive. -/
lemma safe_executeItem {op : PendingOperation} (hT : T root) (hsound : Sound N T w)
    (hitem : item ∈ w.db.items) (hspares : Spares w root op item) :
    (executeItem env root op item).Safe (handle env) (.solo (Sound N T)) Prog.Any w := by
  unfold executeItem
  simp only [Spares] at hspares
  split <;> rename_i hkind <;> simp only [hkind] at hspares
  · exact safe_executeUpload hT hsound hitem hspares
  · exact safe_executeDownload hitem hspares
  · exact safe_executeDeleteRemote hitem
  · exact safe_executeDeleteLocal hitem hspares
  · exact Prog.Safe.bind (safe_ensureRemoteFolder hT hsound (way_of_clear hspares)) (fun _ _ _ => trivial)
      fun _ _ _ => trivial
  · exact safe_benign (Prog.Only.bind ⟨rfl, fun x => Prog.only_ofExcept x⟩ fun _ =>
      ⟨rfl, fun _ => trivial⟩)
  · exact safe_benign ((Prog.only_ofExcept _).bind fun p => Prog.Only.bind
      ⟨rfl, fun x => Prog.only_ofExcept x⟩ fun _ => ⟨rfl, fun x => Prog.only_ofExcept x⟩)
  · exact safe_executeRenameRemote hT hsound hitem hspares
  · exact safe_executeRenameLocal hspares
  · trivial

end Operations

/-! ## A rename and the drain after it -/

/-- While the queue is drained, the user works on; other clients leave Drive alone. -/
def Draining (root : FileId) (w : World) : Action → Prop
  | .job (.drain root') _ => root' = root
  | .outside w' => w'.remote.drive = w.remote.drive
  | _ => False

/-- What can be on Drive before the rename: every path leads to one object. -/
def Possible (root : FileId) (w : World) : Action → Prop
  | .job (.event _) _ => Tidy (· = root) w.remote.drive
  | _ => True

/-- The actions that drop and rebind no row of an object on Drive, and put no object at a path where
another is. -/
structure Fits (root : FileId) (w : World) (a : Action) : Prop where
  /-- The action can happen. -/
  possible : Possible root w a
  /-- A row that was not uploaded yet takes the path of no object on Drive. -/
  event : ∀ from' to' calls item, a = .job (.event (.renamed from' to')) calls →
    w.db.items.getByRelativePath from' = some item → item.remoteId = none →
      ∀ r ∈ w.db.items, r.relativePath = to' → r.id ≠ item.id → Loose w r
  /-- An operation spares the rows of the objects on Drive. -/
  drain : ∀ root' calls op item, a = .job (.drain root') calls → Executes w op item →
    Spares w root' op item

/-- **Renaming onto a tracked path**, in any state that is reached from the first start on, and
draining the queue by actions that meet a condition, loses no object: each that had a live row has
one still, or is no longer on Drive, and no two are at one path. -/
def RenameSafe (env : Env) (meets : FileId → World → Action → Prop) : Prop :=
  ∀ (root : FileId) (w₀ w : World) (from' to' : RelPath) (calls : ℕ) (actions : List Action),
    w₀.db = Db.empty → Runs env (fun _ _ => True) w₀ w → (∃ r ∈ w.db.items, r.relativePath = to') →
      MeetsAll env (meets root) (.job (.event (.renamed from' to')) calls :: actions) w →
        MeetsAll env (Draining root) actions
          ((Action.job (.event (.renamed from' to')) calls).perform env w) →
          let w' := performAll env (.job (.event (.renamed from' to')) calls :: actions) w
          (∀ n < w.remote.drive.files.next, Held w.db.items n →
            Held w'.db.items n ∨ ¬OnDrive w'.remote.drive n) ∧ w'.remote.drive.Distinct root

section Runs

variable {env : Env} {N : ℕ → Prop} {T : FileId → Prop} {w : World} {root : FileId}

lemma enqueueOp_benign {i : ItemId} {op : Operation} {payload : Option Payload} :
    (enqueueOp i op payload).Only fun _ c => benign c = true :=
  Prog.Only.bind ⟨rfl, fun _ => trivial⟩ fun _ => Prog.Only.bind
    ⟨rfl, fun x => Prog.only_ofExcept x⟩ fun _ => trivial

lemma applyCreated_benign (p : RelPath) : (applyCreated p).Only fun _ c => benign c = true := by
  have hdir : ∀ rel, (enqueueLocalDir rel).Only fun _ c => benign c = true := by
    refine fun rel => Prog.Only.bind ⟨rfl, fun _ => trivial⟩ fun row => ?_
    cases row with
    | some item => trivial
    | none => exact Prog.Only.bind ⟨rfl, fun x => Prog.only_ofExcept x⟩ fun _ => enqueueOp_benign
  have hfile : ∀ rel, (enqueueLocalFile rel).Only fun _ c => benign c = true := by
    refine fun rel => Prog.Only.bind ⟨rfl, fun _ => trivial⟩ fun row => ?_
    cases row with
    | some item =>
      simp only
      split
      · trivial
      · exact enqueueOp_benign
    | none => exact Prog.Only.bind ⟨rfl, fun x => Prog.only_ofExcept x⟩ fun _ => enqueueOp_benign
  refine Prog.Only.bind ⟨rfl, fun _ => trivial⟩ fun isDir => ?_
  split
  · refine (hdir p).bind fun _ => Prog.Only.bind ⟨rfl, fun _ => trivial⟩ fun entries =>
      Prog.Only.forEach fun e _ => ?_
    unfold enqueueLocalEntry
    split
    · exact hdir _
    · exact hfile _
  · refine Prog.Only.bind ⟨rfl, fun _ => trivial⟩ fun isFile => ?_
    split
    · exact hfile p
    · trivial

/-- **A rename** drops no row of an object on Drive. -/
lemma safe_applyRenamed {from' to' : RelPath} (hrow : ∀ item,
    w.db.items.getByRelativePath from' = some item → item.remoteId = none →
      ∀ r ∈ w.db.items, r.relativePath = to' → r.id ≠ item.id → Loose w r) :
    (applyLocal (.renamed from' to')).Safe (handle env) (.solo (Sound N T)) Prog.Any w := by
  refine Prog.Safe.bind (P := fun x w' => w' = w ∧ x = .ok (w.db.items.getByRelativePath from'))
    ((safe_sql _).mpr fun hI => ⟨hI, rfl, rfl⟩) (fun row w₀ ⟨hw₀, hx⟩ => ?_) fun _ _ _ => trivial
  subst hw₀
  obtain rfl := Except.ok.inj hx
  cases hget : w₀.db.items.getByRelativePath from' with
  | none => exact safe_benign (applyCreated_benign to')
  | some item =>
    simp only
    split
    · next hremote =>
      refine Prog.Safe.bind (P := Prog.Any) ((safe_sql _).mpr fun h =>
        ⟨h.db fun n _ r hr hpath hid hrid => ?_, trivial⟩) (fun _ _ _ => safe_benign enqueueOp_benign)
        fun _ _ _ => trivial
      exact hrow item hget hremote r hr hpath hid n hrid
    · exact safe_benign enqueueOp_benign

/-- A drain by such operations. -/
lemma sound_performAll {actions : List Action} (hsound : Sound N (· = root) w)
    (hfits : MeetsAll env (Fits root) actions w) (hdraining : MeetsAll env (Draining root) actions w) :
    Sound N (· = root) (performAll env actions w) := by
  induction actions generalizing w with
  | nil => exact hsound
  | cons a actions ih =>
    refine ih ?_ hfits.2 hdraining.2
    cases a with
    | outside w' =>
      have hdrive : w'.remote.drive = w.remote.drive := hdraining.1
      refine ⟨fun n hn => ⟨?_, ?_⟩, ?_⟩
      · show n < w'.remote.drive.files.next
        rw [hdrive]
        exact (hsound.kept n hn).made
      · show OnDrive w'.remote.drive n → _
        rw [hdrive]
        exact (hsound.kept n hn).held
      · show Tidy _ w'.remote.drive
        rw [hdrive]
        exact hsound.tidy
    | job j calls =>
      cases j with
      | drain root' =>
        obtain rfl : root' = root := hdraining.1
        refine Prog.Safe.cut (Q := Prog.Any) ?_ hsound calls
        refine Prog.Safe.bind (safe_drainOne (fun _ _ _ hc hI => hI.benign (benign_of_booking hc))
          fun op item hexec hI => ?_) (fun _ _ _ => trivial) fun _ _ _ => trivial
        exact safe_executeItem rfl hI (ItemTable.getById_eq_some.mp hexec.row).1
          (hfits.1.drain root' calls op item rfl hexec)
      | _ => exact absurd hdraining.1 id

/-- **No object is lost** when no operation drops a row of one that is on Drive. -/
theorem rename_safe (env : Env) : RenameSafe env Fits := by
  intro root w₀ w from' to' calls actions _ _ _ hfits hdraining
  have hstart : Sound (fun n => n < w.remote.drive.files.next ∧ Held w.db.items n) (· = root) w :=
    ⟨fun n hn => ⟨hn.1, fun _ => hn.2⟩, hfits.1.possible⟩
  have hevent := (@safe_applyRenamed env _ _ _ _ _ fun item =>
    hfits.1.event from' to' calls item rfl).cut hstart calls
  have hend := sound_performAll hevent hfits.2 hdraining
  refine ⟨fun n hn hheld => ?_, hend.tidy.distinct root rfl⟩
  by_cases hon : OnDrive (performAll env (.job (.event (.renamed from' to')) calls :: actions)
    w).remote.drive n
  · exact .inl ((hend.kept n ⟨hn, hheld⟩).held hon)
  · exact .inr hon

/-- A Drive whose objects lie in one folder each, under names that are unique there. -/
lemma tidy_of_rows {d : Drive} (hgrounded : ∀ f ∈ d.files.table.rows, ∀ m ∈ f.parents, m < d.files.next)
    (hsingle : ∀ f ∈ d.files.table.rows, f.parents.length ≤ 1)
    (hnames : ∀ f ∈ d.files.table.rows, ∀ g ∈ d.files.table.rows, ∀ m ∈ f.parents, m ∈ g.parents →
      f.name = g.name → f = g) : Tidy T d :=
  ⟨hgrounded, hsingle, fun _ _ => Drive.distinct_iff.mpr fun _ m _ f hf g hg hfm hgm _ _ hname =>
    hnames f hf g hg m hfm hgm hname⟩

/-- The user saves `a.txt` by renaming a new file over it. -/
def savedOver : World :=
  byUser (.rename ["a.tmp"] ["a.txt"]) (byUser (.writeFile ["a.tmp"] [66]) sampleSynced)

/-- **Saving over a file** keeps its object and its row. -/
theorem saved_file_kept : ∀ n < savedOver.remote.drive.files.next, Held savedOver.db.items n →
    Held (performAll .plain [.job (.event (.renamed ["a.tmp"] ["a.txt"])) 100,
        .job (.drain (.id 2)) 100] savedOver).db.items n ∨
      ¬OnDrive (performAll .plain [.job (.event (.renamed ["a.tmp"] ["a.txt"])) 100,
        .job (.drain (.id 2)) 100] savedOver).remote.drive n := by
  have hsynced : Runs .plain (fun _ _ => True) (World.fresh (sampleDrive [65])) sampleSynced :=
    Runs.performAll .start ⟨trivial, trivial, trivial⟩
  have hruns : Runs .plain (fun _ _ => True) (World.fresh (sampleDrive [65])) savedOver :=
    @Runs.step _ _ _ sampleSynced (.outside savedOver) hsynced trivial
  have hrow : ∃ r ∈ savedOver.db.items, r.relativePath = ["a.txt"] :=
    (by decide +kernel : ∃ r ∈ savedOver.db.items.rows, r.relativePath = ["a.txt"])
  refine (rename_safe .plain (.id 2) _ savedOver ["a.tmp"] ["a.txt"] 100
    [.job (.drain (.id 2)) 100] rfl hruns hrow ⟨⟨?_, ?_, fun _ _ _ _ h => (by cases h)⟩,
      ⟨trivial, fun _ _ _ _ h => (by cases h), ?_⟩, trivial⟩ ⟨rfl, trivial⟩).1
  · exact tidy_of_rows (by decide +kernel) (by decide +kernel) (by decide +kernel)
  · rintro from' to' calls item ⟨⟩ hget
    cases (rfl : savedOver.db.items.getByRelativePath ["a.tmp"] = none).symm.trans hget
  · rintro root' calls op item ⟨⟩ hexec
    obtain rfl := Option.some.inj ((rfl : OpTable.nextDue _ _ =
      some ⟨2, 1, .upload, none, 0, 0⟩).symm.trans hexec.next)
    intro _ hnone
    have hitem := (rfl : ItemTable.getById _ 1 = some _).symm.trans hexec.row
    obtain rfl := Option.some.inj hitem
    cases hnone

/-- The mapped folder `Sync` (2) holds `a.txt` (3) and `b.txt` (4). -/
def sampleTwo : Drive where
  files :=
    ⟨⟨[⟨1, "My Drive", folderMime, none, [], false, true, true⟩,
       ⟨2, "Sync", folderMime, none, [1], false, true, true⟩,
       ⟨3, "a.txt", "text/plain", some [65], [2], false, true, true⟩,
       ⟨4, "b.txt", "text/plain", some [66], [2], false, true, true⟩],
      by simp⟩, 5, by simp⟩
  rootNum := 1
  feed := [(3, false), (4, false)]

/-- Both files have arrived. -/
def twoArrived : World :=
  performAll .plain
    [.job (.batch ⟨[⟨.id 3, false, some ⟨.id 3, "a.txt", "text/plain", some 1, some "A", [.id 2],
          false⟩, some ["a.txt"]⟩,
        ⟨.id 4, false, some ⟨.id 4, "b.txt", "text/plain", some 1, some "B", [.id 2], false⟩,
          some ["b.txt"]⟩], 2⟩) 100,
      .job (.drain (.id 2)) 100, .job (.drain (.id 2)) 100] (World.fresh sampleTwo)

/-- The user moves `b.txt` over `a.txt`. -/
def movedOver : World := byUser (.rename ["b.txt"] ["a.txt"]) twoArrived

/-- A file that is moved over another leaves the object of the other without a row. -/
theorem overwritten_file_orphaned : ¬RenameSafe .plain Possible := by
  intro h
  have harrived : Runs .plain (fun _ _ => True) (World.fresh sampleTwo) twoArrived :=
    Runs.performAll .start ⟨trivial, trivial, trivial, trivial⟩
  have hruns : Runs .plain (fun _ _ => True) (World.fresh sampleTwo) movedOver :=
    @Runs.step _ _ _ twoArrived (.outside movedOver) harrived trivial
  have hrow : ∃ r ∈ movedOver.db.items, r.relativePath = ["a.txt"] :=
    (by decide +kernel : ∃ r ∈ movedOver.db.items.rows, r.relativePath = ["a.txt"])
  have htidy : Tidy (· = FileId.id 2) movedOver.remote.drive :=
    tidy_of_rows (by decide +kernel) (by decide +kernel) (by decide +kernel)
  have hsafe := (h (.id 2) _ movedOver ["b.txt"] ["a.txt"] 100 [.job (.drain (.id 2)) 100] rfl hruns
    hrow ⟨htidy, trivial, trivial⟩ ⟨rfl, trivial⟩).1 3 (by decide +kernel)
      (by decide +kernel : ∃ r ∈ movedOver.db.items.rows, r.trashedAt = none ∧
        r.remoteId = some (.id 3))
  rcases hsafe with ⟨r, hr, -, hrid⟩ | hoff
  · exact (by decide +kernel : ∀ r ∈ (performAll .plain
      [.job (.event (.renamed ["b.txt"] ["a.txt"])) 100, .job (.drain (.id 2)) 100]
        movedOver).db.items.rows, r.remoteId ≠ some (.id 3)) r hr hrid
  · exact hoff (by decide +kernel : ∃ f ∈ (performAll .plain
      [.job (.event (.renamed ["b.txt"] ["a.txt"])) 100, .job (.drain (.id 2)) 100]
        movedOver).remote.drive.files.table.rows, f.num = 3 ∧ f.trashed = false ∧ f.parents ≠ [])

end Runs

end AirDrive.Orphans
