import AirDrive.Drive.Service

set_option relaxedAutoImplicit false
set_option autoImplicit false

/-!
# Places on Drive

Drive names objects by ids; a path below the mapped folder is a chain of live folders with the
names of its components. What lies at a path changes with the objects: an object that is made lies
in its folder, and a change of one object that is no folder moves no other.

## Main definitions

* `AirDrive.FolderAt`, `AirDrive.ObjectAt` — what lies at a path below the mapped folder.
* `AirDrive.Drive.Grounded` — no object lies in a folder that is still to be made.
* `AirDrive.Drive.Made`, `AirDrive.Drive.Gone` — an object that was made, or deleted.

## Main results

* `AirDrive.Drive.Extends.folderAt`, `AirDrive.Drive.Extends.objectAt` — what stays.
* `AirDrive.Drive.Made.folderAt`, `AirDrive.Drive.Made.objectAt` — what a new object adds.
* `AirDrive.Drive.Folders.folderAt` — the folders of a path depend on the folders only.
-/

namespace AirDrive

open Data

/-- The folder `n` lies at a path below the mapped folder. -/
inductive FolderAt (d : Drive) (root : FileId) : RelPath → ℕ → Prop
  | root : FolderAt d root [] (d.resolve root)
  | child {rel : RelPath} {n : ℕ} {c : DriveFile} (above : FolderAt d root rel n)
    (mem : c ∈ d.files) (parent : n ∈ c.parents) (live : c.trashed = false)
    (folder : c.mimeType = folderMime) : FolderAt d root (rel ++ [c.name]) c.num

/-- What lies at a path other than the mapped folder itself is a folder. -/
lemma FolderAt.mem {d : Drive} {root : FileId} {rel : RelPath} {n : ℕ} (h : FolderAt d root rel n)
    (hne : rel ≠ []) : ∃ c ∈ d.files, c.num = n ∧ c.mimeType = folderMime := by
  cases h with
  | root => exact absurd rfl hne
  | child above mem parent live folder => exact ⟨_, mem, rfl, folder⟩

/-- The live object `f` lies at a path below the mapped folder. -/
structure ObjectAt (d : Drive) (root : FileId) (rel : RelPath) (f : DriveFile) : Prop where
  /-- It is on Drive. -/
  mem : f ∈ d.files
  /-- It lies in the folder of its path. -/
  folder : ∃ n, FolderAt d root rel.dropLast n ∧ n ∈ f.parents
  /-- It has the last name of the path. -/
  name : f.name = rel.getLastD ""
  /-- It is not in the trash. -/
  live : f.trashed = false

namespace Drive.Extends

variable {d d' : Drive}

lemma resolve (h : d.Extends d') (id : FileId) : d'.resolve id = d.resolve id := by
  cases id with
  | rootAlias => exact h.root
  | id n => rfl

lemma mem (h : d.Extends d') {f : DriveFile} (hf : f ∈ d.files) : f ∈ d'.files := by
  have hsame := h.same f.num (d.files.key_lt hf)
  rw [Data.Serial.get_eq_some.mpr ⟨hf, rfl⟩] at hsame
  exact (Data.Serial.get_eq_some.mp hsame).1

/-- What lies at a path stays there while no object changes. -/
lemma folderAt (h : d.Extends d') {root : FileId} {rel : RelPath} {n : ℕ}
    (hn : FolderAt d root rel n) : FolderAt d' root rel n := by
  induction hn with
  | root =>
    rw [← h.resolve]
    exact .root
  | child _ mem parent live folder ih => exact .child ih (h.mem mem) parent live folder

lemma objectAt (h : d.Extends d') {root : FileId} {rel : RelPath} {f : DriveFile}
    (hf : ObjectAt d root rel f) : ObjectAt d' root rel f := by
  obtain ⟨n, hn, hparent⟩ := hf.folder
  exact ⟨h.mem hf.mem, ⟨n, h.folderAt hn, hparent⟩, hf.name, hf.live⟩

end Drive.Extends

namespace Drive

variable {d d' : Drive} {root : FileId} {rel : RelPath} {f g : DriveFile} {m n : ℕ}

/-! ## Making an object -/

/-- No object lies in a folder that is still to be made. -/
def Grounded (d : Drive) : Prop := ∀ f ∈ d.files, ∀ n ∈ f.parents, n < d.files.next

/-- The object `f` was made in the folder `m`. -/
structure Made (d : Drive) (m : ℕ) (f : DriveFile) (d' : Drive) : Prop where
  mem : ∀ g, g ∈ d'.files ↔ g ∈ d.files ∨ g = f
  num : f.num = d.files.next
  parents : f.parents = [m]
  folder : m < d.files.next
  live : f.trashed = false
  next : d'.files.next = d.files.next + 1
  root : d'.rootNum = d.rootNum

/-- An object that was made is the answer of the request, and lies in the folder. -/
lemma made_of_create {parent : FileId} {name mime : String} {content : Option (List UInt8)}
    (h : d.create parent name mime content = (some f, d')) :
    Made d (d.resolve parent) f d' ∧ f.name = name ∧ f.mimeType = mime ∧ f.content = content := by
  unfold Drive.create at h
  cases hp : d.file parent with
  | none => simp [hp] at h
  | some p =>
    simp only [hp, Prod.mk.injEq, Option.some.injEq] at h
    obtain ⟨rfl, rfl⟩ := h
    obtain ⟨hmem, hnum⟩ := Serial.get_eq_some.mp hp
    refine ⟨⟨fun g => Serial.mem_push, rfl, ?_, ?_, rfl, rfl, rfl⟩, rfl, rfl, rfl⟩
    · rw [hnum]
    · rw [← hnum]
      exact d.files.key_lt hmem

/-- A folder that was made. -/
lemma made_of_createFolder {md5 : List UInt8 → String} {r : Remote} {parent : FileId} {name : String}
    {rf : FileResource} (h : (r.send md5 (.createFolder parent name)).1 = .ok rf) :
    ∃ f, rf.id = .id f.num ∧
      Made r.drive (r.drive.resolve parent) f (r.send md5 (.createFolder parent name)).2.drive ∧
        f.name = name ∧ f.mimeType = folderMime := by
  have hrun := Remote.send_ok h
  rw [Remote.send_ok_drive h]
  simp only [DriveCall.run] at hrun ⊢
  rcases hmade : r.drive.create parent name folderMime none with ⟨o, d'⟩
  rw [hmade] at hrun
  cases o with
  | none => cases hrun
  | some f =>
    obtain rfl := Except.ok.inj hrun
    obtain ⟨hnew, hname, hmime, -⟩ := made_of_create hmade
    exact ⟨f, rfl, hnew, hname, hmime⟩

/-- A file that was made. -/
lemma made_of_upload {md5 : List UInt8 → String} {r : Remote} {parent : FileId}
    {name mime : String} {b : List UInt8} {rf : FileResource}
    (h : (r.send md5 (.uploadMultipart parent name mime b)).1 = .ok rf) :
    ∃ f, rf.id = .id f.num ∧ Made r.drive (r.drive.resolve parent) f
      (r.send md5 (.uploadMultipart parent name mime b)).2.drive := by
  have hrun := Remote.send_ok h
  rw [Remote.send_ok_drive h]
  simp only [DriveCall.run] at hrun ⊢
  rcases hmade : r.drive.create parent name mime (some b) with ⟨o, d'⟩
  rw [hmade] at hrun
  cases o with
  | none => cases hrun
  | some f =>
    obtain rfl := Except.ok.inj hrun
    exact ⟨f, rfl, (made_of_create hmade).1⟩

/-- A request that changes no object makes one at most. -/
lemma made_of_untouching {α : Type} {md5 : List UInt8 → String} {c : DriveCall α}
    (hc : c.touches = none) :
    (c.run md5 d).2 = d ∨ ∃ m f, Made d m f (c.run md5 d).2 := by
  have hcreate : ∀ parent name mime content, (d.create parent name mime content).2 = d ∨
      ∃ m f, Made d m f (d.create parent name mime content).2 := by
    intro parent name mime content
    rcases hmade : d.create parent name mime content with ⟨o, d'⟩
    cases o with
    | some f => exact .inr ⟨_, f, (made_of_create hmade).1⟩
    | none =>
      unfold Drive.create at hmade
      split at hmade
      · exact .inl (Prod.mk.inj hmade).2.symm
      · cases (Prod.mk.inj hmade).1
  cases c with
  | createFolder parent name =>
    have h := hcreate parent name folderMime none
    simp only [DriveCall.run]
    generalize d.create parent name folderMime none = made at h ⊢
    obtain ⟨f, d'⟩ := made
    cases f <;> exact h
  | uploadMultipart parent name mime bytes =>
    have h := hcreate parent name mime (some bytes)
    simp only [DriveCall.run]
    generalize d.create parent name mime (some bytes) = made at h ⊢
    obtain ⟨f, d'⟩ := made
    cases f <;> exact h
  | getFile id =>
    simp only [DriveCall.run, DriveCall.onFile]
    split <;> exact .inl rfl
  | getMedia id =>
    simp only [DriveCall.run, DriveCall.onFile]
    split
    · exact .inl rfl
    · split <;> exact .inl rfl
  | listChildren parent => exact .inl rfl
  | changesSince token => exact .inl rfl
  | startPageToken => exact .inl rfl
  | _ => cases hc

namespace Made

lemma resolve (h : Made d m f d') (id : FileId) : d'.resolve id = d.resolve id := by
  cases id with
  | rootAlias => exact h.root
  | id n => rfl

lemma grounded (h : Made d m f d') (hg : d.Grounded) : d'.Grounded := by
  intro g hmem n hn
  rw [h.next]
  rcases (h.mem g).mp hmem with hmem | rfl
  · exact (hg g hmem n hn).trans (Nat.lt_succ_self _)
  · rw [h.parents, List.mem_singleton] at hn
    have := h.folder
    omega

/-- An object that is made changes no other. -/
lemma adds (h : Made d m f d') : d.Extends d' := by
  refine ⟨by rw [h.next]; exact Nat.le_succ _, fun n hn => ?_, h.root⟩
  ext g
  rw [Serial.get_eq_some, Serial.get_eq_some, h.mem]
  constructor
  · rintro ⟨hg | rfl, hnum⟩
    · exact ⟨hg, hnum⟩
    · rw [h.num] at hnum
      omega
  · rintro ⟨hg, hnum⟩
    exact ⟨.inl hg, hnum⟩

/-- A new object is a folder at one more path, if it is a folder. -/
lemma folderAt (h : Made d m f d') (hg : d.Grounded) (hn : FolderAt d' root rel n) :
    FolderAt d root rel n ∨ f.mimeType = folderMime ∧ n = f.num ∧
      ∃ above, rel = above ++ [f.name] ∧ FolderAt d root above m := by
  induction hn with
  | root =>
    rw [h.resolve]
    exact .inl .root
  | @child above k c _ mem parent live folder ih =>
    rcases (h.mem c).mp mem with hc | rfl
    · rcases ih with ih | ⟨-, rfl, -⟩
      · exact .inl (.child ih hc parent live folder)
      · -- an object that was there does not lie in the new folder
        have := hg c hc _ parent
        rw [h.num] at this
        omega
    · rw [h.parents, List.mem_singleton] at parent
      subst parent
      rcases ih with ih | ⟨-, hk, -⟩
      · exact .inr ⟨folder, rfl, above, rfl, ih⟩
      · have := h.folder
        rw [h.num] at hk
        omega

/-- A new object lies in its folder, and everything else where it was. -/
lemma objectAt (h : Made d m f d') (hg : d.Grounded) (hf : ObjectAt d' root rel g) :
    ObjectAt d root rel g ∨
      g = f ∧ FolderAt d root rel.dropLast m ∧ f.name = rel.getLastD "" := by
  obtain ⟨n, hn, hparent⟩ := hf.folder
  rcases (h.mem g).mp hf.mem with hmem | rfl
  · rcases h.folderAt hg hn with hn | ⟨-, rfl, -⟩
    · exact .inl ⟨hmem, ⟨n, hn, hparent⟩, hf.name, hf.live⟩
    · have := hg g hmem _ hparent
      rw [h.num] at this
      omega
  · rw [h.parents, List.mem_singleton] at hparent
    subst hparent
    rcases h.folderAt hg hn with hn | ⟨-, hnum, -⟩
    · exact .inr ⟨rfl, hn, hf.name⟩
    · have := h.folder
      rw [h.num] at hnum
      omega

end Made

/-! ## Changing an object -/

/-- The live folders of `d` are in `d'`, under the same names and in the same folders. -/
structure Folders (d d' : Drive) : Prop where
  root : d'.rootNum = d.rootNum
  folders : ∀ c ∈ d.files, c.mimeType = folderMime → c.trashed = false → ∃ c' ∈ d'.files,
    c'.num = c.num ∧ c'.name = c.name ∧ c'.parents = c.parents ∧ c'.mimeType = folderMime ∧
      c'.trashed = false

/-- The folders of a path depend on the folders only. -/
lemma Folders.folderAt (h : Folders d d') (hn : FolderAt d root rel n) :
    FolderAt d' root rel n := by
  induction hn with
  | root =>
    have hroot : d.resolve root = d'.resolve root := by
      cases root with
      | rootAlias => exact h.root.symm
      | id n => rfl
    rw [hroot]
    exact .root
  | child _ mem parent live folder ih =>
    obtain ⟨c', hc', hnum, hname, hparents, hmime, htrashed⟩ := h.folders _ mem folder live
    rw [← hnum, ← hname]
    exact .child ih hc' (hparents ▸ parent) htrashed hmime

section Change

variable {k : DriveFile → DriveFile} {hk : ∀ x, (k x).num = x.num}

lemma mem_change : g ∈ (d.change n k hk).files ↔
    (g ∈ d.files ∧ g.num ≠ n) ∨ ∃ s ∈ d.files, s.num = n ∧ k s = g :=
  @Serial.mem_modify _ _ _ _ _ hk _

lemma mem_remove : g ∈ (d.remove n).files ↔ g ∈ d.files ∧ g.num ≠ n := by
  rw [remove, Serial.mem_keep, decide_eq_true_eq]

/-- A change that keeps the folders where they are. -/
lemma folderAt_change (hmime : ∀ x, (k x).mimeType = x.mimeType)
    (hkeep : ∀ x ∈ d.files, x.num = n → x.mimeType = folderMime →
      (k x).name = x.name ∧ (k x).parents = x.parents ∧ (k x).trashed = x.trashed) :
    FolderAt (d.change n k hk) root rel m ↔ FolderAt d root rel m := by
  constructor
  · refine Folders.folderAt ⟨rfl, fun c hc hfolder hlive => ?_⟩
    rcases mem_change.mp hc with ⟨hc, -⟩ | ⟨s, hs, hnum, rfl⟩
    · exact ⟨c, hc, rfl, rfl, rfl, hfolder, hlive⟩
    · obtain ⟨hname, hparents, htrashed⟩ := hkeep s hs hnum ((hmime s).symm.trans hfolder)
      exact ⟨s, hs, (hk s).symm, hname.symm, hparents.symm, (hmime s).symm.trans hfolder,
        htrashed.symm.trans hlive⟩
  · refine Folders.folderAt ⟨rfl, fun c hc hfolder hlive => ?_⟩
    by_cases hnum : c.num = n
    · obtain ⟨hname, hparents, htrashed⟩ := hkeep c hc hnum hfolder
      exact ⟨k c, mem_change.mpr (.inr ⟨c, hc, hnum, rfl⟩), hk c, hname, hparents,
        (hmime c).trans hfolder, htrashed.trans hlive⟩
    · exact ⟨c, mem_change.mpr (.inl ⟨hc, hnum⟩), rfl, rfl, rfl, hfolder, hlive⟩

/-- The other objects stay where they are. -/
lemma objectAt_change (hfolder : ∀ rel m, FolderAt (d.change n k hk) root rel m ↔
    FolderAt d root rel m) (hne : g.num ≠ n) :
    ObjectAt (d.change n k hk) root rel g ↔ ObjectAt d root rel g := by
  have hmem : g ∈ (d.change n k hk).files ↔ g ∈ d.files := by
    rw [mem_change]
    refine ⟨?_, fun hg => .inl ⟨hg, hne⟩⟩
    rintro (⟨hg, -⟩ | ⟨s, -, hnum, rfl⟩)
    · exact hg
    · exact absurd ((hk s).trans hnum) hne
  refine ⟨fun h => ⟨hmem.mp h.mem, ?_, h.name, h.live⟩, fun h => ⟨hmem.mpr h.mem, ?_, h.name, h.live⟩⟩
  · obtain ⟨m, hm, hparent⟩ := h.folder
    exact ⟨m, (hfolder _ m).mp hm, hparent⟩
  · obtain ⟨m, hm, hparent⟩ := h.folder
    exact ⟨m, (hfolder _ m).mpr hm, hparent⟩

/-- The object that changes stays where it is when its name, its folders and its place in or out
of the trash do. -/
lemma objectAt_change_self (hfolder : ∀ rel m, FolderAt (d.change n k hk) root rel m ↔
    FolderAt d root rel m) (hname : (k g).name = g.name) (hparents : (k g).parents = g.parents)
    (htrashed : (k g).trashed = g.trashed) (hg : g ∈ d.files) (hnum : g.num = n) :
    ObjectAt (d.change n k hk) root rel (k g) ↔ ObjectAt d root rel g := by
  refine ⟨fun h => ⟨hg, ?_, hname.symm.trans h.name, htrashed.symm.trans h.live⟩,
    fun h => ⟨mem_change.mpr (.inr ⟨g, hg, hnum, rfl⟩), ?_, hname.trans h.name,
      htrashed.trans h.live⟩⟩
  · obtain ⟨m, hm, hparent⟩ := h.folder
    exact ⟨m, (hfolder _ m).mp hm, hparents ▸ hparent⟩
  · obtain ⟨m, hm, hparent⟩ := h.folder
    exact ⟨m, (hfolder _ m).mpr hm, hparents.symm ▸ hparent⟩

/-- Deleting an object that is no folder. -/
lemma folderAt_remove (hno : ∀ x ∈ d.files, x.num = n → x.mimeType ≠ folderMime) :
    FolderAt (d.remove n) root rel m ↔ FolderAt d root rel m := by
  constructor
  · exact Folders.folderAt ⟨rfl, fun c hc hfolder hlive =>
      ⟨c, (mem_remove.mp hc).1, rfl, rfl, rfl, hfolder, hlive⟩⟩
  · refine Folders.folderAt ⟨rfl, fun c hc hfolder hlive =>
      ⟨c, mem_remove.mpr ⟨hc, fun hnum => hno c hc hnum hfolder⟩, rfl, rfl, rfl, hfolder, hlive⟩⟩

lemma objectAt_remove (hno : ∀ x ∈ d.files, x.num = n → x.mimeType ≠ folderMime) :
    ObjectAt (d.remove n) root rel g ↔ ObjectAt d root rel g ∧ g.num ≠ n := by
  constructor
  · intro h
    obtain ⟨hg, hne⟩ := mem_remove.mp h.mem
    obtain ⟨m, hm, hparent⟩ := h.folder
    exact ⟨⟨hg, ⟨m, (folderAt_remove hno).mp hm, hparent⟩, h.name, h.live⟩, hne⟩
  · rintro ⟨h, hne⟩
    obtain ⟨m, hm, hparent⟩ := h.folder
    exact ⟨mem_remove.mpr ⟨h.mem, hne⟩, ⟨m, (folderAt_remove hno).mpr hm, hparent⟩, h.name, h.live⟩

end Change

/-! ## Deleting an object -/

/-- The object `n`, which is no folder, is in the trash or deleted; the others are what they
were. -/
structure Gone (d : Drive) (n : ℕ) (d' : Drive) : Prop where
  next : d'.files.next = d.files.next
  root : d'.rootNum = d.rootNum
  parents : ∀ g' ∈ d'.files, ∃ g ∈ d.files, g.parents = g'.parents
  others : ∀ g' ∈ d'.files, g'.num ≠ n → g' ∈ d.files
  folder : ∀ (root : FileId) (rel : RelPath) (m : ℕ),
    FolderAt d' root rel m ↔ FolderAt d root rel m
  object : ∀ (root : FileId) (rel : RelPath) (g : DriveFile),
    ObjectAt d' root rel g ↔ ObjectAt d root rel g ∧ g.num ≠ n

lemma Gone.resolve {d d' : Drive} {n : ℕ} (h : Gone d n d') (id : FileId) :
    d'.resolve id = d.resolve id := by
  cases id with
  | rootAlias => exact h.root
  | id k => rfl

lemma gone_of_trash {d : Drive} {n : ℕ}
    (hno : ∀ x ∈ d.files, x.num = n → x.mimeType ≠ folderMime) :
    Gone d n (d.change n (fun x => { x with trashed := true }) fun _ => rfl) := by
  have hfolder : ∀ (root : FileId) (rel : RelPath) (m : ℕ),
      FolderAt (d.change n (fun x => { x with trashed := true }) fun _ => rfl) root rel m ↔
        FolderAt d root rel m := fun root rel m =>
    folderAt_change (fun _ => rfl) fun x hx hnum hmime => absurd hmime (hno x hx hnum)
  refine ⟨rfl, rfl, fun g' hg' => ?_, fun g' hg' hne => ?_, hfolder, fun root rel g => ?_⟩
  · rcases mem_change.mp hg' with ⟨hg, -⟩ | ⟨g, hg, -, rfl⟩
    · exact ⟨g', hg, rfl⟩
    · exact ⟨g, hg, rfl⟩
  · rcases mem_change.mp hg' with ⟨hg, -⟩ | ⟨g, -, hnum, rfl⟩
    · exact hg
    · exact absurd hnum hne
  · constructor
    · intro h
      have hne : g.num ≠ n := by
        intro hnum
        rcases mem_change.mp h.mem with ⟨-, hne⟩ | ⟨s, -, -, rfl⟩
        · exact hne hnum
        · exact absurd h.live (by simp)
      exact ⟨(objectAt_change (hfolder root) hne).mp h, hne⟩
    · rintro ⟨h, hne⟩
      exact (objectAt_change (hfolder root) hne).mpr h

lemma gone_of_remove {d : Drive} {n : ℕ}
    (hno : ∀ x ∈ d.files, x.num = n → x.mimeType ≠ folderMime) : Gone d n (d.remove n) :=
  ⟨rfl, rfl, fun g' hg' => ⟨g', (mem_remove.mp hg').1, rfl⟩, fun _ hg' _ => (mem_remove.mp hg').1,
    fun _ _ _ => folderAt_remove hno, fun _ _ _ => objectAt_remove hno⟩

end Drive

end AirDrive
