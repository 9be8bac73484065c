import AirDrive.Drive.Place

set_option relaxedAutoImplicit false
set_option autoImplicit false

/-!
# Names that are unique in their folders

Drive allows several objects of one name in a folder, so a path may lead to several of them. Where
each path below the mapped folder leads to one object at most, this stays so when objects vanish,
when one is made under a name that is free in its folder, and when one is moved to such a name.

## Main definitions

* `AirDrive.Drive.Distinct` — every path leads to one object at most.
* `AirDrive.Drive.Vacant` — no other live object has the name in a folder.

## Main results

* `AirDrive.Drive.distinct_iff` — in every folder of the tree, names are unique.
* `AirDrive.Drive.Distinct.shrink` — objects vanish.
* `AirDrive.Drive.Distinct.made`, `AirDrive.Drive.Distinct.moved` — an object is made, or moved.
* `AirDrive.DriveCall.shrinks_run`, `AirDrive.DriveCall.moved_patchFile` — the requests.
-/

namespace AirDrive

open Data

namespace Drive

/-- Every path below the mapped folder leads to one live object at most. -/
def Distinct (d : Drive) (root : FileId) : Prop :=
  ∀ p f g, ObjectAt d root p f → ObjectAt d root p g → f = g

/-- No live object but `n` has the name in the folder `m`. -/
def Vacant (d : Drive) (m : ℕ) (name : String) (n : ℕ) : Prop :=
  ∀ g ∈ d.files, g.num ≠ n → m ∈ g.parents → g.trashed = false → g.name ≠ name

variable {d d' : Drive} {root : FileId} {p : RelPath} {x : String} {f g : DriveFile} {m n : ℕ}

/-- At the empty path lies the mapped folder. -/
lemma folderAt_nil (h : FolderAt d root p n) (hp : p = []) : n = d.resolve root := by
  cases h with
  | root => rfl
  | child above mem parent live folder => simp at hp

/-- A folder at a path lies in the folder above it. -/
lemma folderAt_concat : FolderAt d root (p ++ [x]) n ↔ ∃ m, FolderAt d root p m ∧
    ∃ c ∈ d.files, m ∈ c.parents ∧ c.trashed = false ∧ c.mimeType = folderMime ∧ c.name = x ∧
      c.num = n := by
  constructor
  · intro h
    generalize hq : p ++ [x] = q at h
    cases h with
    | root => simp at hq
    | @child rel m c above mem parent live folder =>
      obtain ⟨rfl, hname⟩ := List.append_inj' hq rfl
      exact ⟨m, above, c, mem, parent, live, folder, (List.singleton_inj.mp hname).symm, rfl⟩
  · rintro ⟨m, hm, c, hc, hparent, hlive, hfolder, rfl, rfl⟩
    exact hm.child hc hparent hlive hfolder

/-- Above a folder lie folders. -/
lemma folderAt_of_prefix {q : RelPath} (h : FolderAt d root q n) (hp : p <+: q) :
    ∃ m, FolderAt d root p m := by
  induction h with
  | root =>
    obtain rfl := List.prefix_nil.mp hp
    exact ⟨_, .root⟩
  | child above mem parent live folder ih =>
    rcases List.prefix_concat_iff.mp hp with rfl | hp
    · exact ⟨_, above.child mem parent live folder⟩
    · exact ih hp

/-- An object in a folder of the tree lies at the path of the folder and its name. -/
lemma objectAt_child (hm : FolderAt d root p m) (hf : f ∈ d.files) (hparent : m ∈ f.parents)
    (hlive : f.trashed = false) : ObjectAt d root (p ++ [f.name]) f :=
  ⟨hf, ⟨m, by simpa using hm, hparent⟩, by simp, hlive⟩

/-- The folder at a path is unique. -/
lemma Distinct.folder_inj (h : Distinct d root) (hm : FolderAt d root p m)
    (hn : FolderAt d root p n) : m = n := by
  induction p using List.reverseRecOn generalizing m n with
  | nil => rw [folderAt_nil hm rfl, folderAt_nil hn rfl]
  | append_singleton p x ih =>
    obtain ⟨k, hk, c, hc, hcparent, hclive, -, rfl, rfl⟩ := folderAt_concat.mp hm
    obtain ⟨k', hk', c', hc', hcparent', hclive', -, hname, rfl⟩ := folderAt_concat.mp hn
    have hat' := objectAt_child hk' hc' hcparent' hclive'
    rw [hname] at hat'
    rw [h _ _ _ (objectAt_child hk hc hcparent hclive) hat']

/-- **In every folder of the tree, names are unique**, and only there. -/
lemma distinct_iff : Distinct d root ↔ ∀ p m, FolderAt d root p m → ∀ f ∈ d.files, ∀ g ∈ d.files,
    m ∈ f.parents → m ∈ g.parents → f.trashed = false → g.trashed = false → f.name = g.name →
      f = g := by
  constructor
  · intro h p m hm f hf g hg hfm hgm hflive hglive hname
    have hat := objectAt_child hm hg hgm hglive
    rw [← hname] at hat
    exact h _ _ _ (objectAt_child hm hf hfm hflive) hat
  · intro h
    have hinj : ∀ p m n, FolderAt d root p m → FolderAt d root p n → m = n := by
      intro p
      induction p using List.reverseRecOn with
      | nil => intro m n hm hn; rw [folderAt_nil hm rfl, folderAt_nil hn rfl]
      | append_singleton p x ih =>
        intro m n hm hn
        obtain ⟨k, hk, c, hc, hcparent, hclive, -, rfl, rfl⟩ := folderAt_concat.mp hm
        obtain ⟨k', hk', c', hc', hcparent', hclive', -, hname, rfl⟩ := folderAt_concat.mp hn
        obtain rfl := ih k k' hk hk'
        rw [h p k hk c hc c' hc' hcparent hcparent' hclive hclive' hname.symm]
    intro p f g hf hg
    obtain ⟨m, hm, hfm⟩ := hf.folder
    obtain ⟨n, hn, hgn⟩ := hg.folder
    obtain rfl := hinj _ m n hm hn
    exact h _ m hm f hf.mem g hg.mem hfm hgn hf.live hg.live (hf.name.trans hg.name.symm)

/-! ## Objects vanish -/

/-- What is in `d'` was in `d`, under the same name, lies in no other folder, and was live if it
is. -/
structure Shrinks (d d' : Drive) : Prop where
  root : d'.rootNum = d.rootNum
  next : d.files.next ≤ d'.files.next
  files : ∀ g' ∈ d'.files, ∃ g ∈ d.files, g.num = g'.num ∧
    (g'.trashed = false → g.trashed = false) ∧ g.name = g'.name ∧ g.mimeType = g'.mimeType ∧
      g'.parents.Sublist g.parents

lemma resolve_of_root (h : d'.rootNum = d.rootNum) (id : FileId) : d'.resolve id = d.resolve id := by
  cases id with
  | rootAlias => exact h
  | id n => rfl

lemma Shrinks.folderAt (h : Shrinks d d') (hn : FolderAt d' root p n) : FolderAt d root p n := by
  induction hn with
  | root =>
    rw [resolve_of_root h.root]
    exact .root
  | child above mem parent live folder ih =>
    obtain ⟨g, hg, hnum, hlive, hname, hmime, hparents⟩ := h.files _ mem
    rw [← hnum, ← hname]
    exact ih.child hg (hparents.subset parent) (hlive live) (hmime.trans folder)

lemma Shrinks.grounded (h : Shrinks d d') (hg : d.Grounded) : d'.Grounded := by
  intro g' hg' m hm
  obtain ⟨g, hmem, -, -, -, -, hparents⟩ := h.files g' hg'
  exact (hg g hmem m (hparents.subset hm)).trans_le h.next

/-- **Objects vanish**, and the paths lead to no new ones. -/
lemma Distinct.shrink (hd : Distinct d root) (h : Shrinks d d') : Distinct d' root := by
  rw [distinct_iff] at hd ⊢
  intro p m hm f' hf' g' hg' hfm hgm hflive hglive hname
  obtain ⟨f, hf, hfnum, hlive, hfname, -, hfparents⟩ := h.files f' hf'
  obtain ⟨g, hg, hgnum, hlive', hgname, -, hgparents⟩ := h.files g' hg'
  have hfg : f = g := hd p m (h.folderAt hm) f hf g hg (hfparents.subset hfm)
    (hgparents.subset hgm) (hlive hflive) (hlive' hglive) (hfname.trans (hname.trans hgname.symm))
  refine d'.files.key_inj hf' hg' ?_
  rw [← hfnum, ← hgnum, hfg]

/-- A change in place that moves and renames no object and brings none back. -/
lemma shrinks_change {k : DriveFile → DriveFile} {hk : ∀ y, (k y).num = y.num}
    (hlive : ∀ y, (k y).trashed = false → y.trashed = false) (hname : ∀ y, (k y).name = y.name)
    (hmime : ∀ y, (k y).mimeType = y.mimeType)
    (hparents : ∀ y, (k y).parents.Sublist y.parents) : Shrinks d (d.change n k hk) := by
  refine ⟨rfl, Nat.le_refl _, fun g' hg' => ?_⟩
  rcases mem_change.mp hg' with ⟨hg, -⟩ | ⟨g, hg, -, rfl⟩
  · exact ⟨g', hg, rfl, id, rfl, rfl, .refl _⟩
  · exact ⟨g, hg, (hk g).symm, hlive g, (hname g).symm, (hmime g).symm, hparents g⟩

lemma shrinks_remove : Shrinks d (d.remove n) :=
  ⟨rfl, Nat.le_refl _, fun g' hg' => ⟨g', (mem_remove.mp hg').1, rfl, id, rfl, rfl, .refl _⟩⟩

lemma Shrinks.refl (d : Drive) : Shrinks d d :=
  ⟨rfl, Nat.le_refl _, fun g hg => ⟨g, hg, rfl, id, rfl, rfl, .refl _⟩⟩

/-! ## An object is made or moved -/

/-- **An object is made** under a name that is free in its folder. -/
lemma Distinct.made (hd : Distinct d root) (h : Made d m f d') (hg : d.Grounded)
    (hfree : Vacant d m f.name f.num) : Distinct d' root := by
  have hnew : ∀ g ∈ d.files, g.num ≠ f.num := by
    intro g hg hnum
    have := d.files.key_lt hg
    rw [hnum, h.num] at this
    exact lt_irrefl _ this
  intro p g g' hat hat'
  rcases h.objectAt hg hat with hold | ⟨rfl, hm, hname⟩
  · rcases h.objectAt hg hat' with hold' | ⟨rfl, hm, hname⟩
    · exact hd p g g' hold hold'
    · obtain ⟨k, hk, hparent⟩ := hold.folder
      obtain rfl := hd.folder_inj hk hm
      exact absurd (hold.name.trans hname.symm) (hfree g hold.mem (hnew g hold.mem) hparent hold.live)
  · rcases h.objectAt hg hat' with hold' | ⟨rfl, -, -⟩
    · obtain ⟨k, hk, hparent⟩ := hold'.folder
      obtain rfl := hd.folder_inj hk hm
      exact absurd (hold'.name.trans hname.symm)
        (hfree g' hold'.mem (hnew g' hold'.mem) hparent hold'.live)
    · rfl

/-- The object `n` is now `f`, in the folder `m`, and the others are what they were. -/
structure Moved (d : Drive) (n m : ℕ) (f : DriveFile) (d' : Drive) : Prop where
  root : d'.rootNum = d.rootNum
  next : d'.files.next = d.files.next
  num : f.num = n
  parents : f.parents = [m]
  files : ∀ g, g ∈ d'.files → g ∈ d.files ∧ g.num ≠ n ∨ g = f

/-- The folders of the tree were in it before, or below the object that was moved. -/
lemma Moved.folderAt (h : Moved d n m f d') {k : ℕ} (hk : FolderAt d' root p k) :
    (∃ q, FolderAt d root q k) ∨ ∃ q, FolderAt d (.id n) q k := by
  induction hk with
  | root =>
    rw [resolve_of_root h.root]
    exact .inl ⟨[], .root⟩
  | child above mem parent live folder ih =>
    rcases h.files _ mem with ⟨hold, -⟩ | rfl
    · rcases ih with ⟨q, hq⟩ | ⟨q, hq⟩
      · exact .inl ⟨_, hq.child hold parent live folder⟩
      · exact .inr ⟨_, hq.child hold parent live folder⟩
    · rw [h.num]
      exact .inr ⟨[], .root⟩

/-- **An object is moved** to a name that is free in its folder, with a subtree in which the names
are unique. -/
lemma Distinct.moved (hd : Distinct d root) (hsub : Distinct d (.id n)) (h : Moved d n m f d')
    (hfree : Vacant d m f.name n) : Distinct d' root := by
  have hout : ∀ g, g ∈ d.files ∧ g.num ≠ n → m ∈ g.parents → g.trashed = false → f.name ≠ g.name :=
    fun g hg hparent hlive hname => hfree g hg.1 hg.2 hparent hlive hname.symm
  rw [distinct_iff] at hd hsub ⊢
  intro p k hk g hg g' hg' hgk hgk' hlive hlive' hname
  rcases h.files g hg with hold | rfl
  · rcases h.files g' hg' with hold' | rfl
    · rcases h.folderAt hk with ⟨q, hq⟩ | ⟨q, hq⟩
      · exact hd q k hq g hold.1 g' hold'.1 hgk hgk' hlive hlive' hname
      · exact hsub q k hq g hold.1 g' hold'.1 hgk hgk' hlive hlive' hname
    · rw [h.parents, List.mem_singleton] at hgk'
      subst hgk'
      exact absurd hname.symm (hout g hold hgk hlive)
  · rcases h.files g' hg' with hold' | rfl
    · rw [h.parents, List.mem_singleton] at hgk
      subst hgk
      exact absurd hname (hout g' hold' hgk' hlive')
    · rfl

end Drive

/-! ## Requests -/

namespace DriveCall

open Drive

variable {md5 : List UInt8 → String} {α : Type} {d : Drive}

/-- The requests that make, rename or move an object. -/
def placing : {α : Type} → DriveCall α → Bool
  | _, createFolder _ _ => true
  | _, uploadMultipart _ _ _ _ => true
  | _, patchFile _ _ _ => true
  | _, _ => false

/-- **Every other request** leaves the objects under their names in their folders. -/
lemma shrinks_run {c : DriveCall α} (hc : c.placing = false) : Shrinks d (c.run md5 d).2 := by
  cases c with
  | createFolder parent name => cases hc
  | uploadMultipart parent name mime bytes => cases hc
  | patchFile id name move => cases hc
  | getFile id =>
    simp only [run, onFile]
    split <;> exact .refl d
  | getMedia id =>
    simp only [run, onFile]
    split
    · exact .refl d
    · split <;> exact .refl d
  | patchMedia id bytes =>
    simp only [run, onFile]
    split
    · exact .refl d
    · exact shrinks_change (fun _ h => h) (fun _ => rfl) (fun _ => rfl) fun _ => .refl _
  | trash id =>
    simp only [run, onFile]
    split
    · exact .refl d
    · split
      · exact shrinks_change (fun _ h => by cases h) (fun _ => rfl) (fun _ => rfl) fun _ => .refl _
      · exact .refl d
  | deleteFile id =>
    simp only [run, onFile]
    split
    · exact .refl d
    · split
      · exact shrinks_remove
      · exact .refl d
  | removeParents id parents =>
    simp only [run, onFile]
    split
    · exact .refl d
    · split
      · exact shrinks_change (fun _ h => h) (fun _ => rfl) (fun _ => rfl)
          fun _ => List.filter_sublist
      · exact .refl d
  | listChildren parent => exact .refl d
  | changesSince token => exact .refl d
  | startPageToken => exact .refl d

/-- A request that makes an object makes it under its name in its folder. -/
lemma made_createFolder {parent : FileId} {name : String} :
    (run md5 (.createFolder parent name) d).2 = d ∨ ∃ f,
      Made d (d.resolve parent) f (run md5 (.createFolder parent name) d).2 ∧ f.name = name := by
  simp only [run]
  rcases hmade : d.create parent name folderMime none with ⟨o, d'⟩
  cases o with
  | some f =>
    obtain ⟨hnew, hname, -⟩ := made_of_create hmade
    exact .inr ⟨f, hnew, hname⟩
  | none =>
    refine .inl ?_
    unfold Drive.create at hmade
    split at hmade
    · exact (congrArg Prod.snd hmade).symm
    · cases congrArg Prod.fst hmade

lemma made_uploadMultipart {parent : FileId} {name mime : String} {bytes : List UInt8} :
    (run md5 (.uploadMultipart parent name mime bytes) d).2 = d ∨ ∃ f,
      Made d (d.resolve parent) f (run md5 (.uploadMultipart parent name mime bytes) d).2 ∧
        f.name = name := by
  simp only [run]
  rcases hmade : d.create parent name mime (some bytes) with ⟨o, d'⟩
  cases o with
  | some f =>
    obtain ⟨hnew, hname, -⟩ := made_of_create hmade
    exact .inr ⟨f, hnew, hname⟩
  | none =>
    refine .inl ?_
    unfold Drive.create at hmade
    split at hmade
    · exact (congrArg Prod.snd hmade).symm
    · cases congrArg Prod.fst hmade

/-- The folders of an object after a request that renames it, and moves it from some to another. -/
def newParents (d : Drive) (f : DriveFile) : Option (FileId × List FileId) → List ℕ
  | none => f.parents
  | some (add, remove) =>
    (f.parents.filter fun p => !(remove.map d.resolve).contains p) ++ [d.resolve add]

/-- An object that is renamed, and lies in one folder afterwards. -/
lemma moved_patchFile {id : FileId} {name : String} {move : Option (FileId × List FileId)} :
    (run md5 (.patchFile id name move) d).2 = d ∨ ∃ f, d.file id = some f ∧
      ∀ m, newParents d f move = [m] →
        Moved d f.num m { f with name := name, parents := newParents d f move }
          (run md5 (.patchFile id name move) d).2 := by
  simp only [run, onFile]
  cases hfile : d.file id with
  | none => exact .inl rfl
  | some f =>
    have hf : f ∈ d.files := (Serial.get_eq_some.mp hfile).1
    refine .inr ⟨f, rfl, fun m hm => ⟨rfl, rfl, rfl, hm, fun g hg => ?_⟩⟩
    rcases mem_change.mp hg with hold | ⟨s, hs, hnum, rfl⟩
    · exact .inl hold
    · obtain rfl := d.files.key_inj hs hf hnum
      refine .inr ?_
      cases move with
      | none => rfl
      | some move => rfl

end DriveCall

end AirDrive
