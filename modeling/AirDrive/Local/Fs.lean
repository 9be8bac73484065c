import AirDrive.Local.Tree

set_option relaxedAutoImplicit false
set_option autoImplicit false

/-!
# Filesystem calls

The `std::fs` calls the daemon makes on the local tree, with the errors POSIX gives them. Each
is one atomic action on the tree.

## Main definitions

* `AirDrive.FsCall`, `AirDrive.FsCall.run` — the calls and their meaning.
* `AirDrive.Fs.createDirAll`, `AirDrive.Fs.writeFile`, `AirDrive.Fs.removeFile`,
  `AirDrive.Fs.removeDirAll`, `AirDrive.Fs.rename`, `AirDrive.Fs.mergeMoveDir` — what they do.
* `AirDrive.Fs.walk` — `walk_local` and `walk_subtree`.

## Main results

* `AirDrive.Fs.node_writeFile_self`, `AirDrive.Fs.node_writeFile_ne`,
  `AirDrive.Fs.node_createDirAll` — what a write changes.
* `AirDrive.Fs.node_rename_file`, `AirDrive.Fs.rename_file` — a file that is moved.
* `AirDrive.Fs.mem_walk` — a walk lists the nodes outside the staging area.
-/

namespace AirDrive

/-- The staging directory for partial downloads, never walked. -/
def partialDir : String := ".air-drive-partial"

namespace Fs

/-- `fs::create_dir_all`: make every missing directory on the way to `pre ++ rest`. -/
def createDirs (fs : Fs) (pre : RelPath) : RelPath → Except Error Fs
  | [] => .ok fs
  | x :: rest =>
    match fs.node (pre ++ [x]) with
    | some .dir => createDirs fs (pre ++ [x]) rest
    | some (.file _) => .error (.io .alreadyExists)
    | none =>
      if h : pre ++ [x] ≠ [] ∧ fs.node (pre ++ [x]).dropLast = some .dir ∧
          fs.node (pre ++ [x]) ≠ some .dir then
        createDirs (fs.setLeaf (pre ++ [x]) .dir h) (pre ++ [x]) rest
      else .error (.io .notFound)

/-- `fs::create_dir_all`. -/
def createDirAll (fs : Fs) (p : RelPath) : Except Error Fs := fs.createDirs [] p

/-- Writing a file, or renaming a staged file over its destination: the parent must be a
directory and the destination must not be one. -/
def writeFile (fs : Fs) (p : RelPath) (b : Bytes) : Except Error Fs :=
  if h : p ≠ [] ∧ fs.node p.dropLast = some .dir ∧ fs.node p ≠ some .dir then
    .ok (fs.setLeaf p (.file b) h)
  else if fs.node p = some .dir then .error (.io .isADirectory)
  else if fs.node p.dropLast = none then .error (.io .notFound)
  else .error (.io .notADirectory)

/-- Reading a file. -/
def readFile (fs : Fs) (p : RelPath) : Except Error Bytes :=
  match fs.node p with
  | some (.file b) => .ok b
  | some .dir => .error (.io .isADirectory)
  | none => .error (.io .notFound)

/-- `fs::remove_file`. -/
def removeFile (fs : Fs) (p : RelPath) : Except Error Fs :=
  match fs.node p with
  | none => .error (.io .notFound)
  | some .dir => .error (.io .isADirectory)
  | some (.file _) => if h : p ≠ [] then .ok (fs.removeTree p h) else .error (.io .invalidInput)

/-- `fs::remove_dir_all`. -/
def removeDirAll (fs : Fs) (p : RelPath) : Except Error Fs :=
  match fs.node p with
  | none => .error (.io .notFound)
  | some (.file _) => .error (.io .notADirectory)
  | some .dir => if h : p ≠ [] then .ok (fs.removeTree p h) else .error (.io .invalidInput)

/-- The names in a directory, as `read_dir` lists them. -/
def children (fs : Fs) (p : RelPath) : List String :=
  fs.nodes.rows.filterMap fun r =>
    match r.1.getLast? with
    | some x => if r.1 = p ++ [x] then some x else none
    | none => none

/-- `fs::remove_dir`: only an empty directory. -/
def removeDir (fs : Fs) (p : RelPath) : Except Error Fs :=
  match fs.node p with
  | none => .error (.io .notFound)
  | some (.file _) => .error (.io .notADirectory)
  | some .dir =>
    if fs.children p ≠ [] then .error (.io .directoryNotEmpty)
    else if h : p ≠ [] then .ok (fs.removeTree p h) else .error (.io .invalidInput)

/-- Nothing is below a path. -/
def bare (fs : Fs) (p : RelPath) : Bool := fs.nodes.rows.all fun r => !p.below r.1

lemma node_eq_none_of_bare {fs : Fs} {p : RelPath} (h : fs.bare p = true) (q : RelPath)
    (x : String) : fs.node (p ++ x :: q) = none := by
  cases hn : fs.node (p ++ x :: q) with
  | none => rfl
  | some n =>
    rw [node_of_ne_nil _ (by simp)] at hn
    have hb := List.all_eq_true.mp h _ (Data.FinMap.val_eq_some.mp hn)
    have hbelow : p.below (p ++ x :: q) = true := RelPath.below_iff.mpr ⟨x, q, rfl⟩
    rw [hbelow] at hb
    exact absurd hb (by simp)

/-- `fs::rename`: a file replaces a file, a directory replaces an empty directory. -/
def rename (fs : Fs) (old new : RelPath) : Except Error Fs :=
  if fs.node old = none then .error (.io .notFound)
  else if fs.node new.dropLast = none then .error (.io .notFound)
  else if fs.node new.dropLast ≠ some .dir then .error (.io .notADirectory)
  else if old = new then .ok fs
  else if h : (fs.node old ≠ none ∧ old ≠ [] ∧ new ≠ []) ∧ fs.node new.dropLast = some .dir ∧
      ¬old <+: new then
    match fs.isDir old, fs.node new with
    | false, some .dir => .error (.io .isADirectory)
    | true, some (.file _) => .error (.io .notADirectory)
    | _, _ =>
      if hb : fs.bare new = true then
        .ok (fs.moveTree old new ⟨h.1.1, h.1.2, h.2.1, h.2.2,
          fun q x => node_eq_none_of_bare hb q x⟩)
      else .error (.io .directoryNotEmpty)
  else .error (.io .invalidInput)

/-- `merge_move_dir`: move every entry of `src` into `dst`, recursing into directories that
exist on both sides, then remove the emptied `src`. The fuel bounds the depth of the recursion;
the number of nodes is enough. What was moved before an error stays moved. -/
def mergeMoveDirAux : ℕ → RelPath → RelPath → Fs → Except Error Unit × Fs
  | 0, _, _, fs => (.error (.io .invalidInput), fs)
  | fuel + 1, src, dst, fs =>
    match fs.createDirAll dst with
    | .error e => (.error e, fs)
    | .ok fs =>
      let moveEntry (acc : Except Error Unit × Fs) (name : String) : Except Error Unit × Fs :=
        match acc with
        | (.error e, fs) => (.error e, fs)
        | (.ok (), fs) =>
          if fs.isDir (src ++ [name]) && fs.isDir (dst ++ [name]) then
            mergeMoveDirAux fuel (src ++ [name]) (dst ++ [name]) fs
          else
            match fs.rename (src ++ [name]) (dst ++ [name]) with
            | .ok fs' => (.ok (), fs')
            | .error e => (.error e, fs)
      if fs.isDir src then
        match (fs.children src).foldl moveEntry (.ok (), fs) with
        | (.error e, fs) => (.error e, fs)
        | (.ok (), fs) =>
          match fs.removeDir src with
          | .ok fs' => (.ok (), fs')
          | .error e => (.error e, fs)
      else (.error (.io .notFound), fs)

/-- `merge_move_dir`. -/
def mergeMoveDir (fs : Fs) (src dst : RelPath) : Except Error Unit × Fs :=
  mergeMoveDirAux (fs.nodes.rows.length + 1) src dst fs

/-- An entry of a walk: its path and whether it is a directory. -/
structure LocalEntry where
  /-- Path relative to the watched root. -/
  relativePath : RelPath
  /-- `true` for directories. -/
  isDir : Bool
deriving DecidableEq, Repr

/-- `walk_local` and `walk_subtree`: everything below `dir`, sorted by path, without entries
named like the staging directory and what is below them. -/
def walk (fs : Fs) (dir : RelPath) : List LocalEntry :=
  RelPath.sort LocalEntry.relativePath <|
    (fs.nodes.rows.filter fun r => dir.below r.1 && !(r.1.drop dir.length).contains partialDir).map
      fun r => ⟨r.1, r.2 = .dir⟩

/-- **A walk** lists exactly the nodes below the directory, outside the staging area. -/
lemma mem_walk {fs : Fs} {dir : RelPath} {e : LocalEntry} :
    e ∈ fs.walk dir ↔
      ∃ n, fs.nodes.val e.relativePath = some n ∧ e.isDir = decide (n = .dir) ∧
        dir.below e.relativePath = true ∧
          partialDir ∉ e.relativePath.drop dir.length := by
  simp only [walk, RelPath.mem_sort, List.mem_map, List.mem_filter, Bool.and_eq_true,
    Bool.not_eq_true', List.contains_eq_mem, decide_eq_false_iff_not, Data.FinMap.val_eq_some]
  constructor
  · rintro ⟨⟨p, n⟩, ⟨hm, hb, hp⟩, rfl⟩
    exact ⟨n, hm, rfl, hb, hp⟩
  · rintro ⟨n, hm, hd, hb, hp⟩
    exact ⟨(e.relativePath, n), ⟨hm, hb, hp⟩, by cases e; simp_all⟩

lemma node_writeFile_self {fs fs' : Fs} {p : RelPath} {b : Bytes}
    (h : fs.writeFile p b = .ok fs') : fs'.node p = some (.file b) := by
  unfold writeFile at h
  split_ifs at h with hc
  obtain rfl := Except.ok.inj h
  simp

lemma node_writeFile_ne {fs fs' : Fs} {p q : RelPath} {b : Bytes}
    (h : fs.writeFile p b = .ok fs') (hq : q ≠ p) : fs'.node q = fs.node q := by
  unfold writeFile at h
  split_ifs at h with hc
  obtain rfl := Except.ok.inj h
  exact node_setLeaf_ne hq

/-- The parent of a node other than the watched folder is a directory. -/
lemma parent_of_node {fs : Fs} {p : RelPath} (hp : p ≠ []) (h : fs.node p ≠ none) :
    fs.node p.dropLast = some .dir := by
  have hsplit := List.dropLast_append_getLast hp
  rw [← hsplit] at h
  exact fs.parent_dir h

/-- Making directories keeps every node. -/
lemma node_createDirs {fs fs' : Fs} {pre rest q : RelPath} (h : fs.createDirs pre rest = .ok fs')
    (hq : fs.node q ≠ none) : fs'.node q = fs.node q := by
  induction rest generalizing fs pre with
  | nil =>
    obtain rfl := Except.ok.inj h
    rfl
  | cons x rest ih =>
    simp only [createDirs] at h
    split at h
    · exact ih h hq
    · cases h
    · next hnone =>
      split_ifs at h with hc
      · have hne : q ≠ pre ++ [x] := fun heq => hq (heq ▸ hnone)
        have hleaf := node_setLeaf_ne (n := .dir) (h := hc) hne
        rw [ih h (by rwa [hleaf]), hleaf]
 
/-- A directory that is there need not be made. -/
lemma createDirs_of_dir {fs : Fs} {pre rest : RelPath} (h : fs.node (pre ++ rest) = some .dir) :
    fs.createDirs pre rest = .ok fs := by
  induction rest generalizing pre with
  | nil => rfl
  | cons x rest ih =>
    have hdir : fs.node (pre ++ [x]) = some .dir := by
      cases rest with
      | nil => exact h
      | cons y rest => exact fs.dir_of_below (x := y) (q := rest) (by simp [h])
    simp only [createDirs, hdir]
    exact ih (by simpa using h)

lemma createDirAll_of_dir {fs : Fs} {p : RelPath} (h : fs.node p = some .dir) :
    fs.createDirAll p = .ok fs := createDirs_of_dir h

/-- The directory that was made is there. -/
lemma dir_of_createDirs {fs fs' : Fs} {pre rest : RelPath} (hpre : fs.node pre = some .dir)
    (h : fs.createDirs pre rest = .ok fs') : fs'.node (pre ++ rest) = some .dir := by
  induction rest generalizing fs pre with
  | nil =>
    obtain rfl := Except.ok.inj h
    simpa using hpre
  | cons x rest ih =>
    simp only [createDirs] at h
    split at h
    · next hdir => simpa using ih hdir h
    · cases h
    · split_ifs at h with hc
      simpa using ih (node_setLeaf_self (h := hc)) h

lemma dir_of_createDirAll {fs fs' : Fs} {p : RelPath} (h : fs.createDirAll p = .ok fs') :
    fs'.node p = some .dir := @dir_of_createDirs fs fs' [] p rfl h

lemma node_createDirAll {fs fs' : Fs} {p q : RelPath} (h : fs.createDirAll p = .ok fs')
    (hq : fs.node q ≠ none) : fs'.node q = fs.node q := node_createDirs h hq

/-- Making directories makes no file. -/
lemma file_of_createDirs {fs fs' : Fs} {pre rest q : RelPath} {b : Bytes}
    (h : fs.createDirs pre rest = .ok fs') (hq : fs'.node q = some (.file b)) :
    fs.node q = some (.file b) := by
  induction rest generalizing fs pre with
  | nil =>
    obtain rfl := Except.ok.inj h
    exact hq
  | cons x rest ih =>
    simp only [createDirs] at h
    split at h
    · exact ih h
    · cases h
    · split_ifs at h with hc
      have hmade := ih h
      by_cases heq : q = pre ++ [x]
      · rw [heq, node_setLeaf_self] at hmade
        cases hmade
      · rwa [node_setLeaf_ne heq] at hmade

/-- Directories are made on the way to the path only. -/
lemma dir_of_createDirs_dir {fs fs' : Fs} {pre rest q : RelPath}
    (h : fs.createDirs pre rest = .ok fs') (hq : fs'.node q = some .dir) :
    fs.node q = some .dir ∨ q <+: pre ++ rest := by
  induction rest generalizing fs pre with
  | nil =>
    obtain rfl := Except.ok.inj h
    exact .inl hq
  | cons x rest ih =>
    simp only [createDirs] at h
    split at h
    · simpa using ih h
    · cases h
    · split_ifs at h with hc
      rcases ih h with hmade | hpre
      · by_cases heq : q = pre ++ [x]
        · exact .inr (by simp [heq])
        · rw [node_setLeaf_ne heq] at hmade
          exact .inl hmade
      · exact .inr (by simpa using hpre)

/-- The files are the same before and after directories were made. -/
lemma file_createDirAll_iff {fs fs' : Fs} {p q : RelPath} {b : Bytes}
    (h : fs.createDirAll p = .ok fs') :
    fs'.node q = some (.file b) ↔ fs.node q = some (.file b) := by
  refine ⟨file_of_createDirs h, fun hq => ?_⟩
  rw [node_createDirAll h (by simp [hq]), hq]

lemma writeFile_of_dir {fs : Fs} {p : RelPath} {b : Bytes} (hp : p ≠ [])
    (hdir : fs.node p.dropLast = some .dir) (hnode : fs.node p ≠ some .dir) :
    ∃ fs', fs.writeFile p b = .ok fs' := by
  unfold writeFile
  rw [dif_pos ⟨hp, hdir, hnode⟩]
  exact ⟨_, rfl⟩

/-- Nothing is below what is no directory. -/
lemma bare_of_ne_dir {fs : Fs} {p : RelPath} (h : fs.node p ≠ some .dir) : fs.bare p = true := by
  rw [bare, List.all_eq_true]
  intro r hr
  by_contra hbelow
  obtain ⟨x, rest, hpath⟩ := RelPath.below_iff.mp (by simpa using hbelow)
  have hval : fs.nodes.val r.1 = some r.2 := Data.FinMap.val_eq_some.mpr hr
  refine h (fs.dir_of_below (x := x) (q := rest) ?_)
  rw [← hpath, node_of_ne_nil _ (by simp [hpath]), hval]
  simp

/-- A file that was renamed is at its destination. -/
lemma node_rename_file {fs fs' : Fs} {old new : RelPath} {b : Bytes}
    (hold : fs.node old = some (.file b)) (h : fs.rename old new = .ok fs') :
    fs'.node new = some (.file b) := by
  unfold rename at h
  split_ifs at h with hnone hparent hdir hsame hmov hbare
  · obtain rfl := Except.ok.inj h
    exact hsame ▸ hold
  · split at h
    · cases h
    · cases h
    · obtain rfl := Except.ok.inj h
      simpa using node_moveTree_moved [] (by simpa using hold)
  · split at h <;> cases h

/-- Renaming a file to a path of a directory fails only for want of a place. -/
lemma rename_file_error {fs : Fs} {old new : RelPath} {b : Bytes} {e : Error}
    (hold : fs.node old = some (.file b)) (hparent : fs.node new.dropLast = some .dir)
    (h : fs.rename old new = .error e) : e = .io .isADirectory ∨ e = .io .invalidInput := by
  have hfile : fs.isDir old = false := by simp [isDir, hold]
  unfold rename at h
  split_ifs at h with hnone hgone hdir hsame hmov hbare
  · simp [hold] at hnone
  · simp [hparent] at hgone
  · exact absurd hparent hdir
  · rw [hfile] at h
    split at h
    · exact .inl (Except.error.inj h).symm
    · next heq _ => cases heq
    · cases h
  · have hbelow : fs.node new = some .dir := by
      by_contra hne
      exact hbare (bare_of_ne_dir hne)
    rw [hfile, hbelow] at h
    exact .inl (Except.error.inj h).symm
  · exact .inr (Except.error.inj h).symm

/-- Renaming a file to a path of a directory, where no directory is, goes well. -/
lemma rename_file_ok {fs : Fs} {old new : RelPath} {b : Bytes} (hold : fs.node old = some (.file b))
    (hparent : fs.node new.dropLast = some .dir) (hout : ¬old <+: new)
    (hnew : fs.node new ≠ some .dir) : ∃ fs', fs.rename old new = .ok fs' := by
  have hne : old ≠ [] := by
    rintro rfl
    simp at hold
  have hne' : new ≠ [] := by
    rintro rfl
    simp at hnew
  have hfile : fs.isDir old = false := by simp [isDir, hold]
  have hsame : old ≠ new := fun h => hout (h ▸ List.prefix_rfl)
  have hbare : fs.bare new = true := bare_of_ne_dir hnew
  unfold rename
  rw [if_neg (by simp [hold]), if_neg (by simp [hparent]), if_neg (by simp [hparent]),
    if_neg hsame, dif_pos ⟨⟨by simp [hold], hne, hne'⟩, hparent, hout⟩, hfile]
  split
  · next hdir => exact absurd hdir hnew
  · next heq _ => cases heq
  · exact ⟨_, dif_pos hbare⟩

/-- A file does not replace a directory. -/
lemma rename_file_dir {fs : Fs} {old new : RelPath} {b : Bytes}
    (hold : fs.node old = some (.file b)) (hout : ¬old <+: new) (hnew : fs.node new = some .dir) :
    ∃ e, fs.rename old new = .error e := by
  cases h : fs.rename old new with
  | error e => exact ⟨e, rfl⟩
  | ok fs' =>
    have hfile : fs.isDir old = false := by simp [isDir, hold]
    unfold rename at h
    split_ifs at h with hnone hgone hdir hsame hmov hbare
    · exact absurd (hsame ▸ List.prefix_rfl) hout
    · rw [hfile, hnew] at h
      cases h
    · rw [hfile, hnew] at h
      cases h

/-- Renaming a file to a free path of a directory. -/
lemma rename_file {fs : Fs} {old new : RelPath} {b : Bytes} (hold : fs.node old = some (.file b))
    (hnew : fs.node new = none) (hparent : fs.node new.dropLast = some .dir)
    (hout : ¬old <+: new) :
    ∃ fs', fs.rename old new = .ok fs' ∧ fs'.node new = some (.file b) ∧ fs'.node old = none ∧
      ∀ r, ¬old <+: r → ¬new <+: r → fs'.node r = fs.node r := by
  have hne : old ≠ [] := by
    rintro rfl
    simp at hold
  have hne' : new ≠ [] := by
    rintro rfl
    simp at hnew
  have hbare : fs.bare new = true := bare_of_ne_dir (by simp [hnew])
  have hmov : fs.Movable old new := ⟨by simp [hold], ⟨hne, hne'⟩, hparent, hout,
    fun q x => node_eq_none_of_bare hbare q x⟩
  refine ⟨fs.moveTree old new hmov, ?_, ?_, ?_, fun r hr hr' => node_moveTree_fixed hr hr'⟩
  · have hfile : fs.isDir old = false := by simp [isDir, hold]
    have hsame : old ≠ new := fun h => hout (h ▸ List.prefix_rfl)
    simp [rename, hold, hparent, hsame, hne, hne', hout, hfile, hnew, hbare]
  · simpa using node_moveTree_moved (h := hmov) [] (by simpa using hold)
  · simpa using node_moveTree_left (h := hmov) []

end Fs

/-! ## The calls -/

/-- The filesystem calls. -/
inductive FsCall : Type → Type
  /-- `Path::is_file`. -/
  | isFile (p : RelPath) : FsCall Bool
  /-- `Path::is_dir`. -/
  | isDir (p : RelPath) : FsCall Bool
  /-- `Path::exists`. -/
  | pathExists (p : RelPath) : FsCall Bool
  /-- Reading a whole file. -/
  | readFile (p : RelPath) : FsCall (Except Error Bytes)
  /-- Writing a whole file, or promoting a staged one. -/
  | writeFile (p : RelPath) (b : Bytes) : FsCall (Except Error Unit)
  /-- `fs::create_dir_all`. -/
  | createDirAll (p : RelPath) : FsCall (Except Error Unit)
  /-- `fs::remove_file`. -/
  | removeFile (p : RelPath) : FsCall (Except Error Unit)
  /-- `fs::remove_dir_all`. -/
  | removeDirAll (p : RelPath) : FsCall (Except Error Unit)
  /-- `fs::rename`. -/
  | rename (old new : RelPath) : FsCall (Except Error Unit)
  /-- `merge_move_dir`. -/
  | mergeMoveDir (src dst : RelPath) : FsCall (Except Error Unit)
  /-- `walk_local` and `walk_subtree`. -/
  | walk (dir : RelPath) : FsCall (List Fs.LocalEntry)

namespace FsCall

/-- A call that changes the tree unless it fails. -/
def commit (fs : Fs) : Except Error Fs → Except Error Unit × Fs
  | .ok fs' => (.ok (), fs')
  | .error e => (.error e, fs)

/-- The answer of a call and the tree after it. -/
def run : {β : Type} → FsCall β → Fs → β × Fs
  | _, isFile p, fs => (fs.isFile p, fs)
  | _, isDir p, fs => (fs.isDir p, fs)
  | _, pathExists p, fs => (fs.exists' p, fs)
  | _, readFile p, fs => (fs.readFile p, fs)
  | _, writeFile p b, fs => commit fs (fs.writeFile p b)
  | _, createDirAll p, fs => commit fs (fs.createDirAll p)
  | _, removeFile p, fs => commit fs (fs.removeFile p)
  | _, removeDirAll p, fs => commit fs (fs.removeDirAll p)
  | _, rename old new, fs => commit fs (fs.rename old new)
  | _, mergeMoveDir src dst, fs => fs.mergeMoveDir src dst
  | _, walk dir, fs => (fs.walk dir, fs)

/-- A file that was written is there. -/
lemma node_of_writeFile {fs : Fs} {p : RelPath} {b : Bytes}
    (h : (run (.writeFile p b) fs).1 = .ok ()) :
    (run (.writeFile p b) fs).2.node p = some (.file b) := by
  simp only [run] at h ⊢
  cases hwrite : fs.writeFile p b with
  | error e =>
    rw [hwrite] at h
    cases h
  | ok fs' => exact Fs.node_writeFile_self hwrite

/-- A directory that was made is there. -/
lemma dir_of_createDirAll {fs : Fs} {p : RelPath} (h : (run (.createDirAll p) fs).1 = .ok ()) :
    (run (.createDirAll p) fs).2.node p = some .dir := by
  simp only [run] at h ⊢
  cases hmade : fs.createDirAll p with
  | error e =>
    rw [hmade] at h
    cases h
  | ok fs' => exact Fs.dir_of_createDirAll hmade

end FsCall

end AirDrive
