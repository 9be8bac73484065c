import Mathlib.Algebra.BigOperators.Group.Finset.Piecewise
import Mathlib.Algebra.Order.BigOperators.Group.List
import Mathlib.Algebra.Order.Ring.Nat
import AirDrive.Watch.Renames

set_option relaxedAutoImplicit false
set_option autoImplicit false

/-!
# The disk with its symbolic links

The watched folder is a part of a disk on which a link may lead anywhere: to an ancestor, to another
link, out of the folder and back into it. A link holds a text. What a path leads to is found by
following the texts, at most as many of them as the system allows.

The calls of `std::fs` may fail at any path, be it too long or not permitted. An answer that is
given is right.

## Main definitions

* `AirDrive.Disk` — a finite disk.
* `AirDrive.Disk.resolve` — where a path leads.
* `AirDrive.Disk.Answers` — what the system answers while the disk does not change.
* `AirDrive.Disk.Answers.classifyLocal` — `classify_local`, call by call.

## Main results

* `AirDrive.Disk.resolve_placed` — a path leads to an entry of the disk.
* `AirDrive.Disk.sum_children_le` — different directories have no more children than the disk has
  entries.
* `AirDrive.Disk.Answers.classifyLocal_eq` — `classify_local` depends on what is found at the path.
-/

namespace AirDrive

open Data Watch

/-- An absolute path, by its components. -/
abbrev AbsPath := List String

/-- The text of a symbolic link. -/
structure LinkText where
  /-- It starts at the top of the disk. -/
  absolute : Bool
  /-- Its components, with `.` and `..`. -/
  names : List String
deriving DecidableEq, Repr

/-- An entry of a directory. -/
inductive Inode
  | file
  | dir
  | special
  | link (text : LinkText)
deriving DecidableEq, Repr

/-- `FileType`. -/
inductive FileType
  | file
  | dir
  | symlink
  | other
deriving DecidableEq, Repr

/-- The type that `symlink_metadata` gives for an entry. -/
def Inode.fileType : Inode → FileType
  | .file => .file
  | .dir => .dir
  | .special => .other
  | .link _ => .symlink

/-- A finite disk. -/
structure Disk where
  /-- The entries, by their paths without links. -/
  nodes : FinMap AbsPath Inode
  /-- Every entry is in a directory. -/
  tree : ∀ p x, nodes.val (p ++ [x]) ≠ none → p = [] ∨ nodes.val p = some .dir
  /-- No entry has a name that stands for another directory. -/
  named : ∀ r ∈ nodes.rows, r.1 ≠ [] ∧ "." ∉ r.1 ∧ ".." ∉ r.1
  /-- How many links the system follows for one path. -/
  maxLinks : ℕ

namespace Disk

/-- The number of entries. -/
def size (d : Disk) : ℕ := d.nodes.rows.length

/-- The type of an entry, the empty path being the top of the disk. -/
def typeAt (d : Disk) (v : AbsPath) : Option FileType :=
  if v = [] then some .dir else (d.nodes.val v).map Inode.fileType

/-- The names in a directory. -/
def children (d : Disk) (v : AbsPath) : List String :=
  (d.nodes.rows.map Prod.fst).filterMap fun p => if p.dropLast = v then p.getLast? else none

/-- Follow the components from `cur`, an entry that is not a link. The text of a link takes the
place of its component, and `follow` goes on from there. -/
def resolveWith (d : Disk) (follow : AbsPath → List String → Option AbsPath) :
    AbsPath → List String → Option AbsPath
  | cur, [] => some cur
  | cur, x :: rest =>
    if d.typeAt cur ≠ some .dir then none
    else if x = "." then resolveWith d follow cur rest
    else if x = ".." then resolveWith d follow cur.dropLast rest
    else
      match d.nodes.val (cur ++ [x]) with
      | none => none
      | some (.link text) => follow (if text.absolute then [] else cur) (text.names ++ rest)
      | some _ => resolveWith d follow (cur ++ [x]) rest

/-- Follow the components and at most `n` links. -/
def resolveFrom (d : Disk) : ℕ → AbsPath → List String → Option AbsPath
  | 0 => d.resolveWith fun _ _ => none
  | n + 1 => d.resolveWith (d.resolveFrom n)

/-- Where a path leads, if it leads anywhere: its canonical form. -/
def resolve (d : Disk) (p : AbsPath) : Option AbsPath := d.resolveFrom d.maxLinks [] p

/-- The type of what a path leads to. -/
def stat (d : Disk) (p : AbsPath) : Option FileType := (d.resolve p).bind d.typeAt

/-- The type of what is at a path, its last component not followed. -/
def lstat (d : Disk) (p : AbsPath) : Option FileType :=
  match p.getLast? with
  | none => d.typeAt []
  | some x =>
    if x = "." ∨ x = ".." then d.stat p
    else (d.resolve p.dropLast).bind fun v => (d.nodes.val (v ++ [x])).map Inode.fileType

/-- The names of a listing, without those that could not be read. -/
def read (entries : List (Except IoKind String)) : List String :=
  entries.filterMap Except.toOption

/-- What the system answers to the calls of the walks, while the disk does not change. -/
structure Answers (d : Disk) where
  /-- `fs::read_dir`, with what its iterator yields. -/
  readDir : AbsPath → Except IoKind (List (Except IoKind String))
  /-- `fs::symlink_metadata`. -/
  symlinkMetadata : AbsPath → Option FileType
  /-- `fs::metadata`. -/
  metadata : AbsPath → Option FileType
  /-- `fs::canonicalize`. -/
  canonicalize : AbsPath → Option AbsPath
  /-- The names are those of the directory at the end of the path, in any order. -/
  readDir_ok : ∀ p entries, readDir p = .ok entries →
    ∃ v, d.resolve p = some v ∧ (read entries).Nodup ∧ read entries ⊆ d.children v
  symlinkMetadata_eq : ∀ p type, symlinkMetadata p = some type → d.lstat p = some type
  metadata_eq : ∀ p type, metadata p = some type → d.stat p = some type
  canonicalize_eq : ∀ p v, canonicalize p = some v → d.resolve p = some v

/-! ## Where paths lead -/

section Resolve

variable {d : Disk}

/-- A place on the disk: its top, or one of its entries. -/
def Placed (d : Disk) (v : AbsPath) : Prop := v = [] ∨ d.nodes.val v ≠ none

lemma Placed.dropLast {v : AbsPath} (h : d.Placed v) : d.Placed v.dropLast := by
  rcases List.eq_nil_or_concat v with rfl | ⟨p, x, rfl⟩
  · exact .inl rfl
  rw [List.concat_eq_append] at h ⊢
  rw [List.dropLast_concat]
  rcases h with hnil | hnode
  · exact absurd hnil (by simp)
  rcases d.tree p x hnode with rfl | hdir
  · exact .inl rfl
  · exact .inr (by rw [hdir]; simp)

lemma resolveWith_placed {follow : AbsPath → List String → Option AbsPath}
    (hfollow : ∀ cur names v, d.Placed cur → follow cur names = some v → d.Placed v)
    {cur v : AbsPath} {names : List String} (hcur : d.Placed cur)
    (h : d.resolveWith follow cur names = some v) : d.Placed v := by
  induction names generalizing cur with
  | nil => exact Option.some.inj h ▸ hcur
  | cons x rest ih =>
    rw [resolveWith] at h
    split_ifs at h with hdir hdot hup
    · exact ih hcur h
    · exact ih hcur.dropLast h
    · cases hnode : d.nodes.val (cur ++ [x]) with
      | none =>
        rw [hnode] at h
        cases h
      | some inode =>
        have hnext : d.Placed (cur ++ [x]) := .inr (by rw [hnode]; simp)
        rw [hnode] at h
        cases inode with
        | link text =>
          refine hfollow _ _ _ ?_ h
          by_cases habs : text.absolute = true
          · exact .inl (if_pos habs)
          · rw [if_neg habs]
            exact hcur
        | file => exact ih hnext h
        | dir => exact ih hnext h
        | special => exact ih hnext h

/-- **A path leads to an entry of the disk**, or to its top. -/
lemma resolve_placed {p v : AbsPath} (h : d.resolve p = some v) : d.Placed v := by
  suffices hgen : ∀ n cur names v, d.Placed cur → d.resolveFrom n cur names = some v → d.Placed v
    from hgen _ _ _ _ (.inl rfl) h
  intro n
  induction n with
  | zero =>
    intro cur names v hcur hv
    exact resolveWith_placed (by simp) hcur hv
  | succ n ih =>
    intro cur names v hcur hv
    exact resolveWith_placed ih hcur hv

/-- The places of the disk. -/
def places (d : Disk) : List AbsPath := [] :: d.nodes.rows.map Prod.fst

lemma mem_places {v : AbsPath} (h : d.Placed v) : v ∈ d.places := by
  rcases h with rfl | hnode
  · exact List.mem_cons_self
  · obtain ⟨inode, hinode⟩ := Option.ne_none_iff_exists'.mp hnode
    exact List.mem_cons_of_mem _ (List.mem_map_of_mem (FinMap.val_eq_some.mp hinode))

lemma length_places : d.places.length = d.size + 1 := by simp [places, size]

end Resolve

/-! ## How many entries there are -/

section Children

variable {d : Disk}

lemma child_iff {p v : AbsPath} {x : String} :
    (if p.dropLast = v then p.getLast? else none) = some x ↔ p = v ++ [x] := by
  constructor
  · intro h
    split_ifs at h with hv
    exact hv ▸ (List.dropLast_append_getLast? x h).symm
  · rintro rfl
    simp

/-- A directory has no two entries of one name. -/
lemma nodup_children (v : AbsPath) : (d.children v).Nodup := by
  refine d.nodes.nodup.filterMap fun p q x hp hq => ?_
  rw [Option.mem_def, child_iff] at hp hq
  rw [hp, hq]

lemma length_children_le (v : AbsPath) :
    (d.children v).length ≤ d.nodes.rows.countP fun r => r.1.dropLast = v := by
  rw [children, List.length_filterMap_eq_countP, List.countP_map]
  apply List.countP_mono_left
  intro r _ hr
  obtain ⟨x, hx⟩ := Option.isSome_iff_exists.mp hr
  rw [child_iff] at hx
  simp [hx]

/-- Each member of a list has one value, and is counted for it only. -/
lemma sum_countP_le {α β : Type} [DecidableEq α] (value : β → α) {vs : List α} (h : vs.Nodup)
    (l : List β) : (vs.map fun v => l.countP fun b => value b = v).sum ≤ l.length := by
  rw [← List.sum_toFinset _ h]
  induction l with
  | nil => simp
  | cons b l ih =>
    have hone : ∑ v ∈ vs.toFinset, (if value b = v then 1 else 0) ≤ 1 := by
      rw [Finset.sum_ite_eq]
      split_ifs
      · exact le_refl 1
      · exact Nat.zero_le 1
    simp only [List.countP_cons, decide_eq_true_eq, Finset.sum_add_distrib, List.length_cons]
    omega

/-- **Different directories share no children.** -/
lemma sum_children_le {vs : List AbsPath} (h : vs.Nodup) :
    (vs.map fun v => (d.children v).length).sum ≤ d.size :=
  calc (vs.map fun v => (d.children v).length).sum
      ≤ (vs.map fun v => d.nodes.rows.countP fun r => r.1.dropLast = v).sum :=
        List.sum_le_sum fun v _ => length_children_le v
    _ ≤ d.size := sum_countP_le _ h _

end Children

/-! ## Calls that do not fail -/

lemma read_map_ok (names : List String) : read (names.map .ok) = names := by
  simp [read, List.filterMap_map, Function.comp_def, Except.toOption]

/-- `fs::read_dir` where it is permitted. -/
def readDir (d : Disk) (p : AbsPath) : Except IoKind (List (Except IoKind String)) :=
  match d.resolve p with
  | none => .error .notFound
  | some v =>
    if d.typeAt v = some .dir then .ok ((d.children v).map .ok) else .error .notADirectory

lemma readDir_ok {d : Disk} (p : AbsPath) (entries : List (Except IoKind String))
    (h : d.readDir p = .ok entries) :
    ∃ v, d.resolve p = some v ∧ (read entries).Nodup ∧ read entries ⊆ d.children v := by
  unfold readDir at h
  cases hv : d.resolve p with
  | none =>
    rw [hv] at h
    cases h
  | some v =>
    rw [hv] at h
    dsimp only at h
    split_ifs at h with hdir
    obtain rfl := Except.ok.inj h
    rw [read_map_ok]
    exact ⟨v, rfl, nodup_children v, List.Subset.refl _⟩

/-- The answers when no call fails. -/
def answers (d : Disk) : d.Answers where
  readDir := d.readDir
  symlinkMetadata := d.lstat
  metadata := d.stat
  canonicalize := d.resolve
  readDir_ok := readDir_ok
  symlinkMetadata_eq _ _ h := h
  metadata_eq _ _ h := h
  canonicalize_eq _ _ h := h

/-! ## `classify_local` -/

namespace Answers

variable {d : Disk}

/-- `classify_local`. -/
def classifyLocal (a : d.Answers) (path root : AbsPath) (policy : SymlinkPolicy) :
    Option LocalKind :=
  match a.symlinkMetadata path with
  | none => none
  | some .symlink =>
    if policy = .skip then none
    else
      match a.canonicalize path with
      | none => none
      | some target =>
        let canonRoot := (a.canonicalize root).getD root
        if !canonRoot.isPrefixOf target then none
        else
          match a.metadata target with
          | some .dir => some .dir
          | some .file => some .file
          | _ => none
  | some .dir => some .dir
  | some .file => some .file
  | some .other => none

/-- What a link leads to, for `classify_local`. -/
def describe (a : d.Answers) (root target : AbsPath) : LinkTarget where
  inside := ((a.canonicalize root).getD root).isPrefixOf target
  kind :=
    match a.metadata target with
    | some .dir => some .dir
    | some .file => some .file
    | _ => none

/-- What is found at a path. -/
def found (a : d.Answers) (root path : AbsPath) : Found :=
  match a.symlinkMetadata path with
  | none => .gone
  | some .symlink => .link ((a.canonicalize path).map (a.describe root))
  | some .dir => .entry .dir
  | some .file => .entry .file
  | some .other => .special

/-- The filter of the watcher and the walks classify a path by what is found there. -/
theorem classifyLocal_eq (a : d.Answers) (path root : AbsPath) (policy : SymlinkPolicy) :
    a.classifyLocal path root policy = Watch.classifyLocal policy (a.found root path) := by
  cases htype : a.symlinkMetadata path with
  | none => simp [classifyLocal, found, htype, Watch.classifyLocal]
  | some type =>
    cases type with
    | file => simp [classifyLocal, found, htype, Watch.classifyLocal]
    | dir => simp [classifyLocal, found, htype, Watch.classifyLocal]
    | other => simp [classifyLocal, found, htype, Watch.classifyLocal]
    | symlink =>
      cases policy with
      | skip => simp [classifyLocal, found, htype, Watch.classifyLocal]
      | follow =>
        cases htarget : a.canonicalize path with
        | none => simp [classifyLocal, found, htype, htarget, Watch.classifyLocal]
        | some target =>
          simp only [classifyLocal, found, htype, htarget, Watch.classifyLocal, describe,
            Option.map_some, reduceCtorEq, if_false]
          cases ((a.canonicalize root).getD root).isPrefixOf target with
          | false => rfl
          | true => rfl

end Answers

end Disk

end AirDrive
