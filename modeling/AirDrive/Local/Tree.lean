import AirDrive.Data.Table
import AirDrive.Error
import AirDrive.State.Path

set_option relaxedAutoImplicit false
set_option autoImplicit false

/-!
# The local tree

The files and directories under the watched folder, without the staging area: a finite map from
paths to nodes in which every node hangs below a directory. The watched folder itself is the
empty path and always a directory. Symbolic links and special files are not represented (the
`Skip` policy of the source never sees them).

## Main definitions

* `AirDrive.Fs` — local trees.
* `AirDrive.Fs.setLeaf`, `AirDrive.Fs.removeTree`, `AirDrive.Fs.moveTree` — the changes of a
  tree that keep it a tree.

## Main results

* `AirDrive.Fs.node_setLeaf_self`, `AirDrive.Fs.node_setLeaf_ne` — writing one node.
* `AirDrive.Fs.node_removeTree` — removing a node and what is below it.
* `AirDrive.Fs.node_moveTree_moved`, `AirDrive.Fs.node_moveTree_left`,
  `AirDrive.Fs.node_moveTree_fixed` — moving a node with what is below it.
-/

namespace AirDrive

open Data

/-- The contents of a file. -/
abbrev Bytes := List UInt8

/-- A node of the local tree. -/
inductive Node
  | file (bytes : Bytes)
  | dir
deriving DecidableEq, Repr

/-- The node at a path of a map of nodes, the empty path being a directory. -/
def nodeAt (nodes : FinMap RelPath Node) (p : RelPath) : Option Node :=
  if p = [] then some .dir else nodes.val p

/-- The tree under the watched folder. -/
structure Fs where
  /-- The nodes by path. -/
  nodes : FinMap RelPath Node
  /-- Every node hangs below a directory. -/
  tree : ∀ p x, nodes.val (p ++ [x]) ≠ none → nodeAt nodes p = some .dir

namespace Fs

/-- The empty tree. -/
def empty : Fs := ⟨Table.empty, by simp⟩

instance : Inhabited Fs := ⟨empty⟩

/-- The node at a path. -/
def node (fs : Fs) (p : RelPath) : Option Node := nodeAt fs.nodes p

@[simp] lemma node_nil (fs : Fs) : fs.node [] = some .dir := rfl

@[simp] lemma node_append_singleton (fs : Fs) (p : RelPath) (x : String) :
    fs.node (p ++ [x]) = fs.nodes.val (p ++ [x]) := by
  simp [node, nodeAt]

lemma node_of_ne_nil (fs : Fs) {p : RelPath} (hp : p ≠ []) : fs.node p = fs.nodes.val p := by
  simp [node, nodeAt, hp]

/-- The parent of a node is a directory. -/
lemma parent_dir (fs : Fs) {p : RelPath} {x : String} (h : fs.node (p ++ [x]) ≠ none) :
    fs.node p = some .dir := fs.tree p x (by simpa using h)

/-- Every proper prefix of a node's path is a directory. -/
lemma dir_of_below (fs : Fs) {p q : RelPath} {x : String} (h : fs.node (p ++ x :: q) ≠ none) :
    fs.node p = some .dir := by
  induction q using List.reverseRecOn generalizing x with
  | nil => exact fs.parent_dir h
  | append_singleton q y ih =>
    have hq : fs.node (p ++ x :: q) = some .dir := by
      refine fs.parent_dir (x := y) ?_
      simpa using h
    exact @ih x (by rw [hq]; simp)

/-- `is_file`. -/
def isFile (fs : Fs) (p : RelPath) : Bool :=
  match fs.node p with
  | some (.file _) => true
  | _ => false

/-- `is_dir`. -/
def isDir (fs : Fs) (p : RelPath) : Bool := fs.node p = some .dir

/-- `exists`. -/
def exists' (fs : Fs) (p : RelPath) : Bool := (fs.node p).isSome

lemma isFile_iff {fs : Fs} {p : RelPath} : fs.isFile p = true ↔ ∃ b, fs.node p = some (.file b) := by
  unfold isFile
  split <;> simp_all

@[simp] lemma isDir_iff {fs : Fs} {p : RelPath} :
    fs.isDir p = true ↔ fs.node p = some .dir := by
  simp [isDir]

/-! ## Writing one node -/

/-- Put a node at a path whose parent is a directory and that is not itself a directory. -/
def setLeaf (fs : Fs) (p : RelPath) (n : Node)
    (h : p ≠ [] ∧ fs.node p.dropLast = some .dir ∧ fs.node p ≠ some .dir) : Fs :=
  ⟨fs.nodes.set p n, by
    obtain ⟨hp, hparent, hnode⟩ := h
    intro q x hq
    have hval : ∀ r, r ≠ p → fs.node r = some .dir → nodeAt (fs.nodes.set p n) r = some .dir := by
      intro r hr hdir
      simp only [node, nodeAt] at hdir ⊢
      split_ifs at hdir ⊢ with h0
      · rfl
      · rwa [FinMap.val_set_ne _ _ hr]
    by_cases hqp : q ++ [x] = p
    · subst hqp
      refine hval q (fun h => ?_) (by simpa using hparent)
      have := congrArg List.length h
      simp at this
    · rw [FinMap.val_set_ne _ _ hqp] at hq
      have hdir := fs.tree q x hq
      refine hval q ?_ hdir
      rintro rfl
      exact hnode hdir⟩

section SetLeaf

variable {fs : Fs} {p : RelPath} {n : Node}
  {h : p ≠ [] ∧ fs.node p.dropLast = some .dir ∧ fs.node p ≠ some .dir}

@[simp] lemma node_setLeaf_self : (fs.setLeaf p n h).node p = some n := by
  simp [node, nodeAt, h.1, setLeaf]

lemma node_setLeaf_ne {q : RelPath} (hq : q ≠ p) : (fs.setLeaf p n h).node q = fs.node q := by
  simp [node, nodeAt, setLeaf, FinMap.val_set_ne _ _ hq]

end SetLeaf

/-! ## Removing a subtree -/

/-- Remove a node and everything below it. -/
def removeTree (fs : Fs) (p : RelPath) (_hp : p ≠ []) : Fs :=
  ⟨fs.nodes.keepKeys fun q => !p.isPrefixOf q, by
    intro q x hq
    rw [FinMap.val_keepKeys] at hq
    split_ifs at hq with hk
    · have hdir := fs.tree q x hq
      simp only [nodeAt] at hdir ⊢
      split_ifs at hdir ⊢ with h0
      · rfl
      · rw [FinMap.val_keepKeys, if_pos, hdir]
        simp only [Bool.not_eq_true', Bool.eq_false_iff, ne_eq, List.isPrefixOf_iff_prefix] at hk ⊢
        exact fun h => hk (h.trans (List.prefix_append _ _))
    · exact absurd rfl hq⟩

lemma node_removeTree (fs : Fs) {p : RelPath} (hp : p ≠ []) (q : RelPath) :
    (fs.removeTree p hp).node q = if p <+: q then none else fs.node q := by
  by_cases h0 : q = []
  · subst h0
    have : ¬p <+: [] := by simpa using hp
    simp [this]
  · rw [node_of_ne_nil _ h0, node_of_ne_nil _ h0, removeTree, FinMap.val_keepKeys]
    by_cases h : p <+: q
    · rw [if_pos h, if_neg]
      simpa using h
    · rw [if_neg h, if_pos]
      simpa [Bool.eq_false_iff] using h

/-! ## Moving a subtree -/

/-- Where a path goes when `old` is moved to `new`. -/
def relocate (old new p : RelPath) : Option RelPath :=
  if old.isPrefixOf p then some (RelPath.rebase old new p) else none

lemma relocate_eq_some {old new p q : RelPath} :
    relocate old new p = some q ↔ ∃ rest, p = old ++ rest ∧ q = new ++ rest := by
  unfold relocate
  constructor
  · intro h
    split_ifs at h with hp
    · obtain ⟨rest, rfl⟩ := List.isPrefixOf_iff_prefix.mp hp
      exact ⟨rest, rfl, by simpa [RelPath.rebase_append] using h.symm⟩
  · rintro ⟨rest, rfl, rfl⟩
    simp [RelPath.rebase_append, List.isPrefixOf_iff_prefix]

lemma relocate_eq_none {old new p : RelPath} : relocate old new p = none ↔ ¬old <+: p := by
  simp [relocate, List.isPrefixOf_iff_prefix]

lemma relocate_inj (old new : RelPath) :
    ∀ a b c, relocate old new a = some c → relocate old new b = some c → a = b := by
  intro a b c ha hb
  obtain ⟨r, rfl, rfl⟩ := relocate_eq_some.mp ha
  obtain ⟨s, rfl, hs⟩ := relocate_eq_some.mp hb
  rw [List.append_cancel_left hs]

/-- A move is allowed when the destination hangs below a directory, is not inside the moved
subtree and has nothing below it. -/
structure Movable (fs : Fs) (old new : RelPath) : Prop where
  /-- The source exists. -/
  source : fs.node old ≠ none
  /-- The watched folder itself is neither moved nor replaced. -/
  ne_nil : old ≠ [] ∧ new ≠ []
  /-- The destination hangs below a directory. -/
  parent : fs.node new.dropLast = some .dir
  /-- The destination is not the source and not inside it. -/
  outside : ¬old <+: new
  /-- Nothing is below the destination. -/
  free : ∀ q x, fs.node (new ++ x :: q) = none

/-- After a move every node hangs below a directory. -/
lemma tree_move {fs : Fs} {old new : RelPath} (h : fs.Movable old new) (q : RelPath) (x : String)
    (hq : (fs.nodes.move (relocate old new) (relocate_inj old new)).val (q ++ [x]) ≠ none) :
    nodeAt (fs.nodes.move (relocate old new) (relocate_inj old new)) q = some .dir := by
  -- a directory that is neither moved nor replaced stays one
  have hfixed : ∀ r, fs.node r = some .dir → ¬old <+: r → ¬new <+: r →
      nodeAt (fs.nodes.move (relocate old new) (relocate_inj old new)) r = some .dir := by
    intro r hr hold hnew
    simp only [node, nodeAt] at hr ⊢
    split_ifs at hr ⊢ with h0
    · rfl
    · rw [FinMap.val_move_of_fixed _ (relocate_eq_none.mpr hold), hr]
      intro j hj
      obtain ⟨rest, -, rfl⟩ := relocate_eq_some.mp hj
      exact hnew (List.prefix_append _ _)
  obtain ⟨n, hn⟩ := Option.ne_none_iff_exists'.mp hq
  rcases FinMap.mem_move.mp (FinMap.val_eq_some.mp hn) with ⟨j, hj, hjq⟩ | ⟨hkeep, hold, hnt⟩
  · obtain ⟨rest, rfl, hrest⟩ := relocate_eq_some.mp hjq
    rcases List.eq_nil_or_concat rest with rfl | ⟨rest, y, rfl⟩
    · -- the moved node itself: its parent is the destination's parent
      have hqnew : q = new.dropLast := by
        have := congrArg List.dropLast hrest
        simpa using this
      subst hqnew
      refine hfixed _ h.parent (fun hp => h.outside (hp.trans (List.dropLast_prefix _))) ?_
      intro hp
      have := hp.length_le
      have := List.length_pos_iff.mpr h.ne_nil.2
      simp at *
      omega
    · -- a node below it: its parent moved along
      rw [List.concat_eq_append, ← List.append_assoc] at hrest
      obtain ⟨rfl, -⟩ := List.append_inj' hrest rfl
      have hdir : fs.node (old ++ rest) = some .dir := by
        refine fs.parent_dir (x := y) ?_
        rw [List.append_assoc, ← List.concat_eq_append, node_of_ne_nil _ (by simp),
          FinMap.val_eq_some.mpr hj]
        simp
      have hne : old ++ rest ≠ [] := by simp [h.ne_nil.1]
      rw [node_of_ne_nil _ hne] at hdir
      rw [nodeAt, if_neg (by simp [h.ne_nil.2])]
      exact FinMap.val_move_of_eq_some _ (relocate_eq_some.mpr ⟨rest, rfl, rfl⟩) hdir
  · -- a node that stays: its parent stays too
    have hdir := fs.tree q x (by rw [FinMap.val_eq_some.mpr hkeep]; simp)
    refine hfixed q hdir (fun hp => relocate_eq_none.mp hold (hp.trans (List.prefix_append _ _))) ?_
    rintro ⟨rest, rfl⟩
    have hfree : fs.node (new ++ (rest ++ [x])) = none := by
      cases rest with
      | nil => exact h.free [] x
      | cons y rest => exact h.free (rest ++ [x]) y
    rw [← List.append_assoc, node_append_singleton, FinMap.val_eq_some.mpr hkeep] at hfree
    exact absurd hfree (by simp)

/-- Move a node with everything below it, replacing what is at the destination. -/
def moveTree (fs : Fs) (old new : RelPath) (h : fs.Movable old new) : Fs :=
  ⟨fs.nodes.move (relocate old new) (relocate_inj old new), tree_move h⟩

section MoveTree

variable {fs : Fs} {old new : RelPath} {h : fs.Movable old new}

/-- A moved node is found below the destination. -/
lemma node_moveTree_moved (rest : RelPath) {n : Node} (hn : fs.node (old ++ rest) = some n) :
    (fs.moveTree old new h).node (new ++ rest) = some n := by
  rw [node_of_ne_nil _ (by simp [h.ne_nil.1])] at hn
  rw [node_of_ne_nil _ (by simp [h.ne_nil.2])]
  exact FinMap.val_move_of_eq_some (relocate_inj old new) (relocate_eq_some.mpr ⟨rest, rfl, rfl⟩) hn

/-- Nothing is left at the source. -/
lemma node_moveTree_left (rest : RelPath) :
    (fs.moveTree old new h).node (old ++ rest) = none := by
  rw [node_of_ne_nil _ (by simp [h.ne_nil.1])]
  refine FinMap.val_move_of_left (relocate_inj old new) ?_ ?_
  · rw [relocate_eq_some.mpr ⟨rest, rfl, rfl⟩]; simp
  · intro j v hj hjo
    obtain ⟨r, rfl, hr⟩ := relocate_eq_some.mp hjo
    -- one of the two paths would be inside the other
    rcases List.prefix_or_prefix_of_prefix (List.prefix_append old rest) ⟨r, hr.symm⟩ with hp | hp
    · exact h.outside hp
    · obtain ⟨s, rfl⟩ := hp
      cases s with
      | nil => exact h.outside (by simp)
      | cons x s => exact h.source (h.free s x)

/-- A path that is neither at the source nor at the destination keeps its node. -/
lemma node_moveTree_fixed {q : RelPath} (hold : ¬old <+: q) (hnew : ¬new <+: q) :
    (fs.moveTree old new h).node q = fs.node q := by
  by_cases h0 : q = []
  · subst h0; simp
  · rw [node_of_ne_nil _ h0, node_of_ne_nil _ h0]
    refine FinMap.val_move_of_fixed (relocate_inj old new) (relocate_eq_none.mpr hold) ?_
    intro j hj
    obtain ⟨rest, -, rfl⟩ := relocate_eq_some.mp hj
    exact hnew (List.prefix_append _ _)

end MoveTree

end Fs

end AirDrive
