import AirDrive.Data.Dfs
import AirDrive.Local.Fs
import AirDrive.Watch.Renames

set_option relaxedAutoImplicit false
set_option autoImplicit false

/-!
# The walks of the local tree when links are followed

When `watch.symlinks` is `follow`, the walks of the local tree descend into a directory at most
once, however many links lead there. The directory is then listed under the path by which the walk
came to it first, which depends on the order in which `read_dir` lists the entries: a link that is
met before its target takes the place of the real path. A walk hides nothing exactly when no link
opens another way to a directory that holds something.

## Main definitions

* `AirDrive.LinkTree` — a local tree with links, each with what `canonicalize` makes of it.
* `AirDrive.LinkTree.walkLocal`, `AirDrive.LinkTree.walkSubtree` — the walks, for any order in
  which the directories are listed.
* `AirDrive.LinkTree.HidesNothing` — every file is listed under its real path, and the real paths
  that are listed do not depend on the order.
* `AirDrive.LinkTree.OneWay` — each directory that holds something is reached by one way only.

## Main results

* `AirDrive.LinkTree.mem_walkSubtree` — the walk is a depth-first exploration.
* `AirDrive.LinkTree.hidesNothing_iff` — a walk hides nothing exactly when there is one way only.
* `AirDrive.LinkTree.targets_same` — what is listed, each entry taken at the end of its links, does
  not depend on the order.
-/

namespace AirDrive

open Data Watch
open Fs (LocalEntry)

/-! ## Trees with links -/

/-- Where `canonicalize` ends, all links on the way followed. -/
inductive Landing
  | outside (kind : Option LocalKind)
  | inside (path : RelPath)
deriving DecidableEq, Repr

/-- An entry of a directory. A link has its landing, or none when it is broken or circular. -/
inductive LinkNode
  | entry (kind : LocalKind)
  | special
  | link (target : Option Landing)
deriving DecidableEq, Repr

/-- What a path in the canonical tree is for `metadata`, the empty path being the root. -/
def kindOf (nodes : FinMap RelPath LinkNode) (p : RelPath) : Option LocalKind :=
  if p = [] then some .dir
  else match nodes.val p with
    | some (.entry k) => some k
    | _ => none

/-- The tree under the root, with its links. -/
structure LinkTree where
  /-- The entries by path. -/
  nodes : FinMap RelPath LinkNode
  /-- Every entry hangs below a directory. -/
  tree : ∀ p x, nodes.val (p ++ [x]) ≠ none → kindOf nodes p = some .dir
  /-- A link lands on an entry that is no link. -/
  landed : ∀ p q, nodes.val p = some (.link (some (.inside q))) →
    (kindOf nodes q).isSome ∨ nodes.val q = some .special

namespace LinkTree

/-- What a path without links is. -/
def kindAt (t : LinkTree) (p : RelPath) : Option LocalKind := kindOf t.nodes p

/-- One component further. -/
def step (t : LinkTree) : Option Landing → String → Option Landing
  | some (.inside v), x =>
    match t.nodes.val (v ++ [x]) with
    | none => none
    | some (.link target) => target
    | some _ => some (.inside (v ++ [x]))
  -- No walk goes on from outside the root.
  | some (.outside _), _ => none
  | none, _ => none

/-- `fs::canonicalize`. -/
def canonicalize (t : LinkTree) (p : RelPath) : Option Landing :=
  p.foldl t.step (some (.inside []))

/-- What a landing is for `classify_local`. -/
def describe (t : LinkTree) : Landing → LinkTarget
  | .outside kind => ⟨false, kind⟩
  | .inside q => ⟨true, t.kindAt q⟩

/-- What `symlink_metadata` finds at an entry of a canonical directory. -/
def foundAt (t : LinkTree) (q : RelPath) : Found :=
  match t.nodes.val q with
  | none => .gone
  | some (.entry k) => .entry k
  | some .special => .special
  | some (.link target) => .link (target.map t.describe)

/-- What `symlink_metadata` finds at a path, the links before its last component followed. -/
def found (t : LinkTree) (p : RelPath) : Found :=
  match p.getLast?, t.canonicalize p.dropLast with
  | none, _ => .entry .dir
  | some x, some (.inside v) => t.foundAt (v ++ [x])
  | some _, _ => .gone

/-- The names in a canonical directory. -/
def children (t : LinkTree) (v : RelPath) : List String :=
  t.nodes.rows.filterMap fun r =>
    match r.1.getLast? with
    | some x => if r.1 = v ++ [x] then some x else none
    | none => none

/-! ## The walks -/

/-- The accumulators of `collect_local`. -/
structure Walked where
  /-- The canonical directories that the walk has descended into. -/
  visited : List Landing
  /-- The entries so far. -/
  out : List LocalEntry

/-- The body of the loop of `collect_local`, and of `collect_subtree`, for an entry of `dir`. -/
def collectEntry (t : LinkTree) (policy : SymlinkPolicy) (descend : RelPath → Walked → Walked)
    (dir : RelPath) (acc : Walked) (name : String) : Walked :=
  if name = partialDir then acc
  else
    let path := dir ++ [name]
    match classifyLocal policy (t.found path) with
    | some .dir =>
      let pushed : Walked := { acc with out := acc.out ++ [⟨path, true⟩] }
      match policy with
      | .follow =>
        match t.canonicalize path with
        | some canon =>
          if canon ∈ pushed.visited then pushed
          else descend path { pushed with visited := canon :: pushed.visited }
        | none => pushed
      | .skip => descend path pushed
    | some .file => { acc with out := acc.out ++ [⟨path, false⟩] }
    | none => acc

/-- `collect_local`, and `collect_subtree`. The order is that of `read_dir`, at the path by which a
directory is read. -/
def collectLocal (t : LinkTree) (order : RelPath → List String) (policy : SymlinkPolicy) :
    ℕ → RelPath → Walked → Walked
  | 0, _, acc => acc
  | fuel + 1, dir, acc =>
    (order dir).foldl (t.collectEntry policy (collectLocal t order policy fuel) dir) acc

/-- `walk_subtree`. -/
def walkSubtree (t : LinkTree) (order : RelPath → List String) (policy : SymlinkPolicy)
    (dir : RelPath) : List LocalEntry :=
  RelPath.sort LocalEntry.relativePath
    (t.collectLocal order policy (t.nodes.rows.length + 2) dir ⟨[], []⟩).out

/-- `walk_local`. -/
def walkLocal (t : LinkTree) (order : RelPath → List String) (policy : SymlinkPolicy) :
    List LocalEntry :=
  t.walkSubtree order policy []

/-- An order in which `read_dir` may list the directories. -/
def Listing (t : LinkTree) (order : RelPath → List String) : Prop :=
  ∀ dir v, t.canonicalize dir = some (.inside v) → (order dir).Perm (t.children v)

/-! ## Canonical paths -/

variable {t : LinkTree}

lemma mem_children {v : RelPath} {x : String} :
    x ∈ t.children v ↔ t.nodes.val (v ++ [x]) ≠ none := by
  constructor
  · intro h
    obtain ⟨⟨p, n⟩, hr, hx⟩ := List.mem_filterMap.mp h
    cases hlast : p.getLast? with
    | none => simp [hlast] at hx
    | some y =>
      simp only [hlast] at hx
      split_ifs at hx with hp
      obtain rfl := Option.some.inj hx
      obtain rfl : p = v ++ [y] := hp
      rw [FinMap.val_eq_some.mpr hr]
      simp
  · intro h
    obtain ⟨n, hn⟩ := Option.ne_none_iff_exists'.mp h
    exact List.mem_filterMap.mpr ⟨_, FinMap.val_eq_some.mp hn, by simp⟩

@[simp] lemma kindAt_nil : t.kindAt [] = some .dir := rfl

lemma kindAt_append {v : RelPath} {x : String} {k : LocalKind} :
    t.kindAt (v ++ [x]) = some k ↔ t.nodes.val (v ++ [x]) = some (.entry k) := by
  simp only [kindAt, kindOf, List.append_eq_nil_iff, List.cons_ne_self, and_false, if_false]
  split
  · next k' h => simp [h]
  · next h => simp only [reduceCtorEq, false_iff]; exact h k

/-- The directory above a node is one. -/
lemma dir_above {p q : RelPath} {k : LocalKind} (h : t.kindAt (p ++ q) = some k) (hq : q ≠ []) :
    t.kindAt p = some .dir := by
  induction q using List.reverseRecOn generalizing k with
  | nil => exact absurd rfl hq
  | append_singleton q x ih =>
    rw [← List.append_assoc, kindAt_append] at h
    have hdir : t.kindAt (p ++ q) = some .dir := t.tree (p ++ q) x (by rw [h]; simp)
    rcases List.eq_nil_or_concat q with rfl | ⟨q', y, rfl⟩
    · simpa using hdir
    · exact ih hdir (by simp)

lemma canonicalize_append {dir v : RelPath} (h : t.canonicalize dir = some (.inside v))
    (x : String) : t.canonicalize (dir ++ [x]) = t.step (some (.inside v)) x := by
  rw [canonicalize, List.foldl_append, List.foldl_cons, List.foldl_nil]
  exact congrArg (t.step · x) h

/-- A path without links is canonical. -/
lemma canonicalize_of_kindAt {p : RelPath} {k : LocalKind} (h : t.kindAt p = some k) :
    t.canonicalize p = some (.inside p) := by
  induction p using List.reverseRecOn generalizing k with
  | nil => rfl
  | append_singleton p x ih =>
    rw [canonicalize_append (ih (dir_above h (by simp))), step, kindAt_append.mp h]

lemma found_append {dir v : RelPath} (h : t.canonicalize dir = some (.inside v)) (x : String) :
    t.found (dir ++ [x]) = t.foundAt (v ++ [x]) := by
  simp [found, h]

/-- The directory that a followed name leads to. -/
def enters (t : LinkTree) (v : RelPath) (x : String) : Option RelPath :=
  if x = partialDir then none
  else match t.step (some (.inside v)) x with
    | some (.inside u) => if t.kindAt u = some .dir then some u else none
    | _ => none

lemma enters_eq_some {v u : RelPath} {x : String} :
    t.enters v x = some u ↔
      x ≠ partialDir ∧ t.step (some (.inside v)) x = some (.inside u) ∧ t.kindAt u = some .dir := by
  unfold enters
  split_ifs with hx
  · simp [hx]
  · split
    · next u' h =>
      split_ifs with hdir
      · constructor
        · rintro ⟨⟩
          exact ⟨hx, h, hdir⟩
        · rintro ⟨-, hstep, -⟩
          rw [hstep] at h
          cases h
          rfl
      · simp only [false_iff, not_and]
        rintro - hstep hu
        rw [hstep] at h
        cases h
        exact hdir hu
    · next h =>
      simp only [reduceCtorEq, false_iff, not_and]
      exact fun _ hstep => absurd hstep (h u)

/-- What the walk takes a name for. -/
def lists (t : LinkTree) (v : RelPath) (x : String) : Option LocalKind :=
  if x = partialDir then none else classifyLocal .follow (t.foundAt (v ++ [x]))

/-- The walk takes a name for a directory exactly when it leads to one. -/
lemma lists_dir_iff {v : RelPath} {x : String} :
    t.lists v x = some .dir ↔ ∃ u, t.enters v x = some u := by
  simp only [enters_eq_some, lists]
  split_ifs with hx
  · simp [hx]
  simp only [hx, ne_eq, not_false_eq_true, true_and]
  cases hn : t.nodes.val (v ++ [x]) with
  | none => simp [foundAt, step, hn, classifyLocal]
  | some n =>
    cases n with
    | entry k =>
      have hk : t.kindAt (v ++ [x]) = some k := kindAt_append.mpr hn
      simp [foundAt, step, hn, classifyLocal, hk]
    | special => simp [foundAt, step, hn, classifyLocal, kindAt_append]
    | link target =>
      rcases target with _ | ⟨kind⟩ | ⟨q⟩
      · simp [foundAt, step, hn, classifyLocal]
      · simp [foundAt, step, hn, classifyLocal, describe]
      · simp [foundAt, step, hn, classifyLocal, describe]

/-! ## The walk as an exploration -/

lemma collectEntry_staging {descend : RelPath → Walked → Walked} {dir : RelPath} {acc : Walked} :
    t.collectEntry .follow descend dir acc partialDir = acc := if_pos rfl

/-- A name that leads to a directory is listed, and the walk descends unless it has been there. -/
lemma collectEntry_enters {descend : RelPath → Walked → Walked} {dir v u : RelPath} {x : String}
    {acc : Walked} (hdir : t.canonicalize dir = some (.inside v)) (hu : t.enters v x = some u) :
    t.collectEntry .follow descend dir acc x =
      if .inside u ∈ acc.visited then { acc with out := acc.out ++ [⟨dir ++ [x], true⟩] }
      else descend (dir ++ [x])
        ⟨.inside u :: acc.visited, acc.out ++ [⟨dir ++ [x], true⟩]⟩ := by
  obtain ⟨hx, hstep, -⟩ := enters_eq_some.mp hu
  have hkind : t.lists v x = some .dir := lists_dir_iff.mpr ⟨u, hu⟩
  rw [lists, if_neg hx] at hkind
  have hcanon : t.canonicalize (dir ++ [x]) = some (.inside u) :=
    (canonicalize_append hdir x).trans hstep
  simp only [collectEntry, if_neg hx, found_append hdir, hkind, hcanon]

/-- Any other name is listed as a file, or not at all. -/
lemma collectEntry_passes {descend : RelPath → Walked → Walked} {dir v : RelPath} {x : String}
    {acc : Walked} (hdir : t.canonicalize dir = some (.inside v)) (hx : t.enters v x = none) :
    t.collectEntry .follow descend dir acc x =
      if t.lists v x = some .file then { acc with out := acc.out ++ [⟨dir ++ [x], false⟩] }
      else acc := by
  by_cases hp : x = partialDir
  · subst hp
    simp [collectEntry_staging, lists]
  have hkind : t.lists v x ≠ some .dir := by
    intro h
    obtain ⟨u, hu⟩ := lists_dir_iff.mp h
    rw [hu] at hx
    cases hx
  rw [lists, if_neg hp] at hkind ⊢
  simp only [collectEntry, if_neg hp, found_append hdir]
  cases hc : classifyLocal .follow (t.foundAt (v ++ [x])) with
  | none => simp
  | some k =>
    cases k with
    | file => simp
    | dir => exact absurd hc hkind

/-- The entry of a name, in a canonical directory that is read at a path. -/
def Told (t : LinkTree) (dir v : RelPath) (x : String) (e : LocalEntry) : Prop :=
  ∃ k, t.lists v x = some k ∧ e = ⟨dir ++ [x], k = .dir⟩

section Walk

variable {order : RelPath → List String} {base : RelPath}

/-- The nodes that the walk can enter. -/
def targets (t : LinkTree) : List RelPath := [] :: t.nodes.rows.map Prod.fst

lemma mem_targets {u : RelPath} {k : LocalKind} (h : t.kindAt u = some k) : u ∈ t.targets := by
  rcases List.eq_nil_or_concat u with rfl | ⟨v, x, rfl⟩
  · exact List.mem_cons_self
  · apply List.mem_cons_of_mem
    rw [List.concat_eq_append] at h ⊢
    exact List.mem_map_of_mem (FinMap.val_eq_some.mp (kindAt_append.mp h))

/-- The accumulators after a part of the walk: `visited` holds what has been entered, and `out` has
grown by the names that have been read and by all names of the directories entered meanwhile. -/
structure Accounts (t : LinkTree) (order : RelPath → List String) (base path v : RelPath)
    (labels : List String) (seen seen' : List (RelPath × RelPath)) (acc acc' : Walked) : Prop where
  visited : ∀ u, .inside u ∈ acc'.visited ↔ u ∈ seen'.map Prod.snd
  out : ∀ e, e ∈ acc'.out ↔ e ∈ acc.out ∨ (∃ x ∈ labels, t.Told (base ++ path) v x e) ∨
    ∃ q ∈ seen', q ∉ seen ∧ ∃ x ∈ order (base ++ q.1), t.Told (base ++ q.1) q.2 x e

/-- One name is read that is not entered, and then the others. -/
lemma Accounts.pass {path v : RelPath} {x : String} {labels : List String}
    {seen seen' : List (RelPath × RelPath)} {acc mid acc' : Walked}
    (hmid : ∀ e, e ∈ mid.out ↔ e ∈ acc.out ∨ t.Told (base ++ path) v x e)
    (h : Accounts t order base path v labels seen seen' mid acc') :
    Accounts t order base path v (x :: labels) seen seen' acc acc' := by
  refine ⟨h.visited, fun e => ?_⟩
  rw [h.out e, hmid e]
  simp only [List.mem_cons, exists_eq_or_imp, or_assoc]

/-- One name is read and entered, and then the others. -/
lemma Accounts.enter {path v u : RelPath} {x : String} {labels : List String}
    {seen between seen' : List (RelPath × RelPath)} {acc pushed mid acc' : Walked}
    (hpushed : ∀ e, e ∈ pushed.out ↔ e ∈ acc.out ∨ t.Told (base ++ path) v x e)
    (hu : u ∉ seen.map Prod.snd) (hself : (path ++ [x], u) ∈ between)
    (hseen : seen ⊆ between) (hbetween : between ⊆ seen')
    (hin : Accounts t order base (path ++ [x]) u (order (base ++ path ++ [x]))
      (seen ++ [(path ++ [x], u)]) between pushed mid)
    (h : Accounts t order base path v labels between seen' mid acc') :
    Accounts t order base path v (x :: labels) seen seen' acc acc' := by
  have hnew : (path ++ [x], u) ∉ seen := fun hmem => hu (List.mem_map_of_mem hmem)
  rw [List.append_assoc] at hin
  refine ⟨h.visited, fun e => ?_⟩
  rw [h.out e, hin.out e, hpushed e]
  simp only [List.mem_cons, exists_eq_or_imp]
  constructor
  · rintro (((hacc | hx) | hname | ⟨q, hq, hnot, htold⟩) | hlabel | ⟨q, hq, hnot, htold⟩)
    · exact .inl hacc
    · exact .inr (.inl (.inl hx))
    · exact .inr (.inr ⟨_, hbetween hself, hnew, hname⟩)
    · exact .inr (.inr ⟨q, hbetween hq, fun hmem => hnot (List.mem_append_left _ hmem), htold⟩)
    · exact .inr (.inl (.inr hlabel))
    · exact .inr (.inr ⟨q, hq, fun hmem => hnot (hseen hmem), htold⟩)
  · rintro (hacc | (hx | hlabel) | ⟨q, hq, hnot, htold⟩)
    · exact .inl (.inl (.inl hacc))
    · exact .inl (.inl (.inr hx))
    · exact .inr (.inl hlabel)
    · by_cases hq' : q ∈ between
      · by_cases heq : q = (path ++ [x], u)
        · subst heq
          exact .inl (.inr (.inl htold))
        · exact .inl (.inr (.inr ⟨q, hq', by simp [hnot, heq], htold⟩))
      · exact .inr (.inr ⟨q, hq, hq', htold⟩)

/-- The ways of the walk, from the directory that it starts in. -/
abbrev Ways (t : LinkTree) (order : RelPath → List String) (base path v : RelPath)
    (labels : List String) (seen seen' : List (RelPath × RelPath)) : Prop :=
  Dfs.Explores t.enters (fun p => order (base ++ p)) path v labels seen seen'

/-- **The walk explores**: as long as the fuel exceeds the number of directories that can still be
entered, it follows the exploration of the names that lead to directories. -/
lemma collectLocal_explores (fuel : ℕ) : ∀ {path v : RelPath} {seen : List (RelPath × RelPath)}
    {acc : Walked}, t.canonicalize (base ++ path) = some (.inside v) →
    (∀ u, .inside u ∈ acc.visited ↔ u ∈ seen.map Prod.snd) → Dfs.room t.targets seen < fuel →
    ∃ seen', Ways t order base path v (order (base ++ path)) seen seen' ∧
      Accounts t order base path v (order (base ++ path)) seen seen' acc
        (t.collectLocal order .follow fuel (base ++ path) acc) := by
  induction fuel with
  | zero => exact fun _ _ hroom => absurd hroom (Nat.not_lt_zero _)
  | succ fuel ih =>
    intro path v seen acc hdir hvisited hroom
    rw [collectLocal]
    generalize order (base ++ path) = labels
    induction labels generalizing seen acc with
    | nil =>
      refine ⟨seen, .done _ _ _, hvisited, fun e => ⟨.inl, ?_⟩⟩
      rintro (h | ⟨x, hx, -⟩ | ⟨q, hq, hnot, -⟩)
      · exact h
      · cases hx
      · exact absurd hq hnot
    | cons x labels ihl =>
      rw [List.foldl_cons]
      cases hx : t.enters v x with
      | none =>
        rw [collectEntry_passes hdir hx]
        have hnone : ∀ u, t.enters v x = some u → u ∈ seen.map Prod.snd := by simp [hx]
        have hkind : t.lists v x ≠ some .dir := by
          intro h
          obtain ⟨u, hu⟩ := lists_dir_iff.mp h
          simp [hx] at hu
        split_ifs with hfile
        · obtain ⟨seen', hways, hacc⟩ := @ihl seen
            { acc with out := acc.out ++ [⟨base ++ path ++ [x], false⟩] } hvisited hroom
          exact ⟨seen', .pass hnone hways, hacc.pass fun e => by simp [Told, hfile]⟩
        · obtain ⟨seen', hways, hacc⟩ := ihl hvisited hroom
          refine ⟨seen', .pass hnone hways, hacc.pass fun e => ?_⟩
          have hnot : ¬ t.Told (base ++ path) v x e := by
            rintro ⟨k, hk, -⟩
            cases k with
            | file => exact hfile hk
            | dir => exact hkind hk
          simp [hnot]
      | some u =>
        rw [collectEntry_enters hdir hx]
        have hkind : t.lists v x = some .dir := lists_dir_iff.mpr ⟨u, hx⟩
        by_cases hu : u ∈ seen.map Prod.snd
        · rw [if_pos ((hvisited u).mpr hu)]
          obtain ⟨seen', hways, hacc⟩ := @ihl seen
            { acc with out := acc.out ++ [⟨base ++ path ++ [x], true⟩] } hvisited hroom
          refine ⟨seen', .pass (fun w hw => ?_) hways, hacc.pass fun e => by simp [Told, hkind]⟩
          obtain rfl := Option.some.inj (hx.symm.trans hw)
          exact hu
        · rw [if_neg fun h => hu ((hvisited u).mp h)]
          obtain ⟨-, hstep, hkindu⟩ := enters_eq_some.mp hx
          have hdir' : t.canonicalize (base ++ (path ++ [x])) = some (.inside u) := by
            rw [← List.append_assoc]
            exact (canonicalize_append hdir x).trans hstep
          have hlt := @Dfs.room_lt _ _ _ _ _ (path ++ [x]) _ (mem_targets hkindu) hu
          obtain ⟨between, hin, hmid⟩ := @ih (path ++ [x]) u (seen ++ [(path ++ [x], u)])
            ⟨.inside u :: acc.visited, acc.out ++ [⟨base ++ path ++ [x], true⟩]⟩ hdir'
            (fun w => by simp [hvisited w, or_comm]) (by omega)
          have hself : (path ++ [x], u) ∈ between := hin.grows (by simp)
          have hseen : seen ⊆ between := fun q hq => hin.grows (List.mem_append_left _ hq)
          have hle := Dfs.room_le t.targets hseen
          rw [← List.append_assoc] at hmid
          obtain ⟨seen', hways, hacc⟩ := ihl hmid.visited (by omega)
          refine ⟨seen', .enter hx hu hin hways, ?_⟩
          exact Accounts.enter (fun e => by simp [Told, hkind]) hu hself hseen hways.grows hmid hacc

/-- A way of followed names is canonicalized to the last directory that it passes. -/
lemma canonicalize_leads {dir v : RelPath} {path : List String} {passed : List RelPath}
    (h : Dfs.Leads t.enters v path passed) (hdir : t.canonicalize dir = some (.inside v)) :
    t.canonicalize (dir ++ path) = some (.inside (passed.getLastD v)) := by
  induction h generalizing dir with
  | stop v => simpa using hdir
  | @step v u x path passed hx _ ih =>
    have hnext : t.canonicalize (dir ++ [x]) = some (.inside u) :=
      (canonicalize_append hdir x).trans (enters_eq_some.mp hx).2.1
    rw [List.getLastD_cons, List.append_cons]
    exact ih hnext

lemma canonicalize_simple {path : List String} {u : RelPath}
    (hbase : t.kindAt base = some .dir) (h : Dfs.Simple t.enters base path u) :
    t.canonicalize (base ++ path) = some (.inside u) := by
  obtain ⟨passed, hleads, hlast, -⟩ := h
  rw [canonicalize_leads hleads (canonicalize_of_kindAt hbase), List.getLastD_eq_getLast?, hlast]
  rfl

/-- The directories of a walk are what their ways are canonicalized to. -/
lemma canonicalize_node (hbase : t.kindAt base = some .dir) {seen : List (RelPath × RelPath)}
    (hways : Ways t order base [] base (order base) [] seen) :
    ∀ q, (q = ([], base) ∨ q ∈ seen) → t.canonicalize (base ++ q.1) = some (.inside q.2) := by
  rintro q (rfl | hq)
  · simpa using canonicalize_of_kindAt hbase
  · exact canonicalize_simple hbase (hways.simple hq)

/-- A name behind which there is a directory is listed. -/
lemma mem_order {dir v u : RelPath} {x : String} (hlist : t.Listing order)
    (hdir : t.canonicalize dir = some (.inside v)) (hx : t.enters v x = some u) :
    x ∈ order dir := by
  rw [(hlist dir v hdir).mem_iff, mem_children]
  intro hnone
  have hstep := (enters_eq_some.mp hx).2.1
  simp [step, hnone] at hstep

/-- **A walk is an exploration**: it lists the names of the directory that it starts in and of the
directories that it enters, each under the way by which it is entered. -/
theorem mem_walkSubtree (hlist : t.Listing order) (hbase : t.kindAt base = some .dir) :
    ∃ seen, Ways t order base [] base (order base) [] seen ∧
      ∀ e, e ∈ t.walkSubtree order .follow base ↔
        ∃ q, (q = ([], base) ∨ q ∈ seen) ∧ ∃ x, t.Told (base ++ q.1) q.2 x e := by
  have hcanon := canonicalize_of_kindAt hbase
  have hroom : Dfs.room t.targets ([] : List (RelPath × RelPath)) < t.nodes.rows.length + 2 := by
    have hle := Dfs.room_le_length t.targets ([] : List (RelPath × RelPath))
    have hlen : t.targets.length = t.nodes.rows.length + 1 := by simp [targets]
    omega
  obtain ⟨seen, hways, hacc⟩ := @collectLocal_explores t order base _ [] base [] ⟨[], []⟩
    (by simpa using hcanon) (by simp) hroom
  simp only [List.append_nil] at hways hacc
  refine ⟨seen, hways, fun e => ?_⟩
  rw [walkSubtree, RelPath.mem_sort, hacc.out e]
  have hread : ∀ q, (q = ([], base) ∨ q ∈ seen) → ∀ x, t.Told (base ++ q.1) q.2 x e →
      x ∈ order (base ++ q.1) := by
    rintro q hq x ⟨k, hk, -⟩
    rw [(hlist _ _ (canonicalize_node hbase hways q hq)).mem_iff, mem_children]
    intro hnone
    simp [lists, foundAt, hnone, classifyLocal] at hk
  simp only [List.not_mem_nil, not_false_eq_true, true_and, false_or, List.append_nil]
  constructor
  · rintro (⟨x, -, htold⟩ | ⟨q, hq, x, -, htold⟩)
    · exact ⟨_, .inl rfl, x, by simpa using htold⟩
    · exact ⟨q, .inr hq, x, htold⟩
  · rintro ⟨q, hq, x, htold⟩
    have hx := hread q hq x htold
    rcases hq with rfl | hq
    · simp only [List.append_nil] at hx htold
      exact .inl ⟨x, hx, htold⟩
    · exact .inr ⟨q, hq, x, hx, htold⟩

/-- Every directory that a way of followed names leads to is entered. -/
lemma entered_of_leads (hlist : t.Listing order) (hbase : t.kindAt base = some .dir)
    {seen : List (RelPath × RelPath)} (hways : Ways t order base [] base (order base) [] seen)
    {path : List String} {passed : List RelPath} (h : Dfs.Leads t.enters base path passed) :
    ∀ u ∈ passed, u ∈ seen.map Prod.snd := by
  refine @Dfs.Explores.reaches _ _ _ (fun p => order (base ++ p)) _ _ ?_ ?_ _ _ h
  · simpa using hways
  · intro q hq x u hx
    exact mem_order hlist (canonicalize_node hbase hways q hq) hx

/-- What is listed in a directory, under a way that leads to it: the walk has entered it by that
way, or starts in it. -/
lemma listed_iff (hbase : t.kindAt base = some .dir) {seen : List (RelPath × RelPath)}
    (hways : Ways t order base [] base (order base) [] seen)
    (hlisted : ∀ e, e ∈ t.walkSubtree order .follow base ↔
      ∃ q, (q = ([], base) ∨ q ∈ seen) ∧ ∃ x, t.Told (base ++ q.1) q.2 x e)
    {path : List String} {v : RelPath} {x : String} {d : Bool}
    (hcanon : t.canonicalize (base ++ path) = some (.inside v)) :
    ⟨base ++ path ++ [x], d⟩ ∈ t.walkSubtree order .follow base ↔
      (path = [] ∨ (path, v) ∈ seen) ∧ ∃ k, t.lists v x = some k ∧ d = decide (k = .dir) := by
  rw [hlisted]
  constructor
  · rintro ⟨⟨p, w⟩, hq, y, k, hk, he⟩
    obtain ⟨he, hd⟩ := LocalEntry.mk.inj he
    obtain ⟨hpath, hy⟩ := List.append_inj' he rfl
    obtain rfl := List.append_cancel_left hpath
    obtain rfl := List.singleton_inj.mp hy
    obtain rfl : v = w := by
      have hw := canonicalize_node hbase hways _ hq
      rw [hcanon] at hw
      simpa using hw
    exact ⟨hq.imp_left (congrArg Prod.fst), k, hk, hd⟩
  · rintro ⟨hin, k, hk, rfl⟩
    refine ⟨(path, v), hin.imp_left ?_, x, k, hk, rfl⟩
    rintro rfl
    rw [List.append_nil, canonicalize_of_kindAt hbase] at hcanon
    cases hcanon
    rfl

end Walk

/-! ## Real paths -/

/-- The walk below `base` hides nothing: it lists every regular file outside the staging directories
under its real path, and the real paths that it lists are the same for every order. -/
structure HidesNothing (t : LinkTree) (base : RelPath) : Prop where
  files : ∀ order, t.Listing order → ∀ rest, partialDir ∉ rest →
    t.kindAt (base ++ rest) = some .file →
      ⟨base ++ rest, false⟩ ∈ t.walkSubtree order .follow base
  same : ∀ order order', t.Listing order → t.Listing order' → ∀ e : LocalEntry,
    (t.kindAt e.relativePath).isSome → e ∈ t.walkSubtree order .follow base →
      e ∈ t.walkSubtree order' .follow base

/-- A directory holds a file or a directory. -/
def Holds (t : LinkTree) (v : RelPath) : Prop :=
  ∃ x k, x ≠ partialDir ∧ t.kindAt (v ++ [x]) = some k

/-- No links open a way to a directory below `base` that holds something, apart from its real path:
every other way passes some directory twice. -/
def OneWay (t : LinkTree) (base : RelPath) : Prop :=
  ∀ rest, rest ≠ [] → partialDir ∉ rest → t.kindAt (base ++ rest) = some .dir →
    t.Holds (base ++ rest) → ∀ path, Dfs.Simple t.enters base path (base ++ rest) → path = rest

/-- The real path of a directory is a way to it, and passes no directory twice. -/
lemma simple_of_real {base : RelPath} {rest : List String} (hstaging : partialDir ∉ rest)
    (h : t.kindAt (base ++ rest) = some .dir) :
    ∃ passed, Dfs.Leads t.enters base rest passed ∧ passed.Nodup ∧
      (∀ w ∈ passed, base.length < w.length) ∧ (base :: passed).getLast? = some (base ++ rest) := by
  induction rest generalizing base with
  | nil => exact ⟨[], .stop base, by simp, by simp, by simp⟩
  | cons x rest ih =>
    rw [List.mem_cons, not_or] at hstaging
    rw [List.append_cons] at h
    obtain ⟨passed, hleads, hnodup, hlong, hlast⟩ := ih hstaging.2 h
    have hdir : t.kindAt (base ++ [x]) = some .dir := by
      cases rest with
      | nil => simpa using h
      | cons y rest => exact dir_above h (by simp)
    have hx : t.enters base x = some (base ++ [x]) := by
      refine enters_eq_some.mpr ⟨Ne.symm hstaging.1, ?_, hdir⟩
      rw [step, kindAt_append.mp hdir]
    refine ⟨(base ++ [x]) :: passed, .step hx hleads, ?_, ?_, ?_⟩
    · exact List.nodup_cons.mpr ⟨fun hmem => Nat.lt_irrefl _ (hlong _ hmem), hnodup⟩
    · intro w hw
      rcases List.mem_cons.mp hw with rfl | hw
      · simp
      · have hlt := hlong w hw
        rw [List.length_append] at hlt
        omega
    · rw [List.getLast?_cons_cons, hlast]
      simp

lemma simple_real {base : RelPath} {rest : List String} (hrest : rest ≠ [])
    (hstaging : partialDir ∉ rest) (h : t.kindAt (base ++ rest) = some .dir) :
    Dfs.Simple t.enters base rest (base ++ rest) := by
  obtain ⟨passed, hleads, hnodup, -, hlast⟩ := simple_of_real hstaging h
  refine ⟨passed, hleads, ?_, hnodup⟩
  cases hleads with
  | stop => exact absurd rfl hrest
  | step hx hleads => simpa [List.getLast?_cons_cons] using hlast

/-- The names of a way are not those of staging directories. -/
lemma not_staging {v : RelPath} {path : List String} {passed : List RelPath}
    (h : Dfs.Leads t.enters v path passed) : partialDir ∉ path := by
  induction h with
  | stop => simp
  | step hx _ ih =>
    rw [List.mem_cons, not_or]
    exact ⟨Ne.symm (enters_eq_some.mp hx).1, ih⟩

/-- A name of a real entry is listed as what it is. -/
lemma lists_entry {v : RelPath} {x : String} {k : LocalKind} (hx : x ≠ partialDir)
    (h : t.kindAt (v ++ [x]) = some k) : t.lists v x = some k := by
  simp [lists, hx, foundAt, kindAt_append.mp h, classifyLocal]

section OneWay

variable {base : RelPath}

/-- Where there is one way only, each entry of a real directory is listed under its real path. -/
lemma listed_of_oneWay (hbase : t.kindAt base = some .dir) (hone : t.OneWay base)
    {order : RelPath → List String} (hlist : t.Listing order) {rest : List String} {x : String}
    {k : LocalKind} (hstaging : partialDir ∉ rest) (hx : x ≠ partialDir)
    (h : t.kindAt (base ++ rest ++ [x]) = some k) :
    ⟨base ++ rest ++ [x], k = .dir⟩ ∈ t.walkSubtree order .follow base := by
  obtain ⟨seen, hways, hlisted⟩ := mem_walkSubtree hlist hbase
  have hdir : t.kindAt (base ++ rest) = some .dir := dir_above h (by simp)
  have hkind := lists_entry hx h
  rw [listed_iff hbase hways hlisted (canonicalize_of_kindAt hdir)]
  refine ⟨?_, k, hkind, rfl⟩
  by_cases hrest : rest = []
  · exact .inl hrest
  · right
    -- The directory is entered, since its real path leads there; and by no other way.
    obtain ⟨passed, hleads, hlast, -⟩ := simple_real hrest hstaging hdir
    obtain ⟨⟨path, u⟩, hq, hu⟩ := List.mem_map.mp
      (entered_of_leads hlist hbase hways hleads _ (List.mem_of_mem_getLast? hlast))
    obtain rfl : u = base ++ rest := hu
    rwa [hone rest hrest hstaging hdir ⟨x, k, hx, h⟩ path (hways.simple hq)] at hq

/-- The order in which `read_dir` lists the entries of the table. -/
def tableOrder (t : LinkTree) (dir : RelPath) : List String :=
  match t.canonicalize dir with
  | some (.inside v) => t.children v
  | _ => []

/-- The order that lists the names of one way below `base` first. -/
def orderAhead (t : LinkTree) (base : RelPath) (way : List String) (dir : RelPath) : List String :=
  if dir = base ++ dir.drop base.length then
    Dfs.ahead way (fun path => t.tableOrder (base ++ path)) (dir.drop base.length)
  else t.tableOrder dir

lemma listing_tableOrder : t.Listing t.tableOrder := by
  intro dir v hdir
  simp [tableOrder, hdir]

lemma listing_orderAhead (base : RelPath) (way : List String) :
    t.Listing (t.orderAhead base way) := by
  intro dir v hdir
  have htable : t.tableOrder dir = t.children v := by simp [tableOrder, hdir]
  unfold orderAhead
  split_ifs with h
  · refine (Dfs.ahead_perm _ _ _).trans ?_
    rw [← h, htable]
  · rw [htable]

lemma orderAhead_append (way path : List String) :
    t.orderAhead base way (base ++ path) =
      Dfs.ahead way (fun path => t.tableOrder (base ++ path)) path := by
  simp [orderAhead]

/-- Under some order a directory is entered by a given simple way. -/
lemma entered_ahead (hbase : t.kindAt base = some .dir) {way : List String} {u : RelPath}
    (h : Dfs.Simple t.enters base way u) {seen : List (RelPath × RelPath)}
    (hways : Ways t (t.orderAhead base way) base [] base (t.orderAhead base way base) [] seen) :
    (way, u) ∈ seen := by
  obtain ⟨passed, hleads, hlast, hnodup⟩ := h
  have horder : (fun path => t.orderAhead base way (base ++ path)) =
      Dfs.ahead way (fun path => t.tableOrder (base ++ path)) :=
    funext fun path => orderAhead_append way path
  have hstart : t.orderAhead base way base =
      Dfs.ahead way (fun path => t.tableOrder (base ++ path)) [] := by
    rw [← orderAhead_append way [], List.append_nil]
  rw [Ways, horder, hstart] at hways
  refine @Dfs.Explores.enters_ahead _ _ _ _ _ [] way base u passed [] seen hleads ?_ hlast hnodup
    (by simp) hways
  intro path x rest hsplit
  obtain rfl : way = path ++ x :: rest := hsplit
  obtain ⟨first, last, hfirst, hnext⟩ := hleads.split
  have hdir := canonicalize_leads hfirst (canonicalize_of_kindAt hbase)
  cases hnext with
  | step hx _ =>
    exact mem_order listing_tableOrder hdir hx

/-- **Following links hides nothing exactly when there is one way only**: no directory below the
walked one that holds a file or a directory is reached through links on a way that passes no
directory twice. -/
theorem hidesNothing_iff (t : LinkTree) (base : RelPath) (hbase : t.kindAt base = some .dir) :
    t.HidesNothing base ↔ t.OneWay base := by
  constructor
  · rintro ⟨-, hsame⟩ rest hrest hstaging hdir ⟨x, k, hx, hnode⟩ path hpath
    by_contra hne
    have hcanon := canonicalize_of_kindAt hdir
    have hreal := simple_real hrest hstaging hdir
    obtain ⟨seen, hways, hlisted⟩ := mem_walkSubtree (listing_orderAhead base path) hbase
    obtain ⟨seen', hways', hlisted'⟩ := mem_walkSubtree (listing_orderAhead base rest) hbase
    -- The real path is listed when it is read first, and not when the other way is.
    have hin : ⟨base ++ rest ++ [x], k = .dir⟩ ∈
        t.walkSubtree (t.orderAhead base rest) .follow base :=
      (listed_iff hbase hways' hlisted' hcanon).mpr
        ⟨.inr (entered_ahead hbase hreal hways'), k, lists_entry hx hnode, rfl⟩
    have hout := hsame _ _ (listing_orderAhead base rest) (listing_orderAhead base path) _
      (Option.isSome_of_eq_some hnode) hin
    rcases ((listed_iff hbase hways hlisted hcanon).mp hout).1 with hnil | hmem
    · exact hrest hnil
    · have hone := @Dfs.Explores.way_inj _ _ _ (fun p => t.orderAhead base path (base ++ p)) [] _ _
        _ hways _ _ _ (entered_ahead hbase hpath hways) hmem
      exact hne hone
  · intro hone
    constructor
    · intro order hlist rest hstaging hfile
      rcases List.eq_nil_or_concat rest with rfl | ⟨rest, x, rfl⟩
      · rw [List.append_nil, hbase] at hfile
        cases hfile
      · rw [List.concat_eq_append] at hfile hstaging ⊢
        rw [← List.append_assoc] at hfile ⊢
        simp only [List.mem_append, List.mem_singleton, not_or] at hstaging
        exact listed_of_oneWay hbase hone hlist hstaging.1 (Ne.symm hstaging.2) hfile
    · intro order order' hlist hlist' e hreal he
      obtain ⟨seen, hways, hlisted⟩ := mem_walkSubtree hlist hbase
      obtain ⟨⟨path, v⟩, hq, x, k, hk, rfl⟩ := (hlisted e).mp he
      obtain ⟨k', hnode⟩ := Option.isSome_iff_exists.mp hreal
      have hdir : t.kindAt (base ++ path) = some .dir := dir_above hnode (by simp)
      obtain rfl : base ++ path = v := by
        have hv := canonicalize_node hbase hways _ hq
        rw [canonicalize_of_kindAt hdir] at hv
        simpa using hv
      have hx : x ≠ partialDir := by
        rintro rfl
        simp [lists] at hk
      obtain rfl : k' = k := by
        rw [lists_entry hx hnode] at hk
        exact Option.some.inj hk
      have hstaging : partialDir ∉ path := by
        rcases hq with hq | hq
        · obtain rfl : path = [] := congrArg Prod.fst hq
          exact List.not_mem_nil
        · obtain ⟨_, hleads, -⟩ := hways.simple hq
          exact not_staging hleads
      exact listed_of_oneWay hbase hone hlist' hstaging hx hnode

end OneWay

/-- **What is listed does not depend on the order**, when each entry is taken for what is at the
end of its links. -/
theorem targets_same {base : RelPath} (hbase : t.kindAt base = some .dir)
    {order order' : RelPath → List String} (hlist : t.Listing order) (hlist' : t.Listing order')
    {e : LocalEntry} (he : e ∈ t.walkSubtree order .follow base) :
    ∃ e' ∈ t.walkSubtree order' .follow base, e'.isDir = e.isDir ∧
      t.canonicalize e'.relativePath = t.canonicalize e.relativePath := by
  obtain ⟨seen, hways, hlisted⟩ := mem_walkSubtree hlist hbase
  obtain ⟨seen', hways', hlisted'⟩ := mem_walkSubtree hlist' hbase
  obtain ⟨⟨path, v⟩, hq, x, k, hk, rfl⟩ := (hlisted e).mp he
  have hentered : ∃ path', (path', v) = ([], base) ∨ (path', v) ∈ seen' := by
    rcases hq with hq | hq
    · obtain rfl : v = base := congrArg Prod.snd hq
      exact ⟨[], .inl rfl⟩
    · obtain ⟨passed, hleads, hlast, -⟩ := hways.simple hq
      obtain ⟨⟨path', u⟩, hq', hu⟩ := List.mem_map.mp
        (entered_of_leads hlist' hbase hways' hleads _ (List.mem_of_mem_getLast? hlast))
      obtain rfl : u = v := hu
      exact ⟨path', .inr hq'⟩
  obtain ⟨path', hq'⟩ := hentered
  refine ⟨⟨base ++ path' ++ [x], k = .dir⟩, (hlisted' _).mpr ⟨_, hq', x, k, hk, rfl⟩, rfl, ?_⟩
  rw [canonicalize_append (canonicalize_node hbase hways _ hq),
    canonicalize_append (canonicalize_node hbase hways' _ hq')]

/-! ## A link to a directory -/

lemma tree_of_rows {nodes : FinMap RelPath LinkNode}
    (h : ∀ r ∈ nodes.rows, kindOf nodes r.1.dropLast = some .dir) (p : RelPath) (x : String)
    (hp : nodes.val (p ++ [x]) ≠ none) : kindOf nodes p = some .dir := by
  obtain ⟨n, hn⟩ := Option.ne_none_iff_exists'.mp hp
  simpa using h _ (FinMap.val_eq_some.mp hn)

/-- The entries `a`, a link to the directory `d`, and what `d` holds. -/
def linkedNodes (held : List (String × LocalKind)) (h : (held.map Prod.fst).Nodup) :
    FinMap RelPath LinkNode :=
  ⟨(["a"], .link (some (.inside ["d"]))) :: (["d"], .entry .dir) ::
      held.map fun r => (["d", r.1], .entry r.2), by
    have hheld : ((held.map fun r => ((["d", r.1] : RelPath), LinkNode.entry r.2)).map
        Prod.fst).Nodup := by
      have hinj : Function.Injective fun x : String => (["d", x] : RelPath) := by
        intro x y hxy
        simpa using hxy
      simpa [Function.comp_def] using h.map hinj
    simp only [List.map_cons, List.nodup_cons, hheld]
    simp⟩

/-- The tree with the link `a` to the directory `d`. -/
def linkedTree (held : List (String × LocalKind)) (h : (held.map Prod.fst).Nodup) : LinkTree where
  nodes := linkedNodes held h
  tree := by
    apply tree_of_rows
    intro r hr
    simp only [linkedNodes, List.mem_cons, List.mem_map] at hr
    rcases hr with rfl | rfl | ⟨r, -, rfl⟩
    · rfl
    · rfl
    · rfl
  landed := by
    intro p q hp
    have hmem := FinMap.val_eq_some.mp hp
    simp only [linkedNodes, List.mem_cons, List.mem_map, Prod.mk.injEq, LinkNode.link.injEq,
      Option.some.injEq, Landing.inside.injEq, reduceCtorEq, and_false, exists_false, or_false]
      at hmem
    obtain ⟨-, rfl⟩ := hmem
    exact .inl rfl

/-- Where the linked directory is empty, nothing can be hidden. -/
theorem empty_hides_nothing : (linkedTree [] (by simp)).HidesNothing [] := by
  refine (hidesNothing_iff (linkedTree [] (by simp)) [] rfl).mpr ?_
  rintro rest hrest - hdir ⟨x, k, -, hx⟩ - -
  have hnode := FinMap.val_eq_some.mp (kindAt_append.mp hx)
  simp only [linkedTree, linkedNodes, List.map_nil, List.mem_cons, Prod.mk.injEq, reduceCtorEq,
    and_false, false_or, List.not_mem_nil, or_false] at hnode
  have hlen := congrArg List.length hnode.1
  simp only [List.nil_append, List.length_append, List.length_singleton] at hlen
  exact absurd (List.eq_nil_of_length_eq_zero (by omega)) hrest

/-- A link that is met before the directory hides the file in it. -/
theorem link_hides_file : ¬ (linkedTree [("f", .file)] (by simp)).HidesNothing [] := by
  intro h
  have hlisted := h.files (linkedTree [("f", .file)] (by simp)).tableOrder listing_tableOrder
    ["d", "f"] (by decide) (by decide)
  revert hlisted
  decide +kernel

end LinkTree

end AirDrive
