import AirDrive.Local.Fs

set_option relaxedAutoImplicit false
set_option autoImplicit false

/-!
# Moving a directory into another one

`fs::rename` replaces an empty directory only; `merge_move_dir` moves a directory into one that is
populated. Both have the same effect: every node moves to the same place below the destination,
where it replaces a file, and what else was there stays.

## Main definitions

* `AirDrive.Fs.Apart` — neither path is inside the other.
* `AirDrive.Fs.Alike` — no file meets a directory below the destination.
* `AirDrive.Fs.Fits` — nothing below the destination is in the way.
* `AirDrive.Fs.Moved` — the nodes at some paths have moved.
* `AirDrive.Fs.Listing`, `AirDrive.Fs.mergeMoveDirIn` — the merge, whatever the order in which
  directories are listed.

## Main results

* `AirDrive.Fs.moved_rename` — a rename moves everything, or the destination is populated.
* `AirDrive.Fs.moved_mergeMoveDirIn` — a merge moves everything, and its source wins.
* `AirDrive.Fs.mergeMoveDir_union` — it does so in every order of listing.
* `AirDrive.Fs.createDirAll_ok` — directories can be made where no file is in the way.
* `AirDrive.Fs.filesFrom_rename`, `AirDrive.Fs.filesFrom_mergeMoveDir` — a move makes no files.
-/

namespace AirDrive.Fs

variable {fs fs' fs₁ fs₂ : Fs} {src dst : RelPath} {S S' : RelPath → Prop}

/-! ## Where nothing is in the way -/

/-- Neither path is inside the other. -/
structure Apart (src dst : RelPath) : Prop where
  /-- The destination is not inside the source. -/
  outside : ¬src <+: dst
  /-- The source is not inside the destination. -/
  inside : ¬dst <+: src

/-- Where both trees have a node, both have a directory or neither has. -/
def Alike (fs : Fs) (src dst : RelPath) : Prop :=
  ∀ r n m, fs.node (src ++ r) = some n → fs.node (dst ++ r) = some m → (n = .dir ↔ m = .dir)

/-- Where both trees have a node, both have a directory. -/
def Fits (fs : Fs) (src dst : RelPath) : Prop :=
  ∀ r n m, fs.node (src ++ r) = some n → fs.node (dst ++ r) = some m → n = .dir ∧ m = .dir

/-- The nodes at the paths of `S` have moved from below `src` to below `dst`. -/
structure Moved (S : RelPath → Prop) (src dst : RelPath) (fs fs' : Fs) : Prop where
  /-- Nothing is left of them. -/
  left : ∀ r, S r → fs'.node (src ++ r) = none
  /-- They have arrived, and what was there before is still there. -/
  arrived : ∀ r, S r → fs'.node (dst ++ r) = (fs.node (src ++ r)).or (fs.node (dst ++ r))
  /-- The other paths wait. -/
  waiting : ∀ r, ¬S r → fs'.node (src ++ r) = fs.node (src ++ r) ∧
    fs'.node (dst ++ r) = fs.node (dst ++ r)
  /-- Everything else is where it was. -/
  fixed : ∀ q, ¬src <+: q → ¬dst <+: q → fs'.node q = fs.node q

lemma Apart.symm (h : Apart src dst) : Apart dst src := ⟨h.inside, h.outside⟩

lemma Apart.append (h : Apart src dst) (r s : RelPath) : ¬src ++ r <+: dst ++ s := by
  intro hprefix
  have hsrc : src <+: dst ++ s := (List.prefix_append src r).trans hprefix
  rcases List.prefix_or_prefix_of_prefix hsrc (List.prefix_append dst s) with hp | hp
  · exact h.outside hp
  · exact h.inside hp

lemma Apart.child (h : Apart src dst) (x : String) : Apart (src ++ [x]) (dst ++ [x]) :=
  ⟨h.append _ _, h.symm.append _ _⟩

lemma Apart.ne_nil (h : Apart src dst) : src ≠ [] ∧ dst ≠ [] :=
  ⟨fun heq => h.outside (heq ▸ List.nil_prefix), fun heq => h.inside (heq ▸ List.nil_prefix)⟩

lemma Fits.alike (h : Fits fs src dst) : Alike fs src dst := by
  intro r n m hn hm
  obtain ⟨hdir, hdir'⟩ := h r n m hn hm
  exact iff_of_true hdir hdir'

/-- Two moves of different nodes, one after the other. -/
lemma Moved.trans (h : Moved S src dst fs fs₁) (h' : Moved S' src dst fs₁ fs₂)
    (hdisjoint : ∀ r, S r → ¬S' r) : Moved (fun r => S r ∨ S' r) src dst fs fs₂ := by
  refine ⟨fun r hr => ?_, fun r hr => ?_, fun r hr => ?_, fun q hsrc hdst => ?_⟩
  · rcases hr with hr | hr
    · rw [(h'.waiting r (hdisjoint r hr)).1, h.left r hr]
    · exact h'.left r hr
  · rcases hr with hr | hr
    · rw [(h'.waiting r (hdisjoint r hr)).2, h.arrived r hr]
    · have hwait := h.waiting r fun hs => hdisjoint r hs hr
      rw [h'.arrived r hr, hwait.1, hwait.2]
  · obtain ⟨hs, hs'⟩ := not_or.mp hr
    rw [(h'.waiting r hs').1, (h'.waiting r hs').2]
    exact h.waiting r hs
  · rw [h'.fixed q hsrc hdst, h.fixed q hsrc hdst]

/-- A move of an entry of a directory, as a move of the paths through the entry. -/
lemma Moved.of_child {x : String} (h : Moved (fun _ => True) (src ++ [x]) (dst ++ [x]) fs fs')
    (hapart : Apart src dst) : Moved (fun r => [x] <+: r) src dst fs fs' := by
  have hbelow : ∀ {p q : RelPath}, ¬p <+: q → ¬p ++ [x] <+: q := fun hp hpx =>
    hp ((List.prefix_append _ _).trans hpx)
  refine ⟨fun r hr => ?_, fun r hr => ?_, fun r hr => ⟨?_, ?_⟩, fun q hsrc hdst => ?_⟩
  · obtain ⟨r', rfl⟩ := hr
    have hleft := h.left r' trivial
    rwa [List.append_assoc] at hleft
  · obtain ⟨r', rfl⟩ := hr
    have harrived := h.arrived r' trivial
    rwa [List.append_assoc, List.append_assoc] at harrived
  · exact h.fixed _ (fun hp => hr ((List.prefix_append_right_inj src).mp hp))
      (hapart.symm.append _ _)
  · exact h.fixed _ (hapart.append _ _) fun hp => hr ((List.prefix_append_right_inj dst).mp hp)
  · exact h.fixed q (hbelow hsrc) (hbelow hdst)

/-! ## A rename -/

/-- Moving a subtree to a place with nothing below it. -/
lemma moved_moveTree (h : fs.Movable src dst) :
    Moved (fun _ => True) src dst fs (fs.moveTree src dst h) := by
  refine ⟨fun r _ => node_moveTree_left r, fun r _ => ?_, fun r hr => absurd trivial hr,
    fun q hsrc hdst => node_moveTree_fixed hsrc hdst⟩
  cases hnode : fs.node (src ++ r) with
  | some n => exact node_moveTree_moved r hnode
  | none =>
    cases r with
    | nil => exact absurd (by simpa using hnode) h.source
    | cons x r =>
      rw [Option.none_or, h.free r x, node_of_ne_nil _ (by simp)]
      cases hval : (fs.moveTree src dst h).nodes.val (dst ++ x :: r) with
      | none => rfl
      | some n =>
        have hmem : (dst ++ x :: r, n) ∈
            (fs.nodes.move (relocate src dst) (relocate_inj src dst)).rows :=
          Data.FinMap.val_eq_some.mp hval
        rcases Data.FinMap.mem_move.mp hmem with ⟨j, hj, hjr⟩ | ⟨hkept, -⟩
        · obtain ⟨rest, rfl, hrest⟩ := relocate_eq_some.mp hjr
          rw [← List.append_cancel_left hrest, ← Data.FinMap.val_eq_some,
            ← node_of_ne_nil fs (by simp), hnode] at hj
          cases hj
        · rw [← Data.FinMap.val_eq_some, ← node_of_ne_nil fs (by simp), h.free r x] at hkept
          cases hkept

/-- Renaming a node to itself changes nothing. -/
lemma rename_self (hnode : fs.node src ≠ none) (hparent : fs.node src.dropLast = some .dir) :
    fs.rename src src = .ok fs := by
  unfold rename
  rw [if_neg hnode, if_neg (by simp [hparent]), if_neg (by simp [hparent]), if_pos rfl]

/-- **A rename** moves everything, unless both paths are directories and the destination is
populated. -/
lemma moved_rename (hsrc : fs.node src ≠ none) (hparent : fs.node dst.dropLast = some .dir)
    (hapart : Apart src dst) (halike : Alike fs src dst) :
    (∃ fs', fs.rename src dst = .ok fs' ∧ Moved (fun _ => True) src dst fs fs') ∨
      fs.rename src dst = .error (.io .directoryNotEmpty) ∧ fs.node src = some .dir ∧
        fs.node dst = some .dir := by
  have hne : src ≠ dst := fun heq => hapart.outside (heq ▸ List.prefix_rfl)
  have hboth : ∀ n m, fs.node src = some n → fs.node dst = some m → (n = .dir ↔ m = .dir) :=
    fun n m hn hm => halike [] n m (by simpa using hn) (by simpa using hm)
  unfold rename
  rw [if_neg hsrc, if_neg (by simp [hparent]), if_neg (by simp [hparent]), if_neg hne,
    dif_pos ⟨⟨hsrc, hapart.ne_nil⟩, hparent, hapart.outside⟩]
  split
  · next hdir hnode =>
    obtain ⟨n, hn⟩ := Option.ne_none_iff_exists'.mp hsrc
    rw [(hboth n .dir hn hnode).mpr rfl] at hn
    simp [isDir, hn] at hdir
  · next b hdir hnode => exact absurd ((hboth .dir _ (isDir_iff.mp hdir) hnode).mp rfl) (by simp)
  · split_ifs with hbare
    · exact .inl ⟨_, rfl, moved_moveTree _⟩
    · have hdst : fs.node dst = some .dir := by
        by_contra hnode
        exact hbare (bare_of_ne_dir hnode)
      obtain ⟨n, hn⟩ := Option.ne_none_iff_exists'.mp hsrc
      rw [(hboth n .dir hn hdst).mpr rfl] at hn
      exact .inr ⟨rfl, hn, hdst⟩

/-! ## A merge -/

lemma mem_children {p : RelPath} {x : String} :
    x ∈ fs.children p ↔ fs.node (p ++ [x]) ≠ none := by
  rw [node_append_singleton, children, List.mem_filterMap]
  constructor
  · intro ⟨r, hr, hx⟩
    cases hlast : r.1.getLast? with
    | none => simp [hlast] at hx
    | some y =>
      simp only [hlast] at hx
      split_ifs at hx with hpath
      obtain rfl := Option.some.inj hx
      rw [← hpath, Data.FinMap.val_eq_some.mpr hr]
      simp
  · intro h
    obtain ⟨n, hn⟩ := Option.ne_none_iff_exists'.mp h
    exact ⟨(p ++ [x], n), Data.FinMap.val_eq_some.mp hn, by simp⟩

/-- The name under which a path is listed in a directory. -/
def nameBelow (p q : RelPath) : Option String :=
  match q.getLast? with
  | some x => if q = p ++ [x] then some x else none
  | none => none

lemma nameBelow_eq_some {p q : RelPath} {c : String} (h : c ∈ nameBelow p q) : q = p ++ [c] := by
  unfold nameBelow at h
  split at h
  · split_ifs at h with hpath
    · rw [hpath, Option.some.inj h]
    · cases h
  · cases h

/-- No name is listed twice. -/
lemma children_nodup (p : RelPath) : (fs.children p).Nodup := by
  have hkeys : (fs.nodes.rows.map Prod.fst).Nodup := fs.nodes.nodup
  rw [show fs.children p = (fs.nodes.rows.map Prod.fst).filterMap (nameBelow p) by
    rw [List.filterMap_map]
    rfl]
  refine hkeys.filterMap fun a b c ha hb => ?_
  rw [nameBelow_eq_some ha, nameBelow_eq_some hb]

/-- Moving the entries of a directory one after the other, when each can be moved while the
entries after it wait. -/
lemma moved_foldl {move : Except Error Unit × Fs → String → Except Error Unit × Fs}
    (hapart : Apart src dst) (names : List String) (hnodup : names.Nodup)
    (hmove : ∀ x ∈ names, ∀ fs₁, fs₁.node src = fs.node src → fs₁.node dst = fs.node dst →
      (∀ r, fs₁.node (src ++ x :: r) = fs.node (src ++ x :: r)) →
      (∀ r, fs₁.node (dst ++ x :: r) = fs.node (dst ++ x :: r)) →
      ∃ fs₂, move (.ok (), fs₁) x = (.ok (), fs₂) ∧
        Moved (fun _ => True) (src ++ [x]) (dst ++ [x]) fs₁ fs₂) :
    ∃ fs', names.foldl move (.ok (), fs) = (.ok (), fs') ∧
      Moved (fun r => ∃ x ∈ names, [x] <+: r) src dst fs fs' := by
  induction names generalizing fs with
  | nil =>
    exact ⟨fs, rfl, ⟨fun r ⟨x, hx, _⟩ => (nomatch hx), fun r ⟨x, hx, _⟩ => (nomatch hx),
      fun _ _ => ⟨rfl, rfl⟩, fun _ _ _ => rfl⟩⟩
  | cons x names ih =>
    obtain ⟨hx, hnodup⟩ := List.nodup_cons.mp hnodup
    obtain ⟨fs₁, hfirst, hmoved⟩ := hmove x (.head _) fs rfl rfl (fun _ => rfl) fun _ => rfl
    replace hmoved := hmoved.of_child hapart
    have hother : ∀ y ∈ names, ∀ r, ¬[x] <+: y :: r := by
      intro y hy r hprefix
      obtain ⟨s, hs⟩ := hprefix
      exact hx ((List.cons.inj hs).1 ▸ hy)
    have hroot : ¬[x] <+: ([] : RelPath) := by simp
    have hwait : ∀ y ∈ names, ∀ r, fs₁.node (src ++ y :: r) = fs.node (src ++ y :: r) ∧
        fs₁.node (dst ++ y :: r) = fs.node (dst ++ y :: r) := fun y hy r =>
      hmoved.waiting _ (hother y hy r)
    have hends : fs₁.node src = fs.node src ∧ fs₁.node dst = fs.node dst := by
      simpa using hmoved.waiting [] hroot
    obtain ⟨fs', hrest, hmoved'⟩ := ih hnodup fun y hy fs₂ hsrc hdst hbelow hbelow' =>
      hmove y (.tail _ hy) fs₂ (hsrc.trans hends.1) (hdst.trans hends.2)
        (fun r => (hbelow r).trans (hwait y hy r).1) fun r => (hbelow' r).trans (hwait y hy r).2
    refine ⟨fs', by rw [List.foldl_cons, hfirst, hrest], ?_⟩
    have htrans := hmoved.trans hmoved' fun r hr ⟨y, hy, hry⟩ => by
      obtain ⟨s, rfl⟩ := hry
      exact hother y hy s hr
    have hset : (fun r => [x] <+: r ∨ ∃ y ∈ names, [y] <+: r) =
        fun r => ∃ y ∈ x :: names, [y] <+: r := by
      funext r
      simp
    exact hset ▸ htrans

/-- What `read_dir` may list: the names in a directory, in any order. -/
def Listing (list : Fs → RelPath → List String) : Prop :=
  ∀ fs p, (list fs p).Perm (fs.children p)

/-- `merge_move_dir`, with what `read_dir` lists. -/
def mergeMoveDirInAux (list : Fs → RelPath → List String) :
    ℕ → RelPath → RelPath → Fs → Except Error Unit × Fs
  | 0, _, _, fs => (.error (.io .invalidInput), fs)
  | fuel + 1, src, dst, fs =>
    match fs.createDirAll dst with
    | .error e => (.error e, fs)
    | .ok fs =>
      let moveEntry (acc : Except Error Unit × Fs) (name : String) : Except Error Unit × Fs :=
        match acc with
        | (.error e, fs) => (.error e, fs)
        | (.ok (), fs) =>
          if fs.isDir (src ++ [name]) && fs.isDir (dst ++ [name]) then
            mergeMoveDirInAux list fuel (src ++ [name]) (dst ++ [name]) fs
          else
            match fs.rename (src ++ [name]) (dst ++ [name]) with
            | .ok fs' => (.ok (), fs')
            | .error e => (.error e, fs)
      if fs.isDir src then
        match (list fs src).foldl moveEntry (.ok (), fs) with
        | (.error e, fs) => (.error e, fs)
        | (.ok (), fs) =>
          match fs.removeDir src with
          | .ok fs' => (.ok (), fs')
          | .error e => (.error e, fs)
      else (.error (.io .notFound), fs)

@[inherit_doc mergeMoveDirInAux]
def mergeMoveDirIn (list : Fs → RelPath → List String) (fs : Fs) (src dst : RelPath) :
    Except Error Unit × Fs :=
  mergeMoveDirInAux list (fs.nodes.rows.length + 1) src dst fs

lemma listing_children : Listing children := fun _ _ => .rfl

/-- The merge of the daemon's calls lists a directory in one of the orders. -/
lemma mergeMoveDir_eq (fs : Fs) (src dst : RelPath) :
    fs.mergeMoveDir src dst = fs.mergeMoveDirIn children src dst := by
  have haux : ∀ fuel src dst fs,
      mergeMoveDirAux fuel src dst fs = mergeMoveDirInAux children fuel src dst fs := by
    intro fuel
    induction fuel with
    | zero => exact fun _ _ _ => rfl
    | succ fuel ih =>
      intro src dst fs
      simp only [mergeMoveDirAux, mergeMoveDirInAux, ih] <;> rfl
  exact haux _ _ _ _

/-- The emptied source is removed. -/
lemma moved_removeDir (hapart : Apart src dst) (hsrc : fs.node src = some .dir)
    (hdst : fs.node dst = some .dir)
    (h : Moved (fun r => ∃ x ∈ fs.children src, [x] <+: r) src dst fs fs₁) :
    ∃ fs', fs₁.removeDir src = .ok fs' ∧ Moved (fun _ => True) src dst fs fs' := by
  have hroot : ¬∃ x ∈ fs.children src, [x] <+: ([] : RelPath) := by simp
  have hends : fs₁.node src = some .dir ∧ fs₁.node dst = some .dir := by
    simpa [hsrc, hdst] using h.waiting [] hroot
  have hnone : ∀ x r, x ∉ fs.children src → fs.node (src ++ x :: r) = none := by
    intro x r hx
    by_contra hnode
    refine hx (mem_children.mpr ?_)
    cases r with
    | nil => exact hnode
    | cons y r =>
      have hdir : fs.node (src ++ [x]) = some .dir :=
        fs.dir_of_below (x := y) (q := r) (by simpa using hnode)
      simp [hdir]
  have hcases : ∀ x r, fs₁.node (src ++ x :: r) = none ∧
      fs₁.node (dst ++ x :: r) = (fs.node (src ++ x :: r)).or (fs.node (dst ++ x :: r)) := by
    intro x r
    by_cases hx : x ∈ fs.children src
    · have hsel : ∃ y ∈ fs.children src, [y] <+: x :: r := ⟨x, hx, by simp⟩
      exact ⟨h.left _ hsel, h.arrived _ hsel⟩
    · have hsel : ¬∃ y ∈ fs.children src, [y] <+: x :: r := by
        intro ⟨y, hy, s, hs⟩
        exact hx ((List.cons.inj hs).1 ▸ hy)
      rw [(h.waiting _ hsel).1, (h.waiting _ hsel).2, hnone x r hx]
      exact ⟨rfl, rfl⟩
  have hempty : fs₁.children src = [] := by
    refine List.eq_nil_iff_forall_not_mem.mpr fun x hx => ?_
    exact mem_children.mp hx (hcases x []).1
  refine ⟨fs₁.removeTree src hapart.ne_nil.1, ?_, fun r _ => ?_, fun r _ => ?_,
    fun r hr => absurd trivial hr, fun q hq hq' => ?_⟩
  · simp [removeDir, hends.1, hempty, hapart.ne_nil.1]
  · rw [node_removeTree, if_pos (List.prefix_append _ _)]
  · have hout : ¬src <+: dst ++ r := by simpa using hapart.append [] r
    rw [node_removeTree, if_neg hout]
    cases r with
    | nil => simp [hends.2, hsrc]
    | cons x r => exact (hcases x r).2
  · rw [node_removeTree, if_neg hq]
    exact h.fixed q hq hq'

/-- The loop of a merge. -/
lemma moved_entries {move : Except Error Unit × Fs → String → Except Error Unit × Fs}
    {names : List String} (hnames : names.Perm (fs.children src)) (hapart : Apart src dst)
    (hsrc : fs.node src = some .dir) (hdst : fs.node dst = some .dir)
    (hmove : ∀ x ∈ names, ∀ fs₁, fs₁.node src = fs.node src →
      fs₁.node dst = fs.node dst →
      (∀ r, fs₁.node (src ++ x :: r) = fs.node (src ++ x :: r)) →
      (∀ r, fs₁.node (dst ++ x :: r) = fs.node (dst ++ x :: r)) →
      ∃ fs₂, move (.ok (), fs₁) x = (.ok (), fs₂) ∧
        Moved (fun _ => True) (src ++ [x]) (dst ++ [x]) fs₁ fs₂) :
    ∃ fs', (match names.foldl move (.ok (), fs) with
      | (.error e, fs) => (.error e, fs)
      | (.ok (), fs) =>
        match fs.removeDir src with
        | .ok fs' => (.ok (), fs')
        | .error e => (.error e, fs) : Except Error Unit × Fs) = (.ok (), fs') ∧
      Moved (fun _ => True) src dst fs fs' := by
  obtain ⟨fs₁, hfold, hmoved⟩ := moved_foldl hapart names
    (hnames.nodup_iff.mpr (children_nodup src)) hmove
  have hset : (fun r => ∃ x ∈ names, [x] <+: r) = fun r => ∃ x ∈ fs.children src, [x] <+: r := by
    funext r
    simp only [hnames.mem_iff]
  obtain ⟨fs', hremove, hmoved'⟩ := moved_removeDir hapart hsrc hdst (hset ▸ hmoved)
  refine ⟨fs', ?_, hmoved'⟩
  rw [hfold]
  simp only [hremove]

/-- A merge moves everything, with fuel for the depth of the source. -/
lemma moved_mergeMoveDirInAux {list : Fs → RelPath → List String} (hlist : Listing list) (fuel : ℕ)
    (hsrc : fs.node src = some .dir) (hdst : fs.node dst = some .dir) (hapart : Apart src dst)
    (halike : Alike fs src dst) (hfuel : ∀ r, fs.node (src ++ r) ≠ none → r.length < fuel) :
    ∃ fs', mergeMoveDirInAux list fuel src dst fs = (.ok (), fs') ∧
      Moved (fun _ => True) src dst fs fs' := by
  induction fuel generalizing fs src dst with
  | zero => exact absurd (hfuel [] (by simp [hsrc])) (by simp)
  | succ fuel ih =>
    unfold mergeMoveDirInAux
    rw [createDirAll_of_dir hdst]
    simp only [isDir_iff.mpr hsrc, if_true]
    refine moved_entries (hlist fs src) hapart hsrc hdst fun x hx fs₁ h h' hbelow hbelow' => ?_
    have halike₁ : Alike fs₁ (src ++ [x]) (dst ++ [x]) := by
      intro r n m hn hm
      rw [List.append_assoc, List.singleton_append] at hn hm
      rw [hbelow] at hn
      rw [hbelow'] at hm
      exact halike (x :: r) n m hn hm
    have hthere : fs₁.node (src ++ [x]) ≠ none := by
      rw [hbelow]
      exact mem_children.mp ((hlist fs src).mem_iff.mp hx)
    simp only
    split_ifs with hdirs
    · obtain ⟨hsrc', hdst'⟩ := Bool.and_eq_true_iff.mp hdirs
      refine ih (isDir_iff.mp hsrc') (isDir_iff.mp hdst') (hapart.child x) halike₁ fun r hr => ?_
      rw [List.append_assoc, List.singleton_append, hbelow] at hr
      have := hfuel (x :: r) hr
      simp only [List.length_cons] at this
      omega
    · rcases moved_rename hthere (by simpa [h'] using hdst) (hapart.child x) halike₁ with
        ⟨fs₂, hok, hmoved⟩ | ⟨-, hsrc', hdst'⟩
      · exact ⟨fs₂, by rw [hok], hmoved⟩
      · exact absurd (by simp [isDir, hsrc', hdst']) hdirs

/-- The tree is no deeper than it has nodes. -/
lemma length_le_rows {p : RelPath} (h : fs.node p ≠ none) : p.length ≤ fs.nodes.rows.length := by
  have hsub : (List.range p.length).map (fun k => p.take (k + 1)) ⊆
      fs.nodes.rows.map Prod.fst := by
    intro q hq
    obtain ⟨k, hk, rfl⟩ := List.mem_map.mp hq
    have hlen := List.mem_range.mp hk
    have hne : p.take (k + 1) ≠ [] := by
      intro heq
      have := congrArg List.length heq
      simp only [List.length_take, List.length_nil] at this
      omega
    have hnode : fs.node (p.take (k + 1)) ≠ none := by
      cases hrest : p.drop (k + 1) with
      | nil => rwa [← List.take_append_drop (k + 1) p, hrest, List.append_nil] at h
      | cons x q =>
        rw [fs.dir_of_below (x := x) (q := q) (by rwa [← hrest, List.take_append_drop])]
        simp
    rw [node_of_ne_nil _ hne] at hnode
    obtain ⟨n, hn⟩ := Option.ne_none_iff_exists'.mp hnode
    exact List.mem_map.mpr ⟨_, Data.FinMap.val_eq_some.mp hn, rfl⟩
  have hnodup : ((List.range p.length).map fun k => p.take (k + 1)).Nodup := by
    refine List.Nodup.map_on (fun a ha b hb heq => ?_) List.nodup_range
    have := congrArg List.length heq
    have := List.mem_range.mp ha
    have := List.mem_range.mp hb
    simp only [List.length_take] at *
    omega
  simpa using (List.subperm_of_subset hnodup hsub).length_le

/-- **A merge** moves everything. -/
lemma moved_mergeMoveDirIn {list : Fs → RelPath → List String} (hlist : Listing list)
    (hsrc : fs.node src = some .dir) (hdst : fs.node dst = some .dir) (hapart : Apart src dst)
    (halike : Alike fs src dst) :
    ∃ fs', fs.mergeMoveDirIn list src dst = (.ok (), fs') ∧
      Moved (fun _ => True) src dst fs fs' := by
  refine moved_mergeMoveDirInAux hlist _ hsrc hdst hapart halike fun r hr => ?_
  have hlen := length_le_rows hr
  rw [List.length_append] at hlen
  omega

/-- **The merge is a union in which the source wins**: it succeeds, nothing is left of the source,
below the destination are the nodes of both, those of the source where both have one, and nothing
else has changed. This determines the tree, whatever the order in which directories are listed. -/
theorem mergeMoveDir_union (fs : Fs) (src dst : RelPath) (hsrc : fs.node src = some .dir)
    (hdst : fs.node dst = some .dir) (hapart : Apart src dst) (halike : Alike fs src dst)
    (list : Fs → RelPath → List String) (hlist : Listing list) :
    ∃ fs', fs.mergeMoveDirIn list src dst = (.ok (), fs') ∧
      (∀ r, fs'.node (src ++ r) = none) ∧
      (∀ r, fs'.node (dst ++ r) = (fs.node (src ++ r)).or (fs.node (dst ++ r))) ∧
      (∀ q, ¬src <+: q → ¬dst <+: q → fs'.node q = fs.node q) ∧
      ∀ list', Listing list' → (fs.mergeMoveDirIn list' src dst).2.node = fs'.node := by
  obtain ⟨fs', hok, hmoved⟩ := moved_mergeMoveDirIn hlist hsrc hdst hapart halike
  refine ⟨fs', hok, fun r => hmoved.left r trivial, fun r => hmoved.arrived r trivial,
    hmoved.fixed, fun list' hlist' => ?_⟩
  obtain ⟨fs'', hok', hmoved'⟩ := moved_mergeMoveDirIn hlist' hsrc hdst hapart halike
  rw [hok']
  funext q
  by_cases hsrcq : src <+: q
  · obtain ⟨r, rfl⟩ := hsrcq
    rw [hmoved.left r trivial, hmoved'.left r trivial]
  · by_cases hdstq : dst <+: q
    · obtain ⟨r, rfl⟩ := hdstq
      rw [hmoved.arrived r trivial, hmoved'.arrived r trivial]
    · rw [hmoved.fixed q hsrcq hdstq, hmoved'.fixed q hsrcq hdstq]

/-! ### A merge that succeeds -/

/-- A rename that succeeds, other than of a directory to a directory, meets nothing of another
kind. -/
lemma alike_of_rename (h : fs.rename src dst = .ok fs') (hne : src ≠ dst)
    (hdirs : ¬(fs.isDir src && fs.isDir dst) = true) : Alike fs src dst := by
  have hbelow : ∀ {p : RelPath} {x : String} {r : RelPath} {n : Node},
      fs.node (p ++ x :: r) = some n → fs.node p = some .dir := fun {p x r n} hn =>
    fs.dir_of_below (x := x) (q := r) (by simp [hn])
  intro r n m hn hm
  cases r with
  | cons x r => exact absurd (by simp [hbelow hn, hbelow hm]) hdirs
  | nil =>
    rw [List.append_nil] at hn hm
    unfold rename at h
    rw [if_neg (by simp [hn]), if_neg hne] at h
    split_ifs at h with hgone hparent hmov hbare
    · split at h
      · cases h
      · cases h
      · next hfile hdir =>
        cases n with
        | dir =>
          cases m with
          | dir => exact Iff.rfl
          | file b => exact absurd hm (hdir b (by simp [isDir, hn]))
        | file b =>
          cases m with
          | dir => exact absurd hm (hfile (by simp [isDir, hn]))
          | file b' => simp
    · split at h <;> cases h

/-- Moving entries one after the other, when each move that succeeds shows that nothing of another
kind was in its way. -/
lemma alike_foldl {fs : Fs} {move : Except Error Unit × Fs → String → Except Error Unit × Fs}
    (hapart : Apart src dst) (names : List String) (hnodup : names.Nodup)
    (herror : ∀ e fs₁ x, move (.error e, fs₁) x = (.error e, fs₁))
    (hmove : ∀ x ∈ names, ∀ fs₁ fs₂, fs₁.node dst = fs.node dst →
      (∀ r, fs₁.node (src ++ x :: r) = fs.node (src ++ x :: r)) →
      move (.ok (), fs₁) x = (.ok (), fs₂) → Alike fs₁ (src ++ [x]) (dst ++ [x]) ∧
        Moved (fun _ => True) (src ++ [x]) (dst ++ [x]) fs₁ fs₂)
    (hok : (names.foldl move (.ok (), fs)).1 = .ok ()) :
    ∀ x ∈ names, Alike fs (src ++ [x]) (dst ++ [x]) := by
  have hstuck : ∀ (names : List String) e fs₁,
      (names.foldl move (.error e, fs₁)).1 = .error e := by
    intro names
    induction names with
    | nil => exact fun _ _ => rfl
    | cons x names ih => exact fun e fs₁ => by rw [List.foldl_cons, herror, ih]
  induction names generalizing fs with
  | nil => exact nofun
  | cons x names ih =>
    obtain ⟨hx, hnodup⟩ := List.nodup_cons.mp hnodup
    rw [List.foldl_cons] at hok
    rcases hfirst : move (.ok (), fs) x with ⟨res, fs₁⟩
    rw [hfirst] at hok
    cases res with
    | error e => exact absurd ((hstuck names e fs₁).symm.trans hok) (by simp)
    | ok u =>
      obtain ⟨halike, hmoved⟩ := hmove x (.head _) fs fs₁ rfl (fun _ => rfl) hfirst
      replace hmoved := hmoved.of_child hapart
      have hdst : fs₁.node dst = fs.node dst := by
        simpa using (hmoved.waiting [] (by simp)).2
      have hother : ∀ y ∈ names, ∀ r, ¬[x] <+: y :: r := by
        rintro y hy r ⟨s, hs⟩
        exact hx ((List.cons.inj hs).1 ▸ hy)
      have hrest := ih hnodup (fun y hy fs₂ fs₃ h hbelow h' => hmove y (.tail _ hy) fs₂ fs₃
        (h.trans hdst) (fun r => (hbelow r).trans (hmoved.waiting _ (hother y hy r)).1) h') hok
      refine List.forall_mem_cons.mpr ⟨halike, fun y hy r n m hn hm => ?_⟩
      obtain ⟨hsame, hsame'⟩ := hmoved.waiting _ (hother y hy r)
      refine hrest y hy r n m ?_ ?_
      · rw [List.append_assoc, List.singleton_append, hsame]
        simpa using hn
      · rw [List.append_assoc, List.singleton_append, hsame']
        simpa using hm

/-- With fuel for the depth of the source. -/
lemma alike_of_mergeMoveDirInAux {list : Fs → RelPath → List String} (hlist : Listing list)
    (fuel : ℕ) (hsrc : fs.node src = some .dir) (hdst : fs.node dst = some .dir)
    (hapart : Apart src dst) (hfuel : ∀ r, fs.node (src ++ r) ≠ none → r.length < fuel)
    (hok : (mergeMoveDirInAux list fuel src dst fs).1 = .ok ()) : Alike fs src dst := by
  induction fuel generalizing fs src dst with
  | zero => cases hok
  | succ fuel ih =>
    unfold mergeMoveDirInAux at hok
    rw [createDirAll_of_dir hdst] at hok
    simp only [isDir_iff.mpr hsrc, if_true] at hok
    have hentries := @alike_foldl src dst fs _ hapart (list fs src)
      ((hlist fs src).nodup_iff.mpr (children_nodup src)) (fun _ _ _ => rfl)
      (fun x hx fs₁ fs₂ hdst' hbelow hstep => ?_) (by
        split at hok
        · cases hok
        · next heq => exact congrArg Prod.fst heq)
    · intro r n m hn hm
      cases r with
      | nil =>
        rw [List.append_nil, hsrc] at hn
        rw [List.append_nil, hdst] at hm
        rw [← Option.some.inj hn, ← Option.some.inj hm]
      | cons x r =>
        have hx : x ∈ list fs src := by
          refine (hlist fs src).mem_iff.mpr (mem_children.mpr ?_)
          cases r with
          | nil => simpa using congrArg (· ≠ none) hn
          | cons y r =>
            rw [fs.dir_of_below (x := y) (q := r) (by simp [hn])]
            simp
        exact hentries x hx r n m (by simpa using hn) (by simpa using hm)
    · have hchild : ∀ r, fs₁.node (src ++ [x] ++ r) = fs.node (src ++ x :: r) := fun r => by
        rw [List.append_assoc, List.singleton_append, hbelow]
      simp only at hstep
      split_ifs at hstep with hdirs
      · obtain ⟨hsrc', hdst''⟩ := Bool.and_eq_true_iff.mp hdirs
        have hfuel' : ∀ r, fs₁.node (src ++ [x] ++ r) ≠ none → r.length < fuel := by
          intro r hr
          rw [hchild] at hr
          have := hfuel (x :: r) hr
          simp only [List.length_cons] at this
          omega
        have halike := ih (isDir_iff.mp hsrc') (isDir_iff.mp hdst'') (hapart.child x) hfuel'
          (by rw [hstep])
        obtain ⟨fs', hmerge, hmoved⟩ := moved_mergeMoveDirInAux hlist fuel (isDir_iff.mp hsrc')
          (isDir_iff.mp hdst'') (hapart.child x) halike hfuel'
        rw [hmerge] at hstep
        obtain rfl := congrArg Prod.snd hstep
        exact ⟨halike, hmoved⟩
      · have hthere : fs₁.node (src ++ [x]) ≠ none := by
          rw [← List.append_nil (src ++ [x]), hchild]
          exact mem_children.mp ((hlist fs src).mem_iff.mp hx)
        have hne : src ++ [x] ≠ dst ++ [x] := fun heq =>
          (hapart.child x).outside (heq ▸ List.prefix_rfl)
        cases hrename : fs₁.rename (src ++ [x]) (dst ++ [x]) with
        | error e =>
          rw [hrename] at hstep
          cases hstep
        | ok fs' =>
          rw [hrename] at hstep
          obtain rfl := congrArg Prod.snd hstep
          have halike := alike_of_rename hrename hne hdirs
          refine ⟨halike, ?_⟩
          rcases moved_rename hthere (by simpa [hdst'] using hdst) (hapart.child x) halike with
            ⟨fs'', hok', hmoved⟩ | ⟨hfull, -⟩
          · rw [hrename] at hok'
            exact Except.ok.inj hok' ▸ hmoved
          · rw [hrename] at hfull
            cases hfull

/-- **A merge that succeeds** met nothing of another kind. -/
lemma alike_of_mergeMoveDirIn {list : Fs → RelPath → List String} (hlist : Listing list)
    (hsrc : fs.node src = some .dir) (hdst : fs.node dst = some .dir) (hapart : Apart src dst)
    (hok : (fs.mergeMoveDirIn list src dst).1 = .ok ()) : Alike fs src dst :=
  alike_of_mergeMoveDirInAux hlist _ hsrc hdst hapart (fun r hr => by
    have hlen := length_le_rows hr
    rw [List.length_append] at hlen
    omega) hok

/-- Two directories that share a file, `old` with a directory of its own. -/
def sampleOverlap : Fs :=
  ((FsCall.writeFile ["new", "a"] [66]).run ((FsCall.writeFile ["old", "a"] [65]).run
    ((FsCall.createDirAll ["new"]).run ((FsCall.createDirAll ["old", "sub"]).run empty).2).2).2).2

/-- `old` is merged into `new`. -/
theorem sampleOverlap_union :
    ∃ fs', sampleOverlap.mergeMoveDirIn children ["old"] ["new"] = (.ok (), fs') ∧
      (∀ r, fs'.node (["old"] ++ r) = none) ∧
      (∀ r, fs'.node (["new"] ++ r) =
        (sampleOverlap.node (["old"] ++ r)).or (sampleOverlap.node (["new"] ++ r))) ∧
      (∀ q, ¬["old"] <+: q → ¬["new"] <+: q → fs'.node q = sampleOverlap.node q) ∧
      ∀ list', Listing list' →
        (sampleOverlap.mergeMoveDirIn list' ["old"] ["new"]).2.node = fs'.node := by
  refine mergeMoveDir_union sampleOverlap ["old"] ["new"] (by decide) (by decide)
    ⟨by decide, by decide⟩ (fun r n m hn hm => ?_) children listing_children
  have hrows : ∀ x ∈ sampleOverlap.nodes.rows, ∀ y ∈ sampleOverlap.nodes.rows,
      x.1.head? = some "old" → y.1.head? = some "new" → x.1.tail = y.1.tail →
        (x.2 = .dir ↔ y.2 = .dir) := by decide
  exact hrows (["old"] ++ r, n) (Data.FinMap.val_eq_some.mp hn) (["new"] ++ r, m)
    (Data.FinMap.val_eq_some.mp hm) rfl rfl rfl

/-! ## Making directories -/

/-- Directories can be made below a directory when no file is in the way. -/
lemma createDirs_ok {pre rest : RelPath} (hpre : fs.node pre = some .dir)
    (hfree : ∀ q, q <+: rest → ∀ b, fs.node (pre ++ q) ≠ some (.file b)) :
    ∃ fs', fs.createDirs pre rest = .ok fs' := by
  induction rest generalizing fs pre with
  | nil => exact ⟨fs, rfl⟩
  | cons x rest ih =>
    have hnext : ∀ q, q <+: rest → ∀ b, fs.node (pre ++ [x] ++ q) ≠ some (.file b) := by
      intro q hq b
      have hfile := hfree (x :: q) (by simpa using hq) b
      simpa using hfile
    simp only [createDirs]
    split
    · next hdir => exact ih hdir hnext
    · next b hfile => exact absurd hfile (hfree [x] (by simp) b)
    · next hnone =>
      have hleaf : pre ++ [x] ≠ [] ∧ fs.node (pre ++ [x]).dropLast = some .dir ∧
          fs.node (pre ++ [x]) ≠ some .dir := ⟨by simp, by simpa using hpre, by simp [hnone]⟩
      simp only [dif_pos hleaf]
      refine ih node_setLeaf_self fun q hq b => ?_
      by_cases hq' : q = []
      · rw [hq', List.append_nil, node_setLeaf_self]
        simp
      · rw [node_setLeaf_ne (by simpa using hq')]
        exact hnext q hq b

lemma createDirAll_ok {p : RelPath} (hfree : ∀ q, q <+: p → ∀ b, fs.node q ≠ some (.file b)) :
    ∃ fs', fs.createDirAll p = .ok fs' :=
  createDirs_ok rfl (by simpa using hfree)

/-- What making directories does to a node. -/
lemma node_createDirAll_cases {p : RelPath} (h : fs.createDirAll p = .ok fs') (q : RelPath) :
    fs'.node q = fs.node q ∨ fs.node q = none ∧ fs'.node q = some .dir ∧ q <+: p := by
  cases hold : fs.node q with
  | some n => exact .inl (by rw [node_createDirAll h (by simp [hold]), hold])
  | none =>
    cases hnew : fs'.node q with
    | none => exact .inl rfl
    | some n =>
      cases n with
      | file b =>
        rw [(file_createDirAll_iff h).mp hnew] at hold
        cases hold
      | dir =>
        refine .inr ⟨rfl, rfl, ?_⟩
        rcases dir_of_createDirs_dir h hnew with hdir | hprefix
        · rw [hdir] at hold
          cases hold
        · simpa using hprefix

/-! ## Where files come from -/

/-- Every file has the bytes of a file that was there. -/
def FilesFrom (fs fs' : Fs) : Prop :=
  ∀ q b, fs'.node q = some (.file b) → ∃ p, fs.node p = some (.file b)

lemma FilesFrom.refl (fs : Fs) : FilesFrom fs fs := fun q _ h => ⟨q, h⟩

lemma FilesFrom.trans (h : FilesFrom fs fs₁) (h' : FilesFrom fs₁ fs') : FilesFrom fs fs' := by
  intro q b hq
  obtain ⟨p, hp⟩ := h' q b hq
  exact h p b hp

lemma filesFrom_createDirAll {p : RelPath} (h : fs.createDirAll p = .ok fs') : FilesFrom fs fs' :=
  fun q _ hq => ⟨q, (file_createDirAll_iff h).mp hq⟩

/-- A node of a moved tree was at the place that it was moved from, or where it is. -/
lemma node_moveTree_from {h : fs.Movable src dst} {q : RelPath} {n : Node} (hq : q ≠ [])
    (hn : (fs.moveTree src dst h).node q = some n) :
    (∃ r, q = dst ++ r ∧ fs.node (src ++ r) = some n) ∨
      (¬src <+: q ∧ fs.node q = some n) := by
  rw [node_of_ne_nil _ hq] at hn
  have hmem : (q, n) ∈ (fs.nodes.move (relocate src dst) (relocate_inj src dst)).rows :=
    Data.FinMap.val_eq_some.mp hn
  rcases Data.FinMap.mem_move.mp hmem with ⟨j, hj, hjq⟩ | ⟨hkeep, hout, -⟩
  · obtain ⟨r, rfl, rfl⟩ := relocate_eq_some.mp hjq
    refine .inl ⟨r, rfl, ?_⟩
    rw [node_of_ne_nil _ (by simp [h.ne_nil.1])]
    exact Data.FinMap.val_eq_some.mpr hj
  · refine .inr ⟨relocate_eq_none.mp hout, ?_⟩
    rw [node_of_ne_nil _ hq]
    exact Data.FinMap.val_eq_some.mpr hkeep

/-- A rename does nothing, or moves a tree. -/
lemma rename_cases (h : fs.rename src dst = .ok fs') :
    src = dst ∧ fs' = fs ∨ ∃ hmov : fs.Movable src dst, fs' = fs.moveTree src dst hmov := by
  unfold rename at h
  split_ifs at h with hnone hgone hdir hsame hmov hbare
  · exact .inl ⟨hsame, (Except.ok.inj h).symm⟩
  · split at h
    · cases h
    · cases h
    · exact .inr ⟨_, (Except.ok.inj h).symm⟩
  · split at h <;> cases h

lemma filesFrom_rename (h : fs.rename src dst = .ok fs') : FilesFrom fs fs' := by
  intro q b hq
  rcases rename_cases h with ⟨-, rfl⟩ | ⟨hmov, rfl⟩
  · exact ⟨q, hq⟩
  · have hne : q ≠ [] := by
      rintro rfl
      simp at hq
    rcases node_moveTree_from hne hq with ⟨r, -, hr⟩ | ⟨-, hr⟩
    · exact ⟨_, hr⟩
    · exact ⟨q, hr⟩

/-- Where the files are when a file was renamed. -/
lemma file_of_rename_file {b b' : Bytes} {q : RelPath} (hsrc : fs.node src = some (.file b))
    (h : fs.rename src dst = .ok fs') (hq : fs'.node q = some (.file b')) :
    q = dst ∨ fs.node q = some (.file b') ∧ q ≠ src := by
  have hne : q ≠ [] := by
    rintro rfl
    simp at hq
  rcases rename_cases h with ⟨rfl, rfl⟩ | ⟨hmov, rfl⟩
  · by_cases hqs : q = src
    · exact .inl hqs
    · exact .inr ⟨hq, hqs⟩
  · rcases node_moveTree_from hne hq with ⟨r, rfl, hr⟩ | ⟨hout, hr⟩
    · cases r with
      | nil => exact .inl (List.append_nil dst)
      | cons x r =>
        have hdir := fs.dir_of_below (p := src) (x := x) (q := r) (by simp [hr])
        simp [hsrc] at hdir
    · refine .inr ⟨hr, ?_⟩
      rintro rfl
      exact hout List.prefix_rfl

lemma filesFrom_removeDir (h : fs.removeDir src = .ok fs') : FilesFrom fs fs' := by
  intro q b hq
  unfold removeDir at h
  split at h
  · cases h
  · cases h
  · split_ifs at h with hempty hne
    obtain rfl := Except.ok.inj h
    rw [node_removeTree] at hq
    split_ifs at hq
    exact ⟨q, hq⟩

/-- **A merge makes no files**, not even when it is given up halfway. -/
lemma filesFrom_mergeMoveDirAux (fuel : ℕ) : ∀ {src dst : RelPath} {fs : Fs},
    FilesFrom fs (mergeMoveDirAux fuel src dst fs).2 := by
  induction fuel with
  | zero => exact FilesFrom.refl _
  | succ fuel ih =>
    intro src dst fs
    rw [mergeMoveDirAux]
    cases hmade : fs.createDirAll dst with
    | error e => exact .refl fs
    | ok fs₁ =>
      refine (filesFrom_createDirAll hmade).trans ?_
      simp only
      split_ifs
      · generalize fs₁.children src = names
        suffices hfold : ∀ (names : List String) (acc : Except Error Unit × Fs),
            FilesFrom fs₁ acc.2 → FilesFrom fs₁ (names.foldl (fun (acc : Except Error Unit × Fs) name =>
              match acc with
              | (.error e, fs) => (.error e, fs)
              | (.ok (), fs) =>
                if fs.isDir (src ++ [name]) && fs.isDir (dst ++ [name]) then
                  mergeMoveDirAux fuel (src ++ [name]) (dst ++ [name]) fs
                else
                  match fs.rename (src ++ [name]) (dst ++ [name]) with
                  | .ok fs' => (.ok (), fs')
                  | .error e => (.error e, fs)) acc).2 by
          have hall := hfold names (.ok (), fs₁) (.refl fs₁)
          revert hall
          generalize names.foldl _ (Except.ok (), fs₁) = res
          intro hall
          obtain ⟨x, fs₂⟩ := res
          cases x with
          | error e => exact hall
          | ok u =>
            simp only
            cases hremoved : fs₂.removeDir src with
            | error e => exact hall
            | ok fs₃ => exact hall.trans (filesFrom_removeDir hremoved)
        intro names
        induction names with
        | nil => exact fun acc h => h
        | cons name names ihn =>
          intro acc h
          rw [List.foldl_cons]
          apply ihn
          obtain ⟨x, fs₂⟩ := acc
          cases x with
          | error e => exact h
          | ok u =>
            simp only
            split_ifs
            · exact h.trans ih
            · cases hren : fs₂.rename (src ++ [name]) (dst ++ [name]) with
              | error e => exact h
              | ok fs₃ => exact h.trans (filesFrom_rename hren)
      · exact .refl fs₁

lemma filesFrom_mergeMoveDir (fs : Fs) (src dst : RelPath) :
    FilesFrom fs (fs.mergeMoveDir src dst).2 := filesFrom_mergeMoveDirAux _

end AirDrive.Fs
