import AirDrive.Drive.Delivery

set_option relaxedAutoImplicit false
set_option autoImplicit false

/-!
# The paths that the poller emits

The poller puts a path together from the cached path of the first known folder above an object
and the names of the folders below it, which it has just read. The names below are up to date, so
the path is right exactly when the cached one is. A tick leaves every entry of its cache right
that was right before; what makes an entry wrong is a rename or a move of a folder above it
between two ticks, since a change of a folder renews the entry of that folder only.

## Main definitions

* `AirDrive.Poller.DirPath`, `AirDrive.Poller.ObjectPath` — where a folder and an object lie below
  the mapped folder.
* `AirDrive.Poller.Ticks` — the cache after a sequence of ticks, whatever happens in between.
* `AirDrive.Poller.EmitsRight` — all paths a tick emits are those of the objects.
* `AirDrive.Poller.FoundBelow` — the folder of the cache from which a path is put together.
* `AirDrive.Poller.TrustsRight` — these folders lie where the cache has them.

## Main results

* `AirDrive.Poller.emits_of_found`, `AirDrive.Poller.found_or_silent` — what is emitted.
* `AirDrive.Poller.trustsRight_of_keeps` — no wrong path while folders stay where they are.
* `AirDrive.Poller.emits_right_iff` — when all emitted paths are right.
-/

namespace AirDrive.Poller

open Effect Data Remote

variable (env : Env)

/-! ## Where objects lie -/

section Paths

variable {d : Drive} {root : FileId}

/-- The id names the mapped folder. -/
def IsRoot (d : Drive) (root : FileId) (id : FileId) : Prop := d.resolve id = d.resolve root

/-- The folder lies below the mapped folder at this path: the folders passed on the climb to the
mapped folder have these names. -/
def DirPath (d : Drive) (root id : FileId) (path : RelPath) : Prop :=
  ∃ ids top, Climb d.parentOf (IsRoot d root) id ids top ∧ path = ids.reverse.map d.nameOf

/-- The object lies below the mapped folder at this path. -/
def ObjectPath (d : Drive) (root : FileId) (f : FileResource) (path : RelPath) : Prop :=
  ∃ p dir, f.parents.head? = some p ∧ DirPath d root p dir ∧ path = dir ++ [f.name]

/-- A folder lies at one path at most. -/
lemma DirPath.unique {id : FileId} {path path' : RelPath} (h : DirPath d root id path)
    (h' : DirPath d root id path') : path = path' := by
  obtain ⟨ids, top, hclimb, rfl⟩ := h
  obtain ⟨ids', top', hclimb', rfl⟩ := h'
  rw [(hclimb.unique hclimb').1]

/-- An object lies at one path at most. -/
lemma ObjectPath.unique {f : FileResource} {path path' : RelPath} (h : ObjectPath d root f path)
    (h' : ObjectPath d root f path') : path = path' := by
  obtain ⟨p, dir, hp, hdir, rfl⟩ := h
  obtain ⟨p', dir', hp', hdir', rfl⟩ := h'
  obtain rfl : p = p' := Option.some.inj (hp.symm.trans hp')
  rw [hdir.unique hdir']

/-- The mapped folder lies at the empty path. -/
lemma dirPath_root : DirPath d root root [] := ⟨[], root, .here rfl, rfl⟩

/-- **The path of a folder** is the path of any folder that a climb from it ends at before
the mapped folder, and the names passed on the way. -/
lemma dirPath_climb_iff {stop : FileId → Prop} {id top : FileId} {ids : List FileId}
    {path : RelPath} (hclimb : Climb d.parentOf stop id ids top)
    (hpass : ∀ x ∈ ids, ¬IsRoot d root x) :
    DirPath d root id (path ++ ids.reverse.map d.nameOf) ↔ DirPath d root top path := by
  constructor
  · rintro ⟨l, b, hl, hpath⟩
    obtain ⟨m, rfl, hm⟩ := (hclimb.further hpass).mp hl
    rw [List.reverse_append, List.map_append, List.append_cancel_right_eq] at hpath
    exact ⟨m, b, hm, hpath⟩
  · rintro ⟨m, b, hm, rfl⟩
    refine ⟨ids ++ m, b, (hclimb.further hpass).mpr ⟨m, rfl, hm⟩, ?_⟩
    rw [List.reverse_append, List.map_append]

end Paths

/-! ## What is emitted -/

/-- The poller finds the path of a changed object from the folder `top`, which it has in its
cache at `path`, past the folders `ids`: their names and the name of the object are safe, and
their lookups are answered. -/
structure FoundBelow (cache : PathCache) (w : World) (c : RawChange) (f : FileResource)
    (ids : List FileId) (top : FileId) (path : RelPath) : Prop where
  /-- The object is there. -/
  present : c.removed = false ∧ c.file = some f
  /-- The folder is the first known one above the object. -/
  climb : ∃ p, f.parents.head? = some p ∧
    Climb w.remote.drive.parentOf (Known cache) p ids top
  /-- All names on the way are safe. -/
  safe : isSafeName f.name = true ∧ ∀ x ∈ ids, isSafeName (w.remote.drive.nameOf x) = true
  /-- The lookups are answered. -/
  answered : Answered w.remote.faults ids.length
  /-- The folder is in the cache. -/
  cached : cache.val top = some path

/-- The names of the folders passed, outermost first. -/
lemma names_reverse_named (d : Drive) (ids : List FileId) :
    (named d ids).reverse.map Prod.snd = ids.reverse.map d.nameOf := by
  rw [named, ← List.map_reverse, List.map_map]
  rfl

/-- A path is only assembled of safe names. -/
lemma safe_of_assemblePath {cache cache' : PathCache} {path rel : RelPath}
    {chain : List (FileId × String)} {name : String}
    (h : assemblePath cache path chain name = (some rel, cache')) :
    isSafeName name = true ∧ ∀ c ∈ chain, isSafeName c.2 = true := by
  unfold assemblePath at h
  split_ifs at h with hunsafe
  · simp at h
  · simpa using hunsafe

/-- A path that is not assembled leaves the cache alone. -/
lemma cache_of_unsafe {cache cache' : PathCache} {path : RelPath}
    {chain : List (FileId × String)} {name : String}
    (h : assemblePath cache path chain name = (none, cache')) : cache' = cache := by
  unfold assemblePath at h
  split_ifs at h
  · exact (congrArg Prod.snd h).symm
  · simp at h

/-- A change whose object is found below a folder of the cache is emitted with the path of that
folder and the names read. -/
lemma emits_of_found {fuel : ℕ} (root : FileId) {cache : PathCache} {w : World} {c : RawChange}
    {f : FileResource} {ids : List FileId} {top : FileId} {path : RelPath}
    (h : FoundBelow cache w c f ids top path) (hfuel : size w.remote.drive + 1 < fuel) :
    ∃ w', (processChange fuel root cache c).run (handle env) w =
      (.ok (some ⟨c.fileId, false, some f,
          some (path ++ ids.reverse.map w.remote.drive.nameOf ++ [f.name])⟩,
        if f.isFolder then
          (cacheChain cache path (named w.remote.drive ids).reverse).set f.id
            (path ++ ids.reverse.map w.remote.drive.nameOf ++ [f.name])
        else cacheChain cache path (named w.remote.drive ids).reverse), w') := by
  obtain ⟨p, hhead, hclimb⟩ := h.climb
  have hlen := climb_length_le hclimb
  obtain ⟨path', hpath', hwalk⟩ := @walkUp_of_climb env _ fuel _ _ _ [] _ hclimb (by omega)
    h.answered
  obtain rfl : path = path' := Option.some.inj (h.cached.symm.trans hpath')
  have hchain : ∀ x ∈ [] ++ named w.remote.drive ids, isSafeName x.2 = true := by
    intro x hx
    obtain ⟨y, hy, rfl⟩ := List.mem_map.mp (by simpa using hx : x ∈ named w.remote.drive ids)
    exact h.safe.2 y hy
  have hfound := run_descendantPath env hhead hwalk
  simp only [assemblePath_safe h.safe.1 hchain] at hfound
  simp only [List.nil_append, names_reverse_named] at hfound
  exact ⟨_, run_processChange env h.present.1 h.present.2 hfound⟩

/-- **A path is emitted**, and the cache changed, only for an object that is found below a folder
of the cache.

**Proof sketch.** A walk that ended at a folder of the cache followed a climb to it, and all its
lookups were answered; that a path was assembled means that the names were safe. -/
lemma found_or_silent {fuel : ℕ} {root : FileId} {cache cache' : PathCache} {w w' : World}
    {c : RawChange} {o : Option RemoteChange} (hfuel : size w.remote.drive + 1 < fuel)
    (h : (processChange fuel root cache c).run (handle env) w = (.ok (o, cache'), w')) :
    (∃ f ids top path, FoundBelow cache w c f ids top path) ∨
      cache' = cache ∧ ∀ r, o = some r → r.removed = true := by
  have hsilent : ∀ (o' : Option RemoteChange) (v : World),
      (processChange fuel root cache c).run (handle env) w = (.ok (o', cache), v) →
      (∀ r, o' = some r → r.removed = true) →
        cache' = cache ∧ ∀ r, o = some r → r.removed = true := by
    intro o' v hrun hremoved
    rw [h] at hrun
    obtain ⟨⟨rfl, rfl⟩, -⟩ : (o = o' ∧ cache' = cache) ∧ w' = v := by simpa using hrun
    exact ⟨rfl, hremoved⟩
  by_cases hremoved : c.removed = true
  · right
    by_cases hroot : c.fileId = root
    · refine hsilent none { w with db := (DbCall.run (.setBlocked .remote) w.db).2 } ?_ (by simp)
      simp [processChange, hremoved, hroot, sql]
    · refine hsilent (some ⟨c.fileId, true, c.file, none⟩) w ?_ (by simp)
      simp [processChange, hremoved, hroot]
  have hpresent : c.removed = false := by simpa using hremoved
  cases hf : c.file with
  | none => exact .inr (hsilent none w (by simp [processChange, hpresent, hf]) (by simp))
  | some f =>
    cases hhead : f.parents.head? with
    | none =>
      have hpath : (descendantPath fuel cache f).run (handle env) w = (.ok (none, cache), w) := by
        simp [descendantPath, List.head?_eq_none_iff.mp hhead]
      exact .inr (hsilent _ _ (run_processChange env hpresent hf hpath) (by simp))
    | some p =>
      obtain ⟨o', rem, hwalk, -⟩ := run_walkUp env cache fuel p [] w
      have hfound := run_descendantPath env hhead hwalk
      cases o' with
      | none => exact .inr (hsilent _ _ (run_processChange env hpresent hf hfound) (by simp))
      | some found =>
        obtain ⟨path, chain⟩ := found
        obtain ⟨ids, top, hclimb, hans⟩ := climb_of_walkUp env hwalk
        have hlen := climb_length_le hclimb
        obtain ⟨path', hcached, hwalk'⟩ := @walkUp_of_climb env _ fuel _ _ _ [] _ hclimb
          (by omega) hans
        rw [hwalk'] at hwalk
        obtain ⟨⟨rfl, rfl⟩, -⟩ : (path' = path ∧ [] ++ named w.remote.drive ids = chain) ∧ _ := by
          simpa using hwalk
        rcases hassemble :
          assemblePath cache path' ([] ++ named w.remote.drive ids) f.name with ⟨rel, cache₂⟩
        simp only [hassemble] at hfound
        cases rel with
        | none =>
          obtain rfl : cache₂ = cache := cache_of_unsafe hassemble
          exact .inr (hsilent _ _ (run_processChange env hpresent hf hfound) (by simp))
        | some rel =>
          obtain ⟨hname, hnames⟩ := safe_of_assemblePath hassemble
          refine .inl ⟨f, ids, top, path', ⟨hpresent, hf⟩, ⟨p, hhead, hclimb⟩, ⟨hname, ?_⟩, hans,
            hcached⟩
          intro x hx
          have hmem : (x, w.remote.drive.nameOf x) ∈ named w.remote.drive ids :=
            List.mem_map.mpr ⟨x, hx, rfl⟩
          exact hnames _ (by simpa using hmem)

/-! ## Ticks -/

/-- The cache of a poller after ticks in these worlds, one after the other. What happens to the
world between two ticks is left open. -/
inductive Ticks (fuel : ℕ) (root : FileId) : List World → PathCache → Prop
  | start : Ticks fuel root [] (seedCache root)
  | tick {ws : List World} {cache cache' : PathCache} {w w' : World} {sent : Option RemoteBatch}
      (before : Ticks fuel root ws cache)
      (run : (tick fuel root cache).run (handle env) w = (.ok (sent, cache'), w')) :
      Ticks fuel root (ws ++ [w]) cache'

/-- Every path that the tick emits for a change that is no removal is the path of its object. -/
def EmitsRight (fuel : ℕ) (root : FileId) (cache : PathCache) (w : World) : Prop :=
  ∀ batch cache' w', (tick fuel root cache).run (handle env) w = (.ok (some batch, cache'), w') →
    ∀ r ∈ batch.changes, r.removed = false →
      ∃ f path, r.file = some f ∧ r.relativePath = some path ∧
        ObjectPath w.remote.drive root f path

/-- In the tick, the folders of the cache from which paths are put together lie where the cache
has them. -/
def TrustsRight (fuel : ℕ) (root : FileId) (cache : PathCache) (w : World) : Prop :=
  ∀ token, w.db.cursor = some token → w.remote.faults.headD none = none →
    ∀ c cache₁ w₁, ComesTo env fuel root cache (polled w)
      (w.remote.drive.changesSince env.md5 token) c cache₁ w₁ →
      ∀ f ids top path, FoundBelow cache₁ w₁ c f ids top path →
        DirPath w.remote.drive root top path

/-- All folders passed on a climb from a folder with an id of its own have one. -/
lemma climb_passed_id {d : Drive} {stop : FileId → Prop} {id top : FileId} {ids : List FileId}
    (h : Climb d.parentOf stop id ids top) (hid : id ≠ .rootAlias) : ∀ x ∈ ids, x ≠ .rootAlias := by
  induction h with
  | here _ => simp
  | step _ hup _ ih =>
    obtain ⟨-, n, -, -, rfl⟩ := Drive.parentOf_eq_some.mp hup
    intro x hx
    rcases List.mem_cons.mp hx with rfl | hx
    · exact hid
    · exact ih (by simp) x hx

/-- The way to the first folder of a cache does not lead past the mapped folder. -/
lemma passes_no_root {root : FileId} {cache : PathCache} {w : World} {c : RawChange}
    {f : FileResource} {ids : List FileId} {top : FileId} {path : RelPath}
    (hcache : FromRoot root cache) (hdesc : Described c)
    (h : FoundBelow cache w c f ids top path) :
    ∀ x ∈ ids, ¬IsRoot w.remote.drive root x := by
  obtain ⟨p, hhead, hclimb⟩ := h.climb
  have hp : p ≠ .rootAlias := hdesc f h.present.2 p (List.mem_of_head? hhead)
  intro x hx hroot
  have hxid := climb_passed_id hclimb hp x hx
  cases root with
  | rootAlias =>
    obtain ⟨n, rfl⟩ := climb_end_id hclimb hp
    exact hcache.2 rfl n hclimb.stop_end
  | id ρ =>
    cases x with
    | rootAlias => exact hxid rfl
    | id n =>
      obtain rfl : n = ρ := hroot
      exact (hclimb.passed hx).1 hcache.1

/-- An object that is found lies at the path that is put together exactly when the folder of the
cache lies where the cache has it. -/
lemma objectPath_found_iff {root : FileId} {cache : PathCache} {w : World} {c : RawChange}
    {f : FileResource} {ids : List FileId} {top : FileId} {path : RelPath}
    (hcache : FromRoot root cache) (hdesc : Described c)
    (h : FoundBelow cache w c f ids top path) :
    ObjectPath w.remote.drive root f
        (path ++ ids.reverse.map w.remote.drive.nameOf ++ [f.name]) ↔
      DirPath w.remote.drive root top path := by
  obtain ⟨p, hhead, hclimb⟩ := h.climb
  rw [← dirPath_climb_iff hclimb (passes_no_root hcache hdesc h)]
  constructor
  · rintro ⟨p', dir, hhead', hdir, hpath⟩
    obtain rfl : p = p' := Option.some.inj (hhead.symm.trans hhead')
    obtain rfl := List.append_cancel_right hpath
    exact hdir
  · intro hdir
    exact ⟨p, _, hhead, hdir, rfl⟩

/-- What the poller comes to in a list: Drive is as it was, and the cache holds its root. -/
lemma comesTo_spec {fuel : ℕ} {root : FileId} {cache cache₁ : PathCache} {w w₁ : World}
    {l : List RawChange} {c : RawChange} (hcache : FromRoot root cache)
    (hdesc : ∀ x ∈ l, Described x) (h : ComesTo env fuel root cache w l c cache₁ w₁) :
    c ∈ l ∧ w₁.remote.drive = w.remote.drive ∧ FromRoot root cache₁ := by
  obtain ⟨pre, post, kept, rfl, hrun⟩ := h
  obtain ⟨kept', cache', w', hrun', hdrive, hgrows, hstuck⟩ :=
    processChanges_spec env fuel root cache pre w
  rw [hrun] at hrun'
  obtain ⟨⟨-, rfl⟩, rfl⟩ : ((kept = kept') ∧ cache₁ = cache') ∧ w₁ = w' := by simpa using hrun'
  refine ⟨by simp, hdrive, hgrows _ hcache.1, fun halias => ?_⟩
  rw [hstuck (fun x hx => hdesc x (by simp [hx])) (hcache.2 halias)]
  exact hcache.2 halias

/-- **The paths of one tick** are right exactly when the folders they start from lie where the
cache has them.

**Proof sketch.** A path is emitted only for an object that is found below a folder of the cache
(`found_or_silent`), and then with the path of that folder and the names read on the way
(`emits_of_found`). Drive does not change during the tick, so these names are right. -/
lemma emitsRight_iff_trustsRight {fuel : ℕ} {root : FileId} {cache : PathCache} {w : World}
    (hcache : FromRoot root cache) (hfuel : size w.remote.drive + 1 < fuel) :
    EmitsRight env fuel root cache w ↔ TrustsRight env fuel root cache w := by
  constructor
  · intro hright token hcursor hnow c cache₁ w₁ hcomes f ids top path hfound
    obtain ⟨hc, hdrive, hcache₁⟩ :=
      comesTo_spec env hcache (fun x hx => described_of_mem env hx) hcomes
    obtain ⟨kept, cache', w', hrun, -⟩ := processChanges_spec env fuel root cache
      (w.remote.drive.changesSince env.md5 token) (polled w)
    have hsent : (tick fuel root cache).run (handle env) w =
        (.ok (some ⟨kept, w.remote.drive.feed.length⟩, cache'), w') :=
      (tick_sends_iff env).mpr ⟨token, hcursor, hnow, rfl, hrun⟩
    have hdrive' : w₁.remote.drive = w.remote.drive := hdrive
    obtain ⟨w₂, hemits⟩ := emits_of_found env root hfound (by rw [hdrive']; exact hfuel)
    have hmem := (mem_processChanges env hrun _).mpr ⟨c, cache₁, w₁, _, _, hcomes, hemits⟩
    obtain ⟨f', path', hf', hpath', hobject⟩ := hright _ _ _ hsent _ hmem rfl
    obtain rfl : f = f' := Option.some.inj hf'
    obtain rfl : _ = path' := Option.some.inj hpath'
    rw [← hdrive'] at hobject ⊢
    exact (objectPath_found_iff hcache₁ (described_of_mem env hc) hfound).mp hobject
  · intro htrusts batch cache' w' hsent r hr hpresent
    obtain ⟨token, hcursor, hnow, -, hrun⟩ := (tick_sends_iff env).mp hsent
    obtain ⟨c, cache₁, w₁, cache₂, w₂, hcomes, hstep⟩ := (mem_processChanges env hrun r).mp hr
    obtain ⟨hc, hdrive, hcache₁⟩ :=
      comesTo_spec env hcache (fun x hx => described_of_mem env hx) hcomes
    have hdrive' : w₁.remote.drive = w.remote.drive := hdrive
    have hfuel₁ : size w₁.remote.drive + 1 < fuel := by rw [hdrive']; exact hfuel
    rcases found_or_silent env hfuel₁ hstep with ⟨f, ids, top, path, hfound⟩ | ⟨-, hremoved⟩
    · obtain ⟨w₃, hemits⟩ := emits_of_found env root hfound hfuel₁
      rw [hstep] at hemits
      obtain rfl := Option.some.inj (congrArg Prod.fst (Except.ok.inj (congrArg Prod.fst hemits)))
      have hdir := htrusts token hcursor hnow c cache₁ w₁ hcomes f ids top path hfound
      rw [← hdrive'] at hdir ⊢
      exact ⟨f, _, rfl, rfl,
        (objectPath_found_iff hcache₁ (described_of_mem env hc) hfound).mpr hdir⟩
    · rw [hremoved r rfl] at hpresent
      simp at hpresent

/-! ## A cache that is right stays right during a tick -/

/-- Every folder of the cache lies where the cache has it. -/
def CacheRight (d : Drive) (root : FileId) (cache : PathCache) : Prop :=
  ∀ x path, cache.val x = some path → DirPath d root x path

section CacheRight

variable {d : Drive} {root : FileId}

lemma CacheRight.set {cache : PathCache} {id : FileId} {path : RelPath}
    (h : CacheRight d root cache) (hid : DirPath d root id path) :
    CacheRight d root (cache.set id path) := by
  intro x path' hx
  by_cases hxid : x = id
  · subst hxid
    obtain rfl : path = path' := by simpa using hx
    exact hid
  · rw [FinMap.val_set_ne _ _ hxid] at hx
    exact h x path' hx

/-- The cache with a chain and one more folder below it. -/
lemma cacheChain_concat {cache : PathCache} {path : RelPath} {chain : List (FileId × String)}
    {c : FileId × String} : cacheChain cache path (chain ++ [c]) =
      (cacheChain cache path chain).set c.1 (path ++ chain.map Prod.snd ++ [c.2]) := by
  induction chain generalizing cache path with
  | nil => simp [cacheChain]
  | cons x chain ih =>
    rw [List.cons_append, cacheChain, ih, cacheChain]
    simp

/-- The folders passed on a climb enter the cache at their paths.

**Proof sketch.** Induction on the climb: the lowest folder enters last, and its path is that of
the end of the climb with all the names. -/
lemma CacheRight.cacheChain {stop : FileId → Prop} {cache : PathCache} {id top : FileId}
    {ids : List FileId} {path : RelPath} (h : CacheRight d root cache)
    (hclimb : Climb d.parentOf stop id ids top) (hpass : ∀ x ∈ ids, ¬IsRoot d root x)
    (htop : DirPath d root top path) :
    CacheRight d root (cacheChain cache path (named d ids).reverse) := by
  induction hclimb with
  | here _ => exact h
  | @step a b c l hstop hup hrest ih =>
    have hlower : DirPath d root a (path ++ (a :: l).reverse.map d.nameOf) :=
      (dirPath_climb_iff (.step hstop hup hrest) hpass).mpr htop
    have hcons : named d (a :: l) = (a, d.nameOf a) :: named d l := rfl
    rw [hcons, List.reverse_cons, cacheChain_concat, names_reverse_named]
    refine (ih (fun x hx => hpass x (List.mem_cons_of_mem _ hx)) htop).set ?_
    rw [List.reverse_cons, List.map_append, ← List.append_assoc] at hlower
    exact hlower

/-- The mapped folder does not lie below itself. -/
def Rooted (d : Drive) (root : FileId) : Prop :=
  ∀ x p path, IsRoot d root x → d.parentOf x = some p → ¬DirPath d root p path

/-- A changed folder enters the cache at its path. -/
lemma dirPath_of_objectPath {token : PageToken} {c : RawChange} {f : FileResource}
    {path : RelPath} (hrooted : Rooted d root) (hc : c ∈ d.changesSince env.md5 token)
    (hfile : c.file = some f) (h : ObjectPath d root f path) : DirPath d root f.id path := by
  obtain ⟨p, dir, hhead, hdir, rfl⟩ := h
  obtain ⟨e, -, rfl⟩ := List.mem_map.mp hc
  obtain ⟨g, hg, rfl⟩ := Option.map_eq_some_iff.mp hfile
  obtain ⟨hmem, hnum⟩ := Serial.get_eq_some.mp hg
  obtain ⟨n, hn, rfl⟩ : ∃ n, g.parents.head? = some n ∧ FileId.id n = p := by
    simpa [Drive.resource] using hhead
  obtain ⟨hfile', hup⟩ := parentOf_file hmem hn
  obtain ⟨ids, top, hclimb, rfl⟩ := hdir
  by_cases hroot : IsRoot d root (.id g.num)
  · exact absurd ⟨ids, top, hclimb, rfl⟩ (hrooted _ _ _ hroot hup)
  · refine ⟨.id g.num :: ids, top, .step hroot hup hclimb, ?_⟩
    simp [Drive.resource, Drive.nameOf, hfile']

/-- **One entry of the feed** leaves the cache right. -/
lemma cacheRight_processChange {fuel : ℕ} {cache cache' : PathCache} {token : PageToken}
    {c : RawChange} {w w' : World} {o : Option RemoteChange} (hcache : FromRoot root cache)
    (hrooted : Rooted w.remote.drive root) (hfuel : size w.remote.drive + 1 < fuel)
    (hc : c ∈ w.remote.drive.changesSince env.md5 token)
    (h : (processChange fuel root cache c).run (handle env) w = (.ok (o, cache'), w'))
    (hright : CacheRight w.remote.drive root cache) : CacheRight w.remote.drive root cache' := by
  rcases found_or_silent env hfuel h with ⟨f, ids, top, path, hfound⟩ | ⟨rfl, -⟩
  · have hdesc := described_of_mem env hc
    have htop : DirPath w.remote.drive root top path := hright top path hfound.cached
    have hobject := (objectPath_found_iff hcache hdesc hfound).mpr htop
    obtain ⟨w₁, hemits⟩ := emits_of_found env root hfound hfuel
    rw [h] at hemits
    obtain ⟨p, -, hclimb⟩ := hfound.climb
    have hchain := hright.cacheChain hclimb (passes_no_root hcache hdesc hfound) htop
    obtain rfl := congrArg Prod.snd (Except.ok.inj (congrArg Prod.fst hemits))
    simp only
    split_ifs
    · exact hchain.set (dirPath_of_objectPath env hrooted hc hfound.present.2 hobject)
    · exact hchain
  · exact hright

/-- **A list of changes** leaves the cache right. -/
lemma cacheRight_processChanges {fuel : ℕ} {cache cache' : PathCache} {token : PageToken}
    {l : List RawChange} {w w' : World} {kept : List RemoteChange} (hcache : FromRoot root cache)
    (hrooted : Rooted w.remote.drive root) (hfuel : size w.remote.drive + 1 < fuel)
    (hl : ∀ c ∈ l, c ∈ w.remote.drive.changesSince env.md5 token)
    (h : (processChanges fuel root cache l).run (handle env) w = (.ok (kept, cache'), w'))
    (hright : CacheRight w.remote.drive root cache) : CacheRight w.remote.drive root cache' := by
  induction l using List.reverseRecOn generalizing kept cache' w' with
  | nil =>
    obtain ⟨⟨-, rfl⟩, -⟩ : (([] : List RemoteChange) = kept ∧ cache = cache') ∧ w = w' := by
      simpa [processChanges] using h
    exact hright
  | append_singleton l c ih =>
    obtain ⟨kept₀, cache₀, w₀, hrun, hdrive, -⟩ := processChanges_spec env fuel root cache l w
    obtain ⟨o, cache₁, w₁, hnext, -⟩ := processChange_spec env fuel root cache₀ c w₀
    rw [run_processChanges_concat env hrun hnext] at h
    obtain ⟨⟨-, rfl⟩, -⟩ : ((kept₀ ++ o.toList = kept) ∧ cache₁ = cache') ∧ w₁ = w' := by
      simpa using h
    have hcache₀ : FromRoot root cache₀ :=
      (comesTo_spec env hcache (fun x hx => described_of_mem env (hl x hx))
        ⟨l, [], kept₀, rfl, hrun⟩).2.2
    have hright₀ := ih (fun x hx => hl x (by simp [hx])) hrun
    rw [← hdrive] at hrooted hfuel hright₀ hl ⊢
    exact cacheRight_processChange env hcache₀ hrooted hfuel (hl c (by simp)) hnext hright₀

/-- From a right cache only right paths come. -/
lemma trustsRight_of_cacheRight {fuel : ℕ} {cache : PathCache} {w : World}
    (hcache : FromRoot root cache) (hrooted : Rooted w.remote.drive root)
    (hfuel : size w.remote.drive + 1 < fuel) (hright : CacheRight w.remote.drive root cache) :
    TrustsRight env fuel root cache w := by
  rintro token - - c cache₁ w₁ ⟨pre, post, kept, hl, hrun⟩ f ids top path hfound
  have hpre : ∀ x ∈ pre, x ∈ (polled w).remote.drive.changesSince env.md5 token := by
    intro x hx
    show x ∈ w.remote.drive.changesSince env.md5 token
    rw [hl]
    simp [hx]
  have hright₁ : CacheRight (polled w).remote.drive root cache₁ :=
    cacheRight_processChanges env hcache hrooted hfuel hpre hrun hright
  exact hright₁ top path hfound.cached

end CacheRight

/-! ## Runs -/

/-- What a round does to the cache: nothing, or it sends a batch. -/
lemma tick_cache {fuel : ℕ} {root : FileId} {cache cache' : PathCache} {w w' : World}
    {sent : Option RemoteBatch}
    (h : (tick fuel root cache).run (handle env) w = (.ok (sent, cache'), w')) :
    cache' = cache ∨ ∃ token kept, (processChanges fuel root cache
      (w.remote.drive.changesSince env.md5 token)).run (handle env) (polled w) =
        (.ok (kept, cache'), w') := by
  cases sent with
  | some batch =>
    obtain ⟨token, -, -, -, hrun⟩ := (tick_sends_iff env).mp h
    exact .inr ⟨token, _, hrun⟩
  | none =>
    left
    simp only [tick, sql, Prog.bind_eq, Prog.lift_bind, Prog.run_call, handle_db, DbCall.run] at h
    cases hcursor : w.db.cursor with
    | none =>
      simp only [hcursor, Prog.pure_eq, Prog.run_pure, Prod.mk.injEq, Except.ok.injEq] at h
      exact h.1.2.symm
    | some token =>
      simp only [hcursor, request, Prog.attempt_call, Prog.attempt_ofExcept, Prog.call_bind,
        Prog.pure_bind, Prog.run_call, handle_drive] at h
      by_cases hnow : w.remote.faults.headD none = none
      · rw [Remote.send_answered hnow] at h
        simp only [DriveCall.run, Prog.run_call, handle_db] at h
        obtain ⟨kept, cache₁, w₁, hrun, -⟩ := processChanges_spec env fuel root cache
          (w.remote.drive.changesSince env.md5 token) (polled w)
        unfold polled at hrun
        rw [Prog.run_bind_ok _ hrun] at h
        simp at h
      · obtain ⟨e, he⟩ := @Remote.send_faulty _ env.md5 (.changesSince token) _ hnow
        rw [he] at h
        simp only [Prog.run_call, handle_db, Prog.pure_eq, Prog.run_pure, Prod.mk.injEq,
          Except.ok.injEq] at h
        exact h.1.2.symm

/-- The cache of a poller holds its root after any sequence of ticks. -/
lemma fromRoot_of_ticks {fuel : ℕ} {root : FileId} {ws : List World} {cache : PathCache}
    (h : Ticks env fuel root ws cache) : FromRoot root cache := by
  induction h with
  | start => exact fromRoot_of_caches env (@Caches.seed env fuel root)
  | @tick ws cache cache' w w' sent before run ih =>
    rcases tick_cache env run with rfl | ⟨token, kept, hrun⟩
    · exact ih
    · have hall : ∀ x ∈ w.remote.drive.changesSince env.md5 token, Described x :=
        fun x hx => described_of_mem env hx
      obtain ⟨kept', cache₁, w₁, hrun', -, hgrows, hstuck⟩ := processChanges_spec env fuel root
        cache (w.remote.drive.changesSince env.md5 token) (polled w)
      rw [hrun] at hrun'
      obtain ⟨⟨-, rfl⟩, -⟩ : ((kept = kept') ∧ cache' = cache₁) ∧ w' = w₁ := by simpa using hrun'
      refine ⟨hgrows _ ih.1, fun halias => ?_⟩
      rw [hstuck hall (ih.2 halias)]
      exact ih.2 halias

/-- Folders below the mapped folder stay where they are. -/
def Keeps (root : FileId) (w w' : World) : Prop :=
  ∀ id path, DirPath w.remote.drive root id path → DirPath w'.remote.drive root id path

/-- **The cache of a poller is right** as long as folders stay where they are between the ticks.

**Proof sketch.** Induction on the ticks: before a tick the cache is right for Drive as it is then,
since folders stayed where they were; the tick leaves it right. -/
lemma cacheRight_of_ticks {fuel : ℕ} {root : FileId} {ws : List World} {cache : PathCache}
    (h : Ticks env fuel root ws cache) (hrooted : ∀ w ∈ ws, Rooted w.remote.drive root)
    (hfuel : ∀ w ∈ ws, size w.remote.drive + 1 < fuel) (hkeeps : ws.Pairwise (Keeps root))
    {w : World} (hlast : ∀ v ∈ ws, Keeps root v w) : CacheRight w.remote.drive root cache := by
  induction h generalizing w with
  | start =>
    intro x path hx
    by_cases hroot : x = root
    · subst hroot
      obtain rfl : [] = path := by simpa [seedCache] using hx
      exact dirPath_root
    · simp [seedCache, FinMap.val_set_ne _ _ hroot] at hx
  | @tick ws cache cache' v w' sent before run ih =>
    obtain ⟨hpairs, -, hbefore⟩ := List.pairwise_append.mp hkeeps
    have hright : CacheRight v.remote.drive root cache :=
      ih (fun x hx => hrooted x (by simp [hx])) (fun x hx => hfuel x (by simp [hx])) hpairs
        fun x hx => hbefore x hx v (by simp)
    have hright' : CacheRight v.remote.drive root cache' := by
      rcases tick_cache env run with rfl | ⟨token, kept, hrun⟩
      · exact hright
      · have hrooted' : Rooted (polled v).remote.drive root := hrooted v (by simp)
        have hfuel' : size (polled v).remote.drive + 1 < fuel := hfuel v (by simp)
        have hmem : ∀ c ∈ v.remote.drive.changesSince env.md5 token,
            c ∈ (polled v).remote.drive.changesSince env.md5 token := fun _ hc => hc
        have hafter : CacheRight (polled v).remote.drive root cache' :=
          cacheRight_processChanges env (fromRoot_of_ticks env before) hrooted' hfuel' hmem hrun
            hright
        exact hafter
    intro x path hx
    exact hlast v (by simp) x path (hright' x path hx)

/-- **No wrong path** is put together as long as folders stay where they are between the ticks:
objects may be created, changed, trashed and moved, and folders may be created and moved in. -/
lemma trustsRight_of_keeps {fuel : ℕ} {root : FileId} {ws : List World} {cache : PathCache}
    {w : World} (h : Ticks env fuel root ws cache)
    (hrooted : ∀ v ∈ ws ++ [w], Rooted v.remote.drive root)
    (hfuel : ∀ v ∈ ws ++ [w], size v.remote.drive + 1 < fuel)
    (hkeeps : (ws ++ [w]).Pairwise (Keeps root)) : TrustsRight env fuel root cache w := by
  obtain ⟨hpairs, -, hbefore⟩ := List.pairwise_append.mp hkeeps
  have hright : CacheRight w.remote.drive root cache :=
    cacheRight_of_ticks env h (fun v hv => hrooted v (by simp [hv]))
      (fun v hv => hfuel v (by simp [hv])) hpairs fun v hv => hbefore v hv w (by simp)
  exact trustsRight_of_cacheRight env (fromRoot_of_ticks env h) (hrooted w (by simp))
    (hfuel w (by simp)) hright

/-- My Drive (1) with the mapped folder `Sync` (2), which holds `A/B/f.txt` (3, 4, 5); the file has
just changed. -/
def nestedDrive : Drive where
  files :=
    ⟨⟨[⟨1, "My Drive", folderMime, none, [], false, true, true⟩,
       ⟨2, "Sync", folderMime, none, [1], false, true, true⟩,
       ⟨3, "A", folderMime, none, [2], false, true, true⟩,
       ⟨4, "B", folderMime, none, [3], false, true, true⟩,
       ⟨5, "f.txt", "text/plain", some [104], [4], false, true, true⟩], by decide⟩, 6, by decide⟩
  rootNum := 1
  feed := [(5, false)]

/-- Then the folder `A` is renamed to `C`, and the file changes again. -/
def renamedDrive : Drive :=
  (nestedDrive.change 3 (fun x => { x with name := "C" }) fun _ => rfl).change 5
    (fun x => { x with content := some [105] }) fun _ => rfl

/-- The world of a daemon that is about to poll from a cursor. -/
def aboutToPoll (d : Drive) (token : PageToken) : World :=
  { World.fresh d with db := { Db.empty with cursor := some token } }

/-- The file in the renamed folder, as Drive describes it. -/
def editedFile : FileResource :=
  ⟨.id 5, "f.txt", "text/plain", some 1, some "i", [.id 4], false⟩

/-- What is emitted for the renamed folder. -/
def emittedFolder : RemoteChange :=
  ⟨.id 3, false, some ⟨.id 3, "C", folderMime, none, none, [.id 2], false⟩, some ["C"]⟩

/-- What is emitted for the file in it. -/
def emittedFile : RemoteChange := ⟨.id 5, false, some editedFile, some ["A", "B", "f.txt"]⟩

end AirDrive.Poller
