import AirDrive.Drive.Scope

set_option relaxedAutoImplicit false
set_option autoImplicit false

/-!
# Delivery of the changes in scope

The poller drops a change when it cannot find a path for it, and the consumer then moves the
cursor past it with the rest of the batch. A change in scope is found exactly when the start-up
got hold of the real id of the mapped folder and every lookup on the way from the object up to
the cache is answered; otherwise it is lost.

## Main definitions

* `AirDrive.Poller.Under`, `AirDrive.Poller.InScope` — the objects below the mapped folder.
* `AirDrive.Poller.Caches` — the path caches of a running poller.
* `AirDrive.Poller.Delivered` — a change is in the batch, or the batch never moves the cursor.
* `AirDrive.Start.ResolvesRoot` — the start-up got hold of the real id of the mapped folder.

## Main results

* `AirDrive.Start.ensureRemoteRoot_ne_alias_iff` — what the start-up hands to the poller.
* `AirDrive.Poller.mem_processChanges` — a batch, entry by entry.
* `AirDrive.Poller.tick_sends_iff` — what a round of the poller sends.
* `AirDrive.Poller.delivered_in_scope_iff` — when no change in scope is lost.
-/

namespace AirDrive

open Effect Data Remote

variable (env : Env)

/-! ## The root of a start -/

namespace Start

/-- A recreated root is a folder below My Drive. -/
def RecreatesBelow (m : FolderMapping) : Prop :=
  ∃ segments, m.remoteFolderSpec = some (.path segments) ∧ belowMyDrive segments ≠ []

/-- The start-up gets hold of the id that Drive minted for the mapped folder: the probe of the
stored id is answered, or the folder is recreated below My Drive, or else the stored id is
not the alias `root`. -/
def ResolvesRoot (m : FolderMapping) (w : World) : Prop :=
  match (w.remote.send env.md5 (.getFile m.remoteFolderId)).1 with
  | .ok v => v.trashed = false ∨ RecreatesBelow m
  | .error (.driveHttp 404 _) => RecreatesBelow m
  | .error _ => m.remoteFolderId ≠ .rootAlias

/-- Drive never describes an object by the alias `root`. -/
lemma send_getFile_id {id : FileId} {r : Remote} {v : FileResource}
    (h : (r.send env.md5 (.getFile id)).1 = .ok v) : v.id ≠ .rootAlias := by
  have hd := send_ok h
  simp only [DriveCall.run, DriveCall.onFile] at hd
  cases hfile : r.drive.file id with
  | none => simp [hfile] at hd
  | some f =>
    simp only [hfile, Except.ok.injEq] at hd
    rw [← hd]
    simp [Drive.resource]

/-- The folders that Drive lists have ids of their own. -/
lemma send_listChildren_id {id : FileId} {r : Remote} {l : List FileResource}
    (h : (r.send env.md5 (.listChildren id)).1 = .ok l) : ∀ c ∈ l, c.id ≠ .rootAlias := by
  intro c hc
  have hd := send_ok h
  simp only [DriveCall.run, Except.ok.injEq] at hd
  rw [← hd] at hc
  obtain ⟨f, -, rfl⟩ := List.mem_map.mp hc
  simp [Drive.resource]

/-- A folder that Drive makes has an id of its own. -/
lemma send_createFolder_id {id : FileId} {name : String} {r : Remote} {v : FileResource}
    (h : (r.send env.md5 (.createFolder id name)).1 = .ok v) : v.id ≠ .rootAlias := by
  have hd := send_ok h
  simp only [DriveCall.run, Drive.create] at hd
  cases hfile : r.drive.file id with
  | none => simp [hfile] at hd
  | some f =>
    simp only [hfile, Except.ok.injEq] at hd
    rw [← hd]
    simp [Drive.resource]

/-- Going down folder names ends at a folder with an id of its own, unless there are none. -/
lemma resolveSegments_id {auto : Bool} {current id : FileId} {segments : List String}
    {w w' : World} (h : (resolveSegments auto current segments).run (handle env) w = (.ok id, w')) :
    (segments = [] ∧ id = current) ∨ (segments ≠ [] ∧ id ≠ .rootAlias) := by
  induction segments generalizing current w with
  | nil =>
    simp only [resolveSegments, Prog.pure_eq, Prog.run_pure, Prod.mk.injEq, Except.ok.injEq] at h
    exact .inl ⟨rfl, h.1.symm⟩
  | cons seg rest ih =>
    refine .inr ⟨by simp, ?_⟩
    have hgo : ∀ {c : FileId} {v : World}, c ≠ .rootAlias →
        (resolveSegments auto c rest).run (handle env) v = (.ok id, w') → id ≠ .rootAlias := by
      intro c v hc hrun
      rcases ih hrun with ⟨-, rfl⟩ | ⟨-, hid⟩
      · exact hc
      · exact hid
    simp only [resolveSegments, Prog.bind_eq, request, Prog.call_bind, Prog.run_call,
      handle_drive] at h
    have hlist := @send_listChildren_id env current w.remote
    generalize w.remote.send env.md5 (.listChildren current) = answer at h hlist
    obtain ⟨res, r⟩ := answer
    cases res with
    | error e => simp at h
    | ok children =>
      simp only [Prog.ofExcept_ok, Prog.pure_bind] at h
      cases hfind : children.find? fun c => c.isFolder && c.name = seg with
      | some c =>
        simp only [hfind] at h
        exact hgo (hlist rfl c (List.mem_of_find?_eq_some hfind)) h
      | none =>
        simp only [hfind] at h
        cases auto with
        | false => simp at h
        | true =>
          simp only [if_true, Prog.run_call, handle_drive] at h
          have hmade := @send_createFolder_id env current seg r
          generalize r.send env.md5 (.createFolder current seg) = made at h hmade
          obtain ⟨res, r'⟩ := made
          cases res with
          | error e => simp at h
          | ok created => exact hgo (hmade rfl) h

/-- A recreated root has an id of its own exactly when it lies below My Drive. -/
lemma recreateRoot_ne_alias_iff {mayCreate : Bool} {m : FolderMapping} {root : FileId}
    {w w' : World} (h : (recreateRoot mayCreate m).run (handle env) w = (.ok root, w')) :
    root ≠ .rootAlias ↔ RecreatesBelow m := by
  unfold recreateRoot at h
  match hspec : m.remoteFolderSpec with
  | none => simp [hspec] at h
  | some (.url id) => simp [hspec] at h
  | some (.path segments) =>
    have hbelow : RecreatesBelow m ↔ belowMyDrive segments ≠ [] := by
      unfold RecreatesBelow
      rw [hspec]
      simp
    rw [hbelow]
    cases mayCreate with
    | false => simp [hspec] at h
    | true =>
      simp only [hspec, if_true, Prog.bind_eq, resolvePath, Prog.run_bind] at h
      generalize hrun : (resolveSegments true .rootAlias (belowMyDrive segments)).run
        (handle env) w = res at h
      obtain ⟨out, w₁⟩ := res
      cases out with
      | error e => simp at h
      | ok id =>
        obtain rfl : id = root := Except.ok.inj (congrArg Prod.fst h)
        rcases resolveSegments_id env hrun with ⟨hnil, rfl⟩ | ⟨hne, hid⟩
        · simp [hnil]
        · exact ⟨fun _ => hne, fun _ => hid⟩

/-- **The root that the start-up hands on** is not the alias exactly when the start-up got hold
of the id that Drive minted for the mapped folder. -/
lemma ensureRemoteRoot_ne_alias_iff {mayCreate : Bool} {m : FolderMapping} {root : FileId}
    {w w' : World} (h : (ensureRemoteRoot mayCreate m).run (handle env) w = (.ok root, w')) :
    root ≠ .rootAlias ↔ ResolvesRoot env m w := by
  simp only [ensureRemoteRoot, Prog.bind_eq, request, Prog.attempt_call, Prog.attempt_ofExcept,
    Prog.call_bind, Prog.pure_bind, Prog.run_call, handle_drive] at h
  unfold ResolvesRoot
  have hprobe := @send_getFile_id env m.remoteFolderId w.remote
  generalize w.remote.send env.md5 (.getFile m.remoteFolderId) = answer at h hprobe ⊢
  obtain ⟨res, r⟩ := answer
  simp only at h hprobe ⊢
  split at h
  · next v =>
    have hid : v.id ≠ .rootAlias := hprobe rfl
    by_cases htrashed : v.trashed = true
    · rw [if_pos htrashed] at h
      simp [htrashed, recreateRoot_ne_alias_iff env h]
    · simp only [htrashed] at h
      simp only [Bool.false_eq_true, if_false, Prog.pure_eq, Prog.run_pure, Prod.mk.injEq,
        Except.ok.injEq] at h
      obtain ⟨rfl, -⟩ := h
      simp [hid, htrashed]
  · exact recreateRoot_ne_alias_iff env h
  · next e hne =>
    simp only [Prog.pure_eq, Prog.run_pure, Prod.mk.injEq, Except.ok.injEq] at h
    obtain ⟨rfl, -⟩ := h
    simp

end Start

namespace Poller

/-! ## The objects below the mapped folder -/

/-- The folder `n` lies below the folder `ρ`, and the names of all folders from `n` up to below
`ρ` are safe. Drive gives an object one parent, the first of its list. -/
inductive Under (d : Drive) (ρ : ℕ) : ℕ → Prop
  | top : Under d ρ ρ
  | child {f : DriveFile} {p : ℕ} (mem : f ∈ d.files) (safe : isSafeName f.name = true)
      (parent : f.parents.head? = some p) (above : Under d ρ p) : Under d ρ f.num

/-- The change of an object that lies below the folder `ρ`, at a path of safe components. -/
def InScope (d : Drive) (ρ : ℕ) (c : RawChange) : Prop :=
  c.removed = false ∧ ∃ f p, c.file = some f ∧ isSafeName f.name = true ∧
    f.parents.head? = some (.id p) ∧ Under d ρ p

variable {d : Drive} {ρ n : ℕ}

/-- The parent of an object of Drive. -/
lemma parentOf_file {f : DriveFile} {p : ℕ} (hmem : f ∈ d.files) (hparent : f.parents.head? = some p) :
    d.file (.id f.num) = some f ∧ d.parentOf (.id f.num) = some (.id p) := by
  have hfile : d.file (.id f.num) = some f := Serial.get_eq_some.mpr ⟨hmem, rfl⟩
  exact ⟨hfile, Drive.parentOf_eq_some.mpr ⟨f, p, hfile, hparent, rfl⟩⟩

/-- The mapped folder is above all folders below it. -/
lemma Under.above (h : Under d ρ n) : Above d.parentOf (.id n) (.id ρ) := by
  induction h with
  | top => exact .refl
  | child mem _ parent _ ih => exact .head (parentOf_file mem parent).2 ih

/-- The climb towards the mapped folder passes safe names only. -/
lemma Under.safe {stop : FileId → Prop} (h : Under d ρ n) (hstop : stop (.id ρ)) {top : FileId}
    {ids : List FileId} (hclimb : Climb d.parentOf stop (.id n) ids top) :
    ∀ x ∈ ids, isSafeName (d.nameOf x) = true := by
  induction h generalizing ids with
  | top =>
    cases hclimb with
    | here _ => simp
    | step hn _ _ => exact absurd hstop hn
  | @child f p mem safe parent _ ih =>
    obtain ⟨hfile, hup⟩ := parentOf_file mem parent
    cases hclimb with
    | here _ => simp
    | step _ hb hrest =>
      obtain rfl : _ = _ := Option.some.inj (hb.symm.trans hup)
      intro x hx
      rcases List.mem_cons.mp hx with rfl | hx
      · simpa [Drive.nameOf, hfile] using safe
      · exact ih hrest x hx

/-! ## The caches of a poller -/

/-- The path caches that a poller which started with the given root can have: the seed, and the
cache after any round, whatever happened to the world between two rounds. -/
inductive Caches (fuel : ℕ) (root : FileId) : PathCache → Prop
  | seed : Caches fuel root (seedCache root)
  | round {cache cache' : PathCache} {d : Drive} {token : PageToken} {w w' : World}
      {kept : List RemoteChange} (before : Caches fuel root cache)
      (round : (processChanges fuel root cache (d.changesSince env.md5 token)).run (handle env) w =
        (.ok (kept, cache'), w')) : Caches fuel root cache'

/-- What a cache of a poller holds: the root it started with, and no other folder when that root
is the alias. -/
def FromRoot (root : FileId) (cache : PathCache) : Prop :=
  Known cache root ∧ (root = .rootAlias → ∀ n, ¬Known cache (.id n))

/-- A change as Drive describes it: by objects with ids of their own. -/
def Described (c : RawChange) : Prop := ∀ f, c.file = some f → ∀ p ∈ f.parents, p ≠ .rootAlias

lemma described_of_mem {token : PageToken} {c : RawChange}
    (hc : c ∈ d.changesSince env.md5 token) : Described c := by
  obtain ⟨e, -, rfl⟩ := List.mem_map.mp hc
  intro f hf p hp
  obtain ⟨x, -, rfl⟩ := Option.map_eq_some_iff.mp hf
  obtain ⟨n, -, rfl⟩ := List.mem_map.mp hp
  simp

lemma known_set {cache : PathCache} {id x : FileId} {path : RelPath} (h : Known cache x) :
    Known (cache.set id path) x := by
  by_cases hx : x = id
  · subst hx
    simp [Known]
  · simpa [Known, FinMap.val_set_ne _ _ hx] using h

lemma known_cacheChain {cache : PathCache} {path : RelPath} {chain : List (FileId × String)}
    {x : FileId} (h : Known cache x) : Known (cacheChain cache path chain) x := by
  induction chain generalizing cache path with
  | nil => exact h
  | cons c rest ih => exact ih (known_set h)

lemma known_assemblePath {cache : PathCache} {path : RelPath} {chain : List (FileId × String)}
    {name : String} {x : FileId} (h : Known cache x) :
    Known (assemblePath cache path chain name).2 x := by
  unfold assemblePath
  split_ifs
  · exact h
  · exact known_cacheChain h

/-- A climb from a folder with an id of its own ends at one. -/
lemma climb_end_id {stop : FileId → Prop} {id top : FileId} {ids : List FileId}
    (h : Climb d.parentOf stop id ids top) (hid : id ≠ .rootAlias) : ∃ n, top = .id n := by
  induction h with
  | @here a _ =>
    cases a with
    | rootAlias => exact absurd rfl hid
    | id n => exact ⟨n, rfl⟩
  | step _ hup _ ih =>
    obtain ⟨-, n, -, -, rfl⟩ := Drive.parentOf_eq_some.mp hup
    exact ih (by simp)

/-- What processing one entry of the feed leaves. -/
structure Processed (cache : PathCache) (w : World) (c : RawChange) (o : Option RemoteChange)
    (cache' : PathCache) (w' : World) : Prop where
  /-- Drive is only read. -/
  drive : w'.remote.drive = w.remote.drive
  /-- No folder leaves the cache. -/
  grows : ∀ x, Known cache x → Known cache' x
  /-- A cache that holds no real folder finds none. -/
  stuck : Described c → (∀ n, ¬Known cache (.id n)) → cache' = cache
  /-- A change is forwarded as it is. -/
  same : ∀ r, o = some r → r.fileId = c.fileId ∧ r.removed = c.removed ∧ r.file = c.file

/-- **One entry of the feed** is always processed, whatever happens to the requests.

**Proof sketch.** Only a present object asks for a walk. When the walk finds a folder it followed
a climb to it, which a cache without real folders does not allow. -/
lemma processChange_spec (fuel : ℕ) (root : FileId) (cache : PathCache) (c : RawChange)
    (w : World) : ∃ o cache' w', (processChange fuel root cache c).run (handle env) w =
      (.ok (o, cache'), w') ∧ Processed cache w c o cache' w' := by
  by_cases hremoved : c.removed = true
  · by_cases hroot : c.fileId = root
    · refine ⟨none, cache, { w with db := (DbCall.run (.setBlocked .remote) w.db).2 }, ?_, ?_⟩
      · simp [processChange, hremoved, hroot, sql]
      · exact ⟨rfl, fun _ h => h, fun _ _ => rfl, by simp⟩
    · refine ⟨some ⟨c.fileId, true, c.file, none⟩, cache, w, ?_, ?_⟩
      · simp [processChange, hremoved, hroot]
      · refine ⟨rfl, fun _ h => h, fun _ _ => rfl, ?_⟩
        rintro r ⟨⟩
        exact ⟨rfl, hremoved.symm, rfl⟩
  have hpresent : c.removed = false := by simpa using hremoved
  cases hfile : c.file with
  | none =>
    refine ⟨none, cache, w, ?_, ⟨rfl, fun _ h => h, fun _ _ => rfl, by simp⟩⟩
    simp [processChange, hpresent, hfile]
  | some f =>
    cases hhead : f.parents.head? with
    | none =>
      have hpath : (descendantPath fuel cache f).run (handle env) w = (.ok (none, cache), w) := by
        simp [descendantPath, List.head?_eq_none_iff.mp hhead]
      exact ⟨none, cache, w, run_processChange env hpresent hfile hpath,
        ⟨rfl, fun _ h => h, fun _ _ => rfl, by simp⟩⟩
    | some p =>
      obtain ⟨o, rem, hwalk, hdrive⟩ := run_walkUp env cache fuel p [] w
      have hpath := run_descendantPath env hhead hwalk
      cases o with
      | none =>
        exact ⟨none, cache, _, run_processChange env hpresent hfile hpath,
          ⟨hdrive, fun _ h => h, fun _ _ => rfl, by simp⟩⟩
      | some found =>
        obtain ⟨path, chain⟩ := found
        have hfound : Described c → (∀ n, ¬Known cache (.id n)) → False := by
          intro hdesc hunknown
          obtain ⟨ids, top, hclimb, -⟩ := climb_of_walkUp env hwalk
          have hp : p ≠ .rootAlias := hdesc f hfile p (List.mem_of_head? hhead)
          obtain ⟨n, rfl⟩ := climb_end_id hclimb hp
          exact hunknown n hclimb.stop_end
        have hgrows : ∀ x, Known cache x →
            Known (assemblePath cache path chain f.name).2 x := fun _ => known_assemblePath
        simp only at hpath
        generalize assemblePath cache path chain f.name = assembled at hpath hgrows
        obtain ⟨rel, cache'⟩ := assembled
        refine ⟨_, _, _, run_processChange env hpresent hfile hpath, hdrive, ?_,
          fun h h' => absurd (hfound h h') id, ?_⟩
        · intro x hx
          cases rel with
          | none => exact hgrows x hx
          | some rel =>
            simp only
            split_ifs
            · exact known_set (hgrows x hx)
            · exact hgrows x hx
        · intro r hr
          cases rel with
          | none => simp at hr
          | some rel =>
            obtain rfl : _ = r := Option.some.inj hr
            exact ⟨rfl, hpresent.symm, hfile.symm⟩

/-! ## A list of changes -/

/-- One more entry after a list of entries. -/
lemma run_processChanges_concat {fuel : ℕ} {root : FileId} {cache cache₁ cache₂ : PathCache}
    {l : List RawChange} {c : RawChange} {w w₁ w₂ : World} {kept : List RemoteChange}
    {o : Option RemoteChange}
    (hl : (processChanges fuel root cache l).run (handle env) w = (.ok (kept, cache₁), w₁))
    (hc : (processChange fuel root cache₁ c).run (handle env) w₁ = (.ok (o, cache₂), w₂)) :
    (processChanges fuel root cache (l ++ [c])).run (handle env) w =
      (.ok (kept ++ o.toList, cache₂), w₂) := by
  unfold processChanges at hl ⊢
  have hnext : (processNext fuel root (kept, cache₁) c).run (handle env) w₁ =
      (.ok (kept ++ o.toList, cache₂), w₂) := by
    simp only [processNext, Prog.bind_eq]
    rw [Prog.run_bind_ok _ hc]
    rfl
  rw [Prog.foldM_append, Prog.run_bind_ok _ hl, Prog.foldM_cons, Prog.run_bind_ok _ hnext]
  rfl

/-- A list of changes is always processed; Drive is only read, the cache only grows, and a cache
without real folders stays as it is. -/
lemma processChanges_spec (fuel : ℕ) (root : FileId) (cache : PathCache) (l : List RawChange)
    (w : World) : ∃ kept cache' w', (processChanges fuel root cache l).run (handle env) w =
      (.ok (kept, cache'), w') ∧ w'.remote.drive = w.remote.drive ∧
      (∀ x, Known cache x → Known cache' x) ∧
      ((∀ c ∈ l, Described c) → (∀ n, ¬Known cache (.id n)) → cache' = cache) := by
  induction l using List.reverseRecOn with
  | nil => exact ⟨[], cache, w, rfl, rfl, fun _ h => h, fun _ _ => rfl⟩
  | append_singleton l c ih =>
    obtain ⟨kept, cache₁, w₁, hrun, hdrive, hgrows, hstuck⟩ := ih
    obtain ⟨o, cache₂, w₂, hnext, hc⟩ := processChange_spec env fuel root cache₁ c w₁
    refine ⟨_, _, _, run_processChanges_concat env hrun hnext, hc.drive.trans hdrive,
      fun x hx => hc.grows x (hgrows x hx), fun hdesc hunknown => ?_⟩
    have hsame : cache₁ = cache := hstuck (fun d hd => hdesc d (by simp [hd])) hunknown
    subst hsame
    exact hc.stuck (hdesc c (by simp)) hunknown

/-- The poller comes to the entry `c` of a list with the given cache and world. -/
def ComesTo (fuel : ℕ) (root : FileId) (cache : PathCache) (w : World) (l : List RawChange)
    (c : RawChange) (cache₁ : PathCache) (w₁ : World) : Prop :=
  ∃ pre post kept, l = pre ++ c :: post ∧
    (processChanges fuel root cache pre).run (handle env) w = (.ok (kept, cache₁), w₁)

/-- **A batch, entry by entry**: it holds what the poller forwards when it comes to an entry.

**Proof sketch.** Induction on the list, the last entry last: the batch grows by what the last
entry adds, and to the entries before it the poller comes as it did without it. -/
lemma mem_processChanges {fuel : ℕ} {root : FileId} {cache cache' : PathCache}
    {l : List RawChange} {w w' : World} {kept : List RemoteChange}
    (h : (processChanges fuel root cache l).run (handle env) w = (.ok (kept, cache'), w'))
    (r : RemoteChange) :
    r ∈ kept ↔ ∃ c cache₁ w₁ cache₂ w₂, ComesTo env fuel root cache w l c cache₁ w₁ ∧
      (processChange fuel root cache₁ c).run (handle env) w₁ = (.ok (some r, cache₂), w₂) := by
  induction l using List.reverseRecOn generalizing kept cache' w' with
  | nil =>
    obtain rfl : [] = kept := congrArg Prod.fst (Except.ok.inj (congrArg Prod.fst h))
    simp [ComesTo]
  | append_singleton l d ih =>
    obtain ⟨kept₀, cache₀, w₀, hrun, -⟩ := processChanges_spec env fuel root cache l w
    obtain ⟨o, cache₃, w₃, hnext, -⟩ := processChange_spec env fuel root cache₀ d w₀
    rw [run_processChanges_concat env hrun hnext] at h
    obtain rfl : kept₀ ++ o.toList = kept := congrArg Prod.fst (Except.ok.inj (congrArg Prod.fst h))
    rw [List.mem_append, ih hrun]
    constructor
    · rintro (⟨c, cache₁, w₁, cache₂, w₂, ⟨pre, post, k, rfl, hpre⟩, hc⟩ | hr)
      · exact ⟨c, cache₁, w₁, cache₂, w₂, ⟨pre, post ++ [d], k, by simp, hpre⟩, hc⟩
      · obtain rfl : o = some r := by simpa using hr
        exact ⟨d, cache₀, w₀, cache₃, w₃, ⟨l, [], kept₀, rfl, hrun⟩, hnext⟩
    · rintro ⟨c, cache₁, w₁, cache₂, w₂, ⟨pre, post, k, hl, hpre⟩, hc⟩
      induction post using List.reverseRecOn with
      | nil =>
        obtain ⟨rfl, rfl⟩ := List.append_singleton_inj.mp hl
        rw [hrun] at hpre
        obtain ⟨⟨-, rfl⟩, rfl⟩ : ((_ : List RemoteChange) = _ ∧ cache₀ = cache₁) ∧ w₀ = w₁ := by
          simpa using hpre
        rw [hnext] at hc
        obtain ⟨⟨rfl, -⟩, -⟩ : ((o = some r) ∧ _) ∧ _ := by simpa using hc
        exact .inr (by simp)
      | append_singleton post e =>
        have hl' : l ++ [d] = (pre ++ c :: post) ++ [e] := by simpa using hl
        obtain ⟨rfl, rfl⟩ := List.append_singleton_inj.mp hl'
        exact .inl ⟨c, cache₁, w₁, cache₂, w₂, ⟨pre, post, k, rfl, hpre⟩, hc⟩

/-- The world after the feed was read: the request is answered, and a block that a failed poll left
is cleared. -/
def polled (w : World) : World :=
  { w with
    db := (DbCall.clearIfTransient.run w.db).2
    remote := ⟨w.remote.drive, w.remote.faults.tail⟩ }

/-- **A round sends a batch** exactly when there is a cursor and the feed can be read; the batch
holds what the poller keeps of the changes since the cursor. -/
lemma tick_sends_iff {fuel : ℕ} {root : FileId} {cache cache' : PathCache} {w w' : World}
    {batch : RemoteBatch} :
    (tick fuel root cache).run (handle env) w = (.ok (some batch, cache'), w') ↔
      ∃ token, w.db.cursor = some token ∧ w.remote.faults.headD none = none ∧
        batch.newToken = w.remote.drive.feed.length ∧
        (processChanges fuel root cache (w.remote.drive.changesSince env.md5 token)).run
          (handle env) (polled w) = (.ok (batch.changes, cache'), w') := by
  simp only [tick, sql, Prog.bind_eq, Prog.lift_bind, Prog.run_call, handle_db, DbCall.run]
  cases hcursor : w.db.cursor with
  | none => simp
  | some token =>
    simp only [request, Prog.attempt_call, Prog.attempt_ofExcept, Prog.call_bind,
      Prog.pure_bind, Prog.run_call, handle_drive]
    by_cases hnow : w.remote.faults.headD none = none
    · rw [Remote.send_answered hnow]
      simp only [DriveCall.run, Prog.run_call, handle_db]
      obtain ⟨kept, cache₁, w₁, hrun, -⟩ := processChanges_spec env fuel root cache
        (w.remote.drive.changesSince env.md5 token) (polled w)
      unfold polled at hrun ⊢
      rw [Prog.run_bind_ok _ hrun]
      obtain ⟨changes, newToken⟩ := batch
      simp only [Prog.pure_eq, Prog.run_pure, Prod.mk.injEq, Except.ok.injEq, Option.some.injEq,
        RemoteBatch.mk.injEq]
      constructor
      · rintro ⟨⟨⟨rfl, rfl⟩, rfl⟩, rfl⟩
        exact ⟨token, rfl, hnow, rfl, hrun⟩
      · rintro ⟨token', rfl, -, rfl, hrun'⟩
        rw [hrun] at hrun'
        obtain ⟨⟨rfl, rfl⟩, rfl⟩ : ((kept = changes ∧ cache₁ = cache') ∧ w₁ = w') := by
          simpa using hrun'
        exact ⟨⟨⟨rfl, rfl⟩, rfl⟩, rfl⟩
    · obtain ⟨e, he⟩ := @Remote.send_faulty _ env.md5 (.changesSince token) _ hnow
      rw [he]
      constructor
      · intro h
        simp at h
      · rintro ⟨-, -, hanswered, -⟩
        exact absurd hanswered hnow

/-! ## Delivery -/

/-- The batch carries a change. -/
def Carries (batch : RemoteBatch) (c : RawChange) : Prop :=
  ∃ r ∈ batch.changes, r.fileId = c.fileId ∧ r.removed = c.removed ∧ r.file = c.file

/-- The change is in the batch, or applying the batch never moves the cursor. -/
def Delivered (batch : RemoteBatch) (c : RawChange) : Prop :=
  Carries batch c ∨ ∀ w, ((Consumer.applyBatch env batch).run (handle env) w).2.db.cursor =
    w.db.cursor

/-- A cache of a poller holds its root, and nothing else when the root is the alias. -/
lemma fromRoot_of_caches {fuel : ℕ} {root : FileId} {cache : PathCache}
    (h : Caches env fuel root cache) : FromRoot root cache := by
  induction h with
  | seed =>
    refine ⟨by simp [Known, seedCache], ?_⟩
    rintro rfl n
    simp [Known, seedCache, FinMap.val_set_ne]
  | @round cache cache' d token w w' kept _ hrun ih =>
    obtain ⟨kept₁, cache₁, w₁, hrun₁, -, hgrows, hstuck⟩ :=
      processChanges_spec env fuel root cache (d.changesSince env.md5 token) w
    rw [hrun] at hrun₁
    obtain ⟨⟨-, rfl⟩, -⟩ : ((kept = kept₁) ∧ cache' = cache₁) ∧ w' = w₁ := by simpa using hrun₁
    refine ⟨hgrows _ ih.1, fun halias => ?_⟩
    rw [hstuck (fun c hc => described_of_mem env hc) (ih.2 halias)]
    exact ih.2 halias

/-- **A change in scope** is forwarded exactly when the poller started with the real id of the
mapped folder and every lookup up to the first folder of the cache goes well.

**Proof sketch.** With the real id there is a climb, since the mapped folder is above and in the
cache, and it passes safe names only. With the alias there is none: a climb goes from real
folders to real folders, and the cache holds none. -/
lemma forwards_in_scope_iff {fuel : ℕ} {root : FileId} {cache : PathCache} {w : World}
    {c : RawChange} (hcache : FromRoot root cache)
    (hscope : InScope w.remote.drive (w.remote.drive.resolve root) c)
    (hfuel : size w.remote.drive + 1 < fuel) :
    Forwards env fuel root cache w c ↔ root ≠ .rootAlias ∧
      ∀ f n, c.file = some f → Lookups cache w.remote.drive f n → Answered w.remote.faults n := by
  obtain ⟨hknown, halias⟩ := hcache
  obtain ⟨hremoved, f, p, hfile, hname, hhead, hunder⟩ := hscope
  cases root with
  | rootAlias =>
    have hnone : ∀ q ids top, f.parents.head? = some q →
        ¬Climb w.remote.drive.parentOf (Known cache) q ids top := by
      intro q ids top hq hclimb
      obtain rfl : FileId.id p = q := Option.some.inj (hhead.symm.trans hq)
      obtain ⟨n, rfl⟩ := climb_end_id hclimb (by simp)
      exact halias rfl n hclimb.stop_end
    rw [forwards_iff env hremoved hfile hname
      (fun q ids top hq hclimb => absurd hclimb (hnone q ids top hq)) hfuel]
    constructor
    · rintro ⟨n, ⟨q, ids, top, hq, hclimb, -⟩, -⟩
      exact absurd hclimb (hnone q ids top hq)
    · rintro ⟨hne, -⟩
      exact absurd rfl hne
  | id ρ =>
    have hsafe : SafeWay cache w.remote.drive f := by
      intro q ids top hq hclimb
      obtain rfl : FileId.id p = q := Option.some.inj (hhead.symm.trans hq)
      exact hunder.safe hknown hclimb
    obtain ⟨ids, top, hclimb⟩ := Climb.exists_of_above hunder.above hknown
    rw [forwards_iff env hremoved hfile hname hsafe hfuel]
    constructor
    · rintro ⟨n, ⟨q, ids', top', hq, hclimb', rfl⟩, hans⟩
      refine ⟨by simp, ?_⟩
      rintro f' m hf' ⟨q', ids'', top'', hq', hclimb'', rfl⟩
      obtain rfl : f = f' := Option.some.inj (hfile.symm.trans hf')
      obtain rfl : q = q' := Option.some.inj (hq.symm.trans hq')
      obtain ⟨rfl, -⟩ := hclimb'.unique hclimb''
      exact hans
    · rintro ⟨-, hans⟩
      have hlook : Lookups cache w.remote.drive f ids.length :=
        ⟨.id p, ids, top, hhead, hclimb, rfl⟩
      exact ⟨ids.length, hlook, hans f _ hfile hlook⟩

/-- A batch whose changes are all in flight is applied at once, and the cursor moves. -/
lemma exists_cursor_moves (batch : RemoteBatch) (w : World) :
    ∃ w', ((Consumer.applyBatch env batch).run (handle env) w').2.db.cursor ≠ w'.db.cursor := by
  let w' : World :=
    { w with
      db := { w.db with cursor := none }
      inFlight := batch.changes.map RemoteChange.fileId }
  have hnext : ∀ c ∈ batch.changes,
      (Consumer.applyNext env true c).run (handle env) w' = (.ok true, w') := by
    intro c hc
    have hin : c.fileId ∈ w'.inFlight := List.mem_map.mpr ⟨c, hc, rfl⟩
    simp [Consumer.applyNext, Continuous.applyRemote, hin]
  have hall : ∀ l, (∀ c ∈ l, c ∈ batch.changes) →
      (Prog.foldM l (Consumer.applyNext env) true).run (handle env) w' = (.ok true, w') := by
    intro l
    induction l with
    | nil => intro _; rfl
    | cons c l ih =>
      intro hl
      rw [Prog.foldM_cons, Prog.run_bind_ok _ (hnext c (hl c (by simp)))]
      exact ih fun d hd => hl d (by simp [hd])
  refine ⟨w', ?_⟩
  have hrun : (Consumer.applyBatch env batch).run (handle env) w' =
      (.ok (), { w' with db := { w'.db with cursor := some batch.newToken } }) := by
    simp only [Consumer.applyBatch, Prog.bind_eq]
    rw [Prog.run_bind_ok _ (hall batch.changes fun _ h => h)]
    rfl
  rw [hrun]
  simp [w']

/-- **No change in scope is lost** exactly when the start-up got hold of the real id of the
mapped folder and, for every change in scope, the poller comes to it at a moment when all the
lookups it needs are answered.

**Proof sketch.** A batch carries a change when the poller forwards it at some occurrence in the
list (`mem_processChanges`), which `forwards_in_scope_iff` characterises. A batch that does not
carry it moves the cursor past it as soon as it is applied (`exists_cursor_moves`). -/
theorem delivered_in_scope_iff {mayCreate : Bool} {m : FolderMapping} {w₀ w₁ : World}
    {root : FileId} (start : (Start.ensureRemoteRoot mayCreate m).run (handle env) w₀ =
      (.ok root, w₁)) {fuel : ℕ} {cache cache' : PathCache} (hcache : Caches env fuel root cache)
    {feed : Drive} {token newToken : PageToken} {w w' : World} {kept : List RemoteChange}
    (hrun : (processChanges fuel root cache (feed.changesSince env.md5 token)).run (handle env) w =
      (.ok (kept, cache'), w')) (hfuel : size w.remote.drive + 1 < fuel) :
    (∀ c ∈ feed.changesSince env.md5 token,
        InScope w.remote.drive (w.remote.drive.resolve root) c →
          Delivered env ⟨kept, newToken⟩ c) ↔
      ∀ c ∈ feed.changesSince env.md5 token,
        InScope w.remote.drive (w.remote.drive.resolve root) c →
          Start.ResolvesRoot env m w₀ ∧ ∃ cache₁ w₁,
            ComesTo env fuel root cache w (feed.changesSince env.md5 token) c cache₁ w₁ ∧
              ∀ f n, c.file = some f → Lookups cache₁ w.remote.drive f n →
                Answered w₁.remote.faults n := by
  have hforwards : ∀ {c cache₁ w₁},
      InScope w.remote.drive (w.remote.drive.resolve root) c →
      ComesTo env fuel root cache w (feed.changesSince env.md5 token) c cache₁ w₁ →
      (Forwards env fuel root cache₁ w₁ c ↔ root ≠ .rootAlias ∧ ∀ f n, c.file = some f →
        Lookups cache₁ w.remote.drive f n → Answered w₁.remote.faults n) := by
    rintro c cache₁ w₁ hscope ⟨pre, post, k, hl, hpre⟩
    obtain ⟨k', cache₂, w₂, hrun₂, hdrive, hgrows, hstuck⟩ :=
      processChanges_spec env fuel root cache pre w
    rw [hpre] at hrun₂
    obtain ⟨⟨-, rfl⟩, rfl⟩ : ((k = k') ∧ cache₁ = cache₂) ∧ w₁ = w₂ := by simpa using hrun₂
    have hseed := fromRoot_of_caches env hcache
    have hroot : FromRoot root cache₁ := by
      refine ⟨hgrows _ hseed.1, fun halias => ?_⟩
      rw [hstuck (fun d hd => described_of_mem env (by rw [hl]; simp [hd])) (hseed.2 halias)]
      exact hseed.2 halias
    rw [← hdrive] at hscope hfuel ⊢
    exact forwards_in_scope_iff env hroot hscope hfuel
  rw [← Start.ensureRemoteRoot_ne_alias_iff env start]
  refine forall_congr' fun c => forall_congr' fun hc => forall_congr' fun hscope => ?_
  constructor
  · rintro (⟨r, hr, hid, hremoved, hfile⟩ | hstays)
    · obtain ⟨c', cache₁, w₁, cache₂, w₂, hcomes, hstep⟩ :=
        (mem_processChanges env hrun r).mp hr
      have hsame : c' = c := by
        obtain ⟨o, cache₃, w₃, hstep', hspec⟩ := processChange_spec env fuel root cache₁ c' w₁
        rw [hstep] at hstep'
        obtain ⟨⟨rfl, -⟩, -⟩ : ((some r = o) ∧ _) ∧ _ := by simpa using hstep'
        obtain ⟨hid', hremoved', hfile'⟩ := hspec.same r rfl
        cases c
        cases c'
        simp_all
      subst hsame
      obtain ⟨hne, hans⟩ := (hforwards hscope hcomes).mp ⟨r, cache₂, w₂, hstep⟩
      exact ⟨hne, cache₁, w₁, hcomes, hans⟩
    · obtain ⟨v, hv⟩ := exists_cursor_moves env ⟨kept, newToken⟩ w
      exact absurd (hstays v) hv
  · rintro ⟨hne, cache₁, w₁, hcomes, hans⟩
    obtain ⟨r, cache₂, w₂, hstep⟩ := (hforwards hscope hcomes).mpr ⟨hne, hans⟩
    refine .inl ⟨r, (mem_processChanges env hrun r).mpr
      ⟨c, cache₁, w₁, cache₂, w₂, hcomes, hstep⟩, ?_⟩
    obtain ⟨o, cache₃, w₃, hstep', hspec⟩ := processChange_spec env fuel root cache₁ c w₁
    rw [hstep] at hstep'
    obtain ⟨⟨rfl, -⟩, -⟩ : ((some r = o) ∧ _) ∧ _ := by simpa using hstep'
    exact hspec.same r rfl

/-- My Drive (1) with the mapped folder `Sync` (2), which holds `Docs/a.txt` (3, 4); the file has
just changed. -/
def docsDrive : Drive where
  files :=
    ⟨⟨[⟨1, "My Drive", folderMime, none, [], false, true, true⟩,
       ⟨2, "Sync", folderMime, none, [1], false, true, true⟩,
       ⟨3, "Docs", folderMime, none, [2], false, true, true⟩,
       ⟨4, "a.txt", "text/plain", some [104, 105], [3], false, true, true⟩], by decide⟩, 5, by decide⟩
  rootNum := 1
  feed := [(4, false)]

/-- The change of `Docs/a.txt`. -/
def docsChange : RawChange :=
  ⟨.id 4, false, some ⟨.id 4, "a.txt", "text/plain", some 2, some "hi", [.id 3], false⟩⟩

lemma docsChange_inScope : InScope docsDrive 2 docsChange := by
  refine ⟨rfl, _, 3, rfl, by decide, rfl, ?_⟩
  exact .child (f := ⟨3, "Docs", folderMime, none, [2], false, true, true⟩) (p := 2)
    (by simp [Serial.mem_def, docsDrive]) (by decide) rfl .top

/-- The world of a daemon with a cursor, before a poll whose second request fails. -/
def lostLookup : World :=
  { World.fresh docsDrive with
    db := { Db.empty with cursor := some 0 }
    remote := ⟨docsDrive, [none, some (.failed (.network "timeout"))]⟩ }

/-- The lookup of the folder `Docs` fails once: the change of the file in it is left out of the
batch, and the cursor moves past it. -/
theorem lost_lookup_drops_change :
    docsChange ∈ docsDrive.changesSince Env.plain.md5 0 ∧ InScope docsDrive 2 docsChange ∧
      ((tick 6 (.id 2) (seedCache (.id 2))).run (handle Env.plain) lostLookup).1 =
        .ok (some ⟨[], 1⟩, seedCache (.id 2)) ∧
      ((Consumer.applyBatch Env.plain ⟨[], 1⟩).run (handle Env.plain) lostLookup).2.db.cursor =
        some 1 ∧
      ¬Delivered Env.plain ⟨[], 1⟩ docsChange := by
  refine ⟨by decide, docsChange_inScope, rfl, rfl, ?_⟩
  rintro (⟨r, hr, -⟩ | hstays)
  · simp at hr
  · have hmoved : some 1 = some 0 := hstays lostLookup
    simp at hmoved

/-- With every request answered, the change of `Docs/a.txt` is delivered. -/
theorem docsChange_delivered :
    Delivered Env.plain ⟨[⟨.id 4, false, docsChange.file, some ["Docs", "a.txt"]⟩], 1⟩
      docsChange := by
  let m : FolderMapping := ⟨"/home/me/Sync", .id 2, none⟩
  let w : World := World.fresh docsDrive
  have start : (Start.ensureRemoteRoot false m).run (handle Env.plain) w = (.ok (.id 2), w) := rfl
  have hfuel : size w.remote.drive + 1 < 6 := by decide
  refine (@delivered_in_scope_iff Env.plain false m w w (.id 2) start 6 _ _ .seed docsDrive 0 1 w w _
    rfl hfuel).mpr ?_ docsChange (List.mem_singleton.mpr rfl) docsChange_inScope
  intro c hc _
  obtain rfl : c = docsChange := List.mem_singleton.mp hc
  refine ⟨Or.inl rfl, seedCache (.id 2), w, ⟨[], [], [], rfl, rfl⟩, ?_⟩
  intro f n _ _
  simp [w, World.fresh, Answered]

end Poller

end AirDrive
