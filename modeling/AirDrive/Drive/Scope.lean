import AirDrive.Cli.Start
import AirDrive.Data.Climb

set_option relaxedAutoImplicit false
set_option autoImplicit false

/-!
# Which changes the poller forwards

The walk of the poller from an object up its parents is a climb to the first folder of the path
cache, with one request for each folder that is passed. It finds that folder exactly when the
climb exists and none of these requests goes wrong; both a missing climb and a failed request
end it with the same answer, "out of scope".

## Main definitions

* `AirDrive.Poller.InScope` — the change of an object below the mapped folder.
* `AirDrive.Poller.Lookups` — how many requests the walk needs.
* `AirDrive.Poller.Caches` — the caches of a running poller.
* `AirDrive.Poller.Delivered` — a change is in the batch, or applying the batch never moves the
  cursor.

## Main results

* `AirDrive.Poller.walkUp_of_climb`, `AirDrive.Poller.climb_of_walkUp` — the walk is the climb.
* `AirDrive.Poller.forwarded_iff` — when a change in scope is forwarded.
* `AirDrive.Poller.delivered_in_scope_iff` — when no change in scope is lost.
-/

namespace AirDrive.Poller

open Effect Data Remote

variable (env : Env)

/-- The folder is in the cache. -/
def Known (cache : PathCache) (id : FileId) : Prop := cache.val id ≠ none

/-! ## The walk is a climb -/

/-- The world after `n` requests that change nothing on Drive. -/
def afterRequests (w : World) (n : ℕ) : World :=
  { w with remote := ⟨w.remote.drive, w.remote.faults.drop n⟩ }

/-- The folders passed by a walk, with their names. -/
def named (d : Drive) (ids : List FileId) : List (FileId × String) :=
  ids.map fun id => (id, d.nameOf id)

/-- **The walk follows the climb** when all its requests go well.

**Proof sketch.** Induction on the fuel. A folder of the cache ends both; any other folder is
looked up by one request, which answers its name and the next folder of the climb. -/
lemma walkUp_of_climb {cache : PathCache} {fuel : ℕ} {id top : FileId} {ids : List FileId}
    {acc : List (FileId × String)} {w : World}
    (hclimb : Climb w.remote.drive.parentOf (Known cache) id ids top)
    (hfuel : ids.length < fuel) (hans : Answered w.remote.faults ids.length) :
    ∃ path, cache.val top = some path ∧
      (walkUp cache fuel id acc).run (handle env) w =
        (.ok (some (path, acc ++ named w.remote.drive ids)), afterRequests w ids.length) := by
  induction fuel generalizing id ids acc w with
  | zero => omega
  | succ fuel ih =>
    cases hclimb with
    | here hknown =>
      obtain ⟨path, hpath⟩ := Option.ne_none_iff_exists'.mp hknown
      refine ⟨path, hpath, ?_⟩
      simp only [walkUp, hpath]
      simp [named, afterRequests]
    | @step _ b _ l hknown hup hrest =>
      have hnone : cache.val id = none := by simpa [Known] using hknown
      obtain ⟨f, n, hfile, hhead, rfl⟩ := Drive.parentOf_eq_some.mp hup
      obtain ⟨rest, hparents⟩ := List.head?_eq_some_iff.mp hhead
      rw [List.length_cons] at hfuel hans
      obtain ⟨hnow, hlater⟩ := answered_succ.mp hans
      have hsend := @Remote.send_answered _ env.md5 (.getFile id) _ hnow
      have hrun : DriveCall.run env.md5 (.getFile id) w.remote.drive =
          (.ok (Drive.resource env.md5 f), w.remote.drive) := by
        simp [DriveCall.run, DriveCall.onFile, hfile]
      rw [hrun] at hsend
      obtain ⟨path, hpath, hwalk⟩ := @ih (.id n) l (acc ++ [(id, f.name)])
        { w with remote := ⟨w.remote.drive, w.remote.faults.tail⟩ } hrest (by omega) hlater
      refine ⟨path, hpath, ?_⟩
      simp only [walkUp, hnone, Prog.bind_eq, request, Prog.attempt_call, Prog.attempt_ofExcept,
        Prog.call_bind, Prog.pure_bind, Prog.run_call, handle_drive, hsend]
      simp only [Drive.resource, hparents, List.map_cons]
      rw [hwalk]
      simp [named, afterRequests, Drive.nameOf, hfile, List.drop_tail]

/-- **A walk that finds a folder followed a climb**, and all its requests went well.

**Proof sketch.** Induction on the fuel: a folder outside the cache was passed only if its lookup
was answered and named a folder above. -/
lemma climb_of_walkUp {cache : PathCache} {fuel : ℕ} {id : FileId} {path : RelPath}
    {acc chain : List (FileId × String)} {w w' : World}
    (h : (walkUp cache fuel id acc).run (handle env) w = (.ok (some (path, chain)), w')) :
    ∃ ids top, Climb w.remote.drive.parentOf (Known cache) id ids top ∧
      Answered w.remote.faults ids.length := by
  induction fuel generalizing id acc w with
  | zero => simp [walkUp] at h
  | succ fuel ih =>
    cases hcache : cache.val id with
    | some p => exact ⟨[], id, .here (by simp [Known, hcache]), by simp⟩
    | none =>
      have hunknown : ¬Known cache id := by simp [Known, hcache]
      simp only [walkUp, hcache, Prog.bind_eq, request, Prog.attempt_call, Prog.attempt_ofExcept,
        Prog.call_bind, Prog.pure_bind, Prog.run_call, handle_drive] at h
      by_cases hnow : w.remote.faults.headD none = none
      · rw [Remote.send_answered hnow] at h
        cases hfile : w.remote.drive.file id with
        | none => simp [DriveCall.run, DriveCall.onFile, hfile] at h
        | some f =>
          have hrun : DriveCall.run env.md5 (.getFile id) w.remote.drive =
              (.ok (Drive.resource env.md5 f), w.remote.drive) := by
            simp [DriveCall.run, DriveCall.onFile, hfile]
          rw [hrun] at h
          cases hparents : f.parents with
          | nil => simp [Drive.resource, hparents] at h
          | cons n rest =>
            simp only [Drive.resource, hparents, List.map_cons] at h
            obtain ⟨ids, top, hclimb, hlater⟩ := ih h
            have hup : w.remote.drive.parentOf id = some (.id n) :=
              Drive.parentOf_eq_some.mpr ⟨f, n, hfile, by simp [hparents], rfl⟩
            refine ⟨id :: ids, top, .step hunknown hup hclimb, ?_⟩
            exact answered_succ.mpr ⟨hnow, hlater⟩
      · obtain ⟨e, he⟩ := @Remote.send_faulty _ env.md5 (.getFile id) _ hnow
        rw [he] at h
        simp at h

/-- The number of objects on Drive. -/
def size (d : Drive) : ℕ := d.files.table.rows.length

/-- A walk up Drive ends: it passes no object twice, whatever the parents look like. -/
lemma climb_length_le {d : Drive} {stop : FileId → Prop} {id top : FileId} {ids : List FileId}
    (h : Climb d.parentOf stop id ids top) : ids.length ≤ size d + 1 := by
  have hkeys : ∀ x, d.parentOf x ≠ none →
      x ∈ FileId.rootAlias :: d.files.table.rows.map fun f => FileId.id f.num := by
    intro x hx
    obtain ⟨p, hp⟩ := Option.ne_none_iff_exists'.mp hx
    obtain ⟨f, -, hf, -, -⟩ := Drive.parentOf_eq_some.mp hp
    obtain ⟨hmem, hnum⟩ := Serial.get_eq_some.mp hf
    cases x with
    | rootAlias => exact List.mem_cons_self
    | id n =>
      obtain rfl : f.num = n := hnum
      exact List.mem_cons_of_mem _ (List.mem_map.mpr ⟨f, hmem, rfl⟩)
  have hlen := h.length_le hkeys
  rwa [List.length_cons, List.length_map] at hlen

/-! ## One change -/

/-- A walk does not fail and changes nothing on Drive. -/
lemma run_walkUp (cache : PathCache) (fuel : ℕ) (id : FileId) (acc : List (FileId × String))
    (w : World) : ∃ o r, (walkUp cache fuel id acc).run (handle env) w =
      (.ok o, { w with remote := r }) ∧ r.drive = w.remote.drive := by
  induction fuel generalizing id acc w with
  | zero => exact ⟨none, w.remote, rfl, rfl⟩
  | succ fuel ih =>
    cases hcache : cache.val id with
    | some path => exact ⟨some (path, acc), w.remote, by simp [walkUp, hcache], rfl⟩
    | none =>
      simp only [walkUp, hcache, Prog.bind_eq, request, Prog.attempt_call, Prog.attempt_ofExcept,
        Prog.call_bind, Prog.pure_bind, Prog.run_call, handle_drive]
      have hdrive : (w.remote.send env.md5 (.getFile id)).2.drive = w.remote.drive :=
        Remote.send_getFile_drive
      generalize w.remote.send env.md5 (.getFile id) = answer at hdrive ⊢
      obtain ⟨res, r⟩ := answer
      cases res with
      | error e => exact ⟨none, r, rfl, hdrive⟩
      | ok raw =>
        cases hparents : raw.parents with
        | nil => exact ⟨none, r, by simp [hparents], hdrive⟩
        | cons next rest =>
          obtain ⟨o, r', hrun, hr'⟩ := ih next (acc ++ [(id, raw.name)]) { w with remote := r }
          refine ⟨o, r', ?_, hr'.trans hdrive⟩
          simpa only [hparents] using hrun

/-- What `descendant_path` does with the outcome of the walk. -/
lemma run_descendantPath {fuel : ℕ} {cache : PathCache} {f : FileResource} {p : FileId}
    {w w' : World} {o : Option (RelPath × List (FileId × String))}
    (hhead : f.parents.head? = some p)
    (hwalk : (walkUp cache fuel p []).run (handle env) w = (.ok o, w')) :
    (descendantPath fuel cache f).run (handle env) w =
      (.ok (match o with
        | none => (none, cache)
        | some (path, chain) => assemblePath cache path chain f.name), w') := by
  obtain ⟨rest, hparents⟩ := List.head?_eq_some_iff.mp hhead
  simp only [descendantPath, hparents, Prog.bind_eq]
  rw [Prog.run_bind_ok _ hwalk]
  match o with
  | none => rfl
  | some (path, chain) => rfl

/-- What the poller does with the path of an object. -/
lemma run_processChange {fuel : ℕ} {root : FileId} {cache cache' : PathCache} {c : RawChange}
    {f : FileResource} {w w' : World} {o : Option RelPath} (hremoved : c.removed = false)
    (hfile : c.file = some f)
    (hpath : (descendantPath fuel cache f).run (handle env) w = (.ok (o, cache'), w')) :
    (processChange fuel root cache c).run (handle env) w =
      (.ok (match o with
        | none => (none, cache')
        | some rel => (some ⟨c.fileId, false, some f, some rel⟩,
            if f.isFolder then cache'.set f.id rel else cache')), w') := by
  simp only [processChange, hremoved, hfile, Bool.false_eq_true, false_and, if_false,
    Prog.bind_eq]
  rw [Prog.run_bind_ok _ hpath]
  match o with
  | none => rfl
  | some rel => rfl

/-- The walk of an object needs `n` requests: that many folders lie between the object and the
first folder of the cache above it. -/
def Lookups (cache : PathCache) (d : Drive) (f : FileResource) (n : ℕ) : Prop :=
  ∃ p ids top, f.parents.head? = some p ∧ Climb d.parentOf (Known cache) p ids top ∧
    ids.length = n

/-- A change is forwarded when the poller comes to it with this cache and in this world. -/
def Forwards (env : Env) (fuel : ℕ) (root : FileId) (cache : PathCache) (w : World)
    (c : RawChange) : Prop :=
  ∃ r cache' w', (processChange fuel root cache c).run (handle env) w =
    (.ok (some r, cache'), w')

/-- The names of the folders above an object, up to the cache, are safe. -/
def SafeWay (cache : PathCache) (d : Drive) (f : FileResource) : Prop :=
  ∀ p ids top, f.parents.head? = some p → Climb d.parentOf (Known cache) p ids top →
    ∀ x ∈ ids, isSafeName (d.nameOf x) = true

/-- A path of safe names is assembled. -/
lemma assemblePath_safe {cache : PathCache} {path : RelPath} {chain : List (FileId × String)}
    {name : String} (hname : isSafeName name = true)
    (hchain : ∀ c ∈ chain, isSafeName c.2 = true) :
    assemblePath cache path chain name =
      (some (path ++ chain.reverse.map Prod.snd ++ [name]),
        cacheChain cache path chain.reverse) := by
  have hnone : (chain.any fun c => !isSafeName c.2) = false := by
    rw [List.any_eq_false]
    intro c hc
    simp [hchain c hc]
  simp [assemblePath, hname, hnone]

/-- **One change** of an object whose way up has safe names is forwarded exactly when there is a
folder of the cache above it and all the requests up to it go well.

**Proof sketch.** The walk ends at a folder exactly when the climb exists and is answered
(`walkUp_of_climb`, `climb_of_walkUp`); the safe names then always make a path. -/
lemma forwards_iff {fuel : ℕ} {root : FileId} {cache : PathCache} {w : World} {c : RawChange}
    {f : FileResource} (hremoved : c.removed = false) (hfile : c.file = some f)
    (hname : isSafeName f.name = true) (hsafe : SafeWay cache w.remote.drive f)
    (hfuel : size w.remote.drive + 1 < fuel) :
    Forwards env fuel root cache w c ↔
      ∃ n, Lookups cache w.remote.drive f n ∧ Answered w.remote.faults n := by
  constructor
  · rintro ⟨r, cache', w', h⟩
    cases hhead : f.parents.head? with
    | none =>
      have hparents : f.parents = [] := List.head?_eq_none_iff.mp hhead
      have hpath : (descendantPath fuel cache f).run (handle env) w = (.ok (none, cache), w) := by
        simp [descendantPath, hparents]
      rw [run_processChange env hremoved hfile hpath] at h
      simp at h
    | some p =>
      obtain ⟨o, rem, hwalk, -⟩ := run_walkUp env cache fuel p [] w
      cases o with
      | none =>
        rw [run_processChange env hremoved hfile (run_descendantPath env hhead hwalk)] at h
        simp at h
      | some found =>
        obtain ⟨ids, top, hclimb, hans⟩ := @climb_of_walkUp env _ _ _ found.1 _ found.2 _ _ hwalk
        exact ⟨ids.length, ⟨p, ids, top, hhead, hclimb, rfl⟩, hans⟩
  · rintro ⟨n, ⟨p, ids, top, hhead, hclimb, rfl⟩, hans⟩
    have hlen := climb_length_le hclimb
    obtain ⟨path, -, hwalk⟩ := @walkUp_of_climb env _ fuel _ _ _ [] _ hclimb (by omega) hans
    have hchain : ∀ c ∈ [] ++ named w.remote.drive ids, isSafeName c.2 = true := by
      intro c hc
      obtain ⟨x, hx, rfl⟩ := List.mem_map.mp (by simpa using hc : c ∈ named w.remote.drive ids)
      exact hsafe p ids top hhead hclimb x hx
    have hpath := run_descendantPath env hhead hwalk
    simp only [assemblePath_safe hname hchain] at hpath
    exact ⟨_, _, _, run_processChange env hremoved hfile hpath⟩

end AirDrive.Poller
