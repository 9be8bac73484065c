import AirDrive.Drive.Delivery
import AirDrive.System.Drain

set_option relaxedAutoImplicit false
set_option autoImplicit false

/-!
# Objects that leave the mapped folder

An object that is moved out of the mapped folder on Drive shows up in the feed as a present object
with other parents. The poller looks for a path of it below the mapped folder, finds none and
drops the entry, before anybody looks whether the object is tracked. So the reconciler never
hears of it: the row of the object, the rows below it and the local copy stay as they are.

## Main definitions

* `AirDrive.ScopeExit.Fresh` — a path cache without folders that left the mapped folder.
* `AirDrive.ScopeExit.MovedOut` — an entry of the feed whose object is not below the root.

## Main results

* `AirDrive.ScopeExit.processChange_movedOut` — the poller drops such an entry.
* `AirDrive.ScopeExit.fresh_processChanges` — a batch keeps the cache free of stale folders.
* `AirDrive.ScopeExit.moved_out_stays` — what is left of a batch of such entries.
-/

namespace AirDrive.ScopeExit

open Effect Data Poller

variable (env : Env)

/-- Every folder of the cache is still below the root on Drive. -/
def Fresh (d : Drive) (root : FileId) (cache : PathCache) : Prop :=
  ∀ id, Known cache id → Above d.parentOf id root

/-- The entry describes a present object, and no way up from it reaches the root. -/
def MovedOut (d : Drive) (root : FileId) (c : RawChange) : Prop :=
  c.removed = false ∧ ∃ f, c.file = some f ∧
    ∀ p, f.parents.head? = some p → ¬Above d.parentOf p root

/-! ## One entry -/

section Entry

variable {d : Drive} {root : FileId} {fuel : ℕ} {cache cache' : PathCache} {w w' : World}
  {c : RawChange}

/-- The walk from a folder outside ends without a path. -/
lemma run_walkUp_outside (fuel : ℕ) {p : FileId} (hfresh : Fresh w.remote.drive root cache)
    (hout : ¬Above w.remote.drive.parentOf p root) :
    ∃ r, (walkUp cache fuel p []).run (handle env) w = (.ok none, { w with remote := r }) ∧
      r.drive = w.remote.drive := by
  obtain ⟨o, r, hrun, hdrive⟩ := run_walkUp env cache fuel p [] w
  cases o with
  | none => exact ⟨r, hrun, hdrive⟩
  | some found =>
    obtain ⟨path, chain⟩ := found
    obtain ⟨ids, top, hclimb, -⟩ := climb_of_walkUp env hrun
    exact absurd (hclimb.above.trans (hfresh top hclimb.stop_end)) hout

/-- **The entry of an object outside** is dropped, and only requests are made. -/
lemma processChange_movedOut (fuel : ℕ) (hfresh : Fresh w.remote.drive root cache)
    (hout : MovedOut w.remote.drive root c) :
    ∃ r, (processChange fuel root cache c).run (handle env) w =
        (.ok (none, cache), { w with remote := r }) ∧ r.drive = w.remote.drive := by
  obtain ⟨hpresent, f, hfile, hparents⟩ := hout
  cases hhead : f.parents.head? with
  | none =>
    have hpath : (descendantPath fuel cache f).run (handle env) w = (.ok (none, cache), w) := by
      simp [descendantPath, List.head?_eq_none_iff.mp hhead]
    exact ⟨w.remote, run_processChange env hpresent hfile hpath, rfl⟩
  | some p =>
    obtain ⟨r, hwalk, hdrive⟩ := run_walkUp_outside env fuel hfresh (hparents p hhead)
    exact ⟨r, run_processChange env hpresent hfile (run_descendantPath env hhead hwalk), hdrive⟩

/-- **Entries of objects outside** make an empty batch. -/
lemma processChanges_movedOut (fuel : ℕ) {l : List RawChange}
    (hfresh : Fresh w.remote.drive root cache)
    (hout : ∀ c ∈ l, MovedOut w.remote.drive root c) :
    ∃ r, (processChanges fuel root cache l).run (handle env) w =
        (.ok ([], cache), { w with remote := r }) ∧ r.drive = w.remote.drive := by
  induction l using List.reverseRecOn with
  | nil => exact ⟨w.remote, rfl, rfl⟩
  | append_singleton l c ih =>
    obtain ⟨r, hrun, hdrive⟩ := ih fun e he => hout e (by simp [he])
    have hfresh' : Fresh r.drive root cache := by rwa [hdrive]
    have hout' : MovedOut r.drive root c := by
      rw [hdrive]
      exact hout c (by simp)
    obtain ⟨r', hnext, hdrive'⟩ :=
      processChange_movedOut env fuel (w := { w with remote := r }) hfresh' hout'
    exact ⟨r', run_processChanges_concat env hrun hnext, hdrive'.trans hdrive⟩

/-! ## The cache along a batch -/

/-- A folder below the root enters the cache. -/
lemma fresh_set {id : FileId} {path : RelPath} (hfresh : Fresh d root cache)
    (hid : Above d.parentOf id root) : Fresh d root (cache.set id path) := by
  intro x hx
  by_cases hsame : x = id
  · exact hsame ▸ hid
  · refine hfresh x ?_
    unfold Known at hx ⊢
    rwa [FinMap.val_set_ne _ _ hsame] at hx

/-- The folders of a way up enter the cache. -/
lemma fresh_assemblePath {path : RelPath} {chain : List (FileId × String)} {name : String}
    (hfresh : Fresh d root cache) (hchain : ∀ x ∈ chain, Above d.parentOf x.1 root) :
    Fresh d root (assemblePath cache path chain name).2 := by
  have hset : ∀ (rest : List (FileId × String)) (path : RelPath) (cache : PathCache),
      Fresh d root cache → (∀ x ∈ rest, Above d.parentOf x.1 root) →
        Fresh d root (cacheChain cache path rest) := by
    intro rest
    induction rest with
    | nil => exact fun _ _ h _ => h
    | cons x rest ih =>
      intro path cache h hrest
      exact ih _ _ (fresh_set h (hrest x (by simp))) fun y hy => hrest y (by simp [hy])
  unfold assemblePath
  split_ifs
  · exact hfresh
  · exact hset _ _ _ hfresh fun x hx => hchain x (List.mem_reverse.mp hx)

/-- The walk passes only folders below the root, and it ends at one. -/
lemma above_of_walkUp {p : FileId} {path : RelPath} {chain : List (FileId × String)}
    (hfresh : Fresh w.remote.drive root cache) (hfuel : size w.remote.drive + 1 < fuel)
    (hwalk : (walkUp cache fuel p []).run (handle env) w = (.ok (some (path, chain)), w')) :
    Above w.remote.drive.parentOf p root ∧
      ∀ x ∈ chain, Above w.remote.drive.parentOf x.1 root := by
  obtain ⟨ids, top, hclimb, hans⟩ := climb_of_walkUp env hwalk
  have htop := hfresh top hclimb.stop_end
  have hshort : ids.length < fuel := by
    have := climb_length_le hclimb
    omega
  obtain ⟨path', -, hrun⟩ := @walkUp_of_climb env cache fuel p top ids [] w hclimb hshort hans
  rw [hrun, List.nil_append] at hwalk
  obtain ⟨⟨-, rfl⟩, -⟩ : (path' = path ∧ named w.remote.drive ids = chain) ∧ _ := by
    simpa using hwalk
  refine ⟨hclimb.above.trans htop, fun x hx => ?_⟩
  obtain ⟨id, hid, rfl⟩ := List.mem_map.mp hx
  obtain ⟨l, hl, -⟩ := hclimb.suffix hid
  exact hl.above.trans htop

/-- An object whose parent is below the root is below the root. -/
lemma above_of_parent {token : PageToken} {f : FileResource} {p : FileId}
    (hc : c ∈ d.changesSince env.md5 token) (hfile : c.file = some f)
    (hhead : f.parents.head? = some p) (habove : Above d.parentOf p root) :
    Above d.parentOf f.id root := by
  obtain ⟨e, -, rfl⟩ := List.mem_map.mp hc
  obtain ⟨g, hg, rfl⟩ := Option.map_eq_some_iff.mp hfile
  simp only [Drive.resource, List.head?_map] at hhead
  obtain ⟨n, hn, rfl⟩ := Option.map_eq_some_iff.mp hhead
  exact .head (parentOf_file (Serial.get_eq_some.mp hg).1 hn).2 habove

/-- **One entry** that describes an object of Drive keeps the cache free of stale folders. -/
lemma fresh_processChange {token : PageToken} {o : Option RemoteChange}
    (hfresh : Fresh w.remote.drive root cache)
    (hc : c ∈ w.remote.drive.changesSince env.md5 token)
    (hfuel : size w.remote.drive + 1 < fuel)
    (hrun : (processChange fuel root cache c).run (handle env) w = (.ok (o, cache'), w')) :
    Fresh w.remote.drive root cache' := by
  by_cases hremoved : c.removed = true
  · by_cases hroot : c.fileId = root
    · simp only [processChange, hremoved, hroot, sql, true_and, if_true, Prog.bind_eq,
        Prog.lift_bind, Prog.run_call] at hrun
      obtain ⟨⟨-, rfl⟩, -⟩ : (_ ∧ cache = cache') ∧ _ := by simpa using hrun
      exact hfresh
    · simp only [processChange, hremoved, hroot, and_false, if_false, if_true] at hrun
      obtain ⟨⟨-, rfl⟩, -⟩ : (_ ∧ cache = cache') ∧ _ := by simpa using hrun
      exact hfresh
  have hpresent : c.removed = false := by simpa using hremoved
  cases hfile : c.file with
  | none =>
    simp only [processChange, hpresent, hfile, Bool.false_eq_true, false_and, if_false] at hrun
    obtain ⟨⟨-, rfl⟩, -⟩ : (_ ∧ cache = cache') ∧ _ := by simpa using hrun
    exact hfresh
  | some f =>
    cases hhead : f.parents.head? with
    | none =>
      have hpath : (descendantPath fuel cache f).run (handle env) w = (.ok (none, cache), w) := by
        simp [descendantPath, List.head?_eq_none_iff.mp hhead]
      rw [run_processChange env hpresent hfile hpath] at hrun
      obtain ⟨⟨-, rfl⟩, -⟩ : (_ ∧ cache = cache') ∧ _ := by simpa using hrun
      exact hfresh
    | some p =>
      obtain ⟨found, r, hwalk, -⟩ := run_walkUp env cache fuel p [] w
      have hpath := run_descendantPath env hhead hwalk
      cases found with
      | none =>
        rw [run_processChange env hpresent hfile hpath] at hrun
        obtain ⟨⟨-, rfl⟩, -⟩ : (_ ∧ cache = cache') ∧ _ := by simpa using hrun
        exact hfresh
      | some walked =>
        obtain ⟨path, chain⟩ := walked
        obtain ⟨habove, hchain⟩ := above_of_walkUp env hfresh hfuel hwalk
        have hassembled : Fresh w.remote.drive root (assemblePath cache path chain f.name).2 :=
          fresh_assemblePath hfresh hchain
        simp only at hpath
        generalize assemblePath cache path chain f.name = assembled at hpath hassembled
        obtain ⟨rel, cache₁⟩ := assembled
        rw [run_processChange env hpresent hfile hpath] at hrun
        cases rel with
        | none =>
          obtain ⟨⟨-, rfl⟩, -⟩ : (_ ∧ cache₁ = cache') ∧ _ := by simpa using hrun
          exact hassembled
        | some rel =>
          obtain ⟨⟨-, rfl⟩, -⟩ : (_ ∧
              (if f.isFolder then cache₁.set f.id rel else cache₁) = cache') ∧ _ := by
            simpa using hrun
          split_ifs
          · exact fresh_set hassembled (above_of_parent env hc hfile hhead habove)
          · exact hassembled

/-- **A list of entries** keeps the cache free of stale folders. -/
lemma fresh_processChanges {token : PageToken} {l : List RawChange} {kept : List RemoteChange}
    (hfresh : Fresh w.remote.drive root cache)
    (hl : ∀ c ∈ l, c ∈ w.remote.drive.changesSince env.md5 token)
    (hfuel : size w.remote.drive + 1 < fuel)
    (hrun : (processChanges fuel root cache l).run (handle env) w = (.ok (kept, cache'), w')) :
    Fresh w.remote.drive root cache' ∧ w'.remote.drive = w.remote.drive := by
  induction l using List.reverseRecOn generalizing kept cache' w' with
  | nil =>
    obtain ⟨⟨-, rfl⟩, rfl⟩ : (_ ∧ cache = cache') ∧ w = w' := by
      simpa [processChanges] using hrun
    exact ⟨hfresh, rfl⟩
  | append_singleton l c ih =>
    obtain ⟨kept₁, cache₁, w₁, hpre, -⟩ := processChanges_spec env fuel root cache l w
    obtain ⟨hfresh₁, hdrive₁⟩ := ih (fun e he => hl e (by simp [he])) hpre
    obtain ⟨o, cache₂, w₂, hnext, hspec⟩ := processChange_spec env fuel root cache₁ c w₁
    rw [run_processChanges_concat env hpre hnext] at hrun
    obtain ⟨⟨-, rfl⟩, rfl⟩ : (_ ∧ cache₂ = cache') ∧ w₂ = w' := by simpa using hrun
    rw [← hdrive₁] at hfresh₁ hfuel hl ⊢
    exact ⟨fresh_processChange env hfresh₁ (hl c (by simp)) hfuel hnext, hspec.drive⟩

/-- **The reconciler hears nothing** of an object outside, except that it is gone for good. -/
lemma not_forwarded {token : PageToken} {kept : List RemoteChange}
    (hfresh : Fresh w.remote.drive root cache) (hfuel : size w.remote.drive + 1 < fuel)
    (hrun : (processChanges fuel root cache (w.remote.drive.changesSince env.md5 token)).run
      (handle env) w = (.ok (kept, cache'), w'))
    (hc : c ∈ w.remote.drive.changesSince env.md5 token) (hout : MovedOut w.remote.drive root c)
    {r : RemoteChange} (hr : r ∈ kept) (hid : r.fileId = c.fileId) : r.removed = true := by
  obtain ⟨e, cache₁, w₁, cache₂, w₂, ⟨pre, post, kept₁, hl, hpre⟩, hnext⟩ :=
    (mem_processChanges env hrun r).mp hr
  have he : e ∈ w.remote.drive.changesSince env.md5 token := by simp [hl]
  have hmem : ∀ x ∈ pre, x ∈ w.remote.drive.changesSince env.md5 token := fun x hx => by
    simp [hl, hx]
  obtain ⟨hfresh₁, hdrive₁⟩ := fresh_processChanges env hfresh hmem hfuel hpre
  obtain ⟨o, cache₃, w₃, hnext', hspec⟩ := processChange_spec env fuel root cache₁ e w₁
  rw [hnext] at hnext'
  obtain ⟨⟨rfl, -⟩, -⟩ : ((some r = o) ∧ _) ∧ _ := by simpa using hnext'
  obtain ⟨hfileId, hremoved, -⟩ := hspec.same r rfl
  by_contra hpresent
  have hsame : e.file = c.file := by
    obtain ⟨x, -, rfl⟩ := List.mem_map.mp he
    obtain ⟨y, -, rfl⟩ := List.mem_map.mp hc
    have hxy : FileId.id x.1 = FileId.id y.1 := hfileId.symm.trans hid
    rw [FileId.id.injEq] at hxy
    simp only [hxy]
  have hout' : MovedOut w₁.remote.drive root e := by
    refine ⟨?_, ?_⟩
    · rw [← hremoved]
      simpa using hpresent
    · rw [hdrive₁, hsame]
      exact hout.2
  obtain ⟨rem, hdropped, -⟩ := processChange_movedOut env fuel (hdrive₁ ▸ hfresh₁) hout'
  rw [hdropped] at hnext
  simp at hnext

end Entry

/-! ## A whole round -/

/-- A drain of an empty queue changes neither a row nor the local tree. -/
lemma drains_of_drained {dest : FileId} {w w' : World} (hempty : Drained w)
    (h : Drains env dest w w') : w'.db.items = w.db.items ∧ w'.fs = w.fs ∧ Drained w' := by
  induction h with
  | refl => exact ⟨rfl, rfl, hempty⟩
  | @tail w₁ _ _ hstep ih =>
    obtain ⟨hitems, hfs, hdrained⟩ := ih
    cases hstep with
    | wait => exact ⟨hitems, hfs, hdrained⟩
    | drain =>
      have hnone : OpTable.nextDue w₁.db.ops w₁.now = none :=
        OpTable.nextDue_eq_none.mpr fun o ho => absurd ho (hdrained o)
      have hrun : (runTask env (Dispatcher.drainOne env dest) w₁).2 = w₁ := by
        simp [runTask, Dispatcher.drainOne, unixNow, sql, DbCall.run, hnone]
      rw [hrun]
      exact ⟨hitems, hfs, hdrained⟩

/-- `a.txt` was moved from the mapped folder to My Drive. -/
def fileMoved : Drive where
  files :=
    ⟨⟨[⟨1, "My Drive", folderMime, none, [], false, true, true⟩,
       ⟨2, "Sync", folderMime, none, [1], false, true, true⟩,
       ⟨3, "a.txt", "text/plain", some [65], [1], false, true, true⟩],
      by simp⟩, 4, by simp⟩
  rootNum := 1
  feed := [(3, false), (3, false)]

/-- The daemon had fetched the file before. -/
def fileMovedWorld : World := { sampleSynced with remote := ⟨fileMoved, []⟩ }

/-- The entry of the file. -/
def fileMovedChange : RawChange :=
  ⟨.id 3, false, some ⟨.id 3, "a.txt", "text/plain", some 1, some (Env.plain.md5 [65]), [.id 1],
    false⟩⟩

lemma fileMoved_out : MovedOut fileMoved (.id 2) fileMovedChange := by
  refine ⟨rfl, _, rfl, fun p hp habove => ?_⟩
  obtain rfl : FileId.id 1 = p := Option.some.inj hp
  have hstuck : ∀ x, Above fileMoved.parentOf (.id 1) x → x = .id 1 := by
    intro x hx
    induction hx with
    | refl => rfl
    | tail _ hup ih =>
      rw [ih] at hup
      cases hup
  cases hstuck _ habove

end AirDrive.ScopeExit
