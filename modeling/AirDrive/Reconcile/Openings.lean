import AirDrive.Local.Merge
import AirDrive.Reconcile.Conflict

set_option relaxedAutoImplicit false
set_option autoImplicit false

/-!
# Opening conflicts, one after the other

A conflict name says the second in which the conflict was opened and nothing else, and the rename to
it replaces a file that has the name. So opening a conflict destroys nothing as long as no file has
the name whose bytes are nowhere else, and two records of one path name different files as long as
none of the open ones names the path that the new one will.

## Main definitions

* `AirDrive.Openings.Step` — a call of `open_conflict`, or what happens between two calls.
* `AirDrive.Openings.Harmless` — no call of a sequence destroys anything, and the records of a path
  name different files throughout.
* `AirDrive.Openings.Meets` — the conflict name is free for the call.

## Main results

* `AirDrive.Openings.spared_rename_iff` — when a rename destroys nothing.
* `AirDrive.Openings.harmless_iff` — which sequences are harmless.
-/

namespace AirDrive.Openings

open Effect Conflict

/-! ## What must not happen -/

/-- Every file's bytes are still there, at some path. -/
def Spared (fs fs' : Fs) : Prop :=
  ∀ p b, fs.node p = some (.file b) → ∃ q, fs'.node q = some (.file b)

/-- Different records of one path name different files. -/
def Distinct (db : Db) : Prop :=
  ∀ c ∈ db.conflicts, ∀ c' ∈ db.conflicts, c.id ≠ c'.id →
    c.originalRelativePath = c'.originalRelativePath →
      c.conflictRelativePath ≠ c'.conflictRelativePath

/-- A step of a sequence. -/
inductive Step
  /-- `open_conflict`, at a clock value. -/
  | call (item : ItemId) (canonical : RelPath) (now : ℕ)
  /-- The user or the daemon does something else. -/
  | other (w : World)

/-- The world after a step. -/
def Step.perform (env : Env) : Step → World → World
  | call item canonical now, w => ((openConflict item canonical now).run (handle env) w).2
  | other w', _ => w'

/-- Nobody else records conflicts. -/
def Step.Allowed : Step → World → Prop
  | call _ _ _, _ => True
  | other w', w => ∀ c ∈ w'.db.conflicts, c ∈ w.db.conflicts

/-- A call destroys nothing. -/
def Step.Spares (env : Env) : Step → World → Prop
  | call item canonical now, w => Spared w.fs ((Step.call item canonical now).perform env w).fs
  | other _, _ => True

/-- The call can go through: its row is there, and so is not what would make the rename fail. -/
def Opens (item : ItemId) (canonical : RelPath) (now : ℕ) (w : World) : Prop :=
  (∃ r ∈ w.db.items, r.id = item) ∧ (w.fs.node canonical = none ∨
    ∃ fs', w.fs.rename canonical (conflictPathFor canonical now) = .ok fs')

/-- The conflict name is free: no file has it whose bytes are nowhere else, and no open record of the
path names it. -/
structure Free (item : ItemId) (canonical : RelPath) (now : ℕ) (w : World) : Prop where
  onDisk : ∀ b b', w.fs.node canonical = some (.file b) →
    w.fs.node (conflictPathFor canonical now) = some (.file b') →
      ∃ q, q ≠ conflictPathFor canonical now ∧ w.fs.node q = some (.file b')
  inTable : Opens item canonical now w → ∀ c ∈ w.db.conflicts, c.originalRelativePath = canonical →
    c.conflictRelativePath ≠ conflictPathFor canonical now

/-- A call whose conflict name is free. -/
def Step.Meets : Step → World → Prop
  | call item canonical now, w => Free item canonical now w
  | other _, _ => True

/-- All steps of a sequence, each in the world it finds. -/
def Throughout (env : Env) (P : Step → World → Prop) : List Step → World → Prop
  | [], _ => True
  | s :: steps, w => P s w ∧ Throughout env P steps (s.perform env w)

/-- No call of a sequence destroys anything, and the records are distinct after every step. -/
def Harmless (env : Env) (steps : List Step) (w : World) : Prop :=
  Throughout env (fun s w => s.Spares env w ∧ Distinct (s.perform env w).db) steps w

/-! ## The rename -/

section Rename

variable {fs fs' : Fs} {old new : RelPath}

/-- A rename that succeeds, to a path that is not the old one, moves the tree. -/
lemma moves_of_rename (hne : old ≠ new) (h : fs.rename old new = .ok fs') :
    ∃ hm : fs.Movable old new, fs' = fs.moveTree old new hm := by
  unfold Fs.rename at h
  split_ifs at h with hold hnone hparent hmove hbare
  · split at h
    · cases h
    · cases h
    · exact ⟨_, (Except.ok.inj h).symm⟩
  · split at h <;> cases h

/-- A rename destroys at most the file that is replaced. -/
lemma found_of_rename (hne : old ≠ new) (h : fs.rename old new = .ok fs') {p : RelPath} {b : Bytes}
    (hp : fs.node p = some (.file b)) (hnew : p ≠ new) : ∃ q, fs'.node q = some (.file b) := by
  obtain ⟨hm, rfl⟩ := moves_of_rename hne h
  by_cases hbelow : old <+: p
  · obtain ⟨r, rfl⟩ := hbelow
    exact ⟨new ++ r, Fs.node_moveTree_moved r hp⟩
  · refine ⟨p, ?_⟩
    rw [Fs.node_moveTree_fixed hbelow, hp]
    rintro ⟨r, rfl⟩
    cases r with
    | nil => exact hnew (by simp)
    | cons x r =>
      rw [hm.free r x] at hp
      cases hp

/-- A file that is there afterwards was there, at a path other than the one replaced. -/
lemma found_before_rename (hne : old ≠ new) (h : fs.rename old new = .ok fs') {q : RelPath}
    {b : Bytes} (hq : fs'.node q = some (.file b)) :
    ∃ p, p ≠ new ∧ fs.node p = some (.file b) := by
  obtain ⟨hm, rfl⟩ := moves_of_rename hne h
  have hmoved := Fs.moved_moveTree hm
  by_cases hold : old <+: q
  · obtain ⟨r, rfl⟩ := hold
    rw [hmoved.left r trivial] at hq
    cases hq
  · by_cases hnew : new <+: q
    · obtain ⟨r, rfl⟩ := hnew
      rw [hmoved.arrived r trivial] at hq
      cases hsrc : fs.node (old ++ r) with
      | some n =>
        rw [hsrc, Option.some_or] at hq
        exact ⟨old ++ r, fun heq => hm.outside (heq ▸ List.prefix_append old r), hsrc.trans hq⟩
      | none =>
        cases r with
        | nil => exact absurd (by simpa using hsrc) hm.source
        | cons x r =>
          rw [hsrc, hm.free r x] at hq
          cases hq
    · exact ⟨q, fun heq => hnew (heq ▸ List.prefix_rfl), (hmoved.fixed q hold hnew).symm.trans hq⟩

/-- **A rename destroys nothing** unless a file is replaced whose bytes are nowhere else. -/
lemma spared_rename_iff (hne : old ≠ new) (h : fs.rename old new = .ok fs') :
    Spared fs fs' ↔ ∀ b b', fs.node old = some (.file b) → fs.node new = some (.file b') →
      ∃ q, q ≠ new ∧ fs.node q = some (.file b') := by
  constructor
  · intro hspared b b' _ hnew
    obtain ⟨q, hq⟩ := hspared new b' hnew
    exact found_before_rename hne h hq
  · intro hkept p b hp
    by_cases hnew : p = new
    · subst hnew
      have halike := Fs.alike_of_rename h hne (by simp [Fs.isDir, hp])
      obtain ⟨hm, -⟩ := moves_of_rename hne h
      cases hold : fs.node old with
      | none => exact absurd hold hm.source
      | some n =>
        cases n with
        | dir =>
          have hkind := (halike [] .dir (.file b) (by simpa using hold) (by simpa using hp)).mp rfl
          cases hkind
        | file b' =>
          obtain ⟨q, hqne, hq⟩ := hkept b' b hold hp
          exact found_of_rename hne h hq hqne
    · exact found_of_rename hne h hp hnew

end Rename

/-! ## One call -/

section Call

variable {env : Env} {w : World} {item : ItemId} {canonical : RelPath} {now : ℕ}

/-- Moving the local version aside. -/
lemma run_moveAside {conflict : RelPath} :
    (w.fs.node canonical = none ∧
        (moveAside canonical conflict).run (handle env) w = (.ok (), w)) ∨
      w.fs.node canonical ≠ none ∧
        ((∃ fs', w.fs.rename canonical conflict = .ok fs' ∧
          (moveAside canonical conflict).run (handle env) w = (.ok (), { w with fs := fs' })) ∨
        ∃ e e', w.fs.rename canonical conflict = .error e ∧
          (moveAside canonical conflict).run (handle env) w = (.error e', w)) := by
  by_cases hnode : w.fs.node canonical = none
  · have hexists : w.fs.exists' canonical = false := by simp [Fs.exists', hnode]
    refine .inl ⟨hnode, ?_⟩
    simp only [moveAside, Prog.bind_eq, io, Prog.lift_bind, Prog.run_call, handle_fs, FsCall.run,
      hexists, Bool.false_eq_true, if_false]
    rfl
  · have hexists : w.fs.exists' canonical = true := by
      simpa [Fs.exists', Option.isSome_iff_ne_none] using hnode
    refine .inr ⟨hnode, ?_⟩
    simp only [moveAside, Prog.bind_eq, io, Prog.lift_bind, Prog.run_call, handle_fs, FsCall.run,
      hexists, if_true]
    cases w.fs.rename canonical conflict with
    | ok fs' => exact .inl ⟨fs', rfl, rfl⟩
    | error e => exact .inr ⟨e, _, rfl, rfl⟩

/-- What a call does: nothing if the rename fails; else the file has moved, if there was one, and the
pair is recorded. -/
lemma openConflict_cases (env : Env) (item : ItemId) (canonical : RelPath) (now : ℕ) (w : World) :
    (w.fs.node canonical ≠ none ∧
        (∃ e, w.fs.rename canonical (conflictPathFor canonical now) = .error e) ∧
        ((openConflict item canonical now).run (handle env) w).2 = w) ∨
      ∃ fs', (w.fs.node canonical = none ∧ fs' = w.fs ∨ w.fs.node canonical ≠ none ∧
          w.fs.rename canonical (conflictPathFor canonical now) = .ok fs') ∧
        ((openConflict item canonical now).run (handle env) w).2 = { w with
          fs := fs'
          db := (w.db.insertConflict item canonical (conflictPathFor canonical now) now).2 } := by
  have hrecord : ∀ w₁ : World, (Prog.run (handle env)
      ((sqlTry (.insertConflict item canonical (conflictPathFor canonical now) now)).bind
        fun _ => pure (conflictPathFor canonical now)) w₁).2 = { w₁ with
          db := (w₁.db.insertConflict item canonical (conflictPathFor canonical now) now).2 } := by
    intro w₁
    rw [sqlTry, Prog.call_bind, Prog.run_call, handle_db]
    simp only [DbCall.run]
    cases (w₁.db.insertConflict item canonical (conflictPathFor canonical now) now).1 <;> rfl
  rcases @run_moveAside env w canonical (conflictPathFor canonical now) with
    ⟨hnone, hrun⟩ | ⟨hnode, ⟨fs', hrename, hrun⟩ | ⟨e, e', hrename, hrun⟩⟩
  · refine .inr ⟨w.fs, .inl ⟨hnone, rfl⟩, ?_⟩
    rw [openConflict, Prog.bind_eq, Prog.run_bind_ok _ hrun]
    exact hrecord w
  · refine .inr ⟨fs', .inr ⟨hnode, hrename⟩, ?_⟩
    rw [openConflict, Prog.bind_eq, Prog.run_bind_ok _ hrun]
    exact hrecord _
  · refine .inl ⟨hnode, ⟨e, hrename⟩, ?_⟩
    rw [openConflict, Prog.bind_eq, Prog.run_bind_error _ hrun]

/-- The conflict path is another one. -/
lemma ne_conflictPathFor (p : RelPath) (now : ℤ) : p ≠ conflictPathFor p now := by
  obtain ⟨name, hq, hlen⟩ := conflictPathFor_spec p now
  intro heq
  have hlast : p.getLastD "file" = name := by
    rw [heq.trans hq]
    simp
  rw [hlast] at hlen
  exact lt_irrefl _ hlen

/-- A file can be renamed to its conflict path if no directory is there. -/
lemma rename_conflict_ok {fs : Fs} {b : Bytes} (hfile : fs.node canonical = some (.file b))
    (hdir : fs.node (conflictPathFor canonical now) ≠ some .dir) :
    ∃ fs', fs.rename canonical (conflictPathFor canonical now) = .ok fs' := by
  have hne : canonical ≠ [] := by
    rintro rfl
    cases hfile
  obtain ⟨hbeside, hout⟩ := conflictPathFor_beside hne now
  refine Fs.rename_file_ok hfile ?_ hout hdir
  rw [hbeside]
  exact Fs.parent_of_node hne (by simp [hfile])

/-- **A call destroys nothing** exactly when no file is replaced whose bytes are nowhere else. -/
lemma spares_iff : (Step.call item canonical now).Spares env w ↔
    ∀ b b', w.fs.node canonical = some (.file b) →
      w.fs.node (conflictPathFor canonical now) = some (.file b') →
        ∃ q, q ≠ conflictPathFor canonical now ∧ w.fs.node q = some (.file b') := by
  have hself : Spared w.fs w.fs := fun p b hp => ⟨p, hp⟩
  simp only [Step.Spares, Step.perform]
  rcases openConflict_cases env item canonical now w with
    ⟨hnode, ⟨e, hrename⟩, hrun⟩ | ⟨fs', ⟨hnone, rfl⟩ | ⟨hnode, hrename⟩, hrun⟩
  · rw [hrun]
    refine iff_of_true hself fun b b' hb hb' => ?_
    obtain ⟨fs', hok⟩ := @rename_conflict_ok canonical now _ _ hb (by simp [hb'])
    rw [hrename] at hok
    cases hok
  · rw [hrun]
    exact iff_of_true hself fun b b' hb => by rw [hnone] at hb; cases hb
  · rw [hrun]
    exact spared_rename_iff (ne_conflictPathFor canonical now) hrename

/-- The records after a call. -/
lemma conflicts_openConflict : (Opens item canonical now w ∧
      ∀ c, c ∈ ((openConflict item canonical now).run (handle env) w).2.db.conflicts ↔
        c ∈ w.db.conflicts ∨
          c = ⟨w.db.conflicts.next, item, canonical, conflictPathFor canonical now, now⟩) ∨
    ¬Opens item canonical now w ∧
      ∀ c, c ∈ ((openConflict item canonical now).run (handle env) w).2.db.conflicts ↔
        c ∈ w.db.conflicts := by
  rcases openConflict_cases env item canonical now w with
    ⟨hnode, ⟨e, hrename⟩, hrun⟩ | ⟨fs', hmoved, hrun⟩
  · refine .inr ⟨?_, fun c => by rw [hrun]⟩
    rintro ⟨-, hnone | ⟨fs', hok⟩⟩
    · exact hnode hnone
    · rw [hrename] at hok
      cases hok
  · have hway : w.fs.node canonical = none ∨
        ∃ fs', w.fs.rename canonical (conflictPathFor canonical now) = .ok fs' := by
      rcases hmoved with ⟨hnone, -⟩ | ⟨-, hok⟩
      · exact .inl hnone
      · exact .inr ⟨fs', hok⟩
    rw [hrun]
    simp only [Db.insertConflict]
    split
    · next hrow => exact .inl ⟨⟨hrow, hway⟩, fun c => Data.Serial.mem_push⟩
    · next hrow => exact .inr ⟨fun h => hrow h.1, fun c => Iff.rfl⟩

/-- **The records stay distinct** exactly when no open record of the path names the conflict path. -/
lemma distinct_iff (h : Distinct w.db) :
    Distinct ((Step.call item canonical now).perform env w).db ↔
      (Opens item canonical now w → ∀ c ∈ w.db.conflicts, c.originalRelativePath = canonical →
        c.conflictRelativePath ≠ conflictPathFor canonical now) := by
  have hold : ∀ c ∈ w.db.conflicts, c.id ≠ w.db.conflicts.next := fun c hc =>
    (Data.Serial.key_lt w.db.conflicts hc).ne
  simp only [Step.perform]
  rcases @conflicts_openConflict env w item canonical now with ⟨hopens, hmem⟩ | ⟨hopens, hmem⟩
  · constructor
    · intro hdistinct _ c hc hpath
      exact hdistinct c ((hmem c).mpr (.inl hc)) _ ((hmem _).mpr (.inr rfl)) (hold c hc) hpath
    · intro hfree c hc c' hc' hne hpath
      rcases (hmem c).mp hc with hc | rfl <;> rcases (hmem c').mp hc' with hc' | rfl
      · exact h c hc c' hc' hne hpath
      · exact hfree hopens c hc hpath
      · exact (hfree hopens c' hc' hpath.symm).symm
      · exact absurd rfl hne
  · refine iff_of_true (fun c hc c' hc' => ?_) fun hopens' => absurd hopens' hopens
    exact h c ((hmem c).mp hc) c' ((hmem c').mp hc')

end Call

/-! ## A sequence of calls -/

/-- **A step** is harmless exactly when it meets the condition. -/
lemma step_iff {env : Env} {s : Step} {w : World} (h : Distinct w.db) (hallowed : s.Allowed w) :
    s.Spares env w ∧ Distinct (s.perform env w).db ↔ s.Meets w := by
  cases s with
  | call item canonical now =>
    rw [spares_iff, distinct_iff h]
    exact ⟨fun hboth => ⟨hboth.1, hboth.2⟩, fun hfree => ⟨hfree.1, hfree.2⟩⟩
  | other w' =>
    exact iff_of_true ⟨trivial, fun c hc c' hc' => h c (hallowed c hc) c' (hallowed c' hc')⟩ trivial

/-- **Opening conflicts destroys nothing, and the records of a path name different files,** in a
sequence of calls with anything in between, exactly when the conflict name is free for each call. -/
theorem harmless_iff (env : Env) (steps : List Step) (w : World) (hdistinct : Distinct w.db)
    (hallowed : Throughout env Step.Allowed steps w) :
    Harmless env steps w ↔ Throughout env Step.Meets steps w := by
  induction steps generalizing w with
  | nil => exact Iff.rfl
  | cons s steps ih =>
    obtain ⟨hs, hrest⟩ := hallowed
    have hstep := @step_iff env s w hdistinct hs
    constructor
    · rintro ⟨hgood, htail⟩
      exact ⟨hstep.mp hgood, (ih _ hgood.2 hrest).mp htail⟩
    · rintro ⟨hmeets, htail⟩
      have hgood := hstep.mpr hmeets
      exact ⟨hgood, (ih _ hgood.2 hrest).mpr htail⟩

/-! ## Two conflicts of a file -/

/-- `a.txt` with its row. -/
def sampleFile : World :=
  { World.fresh ⟨⟨⟨[], by simp⟩, 1, by simp⟩, 1, []⟩ with
    fs := ((FsCall.writeFile ["a.txt"] [65]).run Fs.empty).2
    db := (DbCall.run (.insertItem ⟨["a.txt"], .file, some (.id 3), some 1, none, .synced⟩)
      Db.empty).2 }

/-- A conflict is opened, and `a.txt` is there again. -/
def sampleReopened : World :=
  let w := (Step.call 1 ["a.txt"] 0).perform .plain sampleFile
  { w with fs := ((FsCall.writeFile ["a.txt"] [66]).run w.fs).2 }

/-- Two conflicts of `a.txt`, the second one at the time `now`. -/
def twice (now : ℕ) : List Step :=
  [.call 1 ["a.txt"] 0, .other sampleReopened, .call 1 ["a.txt"] now]

lemma sampleFile_distinct : Distinct sampleFile.db :=
  fun c hc => absurd hc (Data.Serial.not_mem_empty c)

lemma twice_allowed (now : ℕ) : Throughout .plain Step.Allowed (twice now) sampleFile :=
  ⟨trivial, fun _ hc => hc, trivial, trivial⟩

/-- Two conflicts in different seconds. -/
theorem twice_harmless : Harmless .plain (twice 1) sampleFile := by
  refine (harmless_iff .plain (twice 1) sampleFile sampleFile_distinct (twice_allowed 1)).mpr
    ⟨⟨fun b b' _ hb' => ?_, fun _ c hc => absurd hc (Data.Serial.not_mem_empty c)⟩, trivial,
      ⟨fun b b' _ hb' => ?_, fun _ c hc _ => ?_⟩, trivial⟩
  · have hfree : sampleFile.fs.node (conflictPathFor ["a.txt"] 0) = none := by decide +kernel
    exact absurd (hfree.symm.trans hb') nofun
  · have hfree : sampleReopened.fs.node (conflictPathFor ["a.txt"] 1) = none := by decide +kernel
    exact absurd (hfree.symm.trans hb') nofun
  · have hrecords : ∀ c ∈ sampleReopened.db.conflicts.table.rows,
        c.conflictRelativePath ≠ conflictPathFor ["a.txt"] 1 := by decide +kernel
    exact hrecords c hc

/-- Of two conflicts in one second the second one replaces the file of the first. -/
theorem same_second_destroys :
    ¬∀ (env : Env) (steps : List Step) (w : World), Distinct w.db →
      Throughout env Step.Allowed steps w → Harmless env steps w := by
  intro h
  obtain ⟨-, -, ⟨hspares, -⟩, -⟩ := h .plain (twice 0) sampleFile sampleFile_distinct (twice_allowed 0)
  obtain ⟨q, hne, hq⟩ := spares_iff.mp hspares [66] [65] (by decide +kernel) (by decide +kernel)
  have hrows : ∀ x ∈ sampleReopened.fs.nodes.rows, x.2 = .file [65] →
      x.1 = conflictPathFor ["a.txt"] 0 := by decide +kernel
  have hqne : q ≠ [] := by
    rintro rfl
    cases hq
  have hval := (Fs.node_of_ne_nil _ hqne).symm.trans hq
  exact hne (hrows _ (Data.FinMap.val_eq_some.mp hval) rfl)

end AirDrive.Openings
