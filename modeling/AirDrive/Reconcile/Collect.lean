import AirDrive.Local.Disk
import AirDrive.Reconcile.FollowWalk

set_option relaxedAutoImplicit false
set_option autoImplicit false

/-!
# The walks of a disk with links end

A link may lead to a directory above it, so the paths below the watched folder may be without end.
A walk that follows links remembers the canonical form of each directory that it descends into, and
does not descend into one again. There are finitely many, so the walk ends. The directory that the
walk starts in is not remembered: a link that leads back to it is followed once.

## Main definitions

* `AirDrive.WalkCalls` — what a walk asks the system.
* `AirDrive.WalkCalls.collectLocal`, `AirDrive.WalkCalls.collectSubtree` — the walks, with the
  directories that they descend into. They return nothing when the fuel runs out.
* `AirDrive.WalkCalls.Sound` — the directories descended into are those remembered.
* `AirDrive.Disk.Terminates` — a walk returns, and what it does is bounded by the disk.

## Main results

* `AirDrive.WalkCalls.collect_returns` — a walk returns when there are finitely many directories.
* `AirDrive.Disk.follow_walks_terminate` — so do both walks of every disk.
* `AirDrive.LinkTree.walkSubtree_returns` — the fuel of the walks of a tree with links is enough.
-/

namespace AirDrive

open Data Watch
open Fs (LocalEntry)

/-! ## The walks -/

/-- What a walk asks the system, for its policy and its root. -/
structure WalkCalls (κ : Type) where
  /-- `fs::read_dir`, with what its iterator yields. -/
  readDir : AbsPath → Except IoKind (List (Except IoKind String))
  /-- `classify_local`. -/
  classifyLocal : AbsPath → Option LocalKind
  /-- `fs::canonicalize`. -/
  canonicalize : AbsPath → Option κ

/-- The accumulators of a walk. -/
structure Walked (κ : Type) where
  /-- The canonical directories that are not descended into again. -/
  visited : List κ
  /-- The entries so far. -/
  out : List LocalEntry
  /-- The directories that the walk has descended into, in their order. The source does not keep
  them. -/
  entered : List AbsPath

namespace Walked

variable {κ : Type}

/-- Before the walk. -/
def start : Walked κ := ⟨[], [], []⟩

/-- One directory more is descended into. -/
def enter (w : Walked κ) (dir : AbsPath) : Walked κ := { w with entered := w.entered ++ [dir] }

end Walked

/-- How a call of a walk ends. -/
abbrev WalkResult (κ : Type) := Except Error Unit × Walked κ

/-- `strip_root`, and `strip_prefix` in `collect_local`. -/
def stripRoot (absolute root : AbsPath) : Except Error RelPath :=
  if root.isPrefixOf absolute then .ok (absolute.drop root.length)
  else .error (.mapping "strip_prefix: prefix not found")

@[simp] lemma stripRoot_nil (path : AbsPath) : stripRoot path [] = .ok path := rfl

/-- A loop over what `read_dir` yields, up to the first error. -/
def forEntries {κ : Type} (body : String → Walked κ → Option (WalkResult κ)) :
    List (Except IoKind String) → Walked κ → Option (WalkResult κ)
  | [], acc => some (.ok (), acc)
  | .error e :: _, acc => some (.error (.io e), acc)
  | .ok name :: rest, acc =>
    match body name acc with
    | some (.ok (), acc) => forEntries body rest acc
    | stopped => stopped

namespace WalkCalls

variable {κ : Type}

section Definitions

variable [DecidableEq κ]

/-- The body of the loop of `collect_local`, and of `collect_subtree`, for an entry of `dir`. -/
def collectEntry (c : WalkCalls κ) (root : AbsPath) (policy : SymlinkPolicy)
    (descend : AbsPath → Walked κ → Option (WalkResult κ)) (dir : AbsPath) (name : String)
    (acc : Walked κ) : Option (WalkResult κ) :=
  if name = partialDir then some (.ok (), acc)
  else
    let path := dir ++ [name]
    match stripRoot path root with
    | .error e => some (.error e, acc)
    | .ok rel =>
      match c.classifyLocal path with
      | some .dir =>
        let pushed : Walked κ := { acc with out := acc.out ++ [⟨rel, true⟩] }
        match policy with
        | .follow =>
          match c.canonicalize path with
          | some canon =>
            if canon ∈ pushed.visited then some (.ok (), pushed)
            else descend path { pushed with visited := canon :: pushed.visited }
          | none => some (.ok (), pushed)
        | .skip => descend path pushed
      | some .file => some (.ok (), { acc with out := acc.out ++ [⟨rel, false⟩] })
      | none => some (.ok (), acc)

/-- `collect_local` and `collect_subtree`, but for what becomes of an error of `read_dir`. -/
def collect (c : WalkCalls κ) (failed : IoKind → Except Error Unit) (root : AbsPath)
    (policy : SymlinkPolicy) : ℕ → AbsPath → Walked κ → Option (WalkResult κ)
  | 0, _, _ => none
  | fuel + 1, dir, acc =>
    match c.readDir dir with
    | .error e => some (failed e, acc.enter dir)
    | .ok entries =>
      forEntries (c.collectEntry root policy (collect c failed root policy fuel) dir) entries
        (acc.enter dir)

/-- `collect_local`. -/
def collectLocal (c : WalkCalls κ) (root : AbsPath) (policy : SymlinkPolicy) :
    ℕ → AbsPath → Walked κ → Option (WalkResult κ) :=
  c.collect (fun e => .error (.io e)) root policy

/-- `collect_subtree`: a directory that is gone is not an error. -/
def collectSubtree (c : WalkCalls κ) (root : AbsPath) (policy : SymlinkPolicy) :
    ℕ → AbsPath → Walked κ → Option (WalkResult κ) :=
  c.collect (fun e => if e = .notFound then .ok () else .error (.io e)) root policy

end Definitions

/-! ## What a walk keeps -/

section Returns

variable {c : WalkCalls κ} {failed : IoKind → Except Error Unit} {root start : AbsPath}
  {targets : List κ}

/-- The directories descended into after the first one are those that are remembered, each once. -/
structure Sound (c : WalkCalls κ) (targets : List κ) (start : AbsPath) (w : Walked κ) : Prop where
  nodup : w.visited.Nodup
  known : w.visited ⊆ targets
  entered : ∃ rest, w.entered = start :: rest ∧
    rest.map c.canonicalize = w.visited.reverse.map some

/-- The number of names that are read in a directory. -/
def listed (c : WalkCalls κ) (p : AbsPath) : ℕ :=
  match c.readDir p with
  | .ok entries => (Disk.read entries).length
  | .error _ => 0

/-- The number of names that are read in all directories descended into. -/
def allListed (c : WalkCalls κ) (w : Walked κ) : ℕ := (w.entered.map c.listed).sum

/-- The accumulators have grown, by at most `n` entries beside those of the directories that were
descended into meanwhile. -/
structure Grown (c : WalkCalls κ) (targets : List κ) (start : AbsPath) (n : ℕ)
    (acc w : Walked κ) : Prop where
  sound : Sound c targets start w
  visited : acc.visited.length ≤ w.visited.length
  out : w.out.length + c.allListed acc ≤ acc.out.length + n + c.allListed w

lemma allListed_enter (w : Walked κ) (dir : AbsPath) :
    c.allListed (w.enter dir) = c.allListed w + c.listed dir := by
  simp [allListed, Walked.enter]

lemma Sound.length_le {w : Walked κ} (h : Sound c targets start w) :
    w.visited.length ≤ targets.length :=
  (List.subperm_of_subset h.nodup h.known).length_le

lemma Grown.trans {n m : ℕ} {acc mid w : Walked κ} (h : Grown c targets start n acc mid)
    (h' : Grown c targets start m mid w) : Grown c targets start (n + m) acc w := by
  refine ⟨h'.sound, h.visited.trans h'.visited, ?_⟩
  have hfirst := h.out
  have hsecond := h'.out
  omega

lemma Grown.mono {n m : ℕ} {acc w : Walked κ} (h : Grown c targets start n acc w) (hn : n ≤ m) :
    Grown c targets start m acc w := by
  refine ⟨h.sound, h.visited, ?_⟩
  have hout := h.out
  omega

/-- A directory is remembered and descended into. -/
lemma Sound.enters {acc : Walked κ} (h : Sound c targets start acc) {path : AbsPath} {canon : κ}
    (hcanon : c.canonicalize path = some canon) (hmem : canon ∈ targets)
    (hnew : canon ∉ acc.visited) (out : List LocalEntry) :
    Sound c targets start (Walked.enter ⟨canon :: acc.visited, out, acc.entered⟩ path) := by
  refine ⟨List.nodup_cons.mpr ⟨hnew, h.nodup⟩, List.cons_subset.mpr ⟨hmem, h.known⟩, ?_⟩
  obtain ⟨rest, hentered, hrest⟩ := h.entered
  refine ⟨rest ++ [path], ?_, ?_⟩
  · simp [Walked.enter, hentered]
  · rw [List.map_append, hrest]
    simp [Walked.enter, hcanon]

/-- Entries are listed. -/
lemma Sound.pushes {acc : Walked κ} (h : Sound c targets start acc) (entries : List LocalEntry) :
    Grown c targets start entries.length acc { acc with out := acc.out ++ entries } :=
  ⟨⟨h.nodup, h.known, h.entered⟩, le_refl _, by simp [allListed]⟩

/-- A call descends as it should: it returns if there is fuel for the directories left. -/
def Descends (c : WalkCalls κ) (targets : List κ) (start : AbsPath) (fuel : ℕ)
    (descend : AbsPath → Walked κ → Option (WalkResult κ)) : Prop :=
  ∀ dir acc, Sound c targets start (acc.enter dir) → targets.length < fuel + acc.visited.length →
    ∃ r w, descend dir acc = some (r, w) ∧ Grown c targets start 0 acc w

/-- The loop over the entries of a directory. -/
lemma forEntries_returns {fuel : ℕ} {body : String → Walked κ → Option (WalkResult κ)}
    (hbody : ∀ name acc, Sound c targets start acc →
      targets.length < fuel + acc.visited.length →
        ∃ r w, body name acc = some (r, w) ∧ Grown c targets start 1 acc w)
    (entries : List (Except IoKind String)) {acc : Walked κ} (hacc : Sound c targets start acc)
    (hfuel : targets.length < fuel + acc.visited.length) :
    ∃ r w, forEntries body entries acc = some (r, w) ∧
      Grown c targets start (Disk.read entries).length acc w := by
  induction entries generalizing acc with
  | nil => exact ⟨_, _, rfl, by simpa [Disk.read] using hacc.pushes []⟩
  | cons entry rest ih =>
    cases entry with
    | error e => exact ⟨_, _, rfl, by simpa using (hacc.pushes []).mono (Nat.zero_le _)⟩
    | ok name =>
      have hread : (Disk.read (Except.ok name :: rest)).length = 1 + (Disk.read rest).length := by
        simp [Disk.read, Except.toOption, Nat.add_comm]
      obtain ⟨r, mid, hrun, hmid⟩ := hbody name acc hacc hfuel
      rw [forEntries, hrun, hread]
      cases r with
      | error e => exact ⟨_, _, rfl, hmid.mono (Nat.le_add_right _ _)⟩
      | ok u =>
        have hlen := hmid.visited
        obtain ⟨r, w, hrun', hw⟩ := ih hmid.sound (by omega)
        exact ⟨r, w, hrun', hmid.trans hw⟩

lemma forEntries_extends {body body' : String → Walked κ → Option (WalkResult κ)}
    (h : ∀ name acc result, body name acc = some result → body' name acc = some result)
    {entries : List (Except IoKind String)} {acc : Walked κ} {result : WalkResult κ}
    (hrun : forEntries body entries acc = some result) :
    forEntries body' entries acc = some result := by
  induction entries generalizing acc with
  | nil => exact hrun
  | cons entry rest ih =>
    cases entry with
    | error e => exact hrun
    | ok name =>
      rw [forEntries] at hrun ⊢
      cases hbody : body name acc with
      | none =>
        rw [hbody] at hrun
        cases hrun
      | some mid =>
        rw [hbody] at hrun
        rw [h _ _ _ hbody]
        obtain ⟨r, mid⟩ := mid
        cases r with
        | error e => exact hrun
        | ok u => exact ih hrun

variable [DecidableEq κ]

/-- **One entry**: a directory is remembered before the walk descends into it, which takes one of
the directories left. -/
lemma collectEntry_returns
    (hknown : ∀ p v, c.classifyLocal p = some .dir → c.canonicalize p = some v → v ∈ targets)
    {fuel : ℕ} {descend : AbsPath → Walked κ → Option (WalkResult κ)}
    (hdescend : Descends c targets start fuel descend) {dir : AbsPath} {name : String}
    {acc : Walked κ} (hacc : Sound c targets start acc)
    (hfuel : targets.length < fuel + 1 + acc.visited.length) :
    ∃ r w, c.collectEntry root .follow descend dir name acc = some (r, w) ∧
      Grown c targets start 1 acc w := by
  have hsame : Grown c targets start 1 acc acc := by
    simpa using (hacc.pushes []).mono (Nat.zero_le 1)
  unfold collectEntry
  split_ifs with hname
  · exact ⟨_, _, rfl, hsame⟩
  dsimp only
  cases hrel : stripRoot (dir ++ [name]) root with
  | error e => exact ⟨_, _, rfl, hsame⟩
  | ok rel =>
    have hpushed := fun b => hacc.pushes [⟨rel, b⟩]
    cases hkind : c.classifyLocal (dir ++ [name]) with
    | none => exact ⟨_, _, rfl, hsame⟩
    | some kind =>
      cases kind with
      | file => exact ⟨_, _, rfl, hpushed false⟩
      | dir =>
        cases hcanon : c.canonicalize (dir ++ [name]) with
        | none => exact ⟨_, _, rfl, hpushed true⟩
        | some canon =>
          dsimp only
          split_ifs with hvisited
          · exact ⟨_, _, rfl, hpushed true⟩
          have hmem := hknown _ _ hkind hcanon
          obtain ⟨r, w, hrun, hgrown⟩ := hdescend (dir ++ [name])
            ⟨canon :: acc.visited, acc.out ++ [⟨rel, true⟩], acc.entered⟩
            (hacc.enters hcanon hmem hvisited _) (by simp only [List.length_cons]; omega)
          refine ⟨r, w, hrun, hgrown.sound, ?_, ?_⟩
          · have hlen := hgrown.visited
            simp only [List.length_cons] at hlen
            omega
          · have hout := hgrown.out
            simp only [allListed, List.length_append, List.length_singleton] at hout ⊢
            omega

/-- **A walk that follows links returns** when its fuel exceeds the number of the directories that
it can descend into. -/
theorem collect_returns
    (hknown : ∀ p v, c.classifyLocal p = some .dir → c.canonicalize p = some v → v ∈ targets)
    (fuel : ℕ) : Descends c targets start fuel (c.collect failed root .follow fuel) := by
  induction fuel with
  | zero =>
    intro dir acc hacc hfuel
    have hlen := hacc.length_le
    simp only [Walked.enter] at hlen
    omega
  | succ fuel ih =>
    intro dir acc hacc hfuel
    rw [collect]
    cases hread : c.readDir dir with
    | error e =>
      refine ⟨_, _, rfl, hacc, le_refl _, ?_⟩
      rw [allListed_enter]
      simp only [Walked.enter]
      omega
    | ok entries =>
      have hlisted : (Disk.read entries).length = c.listed dir := by simp [listed, hread]
      obtain ⟨r, w, hrun, hw⟩ := forEntries_returns
        (fun name acc hacc hfuel => collectEntry_returns hknown ih hacc hfuel) entries hacc hfuel
      refine ⟨r, w, hrun, hw.sound, hw.visited, ?_⟩
      have hout := hw.out
      rw [hlisted, allListed_enter] at hout
      simp only [Walked.enter] at hout
      omega

/-- A call that returns more often. -/
def Extends (descend descend' : AbsPath → Walked κ → Option (WalkResult κ)) : Prop :=
  ∀ dir acc result, descend dir acc = some result → descend' dir acc = some result

lemma collectEntry_extends {descend descend' : AbsPath → Walked κ → Option (WalkResult κ)}
    (h : Extends descend descend') {policy : SymlinkPolicy} {dir : AbsPath} {name : String}
    {acc : Walked κ} {result : WalkResult κ}
    (hrun : c.collectEntry root policy descend dir name acc = some result) :
    c.collectEntry root policy descend' dir name acc = some result := by
  unfold collectEntry at hrun ⊢
  split_ifs at hrun ⊢ with hname
  · exact hrun
  dsimp only at hrun ⊢
  cases hrel : stripRoot (dir ++ [name]) root with
  | error e => simpa [hrel] using hrun
  | ok rel =>
    rw [hrel] at hrun
    cases hkind : c.classifyLocal (dir ++ [name]) with
    | none => simpa [hkind] using hrun
    | some kind =>
      rw [hkind] at hrun
      cases kind with
      | file => exact hrun
      | dir =>
        cases policy with
        | skip => exact h _ _ _ hrun
        | follow =>
          cases hcanon : c.canonicalize (dir ++ [name]) with
          | none => simpa [hcanon] using hrun
          | some canon =>
            rw [hcanon] at hrun
            dsimp only at hrun ⊢
            split_ifs at hrun ⊢ with hvisited
            · exact hrun
            · exact h _ _ _ hrun

/-- More fuel changes nothing for a walk that returns. -/
lemma collect_extends {policy : SymlinkPolicy} {fuel fuel' : ℕ} (hle : fuel ≤ fuel') :
    Extends (c.collect failed root policy fuel) (c.collect failed root policy fuel') := by
  induction fuel generalizing fuel' with
  | zero =>
    intro dir acc result hrun
    cases hrun
  | succ fuel ih =>
    obtain ⟨fuel', rfl⟩ := Nat.exists_eq_add_of_le' (Nat.one_le_of_lt hle)
    intro dir acc result hrun
    rw [collect] at hrun ⊢
    cases hread : c.readDir dir with
    | error e => simpa [hread] using hrun
    | ok entries =>
      rw [hread] at hrun
      exact forEntries_extends
        (fun name acc result => collectEntry_extends (ih (Nat.le_of_succ_le_succ hle))) hrun

end Returns

end WalkCalls

/-! ## The walks of a disk -/

namespace Disk

variable {d : Disk}

/-- What a walk with this policy and root asks the system. -/
def Answers.calls (a : d.Answers) (root : AbsPath) (policy : SymlinkPolicy) :
    WalkCalls AbsPath where
  readDir := a.readDir
  classifyLocal path := a.classifyLocal path root policy
  canonicalize := a.canonicalize

/-- `collect_local`. -/
def Answers.collectLocal (a : d.Answers) (root : AbsPath) (policy : SymlinkPolicy) :
    ℕ → AbsPath → Walked AbsPath → Option (WalkResult AbsPath) :=
  (a.calls root policy).collectLocal root policy

/-- `collect_subtree`. -/
def Answers.collectSubtree (a : d.Answers) (root : AbsPath) (policy : SymlinkPolicy) :
    ℕ → AbsPath → Walked AbsPath → Option (WalkResult AbsPath) :=
  (a.calls root policy).collectSubtree root policy

/-- How often a walk has descended into a directory. -/
def descents (d : Disk) (w : Walked AbsPath) (v : AbsPath) : ℕ :=
  w.entered.countP fun p => d.resolve p = some v

/-- What a walk that starts in `dir` has done is bounded by the disk. -/
structure Bounded (d : Disk) (dir : AbsPath) (w : Walked AbsPath) : Prop where
  /-- The walk starts in its directory, and goes on to what is on the disk. -/
  starts : ∃ rest, w.entered = dir :: rest ∧ ∀ p ∈ rest, (d.resolve p).isSome
  /-- No other directory is descended into twice. -/
  once : ∀ v, d.resolve dir ≠ some v → d.descents w v ≤ 1
  /-- The directory that it starts in is not descended into three times. -/
  twice : ∀ v, d.resolve dir = some v → d.descents w v ≤ 2
  /-- At most two entries are listed for each entry of the disk. -/
  listed : w.out.length ≤ 2 * d.size

/-- A walk that starts in `dir` returns, and is bounded by the disk. -/
def Terminates (d : Disk) (dir : AbsPath)
    (walk : ℕ → AbsPath → Walked AbsPath → Option (WalkResult AbsPath)) : Prop :=
  ∃ r w, (∀ fuel, d.size + 1 < fuel → walk fuel dir .start = some (r, w)) ∧ d.Bounded dir w

/-- How many children there are at the end of a path. -/
def held (d : Disk) (v : Option AbsPath) : ℕ := v.elim 0 fun v => (d.children v).length

lemma Answers.listed_le (a : d.Answers) (root : AbsPath) (policy : SymlinkPolicy) (p : AbsPath) :
    (a.calls root policy).listed p ≤ d.held (d.resolve p) := by
  unfold WalkCalls.listed
  cases hread : a.readDir p with
  | error e => simp [calls, hread]
  | ok entries =>
    obtain ⟨v, hv, hnodup, hsub⟩ := a.readDir_ok p entries hread
    simpa [calls, hread, held, hv] using (List.subperm_of_subset hnodup hsub).length_le

lemma sum_held_le {vs : List AbsPath} (h : vs.Nodup) :
    ((vs.map some).map d.held).sum ≤ d.size := by
  rw [List.map_map]
  exact sum_children_le h

/-- **What a walk leaves is bounded by the disk**, when the directories descended into are those
that are remembered. -/
lemma Answers.bounded (a : d.Answers) {root dir : AbsPath} {w : Walked AbsPath}
    (h : (a.calls root .follow).Grown d.places dir 0 .start w) : d.Bounded dir w := by
  obtain ⟨rest, hentered, hrest⟩ := h.sound.entered
  have hnodup : w.visited.reverse.Nodup := List.nodup_reverse.mpr h.sound.nodup
  have hresolve : rest.map d.resolve = w.visited.reverse.map some := by
    rw [← hrest]
    apply List.map_congr_left
    intro p hp
    have hcanon : a.canonicalize p ∈ w.visited.reverse.map some := hrest ▸ List.mem_map_of_mem hp
    obtain ⟨v, -, hv⟩ := List.mem_map.mp hcanon
    rw [a.canonicalize_eq p v hv.symm]
    exact hv
  have hone : ∀ v, (rest.countP fun p => d.resolve p = some v) ≤ 1 := by
    intro v
    calc (rest.countP fun p => d.resolve p = some v)
        = (rest.map d.resolve).countP fun o => o = some v := by rw [List.countP_map]; rfl
      _ = w.visited.reverse.countP fun u => u = v := by
          rw [hresolve, List.countP_map]
          simp [Function.comp_def]
      _ ≤ [v].length := by
          rw [List.countP_eq_length_filter]
          refine (List.subperm_of_subset (hnodup.filter _) fun u hu => ?_).length_le
          simpa using (List.mem_filter.mp hu).2
  refine ⟨⟨rest, hentered, ?_⟩, ?_, ?_, ?_⟩
  · intro p hp
    have hmem : d.resolve p ∈ w.visited.reverse.map some := hresolve ▸ List.mem_map_of_mem hp
    obtain ⟨v, -, hv⟩ := List.mem_map.mp hmem
    exact Option.isSome_of_eq_some hv.symm
  · intro v hv
    rw [descents, hentered, List.countP_cons_of_neg (by simpa using hv)]
    exact hone v
  · intro v hv
    rw [descents, hentered, List.countP_cons_of_pos (by simpa using hv)]
    exact Nat.succ_le_succ (hone v)
  · have hsum : ∀ ps : List AbsPath,
        (ps.map (a.calls root .follow).listed).sum ≤ ((ps.map d.resolve).map d.held).sum := by
      intro ps
      rw [List.map_map]
      exact List.sum_le_sum fun p _ => a.listed_le root .follow p
    have hfirst : d.held (d.resolve dir) ≤ d.size := by
      cases d.resolve dir with
      | none => exact Nat.zero_le _
      | some v => simpa using sum_held_le (List.nodup_singleton v)
    have hall := hsum (dir :: rest)
    have hvisited := @sum_held_le d _ hnodup
    rw [← hresolve] at hvisited
    have hout := h.out
    simp only [WalkCalls.allListed, hentered, Walked.start, List.map_cons, List.sum_cons,
      List.map_nil, List.sum_nil, List.length_nil] at hall hout
    omega

/-- **Walks that follow links end**: on every disk, whatever its links, whatever directory they
start in and whatever calls fail, both walks return, descend into no other directory twice and into
the directory that they start in not three times, and list at most two entries for each entry of the
disk. -/
theorem follow_walks_terminate (d : Disk) (a : d.Answers) (root dir : AbsPath) :
    d.Terminates dir (a.collectLocal root .follow) ∧
      d.Terminates dir (a.collectSubtree root .follow) := by
  have hknown : ∀ p v, (a.calls root .follow).classifyLocal p = some .dir →
      (a.calls root .follow).canonicalize p = some v → v ∈ d.places :=
    fun p v _ hv => mem_places (resolve_placed (a.canonicalize_eq p v hv))
  have hstart : (a.calls root .follow).Sound d.places dir (Walked.start.enter dir) :=
    ⟨List.nodup_nil, List.nil_subset _, [], rfl, rfl⟩
  have hfuel : d.places.length < d.size + 2 + (Walked.start : Walked AbsPath).visited.length := by
    rw [length_places, Walked.start]
    exact Nat.lt_succ_self _
  have hreturns : ∀ failed : IoKind → Except Error Unit,
      d.Terminates dir ((a.calls root .follow).collect failed root .follow) := by
    intro failed
    obtain ⟨r, w, hrun, hw⟩ :=
      WalkCalls.collect_returns hknown (d.size + 2) dir .start hstart hfuel
    exact ⟨r, w, fun fuel hle => WalkCalls.collect_extends hle _ _ _ hrun, a.bounded hw⟩
  exact ⟨hreturns _, hreturns _⟩

lemma tree_of_rows {nodes : FinMap AbsPath Inode}
    (h : ∀ r ∈ nodes.rows, r.1.dropLast = [] ∨ nodes.val r.1.dropLast = some .dir) (p : AbsPath)
    (x : String) (hp : nodes.val (p ++ [x]) ≠ none) : p = [] ∨ nodes.val p = some .dir := by
  obtain ⟨inode, hinode⟩ := Option.ne_none_iff_exists'.mp hp
  simpa using h _ (FinMap.val_eq_some.mp hinode)

/-- The folder `home` with a link `self` to itself. -/
def selfLinked : Disk where
  nodes := ⟨[(["home"], .dir), (["home", "self"], .link ⟨true, ["home"]⟩)], by decide⟩
  tree := tree_of_rows (by decide)
  named := by decide
  maxLinks := 40

-- The directory that a walk starts in may be descended into twice.
example : (selfLinked.answers.collectLocal ["home"] .follow 4 ["home"] .start).map (·.2.entered) =
    some [["home"], ["home", "self"]] := by
  decide +kernel

end Disk

/-! ## The walks of a tree with links -/

namespace LinkTree

variable {t : LinkTree}

/-- What a walk of a tree with links asks the system. The paths are relative to the root. -/
def calls (t : LinkTree) (order : RelPath → List String) (policy : SymlinkPolicy) :
    WalkCalls Landing where
  readDir dir := .ok ((order dir).map .ok)
  classifyLocal path := Watch.classifyLocal policy (t.found path)
  canonicalize := t.canonicalize

/-- The canonical form of what a walk takes for a directory is that of one. -/
lemma canonicalize_of_dir {p : RelPath} {c : Landing}
    (hkind : Watch.classifyLocal .follow (t.found p) = some .dir)
    (hcanon : t.canonicalize p = some c) : ∃ v, c = .inside v ∧ t.kindAt v = some .dir := by
  rcases List.eq_nil_or_concat p with rfl | ⟨dir, x, rfl⟩
  · exact ⟨[], (Option.some.inj hcanon).symm, rfl⟩
  rw [List.concat_eq_append] at hkind hcanon
  cases hdir : t.canonicalize dir with
  | none => simp [found, hdir, Watch.classifyLocal] at hkind
  | some landing =>
    cases landing with
    | outside k => simp [found, hdir, Watch.classifyLocal] at hkind
    | inside v =>
      rw [found_append hdir] at hkind
      rw [canonicalize_append hdir, step] at hcanon
      unfold foundAt at hkind
      cases hnode : t.nodes.val (v ++ [x]) with
      | none => simp [hnode] at hcanon
      | some n =>
        rw [hnode] at hkind hcanon
        cases n with
        | entry k =>
          obtain rfl : k = .dir := by simpa [Watch.classifyLocal] using hkind
          exact ⟨v ++ [x], (Option.some.inj hcanon).symm, kindAt_append.mpr hnode⟩
        | special => simp [Watch.classifyLocal] at hkind
        | link target =>
          obtain rfl : target = some c := hcanon
          cases c with
          | outside k => simp [Watch.classifyLocal, describe] at hkind
          | inside u => exact ⟨u, rfl, by simpa [Watch.classifyLocal, describe] using hkind⟩

/-- The accumulators of the source. -/
def plain (w : AirDrive.Walked Landing) : Walked := ⟨w.visited, w.out⟩

section Plain

variable {order : RelPath → List String} {policy : SymlinkPolicy}
  {descend : AbsPath → AirDrive.Walked Landing → Option (WalkResult Landing)}
  {descend' : RelPath → Walked → Walked}

/-- Where a call returns, it returns what the call without errors makes of the accumulators. -/
def Agrees (descend : AbsPath → AirDrive.Walked Landing → Option (WalkResult Landing))
    (descend' : RelPath → Walked → Walked) : Prop :=
  ∀ dir acc r w, descend dir acc = some (r, w) → r = .ok () ∧ descend' dir (plain acc) = plain w

lemma collectEntry_agrees (h : Agrees descend descend') {dir : RelPath} {name : String}
    {acc w : AirDrive.Walked Landing} {r : Except Error Unit}
    (hrun : (t.calls order policy).collectEntry [] policy descend dir name acc = some (r, w)) :
    r = .ok () ∧ t.collectEntry policy descend' dir (plain acc) name = plain w := by
  unfold WalkCalls.collectEntry at hrun
  unfold collectEntry
  split_ifs at hrun ⊢ with hname
  · cases hrun
    exact ⟨rfl, rfl⟩
  dsimp only [calls, stripRoot_nil] at hrun ⊢
  cases hkind : Watch.classifyLocal policy (t.found (dir ++ [name])) with
  | none =>
    rw [hkind] at hrun
    cases hrun
    exact ⟨rfl, rfl⟩
  | some kind =>
    rw [hkind] at hrun
    cases kind with
    | file =>
      cases hrun
      exact ⟨rfl, rfl⟩
    | dir =>
      cases policy with
      | skip => exact h _ _ _ _ hrun
      | follow =>
        cases hcanon : t.canonicalize (dir ++ [name]) with
        | none =>
          rw [hcanon] at hrun
          cases hrun
          exact ⟨rfl, rfl⟩
        | some canon =>
          rw [hcanon] at hrun
          dsimp only at hrun ⊢
          by_cases hvisited : canon ∈ acc.visited
          · rw [if_pos hvisited] at hrun
            cases hrun
            exact ⟨rfl, if_pos hvisited⟩
          · rw [if_neg hvisited] at hrun
            obtain ⟨hr, hw⟩ := h _ _ _ _ hrun
            exact ⟨hr, (if_neg hvisited).trans hw⟩

lemma forEntries_agrees {body : String → AirDrive.Walked Landing → Option (WalkResult Landing)}
    {body' : Walked → String → Walked}
    (h : ∀ name acc r w, body name acc = some (r, w) →
      r = .ok () ∧ body' (plain acc) name = plain w)
    {names : List String} {acc w : AirDrive.Walked Landing} {r : Except Error Unit}
    (hrun : forEntries body (names.map .ok) acc = some (r, w)) :
    r = .ok () ∧ names.foldl body' (plain acc) = plain w := by
  induction names generalizing acc with
  | nil =>
    cases hrun
    exact ⟨rfl, rfl⟩
  | cons name names ih =>
    rw [List.map_cons, forEntries] at hrun
    cases hbody : body name acc with
    | none =>
      rw [hbody] at hrun
      cases hrun
    | some mid =>
      obtain ⟨r', mid⟩ := mid
      obtain ⟨rfl, hmid⟩ := h _ _ _ _ hbody
      rw [hbody] at hrun
      rw [List.foldl_cons, hmid]
      exact ih hrun

/-- **The walks of a tree with links are those of the source.** -/
lemma collect_agrees (failed : IoKind → Except Error Unit) (fuel : ℕ) :
    Agrees ((t.calls order policy).collect failed [] policy fuel)
      (t.collectLocal order policy fuel) := by
  induction fuel with
  | zero =>
    intro dir acc r w hrun
    cases hrun
  | succ fuel ih =>
    intro dir acc r w hrun
    have hentry : ∀ name acc r w, (t.calls order policy).collectEntry [] policy
        ((t.calls order policy).collect failed [] policy fuel) dir name acc = some (r, w) →
          r = .ok () ∧ t.collectEntry policy (t.collectLocal order policy fuel) dir (plain acc)
            name = plain w := fun name acc r w => collectEntry_agrees ih
    exact @forEntries_agrees _ _ hentry (order dir) (acc.enter dir) w r hrun

end Plain

/-- **The fuel is enough**: the walks of a tree with links return before it runs out, and list what
the walks of the source list. -/
theorem walkSubtree_returns (t : LinkTree) (order : RelPath → List String) (dir : RelPath) :
    ∃ w, (t.calls order .follow).collectSubtree [] .follow (t.nodes.rows.length + 2) dir .start =
        some (.ok (), w) ∧
      t.walkSubtree order .follow dir = RelPath.sort LocalEntry.relativePath w.out := by
  have hknown : ∀ p c, (t.calls order .follow).classifyLocal p = some .dir →
      (t.calls order .follow).canonicalize p = some c → c ∈ t.targets.map Landing.inside := by
    intro p c hkind hcanon
    obtain ⟨v, rfl, hv⟩ := canonicalize_of_dir hkind hcanon
    exact List.mem_map_of_mem (mem_targets hv)
  have hfuel : (t.targets.map Landing.inside).length < t.nodes.rows.length + 2 + 0 := by
    simp [targets]
  obtain ⟨r, w, hrun, -⟩ := WalkCalls.collect_returns hknown (t.nodes.rows.length + 2) dir .start
    ⟨List.nodup_nil, List.nil_subset _, [], rfl, rfl⟩ hfuel
  obtain ⟨rfl, hwalk⟩ := collect_agrees _ _ _ _ _ _ hrun
  have hout := congrArg Walked.out hwalk
  exact ⟨w, hrun, congrArg (RelPath.sort LocalEntry.relativePath) hout⟩

end LinkTree

end AirDrive
