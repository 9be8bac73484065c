import AirDrive.Data.Lexical
import AirDrive.Drive.PathCache
import AirDrive.Reconcile.Initial

set_option relaxedAutoImplicit false
set_option autoImplicit false

/-!
# No remote name leads out of the mapped folder

The names of Drive objects are chosen by others. Every path that the remote walk and the poller
put together is made of names that passed `isSafeName`: the names of the objects themselves, of
the folders walked on the way, and of the folders whose paths the cache holds. Nothing here
depends on what Drive answers, so the results are about every handler of the calls.

## Main definitions

* `AirDrive.Containment.Contained` — a path whose text stays below every folder it is joined to.
* `AirDrive.Containment.Holds` — a cache of such paths.
* `AirDrive.Containment.Reached` — the caches of a running poller, under any handler.

## Main results

* `AirDrive.Containment.contained_of_safe` — a path of safe names is contained.
* `AirDrive.Containment.paths_contained` — all paths of the walk, the poller and its cache are.
-/

namespace AirDrive.Containment

open Effect Data Data.Lexical Initial Poller

/-- The text of the path, and that of the pointer file in its place, is a join of plain
components, and joined to any folder it leads strictly below that folder. -/
structure Contained (rel : RelPath) : Prop where
  /-- There is a component. -/
  nonempty : rel ≠ []
  /-- All components are plain. -/
  plain : ∀ x ∈ rel, Plain x.toList
  /-- They are what the separators of the text delimit. -/
  components : rel.text.splitOn '/' = rel.map String.toList
  /-- The path stays below every folder. -/
  inside : ∀ base, resolve (join base rel.text) = resolve base ++ rel.map String.toList
  /-- So does the path of a pointer file. -/
  pointer : ∀ mime base, resolve (join base (Shortcut.relativePath rel mime).text) =
    resolve base ++ (Shortcut.relativePath rel mime).map String.toList

/-- The check of a name is the one of a component. -/
lemma isSafeName_iff {x : String} : isSafeName x = true ↔ Plain x.toList := by
  have htext : ∀ s : String, x ≠ s ↔ x.toList ≠ s.toList := fun s => String.toList_inj.not.symm
  simp only [isSafeName, htext, Bool.and_eq_true, decide_eq_true_eq, Bool.not_eq_true',
    List.contains_eq_mem, decide_eq_false_iff_not]
  constructor
  · rintro ⟨⟨⟨⟨⟨h₁, h₂⟩, h₃⟩, h₄⟩, h₅⟩, h₆⟩
    exact ⟨h₁, h₂, h₃, h₄, h₅, h₆⟩
  · rintro ⟨h₁, h₂, h₃, h₄, h₅, h₆⟩
    exact ⟨⟨⟨⟨⟨h₁, h₂⟩, h₃⟩, h₄⟩, h₅⟩, h₆⟩

lemma text_eq_render (rel : RelPath) : rel.text = render (rel.map String.toList) := rfl

/-- Every extension of a pointer file is a word. -/
lemma plain_extension (mime : String) :
    '/' ∉ (Shortcut.extension mime).toList ∧ '\\' ∉ (Shortcut.extension mime).toList ∧
      '\x00' ∉ (Shortcut.extension mime).toList ∧ 2 ≤ (Shortcut.extension mime).toList.length := by
  unfold Shortcut.extension
  split <;> decide

/-- A name with an extension is as plain as the name. -/
lemma plain_pointer {x : String} (hx : Plain x.toList) (mime : String) :
    Plain (x ++ "." ++ Shortcut.extension mime).toList := by
  obtain ⟨hslash, hback, hnul, hlen⟩ := plain_extension mime
  have hlong : 2 < (x ++ "." ++ Shortcut.extension mime).toList.length := by
    simp
    omega
  refine ⟨?_, ?_, ?_, ?_, ?_, ?_⟩
  · intro h
    rw [h] at hlong
    simp at hlong
  · intro h
    rw [h] at hlong
    simp at hlong
  · intro h
    rw [h] at hlong
    simp at hlong
  · simpa using ⟨hx.noSlash, hslash⟩
  · simpa using ⟨hx.noBackslash, hback⟩
  · simpa using ⟨hx.noNul, hnul⟩

/-- **A path of safe names is contained.** -/
lemma contained_of_safe {rel : RelPath} (hne : rel ≠ []) (hsafe : ∀ x ∈ rel, isSafeName x = true) :
    Contained rel := by
  have hplain : ∀ x ∈ rel, Plain x.toList := fun x hx => isSafeName_iff.mp (hsafe x hx)
  have hpointer : ∀ mime, ∀ x ∈ Shortcut.relativePath rel mime, Plain x.toList := by
    intro mime x hx
    rcases List.mem_append.mp hx with hx | hx
    · exact hplain x (List.mem_of_mem_dropLast hx)
    · obtain rfl := List.mem_singleton.mp hx
      rw [List.getLastD_eq_getLast?, List.getLast?_eq_getLast_of_ne_nil hne]
      exact plain_pointer (hplain _ (List.getLast_mem hne)) mime
  refine ⟨hne, hplain, ?_, fun base => ?_, fun mime base => ?_⟩
  · rw [text_eq_render]
    exact splitOn_render (by simpa using hne) (by simpa using fun x hx => (hplain x hx).noSlash)
  · rw [text_eq_render]
    exact resolve_join (by simpa using hne) (by simpa using hplain) base
  · rw [text_eq_render]
    exact resolve_join (by simp [Shortcut.relativePath]) (by simpa using hpointer mime) base

/-! ## The remote walk -/

/-- The folders still to be listed lie at paths of safe names, the mapped folder at none. -/
def SafePath (path : RelPath) : Prop := ∀ x ∈ path, isSafeName x = true

lemma SafePath.contained {path : RelPath} (h : SafePath path) (hne : path ≠ []) : Contained path :=
  contained_of_safe hne h

lemma SafePath.concat {path : RelPath} {name : String} (h : SafePath path)
    (hname : isSafeName name = true) : SafePath (path ++ [name]) := by
  intro x hx
  rcases List.mem_append.mp hx with hx | hx
  · exact h x hx
  · obtain rfl := List.mem_singleton.mp hx
    exact hname

/-- The walk finds objects at contained paths, whatever Drive answers. -/
lemma yields_walkQueue {fuel : ℕ} {queue : List (FileId × RelPath)} {out : List RemoteEntry}
    (hqueue : ∀ q ∈ queue, SafePath q.2)
    (hout : ∀ e ∈ out, e.relativePath ≠ [] ∧ SafePath e.relativePath) :
    (walkQueue fuel queue out).Yields fun l =>
      ∀ e ∈ l, e.relativePath ≠ [] ∧ SafePath e.relativePath := by
  induction fuel generalizing queue out with
  | zero =>
    cases queue with
    | nil => exact hout
    | cons q queue => trivial
  | succ fuel ih =>
    cases queue with
    | nil => exact hout
    | cons q queue =>
      refine (Prog.yields_true _).bind fun children _ => ?_
      have hentries : ∀ e ∈ (children.filter fun c => isSafeName c.name).map (remoteEntry q.2),
          e.relativePath ≠ [] ∧ SafePath e.relativePath := by
        intro e he
        obtain ⟨c, hc, rfl⟩ := List.mem_map.mp he
        rw [remoteEntry_relativePath]
        exact ⟨by simp, (hqueue q (by simp)).concat (List.mem_filter.mp hc).2⟩
      apply ih
      · intro p hp
        rcases List.mem_append.mp hp with hp | hp
        · exact hqueue p (by simp [hp])
        · obtain ⟨e, he, rfl⟩ := List.mem_map.mp hp
          exact (hentries e (List.mem_filter.mp he).1).2
      · intro e he
        rcases List.mem_append.mp he with he | he
        · exact hout e he
        · exact hentries e he

lemma yields_walkRemote (fuel : ℕ) (root : FileId) :
    (walkRemote fuel root).Yields fun l => ∀ e ∈ l, Contained e.relativePath := by
  have hwalk := @yields_walkQueue fuel [(root, [])] [] (by simp [SafePath]) (by simp)
  refine hwalk.bind fun out hout => ?_
  intro e he
  obtain ⟨hne, hsafe⟩ := hout e ((RelPath.mem_sort _ _ _).mp he)
  exact hsafe.contained hne

/-! ## The poller and its cache -/

/-- The mapped folder is in the cache at the empty path, other folders at paths of safe names. -/
def Holds (root : FileId) (cache : PathCache) : Prop :=
  ∀ id path, cache.val id = some path → SafePath path ∧ (path = [] → id = root)

variable {root : FileId} {cache : PathCache}

lemma holds_seedCache (root : FileId) : Holds root (seedCache root) := by
  intro id path h
  by_cases hroot : id = root
  · subst hroot
    obtain rfl : [] = path := by simpa [seedCache] using h
    exact ⟨by simp [SafePath], fun _ => rfl⟩
  · simp [seedCache, FinMap.val_set_ne _ _ hroot] at h

lemma Holds.set (h : Holds root cache) {path : RelPath} (hsafe : SafePath path) (hne : path ≠ [])
    (id : FileId) : Holds root (cache.set id path) := by
  intro x p hp
  by_cases hx : x = id
  · subst hx
    obtain rfl : path = p := by simpa using hp
    exact ⟨hsafe, fun hnil => absurd hnil hne⟩
  · rw [FinMap.val_set_ne _ _ hx] at hp
    exact h x p hp

/-- The folders passed on the way enter the cache at paths of safe names. -/
lemma Holds.cacheChain (h : Holds root cache) {path : RelPath} {chain : List (FileId × String)}
    (hsafe : SafePath path) (hchain : ∀ c ∈ chain, isSafeName c.2 = true) :
    Holds root (cacheChain cache path chain) := by
  induction chain generalizing cache path with
  | nil => exact h
  | cons c chain ih =>
    have hpath := hsafe.concat (hchain c (by simp))
    exact ih (h.set hpath (by simp) c.1) hpath fun d hd => hchain d (by simp [hd])

/-- A path that is put together is one of safe names. -/
lemma Holds.assemblePath (h : Holds root cache) {path : RelPath} (hsafe : SafePath path)
    (chain : List (FileId × String)) (name : String) :
    Holds root (assemblePath cache path chain name).2 ∧
      ∀ rel, (assemblePath cache path chain name).1 = some rel → rel ≠ [] ∧ SafePath rel := by
  unfold Poller.assemblePath
  split
  case isTrue => exact ⟨h, nofun⟩
  case isFalse hnames =>
    have hname : isSafeName name = true ∧ ∀ c ∈ chain, isSafeName c.2 = true := by
      simpa using hnames
    refine ⟨h.cacheChain hsafe fun c hc => hname.2 c (List.mem_reverse.mp hc), ?_⟩
    intro rel hrel
    obtain rfl := Option.some.inj hrel
    refine ⟨by simp, SafePath.concat ?_ hname.1⟩
    intro x hx
    rcases List.mem_append.mp hx with hx | hx
    · exact hsafe x hx
    · obtain ⟨c, hc, rfl⟩ := List.mem_map.mp hx
      exact hname.2 c (List.mem_reverse.mp hc)

/-- The walk up ends at a folder of the cache. -/
lemma yields_walkUp (h : Holds root cache) (fuel : ℕ) (id : FileId)
    (chain : List (FileId × String)) :
    (walkUp cache fuel id chain).Yields fun found => ∀ p, found = some p → SafePath p.1 := by
  induction fuel generalizing id chain with
  | zero => exact nofun
  | succ fuel ih =>
    unfold walkUp
    split
    case h_1 path hpath =>
      intro p hp
      obtain rfl := Option.some.inj hp
      exact (h id path hpath).1
    case h_2 =>
      refine (Prog.yields_true _).bind fun answer _ => ?_
      cases answer with
      | error e => exact nofun
      | ok raw =>
        simp only
        split
        · exact nofun
        · exact ih _ _

lemma yields_descendantPath (h : Holds root cache) (fuel : ℕ) (f : FileResource) :
    (descendantPath fuel cache f).Yields fun out =>
      Holds root out.2 ∧ ∀ rel, out.1 = some rel → rel ≠ [] ∧ SafePath rel := by
  unfold descendantPath
  split
  · exact ⟨h, nofun⟩
  · refine (yields_walkUp h fuel _ []).bind fun found hfound => ?_
    cases found with
    | none => exact ⟨h, nofun⟩
    | some p => exact h.assemblePath (hfound p rfl) _ _

/-- What the entries of the feed leave: a cache of contained paths, and changes at such paths. -/
def Forwards (root : FileId) (changes : List RemoteChange) (cache : PathCache) : Prop :=
  Holds root cache ∧ ∀ c ∈ changes, ∀ rel, c.relativePath = some rel → Contained rel

lemma yields_processChange (h : Holds root cache) (fuel : ℕ) (c : RawChange) :
    (processChange fuel root cache c).Yields fun out => Forwards root out.1.toList out.2 := by
  unfold processChange
  split
  · exact (Prog.yields_true _).bind fun _ _ => ⟨h, by simp⟩
  split
  · exact ⟨h, by simp⟩
  cases c.file with
  | none => exact ⟨h, by simp⟩
  | some f =>
    refine (yields_descendantPath h fuel f).bind fun out hout => ?_
    obtain ⟨found, cache'⟩ := out
    cases found with
    | none => exact ⟨hout.1, by simp⟩
    | some rel =>
      obtain ⟨hne, hsafe⟩ := hout.2 rel rfl
      refine ⟨?_, by simpa using hsafe.contained hne⟩
      simp only
      split
      · exact hout.1.set hsafe hne f.id
      · exact hout.1

lemma yields_processChanges (h : Holds root cache) (fuel : ℕ) (l : List RawChange) :
    (processChanges fuel root cache l).Yields fun out => Forwards root out.1 out.2 := by
  refine Prog.Yields.foldM (P := fun out : List RemoteChange × PathCache =>
    Forwards root out.1 out.2) ⟨h, by simp⟩ fun c _ acc hacc => ?_
  refine (yields_processChange hacc.1 fuel c).bind fun out hout => ?_
  refine ⟨hout.1, fun r hr => ?_⟩
  rcases List.mem_append.mp hr with hr | hr
  · exact hacc.2 r hr
  · exact hout.2 r hr

/-- One round of the poller keeps the cache and hands on contained paths only. -/
lemma yields_tick (h : Holds root cache) (fuel : ℕ) :
    (tick fuel root cache).Yields fun out =>
      Forwards root ((out.1.map RemoteBatch.changes).getD []) out.2 := by
  unfold tick
  refine (Prog.yields_true _).bind fun cursor _ => ?_
  cases cursor with
  | none => exact ⟨h, by simp⟩
  | some token =>
    refine (Prog.yields_true _).bind fun answer _ => ?_
    cases answer with
    | error e => exact (Prog.yields_true _).bind fun _ _ => ⟨h, by simp⟩
    | ok delta =>
      refine (Prog.yields_true _).bind fun _ _ => ?_
      exact (yields_processChanges h fuel delta.1).bind fun out hout => hout

/-- The caches of a poller after any number of rounds, with any states in between. -/
inductive Reached {σ : Type} (h : Handler Call σ) (fuel : ℕ) (root : FileId) : PathCache → Prop
  | start : Reached h fuel root (seedCache root)
  | tick {cache cache' : PathCache} {s s' : σ} {sent : Option RemoteBatch}
      (before : Reached h fuel root cache)
      (run : (tick fuel root cache).run h s = (.ok (sent, cache'), s')) : Reached h fuel root cache'

lemma Reached.holds {σ : Type} {h : Handler Call σ} {fuel : ℕ} (hc : Reached h fuel root cache) :
    Holds root cache := by
  induction hc with
  | start => exact holds_seedCache root
  | tick _ run ih => exact ((yields_tick ih fuel).run run).1

/-- **Remote names stay inside the mapped folder**: whatever Drive answers, every path that the
remote walk finds, that a round of the poller hands on, and that the cache holds for a folder
other than the mapped one is contained. -/
theorem paths_contained {σ : Type} (h : Handler Call σ) (fuel : ℕ) (root : FileId) :
    (∀ s s' entries, (walkRemote fuel root).run h s = (.ok entries, s') →
      ∀ e ∈ entries, Contained e.relativePath) ∧
    ∀ cache, Reached h fuel root cache →
      (∀ id path, cache.val id = some path → id = root ∧ path = [] ∨ Contained path) ∧
      ∀ s s' batch cache', (tick fuel root cache).run h s = (.ok (some batch, cache'), s') →
        ∀ c ∈ batch.changes, ∀ rel, c.relativePath = some rel → Contained rel := by
  refine ⟨fun s s' entries hrun => (yields_walkRemote fuel root).run hrun, fun cache hcache => ?_⟩
  refine ⟨fun id path hpath => ?_, fun s s' batch cache' hrun => ?_⟩
  · obtain ⟨hsafe, hroot⟩ := hcache.holds id path hpath
    by_cases hne : path = []
    · exact .inl ⟨hroot hne, hne⟩
    · exact .inr (hsafe.contained hne)
  · exact ((yields_tick hcache.holds fuel).run hrun).2

/-- The mapped folder `Sync` (2) with a file `..` (3), a folder `a/b` (4) that holds a file (5), and
a folder `A` (6) with a file `f` (7). The two files in folders have just changed. -/
def hostileDrive : Drive where
  files :=
    ⟨⟨[⟨1, "My Drive", folderMime, none, [], false, true, true⟩,
       ⟨2, "Sync", folderMime, none, [1], false, true, true⟩,
       ⟨3, "..", "text/plain", some [104], [2], false, true, true⟩,
       ⟨4, "a/b", folderMime, none, [2], false, true, true⟩,
       ⟨5, "g", "text/plain", some [104], [4], false, true, true⟩,
       ⟨6, "A", folderMime, none, [2], false, true, true⟩,
       ⟨7, "f", "text/plain", some [104], [6], false, true, true⟩], by decide⟩, 8, by decide⟩
  rootNum := 1
  feed := [(5, false), (7, false)]

/-- Of these, the walk finds the folder `A` and its file, and the poller hands on the file; their
paths are contained. -/
theorem hostile_names_skipped :
    (∃ entries w', (walkRemote 9 (.id 2)).run (handle Env.plain) (aboutToPoll hostileDrive 0) =
        (.ok entries, w') ∧ entries.map RemoteEntry.relativePath = [["A"], ["A", "f"]] ∧
        ∀ e ∈ entries, Contained e.relativePath) ∧
      ∃ batch cache' w', (tick 9 (.id 2) (seedCache (.id 2))).run (handle Env.plain)
          (aboutToPoll hostileDrive 0) = (.ok (some batch, cache'), w') ∧
        batch.changes.map RemoteChange.relativePath = [some ["A", "f"]] ∧
        ∀ c ∈ batch.changes, ∀ rel, c.relativePath = some rel → Contained rel := by
  obtain ⟨hwalk, hpoll⟩ := paths_contained (handle Env.plain) 9 (.id 2)
  have hround := (hpoll _ .start).2 (aboutToPoll hostileDrive 0)
  have hfound := hwalk (aboutToPoll hostileDrive 0)
  exact ⟨⟨_, _, rfl, rfl, hfound _ _ rfl⟩, _, _, _, rfl, rfl, hround _ _ _ rfl⟩

end AirDrive.Containment
