import AirDrive.System.Admission
import AirDrive.System.Calls
import AirDrive.Watch.Watcher

set_option relaxedAutoImplicit false
set_option autoImplicit false

/-!
# Ignore patterns

The watcher, the startup scan and the initial pass each ask the matcher themselves. The rescan of a
directory, the feed of changes, the renames, and the pointers that the initial pass writes do not,
so a file with an ignored name comes in where one of these meets it, and not otherwise.

## Main definitions

* `AirDrive.IgnoreRules.Heeds` — nothing is queued for a file with an ignored name.
* `AirDrive.IgnoreRules.Meets` — a step in which no route without a matcher meets such a file.

## Main results

* `AirDrive.IgnoreRules.watcher_heeds` — the events of the watcher.
* `AirDrive.IgnoreRules.patterns_heeded` — whole runs.
-/

namespace AirDrive.IgnoreRules

open Effect Dispatcher Admission InitialPlaces StartupScan Calls

/-- Nothing is transferred or deleted, or will be, for a file whose name is ignored. -/
structure Heeds (env : Env) (db : Db) : Prop where
  queued : ∀ o ∈ db.ops, o.op = .upload ∨ o.op = .download ∨ o.op = .deleteRemote →
    ∀ r ∈ db.items, r.id = o.syncItemId → r.kind = .file → isIgnored env r.relativePath = false
  targets : ∀ o ∈ db.ops, ∀ dl, o.payload = some (.download dl) →
    isIgnored env dl.relativePath = false

/-- Neither the file at the path nor one that is walked below it has an ignored name. -/
def Clear (env : Env) (fs : Fs) (p : RelPath) : Prop :=
  (fs.isFile p = true → isIgnored env p = false) ∧
    (fs.isDir p = true → ∀ e ∈ fs.walk p, e.isDir = false → isIgnored env e.relativePath = false)

/-- No change of the batch is of a file with an ignored name, and what is bound to an object is of
its kind. -/
def BatchMeets (env : Env) (db : Db) (b : RemoteBatch) : Prop :=
  ∃ kind : FileId → ItemKind, (∀ r ∈ db.items, ∀ id, r.remoteId = some id → kind id = r.kind) ∧
    ∀ c ∈ b.changes, ∀ file, c.removed = false → c.file = some file → file.trashed = false →
      c.fileId = file.id ∧ kind file.id = Kinds.resourceKind file ∧
        (∀ id, file.parents.head? = some id → kind id = .dir) ∧
          (file.isFolder = false → isIgnored env (placeOf c file) = false)

/-- No native document of the tree gets a pointer file with an ignored name. -/
def fits (env : Env) (w : World) (root : FileId) : Prop :=
  ∀ p f, Lies w.remote.drive root p f → f.content = none → Shortcut.isNative f.mimeType = true →
    isIgnored env (Shortcut.relativePath p f.mimeType) = false

/-- The step meets no file with an ignored name where no matcher is asked: in a directory that is
rescanned, at the destination of a rename, in a change, and as the pointer of a native document. -/
def Meets (env : Env) (w : World) : Action → Prop
  | .job (.event (.created p)) _ => Clear env w.fs p
  | .job (.event (.modified p)) _ => Clear env w.fs p
  | .job (.event (.renamed from' to')) _ =>
    match w.db.items.getByRelativePath from' with
    | some item => item.kind = .file → isIgnored env to' = false
    | none => Clear env w.fs to'
  | .job (.batch b) _ => BatchMeets env w.db b
  | .job .scan _ => ∀ e ∈ w.fs.walk [], e.isDir = true → isIgnored env e.relativePath = false →
    w.db.items.getByRelativePath e.relativePath = none → Clear env w.fs e.relativePath
  | .job (.initial _ root) _ => fits env w root
  | _ => True

/-! ## The routes with a matcher -/

/-- The paths of an event. -/
def pathsOf : WatchEvent → List RelPath
  | .created p => [p]
  | .modified p => [p]
  | .deleted p => [p]
  | .renamed p q => [p, q]

/-- The buffered halves are of paths that are not ignored. -/
def Buffered (env : Env) (pending : Watch.PendingRenames) : Prop :=
  ∀ r ∈ pending.rows, isIgnored env r.2.1 = false

section Watcher

open Watch Data

variable {env : Env} {ev : NotifyEvent} {pending : PendingRenames} {kept : List RelPath}

/-- What is kept of a report is not ignored. -/
lemma not_ignored_of_kept {p : RelPath} (h : p ∈ ev.paths.filter (accepts env)) :
    isIgnored env p = false := by
  have haccepts := (List.mem_filter.mp h).2
  simp only [accepts, Bool.and_eq_true, Bool.not_eq_true'] at haccepts
  exact haccepts.2

/-- Events that name one kept path each. -/
lemma heeds_map {f : RelPath → WatchEvent} (hf : ∀ p, pathsOf (f p) = [p])
    (hkept : ∀ p ∈ kept, isIgnored env p = false) :
    ∀ ev' ∈ kept.map f, ∀ p ∈ pathsOf ev', isIgnored env p = false := by
  intro ev' hev p hp
  obtain ⟨q, hq, rfl⟩ := List.mem_map.mp hev
  rw [hf, List.mem_singleton] at hp
  exact hp ▸ hkept q hq

/-- The stale halves are deleted, and the others stay. -/
lemma heeds_drainStaleRenames (now : ℕ) (h : Buffered env pending) :
    (∀ ev' ∈ (drainStaleRenames pending now).1.map WatchEvent.deleted,
      ∀ p ∈ pathsOf ev', isIgnored env p = false) ∧
        Buffered env (drainStaleRenames pending now).2 := by
  refine ⟨heeds_map (fun _ => rfl) fun p hp => ?_, fun r hr => h r (Table.mem_keep.mp hr).1⟩
  obtain ⟨r, hr, rfl⟩ := List.mem_map.mp hp
  exact h r (List.mem_filter.mp hr).1

/-- A half that is taken out of the buffer. -/
lemma heeds_takeRename (tracker : Option ℕ) (h : Buffered env pending) :
    (∀ p, (takeRename pending tracker).1 = some p → isIgnored env p = false) ∧
      Buffered env (takeRename pending tracker).2 := by
  cases tracker with
  | none => exact ⟨nofun, h⟩
  | some t =>
    refine ⟨fun p hp => ?_, fun r hr => h r (Table.mem_erase.mp hr).1⟩
    obtain ⟨⟨q, seen⟩, hval, rfl⟩ := Option.map_eq_some_iff.mp hp
    exact h (t, q, seen) (FinMap.val_eq_some.mp hval)

/-- **One report**, other than the summary of a rename, names no ignored path. -/
lemma heeds_convertKept (now : ℕ) (hkept : ∀ p ∈ kept, isIgnored env p = false)
    (hboth : ev.kind = .renameBoth → ev.paths.length ≠ 2) (h : Buffered env pending) :
    (∀ ev' ∈ (convertKept kept now ev pending).1, ∀ p ∈ pathsOf ev', isIgnored env p = false) ∧
      Buffered env (convertKept kept now ev pending).2 := by
  obtain ⟨hstale, hfresh⟩ := heeds_drainStaleRenames now h
  obtain ⟨kind, paths, tracker⟩ := ev
  cases kind with
  | create => exact ⟨heeds_map (fun _ => rfl) hkept, h⟩
  | modify => exact ⟨heeds_map (fun _ => rfl) hkept, h⟩
  | remove => exact ⟨heeds_map (fun _ => rfl) hkept, h⟩
  | other => exact ⟨by simp [convertKept], h⟩
  | renameFrom =>
    cases tracker with
    | none => exact ⟨hstale, hfresh⟩
    | some t =>
      cases kept with
      | nil => exact ⟨hstale, hfresh⟩
      | cons p kept =>
        refine ⟨hstale, fun r hr => ?_⟩
        rcases Table.mem_put.mp hr with ⟨hr, -⟩ | rfl
        · exact hfresh r hr
        · exact hkept p List.mem_cons_self
  | renameTo =>
    obtain ⟨hsource, hleft⟩ := heeds_takeRename tracker hfresh
    simp only [convertKept]
    cases hfrom : (takeRename (drainStaleRenames pending now).2 tracker).1 with
    | none =>
      cases kept with
      | nil => exact ⟨hstale, hleft⟩
      | cons q kept =>
        refine ⟨fun ev' hev => ?_, hleft⟩
        rcases List.mem_append.mp hev with hev | hev
        · exact hstale ev' hev
        · obtain rfl := List.mem_singleton.mp hev
          simpa [pathsOf] using hkept q List.mem_cons_self
    | some p =>
      cases kept with
      | nil => exact ⟨hstale, hleft⟩
      | cons q kept =>
        refine ⟨fun ev' hev => ?_, hleft⟩
        rcases List.mem_append.mp hev with hev | hev
        · exact hstale ev' hev
        · obtain rfl := List.mem_singleton.mp hev
          simpa [pathsOf] using ⟨hsource p hfrom, hkept q List.mem_cons_self⟩
  | renameBoth =>
    rcases paths with _ | ⟨a, _ | ⟨b, _ | ⟨c, rest⟩⟩⟩
    · exact ⟨heeds_map (fun _ => rfl) hkept, h⟩
    · exact ⟨heeds_map (fun _ => rfl) hkept, h⟩
    · exact absurd rfl (hboth rfl)
    · exact ⟨heeds_map (fun _ => rfl) hkept, h⟩

/-- **The watcher** reports no ignored path, other than by the summary of a rename. -/
lemma watcher_heeds (reports : List (ℕ × Report)) (h : Buffered env pending)
    (hboth : ∀ ev ∈ notified reports, ev.kind = .renameBoth → ev.paths.length ≠ 2) :
    ∀ ev ∈ feed env reports pending, ∀ p ∈ pathsOf ev, isIgnored env p = false := by
  induction reports generalizing pending with
  | nil => simp [feed]
  | cons r reports ih =>
    obtain ⟨now, r⟩ := r
    intro ev hev
    cases r with
    | notify report =>
      obtain ⟨hevents, hleft⟩ := heeds_convertKept now (fun p hp => not_ignored_of_kept hp)
        (hboth report List.mem_cons_self) h
      rcases List.mem_append.mp hev with hev | hev
      · exact hevents ev hev
      · exact ih hleft (fun ev' hev' => hboth ev' (List.mem_cons_of_mem _ hev')) ev hev
    | reap =>
      obtain ⟨hevents, hleft⟩ := heeds_drainStaleRenames now h
      rcases List.mem_append.mp hev with hev | hev
      · exact hevents ev hev
      · exact ih hleft hboth ev hev

end Watcher

/-! ## The rules -/

/-- Files have names that are not ignored; directories may be anywhere. -/
def rules (env : Env) : Rules where
  row kind p := kind = .file → isIgnored env p = false
  base _ := True
  rebase {k old new rest} hne hrow _ hfile := by
    have hlast : ∀ above : RelPath, (above ++ rest).getLastD "" = rest.getLastD "" := fun above => by
      rw [List.getLastD_eq_getLast?, List.getLastD_eq_getLast?, List.getLast?_append_of_ne_nil _ hne]
    have hold := hrow hfile
    unfold isIgnored at hold ⊢
    rwa [hlast] at hold ⊢
  above _ _ := nofun

section Rules

variable {env : Env} {w : World} {p : RelPath}

/-- Where nothing that is ignored is found. -/
lemma discovers (h : Clear env w.fs p) : Discovers (rules env) w.fs p := by
  refine ⟨fun _ => nofun, fun hdir e he hfile => ?_, fun hfile _ => h.1 hfile⟩
  refine h.2 hdir e he ?_
  unfold entryKind at hfile
  split_ifs at hfile with hkind
  simpa using hkind

/-- What a batch brings in. -/
lemma batchBrings {b : RemoteBatch} (h : BatchMeets env w.db b) :
    ∃ S, Typed S w.db ∧ BatchBrings (rules env) S b := by
  obtain ⟨kind, hrows, hchanges⟩ := h
  refine ⟨fun id k => kind id = k, hrows, fun c hc file hremoved hfile hlive => ?_⟩
  obtain ⟨hid, hkind, hparent, hname⟩ := hchanges c hc file hremoved hfile hlive
  have hrow : ∀ k, kind file.id = k → k = .file → isIgnored env (placeOf c file) = false := by
    rintro k rfl hfile
    refine hname ?_
    rw [hkind] at hfile
    unfold Kinds.resourceKind at hfile
    split_ifs at hfile with hfolder
    simpa using hfolder
  refine ⟨hkind, hrow _ hkind, fun k hk => ⟨hrow k (hid ▸ hk), trivial⟩, fun id hhead k hk =>
    ⟨fun hfile => ?_, trivial⟩, fun hfolder k q hk hq _ => hq ?_⟩
  · rw [← hk, hparent id hhead] at hfile
    cases hfile
  · rw [← hk, hid, hkind]
    simp [Kinds.resourceKind, hfolder]

end Rules

/-! ## The initial pass -/

section Pass

variable {env : Env} {w : World} {root : FileId} {S : FileId → ItemKind → Prop}

/-- Rows that keep the rules may be inserted. -/
lemma proper_of_records {A : Rules} {β : Type} {c : Call β}
    (h : Records (fun new => A.row new.kind new.relativePath) c) : ProperCall A anyKind c := by
  cases c with
  | db c =>
    cases c with
    | insertItem new => exact ⟨h, fun _ _ => trivial⟩
    | getByRelativePath rel => trivial
    | setCursor token => trivial
    | _ => exact h.elim
  | _ => trivial

/-- The walk keeps the rules, and finds no native document with an ignored pointer name. -/
lemma obeys_walkRemote {fuel : ℕ} (hfits : fits env w root) :
    Obeys (rules env) anyKind env (fun x _ => ∀ remotes, x = .ok remotes → ∀ e ∈ remotes,
      e.isDir = false → e.md5 = none → Shortcut.isNative e.mimeType = true →
        isIgnored env (Shortcut.relativePath e.relativePath e.mimeType) = false)
      (Initial.walkRemote fuel root) w := by
  have hkeeps : Keeps env root (fun _ => False)
      fun w => Admitted (rules env) w.db ∧ Typed anyKind w.db := by
    refine ⟨fun {β c w'} hc hI => proper_call ?_ hI, fun _ _ _ hknown _ => hknown.elim⟩
    cases c with
    | db c => cases c <;> trivial
    | _ => trivial
  refine (@safe_walkRemote env root _ (fun _ => True) _ w hkeeps (fun _ _ _ => trivial) fuel).mono
    fun x w' ⟨_, _, _, hwalked⟩ remotes hx e he hfile hmd5 hnative => ?_
  obtain ⟨f, hlies, -, -, hmime, hprint, -⟩ := ((hwalked remotes hx).describes e he).file hfile
  have hcontent : f.content = none := by
    rw [hmd5] at hprint
    simpa using hprint.symm
  rw [hmime] at hnative ⊢
  exact hfits _ f hlies hcontent hnative

/-- **The initial pass** keeps the rules when no pointer has an ignored name. -/
lemma passObeys (env : Env) : PassObeys (rules env) (fits env) env := by
  intro w fuel root hfits
  rw [initial_eq]
  refine Prog.Safe.bind (obeys_look rfl) (fun locals w₁ ⟨hw₁, _⟩ => ?_) fun _ _ _ => trivial
  subst hw₁
  refine Prog.Safe.bind (obeys_walkRemote hfits) (fun remotes w₂ hpointers => ?_)
    fun _ _ _ => trivial
  refine obeys_only ((records_afterWalks (fun _ _ => nofun) (fun e he hmd5 hnative _ => ?_)
    fun rel hrel _ _ _ _ => hrel).mono fun _ _ => proper_of_records)
  obtain ⟨hmem, hfile⟩ := List.mem_filter.mp he
  exact hpointers remotes rfl e hmem (by simpa using hfile) hmd5 hnative

end Pass

/-! ## Runs -/

/-- What comes in keeps the rules. -/
lemma brings_of_meets {env : Env} {w : World} {j : Job} {calls : ℕ}
    (h : Meets env w (.job j calls)) : Brings (rules env) (fits env) env w j := by
  cases j with
  | event ev =>
    cases ev with
    | created p => exact discovers h
    | modified p => exact discovers h
    | deleted p => trivial
    | renamed from' to' =>
      simp only [Meets] at h
      simp only [Brings, EventBrings]
      split
      · next item hrow =>
        rw [hrow] at h
        exact ⟨h, trivial⟩
      · next hrow =>
        rw [hrow] at h
        exact discovers h
  | batch b => exact batchBrings h
  | scan =>
    intro e he hignored
    split
    · next hdir => exact fun hrow => discovers (h e he hdir hignored hrow)
    · exact fun _ => hignored
  | initial fuel root => exact h
  | _ => trivial

/-- **Ignore patterns are heeded** in runs whose steps meet no file with an ignored name where no
matcher is asked. On the other routes they are heeded in any case: the initial pass plans no
transfer of such a file, and the watcher reports none, other than by the summary of a rename. -/
theorem patterns_heeded (env : Env) (d : Drive) (w : World)
    (h : Runs env (Meets env) (World.fresh d) w) :
    Heeds env w.db ∧
      (∀ locals remotes, ∀ d ∈ Initial.planDownloads env locals remotes,
        isIgnored env d.1.relativePath = false) ∧
      (∀ root ids remotes locals, (Prog.foldM locals (Initial.planUpload env root ids remotes) []).Yields
        fun ups : List Engine.BulkUpload => ∀ up ∈ ups, isIgnored env up.relPath = false) ∧
      ∀ reports, (∀ ev ∈ Watch.notified reports, ev.kind = .renameBoth → ev.paths.length ≠ 2) →
        ∀ ev ∈ Watch.feed env reports Data.Table.empty, ∀ p ∈ pathsOf ev,
          isIgnored env p = false := by
  have hbrings : Runs env (fun w a => ∀ j calls, a = .job j calls →
      Brings (rules env) (fits env) env w j) (World.fresh d) w := h.mono fun w a hmeets j calls ha => by
    subst ha
    exact brings_of_meets hmeets
  have hadmitted := admitted_of_runs (passObeys env) (admitted_empty (rules env)) hbrings
  refine ⟨⟨fun o _ _ r hr _ hfile => hadmitted.rows r hr hfile, fun o ho dl hdl =>
    hadmitted.downloads o ho dl hdl rfl⟩, fun _ _ _ hd => not_ignored_of_planDownloads hd,
    fun _ _ _ _ => not_ignored_of_planUploads, fun reports hboth => watcher_heeds reports ?_ hboth⟩
  exact fun r hr => by cases hr

/-- The name `b.tmp` is ignored. -/
def tmpIgnored : Env := { Env.plain with ignored := fun name => name = "b.tmp" }

/-- The events of a run are those that the watcher makes. -/
def Delivered (env : Env) : Action → Prop
  | .job (.event ev) _ => ∃ reports, ev ∈ Watch.feed env reports Data.Table.empty
  | _ => True

/-- The arrival of `a.txt`, whose name is not ignored. -/
def arrivalSteps : List Action :=
  [.job (.batch ⟨[sampleChange [65]], 1⟩) 100, .job (.drain (.id 2)) 100]

/-- `a.txt` arrives, and nothing is queued for an ignored name. -/
theorem arrival_heeded :
    Heeds tmpIgnored (performAll tmpIgnored arrivalSteps (World.fresh (sampleDrive [65]))).db := by
  refine (patterns_heeded tmpIgnored (sampleDrive [65]) _ (@Runs.performAll _ _ _ _ arrivalSteps
    .start ⟨⟨fun id => if id = .id 2 then .dir else .file, fun r hr => absurd hr (ItemTable.not_mem_empty r),
      fun c hc file _ hfile _ => ?_⟩, trivial, trivial⟩)).1
  obtain rfl := List.mem_singleton.mp hc
  obtain rfl := Option.some.inj hfile
  exact ⟨rfl, by decide, fun id hid => by cases hid; rfl, fun _ => by decide⟩

/-- The user makes a folder `d` with a file `b.tmp`, and the watcher reports the folder. -/
def rescanSteps : List Action :=
  [.outside (byUser (.writeFile ["d", "b.tmp"] [66])
      (byUser (.createDirAll ["d"]) (World.fresh (sampleDrive [65])))),
    .job (.event (.created ["d"])) 100]

/-- **The rescan of a new folder** queues the upload of a file with an ignored name. -/
theorem rescan_queues_ignored : ¬∀ (env : Env) (d : Drive) (w : World),
    Runs env (fun _ a => Delivered env a) (World.fresh d) w → Heeds env w.db := by
  intro h
  set w := performAll tmpIgnored rescanSteps (World.fresh (sampleDrive [65])) with hw
  have hreported : Delivered tmpIgnored (.job (.event (.created ["d"])) 100) :=
    ⟨[(0, .notify ⟨.create, [["d"]], none⟩)], by decide⟩
  have hruns : Runs tmpIgnored (fun _ a => Delivered tmpIgnored a) (World.fresh (sampleDrive [65])) w :=
    Runs.performAll .start ⟨trivial, hreported, trivial⟩
  have hqueued : ∃ o ∈ w.db.ops.rows, o.op = .upload ∧ ∃ r ∈ w.db.items.rows,
      r.id = o.syncItemId ∧ r.kind = .file ∧ isIgnored tmpIgnored r.relativePath = true := by
    decide +kernel
  obtain ⟨o, ho, hop, r, hr, hid, hfile, hignored⟩ := hqueued
  have hheeded := (h tmpIgnored (sampleDrive [65]) w hruns).queued o ho (.inl hop) r
    (ItemTable.mem_rows.mp hr) hid hfile
  exact absurd hignored (by simp [hheeded])

end AirDrive.IgnoreRules
