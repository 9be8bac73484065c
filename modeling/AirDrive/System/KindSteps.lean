import AirDrive.System.Kinds

set_option relaxedAutoImplicit false
set_option autoImplicit false

/-!
# How the jobs treat kinds

Rows are looked up by path only, and neither the handling of events nor the startup scan nor the
upload compares kinds. Job by job, the events, the startup scan, the batches and the operations of
the queue do not mix up kinds where they find nothing of the other kind at the path of a row.

## Main definitions

* `AirDrive.KindSafety.Tracks` — the rows that a job takes for rows of local directories.
* `AirDrive.KindSafety.Genuine` — a change describes an object that has been on Drive.
* `AirDrive.KindSafety.Spares` — an operation finds nothing of the other kind.

## Main results

* `AirDrive.KindSafety.kept_applyLocal`, `AirDrive.KindSafety.kept_startupLocalScan`,
  `AirDrive.KindSafety.kept_applyBatch`, `AirDrive.KindSafety.kept_drainOne` — the jobs.
-/

namespace AirDrive.KindSafety

open Effect Dispatcher Continuous Outcomes Kinds

/-! ## Local events -/

/-- The directories that the handling of a path looks at: the one at the path, and those below. -/
def Visits (fs : Fs) (p q : RelPath) : Prop :=
  fs.isDir p = true ∧ (q = p ∨ ∃ e ∈ fs.walk p, e.isDir = true ∧ e.relativePath = q)

/-- The rows, by id and path, that a job takes for rows of local directories. -/
def Tracks (env : Env) (w : World) : Job → ItemId → RelPath → Prop
  | .event (.created p), _, q => Visits w.fs p q
  | .event (.modified p), _, q => Visits w.fs p q
  | .event (.renamed from' to'), i, q =>
    match w.db.items.getByRelativePath from' with
    | some item => i = item.id ∧ w.fs.isDir to' = true
    | none => Visits w.fs to' q
  | .scan, _, q => ∃ e ∈ w.fs.walk [], e.isDir = true ∧
    StartupScan.isIgnored env e.relativePath = false ∧ (q = e.relativePath ∨
      w.db.items.getByRelativePath e.relativePath = none ∧ Visits w.fs e.relativePath q)
  | .initial _ _, _, q => ∃ e ∈ w.fs.walk [], e.isDir = true ∧ e.relativePath = q
  | _, _, _ => False

section Events

variable {env : Env} {past : List Drive} {D : ItemId → RelPath → Prop} {source : Option ItemKind}
  {w : World}

/-- An entry of a walk is what is at its path. -/
lemma node_of_walk {fs : Fs} {p : RelPath} {e : Fs.LocalEntry} (he : e ∈ fs.walk p) :
    ∃ n, fs.node e.relativePath = some n ∧ e.isDir = decide (n = .dir) := by
  obtain ⟨n, hval, hdir, hbelow, -⟩ := Fs.mem_walk.mp he
  obtain ⟨x, rest, hpath⟩ := RelPath.below_iff.mp hbelow
  refine ⟨n, ?_, hdir⟩
  rw [Fs.node_of_ne_nil fs (by simp [hpath]), hval]

lemma dir_of_walk {fs : Fs} {p : RelPath} {e : Fs.LocalEntry} (he : e ∈ fs.walk p)
    (hdir : e.isDir = true) : fs.node e.relativePath = some .dir := by
  obtain ⟨n, hnode, hkind⟩ := node_of_walk he
  rw [hdir] at hkind
  rw [hnode, of_decide_eq_true hkind.symm]

lemma dir_of_visits {fs : Fs} {p q : RelPath} (h : Visits fs p q) : fs.node q = some .dir := by
  obtain ⟨hp, rfl | ⟨e, he, hdir, rfl⟩⟩ := h
  · exact Fs.isDir_iff.mp hp
  · exact dir_of_walk he hdir

/-- The call leaves the local tree alone. -/
def offDisk : {β : Type} → Call β → Bool
  | _, .fs c => still (.fs c)
  | _, _ => true

lemma fs_of_offDisk {β : Type} {c : Call β} (hc : offDisk c = true) :
    (handle env β c w).2.fs = w.fs := by
  cases c with
  | fs c => exact (still_handle env w hc).2
  | _ => rfl

/-- A program of harmless calls that leave the local tree alone. -/
lemma kept_offDisk {α : Type} {p : Task α}
    (hp : p.Only fun _ c => settled c = true ∧ offDisk c = true) :
    Kept env past D source (fun _ w' => w'.fs = w.fs) p w :=
  kept_only (J := fun w' => w'.fs = w.fs) hp (fun _ _ h => harmless_of_settled h.1)
    (fun _ _ _ hc hJ => (fs_of_offDisk hc.2).trans hJ) rfl

/-- Queueing anything but a download. -/
lemma enqueueOp_offDisk {i : ItemId} {op : Operation} {payload : Option Payload}
    (hop : op ≠ .download) :
    (enqueueOp i op payload).Only fun _ c => settled c = true ∧ offDisk c = true := by
  refine ⟨⟨rfl, rfl⟩, fun now => ⟨⟨by simpa [settled, harmless] using hop, rfl⟩, fun x => ?_⟩⟩
  exact Prog.Only.bind (Prog.only_ofExcept x) fun _ => trivial

/-- Recording a local object and queueing an operation for it. -/
lemma kept_localCreate {rel : RelPath} {kind : ItemKind} {op : Operation} (hop : op ≠ .download)
    (hkind : localKind w.fs rel = some kind) (hD : ∀ i, D i rel → kind = .dir) :
    Kept env past D source (fun _ w' => w'.fs = w.fs)
      (do let id ← sqlTry (.insertItem (localCreate rel kind)); enqueueOp id op none) w := by
  have hfine : Fine past D source (.db (.insertItem (localCreate rel kind))) w :=
    ⟨by simp [allowed, localCreate, hkind], nofun, hD⟩
  refine Kept.bind (P := fun _ w' => w'.fs = w.fs) (kept_sqlTry (fun _ => hfine) fun _ => rfl)
    (fun id w₁ hfs => ?_) fun _ _ h => h
  exact (kept_offDisk (enqueueOp_offDisk hop)).mono fun _ _ h => h.trans hfs

lemma kept_enqueueLocalDir {rel : RelPath} (hdir : w.fs.node rel = some .dir) :
    Kept env past D source (fun _ w' => w'.fs = w.fs) (enqueueLocalDir rel) w := by
  have hread : (sql (.getByRelativePath rel)).Only fun _ c => still c = true :=
    ⟨rfl, fun _ => trivial⟩
  refine (kept_still hread).bind (fun row w₁ ⟨_, hfs⟩ => ?_) fun _ _ h => h.2
  cases row with
  | some item => exact kept_pure.mpr hfs
  | none =>
    refine (kept_localCreate (by decide) ?_ fun _ _ => rfl).mono fun _ _ h => h.trans hfs
    simp [localKind, hfs, hdir]

lemma kept_enqueueLocalFile {rel : RelPath} {n : Node} (hnode : w.fs.node rel = some n)
    (hfile : n ≠ .dir) (hD : ∀ i q, D i q → w.fs.node q = some .dir) :
    Kept env past D source (fun _ w' => w'.fs = w.fs) (enqueueLocalFile rel) w := by
  have hread : (sql (.getByRelativePath rel)).Only fun _ c => still c = true :=
    ⟨rfl, fun _ => trivial⟩
  refine (kept_still hread).bind (fun row w₁ ⟨_, hfs⟩ => ?_) fun _ _ h => h.2
  cases row with
  | some item =>
    simp only
    split
    · exact kept_pure.mpr hfs
    · exact (kept_offDisk (enqueueOp_offDisk (by decide))).mono fun _ _ h => h.trans hfs
  | none =>
    refine (kept_localCreate (by decide) ?_ fun i hi => ?_).mono fun _ _ h => h.trans hfs
    · simp [localKind, hfs, hnode, hfile]
    · rw [hD i rel hi] at hnode
      exact absurd (Option.some.inj hnode).symm hfile

/-- **A created or modified path**: what is recorded for it has the kind of what is there. -/
lemma kept_applyCreated {p : RelPath} (hD : ∀ i q, D i q → w.fs.node q = some .dir) :
    Kept env past D source (fun _ w' => w'.fs = w.fs) (applyCreated p) w := by
  refine Kept.bind (P := fun x w' => x = .ok (w.fs.isDir p) ∧ w'.fs = w.fs)
    (kept_io (fun _ => .of_harmless rfl) fun _ => ⟨rfl, rfl⟩) ?_
    fun _ _ h => h.2
  rintro isDir w₁ ⟨hx, hfs₁⟩
  obtain rfl := Except.ok.inj hx
  split
  · next hdir =>
    refine (kept_enqueueLocalDir (by rw [hfs₁, Fs.isDir_iff.mp hdir])).bind
      (fun _ w₂ hfs₂ => ?_) fun _ _ h => h.trans hfs₁
    refine Kept.bind (P := fun x w' => x = .ok (w.fs.walk p) ∧ w'.fs = w.fs)
      (kept_io (fun _ => .of_harmless rfl) fun _ => ⟨?_, hfs₂.trans hfs₁⟩)
      ?_ fun _ _ h => h.2
    · simp only [FsCall.run, hfs₂.trans hfs₁]
    · rintro entries w₃ ⟨hx, hfs₃⟩
      obtain rfl := Except.ok.inj hx
      refine kept_forEach (fun w' => w'.fs = w.fs) hfs₃ (fun e he w₄ hfs₄ => ?_) fun _ h => h
      obtain ⟨n, hnode, hkind⟩ := node_of_walk he
      have hentry : Kept env past D source (fun _ w' => w'.fs = w₄.fs) (enqueueLocalEntry e) w₄ := by
        unfold enqueueLocalEntry
        split
        · next hisDir => exact kept_enqueueLocalDir (by rw [hfs₄, dir_of_walk he hisDir])
        · next hisFile =>
          refine kept_enqueueLocalFile (n := n) (by rw [hfs₄, hnode]) (fun hn => hisFile ?_)
            (hfs₄ ▸ hD)
          rw [hkind, decide_eq_true hn]
      exact hentry.mono fun x w' h => by cases x <;> exact h.trans hfs₄
  · next hnot =>
    refine Kept.bind (P := fun x w' => x = .ok (w.fs.isFile p) ∧ w'.fs = w.fs)
      (kept_io (fun _ => .of_harmless rfl) fun _ => ⟨by simp only [FsCall.run, hfs₁], hfs₁⟩)
      ?_ fun _ _ h => h.2
    rintro isFile w₂ ⟨hx, hfs₂⟩
    obtain rfl := Except.ok.inj hx
    split
    · next hfile =>
      obtain ⟨b, hnode⟩ := Fs.isFile_iff.mp hfile
      exact (kept_enqueueLocalFile (by rw [hfs₂, hnode]) (by simp) (hfs₂ ▸ hD)).mono
        fun _ _ h => h.trans hfs₂
    · exact kept_pure.mpr hfs₂

lemma applyDeleted_offDisk (p : RelPath) :
    (applyDeleted p).Only fun _ c => settled c = true ∧ offDisk c = true := by
  have hcleanup : (Conflict.cleanupOnLocalDelete p).Only
      fun _ c => settled c = true ∧ offDisk c = true := by
    refine ⟨⟨rfl, rfl⟩, fun records => ?_⟩
    refine Prog.Only.bind (p := .pure records) trivial fun records => Prog.Only.forEach fun c _ => ?_
    split
    · exact ⟨⟨rfl, rfl⟩, fun _ => trivial⟩
    · trivial
  refine hcleanup.bind fun _ => Prog.Only.bind ⟨⟨rfl, rfl⟩, fun _ => trivial⟩ fun row => ?_
  cases row with
  | none => trivial
  | some item =>
    simp only
    split
    · trivial
    · split
      · exact enqueueOp_offDisk (by decide)
      · exact ⟨⟨rfl, rfl⟩, fun _ => trivial⟩

/-- **A watcher event.** -/
lemma kept_applyLocal {ev : WatchEvent} :
    Kept env past (Tracks env w (.event ev)) source Prog.Any (applyLocal ev) w := by
  cases ev with
  | created p => exact (kept_applyCreated fun i q hq => dir_of_visits hq).mono fun _ _ _ => trivial
  | modified p => exact (kept_applyCreated fun i q hq => dir_of_visits hq).mono fun _ _ _ => trivial
  | deleted p => exact (kept_offDisk (applyDeleted_offDisk p)).mono fun _ _ _ => trivial
  | renamed from' to' =>
    refine Kept.bind (P := fun x w' => x = .ok (w.db.items.getByRelativePath from') ∧ w' = w)
      (kept_sql (fun _ => .of_harmless rfl) fun _ => ⟨rfl, rfl⟩) (fun row w₁ ⟨hx, hw₁⟩ => ?_)
      fun _ _ _ => trivial
    obtain rfl := Except.ok.inj hx
    subst hw₁
    cases hrow : w₁.db.items.getByRelativePath from' with
    | none =>
      refine (kept_applyCreated fun i q hq => ?_).mono fun _ _ _ => trivial
      simp only [Tracks, hrow] at hq
      exact dir_of_visits hq
    | some item =>
      have hmove : ∀ i p q, Tracks env w₁ (.event (.renamed from' to')) i p →
          Tracks env w₁ (.event (.renamed from' to')) i q := by
        intro i p q hp
        simp only [Tracks, hrow] at hp ⊢
        exact hp
      simp only
      split
      · refine Kept.bind (P := Prog.Any) (kept_sql (fun _ => ⟨rfl, trivial, hmove⟩)
          fun _ => trivial) (fun _ w₂ _ => ?_) fun _ _ _ => trivial
        exact (kept_offDisk (enqueueOp_offDisk (by decide))).mono fun _ _ _ => trivial
      · exact (kept_offDisk (enqueueOp_offDisk (by decide))).mono fun _ _ _ => trivial

/-! ## The startup scan -/

lemma remoteMatchesSynced_still (item : SyncItem) :
    (StartupScan.remoteMatchesSynced item).Only fun _ c => still c = true := by
  unfold StartupScan.remoteMatchesSynced
  split
  · trivial
  · refine Prog.Only.bind (Prog.Only.attempt ⟨rfl, fun x => Prog.only_ofExcept x⟩) fun res => ?_
    split <;> trivial

lemma computeLocal_still (rel : RelPath) :
    (computeLocal env rel).Only fun _ c => still c = true :=
  Prog.Only.bind ⟨rfl, fun x => Prog.only_ofExcept x⟩ fun _ => trivial

lemma kept_scanEntry {e : Fs.LocalEntry} (hD : ∀ i q, D i q → w.fs.node q = some .dir) :
    Kept env past D source (fun _ w' => w'.fs = w.fs) (StartupScan.scanEntry env e) w := by
  have hread : (sql (.getByRelativePath e.relativePath)).Only fun _ c => still c = true :=
    ⟨rfl, fun _ => trivial⟩
  unfold StartupScan.scanEntry
  split
  · exact kept_pure.mpr rfl
  · refine (kept_still hread).bind (fun row w₁ ⟨_, hfs₁⟩ => ?_) fun _ _ h => h.2
    have hD₁ : ∀ i q, D i q → w₁.fs.node q = some .dir := hfs₁ ▸ hD
    split
    · cases row with
      | none => exact (kept_applyCreated hD₁).mono fun _ _ h => h.trans hfs₁
      | some item => exact kept_pure.mpr hfs₁
    · cases row with
      | none => exact (kept_applyCreated hD₁).mono fun _ _ h => h.trans hfs₁
      | some item =>
        simp only
        split
        · exact kept_pure.mpr hfs₁
        · refine (kept_still (computeLocal_still _)).bind (fun print w₂ ⟨_, hfs₂⟩ => ?_)
            fun _ _ h => h.2.trans hfs₁
          split
          · refine (kept_still (remoteMatchesSynced_still item)).bind
              (fun same w₃ ⟨_, hfs₃⟩ => ?_) fun _ _ h => h.2.trans (hfs₂.trans hfs₁)
            have hfs : w₃.fs = w.fs := hfs₃.trans (hfs₂.trans hfs₁)
            split
            · exact (kept_applyCreated (hfs ▸ hD)).mono fun _ _ h => h.trans hfs
            · exact kept_pure.mpr hfs
          · exact kept_pure.mpr (hfs₂.trans hfs₁)

/-- **The startup scan.** -/
lemma kept_startupLocalScan :
    Kept env past (Tracks env w .scan) source Prog.Any (StartupScan.startupLocalScan env) w := by
  have hD : ∀ i q, Tracks env w .scan i q → w.fs.node q = some .dir := by
    rintro i q ⟨e, he, hdir, -, rfl | ⟨-, hq⟩⟩
    · exact dir_of_walk he hdir
    · exact dir_of_visits hq
  refine Kept.bind (P := fun _ w' => w'.fs = w.fs) (kept_io (fun _ => .of_harmless rfl)
    fun _ => rfl) (fun entries w₁ hfs₁ => ?_) fun _ _ _ => trivial
  refine Kept.bind (P := fun _ w' => w'.fs = w.fs) ?_ (fun _ w₂ _ => ?_) fun _ _ _ => trivial
  · refine kept_forEach (fun w' => w'.fs = w.fs) hfs₁ (fun e _ w₂ hfs₂ => ?_) fun _ h => h
    exact (kept_scanEntry (hfs₂ ▸ hD)).mono fun x w' h => by cases x <;> exact h.trans hfs₂
  · refine kept_harmless (Prog.Only.bind ⟨rfl, fun _ => trivial⟩ fun rows =>
      Prog.Only.forEach fun item _ => ?_)
    unfold StartupScan.scanRow
    split
    · refine ((remoteMatchesSynced_still item).mono fun _ _ => harmless_of_still).bind fun same => ?_
      split
      · exact (applyDeleted_offDisk _).mono fun _ _ h => harmless_of_settled h.1
      · trivial
    · trivial

end Events

/-! ## Remote changes -/

/-- A change describes an object that has been on Drive. -/
def Genuine (past : List Drive) (c : RemoteChange) : Prop :=
  ∀ file, c.file = some file → ∃ n, c.fileId = .id n ∧ file.id = .id n ∧
    Was past n (resourceKind file)

/-- No row is asked about. -/
def Nothing : ItemId → RelPath → Prop := fun _ _ => False

section Changes

variable {env : Env} {past : List Drive} {source : Option ItemKind} {w : World} {α : Type}

/-- A row that was inserted has the kind it was given. -/
lemma rowKind_insert {new : NewSyncItem} {i : ItemId}
    (h : (DbCall.run (.insertItem new) w.db).1 = .ok i) :
    RowKind i new.kind { w with db := (DbCall.run (.insertItem new) w.db).2 } := by
  simp only [DbCall.run, Db.insertItem] at h ⊢
  split_ifs at h ⊢ with hfree
  obtain rfl := Except.ok.inj h
  refine ⟨Nat.lt_succ_self _, fun r hr hid => ?_⟩
  rcases (ItemTable.mem_insert (h := hfree)).mp hr with hr | rfl
  · exact absurd hid (ItemTable.id_lt hr).ne
  · rfl

/-- Queueing a download of a file for a file row. -/
lemma kept_enqueueDownload {i : ItemId} {file : FileResource} {md5 : String} {rel : RelPath}
    (hnames : Names past w.remote.drive file.id .file) (hrow : RowKind i .file w) :
    Kept env past Nothing source Prog.Any (enqueueDownload i file md5 rel) w := by
  refine Kept.bind (P := fun _ w' => w' = w) (kept_call (fun _ => .of_harmless rfl)
    fun _ => kept_pure.mpr rfl) (fun now w₁ hw₁ => ?_) fun _ _ _ => trivial
  subst hw₁
  refine Kept.bind (P := Prog.Any) (kept_sqlTry (fun _ => ⟨rfl, ⟨hnames, hrow⟩, trivial⟩)
    fun _ => trivial) (fun _ _ _ => kept_pure.mpr trivial) fun _ _ _ => trivial

/-- Queueing anything else. -/
lemma kept_enqueueOp {i : ItemId} {op : Operation} {payload : Option Payload}
    (hop : op ≠ .download) :
    Kept env past Nothing source Prog.Any (enqueueOp i op payload) w :=
  kept_harmless ((enqueueOp_offDisk hop).mono fun _ _ h => harmless_of_settled h.1)

/-- A row for a remote object. -/
lemma kept_insert {n : NewSyncItem} {rid : FileId} (hrid : n.remoteId = some rid)
    (hnames : Names past w.remote.drive rid n.kind) :
    Kept env past Nothing source (fun x w' => Evolves w w' ∧ ∀ i, x = .ok i → RowKind i n.kind w')
      (sqlTry (.insertItem n)) w := by
  have hfine : Fine past Nothing source (.db (.insertItem n)) w :=
    ⟨by simp [allowed, hrid], fun rid' h => Option.some.inj (hrid.symm.trans h) ▸ hnames, nofun⟩
  exact (kept_sqlTry (fun _ => hfine) fun _ i hi => rowKind_insert hi).evolve

/-- The row bound to a file is a file row. -/
lemma rowKind_of_bound {n : ℕ} {k : ItemKind} {item : SyncItem} (h : Good past Nothing w)
    (hrow : w.db.items.getByRemoteId (.id n) = some item) (hwas : Was past n k) :
    RowKind item.id k w := by
  obtain ⟨hmem, hremote⟩ := ItemTable.getByRemoteId_mem hrow
  obtain ⟨m, hm, -, hkind, -⟩ := h.bound item hmem _ hremote
  obtain rfl := FileId.id.inj hm
  rw [hkind k hwas]
  exact rowKind_of_mem hmem

lemma renamedDir_still (item : SyncItem) (file : FileResource) (rel : RelPath) :
    (renamedDir item file rel).Only fun _ c => still c = true := by
  unfold renamedDir
  simp only
  split
  · split
    · refine Prog.Only.bind ⟨rfl, fun _ => trivial⟩ fun row => ?_
      split
      · split <;> trivial
      · trivial
    · trivial
  · trivial

/-- A local version that was edited is a file. -/
lemma kept_localVersion {item : SyncItem} {md5 : String} :
    Kept env past Nothing source (fun x w' => x = .ok LocalVersion.edited →
      w'.fs.isFile item.relativePath = true) (localVersion env item md5) w := by
  refine Kept.bind (P := fun x w' => w' = w ∧ x = .ok (w.fs.isFile item.relativePath))
    (kept_io (fun _ => .of_harmless rfl) fun _ => ⟨rfl, rfl⟩) (fun isFile w₁ ⟨hw₁, hx⟩ => ?_)
    fun _ _ _ => nofun
  subst hw₁
  obtain rfl := Except.ok.inj hx
  split
  · next hfile =>
    split
    · exact kept_pure.mpr nofun
    · refine Kept.bind (P := fun _ w' => w' = w₁) (kept_io (fun _ => .of_harmless rfl)
        fun _ => rfl) (fun res w₂ hw₂ => ?_) fun _ _ _ => nofun
      subst hw₂
      split
      · exact kept_pure.mpr nofun
      · split_ifs <;> exact kept_pure.mpr fun _ => hfile
  · exact kept_pure.mpr nofun

/-- Moving a file aside moves no directory. -/
lemma kept_openConflict {i : ItemId} {rel : RelPath} {now : ℕ}
    (hfile : w.fs.isFile rel = true) :
    Kept env past Nothing source Prog.Any (Conflict.openConflict i rel now) w := by
  have hmove : Kept env past Nothing source Prog.Any
      (Conflict.moveAside rel (Conflict.conflictPathFor rel now)) w := by
    refine Kept.bind (P := fun _ w' => w' = w) (kept_io (fun _ => .of_harmless rfl)
      fun _ => rfl) (fun there w₁ hw₁ => ?_) fun _ _ _ => trivial
    subst hw₁
    split
    · have hdir : w₁.fs.isDir rel = false := by
        obtain ⟨b, hnode⟩ := Fs.isFile_iff.mp hfile
        simp [Fs.isDir, hnode]
      refine Kept.bind (P := Prog.Any) (kept_io (fun _ => ⟨?_, trivial, trivial⟩) fun _ => trivial)
        (fun res w₂ _ => ?_) fun _ _ _ => trivial
      · simp [allowed, mistaken, hdir]
      · split
        · exact kept_pure.mpr trivial
        · exact kept_fail.mpr trivial
    · exact kept_pure.mpr trivial
  refine Kept.bind (P := Prog.Any) hmove (fun _ w₁ _ => ?_) fun _ _ _ => trivial
  exact kept_harmless (Prog.Only.bind ⟨rfl, fun x => Prog.only_ofExcept x⟩ fun _ => trivial)

/-- A row that a change is about. -/
lemma kept_lookup {n : ℕ} {k : ItemKind} (hwas : Was past n k) :
    Kept env past Nothing source (fun x w' => w' = w ∧ Good past Nothing w ∧
      ∀ item, x = .ok (some item) → RowKind item.id k w) (sql (.getByRemoteId (.id n))) w :=
  kept_sql (fun _ => .of_harmless rfl) fun h => ⟨rfl, h, fun _ hitem =>
    rowKind_of_bound h (Except.ok.inj hitem) hwas⟩

/-- A file whose content changed. -/
lemma kept_applyEdited {item : SyncItem} {file : FileResource} {md5 : String}
    (hnames : Names past w.remote.drive file.id .file) (hrow : RowKind item.id .file w) :
    Kept env past Nothing source Prog.Any (applyEdited env item file md5) w := by
  unfold applyEdited
  split
  · exact kept_pure.mpr trivial
  · refine (kept_localVersion.evolve).bind (fun version w₁ ⟨hev, hedited⟩ => ?_)
      fun _ _ _ => trivial
    have hdownload : ∀ w₂, Evolves w w₂ → Kept env past Nothing source Prog.Any
        (enqueueDownload item.id file md5 item.relativePath) w₂ := fun w₂ hev₂ =>
      kept_enqueueDownload (hnames.mono hev₂.drive) (hrow.evolve hev₂)
    cases version with
    | agrees => exact kept_pure.mpr trivial
    | behind => exact hdownload w₁ hev
    | edited =>
      refine Kept.bind (P := fun _ w' => w' = w₁) (kept_call (fun _ => .of_harmless rfl)
        fun _ => kept_pure.mpr rfl) (fun now w₂ hw₂ => ?_) fun _ _ _ => trivial
      subst hw₂
      refine ((kept_openConflict (hedited rfl)).evolve).bind (fun _ w₃ ⟨hev₃, _⟩ => ?_)
        fun _ _ _ => trivial
      exact hdownload w₃ (hev.trans hev₃)

/-- A file that moved. -/
lemma kept_applyMoved {item : SyncItem} {file : FileResource} {md5 : String} {rel : RelPath}
    (hnames : Names past w.remote.drive file.id .file) (hrow : RowKind item.id .file w) :
    Kept env past Nothing source Prog.Any (applyMoved item file md5 rel) w := by
  refine ((kept_still (renamedDir_still item file rel)).evolve).bind (fun dir w₁ ⟨hev₁, _⟩ => ?_)
    fun _ _ _ => trivial
  cases dir with
  | some dir => exact kept_enqueueOp (by decide)
  | none =>
    refine ((kept_enqueueOp (by decide)).evolve).bind (fun _ w₂ ⟨hev₂, _⟩ => ?_)
      fun _ _ _ => trivial
    split
    · exact kept_pure.mpr trivial
    · have hev := hev₁.trans hev₂
      exact kept_enqueueDownload (hnames.mono hev.drive) (hrow.evolve hev)

/-- A live file. -/
lemma kept_applyFile {change : RemoteChange} {file : FileResource} {md5 : String} {n : ℕ}
    (hid : change.fileId = .id n) (hfile : file.id = .id n) (hwas : Was past n .file) :
    Kept env past Nothing source Prog.Any (applyFile env change file md5) w := by
  unfold applyFile
  rw [hid]
  refine (kept_lookup hwas).bind (fun row w₁ ⟨hw₁, hgood, hrow⟩ => ?_) fun _ _ _ => trivial
  subst hw₁
  have hnames : Names past w₁.remote.drive file.id .file := hfile ▸ hgood.history.names_was hwas
  cases row with
  | some item =>
    have hkind := hrow item rfl
    simp only
    split
    · refine ((kept_harmless (p := sql (.clearTrashed item.id))
        ⟨rfl, fun _ => trivial⟩).evolve).bind (fun _ w₂ ⟨hev, _⟩ => ?_) fun _ _ _ => trivial
      exact kept_enqueueDownload (hnames.mono hev.drive) (hkind.evolve hev)
    · split
      · split
        · exact kept_applyMoved hnames hkind
        · exact kept_applyEdited hnames hkind
      · exact kept_applyEdited hnames hkind
  | none =>
    refine (kept_still (p := sql (.getByRelativePath (change.path file)))
      ⟨rfl, fun _ => trivial⟩).evolve.bind (fun occupant w₂ ⟨hev₂, _⟩ => ?_) fun _ _ _ => trivial
    cases occupant with
    | some _ => exact kept_pure.mpr trivial
    | none =>
      have hnames₂ := hnames.mono hev₂.drive
      refine (kept_insert (n := remoteFile (change.path file) file md5) rfl hnames₂).bind
        (fun i w₃ ⟨hev₃, hi⟩ => ?_) fun _ _ _ => trivial
      exact kept_enqueueDownload (hnames₂.mono hev₃.drive) (hi i rfl)

/-- A live folder. -/
lemma kept_applyFolder {fileId : FileId} {file : FileResource} {rel : RelPath} {n : ℕ}
    (hfile : file.id = .id n) (hwas : Was past n .dir) :
    Kept env past Nothing source Prog.Any (applyFolder fileId file rel) w := by
  refine Kept.bind (P := fun _ w' => w' = w) (kept_sql (fun _ => .of_harmless rfl) fun _ => rfl)
    (fun row w₁ hw₁ => ?_) fun _ _ _ => trivial
  subst hw₁
  cases row with
  | some existing =>
    simp only
    split
    · exact kept_enqueueOp (by decide)
    · exact kept_pure.mpr trivial
  | none =>
    refine Kept.bind (P := fun _ w' => w' = w₁ ∧ Good past Nothing w₁)
      (kept_sql (fun _ => .of_harmless rfl) fun h => ⟨rfl, h⟩) (fun occupant w₂ ⟨hw₂, hgood⟩ => ?_)
      fun _ _ _ => trivial
    subst hw₂
    cases occupant with
    | some _ => exact kept_pure.mpr trivial
    | none =>
      refine (kept_insert (n := remoteDir rel file.id) rfl
        (hfile ▸ hgood.history.names_was hwas)).bind (fun i w₃ _ => ?_) fun _ _ _ => trivial
      exact kept_enqueueOp (by decide)

/-- A live native document. -/
lemma kept_applyNative {fileId : FileId} {file : FileResource} {rel : RelPath} {n : ℕ}
    (hfile : file.id = .id n) (hwas : Was past n .file) :
    Kept env past Nothing source Prog.Any (applyNative fileId file rel) w := by
  refine Kept.bind (P := fun _ w' => w' = w ∧ Good past Nothing w)
    (kept_sql (fun _ => .of_harmless rfl) fun h => ⟨rfl, h⟩) (fun row w₁ ⟨hw₁, hgood⟩ => ?_)
    fun _ _ _ => trivial
  subst hw₁
  cases row with
  | some existing =>
    simp only
    split
    · exact kept_enqueueOp (by decide)
    · split
      · refine Kept.bind (P := Prog.Any) (kept_harmless ⟨rfl, fun _ => trivial⟩)
          (fun _ w₂ _ => ?_) fun _ _ _ => trivial
        exact kept_enqueueOp (by decide)
      · exact kept_pure.mpr trivial
  | none =>
    refine (kept_insert (n := pointer rel file.id) rfl
      (hfile ▸ hgood.history.names_was hwas)).bind (fun i w₂ _ => ?_) fun _ _ _ => trivial
    exact kept_enqueueOp (by decide)

/-- **A change** that describes an object as it was. -/
lemma kept_applyRemote {change : RemoteChange} (hchange : Genuine past change) :
    Kept env past Nothing source Prog.Any (applyRemote env change) w := by
  have hlookup : ∀ w, Kept env past Nothing source Prog.Any (sql (.getByRemoteId change.fileId)) w :=
    fun w => kept_harmless ⟨rfl, fun _ => trivial⟩
  refine Kept.bind (P := Prog.Any) (kept_harmless (p := .lift (.inFlight change.fileId))
    ⟨rfl, fun _ => trivial⟩) (fun inFlight w₁ _ => ?_) fun _ _ _ => trivial
  split
  · exact kept_pure.mpr trivial
  · split
    · refine (hlookup w₁).bind (fun row w₂ _ => ?_) fun _ _ _ => trivial
      cases row with
      | none => exact kept_pure.mpr trivial
      | some item => exact kept_enqueueOp (by decide)
    · cases hfile : change.file with
      | none => exact kept_pure.mpr trivial
      | some file =>
        obtain ⟨n, hid, hfileId, hwas⟩ := hchange file hfile
        simp only [applyPresent]
        split
        · refine (hlookup w₁).bind (fun row w₂ _ => ?_) fun _ _ _ => trivial
          cases row with
          | none => exact kept_pure.mpr trivial
          | some item =>
            simp only
            split
            · exact kept_enqueueOp (by decide)
            · exact kept_pure.mpr trivial
        · split
          · next hfolder =>
            rw [resourceKind, if_pos hfolder] at hwas
            exact kept_applyFolder hfileId hwas
          · next hregular =>
            rw [resourceKind, if_neg hregular] at hwas
            split
            · exact kept_applyNative hfileId hwas
            · split
              · exact kept_pure.mpr trivial
              · exact kept_applyFile hid hfileId hwas

/-- **A batch.** -/
lemma kept_applyBatch {b : RemoteBatch} (hb : ∀ c ∈ b.changes, Genuine past c) :
    Kept env past Nothing source Prog.Any (Consumer.applyBatch env b) w := by
  refine Kept.bind (P := Prog.Any) ?_ (fun allApplied w₁ _ => ?_) fun _ _ _ => trivial
  · refine kept_foldM (fun _ _ => True) trivial (fun c hc b w₂ _ => ?_) fun _ _ _ => trivial
    refine Kept.bind (P := Prog.Any) (kept_attempt ((kept_applyRemote (hb c hc)).mono
      fun _ _ _ => trivial)) (fun res w₃ _ => ?_) fun _ _ _ => trivial
    cases res <;> exact kept_pure.mpr trivial
  · split
    · exact kept_harmless ⟨rfl, fun _ => trivial⟩
    · exact kept_pure.mpr trivial

end Changes

/-! ## The dispatcher -/

/-- The paths of the folders that `ensure_remote_folder` goes through. -/
def Above (dir : RelPath) : ItemId → RelPath → Prop := fun _ q => q ≠ [] ∧ q <+: dir

/-- The rows at these paths are directory rows. -/
def DirsAbove (w : World) (dir : RelPath) : Prop :=
  ∀ r ∈ w.db.items, Above dir r.id r.relativePath → r.kind = .dir

/-- An operation finds nothing of the other kind: no file is uploaded for a directory row, no file
row is on the way of the folders to be made, and no directory is at the path of a file row that is
moved. -/
def Spares (w : World) (op : PendingOperation) (item : SyncItem) : Prop :=
  match op.op with
  | .upload => w.fs.isFile item.relativePath = true → item.kind = .file ∧
    (item.remoteId = none → DirsAbove w item.relativePath.splitParent.1)
  | .createDirRemote => DirsAbove w item.relativePath
  | .renameRemote => item.remoteId ≠ none → ∀ p, op.payload = some (.rename p) →
    DirsAbove w p.newRelativePath.splitParent.1
  | .renameLocal => item.kind = .file → w.fs.isDir item.relativePath = false ∧
    ∀ p, op.payload = some (.rename p) → ¬item.relativePath <+: p.newRelativePath.parentDir
  | _ => True

/-- The kind of the row whose operation a job executes. -/
def source (w : World) : Job → Option ItemKind
  | .drain _ => (OpTable.nextDue w.db.ops w.now).bind fun op =>
    (w.db.items.getById op.syncItemId).map SyncItem.kind
  | _ => none

/-- Reading the payload of a rename. -/
lemma asRename_ok {payload : Option Payload} {p : RenamePayload}
    (h : decodePayload Payload.asRename payload = .ok p) : payload = some (.rename p) := by
  cases payload with
  | none => cases h
  | some p' =>
    cases p' with
    | rename p' => rw [Except.ok.inj h]
    | _ => cases h

section Drain

variable {env : Env} {past : List Drive} {D : ItemId → RelPath → Prop} {source : Option ItemKind}
  {w : World} {root : FileId} {item : SyncItem}

/-- A folder that was found has the id of a folder. -/
lemma names_listed {d : Drive} {parent : FileId} {l : List FileResource} {c : FileResource}
    (h : Consistent past d) (hl : (DriveCall.run env.md5 (.listChildren parent) d).1 = .ok l)
    (hc : c ∈ l) : Names past d c.id (resourceKind c) := by
  rw [← Except.ok.inj hl] at hc
  obtain ⟨f, hf, rfl⟩ := List.mem_map.mp hc
  have hkind : resourceKind (Drive.resource env.md5 f) = kindOf f := by
    by_cases hmime : f.mimeType = folderMime <;>
      simp [resourceKind, FileResource.isFolder, Drive.resource, kindOf, hmime]
  rw [hkind]
  exact h.names (List.mem_filter.mp hf).1

/-- What a creating request answers is there. -/
lemma names_created {d : Drive} {parent : FileId} {name mime : String}
    {content : Option (List UInt8)} {c : DriveCall FileResource} {rf : FileResource}
    (h : Consistent past (c.run env.md5 d).2)
    (hc : c.run env.md5 d = match d.create parent name mime content with
      | (some f, d') => (.ok (Drive.resource env.md5 f), d')
      | (none, d') => (.error Drive.notFound, d'))
    (hok : (c.run env.md5 d).1 = .ok rf) :
    Names past (c.run env.md5 d).2 rf.id (if mime = folderMime then .dir else .file) := by
  rw [hc] at hok h ⊢
  unfold Drive.create at hok h ⊢
  cases hparent : d.file parent with
  | none => simp [hparent] at hok
  | some p =>
    simp only [hparent] at hok h ⊢
    rw [← Except.ok.inj hok]
    exact h.names (Data.Serial.mem_push.mpr (.inr rfl))

/-- **Finding or making a folder**: its id is that of a folder. -/
lemma kept_childFolder {parent : FileId} {name : String} :
    Kept env past D source (fun x w' => w'.db = w.db ∧
      ∀ id, x = .ok id → Names past w'.remote.drive id .dir) (childFolder parent name) w := by
  refine Kept.bind (P := fun x w' => w'.db = w.db ∧ ∀ l, x = .ok l → ∀ c ∈ l,
    Names past w'.remote.drive c.id (resourceKind c)) ?_ (fun children w₁ ⟨hdb, hnames⟩ => ?_)
    fun _ _ h => ⟨h.1, nofun⟩
  · refine kept_request (fun _ => .of_harmless rfl) fun h => ⟨rfl, fun l hl c hc => ?_⟩
    exact (names_listed h.history (Remote.send_ok hl) hc).mono (kindsKept_send _ _)
  · have hlisted := hnames children rfl
    cases hfind : children.find? fun c => c.isFolder && c.name = name with
    | some f =>
      refine kept_pure.mpr ⟨hdb, fun id hid => ?_⟩
      obtain rfl := Except.ok.inj hid
      have hfolder := List.find?_some hfind
      simp only [Bool.and_eq_true] at hfolder
      have hf := hlisted f (List.mem_of_find?_eq_some hfind)
      rwa [resourceKind, if_pos hfolder.1] at hf
    | none =>
      refine Kept.bind (P := fun x w' => w'.db = w.db ∧ ∀ rf, x = .ok rf →
        Names past w'.remote.drive rf.id .dir) (kept_request (fun _ => .of_harmless rfl)
          fun h => ⟨hdb, fun rf hrf => ?_⟩) (fun created w₂ ⟨hdb₂, hcreated⟩ => ?_)
        fun _ _ h => ⟨h.1, nofun⟩
      · have hafter := h.history.mono
          (@kindsKept_send env.md5 _ (.createFolder parent name) w₁.remote)
        rw [Remote.send_ok_drive hrf] at hafter ⊢
        have hmade := names_created hafter rfl (Remote.send_ok hrf)
        simpa using hmade
      · exact kept_pure.mpr ⟨hdb₂, fun id hid => Except.ok.inj hid ▸ hcreated created rfl⟩

/-- Binding the row at a path to a folder. -/
lemma kept_persistDir {rel : RelPath} {id : FileId} (hrel : ∀ i, D i rel)
    (hnames : Names past w.remote.drive id .dir) :
    Kept env past D source Prog.Any (persistDir rel id) w := by
  refine Kept.bind (P := fun x w' => w' = w ∧ x = .ok (w.db.items.getByRelativePath rel))
    (kept_sql (fun _ => .of_harmless rfl) fun _ => ⟨rfl, rfl⟩) (fun row w₁ ⟨hw₁, hx⟩ => ?_)
    fun _ _ _ => trivial
  subst hw₁
  obtain rfl := Except.ok.inj hx
  cases hrow : w₁.db.items.getByRelativePath rel with
  | some existing =>
    obtain ⟨hmem, hpath⟩ := ItemTable.getByRelativePath_eq_some.mp hrow
    simp only
    split
    · refine kept_sql (fun h => ⟨rfl, fun r hr hid => ?_, trivial⟩) fun _ => trivial
      obtain rfl := ItemTable.id_inj hr hmem hid
      rw [h.dirs r hr (hpath ▸ hrel r.id)]
      exact hnames
    · exact kept_pure.mpr trivial
  | none =>
    refine Kept.bind (P := Prog.Any) (kept_sqlTry (fun _ => ⟨rfl, fun rid hrid => ?_,
      fun _ _ => rfl⟩) fun _ => trivial) (fun _ _ _ => kept_pure.mpr trivial) fun _ _ _ => trivial
    exact Option.some.inj hrid ▸ hnames

/-- **Making the remote folders of a path** binds directory rows to folders. -/
lemma kept_ensureRemoteFolder {dir : RelPath} (hdirs : DirsAbove w dir) :
    Kept env past Nothing source Prog.Any (ensureRemoteFolder root dir) w := by
  suffices h : ∀ (segments : List String) (current : FileId) (cumulative : RelPath) (w : World),
      cumulative ++ segments <+: dir →
        Kept env past (Above dir) source Prog.Any (ensureSegments current cumulative segments) w
    from (h dir root [] w (by simp)).of_dirs (fun _ _ h => h.elim) hdirs
  intro segments
  induction segments with
  | nil => exact fun _ _ _ _ => kept_pure.mpr trivial
  | cons seg rest ih =>
    intro current cumulative w hpre
    have hseg : cumulative ++ [seg] <+: dir :=
      (List.prefix_append_right_inj _ |>.mpr (by simp : [seg] <+: seg :: rest)).trans hpre
    refine kept_childFolder.bind (fun next w₁ ⟨_, hnames⟩ => ?_) fun _ _ _ => trivial
    refine (kept_persistDir (fun _ => ⟨by simp, hseg⟩) (hnames next rfl)).bind (fun _ w₂ _ => ?_)
      fun _ _ _ => trivial
    exact ih _ _ w₂ (by simpa using hpre)

/-- Reading the local file of an upload. -/
lemma readFile_still (rel : RelPath) : (ioTry (.readFile rel)).Only fun _ c => still c = true :=
  ⟨rfl, fun x => Prog.only_ofExcept x⟩

/-- An upload for a file row that is bound goes to a file. -/
lemma kept_update {rid : FileId} {rel : RelPath} (hnames : Names past w.remote.drive rid .file) :
    Kept env past Nothing (some .file) Prog.Any (Engine.update rid rel) w := by
  refine ((kept_still (readFile_still rel)).evolve).bind (fun content w₁ ⟨hev, _⟩ => ?_)
    fun _ _ _ => trivial
  obtain ⟨n, rfl, -, -, hnow⟩ := hnames.mono hev.drive
  refine kept_request (fun _ => ⟨?_, trivial, trivial⟩) fun _ => trivial
  simp only [allowed, notFolder, Drive.file, Drive.resolve, Bool.and_eq_true]
  refine ⟨by decide, ?_⟩
  cases hfile : w₁.remote.drive.files.get n with
  | none => rfl
  | some f =>
    obtain ⟨hf, hnum⟩ := Data.Serial.get_eq_some.mp hfile
    simp [hnow f hf hnum]

/-- A first upload for a file row makes a file. -/
lemma kept_upload {parent : FileId} {name : String} {rel : RelPath} :
    Kept env past Nothing (some .file) (fun x w' => ∀ rf, x = .ok rf →
      Names past w'.remote.drive rf.id .file) (Engine.upload rel parent name) w := by
  refine (kept_still (readFile_still rel)).bind (fun content w₁ _ => ?_) fun _ _ _ => nofun
  refine kept_request (fun _ => ⟨by simp [allowed], trivial, trivial⟩) fun h rf hrf => ?_
  have hafter := h.history.mono (@kindsKept_send env.md5 _
    (.uploadMultipart parent name (Engine.contentTypeFor name) content) w₁.remote)
  rw [Remote.send_ok_drive hrf] at hafter ⊢
  have hmade := names_created hafter rfl (Remote.send_ok hrf)
  rwa [if_neg (Engine.contentTypeFor_ne name)] at hmade

/-- **Upload.** -/
lemma kept_executeUpload (hitem : item ∈ w.db.items)
    (hspares : w.fs.isFile item.relativePath = true → item.kind = .file ∧
      (item.remoteId = none → DirsAbove w item.relativePath.splitParent.1)) :
    Kept env past Nothing (some item.kind) Prog.Any (executeUpload env root item) w := by
  refine Kept.bind (P := fun x w' => w' = w ∧ Good past Nothing w ∧
    x = .ok (w.fs.isFile item.relativePath)) (kept_io (fun _ => .of_harmless rfl)
      fun h => ⟨rfl, h, rfl⟩) (fun isFile w₁ ⟨hw₁, hgood, hx⟩ => ?_) fun _ _ _ => trivial
  subst hw₁
  obtain rfl := Except.ok.inj hx
  split
  · next hfile =>
    obtain ⟨hkind, habove⟩ := hspares hfile
    have hrow : RowKind item.id .file w₁ := hkind ▸ rowKind_of_mem hitem
    rw [hkind]
    refine ((kept_still (computeLocal_still _)).evolve).bind
      (fun ⟨size, md5⟩ w₂ ⟨hev₂, hdb, _⟩ => ?_) fun _ _ _ => trivial
    have hprint : ∀ w, Kept env past Nothing (some .file) Prog.Any
        (sql (.updateFingerprint item.id (some size) (some md5))) w := fun w =>
      kept_harmless ⟨rfl, fun _ => trivial⟩
    simp only
    split
    · exact kept_pure.mpr trivial
    · cases hremote : item.remoteId with
      | some rid =>
        have hnames := (hgood.bound item hitem rid hremote).mono hev₂.drive
        rw [hkind] at hnames
        exact kept_withMark (Kept.bind (P := Prog.Any) (kept_update hnames)
          (fun _ w₃ _ => hprint w₃) fun _ _ _ => trivial)
      | none =>
        have habove₂ : DirsAbove w₂ item.relativePath.splitParent.1 := by
          unfold DirsAbove
          rw [hdb]
          exact habove hremote
        refine ((kept_ensureRemoteFolder habove₂).evolve).bind (fun parent w₃ ⟨hev₃, _⟩ => ?_)
          fun _ _ _ => trivial
        refine (kept_upload.evolve).bind (fun rf w₄ ⟨hev₄, hnames⟩ => ?_) fun _ _ _ => trivial
        have hrow₄ := hrow.evolve ((hev₂.trans hev₃).trans hev₄)
        refine kept_withMark (Kept.bind (P := Prog.Any) (kept_sql (fun _ => ⟨rfl,
          fun r hr hid => ?_, trivial⟩) fun _ => trivial) (fun _ w₅ _ => hprint w₅)
            fun _ _ _ => trivial)
        rw [hrow₄.2 r hr hid]
        exact hnames rf rfl
  · exact kept_pure.mpr trivial

/-- **Download.** -/
lemma kept_executeDownload {payload : Option Payload}
    (hdownload : ∀ dl, payload = some (.download dl) →
      Names past w.remote.drive dl.remoteId .file ∧ RowKind item.id .file w) :
    Kept env past Nothing source Prog.Any (executeDownload env item payload) w := by
  refine Kept.bind (P := fun x w' => w' = w ∧ x = decodePayload Payload.asDownload payload)
    (kept_ofExcept.mpr ⟨rfl, rfl⟩) (fun dl w₁ ⟨hw₁, hdl⟩ => ?_) fun _ _ _ => trivial
  subst hw₁
  have hpayload : payload = some (.download dl) := by
    cases payload with
    | none => cases hdl
    | some p =>
      cases p with
      | download dl' => rw [Except.ok.inj hdl]
      | _ => cases hdl
  obtain ⟨hnames, hrow⟩ := hdownload dl hpayload
  have hfetch : (Engine.download dl.remoteId dl.relativePath).Only
      fun _ c => harmless c = true := by
    refine Prog.Only.bind ⟨rfl, fun x => Prog.only_ofExcept x⟩ fun body => ?_
    exact Prog.Only.bind ⟨rfl, fun x => Prog.only_ofExcept x⟩ fun _ =>
      ⟨rfl, fun x => Prog.only_ofExcept x⟩
  refine ((kept_harmless (p := ioTry (.createDirAll dl.relativePath.parentDir))
    ⟨rfl, fun x => Prog.only_ofExcept x⟩).evolve).bind (fun _ w₂ ⟨hev₂, _⟩ => ?_)
    fun _ _ _ => trivial
  refine ((kept_harmless hfetch).evolve).bind (fun _ w₃ ⟨hev₃, _⟩ => ?_) fun _ _ _ => trivial
  refine ((kept_still (computeLocal_still _)).evolve).bind (fun ⟨size, md5⟩ w₄ ⟨hev₄, _⟩ => ?_)
    fun _ _ _ => trivial
  refine ((kept_harmless (p := sql (.updateFingerprint item.id (some size) (some md5)))
    ⟨rfl, fun _ => trivial⟩).evolve).bind (fun _ w₅ ⟨hev₅, _⟩ => ?_) fun _ _ _ => trivial
  have hev := ((hev₂.trans hev₃).trans hev₄).trans hev₅
  split
  · refine kept_sql (fun _ => ⟨rfl, fun r hr hid => ?_, trivial⟩) fun _ => trivial
    rw [(hrow.evolve hev).2 r hr hid]
    exact hnames.mono hev.drive
  · exact kept_pure.mpr trivial

/-- **RenameRemote.** -/
lemma kept_executeRenameRemote {payload : Option Payload}
    (hspares : item.remoteId ≠ none → ∀ p, payload = some (.rename p) →
      DirsAbove w p.newRelativePath.splitParent.1) :
    Kept env past Nothing source Prog.Any (executeRenameRemote root item payload) w := by
  refine Kept.bind (P := fun x w' => w' = w ∧ x = decodePayload Payload.asRename payload)
    (kept_ofExcept.mpr ⟨rfl, rfl⟩) (fun p w₁ ⟨hw₁, hp⟩ => ?_) fun _ _ _ => trivial
  subst hw₁
  have hpayload := asRename_ok hp.symm
  cases hremote : item.remoteId with
  | none => exact kept_harmless ⟨rfl, fun _ => trivial⟩
  | some rid =>
    refine (kept_ensureRemoteFolder (hspares (by simp [hremote]) p hpayload)).bind
      (fun parent w₂ _ => ?_) fun _ _ _ => trivial
    have hmove : (Engine.moveRemote rid parent p.newRelativePath.splitParent.2).Only
        fun _ c => harmless c = true :=
      Prog.Only.bind ⟨rfl, fun x => Prog.only_ofExcept x⟩ fun _ =>
        ⟨rfl, fun x => Prog.only_ofExcept x⟩
    refine kept_withMark ((kept_harmless hmove).bind (fun _ w₃ _ => ?_) fun _ _ _ => trivial)
    split <;> exact kept_sql (fun _ => ⟨rfl, trivial, fun _ _ _ h => h⟩) fun _ => trivial

/-- No local directory is at the path of a file row. -/
lemma mistaken_eq_false {p : RelPath} (hrow : w.db.items.getByRelativePath p = some item)
    (h : item.kind = .file → w.fs.isDir p = false) : mistaken w p = false := by
  cases hkind : item.kind with
  | file => simp [mistaken, h hkind]
  | dir => simp [mistaken, hrow, hkind]

/-- A rename that fails moves nothing. -/
lemma kept_moveLocal {old new : RelPath} (hfree : mistaken w old = false) :
    Kept env past Nothing source Prog.Any (moveLocal old new) w := by
  refine Kept.bind (P := fun x w' => ∀ e, x = .ok (.error e) → w' = w)
    (kept_io (fun _ => ⟨by simp [allowed, hfree], trivial, trivial⟩) fun _ e he => ?_)
    (fun res w₁ hres => ?_) fun _ _ _ => trivial
  · simp only [FsCall.run, FsCall.commit] at he ⊢
    cases hrename : w.fs.rename old new with
    | ok fs' =>
      rw [hrename] at he
      cases he
    | error e' => rfl
  · cases res with
    | ok u => exact kept_pure.mpr trivial
    | error e =>
      obtain rfl := hres e rfl
      simp only
      split
      · exact kept_pure.mpr trivial
      · split
        · exact kept_ioTry (fun _ => ⟨by simp [allowed, hfree], trivial, trivial⟩) fun _ => trivial
        · exact kept_fail.mpr trivial

/-- **RenameLocal.** -/
lemma kept_executeRenameLocal {payload : Option Payload} (hitem : item ∈ w.db.items)
    (hspares : item.kind = .file → w.fs.isDir item.relativePath = false ∧
      ∀ p, payload = some (.rename p) → ¬item.relativePath <+: p.newRelativePath.parentDir) :
    Kept env past Nothing source Prog.Any (executeRenameLocal item payload) w := by
  refine Kept.bind (P := fun x w' => w' = w ∧ x = decodePayload Payload.asRename payload)
    (kept_ofExcept.mpr ⟨rfl, rfl⟩) (fun p w₁ ⟨hw₁, hp⟩ => ?_) fun _ _ _ => trivial
  subst hw₁
  have hpayload := asRename_ok hp.symm
  have hrow := ItemTable.getByRelativePath_eq_some.mpr ⟨hitem, rfl⟩
  refine Kept.bind (P := fun _ w' => mistaken w' item.relativePath = false)
    (kept_ioTry (fun _ => .of_harmless rfl) fun _ => mistaken_eq_false hrow fun hkind => ?_)
    (fun _ w₂ hfree => ?_) fun _ _ _ => trivial
  · obtain ⟨hdir, hpre⟩ := hspares hkind
    simp only [FsCall.run]
    cases hmade : w₁.fs.createDirAll p.newRelativePath.parentDir with
    | error e => exact hdir
    | ok fs' =>
      cases hafter : fs'.isDir item.relativePath with
      | false => exact hafter
      | true =>
        rcases Fs.dir_of_createDirs_dir hmade (Fs.isDir_iff.mp hafter) with hbefore | hbelow
        · rw [Fs.isDir_iff.mpr hbefore] at hdir
          cases hdir
        · exact absurd hbelow (hpre p hpayload)
  · refine (kept_moveLocal hfree).bind (fun _ w₃ _ => ?_) fun _ _ _ => trivial
    exact kept_sql (fun _ => ⟨rfl, trivial, fun _ _ _ h => h⟩) fun _ => trivial

lemma withMark_settled {α : Type} {id : FileId} {body : Task α}
    (h : body.Only fun _ c => settled c = true) :
    (withMark id body).Only fun _ c => settled c = true :=
  Prog.Only.bind ⟨rfl, fun _ => trivial⟩ fun _ => Prog.Only.bind h.attempt fun x =>
    Prog.Only.bind ⟨rfl, fun _ => trivial⟩ fun _ => Prog.only_ofExcept x

lemma executeDeleteRemote_settled :
    (executeDeleteRemote env item).Only fun _ c => settled c = true := by
  have hrequest : ∀ {α : Type} (c : DriveCall α), settled (.drive c) = true →
      (request c).Only fun _ c => settled c = true := fun c hc =>
    ⟨hc, fun x => Prog.only_ofExcept x⟩
  unfold executeDeleteRemote
  split
  · refine withMark_settled (Prog.Only.bind (Prog.Only.attempt ?_) fun res => ?_)
    · unfold Engine.deleteRemote
      split <;> exact hrequest _ rfl
    · cases res with
      | ok u => exact ⟨rfl, fun _ => trivial⟩
      | error e =>
        simp only
        split
        · refine Prog.Only.bind (Prog.Only.attempt ?_) fun res => ?_
          · refine Prog.Only.bind (hrequest _ rfl) fun v => ?_
            split
            · trivial
            · exact hrequest _ rfl
          · cases res <;> exact ⟨rfl, fun _ => trivial⟩
        · trivial
  · exact ⟨rfl, fun _ => trivial⟩

lemma executeDeleteLocal_settled {payload : Option Payload} :
    (executeDeleteLocal item payload).Only fun _ c => settled c = true := by
  have hremove : (removeLocal item).Only fun _ c => settled c = true := by
    unfold removeLocal
    split <;>
    · refine Prog.Only.bind ⟨rfl, fun _ => trivial⟩ fun res => ?_
      cases res with
      | ok u => trivial
      | error e =>
        simp only
        split <;> trivial
  refine hremove.bind fun _ => (Prog.only_ofExcept _).bind fun p => ?_
  unfold forgetLocal
  split
  · exact Prog.Only.bind ⟨rfl, fun _ => trivial⟩ fun _ => ⟨rfl, fun _ => trivial⟩
  · exact ⟨rfl, fun _ => trivial⟩

/-- **An operation** that finds nothing of the other kind. -/
lemma kept_executeItem {op : PendingOperation} (hgood : Good past Nothing w) (hop : op ∈ w.db.ops)
    (hitem : item ∈ w.db.items) (hid : item.id = op.syncItemId) (hspares : Spares w op item) :
    Kept env past Nothing (some item.kind) Prog.Any (executeItem env root op item) w := by
  unfold executeItem
  simp only [Spares] at hspares
  split <;> rename_i hkind <;> simp only [hkind] at hspares
  · exact kept_executeUpload hitem hspares
  · exact kept_executeDownload fun dl hdl => hid ▸ hgood.downloads op hop hkind dl hdl
  · exact kept_harmless (only_harmless executeDeleteRemote_settled)
  · exact kept_harmless (only_harmless executeDeleteLocal_settled)
  · exact (kept_ensureRemoteFolder hspares).bind (fun _ _ _ => kept_pure.mpr trivial)
      fun _ _ _ => trivial
  · exact kept_harmless (Prog.Only.bind ⟨rfl, fun x => Prog.only_ofExcept x⟩ fun _ =>
      ⟨rfl, fun _ => trivial⟩)
  · exact kept_harmless ((Prog.only_ofExcept _).bind fun p => Prog.Only.bind
      ⟨rfl, fun x => Prog.only_ofExcept x⟩ fun _ => ⟨rfl, fun x => Prog.only_ofExcept x⟩)
  · exact kept_executeRenameRemote hspares
  · exact kept_executeRenameLocal hitem hspares
  · exact kept_pure.mpr trivial

/-- The calls that keep the books of the drain loop. -/
def booking : {β : Type} → Call β → Bool
  | _, .db (.deleteOp _) => true
  | _, .db (.markAttempt _ _) => true
  | _, .db (.recordSyncCycle _ _ _) => true
  | _, .db .clearIfTransient => true
  | _, .db (.setBlocked _) => true
  | _, .clock => true
  | _, .random _ => true
  | _, _ => false

lemma settled_of_booking {β : Type} {c : Call β} (hc : booking c = true) : settled c = true := by
  cases c with
  | db c => cases c <;> first | rfl | cases hc
  | clock => rfl
  | random n => rfl
  | _ => cases hc

lemma completed_booking (op : PendingOperation) :
    (completed op).Only fun _ c => booking c = true := by
  have hrest : (do let _ ← sql .clearIfTransient; sql (.deleteOp op.id) : Task Unit).Only
      fun _ c => booking c = true :=
    Prog.Only.bind ⟨rfl, fun _ => trivial⟩ fun _ => ⟨rfl, fun _ => trivial⟩
  unfold completed
  split
  · exact Prog.Only.bind ⟨rfl, fun _ => trivial⟩ fun _ =>
      Prog.Only.bind ⟨rfl, fun _ => trivial⟩ fun _ => hrest
  · exact hrest

lemma failed_booking (op : PendingOperation) (e : Error) :
    (failed op e).Only fun _ c => booking c = true := by
  unfold failed
  split
  · exact Prog.Only.bind ⟨rfl, fun _ => trivial⟩ fun _ => Prog.Only.bind ⟨rfl, fun _ => trivial⟩
      fun _ => Prog.Only.bind ⟨rfl, fun _ => trivial⟩ fun _ => trivial
  · refine Prog.Only.bind (Prog.Only.bind ⟨rfl, fun _ => trivial⟩ fun _ => trivial) fun _ => ?_
    exact Prog.Only.bind ⟨rfl, fun _ => trivial⟩ fun _ => Prog.Only.bind ⟨rfl, fun _ => trivial⟩
      fun _ => trivial

lemma completed_settled (op : PendingOperation) :
    (completed op).Only fun _ c => settled c = true :=
  (completed_booking op).mono fun _ _ => settled_of_booking

lemma failed_settled (op : PendingOperation) (e : Error) :
    (failed op e).Only fun _ c => settled c = true :=
  (failed_booking op e).mono fun _ _ => settled_of_booking

/-- **The drain loop**, when the operation that is executed finds nothing of the other kind. -/
lemma kept_drainOne (hspares : ∀ op item, Executes w op item → Spares w op item) :
    Kept env past Nothing (KindSafety.source w (.drain root)) Prog.Any (drainOne env root) w := by
  refine Kept.bind (P := fun x w' => w' = w ∧ x = .ok w.now) (kept_call (fun _ => .of_harmless rfl)
    fun _ => kept_pure.mpr ⟨rfl, rfl⟩) (fun now w₁ ⟨hw₁, hx⟩ => ?_) fun _ _ _ => trivial
  subst hw₁
  obtain rfl := Except.ok.inj hx
  refine Kept.bind (P := fun x w' => w' = w₁ ∧ x = .ok (OpTable.nextDue w₁.db.ops w₁.now))
    (kept_sql (fun _ => .of_harmless rfl) fun _ => ⟨rfl, rfl⟩) (fun next w₂ ⟨hw₂, hx⟩ => ?_)
    fun _ _ _ => trivial
  subst hw₂
  obtain rfl := Except.ok.inj hx
  cases hnext : OpTable.nextDue w₂.db.ops w₂.now with
  | none => exact kept_pure.mpr trivial
  | some op =>
    simp only
    split
    · exact Kept.bind (P := Prog.Any) (kept_harmless ⟨rfl, fun _ => trivial⟩)
        (fun _ _ _ => kept_pure.mpr trivial) fun _ _ _ => trivial
    · next hleft =>
      refine Kept.bind (P := Prog.Any) (kept_attempt ?_) (fun res w₃ _ => ?_) fun _ _ _ => trivial
      · refine Kept.bind (P := fun x w' => w' = w₂ ∧ Good past Nothing w₂ ∧
          x = .ok (w₂.db.items.getById op.syncItemId)) (kept_sql (fun _ => .of_harmless rfl)
            fun h => ⟨rfl, h, rfl⟩) (fun row w₃ ⟨hw₃, hgood, hx⟩ => ?_) fun _ _ _ => trivial
        subst hw₃
        obtain rfl := Except.ok.inj hx
        cases hrow : w₃.db.items.getById op.syncItemId with
        | none => exact kept_fail.mpr trivial
        | some item =>
          obtain ⟨hmem, hid⟩ := ItemTable.getById_eq_some.mp hrow
          have hop : op ∈ w₃.db.ops := (OpTable.nextDue_mem hnext).1
          have hsource : KindSafety.source w₃ (.drain root) = some item.kind := by
            simp [KindSafety.source, hnext, hrow]
          rw [hsource]
          exact (kept_executeItem hgood hop hmem hid
            (hspares op item ⟨hnext, not_le.mp hleft, hrow⟩)).mono fun _ _ _ => trivial
      · cases res with
        | ok u => exact kept_harmless (only_harmless ((completed_settled op).bind fun _ => trivial))
        | error e => exact kept_harmless (only_harmless (failed_settled op e))

/-- An invariant that the books do not touch holds along an iteration of the drain loop, if it does
along the operation that is executed. -/
lemma safe_drainOne {I : World → Prop}
    (hkeeps : ∀ β (c : Call β) w, booking c = true → I w → I (handle env β c w).2)
    (hexecute : ∀ op item, Executes w op item → I w →
      (executeItem env root op item).Safe (handle env) (.solo I) Prog.Any w) :
    (drainOne env root).Safe (handle env) (.solo I) Prog.Any w := by
  have hbook : ∀ {α : Type} {q : Task α}, (q.Only fun _ c => booking c = true) → ∀ w',
      q.Safe (handle env) (.solo I) Prog.Any w' := fun hq w' =>
    hq.safe (fun β c w'' hc hI _ => ⟨hkeeps β c w'' hc hI, trivial⟩) trivial
  simp only [drainOne, unixNow, sql, Prog.lift, Prog.bind_eq, Prog.call_bind, Prog.pure_bind]
  refine (Prog.safe_call_solo _ _).mpr fun hI => ⟨hI, ?_⟩
  refine (Prog.safe_call_solo _ _).mpr fun _ => ⟨hI, ?_⟩
  simp only [handle_clock, handle_db, DbCall.run]
  cases hnext : OpTable.nextDue w.db.ops w.now with
  | none => trivial
  | some op =>
    simp only
    split
    · exact hbook (q := Prog.call (.db (.markAttempt op.id parkedForever)) fun _ => .pure true)
        ⟨rfl, fun _ => trivial⟩ w
    · next hleft =>
      refine Prog.Safe.bind (P := Prog.Any) (Prog.safe_attempt.mpr ?_) (fun res w' _ => ?_)
        fun _ _ _ => trivial
      · refine (Prog.safe_call_solo _ _).mpr fun _ => ⟨hI, ?_⟩
        simp only [handle_db, DbCall.run]
        cases hrow : w.db.items.getById op.syncItemId with
        | none => trivial
        | some item => exact hexecute op item ⟨hnext, not_le.mp hleft, hrow⟩ hI
      · cases res with
        | ok u => exact hbook ((completed_booking op).bind (f := fun _ => .pure true)
            fun _ => trivial) w'
        | error e => exact hbook (failed_booking op e) w'

end Drain

end AirDrive.KindSafety
