import AirDrive.System.Fingerprints

set_option relaxedAutoImplicit false
set_option autoImplicit false

/-!
# Where a download lands

A download is queued with the path that it is to write to, while the renames that are executed
before it move the row. So it lands where the row is exactly when the row is at that path at the
time of its execution.

## Main definitions

* `AirDrive.Landing.Lands` — the file is written where the row is, and nowhere else.
* `AirDrive.Landing.LeavesInPlace` — a step that does not move the row.

## Main results

* `AirDrive.Landing.lands_iff` — one execution, in any state.
* `AirDrive.Landing.download_lands` — and in the runs that lead to it.
-/

namespace AirDrive.Landing

open Effect Dispatcher Fingerprints

/-- The paths of the files that a call writes. -/
def wrote : ∀ β, Call β → World → List RelPath
  | _, .fs (.writeFile p _), _ => [p]
  | _, _, _ => []

/-- Running a task to its end, with the paths of the files that it writes. -/
def RunsTo (env : Env) (p : Task Unit) (w : World) (x : Except Error Unit) (w' : World)
    (paths : List RelPath) : Prop :=
  p.run (Prog.noting (handle env) wrote) (w, []) = (x, w', paths)

/-- The bytes of the object have been written at the path at which the row is, and nowhere else;
the row has their fingerprint, and no file has appeared elsewhere. -/
structure LandsAt (env : Env) (r : SyncItem) (b : Bytes) (w w' : World) (paths : List RelPath) :
    Prop where
  written : paths = [r.relativePath]
  there : w'.fs.node r.relativePath = some (.file b)
  size : r.size = some b.length
  md5 : r.md5 = some (env.md5 b)
  elsewhere : ∀ q b', q ≠ r.relativePath → w'.fs.node q = some (.file b') →
    w.fs.node q = some (.file b')

/-- The download of an object for the row of an item has landed where the row is. -/
def Lands (env : Env) (n : ItemId) (rid : FileId) (w w' : World) (paths : List RelPath) : Prop :=
  ∃ r ∈ w'.db.items, r.id = n ∧ ∃ b, Holds rid b w' ∧ LandsAt env r b w w' paths

/-! ## One execution -/

variable {env : Env} {w w' : World} {l paths : List RelPath} {root : FileId}
  {op : PendingOperation} {item : SyncItem} {dl : DownloadPayload}

/-- The program ends as told, with the paths that it writes. -/
abbrev Writes {α : Type} (env : Env) (Q : Except Error α → World × List RelPath → Prop)
    (p : Task α) (s : World × List RelPath) : Prop :=
  p.Safe (Prog.noting (handle env) wrote) (.solo fun _ => True) Q s

lemma writes_call {α β : Type} {Q : Except Error α → World × List RelPath → Prop} {c : Call β}
    {k : β → Task α} : Writes env Q (.call c k) (w, l) ↔
      Writes env Q (k (handle env β c w).1) ((handle env β c w).2, l ++ wrote β c w) := by
  rw [Writes, Prog.safe_call_solo]
  simp [Prog.noting]

lemma writes_sql {β : Type} {Q : Except Error β → World × List RelPath → Prop} {c : DbCall β} :
    Writes env Q (sql c) (w, l) ↔ Q (.ok (c.run w.db).1) ({ w with db := (c.run w.db).2 }, l) := by
  rw [sql, Prog.lift, writes_call]
  simp [wrote]

lemma writes_ioTry {β : Type} {Q : Except Error β → World × List RelPath → Prop}
    {c : FsCall (Except Error β)} : Writes env Q (ioTry c) (w, l) ↔
      Q (c.run w.fs).1 ({ w with fs := (c.run w.fs).2 }, l ++ wrote _ (.fs c) w) := by
  rw [ioTry, writes_call, Writes, Prog.safe_ofExcept]
  rfl

lemma writes_request {β : Type} {Q : Except Error β → World × List RelPath → Prop}
    {c : DriveCall β} : Writes env Q (request c) (w, l) ↔
      Q (w.remote.send env.md5 c).1 ({ w with remote := (w.remote.send env.md5 c).2 }, l) := by
  rw [request, writes_call, Writes, Prog.safe_ofExcept]
  simp [wrote]

/-- What a download leaves that succeeds. -/
structure Left (env : Env) (item : SyncItem) (dl : DownloadPayload) (b : Bytes) (w : World)
    (s : World × List RelPath) : Prop where
  paths : s.2 = [dl.relativePath]
  holds : Holds dl.remoteId b s.1
  there : s.1.fs.node dl.relativePath = some (.file b)
  elsewhere : ∀ q b', q ≠ dl.relativePath → s.1.fs.node q = some (.file b') →
    w.fs.node q = some (.file b')
  row : ∃ r ∈ s.1.db.items, r.id = item.id ∧ r.relativePath = item.relativePath ∧
    r.size = some b.length ∧ r.md5 = some (env.md5 b)

/-- The fetch and the promotion of a file. -/
lemma writes_download {rid : FileId} {rel : RelPath} :
    Writes env (fun x s => x = .ok () → ∃ b, s.2 = l ++ [rel] ∧ s.1.db = w.db ∧ Holds rid b s.1 ∧
        s.1.fs.node rel = some (.file b) ∧ ∀ q b', q ≠ rel → s.1.fs.node q = some (.file b') →
          w.fs.node q = some (.file b'))
      (Engine.download rid rel) (w, l) := by
  simp only [Engine.download, Prog.bind_eq]
  rw [Writes, Prog.safe_bind, ← Writes, writes_request]
  cases hget : (w.remote.send env.md5 (.getMedia rid)).1 with
  | error e => exact fun h => by cases h
  | ok b =>
    obtain ⟨g, hg, hcontent⟩ := holds_getMedia hget
    simp only
    rw [Prog.safe_bind, ← Writes, writes_ioTry]
    cases hmade : w.fs.createDirAll rel.parentDir with
    | error e =>
      simp only [FsCall.run, hmade, FsCall.commit]
      exact fun h => by cases h
    | ok fs₁ =>
      simp only [FsCall.run, hmade, FsCall.commit]
      rw [← Writes, writes_ioTry]
      cases hwrite : fs₁.writeFile rel b with
      | error e =>
        simp only [FsCall.run, hwrite, FsCall.commit]
        exact fun h => by cases h
      | ok fs₂ =>
        simp only [FsCall.run, hwrite, FsCall.commit]
        refine fun _ => ⟨b, by simp [wrote], trivial, ?_, Fs.node_writeFile_self hwrite,
          fun q b' hq hb' => ?_⟩
        · unfold Holds
          rw [Remote.send_getMedia_drive]
          exact ⟨g, hg, hcontent⟩
        · rw [Fs.node_writeFile_ne hwrite hq] at hb'
          exact (Fs.file_createDirAll_iff hmade).mp hb'

/-- **A download that succeeds** has written the bytes of the object at the path of its payload. -/
lemma writes_executeDownload (hitem : item ∈ w.db.items) :
    Writes env (fun x s => x = .ok () → ∃ b, Left env item dl b w s)
      (executeDownload env item (some (.download dl))) (w, []) := by
  simp only [executeDownload, decodePayload, Payload.asDownload, Prog.bind_eq, Prog.ofExcept_ok,
    Prog.pure_bind]
  rw [Writes, Prog.safe_bind, ← Writes, writes_ioTry]
  cases hmade : w.fs.createDirAll dl.relativePath.parentDir with
  | error e =>
    simp only [FsCall.run, hmade, FsCall.commit]
    exact fun h => by cases h
  | ok fs₁ =>
    simp only [FsCall.run, hmade, FsCall.commit]
    refine Prog.Safe.bind writes_download (fun _ s hs => ?_) fun e s _ => fun h => by cases h
    obtain ⟨w₁, l₁⟩ := s
    obtain ⟨b, hpaths, hdb, hholds, hthere, helse⟩ := hs rfl
    simp only at hpaths hdb hholds hthere helse
    have hread : w₁.fs.readFile dl.relativePath = .ok b := by rw [Fs.readFile, hthere]
    simp only [computeLocal, Prog.bind_eq, Prog.pure_eq]
    rw [Prog.safe_bind, Prog.safe_bind, ← Writes, writes_ioTry]
    simp only [FsCall.run, hread]
    rw [Prog.safe_pure]
    simp only
    rw [Prog.safe_bind, ← Writes, writes_sql]
    have hrow := @mem_updateFingerprint item.id item (some b.length) (some (env.md5 b)) w₁.db
      (hdb ▸ hitem) rfl
    have hpath : l₁ ++ wrote _ (.fs (.readFile dl.relativePath)) w₁ = [dl.relativePath] := by
      simp [hpaths, wrote]
    have helsewhere : ∀ q b', q ≠ dl.relativePath → w₁.fs.node q = some (.file b') →
        w.fs.node q = some (.file b') :=
      fun q b' hq hb' => (Fs.file_createDirAll_iff hmade).mp (helse q b' hq hb')
    by_cases hbound : item.remoteId ≠ some dl.remoteId
    · simp only
      rw [if_pos hbound, ← Writes, writes_sql]
      exact fun _ => ⟨b, hpath, hholds, hthere, helsewhere,
        _, mem_setRemoteId hrow rfl, rfl, rfl, rfl, rfl⟩
    · simp only
      rw [if_neg hbound]
      exact fun _ => ⟨b, hpath, hholds, hthere, helsewhere, _, hrow, rfl, rfl, rfl, rfl⟩

/-- **A download lands where the row is** if and only if the row is where the payload says. -/
lemma lands_iff (hop : op.op = .download) (hpayload : op.payload = some (.download dl))
    (hitem : item ∈ w.db.items) (hid : op.syncItemId = item.id)
    (hrun : RunsTo env (execute env root op) w (.ok ()) w' paths) :
    Lands env item.id dl.remoteId w w' paths ↔ item.relativePath = dl.relativePath := by
  have hget : w.db.items.getById op.syncItemId = some item :=
    ItemTable.getById_eq_some.mpr ⟨hitem, hid.symm⟩
  have hwrites : Writes env (fun x s => x = .ok () → ∃ b, Left env item dl b w s)
      (execute env root op) (w, []) := by
    unfold execute
    rw [Prog.bind_eq, Writes, Prog.safe_bind, ← Writes, writes_sql]
    simp only [DbCall.run, hget, executeItem, hop, hpayload]
    exact writes_executeDownload hitem
  have hend := (Prog.Safe.run hwrites trivial).2
  rw [hrun] at hend
  obtain ⟨b, hpaths, hholds, hthere, helse, r, hr, hrid, hpath, hsize, hmd5⟩ := hend rfl
  simp only at hpaths hholds hthere helse hr
  constructor
  · rintro ⟨r', hr', hid', b', -, hlands⟩
    obtain rfl := w'.db.items.id_inj hr hr' (hrid.trans hid'.symm)
    have hsame := hpaths.symm.trans hlands.written
    rw [List.cons.injEq] at hsame
    exact hpath.symm.trans hsame.1.symm
  · intro heq
    have hplace : r.relativePath = dl.relativePath := hpath.trans heq
    refine ⟨r, hr, hrid, b, hholds, ?_, ?_, hsize, hmd5, ?_⟩
    · rw [hplace, hpaths]
    · rw [hplace]
      exact hthere
    · rw [hplace]
      exact helse

/-! ## The runs that lead to it -/

/-- The step does not move the row of an item: where it is after the step it was before. -/
def LeavesInPlace (env : Env) (n : ItemId) (w : World) (a : Action) : Prop :=
  ∀ r' ∈ (a.perform env w).db.items, r'.id = n →
    ∃ r ∈ w.db.items, r.id = n ∧ r.relativePath = r'.relativePath

/-- A run of such steps leaves the row where it was. -/
lemma path_of_runs {n : ItemId} {p : RelPath} {w₀ : World}
    (hruns : Runs env (LeavesInPlace env n) w₀ w)
    (h₀ : ∀ r ∈ w₀.db.items, r.id = n → r.relativePath = p) :
    ∀ r ∈ w.db.items, r.id = n → r.relativePath = p := by
  induction hruns with
  | start => exact h₀
  | step run meets ih =>
    intro r' hr' hid'
    obtain ⟨r, hr, hid, hpath⟩ := meets r' hr' hid'
    exact hpath ▸ ih r hr hid

/-- An operation that succeeds has found its item. -/
lemma item_of_run (hrun : RunsTo env (execute env root op) w (.ok ()) w' paths) :
    ∃ item ∈ w.db.items, op.syncItemId = item.id := by
  cases hget : w.db.items.getById op.syncItemId with
  | some item =>
    obtain ⟨hitem, hid⟩ := ItemTable.getById_eq_some.mp hget
    exact ⟨item, hitem, hid.symm⟩
  | none =>
    simp [RunsTo, execute, sql, Prog.lift, Prog.noting, DbCall.run, hget] at hrun

/-- **Downloads land where the rows are, unless a rename comes first.** An execution that succeeds,
in any state, has written the file where the row is, and nowhere else, if and only if the row is at
the path of the payload; so it is when it was there as the operation was queued, and no step in
between has moved it. -/
theorem download_lands (env : Env) (root : FileId) (op : PendingOperation) (dl : DownloadPayload)
    (hop : op.op = .download) (hpayload : op.payload = some (.download dl)) (w w' : World)
    (paths : List RelPath) (hrun : RunsTo env (execute env root op) w (.ok ()) w' paths) :
    (∀ item ∈ w.db.items, op.syncItemId = item.id →
      (Lands env item.id dl.remoteId w w' paths ↔ item.relativePath = dl.relativePath)) ∧
    ∀ w₀, Runs env (LeavesInPlace env op.syncItemId) w₀ w →
      (∀ r ∈ w₀.db.items, r.id = op.syncItemId → r.relativePath = dl.relativePath) →
      Lands env op.syncItemId dl.remoteId w w' paths := by
  have hiff : ∀ item ∈ w.db.items, op.syncItemId = item.id →
      (Lands env item.id dl.remoteId w w' paths ↔ item.relativePath = dl.relativePath) :=
    fun item hitem hid => lands_iff hop hpayload hitem hid hrun
  refine ⟨hiff, fun w₀ hruns h₀ => ?_⟩
  obtain ⟨item, hitem, hid⟩ := item_of_run hrun
  rw [hid] at hruns h₀ ⊢
  exact (hiff item hitem hid).mpr (path_of_runs hruns h₀ item hitem rfl)

/-! ## A download that is tried again -/

/-- Another client has changed `a.txt`, whose download is queued. -/
def queued : World :=
  performAll .plain
    [.outside { sampleSynced with
        remote := ⟨(DriveCall.run Env.plain.md5 (.patchMedia (.id 3) [66, 66])
          sampleSynced.remote.drive).2, [some (.failed (.network "offline"))]⟩ },
      .job (.batch ⟨[sampleChange [66, 66]], 2⟩) 100] sampleSynced

/-- The first attempt. -/
def firstAttempt : Action := .job (.drain (.id 2)) 100

/-- Another client renames `a.txt`, the change arrives, and the rename is executed. -/
def renamed : List Action :=
  [.outside { queued with
      remote := ⟨(DriveCall.run Env.plain.md5 (.patchFile (.id 3) "b.txt" none)
        queued.remote.drive).2, []⟩ },
    .job (.batch ⟨[⟨.id 3, false,
      some ⟨.id 3, "b.txt", "text/plain", some 2, some (Env.plain.md5 [66, 66]), [.id 2], false⟩,
      some ["b.txt"]⟩], 3⟩) 100, .job (.drain (.id 2)) 100]

/-- The download, after an attempt that failed. -/
def sampleDownload : PendingOperation :=
  ⟨2, 1, .download, some (.download ⟨.id 3, 2, "BB", ["a.txt"]⟩), 1, 1⟩

example : sampleDownload ∈ (performAll .plain (firstAttempt :: renamed) queued).db.ops.rows := by
  decide +kernel

/-- The second attempt. -/
def secondAttempt (w : World) : Except Error Unit × World × List RelPath :=
  (execute .plain (.id 2) sampleDownload).run (Prog.noting (handle .plain) wrote) (w, [])

/-- The second attempt writes where the first one would have. -/
theorem second_attempt_lands :
    Lands .plain 1 (.id 3) (performAll .plain [firstAttempt] queued)
      (secondAttempt (performAll .plain [firstAttempt] queued)).2.1
      (secondAttempt (performAll .plain [firstAttempt] queued)).2.2 := by
  set w := performAll .plain [firstAttempt] queued with hw
  have hrow : ∀ r ∈ queued.db.items, r.id = 1 → r.relativePath = ["a.txt"] := fun r hr =>
    (by decide +kernel : ∀ r ∈ queued.db.items.rows, r.id = 1 → r.relativePath = ["a.txt"]) r
      (ItemTable.mem_rows.mpr hr)
  have hafter : ∀ r ∈ w.db.items.rows, r.id = 1 → r.relativePath = ["a.txt"] := by decide +kernel
  have hbefore : ∃ r ∈ queued.db.items.rows, r.id = 1 := by decide +kernel
  have hstays : LeavesInPlace .plain 1 queued firstAttempt := by
    intro r' hr' hid'
    obtain ⟨r, hr, hid⟩ := hbefore
    have hr := ItemTable.mem_rows.mp hr
    exact ⟨r, hr, hid, (hrow r hr hid).trans (hafter r' (ItemTable.mem_rows.mpr hr') hid').symm⟩
  have hruns : Runs .plain (LeavesInPlace .plain 1) queued w :=
    @Runs.performAll _ _ _ _ [firstAttempt] .start ⟨hstays, trivial⟩
  have hrun : RunsTo .plain (execute .plain (.id 2) sampleDownload) w (.ok ())
      (secondAttempt w).2.1 (secondAttempt w).2.2 := Prod.ext rfl rfl
  exact (download_lands .plain (.id 2) sampleDownload ⟨.id 3, 2, "BB", ["a.txt"]⟩ rfl rfl w _ _
    hrun).2 queued hruns hrow

/-- After a rename, the second attempt brings the file back at the old path. -/
theorem renamed_download_strays : ¬∀ (env : Env) (root : FileId) (op : PendingOperation)
    (dl : DownloadPayload) (d : Drive) (w w' : World) (paths : List RelPath), op.op = .download →
    op.payload = some (.download dl) → Runs env (fun _ _ => True) (World.fresh d) w →
    op ∈ w.db.ops → RunsTo env (execute env root op) w (.ok ()) w' paths →
      Lands env op.syncItemId dl.remoteId w w' paths := by
  intro h
  set w := performAll .plain (firstAttempt :: renamed) queued with hw
  have hsynced : Runs .plain (fun _ _ => True) (World.fresh (sampleDrive [65])) sampleSynced :=
    Runs.performAll .start ⟨trivial, trivial, trivial⟩
  have hqueued : Runs .plain (fun _ _ => True) (World.fresh (sampleDrive [65])) queued :=
    hsynced.performAll ⟨trivial, trivial, trivial⟩
  have hruns : Runs .plain (fun _ _ => True) (World.fresh (sampleDrive [65])) w :=
    hqueued.performAll ⟨trivial, trivial, trivial, trivial, trivial⟩
  obtain ⟨r, hr, hid, b, -, hlands⟩ := h .plain (.id 2) sampleDownload _ (sampleDrive [65]) w
    (secondAttempt w).2.1 (secondAttempt w).2.2 rfl rfl hruns
    (by decide +kernel : sampleDownload ∈ w.db.ops.rows) (Prod.ext rfl rfl)
  have hmoved : ∀ r ∈ (secondAttempt w).2.1.db.items.rows, r.relativePath = ["b.txt"] := by
    decide +kernel
  have hpaths : (secondAttempt w).2.2 = [["a.txt"]] := by decide +kernel
  have hwritten := hlands.written
  rw [hmoved r hr, hpaths] at hwritten
  exact absurd hwritten (by decide)

end AirDrive.Landing
