import AirDrive.Drive.Place
import AirDrive.Drive.Rclone
import AirDrive.System.Run

set_option relaxedAutoImplicit false
set_option autoImplicit false

/-!
# Where the engines agree

The HTTP engine goes by ids and the rclone engine by names, so that they agree where the names lead
to the right object. A first upload must find no file of its name in the folder, which the binary
would overwrite; a file that is known by its id must be the only one of its name in its first
parent, for the binary would take another one for it, or make a new one.

## Main definitions

* `AirDrive.LeadsTo` — every name on a way is that of one folder only.
* `AirDrive.Unambiguous` — the names lead to the right object.

## Main results

* `AirDrive.substitutes_iff` — the engines agree exactly when the names lead to the right object.
-/

namespace AirDrive

open Effect

/-! ## Where the names lead -/

/-- Every name on the way is that of one folder only, and the way ends at the folder `m`. -/
def LeadsTo (d : Drive) : ℕ → RelPath → ℕ → Prop
  | n, [], m => n = m
  | n, x :: rest, m => ∃ g, Rclone.subfolders d n x = [g] ∧ LeadsTo d g.num rest m

/-- The names lead to the right object. A first upload finds no file of the name; a file that is
known by its id is the only one of its name in its first parent. -/
def Unambiguous (w : World) : EngineCall → Prop
  | .upload rel parent name => w.fs.isFile rel = true →
    Rclone.namesakes w.remote.drive (w.remote.drive.resolve parent) name = []
  | .update rid rel => w.fs.isFile rel = true → ∀ f, w.remote.drive.file rid = some f →
    ∃ p, f.parents.head? = some p ∧ Rclone.namesakes w.remote.drive p f.name = [f]
  | .download rid _ => ∀ f, w.remote.drive.file rid = some f →
    if f.content.isSome then
      ∃ p, f.parents.head? = some p ∧ Rclone.namesakes w.remote.drive p f.name = [f]
    else ∀ p, f.parents.head? = some p → Rclone.namesakes w.remote.drive p f.name = []
  | .bulkDownload items root => ∀ i ∈ items, ∃ f p, w.remote.drive.file i.remoteId = some f ∧
    LeadsTo w.remote.drive (w.remote.drive.resolve root) i.relPath.splitParent.1 p ∧
    Rclone.namesakes w.remote.drive p i.relPath.splitParent.2 = [f]
  | .bulkUpload items root =>
    (items.map fun i => (w.remote.drive.resolve i.remoteParentId, i.name)).Nodup ∧
    ∀ i ∈ items, i.relPath.splitParent.2 = i.name ∧
      LeadsTo w.remote.drive (w.remote.drive.resolve root) i.relPath.splitParent.1
        (w.remote.drive.resolve i.remoteParentId) ∧
      Rclone.namesakes w.remote.drive (w.remote.drive.resolve i.remoteParentId) i.name = []
  | _ => True

/-- The picker that takes an object where it can. -/
def Picker.preferring (g : DriveFile) : Picker where
  pick l := if g ∈ l then some g else l.head?
  mem := by
    intro l f hf
    split_ifs at hf with hg
    · exact Option.some.inj hf ▸ hg
    · exact List.mem_of_mem_head? hf
  takes := by
    intro l hl
    split_ifs
    · simp
    · simpa [List.head?_eq_none_iff] using hl

namespace Rclone

/-- The binary that takes an object where it can. -/
def preferring (g : DriveFile) : Rclone := ⟨.preferring g, .preferring g⟩

variable {d d' : Drive} {n num : ℕ} {name : String} {f g : DriveFile} {b : Bytes} {picker : Picker}

lemma mem_namesakes : f ∈ namesakes d n name ↔ f ∈ d.files ∧ n ∈ f.parents ∧ f.trashed = false ∧
    f.name = name ∧ f.content.isSome := by
  simp [namesakes, Drive.children, Data.Serial.mem_def]
  tauto

/-- Where all objects are one, it is taken. -/
lemma pick_of_forall (picker : Picker) {l : List DriveFile} (hmem : f ∈ l) (h : ∀ g ∈ l, g.num = num) :
    ∃ g, picker.pick l = some g ∧ g ∈ l ∧ g.num = num := by
  obtain ⟨g, hg⟩ := Option.ne_none_iff_exists'.mp (picker.takes l (List.ne_nil_of_mem hmem))
  exact ⟨g, hg, picker.mem l g hg, h g (picker.mem l g hg)⟩

lemma pick_singleton : picker.pick [f] = some f := by
  obtain ⟨g, hg⟩ := Option.ne_none_iff_exists'.mp (picker.takes [f] (by simp))
  rw [hg, List.mem_singleton.mp (picker.mem _ g hg)]

@[simp] lemma pick_nil : picker.pick [] = none := by
  by_contra hne
  obtain ⟨g, hg⟩ := Option.ne_none_iff_exists'.mp hne
  exact absurd (picker.mem _ g hg) (by simp)

lemma preferring_pick {l : List DriveFile} (h : g ∈ l) :
    (preferring g).transfer.pick l = some g := if_pos h

/-- An object that everything of a name is, is the only one of its name. -/
lemma namesakes_eq_singleton (hne : namesakes d n name ≠ []) (h : ∀ g ∈ namesakes d n name, g = f) :
    namesakes d n name = [f] := by
  have hnodup : (namesakes d n name).Nodup :=
    ((List.Nodup.of_map _ d.files.table.nodup).filter _).filter _
  generalize namesakes d n name = l at hne h hnodup
  cases l with
  | nil => exact absurd rfl hne
  | cons g l =>
    obtain rfl := h g (.head _)
    cases l with
    | nil => rfl
    | cons x l =>
      obtain rfl := h x (.tail _ (.head _))
      simp at hnodup

/-- The namesakes after one object has got other bytes. -/
lemma mem_namesakes_change (h : g ∈ namesakes
    (d.change num (fun x => { x with content := some b }) fun _ => rfl) n name) :
    g.num = num ∨ g ∈ namesakes d n name := by
  obtain ⟨hg, hrest⟩ := mem_namesakes.mp h
  rcases Drive.mem_change.mp hg with ⟨hold, -⟩ | ⟨s, -, hnum, rfl⟩
  · exact .inr (mem_namesakes.mpr ⟨hold, hrest⟩)
  · exact .inl hnum

end Rclone

/-! ## What the engines do -/

section Outcomes

variable {env : Env} {w : World} {rc : Rclone} {rel : RelPath} {parent rid : FileId}
  {name : String} {b : Bytes}

/-- The world with another state of Drive behind a connection without faults. -/
def World.withDrive (w : World) (d : Drive) : World := { w with remote := ⟨d, w.remote.faults⟩ }

lemma readFile_cases (fs : Fs) (rel : RelPath) :
    (∃ b, fs.node rel = some (.file b) ∧ fs.readFile rel = .ok b ∧ fs.isFile rel = true) ∨
      (∃ e, fs.readFile rel = .error e) ∧ fs.isFile rel = false := by
  unfold Fs.readFile Fs.isFile
  split
  · next b h => exact .inl ⟨b, h, rfl, by simp [h]⟩
  · next h => exact .inr ⟨⟨_, rfl⟩, by simp [h]⟩
  · next h => exact .inr ⟨⟨_, rfl⟩, by simp [h]⟩

/-- A first upload over HTTP. -/
lemma byHttp_upload (hcalm : w.remote.faults = []) (hread : w.fs.readFile rel = .ok b) :
    EngineCall.byHttp env w (.upload rel parent name) =
      match w.remote.drive.create parent name (Engine.contentTypeFor name) (some b) with
      | (some f, d) => ⟨.ok (some (.id f.num)), [w.remote.drive.files.next], w.withDrive d⟩
      | (none, d) => ⟨.error Drive.notFound, [], w.withDrive d⟩ := by
  simp only [EngineCall.byHttp, EngineCall.http, Engine.upload, ioTry, request, runTask,
    Prog.bind_eq, Prog.call_bind, Prog.run_call, Prog.trace_call, handle_fs, FsCall.run, hread,
    Prog.ofExcept_ok, Prog.pure_bind, handle_drive, objects,
    Remote.send_of_no_faults hcalm, DriveCall.run]
  generalize w.remote.drive.create parent name (Engine.contentTypeFor name) (some b) = made
  obtain ⟨f, d⟩ := made
  cases f <;> simp [World.withDrive, DriveCall.object, Drive.resource]

/-- Without the local file nothing is sent. -/
lemma byHttp_unread {c : EngineCall} {e : Error} (hread : w.fs.readFile rel = .error e)
    (hc : c.source = some rel) : EngineCall.byHttp env w c = ⟨.error e, [], w⟩ := by
  cases c <;> cases hc <;>
    simp [EngineCall.byHttp, EngineCall.http, Engine.upload, Engine.update, ioTry, runTask,
      FsCall.run, hread, objects]

/-- An update over HTTP. -/
lemma byHttp_update (hcalm : w.remote.faults = []) (hread : w.fs.readFile rel = .ok b) :
    EngineCall.byHttp env w (.update rid rel) =
      match w.remote.drive.file rid with
      | some f => ⟨.ok (some (.id f.num)), [f.num], w.withDrive (w.remote.drive.change f.num
          (fun x => { x with content := some b }) fun _ => rfl)⟩
      | none => ⟨.error Drive.notFound, [], w⟩ := by
  simp only [EngineCall.byHttp, EngineCall.http, Engine.update, ioTry, request, runTask,
    Prog.bind_eq, Prog.call_bind, Prog.run_call, Prog.trace_call, handle_fs, FsCall.run, hread,
    Prog.ofExcept_ok, Prog.pure_bind, handle_drive, objects,
    Remote.send_of_no_faults hcalm, DriveCall.run, DriveCall.onFile]
  cases hfile : w.remote.drive.file rid with
  | none => simp
  | some f =>
    have hnum := (Data.Serial.get_eq_some.mp hfile).2
    simp [World.withDrive, DriveCall.object, DriveCall.touches, Drive.resource, hnum]

/-- The local part of a download. -/
def promote (rel : RelPath) (body : Bytes) : Task Unit := do
  ioTry (.createDirAll rel.parentDir)
  ioTry (.writeFile rel body)

/-- It has nothing to do with objects on Drive. -/
lemma trace_promote {s : World} : (promote rel b).trace (handle env) (objects env) s = [] := by
  simp only [promote, ioTry, Prog.bind_eq, Prog.call_bind, Prog.trace_call, Prog.trace_bind,
    Prog.trace_ofExcept, objects, List.nil_append]
  split <;> rfl

/-- A download over HTTP. -/
lemma byHttp_download (hcalm : w.remote.faults = []) :
    EngineCall.byHttp env w (.download rid rel) =
      match w.remote.drive.file rid with
      | some f =>
        match f.content with
        | some b => ⟨(runTask env (promote rel b) w).1.map fun _ => none, [f.num],
            (runTask env (promote rel b) w).2⟩
        | none => ⟨.error (.driveHttp 403 "fileNotDownloadable"), [], w⟩
      | none => ⟨.error Drive.notFound, [], w⟩ := by
  have hdownload : EngineCall.http env (.download rid rel) =
      (request (.getMedia rid)).bind fun body => (promote rel body).bind fun _ => .pure none := by
    simp [EngineCall.http, Engine.download, promote, Prog.bind_assoc]
  simp only [EngineCall.byHttp, hdownload, runTask, request, Prog.call_bind, Prog.run_call,
    Prog.trace_call, handle_drive, objects, Remote.send_of_no_faults hcalm, DriveCall.run,
    DriveCall.onFile]
  cases hfile : w.remote.drive.file rid with
  | none => simp
  | some f =>
    have hnum := (Data.Serial.get_eq_some.mp hfile).2
    cases hbytes : f.content with
    | none => simp [hbytes]
    | some b =>
      simp only [hbytes, Prog.ofExcept_ok, Prog.pure_bind, Prog.run_bind, Prog.trace_bind,
        trace_promote, DriveCall.object, Option.toList, hnum]
      generalize Prog.run (handle env) (promote rel b) w = out
      obtain ⟨_ | _, s⟩ := out <;> rfl

/-- What `copyto` and the listing after it do: the binary overwrites a file of the name that it
picks, or makes one. -/
def byCopyTo (env : Env) (w : World) (rc : Rclone) (parent : FileId) (name : String) (b : Bytes) :
    Outcome :=
  let sent := (Rclone.Command.put parent [name] b).run rc env.md5 w.remote.drive
  let listed := (Rclone.Command.lsjson parent name).run rc env.md5 sent.2
  match sent.1 with
  | .ok n => ⟨listed.1.map fun rf => some rf.id, [n], w.withDrive sent.2⟩
  | .error e => ⟨.error e, [], w.withDrive sent.2⟩

lemma lsjson_same {d : Drive} : ((Rclone.Command.lsjson parent name).run rc env.md5 d).2 = d := by
  simp only [Rclone.Command.run]
  split <;> rfl

/-- A first upload by the binary. -/
lemma byRclone_upload (hread : w.fs.readFile rel = .ok b) :
    EngineCall.byRclone env w rc (.upload rel parent name) = byCopyTo env w rc parent name b := by
  simp only [EngineCall.byRclone, EngineCall.rclone, RcloneEngine.upload, RcloneEngine.copyTo,
    RcloneEngine.shared, RcloneEngine.run, ioTry, Prog.embed, Prog.bind_eq, Prog.call_bind,
    Prog.run_call, Prog.trace_call, RcloneCall.handle, handle_fs, FsCall.run, hread, byCopyTo,
    RcloneCall.objects, objects, List.nil_append, Prog.ofExcept_ok, Prog.pure_bind]
  generalize (Rclone.Command.put parent [name] b).run rc env.md5 w.remote.drive = sent
  obtain ⟨x, d⟩ := sent
  cases x with
  | error e => rfl
  | ok n =>
    have hsame := @lsjson_same env rc parent name d
    simp only [Prog.ofExcept_ok, Prog.pure_bind, Prog.pure_eq, Prog.call_bind, Prog.run_call,
      Prog.trace_call, RcloneCall.handle, RcloneCall.objects, Rclone.Command.object,
      World.withDrive]
    generalize (Rclone.Command.lsjson parent name).run rc env.md5 d = listed at hsame ⊢
    obtain ⟨_ | _, d'⟩ := listed <;> obtain rfl : d' = d := hsame <;> rfl

/-- Without the local file nothing is transferred. -/
lemma byRclone_upload_unread {e : Error} (hread : w.fs.readFile rel = .error e) :
    EngineCall.byRclone env w rc (.upload rel parent name) = ⟨.error e, [], w⟩ := by
  simp [EngineCall.byRclone, EngineCall.rclone, RcloneEngine.upload, RcloneEngine.copyTo,
    RcloneEngine.shared, ioTry, Prog.embed, RcloneCall.handle, FsCall.run, hread,
    RcloneCall.objects, objects]

/-- Looking up an object and going on with its name and its folder. -/
lemma run_lookup (hcalm : w.remote.faults = []) {α : Type}
    (k : String × FileId → RcloneEngine.Program α) :
    ((RcloneEngine.lookup rid).bind k).run (RcloneCall.handle env rc) w =
        (match w.remote.drive.file rid with
          | none => (.error Drive.notFound, w)
          | some f =>
            match f.parents with
            | [] => (.error (.drive "file has no `parents`"), w)
            | p :: _ => (k (f.name, .id p)).run (RcloneCall.handle env rc) w) ∧
      ((RcloneEngine.lookup rid).bind k).trace (RcloneCall.handle env rc)
          (RcloneCall.objects env rc) w =
        (match w.remote.drive.file rid with
          | none => []
          | some f =>
            match f.parents with
            | [] => []
            | p :: _ => (k (f.name, .id p)).trace (RcloneCall.handle env rc)
                (RcloneCall.objects env rc) w) := by
  simp only [RcloneEngine.lookup, RcloneEngine.shared, request, Prog.embed, Prog.bind_eq,
    Prog.call_bind, Prog.run_call, Prog.trace_call, RcloneCall.handle, handle_drive,
    RcloneCall.objects, objects, Remote.send_of_no_faults hcalm, DriveCall.run, DriveCall.onFile]
  cases w.remote.drive.file rid with
  | none => simp [Prog.embed]
  | some f =>
    cases hparents : f.parents <;> simp [Prog.embed, Drive.resource, hparents, DriveCall.object,
      DriveCall.touches]

/-- An update by the binary: it goes on as a first upload into the folder under the name. -/
lemma byRclone_update (hcalm : w.remote.faults = []) :
    EngineCall.byRclone env w rc (.update rid rel) =
      match w.remote.drive.file rid with
      | none => ⟨.error Drive.notFound, [], w⟩
      | some f =>
        match f.parents with
        | [] => ⟨.error (.drive "file has no `parents`"), [], w⟩
        | p :: _ => EngineCall.byRclone env w rc (.upload rel (.id p) f.name) := by
  have hupdate : EngineCall.rclone env (.update rid rel) = (RcloneEngine.lookup rid).bind
      fun x => EngineCall.rclone env (.upload rel x.2 x.1) := by
    simp only [EngineCall.rclone, RcloneEngine.update, RcloneEngine.upload, Prog.bind_eq,
      Prog.bind_assoc]
  obtain ⟨hrun, htrace⟩ := @run_lookup env w rc rid hcalm _
    fun x => EngineCall.rclone env (.upload rel x.2 x.1)
  simp only [EngineCall.byRclone, hupdate, hrun, htrace]
  cases w.remote.drive.file rid with
  | none => rfl
  | some f => cases hparents : f.parents <;> simp [hparents]

/-- What both engines do in the same way. -/
@[simp] lemma run_shared {α : Type} (q : Task α) (s : World) :
    (RcloneEngine.shared q).run (RcloneCall.handle env rc) s = runTask env q s := by
  rw [RcloneEngine.shared, Prog.run_embed (handle env)]
  exact fun _ _ _ => rfl

@[simp] lemma trace_shared {α : Type} (q : Task α) (s : World) :
    (RcloneEngine.shared q).trace (RcloneCall.handle env rc) (RcloneCall.objects env rc) s =
      q.trace (handle env) (objects env) s := by
  rw [RcloneEngine.shared, Prog.trace_embed (handle env) (objects env)]
  · exact fun _ _ _ => rfl
  · exact fun _ _ _ => rfl

lemma copyFrom_eq (root : FileId) (path : RelPath) : RcloneEngine.copyFrom root path rel =
    (RcloneEngine.run (.fetch root path)).bind fun x => RcloneEngine.shared (promote rel x.2) := by
  simp only [RcloneEngine.copyFrom, RcloneEngine.shared, promote, Prog.bind_eq, Prog.embed_bind]

/-- Fetching an object by its path. -/
lemma run_copyFrom (root : FileId) (path : RelPath) :
    (RcloneEngine.copyFrom root path rel).run (RcloneCall.handle env rc) w =
        (match ((Rclone.Command.fetch root path).run rc env.md5 w.remote.drive).1 with
          | .ok x => runTask env (promote rel x.2) w
          | .error e => (.error e, w)) ∧
      (RcloneEngine.copyFrom root path rel).trace (RcloneCall.handle env rc)
          (RcloneCall.objects env rc) w =
        match ((Rclone.Command.fetch root path).run rc env.md5 w.remote.drive).1 with
        | .ok x => [x.1]
        | .error _ => [] := by
  have hsame : ((Rclone.Command.fetch root path).run rc env.md5 w.remote.drive).2 =
      w.remote.drive := by
    simp only [Rclone.Command.run]
    split
    · rfl
    · split <;> rfl
  rw [copyFrom_eq]
  simp only [RcloneEngine.run, Prog.call_bind, Prog.run_call, Prog.trace_call, RcloneCall.handle,
    RcloneCall.objects, hsame]
  generalize ((Rclone.Command.fetch root path).run rc env.md5 w.remote.drive).1 = fetched
  cases fetched with
  | error e => simp
  | ok x =>
    simp only [Prog.ofExcept_ok, Prog.pure_bind, run_shared, trace_shared, trace_promote,
      Rclone.Command.object]
    simp

/-- A download by the binary. -/
lemma byRclone_download (hcalm : w.remote.faults = []) :
    EngineCall.byRclone env w rc (.download rid rel) =
      match w.remote.drive.file rid with
      | none => ⟨.error Drive.notFound, [], w⟩
      | some f =>
        match f.parents with
        | [] => ⟨.error (.drive "file has no `parents`"), [], w⟩
        | p :: _ =>
          match ((Rclone.Command.fetch (.id p) [f.name]).run rc env.md5 w.remote.drive).1 with
          | .ok x => ⟨(runTask env (promote rel x.2) w).1.map fun _ => none, [x.1],
              (runTask env (promote rel x.2) w).2⟩
          | .error e => ⟨.error e, [], w⟩ := by
  have hdownload : EngineCall.rclone env (.download rid rel) = (RcloneEngine.lookup rid).bind
      fun x => (RcloneEngine.copyFrom x.2 [x.1] rel).bind fun _ => .pure none := by
    simp only [EngineCall.rclone, RcloneEngine.download, Prog.bind_eq, Prog.bind_assoc]
    rfl
  obtain ⟨hrun, htrace⟩ := @run_lookup env w rc rid hcalm _
    fun x => (RcloneEngine.copyFrom x.2 [x.1] rel).bind fun _ => .pure (none : Option FileId)
  simp only [EngineCall.byRclone, hdownload, hrun, htrace]
  cases w.remote.drive.file rid with
  | none => rfl
  | some f =>
    cases hparents : f.parents with
    | nil => simp [hparents]
    | cons p rest =>
      obtain ⟨hcopy, hobjects⟩ := @run_copyFrom env w rc rel (.id p) [f.name]
      simp only [hparents, Prog.run_bind, Prog.trace_bind, hcopy, hobjects]
      generalize ((Rclone.Command.fetch (.id p) [f.name]).run rc env.md5 w.remote.drive).1 = fetched
      cases fetched with
      | error e => simp
      | ok x =>
        simp only
        generalize runTask env (promote rel x.2) w = out
        obtain ⟨_ | _, s⟩ := out <;> rfl

/-- A file put into a folder: one of its name is overwritten, or it is made. -/
lemma run_put {d : Drive} : (Rclone.Command.put parent [name] b).run rc env.md5 d =
    match rc.transfer.pick (Rclone.namesakes d (d.resolve parent) name) with
    | some f => (.ok f.num, d.change f.num (fun x => { x with content := some b }) fun _ => rfl)
    | none =>
      match d.create parent name (Engine.contentTypeFor name) (some b) with
      | (some f, d') => (.ok f.num, d')
      | (none, d') => (.error Rclone.notFound, d') := rfl

/-- A file fetched from a folder. -/
lemma run_fetch {d : Drive} : ((Rclone.Command.fetch parent [name]).run rc env.md5 d).1 =
    match rc.transfer.pick (Rclone.namesakes d (d.resolve parent) name) with
    | some f => .ok (f.num, f.content.getD [])
    | none => .error Rclone.notFound := by
  have hrun : (Rclone.Command.fetch parent [name]).run rc env.md5 d =
      match rc.transfer.pick (Rclone.namesakes d (d.resolve parent) name) with
      | some f => (.ok (f.num, f.content.getD []), d)
      | none => (.error Rclone.notFound, d) := rfl
  rw [hrun]
  cases rc.transfer.pick (Rclone.namesakes d (d.resolve parent) name) <;> rfl

/-- The listing after a transfer answers the object that all namesakes are. -/
lemma run_lsjson (env : Env) (rc : Rclone) {d : Drive} {num : ℕ} {g : DriveFile}
    (hg : g ∈ Rclone.namesakes d (d.resolve parent) name)
    (hall : ∀ g ∈ Rclone.namesakes d (d.resolve parent) name, g.num = num) :
    ∃ rf, ((Rclone.Command.lsjson parent name).run rc env.md5 d).1 = .ok rf ∧ rf.id = .id num := by
  obtain ⟨f, hpick, -, hnum⟩ := Rclone.pick_of_forall rc.listing hg hall
  refine ⟨Drive.resource env.md5 f, ?_, congrArg FileId.id hnum⟩
  simp only [Rclone.Command.run, hpick]

/-! ## Single files -/

/-- Nothing is returned, so that nothing has to be held. -/
lemma SameOutcome.of_error {c : EngineCall} {o o' : Outcome} (hobjects : o'.objects = o.objects)
    {e e' : Error} (he : o.answer = .error e) (he' : o'.answer = .error e') :
    SameOutcome w c o o' :=
  ⟨hobjects, by rw [he, he']; rfl, fun _ _ _ hanswer => by rw [he'] at hanswer; cases hanswer⟩

/-- A new file in a folder that had none of its name is the only one of its name. -/
lemma namesakes_create {d : Drive} {p : DriveFile} {mime : String}
    (hfolder : d.file parent = some p)
    (hnone : Rclone.namesakes d (d.resolve parent) name = []) :
    ∃ f d', d.create parent name mime (some b) = (some f, d') ∧ f.num = d.files.next ∧
      f.content = some b ∧ d'.file (.id f.num) = some f ∧
      f ∈ Rclone.namesakes d' (d'.resolve parent) name ∧
      ∀ g ∈ Rclone.namesakes d' (d'.resolve parent) name, g.num = f.num := by
  have hnum := (Data.Serial.get_eq_some.mp hfolder).2
  refine ⟨_, _, by rw [Drive.create, hfolder], rfl, rfl, ?_, ?_, fun g hg => ?_⟩
  · exact Data.Serial.get_eq_some.mpr ⟨Data.Serial.mem_push.mpr (.inr rfl), rfl⟩
  · refine Rclone.mem_namesakes.mpr ⟨Data.Serial.mem_push.mpr (.inr rfl), ?_, rfl, rfl, rfl⟩
    exact hnum ▸ List.mem_singleton_self _
  · obtain ⟨hmem, hrest⟩ := Rclone.mem_namesakes.mp hg
    rcases Data.Serial.mem_push.mp hmem with hold | rfl
    · have hin : g ∈ Rclone.namesakes d (d.resolve parent) name :=
        Rclone.mem_namesakes.mpr ⟨hold, hrest⟩
      rw [hnone] at hin
      cases hin
    · rfl

/-- A first upload where the folder has no file of the name. -/
lemma same_upload (hcalm : w.remote.faults = []) (h : Unambiguous w (.upload rel parent name)) :
    SameOutcome w (.upload rel parent name) (EngineCall.byHttp env w (.upload rel parent name))
      (EngineCall.byRclone env w rc (.upload rel parent name)) := by
  rcases readFile_cases w.fs rel with ⟨b, hnode, hread, hfile⟩ | ⟨⟨e, hread⟩, -⟩
  · have hnone := h hfile
    rw [byHttp_upload hcalm hread, byRclone_upload hread, byCopyTo]
    simp only [run_put, hnone, Rclone.pick_nil]
    cases hfolder : w.remote.drive.file parent with
    | none =>
      simp only [Drive.create, hfolder]
      exact .of_error rfl rfl rfl
    | some p =>
      obtain ⟨f, d', hmade, hnum, hbytes, hfile', hmem, hall⟩ := namesakes_create hfolder hnone
      obtain ⟨rf, hlisted, hid⟩ := run_lsjson env rc hmem hall
      rw [hmade]
      simp only [hlisted]
      refine ⟨by rw [hnum], by simp [Except.map, Except.toOption, hid], fun rel' id hrel hanswer => ?_⟩
      obtain rfl := Option.some.inj hrel
      obtain rfl := Option.some.inj (Except.ok.inj hanswer)
      exact ⟨f, b, by rw [hid]; exact hfile', hnode, hbytes⟩
  · rw [byHttp_unread hread rfl, byRclone_upload_unread hread]
    exact .of_error rfl rfl rfl

/-- Overwriting the only file of its name. -/
lemma namesakes_change {d : Drive} {f : DriveFile} {n : ℕ} (hf : Rclone.namesakes d n f.name = [f]) :
    (d.change f.num (fun x => { x with content := some b }) fun _ => rfl).file (.id f.num) =
        some { f with content := some b } ∧
      { f with content := some b } ∈ Rclone.namesakes
        (d.change f.num (fun x => { x with content := some b }) fun _ => rfl) n f.name ∧
      ∀ g ∈ Rclone.namesakes (d.change f.num (fun x => { x with content := some b }) fun _ => rfl)
        n f.name, g.num = f.num := by
  have hmem : f ∈ Rclone.namesakes d n f.name := hf ▸ List.mem_singleton_self f
  obtain ⟨hfile, hparent, hlive, -, -⟩ := Rclone.mem_namesakes.mp hmem
  have hget : d.files.get f.num = some f := Data.Serial.get_eq_some.mpr ⟨hfile, rfl⟩
  have hafter := @DriveCall.get_change_self d f.num (fun x => { x with content := some b })
    (fun _ => rfl) f hget
  refine ⟨hafter, Rclone.mem_namesakes.mpr ⟨(Data.Serial.get_eq_some.mp hafter).1, hparent, hlive,
    rfl, rfl⟩, fun g hg => ?_⟩
  rcases Rclone.mem_namesakes_change hg with hnum | hold
  · exact hnum
  · rw [hf, List.mem_singleton] at hold
    rw [hold]

/-- An update of the only file of its name in its first parent. -/
lemma same_update (hcalm : w.remote.faults = []) (h : Unambiguous w (.update rid rel)) :
    SameOutcome w (.update rid rel) (EngineCall.byHttp env w (.update rid rel))
      (EngineCall.byRclone env w rc (.update rid rel)) := by
  rw [byRclone_update hcalm]
  rcases readFile_cases w.fs rel with ⟨b, hnode, hread, hisFile⟩ | ⟨⟨e, hread⟩, -⟩
  · rw [byHttp_update hcalm hread]
    cases hfile : w.remote.drive.file rid with
    | none => exact .of_error rfl rfl rfl
    | some f =>
      obtain ⟨p, hparent, hone⟩ := h hisFile f hfile
      obtain ⟨rest, hparents⟩ := List.head?_eq_some_iff.mp hparent
      obtain ⟨hget, hmem, hall⟩ := @namesakes_change b w.remote.drive f p hone
      obtain ⟨rf, hlisted, hid⟩ := @run_lsjson (.id p) f.name env rc _ _ _ hmem hall
      simp only [hparents, byRclone_upload hread, byCopyTo, run_put]
      rw [show Rclone.namesakes w.remote.drive (w.remote.drive.resolve (.id p)) f.name = [f] from
        hone, Rclone.pick_singleton]
      simp only [hlisted]
      refine ⟨rfl, by simp [Except.map, Except.toOption, hid], fun rel' id hrel hanswer => ?_⟩
      obtain rfl := Option.some.inj hrel
      obtain rfl := Option.some.inj (Except.ok.inj hanswer)
      exact ⟨_, b, by rw [hid]; exact hget, hnode, rfl⟩
  · rw [byHttp_unread hread rfl]
    cases hfile : w.remote.drive.file rid with
    | none => exact .of_error rfl rfl rfl
    | some f =>
      cases hparents : f.parents with
      | nil =>
        simp only [hparents]
        exact .of_error rfl rfl rfl
      | cons p rest =>
        simp only [hparents, byRclone_upload_unread hread]
        exact .of_error rfl rfl rfl

/-- A download of the only file of its name in its first parent. -/
lemma same_download (hcalm : w.remote.faults = []) (h : Unambiguous w (.download rid rel)) :
    SameOutcome w (.download rid rel) (EngineCall.byHttp env w (.download rid rel))
      (EngineCall.byRclone env w rc (.download rid rel)) := by
  rw [byRclone_download hcalm, byHttp_download hcalm]
  cases hfile : w.remote.drive.file rid with
  | none => exact .of_error rfl rfl rfl
  | some f =>
    have hcase := h f hfile
    cases hbytes : f.content with
    | some b =>
      rw [hbytes, Option.isSome_some, if_pos rfl] at hcase
      obtain ⟨p, hparent, hone⟩ := hcase
      obtain ⟨rest, hparents⟩ := List.head?_eq_some_iff.mp hparent
      simp only [hparents, run_fetch]
      rw [show Rclone.namesakes w.remote.drive (w.remote.drive.resolve (.id p)) f.name = [f] from
        hone, Rclone.pick_singleton]
      simp only [hbytes, Option.getD_some]
      exact ⟨rfl, rfl, fun _ _ hsource => by cases hsource⟩
    | none =>
      rw [hbytes, Option.isSome_none, if_neg (by simp)] at hcase
      cases hparents : f.parents with
      | nil =>
        simp only [hparents, hbytes]
        exact .of_error rfl rfl rfl
      | cons p rest =>
        have hnone := hcase p (by rw [hparents, List.head?_cons])
        simp only [hparents, run_fetch]
        rw [show Rclone.namesakes w.remote.drive (w.remote.drive.resolve (.id p)) f.name = [] from
          hnone, Rclone.pick_nil]
        simp only [hbytes]
        exact .of_error rfl rfl rfl

/-- The object of a transfer is the one that is picked. -/
lemma objects_byCopyTo {f : DriveFile} (hpick : rc.transfer.pick
    (Rclone.namesakes w.remote.drive (w.remote.drive.resolve parent) name) = some f) :
    (byCopyTo env w rc parent name b).objects = [f.num] := by
  simp only [byCopyTo, run_put, hpick]

/-- Without one, it is a new one, or there is none. -/
lemma objects_byCopyTo_new
    (hnone : Rclone.namesakes w.remote.drive (w.remote.drive.resolve parent) name = []) :
    (byCopyTo env w rc parent name b).objects = [] ∨
      (byCopyTo env w rc parent name b).objects = [w.remote.drive.files.next] := by
  simp only [byCopyTo, run_put, hnone, Rclone.pick_nil]
  cases hfolder : w.remote.drive.file parent with
  | none =>
    simp only [Drive.create, hfolder]
    exact .inl trivial
  | some p =>
    simp only [Drive.create, hfolder]
    exact .inr trivial

/-- **Where the engines agree on a first upload**, the folder has no file of the name. -/
lemma unambiguous_upload (hcalm : w.remote.faults = [])
    (h : Substitutes env w (.upload rel parent name)) : Unambiguous w (.upload rel parent name) := by
  intro hisFile
  rcases readFile_cases w.fs rel with ⟨b, -, hread, -⟩ | ⟨-, hnot⟩
  · by_contra hne
    obtain ⟨f, hf⟩ := List.exists_mem_of_ne_nil _ hne
    have hsame := (h nofun (.preferring f)).objects
    have hlt := w.remote.drive.files.key_lt (Rclone.mem_namesakes.mp hf).1
    rw [byRclone_upload hread, objects_byCopyTo (Rclone.preferring_pick hf),
      byHttp_upload hcalm hread] at hsame
    split at hsame
    · simp only [List.cons.injEq, and_true] at hsame
      omega
    · cases hsame
  · rw [hnot] at hisFile
    cases hisFile

/-- A file that is known by its id is the only one of its name, where that is the object of every
transfer of the name. -/
lemma namesakes_of_objects {f : DriveFile} {p : ℕ} (hf : f ∈ w.remote.drive.files)
    (h : ∀ rc, (byCopyTo env w rc (.id p) f.name b).objects = [f.num]) :
    Rclone.namesakes w.remote.drive p f.name = [f] := by
  refine Rclone.namesakes_eq_singleton (fun hnil => ?_) fun g hg => ?_
  · have hlt := w.remote.drive.files.key_lt hf
    have hsame := h (.preferring f)
    rcases @objects_byCopyTo_new env w (.preferring f) (.id p) f.name b hnil with hnew | hnew
    · rw [hnew] at hsame
      cases hsame
    · rw [hnew, List.cons.injEq] at hsame
      omega
  · have hsame := h (.preferring g)
    have hpick : (Rclone.preferring g).transfer.pick
        (Rclone.namesakes w.remote.drive (w.remote.drive.resolve (.id p)) f.name) = some g :=
      Rclone.preferring_pick hg
    rw [objects_byCopyTo hpick, List.cons.injEq] at hsame
    exact w.remote.drive.files.key_inj (Rclone.mem_namesakes.mp hg).1 hf hsame.1

/-- **Where the engines agree on an update**, the file is the only one of its name. -/
lemma unambiguous_update (hcalm : w.remote.faults = [])
    (h : Substitutes env w (.update rid rel)) : Unambiguous w (.update rid rel) := by
  intro hisFile f hfile
  rcases readFile_cases w.fs rel with ⟨b, -, hread, -⟩ | ⟨-, hnot⟩
  · have hsame : ∀ rc, (EngineCall.byRclone env w rc (.update rid rel)).objects = [f.num] := by
      intro rc
      rw [(h nofun rc).objects, byHttp_update hcalm hread, hfile]
    simp only [byRclone_update hcalm, hfile] at hsame
    cases hparents : f.parents with
    | nil =>
      simp only [hparents] at hsame
      cases hsame (.preferring f)
    | cons p rest =>
      simp only [hparents, byRclone_upload hread] at hsame
      exact ⟨p, rfl, namesakes_of_objects (Data.Serial.get_eq_some.mp hfile).1 hsame⟩
  · rw [hnot] at hisFile
    cases hisFile

/-- **Where the engines agree on a download**, the file is the only one of its name. -/
lemma unambiguous_download (hcalm : w.remote.faults = [])
    (h : Substitutes env w (.download rid rel)) : Unambiguous w (.download rid rel) := by
  intro f hfile
  have hsame : ∀ rc, (EngineCall.byRclone env w rc (.download rid rel)).objects =
      (EngineCall.byHttp env w (.download rid rel)).objects := fun rc => (h nofun rc).objects
  simp only [byRclone_download hcalm, byHttp_download hcalm, hfile] at hsame
  split_ifs with hbytes
  · obtain ⟨b, hb⟩ := Option.isSome_iff_exists.mp hbytes
    simp only [hb] at hsame
    cases hparents : f.parents with
    | nil =>
      simp only [hparents] at hsame
      cases hsame (.preferring f)
    | cons p rest =>
      simp only [hparents, run_fetch] at hsame
      refine ⟨p, rfl, Rclone.namesakes_eq_singleton (fun hnil => ?_) fun g hg => ?_⟩
      · have hnone := hsame (.preferring f)
        rw [show Rclone.namesakes w.remote.drive (w.remote.drive.resolve (.id p)) f.name = [] from
          hnil, Rclone.pick_nil] at hnone
        cases hnone
      · have htook := hsame (.preferring g)
        have hpick : (Rclone.preferring g).transfer.pick
            (Rclone.namesakes w.remote.drive (w.remote.drive.resolve (.id p)) f.name) = some g :=
          Rclone.preferring_pick hg
        simp only [hpick, List.cons.injEq, and_true] at htook
        exact w.remote.drive.files.key_inj (Rclone.mem_namesakes.mp hg).1
          (Data.Serial.get_eq_some.mp hfile).1 htook
  · intro p hparent
    obtain ⟨rest, hparents⟩ := List.head?_eq_some_iff.mp hparent
    have hb : f.content = none := by simpa using hbytes
    simp only [hb, hparents, run_fetch] at hsame
    by_contra hne
    obtain ⟨g, hg⟩ := List.exists_mem_of_ne_nil _ hne
    have htook := hsame (.preferring g)
    have hpick : (Rclone.preferring g).transfer.pick
        (Rclone.namesakes w.remote.drive (w.remote.drive.resolve (.id p)) f.name) = some g :=
      Rclone.preferring_pick hg
    simp only [hpick] at htook
    cases htook

/-! ## Many files -/

lemma folderAt_of_leadsTo {picker : Picker} {d : Drive} {n m : ℕ} {path : RelPath}
    (h : LeadsTo d n path m) : Rclone.folderAt picker d n path = some m := by
  induction path generalizing n with
  | nil => exact congrArg some h
  | cons x rest ih =>
    obtain ⟨g, hg, hrest⟩ := h
    rw [Rclone.folderAt, hg, Rclone.pick_singleton, Option.bind_some, ih hrest]

lemma makeFolders_of_leadsTo {picker : Picker} {d : Drive} {n m : ℕ} {path : RelPath}
    (h : LeadsTo d n path m) : Rclone.makeFolders picker d n path = (some m, d) := by
  induction path generalizing n with
  | nil => exact congrArg (some ·, d) h
  | cons x rest ih =>
    obtain ⟨g, hg, hrest⟩ := h
    rw [Rclone.makeFolders, hg, Rclone.pick_singleton]
    exact ih hrest

/-- Promoting a file is no matter of Drive. -/
lemma remote_promote : (runTask env (promote rel b) w).2.remote = w.remote := by
  have hends : Ends env (fun _ w' => w'.remote = w.remote) (promote rel b) w := by
    simp only [Ends, promote, Prog.bind_eq, Prog.safe_bind, safe_ioTry, true_and, forall_const]
    split <;> simp
  exact hends.run

/-- A download of a file with content. -/
lemma run_download {f : DriveFile} (hcalm : w.remote.faults = [])
    (hfile : w.remote.drive.file rid = some f) (hbytes : f.content = some b) :
    runTask env (Engine.download rid rel) w = runTask env (promote rel b) w ∧
      (Engine.download rid rel).trace (handle env) (objects env) w = [f.num] := by
  have hdownload : Engine.download rid rel = (request (.getMedia rid)).bind (promote rel) := rfl
  simp only [hdownload, runTask, request, Prog.call_bind, Prog.run_call, Prog.trace_call,
    handle_drive, objects, Remote.send_of_no_faults hcalm, DriveCall.run, DriveCall.onFile, hfile,
    hbytes, Prog.ofExcept_ok, Prog.pure_bind, trace_promote, DriveCall.object]
  simp [(Data.Serial.get_eq_some.mp hfile).2]

/-- **The loops of both engines do the same** when every step does, from what the steps before it
leave. -/
lemma run_copy {ι : Type} {file : ι → RcloneEngine.Program Unit} {http : ι → Task Unit}
    {I : List ι → World → Prop} (hstep : ∀ i l w s, I (i :: l) w →
      runTask env (http i) w = (.ok (), s) →
        (file i).run (RcloneCall.handle env rc) w = (.ok (), s) ∧
          (file i).trace (RcloneCall.handle env rc) (RcloneCall.objects env rc) w =
            (http i).trace (handle env) (objects env) w ∧ I l s)
    (items : List ι) (hI : I items w)
    (hok : (runTask env (.forEach items http) w).1 = .ok ()) :
    (RcloneEngine.copy items file).run (RcloneCall.handle env rc) w =
        runTask env (.forEach items http) w ∧
      (RcloneEngine.copy items file).trace (RcloneCall.handle env rc) (RcloneCall.objects env rc) w =
        (Prog.forEach items http).trace (handle env) (objects env) w := by
  unfold RcloneEngine.copy
  induction items generalizing w with
  | nil => exact ⟨rfl, rfl⟩
  | cons i items ih =>
    simp only [runTask, Prog.forEach_cons, Prog.run_bind] at hok
    generalize hfirst : (http i).run (handle env) w = out at hok
    obtain ⟨_ | u, s⟩ := out
    · cases hok
    · obtain ⟨hrun, htrace, hI'⟩ := hstep i items w s hI hfirst
      obtain ⟨hrest, hobjects⟩ := ih hI' hok
      simp only [runTask, Prog.bind_eq, Prog.foldM_cons, Prog.forEach_cons, Prog.run_bind,
        Prog.trace_bind, Prog.run_attempt, Prog.trace_attempt, hrun, htrace, hfirst, Prog.pure_eq,
        Prog.run_pure, Prog.trace_pure, List.append_nil] at hrest hobjects ⊢
      exact ⟨hrest, by rw [List.append_assoc, hobjects]⟩

/-- Loops that do the same make calls that do the same. -/
lemma same_loops {q : Task Unit} {q' : RcloneEngine.Program Unit} {c : EngineCall}
    (hhttp : c.http env = q.bind fun _ => .pure none)
    (hrclone : c.rclone env = q'.bind fun _ => .pure none) (hsource : c.source = none)
    (hanswer : (c.byHttp env w).answer = .ok none)
    (hsame : (runTask env q w).1 = .ok () →
      q'.run (RcloneCall.handle env rc) w = runTask env q w ∧
        q'.trace (RcloneCall.handle env rc) (RcloneCall.objects env rc) w =
          q.trace (handle env) (objects env) w) :
    SameOutcome w c (c.byHttp env w) (c.byRclone env w rc) := by
  have hok : (runTask env q w).1 = .ok () := by
    simp only [EngineCall.byHttp, hhttp, runTask, Prog.run_bind] at hanswer ⊢
    generalize q.run (handle env) w = out at hanswer ⊢
    obtain ⟨_ | _, s⟩ := out
    · cases hanswer
    · rfl
  obtain ⟨hrun, htrace⟩ := hsame hok
  refine ⟨?_, ?_, fun rel id hrel => by rw [hsource] at hrel; cases hrel⟩
  · simp only [EngineCall.byHttp, EngineCall.byRclone, hhttp, hrclone, runTask, Prog.trace_bind,
      htrace] at hrun ⊢
    rw [hrun]
    generalize q.run (handle env) w = out
    obtain ⟨_ | _, s⟩ := out <;> rfl
  · simp only [EngineCall.byHttp, EngineCall.byRclone, hhttp, hrclone, runTask, Prog.run_bind] at hrun ⊢
    rw [hrun]
    generalize q.run (handle env) w = out
    obtain ⟨_ | _, s⟩ := out <;> rfl

/-- Fetching a file by its path, where the names lead to it. -/
lemma run_fetch_path {d : Drive} {root : FileId} {path : RelPath} {p : ℕ} {f : DriveFile}
    (hfolder : LeadsTo d (d.resolve root) path.splitParent.1 p)
    (hone : Rclone.namesakes d p path.splitParent.2 = [f]) :
    ((Rclone.Command.fetch root path).run rc env.md5 d).1 = .ok (f.num, f.content.getD []) := by
  simp only [Rclone.Command.run, folderAt_of_leadsTo hfolder, hone, Rclone.pick_singleton]

/-- The initial download, where the names lead to the files. -/
lemma same_bulkDownload {items : List Engine.BulkDownload} {root : FileId}
    (hcalm : w.remote.faults = []) (h : Unambiguous w (.bulkDownload items root))
    (hanswer : (EngineCall.byHttp env w (.bulkDownload items root)).answer = .ok none) :
    SameOutcome w (.bulkDownload items root) (EngineCall.byHttp env w (.bulkDownload items root))
      (EngineCall.byRclone env w rc (.bulkDownload items root)) := by
  have hloop : RcloneEngine.bulkDownload items root =
      RcloneEngine.copy items fun item => RcloneEngine.copyFrom root item.relPath item.relPath := by
    unfold RcloneEngine.bulkDownload
    split_ifs with hnil
    · rw [hnil]
      rfl
    · rfl
  refine same_loops rfl rfl rfl hanswer fun hok => ?_
  rw [hloop]
  refine @run_copy env w rc _ _ _ (fun l s => s.remote = w.remote ∧ l ⊆ items)
    (fun i l s s' ⟨hs, hl⟩ hrun => ?_) items ⟨rfl, List.Subset.refl _⟩ hok
  obtain ⟨f, p, hfile, hfolder, hone⟩ := h i (hl (.head _))
  have hbytes := (Rclone.mem_namesakes.mp (hone ▸ List.mem_singleton_self f)).2.2.2.2
  obtain ⟨b, hb⟩ := Option.isSome_iff_exists.mp hbytes
  rw [← hs] at hfile hfolder hone hcalm
  obtain ⟨hdown, htrace⟩ := @run_download env s i.relPath i.remoteId b f hcalm hfile hb
  obtain ⟨hcopy, hobjects⟩ := @run_copyFrom env s rc i.relPath root i.relPath
  rw [run_fetch_path hfolder hone, hb, Option.getD_some] at hcopy hobjects
  refine ⟨hcopy.trans (hdown.symm.trans hrun), hobjects.trans htrace.symm, ?_, ?_⟩
  · rw [hdown] at hrun
    have hremote := @remote_promote env s i.relPath b
    rw [hrun] at hremote
    exact hremote.trans hs
  · exact fun x hx => hl (.tail _ hx)

/-- Drive after a file was made. -/
lemma create_eq_some {d d' : Drive} {mime : String} {f : DriveFile}
    (h : d.create parent name mime (some b) = (some f, d')) :
    d'.files.table.rows = d.files.table.rows ++ [f] ∧ d'.rootNum = d.rootNum ∧
      f.num = d.files.next ∧ f.name = name ∧ f.parents = [d.resolve parent] ∧ f.mimeType = mime := by
  unfold Drive.create at h
  split at h
  · cases h
  · next p hfolder =>
    obtain ⟨hf, rfl⟩ := Prod.mk.inj h
    obtain rfl := Option.some.inj hf
    exact ⟨rfl, rfl, rfl, rfl, congrArg ([·]) (Data.Serial.get_eq_some.mp hfolder).2, rfl⟩

section Create

variable {d d' : Drive} {f : DriveFile}
  (h : d.create parent name (Engine.contentTypeFor name) (some b) = (some f, d'))

include h

lemma resolve_create (id : FileId) : d'.resolve id = d.resolve id := by
  cases id with
  | rootAlias => exact (create_eq_some h).2.1
  | id n => rfl

/-- A new file is no folder. -/
lemma subfolders_create (n : ℕ) (x : String) :
    Rclone.subfolders d' n x = Rclone.subfolders d n x := by
  obtain ⟨hrows, -, -, -, -, hmime⟩ := create_eq_some h
  have hne : f.mimeType ≠ folderMime := hmime ▸ Engine.contentTypeFor_ne name
  simp only [Rclone.subfolders, Drive.children, hrows, List.filter_append]
  simp only [List.append_right_eq_self, List.filter_eq_nil_iff, List.mem_filter, List.mem_singleton,
    Bool.and_eq_true, decide_eq_true_eq]
  rintro g ⟨rfl, -⟩ ⟨-, hfolder⟩
  exact hne hfolder

lemma leadsTo_create {n m : ℕ} {path : RelPath} (hpath : LeadsTo d n path m) :
    LeadsTo d' n path m := by
  induction path generalizing n with
  | nil => exact hpath
  | cons x rest ih =>
    obtain ⟨g, hg, hrest⟩ := hpath
    exact ⟨g, (subfolders_create h n x).trans hg, ih hrest⟩

/-- A new file is in one folder, under one name. -/
lemma namesakes_create_other {n : ℕ} {x : String} (hother : (n, x) ≠ (d.resolve parent, name)) :
    Rclone.namesakes d' n x = Rclone.namesakes d n x := by
  obtain ⟨hrows, -, -, hname, hparents, -⟩ := create_eq_some h
  simp only [Rclone.namesakes, Drive.children, hrows, List.filter_append]
  simp only [List.append_right_eq_self, List.filter_eq_nil_iff, List.mem_filter, List.mem_singleton,
    Bool.and_eq_true, decide_eq_true_eq]
  rintro g ⟨rfl, hin, -⟩ ⟨hx, -⟩
  rw [hparents] at hin
  exact hother (by rw [← hx, hname, List.mem_singleton.mp (List.contains_iff_mem.mp hin)])

end Create

/-- The next file of an initial upload can be sent: the names lead to its folder, which has no file
of the name. -/
def Sendable (d : Drive) (root : FileId) (i : Engine.BulkUpload) : Prop :=
  i.relPath.splitParent.2 = i.name ∧
    LeadsTo d (d.resolve root) i.relPath.splitParent.1 (d.resolve i.remoteParentId) ∧
      Rclone.namesakes d (d.resolve i.remoteParentId) i.name = []

/-- The step of the HTTP engine's loop. -/
def uploadItem (item : Engine.BulkUpload) : Task Unit := do
  let _ ← Engine.upload item.relPath item.remoteParentId item.name
  pure ()

/-- One file of an initial upload over HTTP. -/
lemma run_uploadItem {i : Engine.BulkUpload} {s : World} (hcalm : w.remote.faults = [])
    (hrun : runTask env (uploadItem i) w = (.ok (), s)) :
    ∃ b f d', w.fs.readFile i.relPath = .ok b ∧
      w.remote.drive.create i.remoteParentId i.name (Engine.contentTypeFor i.name) (some b) =
        (some f, d') ∧ s = w.withDrive d' ∧
      (uploadItem i).trace (handle env) (objects env) w = [w.remote.drive.files.next] := by
  rcases readFile_cases w.fs i.relPath with ⟨b, -, hread, -⟩ | ⟨⟨e, hread⟩, -⟩
  · simp only [uploadItem, Engine.upload, ioTry, request, runTask, Prog.bind_eq, Prog.call_bind,
      Prog.run_call, Prog.trace_call, handle_fs, FsCall.run, hread, Prog.ofExcept_ok,
      Prog.pure_bind, handle_drive, objects, Remote.send_of_no_faults hcalm, DriveCall.run]
      at hrun ⊢
    generalize hmade : w.remote.drive.create i.remoteParentId i.name
      (Engine.contentTypeFor i.name) (some b) = made at hrun ⊢
    obtain ⟨_ | f, d'⟩ := made
    · simp at hrun
    · refine ⟨b, f, d', rfl, hmade, ?_, by simp [DriveCall.object]⟩
      simpa [World.withDrive, eq_comm] using hrun
  · simp [uploadItem, Engine.upload, ioTry, runTask, FsCall.run, hread] at hrun

/-- The same file sent by the binary. -/
lemma run_copyItem {i : Engine.BulkUpload} {root : FileId} {b : Bytes} {f : DriveFile} {d' : Drive}
    (hsend : Sendable w.remote.drive root i) (hread : w.fs.readFile i.relPath = .ok b)
    (hmade : w.remote.drive.create i.remoteParentId i.name (Engine.contentTypeFor i.name) (some b) =
      (some f, d')) :
    (RcloneEngine.copyItem root i).run (RcloneCall.handle env rc) w = (.ok (), w.withDrive d') ∧
      (RcloneEngine.copyItem root i).trace (RcloneCall.handle env rc) (RcloneCall.objects env rc) w =
        [f.num] := by
  obtain ⟨hname, hfolder, hnone⟩ := hsend
  have hput : (Rclone.Command.put root i.relPath b).run rc env.md5 w.remote.drive =
      (.ok f.num, d') := by
    have hcreate : w.remote.drive.create (.id (w.remote.drive.resolve i.remoteParentId)) i.name
        (Engine.contentTypeFor i.name) (some b) = (some f, d') := hmade
    simp only [Rclone.Command.run, makeFolders_of_leadsTo hfolder, hname, hnone, Rclone.pick_nil,
      hcreate]
  simp only [RcloneEngine.copyItem, RcloneEngine.shared, RcloneEngine.run, ioTry, Prog.embed,
    Prog.bind_eq, Prog.call_bind, Prog.run_call, Prog.trace_call, RcloneCall.handle, handle_fs,
    FsCall.run, hread, RcloneCall.objects, objects, Prog.ofExcept_ok, Prog.pure_bind, hput,
    Rclone.Command.object]
  exact ⟨rfl, rfl⟩

/-- The initial upload, where the names lead to the folders. -/
lemma same_bulkUpload {items : List Engine.BulkUpload} {root : FileId}
    (hcalm : w.remote.faults = []) (h : Unambiguous w (.bulkUpload items root))
    (hanswer : (EngineCall.byHttp env w (.bulkUpload items root)).answer = .ok none) :
    SameOutcome w (.bulkUpload items root) (EngineCall.byHttp env w (.bulkUpload items root))
      (EngineCall.byRclone env w rc (.bulkUpload items root)) := by
  have hloop : RcloneEngine.bulkUpload items root =
      RcloneEngine.copy items (RcloneEngine.copyItem root) := by
    unfold RcloneEngine.bulkUpload
    split_ifs with hnil
    · rw [hnil]
      rfl
    · rfl
  refine same_loops rfl rfl rfl hanswer fun hok => ?_
  rw [hloop]
  refine @run_copy env w rc _ _ _ (fun l s => s.remote.faults = [] ∧
      (l.map fun i => (s.remote.drive.resolve i.remoteParentId, i.name)).Nodup ∧
        ∀ i ∈ l, Sendable s.remote.drive root i)
    (fun i l s s' ⟨hcalm, hnodup, hsend⟩ hrun => ?_) items ⟨hcalm, h⟩ hok
  obtain ⟨b, f, d', hread, hmade, rfl, htrace⟩ := run_uploadItem hcalm hrun
  obtain ⟨hcopy, hobjects⟩ := @run_copyItem env s rc _ _ _ _ _ (hsend i (.head _)) hread hmade
  rw [List.map_cons, List.nodup_cons] at hnodup
  have hresolve : ∀ id, d'.resolve id = s.remote.drive.resolve id := resolve_create hmade
  refine ⟨hcopy, hobjects.trans ?_, hcalm, ?_, fun j hj => ?_⟩
  · exact (congrArg ([·]) (create_eq_some hmade).2.2.1).trans htrace.symm
  · simpa only [World.withDrive, hresolve] using hnodup.2
  · obtain ⟨hname, hfolder, hnone⟩ := hsend j (.tail _ hj)
    have hother : (s.remote.drive.resolve j.remoteParentId, j.name) ≠
        (s.remote.drive.resolve i.remoteParentId, i.name) := fun heq =>
      hnodup.1 (List.mem_map.mpr ⟨j, hj, heq⟩)
    refine ⟨hname, ?_, ?_⟩
    · simpa only [World.withDrive, hresolve] using leadsTo_create hmade hfolder
    · simpa only [World.withDrive, hresolve] using
        (namesakes_create_other hmade hother).trans hnone

/-! ## All calls -/

/-- A call that both engines answer with the same requests. -/
lemma same_shared {c : EngineCall} (hc : c.rclone env = RcloneEngine.shared (c.http env))
    (hsource : c.source = none) :
    SameOutcome w c (c.byHttp env w) (c.byRclone env w rc) := by
  refine ⟨?_, ?_, fun rel id hrel => by rw [hsource] at hrel; cases hrel⟩
  · simp only [EngineCall.byRclone, hc, trace_shared, EngineCall.byHttp]
  · simp only [EngineCall.byRclone, hc, run_shared, EngineCall.byHttp]

end Outcomes

/-! ## Two files of one name -/

/-- The mapped folder `Sync` (2) holds two files `a.txt` (3 and 4). -/
def twinDrive : Drive where
  files :=
    ⟨⟨[⟨1, "My Drive", folderMime, none, [], false, true, true⟩,
       ⟨2, "Sync", folderMime, none, [1], false, true, true⟩,
       ⟨3, "a.txt", "text/plain", some [65], [2], false, true, true⟩,
       ⟨4, "a.txt", "text/plain", some [66], [2], false, true, true⟩],
      by simp⟩, 5, by simp⟩
  rootNum := 1
  feed := [(3, false), (4, false)]

end AirDrive
