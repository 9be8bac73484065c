import AirDrive.Daemon.Outcomes
import AirDrive.Drive.Place

set_option relaxedAutoImplicit false
set_option autoImplicit false

/-!
# The places of the objects of the daemon

Making the remote folders of a path leads to a folder at the path, and a first upload puts an
object there.

## Main definitions

* `AirDrive.Outcomes.Placed` — a row that is bound to an object at its path.

## Main results

* `AirDrive.Outcomes.ends_ensureSegments_at` — the remote folder of a path lies at the path.
* `AirDrive.Outcomes.ends_executeUpload_at` — so does the object of a first upload.
-/

namespace AirDrive

open Effect

namespace Outcomes

variable {env : Env} {w : World}

/-- A folder that was made lies at the path of its parent and its name. -/
lemma folderAt_createFolder {md5 : Bytes → String} {r : Remote} {root parent : FileId}
    {rel : RelPath} {name : String} {f : FileResource}
    (h : (r.send md5 (.createFolder parent name)).1 = .ok f)
    (hparent : FolderAt r.drive root rel (r.drive.resolve parent)) :
    FolderAt (r.send md5 (.createFolder parent name)).2.drive root (rel ++ [name])
      ((r.send md5 (.createFolder parent name)).2.drive.resolve f.id) := by
  have hext : r.drive.Extends (r.send md5 (.createFolder parent name)).2.drive :=
    Remote.extends_send rfl
  have hparent' := hext.folderAt hparent
  have hrun := Remote.send_ok h
  rw [Remote.send_ok_drive h] at hparent' ⊢
  simp only [DriveCall.run] at hrun hparent' ⊢
  rcases hmade : r.drive.create parent name folderMime none with ⟨o, d'⟩
  rw [hmade] at hrun hparent'
  cases o with
  | none => simp at hrun
  | some g =>
    obtain ⟨hnew, rfl, hfolder, -⟩ := Drive.made_of_create hmade
    obtain rfl := Except.ok.inj hrun
    refine .child hparent' ((hnew.mem g).mpr (.inr rfl)) ?_ hnew.live hfolder
    rw [hnew.parents]
    exact List.mem_singleton_self _

/-- An object that was uploaded lies in its folder. -/
lemma objectAt_uploadMultipart {md5 : Bytes → String} {r : Remote} {root parent : FileId}
    {rel : RelPath} {mime : String} {b : Bytes} {rf : FileResource}
    (h : (r.send md5 (.uploadMultipart parent (rel.getLastD "") mime b)).1 = .ok rf)
    (hparent : FolderAt r.drive root rel.dropLast (r.drive.resolve parent)) :
    ∃ f, rf.id = .id f.num ∧ f.content = some b ∧
      ObjectAt (r.send md5 (.uploadMultipart parent (rel.getLastD "") mime b)).2.drive root rel
        f := by
  have hext : r.drive.Extends
      (r.send md5 (.uploadMultipart parent (rel.getLastD "") mime b)).2.drive :=
    Remote.extends_send rfl
  have hparent' := hext.folderAt hparent
  have hrun := Remote.send_ok h
  rw [Remote.send_ok_drive h] at hparent' ⊢
  simp only [DriveCall.run] at hrun hparent' ⊢
  rcases hmade : r.drive.create parent (rel.getLastD "") mime (some b) with ⟨o, d'⟩
  rw [hmade] at hrun hparent'
  cases o with
  | none => simp at hrun
  | some g =>
    obtain ⟨hnew, hname, -, hcontent⟩ := Drive.made_of_create hmade
    obtain rfl := Except.ok.inj hrun
    refine ⟨g, rfl, hcontent, (hnew.mem g).mpr (.inr rfl), ⟨_, hparent', ?_⟩, hname, hnew.live⟩
    rw [hnew.parents]
    exact List.mem_singleton_self _

/-- The folder of a name below a folder lies at the path of the folder and that name. -/
lemma ends_childFolder_at {root parent : FileId} {rel : RelPath} {name : String}
    (hparent : FolderAt w.remote.drive root rel (w.remote.drive.resolve parent)) :
    Ends env (fun x w' => ∀ id, x = .ok id →
      FolderAt w'.remote.drive root (rel ++ [name]) (w'.remote.drive.resolve id))
      (Dispatcher.childFolder parent name) w := by
  simp only [Ends, Dispatcher.childFolder, Prog.bind_eq, Prog.safe_bind, safe_request, true_and,
    forall_const]
  have hlist : w.remote.drive.Extends (w.remote.send env.md5 (.listChildren parent)).2.drive :=
    Remote.extends_send rfl
  cases hl : (w.remote.send env.md5 (.listChildren parent)).1 with
  | error e => simp
  | ok children =>
    simp only
    cases hfind : children.find? fun c => c.isFolder && c.name = name with
    | some f =>
      rintro id ⟨⟩
      have hsend := Remote.send_ok hl
      obtain rfl := Except.ok.inj hsend
      obtain ⟨g, hg, rfl⟩ := List.mem_map.mp (List.mem_of_find?_eq_some hfind)
      obtain ⟨hmem, hin⟩ := List.mem_filter.mp hg
      obtain ⟨hfolder, hname⟩ : g.mimeType = folderMime ∧ g.name = name := by
        have hboth := List.find?_some hfind
        rw [Bool.and_eq_true, FileResource.isFolder] at hboth
        exact ⟨of_decide_eq_true hboth.1, of_decide_eq_true hboth.2⟩
      obtain ⟨hpar, hlive⟩ : w.remote.drive.resolve parent ∈ g.parents ∧ g.trashed = false := by
        simpa using hin
      rw [← hname]
      exact hlist.folderAt (.child hparent hmem hpar hlive hfolder)
    | none =>
      simp only [Engine.createDirRemote, Prog.safe_bind, safe_request, true_and, forall_const]
      split
      · next created hmade =>
        rintro id ⟨⟩
        refine folderAt_createFolder hmade ?_
        rw [hlist.resolve]
        exact hlist.folderAt hparent
      · simp

/-- **The remote folder of a path** lies at the path. -/
lemma ends_ensureSegments_at {root current : FileId} {cumulative : RelPath}
    {segments : List String} {dir : RelPath} (hdir : cumulative ++ segments <+: dir)
    (hcurrent : FolderAt w.remote.drive root cumulative (w.remote.drive.resolve current)) :
    Ends env (fun x w' => Aside dir w w' ∧ ∀ id, x = .ok id →
      FolderAt w'.remote.drive root (cumulative ++ segments) (w'.remote.drive.resolve id))
      (Dispatcher.ensureSegments current cumulative segments) w := by
  induction segments generalizing current cumulative w with
  | nil =>
    refine ⟨.refl _ _, ?_⟩
    rintro id ⟨⟩
    simpa using hcurrent
  | cons seg rest ih =>
    simp only [Dispatcher.ensureSegments, Prog.bind_eq]
    refine Prog.Safe.bind (Ends.and (ends_childFolder dir) (ends_childFolder_at hcurrent))
      ?_ fun e w₁ h' => ⟨h'.1.1, fun _ he => by cases he⟩
    rintro next w₁ ⟨⟨h₁, _⟩, hnext⟩
    have hpre : cumulative ++ [seg] <+: dir :=
      (List.prefix_append_right_inj _ |>.mpr (by simp : [seg] <+: seg :: rest)).trans hdir
    refine Prog.Safe.bind (ends_persistDir hpre) ?_
      fun e w₂ h' => by cases h'.2
    rintro _ w₂ ⟨h₂, _⟩
    have hat : FolderAt w₂.remote.drive root (cumulative ++ [seg])
        (w₂.remote.drive.resolve next) := by
      rw [h₂.drive.resolve]
      exact h₂.drive.folderAt (hnext next rfl)
    refine (ih (by simpa using hdir) hat).mono fun x w₃ h' => ⟨(h₁.trans h₂).trans h'.1, ?_⟩
    simpa using h'.2

/-- The row `s` is bound to a live object at its path, which has the bytes of the local file. -/
structure Placed (env : Env) (root : FileId) (s : SyncItem) (b : Bytes) (w : World) : Prop where
  /-- The row has the fingerprint of the bytes. -/
  print : s.md5 = some (env.md5 b) ∧ s.size = some b.length
  /-- The object of the row lies at its path and holds the bytes. -/
  object : ∃ f, s.remoteId = some (.id f.num) ∧ f.content = some b ∧
    ObjectAt w.remote.drive root s.relativePath f

/-- A row after its first upload. -/
def uploaded (env : Env) (s : SyncItem) (b : Bytes) (rid : FileId) : SyncItem :=
  { s with remoteId := some rid, size := some b.length, md5 := some (env.md5 b) }

/-- **A first upload** puts the object at the path of the file and binds the row to it, or leaves
the row as it is. -/
lemma ends_executeUpload_at {root : FileId} {s : SyncItem} {b : Bytes} (hrow : s ∈ w.db.items)
    (hbytes : w.fs.node s.relativePath = some (.file b)) (hmd5 : s.md5 = none)
    (hremote : s.remoteId = none) :
    Ends env (fun x w' => w'.fs = w.fs ∧ w'.db.ops = w.db.ops ∧ match x with
      | .ok _ => ∃ rid, uploaded env s b rid ∈ w'.db.items ∧
          Placed env root (uploaded env s b rid) b w'
      | .error _ => s ∈ w'.db.items)
      (Dispatcher.executeUpload env root s) w := by
  have hne : s.relativePath ≠ [] := by
    intro hnil
    rw [hnil, Fs.node_nil] at hbytes
    cases hbytes
  have haside : ¬s.relativePath <+: s.relativePath.splitParent.1 := by
    intro hpre
    have hlen := hpre.length_le
    have hpos := List.length_pos_iff.mpr hne
    simp only [RelPath.splitParent, List.length_dropLast] at hlen
    omega
  have hisFile : w.fs.isFile s.relativePath = true := Fs.isFile_iff.mpr ⟨b, hbytes⟩
  have hread : w.fs.readFile s.relativePath = .ok b := by
    rw [Fs.readFile, hbytes]
  simp only [Ends, Dispatcher.executeUpload, Prog.bind_eq, Prog.safe_bind, safe_io, FsCall.run,
    hisFile, if_true, Dispatcher.computeLocal, safe_ioTry, hread, Prog.pure_eq, Prog.safe_pure,
    hmd5, hremote, true_and, forall_const]
  rw [if_neg (by simp)]
  refine Prog.Safe.bind (ends_ensureSegments_at (List.prefix_refl _) .root)
    ?_
    fun err w₁ h' => ⟨h'.1.fs, h'.1.ops, (h'.1.rows s haside).mpr hrow⟩
  rintro parent w₁ ⟨h₁, hparent⟩
  have hread₁ : w₁.fs.readFile s.relativePath = .ok b := by
    rw [h₁.fs, hread]
  have hrow₁ : s ∈ w₁.db.items := (h₁.rows s haside).mpr hrow
  simp only [Engine.upload, Prog.bind_eq, Prog.safe_bind, safe_ioTry, FsCall.run, hread₁,
    safe_request, true_and, forall_const]
  split
  · next rf hrf =>
    obtain ⟨f, hid, hcontent, hf⟩ := objectAt_uploadMultipart hrf (hparent parent rfl)
    simp only [safe_withMark, Prog.safe_bind, safe_sql, true_and, forall_const]
    refine ⟨h₁.fs, (DbCall.ops_run_eq rfl rfl).trans ((DbCall.ops_run_eq rfl rfl).trans h₁.ops),
      rf.id, ?_, ⟨rfl, rfl⟩, f, congrArg some hid, hcontent, hf⟩
    have hbound : { s with remoteId := some rf.id } ∈
        (DbCall.run (.setRemoteId s.id rf.id) w₁.db).2.items :=
      (@ItemTable.mem_modify _ _ (fun r : SyncItem => { r with remoteId := some rf.id })
        (fun _ => rfl) (fun _ => rfl) _).mpr (.inr ⟨s, hrow₁, rfl, rfl⟩)
    exact (@ItemTable.mem_modify _ _ (fun r : SyncItem => { r with
      size := some b.length, md5 := some (env.md5 b) }) (fun _ => rfl) (fun _ => rfl) _).mpr
      (.inr ⟨_, hbound, rfl, rfl⟩)
  · exact ⟨h₁.fs, h₁.ops, hrow₁⟩

end Outcomes

end AirDrive
