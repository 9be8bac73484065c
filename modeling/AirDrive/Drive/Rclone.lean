import AirDrive.Drive.Engine

set_option relaxedAutoImplicit false
set_option autoImplicit false

/-!
# The rclone engine

The other implementation of `SyncEngine`, which leaves the transfer of bytes to the rclone binary.
The binary finds an object by its path from the folder that it is given. Where several objects have
one name it takes any one of them, and a file that is there already it overwrites. The engine knows
objects by their ids, and looks up the name and the folder of an object before it names it to the
binary. All other operations are requests to Drive, as in the HTTP engine.

The binary is taken to be reliable, and to guess the content type of a file as the HTTP engine does.

## Main definitions

* `AirDrive.Picker`, `AirDrive.Rclone` — what the binary picks.
* `AirDrive.Rclone.Command` — what the engine runs the binary for.
* `AirDrive.RcloneEngine` — the engine.
* `AirDrive.EngineCall` — a call of `SyncEngine`, and how each engine answers it.
* `AirDrive.Substitutes` — both engines do the same.
-/

namespace AirDrive

open Effect

/-! ## The binary -/

/-- A choice among objects. -/
structure Picker where
  /-- The object that is taken. -/
  pick : List DriveFile → Option DriveFile
  /-- It is one of them. -/
  mem : ∀ l f, pick l = some f → f ∈ l
  /-- Where there are objects, one is taken. -/
  takes : ∀ l, l ≠ [] → pick l ≠ none

/-- How the binary chooses where a name does not tell. -/
structure Rclone where
  /-- In a transfer. -/
  transfer : Picker
  /-- In a listing. -/
  listing : Picker

namespace Rclone

/-- The live files of a name in a folder. -/
def namesakes (d : Drive) (n : ℕ) (name : String) : List DriveFile :=
  (d.children n).filter fun f => f.name = name && f.content.isSome

/-- The live folders of a name in a folder. -/
def subfolders (d : Drive) (n : ℕ) (name : String) : List DriveFile :=
  (d.children n).filter fun f => f.name = name && f.mimeType = folderMime

/-- The folder at a path from a folder. -/
def folderAt (picker : Picker) (d : Drive) : ℕ → RelPath → Option ℕ
  | n, [] => some n
  | n, x :: rest => (picker.pick (subfolders d n x)).bind fun g => folderAt picker d g.num rest

/-- The folder at a path from a folder, made where it is missing. -/
def makeFolders (picker : Picker) : Drive → ℕ → RelPath → Option ℕ × Drive
  | d, n, [] => (some n, d)
  | d, n, x :: rest =>
    match picker.pick (subfolders d n x) with
    | some g => makeFolders picker d g.num rest
    | none =>
      match d.create (.id n) x folderMime none with
      | (some g, d') => makeFolders picker d' g.num rest
      | (none, d') => (none, d')

/-- What the engine runs the binary for. With a file that is transferred the binary is taken to
answer the number of the object; the engine does not look at it. -/
inductive Command : Type → Type
  /-- `copyto`, or one file of `copy`, from the local tree to Drive. -/
  | put (root : FileId) (path : RelPath) (bytes : Bytes) : Command ℕ
  /-- The same from Drive. -/
  | fetch (root : FileId) (path : RelPath) : Command (ℕ × Bytes)
  /-- `lsjson`. -/
  | lsjson (root : FileId) (name : String) : Command FileResource

/-- The error of a command that does not find its object. -/
def notFound : Error := .rclone "directory not found"

/-- The outcome of a command and Drive after it. -/
def Command.run (rc : Rclone) (md5 : Bytes → String) :
    {α : Type} → Command α → Drive → Except Error α × Drive
  | _, put root path bytes, d =>
    match makeFolders rc.transfer d (d.resolve root) path.splitParent.1 with
    | (none, d) => (.error notFound, d)
    | (some n, d) =>
      match rc.transfer.pick (namesakes d n path.splitParent.2) with
      | some f =>
        (.ok f.num, d.change f.num (fun x => { x with content := some bytes }) fun _ => rfl)
      | none =>
        match d.create (.id n) path.splitParent.2 (Engine.contentTypeFor path.splitParent.2)
            (some bytes) with
        | (some f, d') => (.ok f.num, d')
        | (none, d') => (.error notFound, d')
  | _, fetch root path, d =>
    match folderAt rc.transfer d (d.resolve root) path.splitParent.1 with
    | none => (.error notFound, d)
    | some n =>
      match rc.transfer.pick (namesakes d n path.splitParent.2) with
      | some f => (.ok (f.num, f.content.getD []), d)
      | none => (.error notFound, d)
  | _, lsjson root name, d =>
    match rc.listing.pick (namesakes d (d.resolve root) name) with
    | some f => (.ok (Drive.resource md5 f), d)
    | none => (.error (.rclone "lsjson returned empty array after upload"), d)

end Rclone

/-! ## The engine -/

/-- The calls of the engine: those of the daemon, and the binary. -/
inductive RcloneCall : Type → Type 1
  | daemon {β : Type} (c : Call β) : RcloneCall β
  | command {α : Type} (c : Rclone.Command α) : RcloneCall (Except Error α)

/-- The meaning of the calls. -/
def RcloneCall.handle (env : Env) (rc : Rclone) : Handler RcloneCall World
  | _, .daemon c, w => AirDrive.handle env _ c w
  | _, .command c, w =>
    ((c.run rc env.md5 w.remote.drive).1,
      { w with remote := ⟨(c.run rc env.md5 w.remote.drive).2, w.remote.faults⟩ })

namespace RcloneEngine

/-- Programs of the engine. -/
abbrev Program := Prog RcloneCall Error

section Perform

variable {α : Type}

/-- What both engines do in the same way. -/
def shared (p : Task α) : Program α := p.embed fun _ => .daemon

/-- Run the binary. -/
def run (c : Rclone.Command α) : Program α := .call (.command c) .ofExcept

end Perform

/-- `copyto` of a local file. -/
def copyTo (rel : RelPath) (parent : FileId) (name : String) : Program Unit := do
  let content ← shared (ioTry (.readFile rel))
  let _ ← run (.put parent [name] content)
  pure ()

/-- `upload`. -/
def upload (rel : RelPath) (parent : FileId) (name : String) : Program FileResource := do
  copyTo rel parent name
  run (.lsjson parent name)

/-- The name and the folder of an object. -/
def lookup (rid : FileId) : Program (String × FileId) := do
  let v ← shared (request (.getFile rid))
  match v.parents with
  | [] => .fail (.drive "file has no `parents`")
  | parent :: _ => pure (v.name, parent)

/-- `update`. -/
def update (rid : FileId) (rel : RelPath) : Program FileResource := do
  let (name, parent) ← lookup rid
  copyTo rel parent name
  run (.lsjson parent name)

/-- Fetch an object by its path and promote it to its destination. -/
def copyFrom (root : FileId) (path rel : RelPath) : Program Unit := do
  let (_, body) ← run (.fetch root path)
  shared (ioTry (.createDirAll rel.parentDir))
  shared (ioTry (.writeFile rel body))

/-- `download`. -/
def download (rid : FileId) (rel : RelPath) : Program Unit := do
  let (name, parent) ← lookup rid
  copyFrom parent [name] rel

/-- `rclone copy`: every file of the list, whatever becomes of the others. -/
def copy {ι : Type} (items : List ι) (file : ι → Program Unit) : Program Unit := do
  let failed ← .foldM items (fun failed item => do
    match ← (file item).attempt with
    | .ok _ => pure failed
    | .error _ => pure true) false
  if failed then .fail (.rclone "errors while copying") else pure ()

/-- `bulk_download`. -/
def bulkDownload (items : List Engine.BulkDownload) (root : FileId) : Program Unit :=
  if items = [] then pure ()
  else copy items fun item => copyFrom root item.relPath item.relPath

/-- A local file that is sent to its path. -/
def copyItem (root : FileId) (item : Engine.BulkUpload) : Program Unit := do
  let content ← shared (ioTry (.readFile item.relPath))
  let _ ← run (.put root item.relPath content)
  pure ()

/-- `bulk_upload`. -/
def bulkUpload (items : List Engine.BulkUpload) (root : FileId) : Program Unit :=
  if items = [] then pure ()
  else copy items (copyItem root)

end RcloneEngine

/-! ## The calls of `SyncEngine` -/

/-- A call of `SyncEngine`. -/
inductive EngineCall
  | upload (rel : RelPath) (parent : FileId) (name : String)
  | update (rid : FileId) (rel : RelPath)
  | download (rid : FileId) (rel : RelPath)
  | moveRemote (rid newParent : FileId) (newName : String)
  | deleteRemote (rid : FileId)
  | createDirRemote (parent : FileId) (name : String)
  | removeDirRemote (rid : FileId)
  | bulkDownload (items : List Engine.BulkDownload) (root : FileId)
  | bulkUpload (items : List Engine.BulkUpload) (root : FileId)

namespace EngineCall

/-- How the HTTP engine answers: the id that it returns, if it returns one. -/
def http (env : Env) : EngineCall → Task (Option FileId)
  | upload rel parent name => do return some (← Engine.upload rel parent name).id
  | update rid rel => do return some (← Engine.update rid rel).id
  | download rid rel => do Engine.download rid rel; return none
  | moveRemote rid newParent newName => do Engine.moveRemote rid newParent newName; return none
  | deleteRemote rid => do Engine.deleteRemote env rid; return none
  | createDirRemote parent name => do return some (← Engine.createDirRemote parent name).id
  | removeDirRemote rid => do Engine.deleteRemote env rid; return none
  | bulkDownload items _ => do Engine.bulkDownload items; return none
  | bulkUpload items _ => do Engine.bulkUpload items; return none

/-- How the rclone engine answers. -/
def rclone (env : Env) : EngineCall → RcloneEngine.Program (Option FileId)
  | upload rel parent name => do return some (← RcloneEngine.upload rel parent name).id
  | update rid rel => do return some (← RcloneEngine.update rid rel).id
  | download rid rel => do RcloneEngine.download rid rel; return none
  | bulkDownload items root => do RcloneEngine.bulkDownload items root; return none
  | bulkUpload items root => do RcloneEngine.bulkUpload items root; return none
  | c => RcloneEngine.shared (c.http env)

/-- The local file whose bytes the call sends. -/
def source : EngineCall → Option RelPath
  | upload rel _ _ => some rel
  | update _ rel => some rel
  | _ => none

/-- A call for many files. -/
def bulk : EngineCall → Bool
  | bulkDownload _ _ => true
  | bulkUpload _ _ => true
  | _ => false

end EngineCall

/-! ## The objects of a call -/

/-- The object that a request reads the bytes of, writes or removes. -/
def DriveCall.object : {α : Type} → DriveCall α → Drive → Option ℕ
  | _, .getMedia id, d => some (d.resolve id)
  | _, .createFolder _ _, d => some d.files.next
  | _, .uploadMultipart _ _ _ _, d => some d.files.next
  | _, c, d => c.touches.map d.resolve

/-- The object of a request that goes well. -/
def objects (env : Env) : ∀ β, Call β → World → List ℕ
  | _, .drive c, w =>
    match (w.remote.send env.md5 c).1 with
    | .ok _ => (c.object w.remote.drive).toList
    | .error _ => []
  | _, _, _ => []

/-- The object of a command. -/
def Rclone.Command.object : {α : Type} → Rclone.Command α → α → List ℕ
  | _, .put _ _ _, n => [n]
  | _, .fetch _ _, (n, _) => [n]
  | _, .lsjson _ _, _ => []

/-- The objects of the calls of the rclone engine. -/
def RcloneCall.objects (env : Env) (rc : Rclone) : ∀ β, RcloneCall β → World → List ℕ
  | _, .daemon c, w => AirDrive.objects env _ c w
  | _, .command c, w =>
    match (c.run rc env.md5 w.remote.drive).1 with
    | .ok a => c.object a
    | .error _ => []

/-- What a call does: the id that it returns, the objects that it reads or writes, and the state
after it. -/
structure Outcome where
  answer : Except Error (Option FileId)
  objects : List ℕ
  after : World

namespace EngineCall

variable (env : Env) (w : World)

/-- What the HTTP engine does. -/
def byHttp (c : EngineCall) : Outcome where
  answer := (runTask env (c.http env) w).1
  objects := (c.http env).trace (handle env) (AirDrive.objects env) w
  after := (runTask env (c.http env) w).2

/-- What the rclone engine does. -/
def byRclone (rc : Rclone) (c : EngineCall) : Outcome where
  answer := ((c.rclone env).run (RcloneCall.handle env rc) w).1
  objects := (c.rclone env).trace (RcloneCall.handle env rc) (RcloneCall.objects env rc) w
  after := ((c.rclone env).run (RcloneCall.handle env rc) w).2

end EngineCall

/-- The outcomes are the same, but for the text of an error: the same objects, the same id, and an
object whose id is returned after bytes were sent holds them. -/
structure SameOutcome (w : World) (c : EngineCall) (o o' : Outcome) : Prop where
  objects : o'.objects = o.objects
  answer : o'.answer.toOption = o.answer.toOption
  holds : ∀ rel id, c.source = some rel → o'.answer = .ok (some id) → ∃ f b,
    o'.after.remote.drive.file id = some f ∧ w.fs.node rel = some (.file b) ∧ f.content = some b

/-- **The engines are substitutable** for a call: whatever the binary picks, both do the same. A
transfer of many files is compared where the HTTP engine completes it. -/
def Substitutes (env : Env) (w : World) (c : EngineCall) : Prop :=
  (c.bulk = true → (c.byHttp env w).answer = .ok none) →
    ∀ rc, SameOutcome w c (c.byHttp env w) (c.byRclone env w rc)

end AirDrive
