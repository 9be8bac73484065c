import AirDrive.World

set_option relaxedAutoImplicit false
set_option autoImplicit false

/-!
# The sync engine

The operations of `SyncEngine` as the in-process HTTP engine performs them, and the two
metadata helpers of Drive that combine several requests. A staged download is written to its
destination by one rename; the staging area itself is not part of the tree.

## Main definitions

* `AirDrive.Engine.upload`, `AirDrive.Engine.update`, `AirDrive.Engine.download`,
  `AirDrive.Engine.moveRemote`, `AirDrive.Engine.deleteRemote`,
  `AirDrive.Engine.createDirRemote` — one file or folder at a time.
* `AirDrive.Engine.bulkDownload`, `AirDrive.Engine.bulkUpload` — the initial transfer.
* `AirDrive.removeFromMyDrive`, `AirDrive.isSafeName`.
-/

namespace AirDrive

open Effect

/-- `is_safe_name`: the name can be one component of a local path. -/
def isSafeName (name : String) : Bool :=
  name ≠ "" && name ≠ "." && name ≠ ".." && !name.toList.contains '/' &&
    !name.toList.contains '\\' && !name.toList.contains '\x00'

/-- `remove_from_my_drive`: take the object out of all of the user's folders. -/
def removeFromMyDrive (id : FileId) : Task Unit := do
  let v ← request (.getFile id)
  if v.parents = [] then pure () else request (.removeParents id v.parents)

namespace Engine

/-- The text after the last dot of a name, or the whole name without one. -/
def lastDotPart (name : String) : String :=
  String.ofList (name.toList.reverse.takeWhile (· ≠ '.')).reverse

/-- `content_type_for`. -/
def contentTypeFor (name : String) : String :=
  match lastDotPart name with
  | "txt" => "text/plain"
  | "json" => "application/json"
  | "png" => "image/png"
  | "jpg" => "image/jpeg"
  | "jpeg" => "image/jpeg"
  | _ => "application/octet-stream"

/-- No content type is that of a folder. -/
lemma contentTypeFor_ne (name : String) : contentTypeFor name ≠ folderMime := by
  unfold contentTypeFor
  split <;> decide

/-- `upload`: create a Drive file from a local one. -/
def upload (rel : RelPath) (parent : FileId) (name : String) : Task FileResource := do
  let content ← ioTry (.readFile rel)
  request (.uploadMultipart parent name (contentTypeFor name) content)

/-- `update`: replace the content of a Drive file by a local one. -/
def update (rid : FileId) (rel : RelPath) : Task FileResource := do
  let content ← ioTry (.readFile rel)
  request (.patchMedia rid content)

/-- `download`: fetch a Drive file and promote it to its destination. -/
def download (rid : FileId) (rel : RelPath) : Task Unit := do
  let body ← request (.getMedia rid)
  ioTry (.createDirAll rel.parentDir)
  ioTry (.writeFile rel body)

/-- `move_remote`: give an object a new name and a new parent folder. -/
def moveRemote (rid newParent : FileId) (newName : String) : Task Unit := do
  let current ← request (.getFile rid)
  let needsMove := !current.parents.contains newParent
  request (.patchFile rid newName (if needsMove then some (newParent, current.parents) else none))

/-- `delete_remote` and `remove_dir_remote`: trash or delete, as configured. -/
def deleteRemote (env : Env) (rid : FileId) : Task Unit :=
  match env.deleteMode with
  | .trash => request (.trash rid)
  | .permanent => request (.deleteFile rid)

/-- `create_dir_remote`. -/
def createDirRemote (parent : FileId) (name : String) : Task FileResource :=
  request (.createFolder parent name)

/-- `BulkDownload`: one file to fetch. -/
structure BulkDownload where
  /-- Drive file id. -/
  remoteId : FileId
  /-- Destination. -/
  relPath : RelPath
deriving DecidableEq, Repr

/-- `BulkUpload`: one file to push. -/
structure BulkUpload where
  /-- Source. -/
  relPath : RelPath
  /-- Drive id of the destination folder. -/
  remoteParentId : FileId
  /-- File name on Drive. -/
  name : String
deriving DecidableEq, Repr

/-- `bulk_download`. -/
def bulkDownload (items : List BulkDownload) : Task Unit :=
  .forEach items fun item => download item.remoteId item.relPath

/-- `bulk_upload`. -/
def bulkUpload (items : List BulkUpload) : Task Unit :=
  .forEach items fun item => do
    let _ ← upload item.relPath item.remoteParentId item.name
    pure ()

end Engine

end AirDrive
