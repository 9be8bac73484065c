import AirDrive.Daemon.Dispatcher
import AirDrive.Reconcile.Continuous

set_option relaxedAutoImplicit false
set_option autoImplicit false

/-!
# The startup scan

Replays the local changes made while the daemon was stopped: the local tree is compared with the
last-synced fingerprints and the differences are fed through `applyLocal` as watcher events. An
edit or a deletion is replayed only when the Drive object still has the last-synced MD5.

## Main definitions

* `AirDrive.StartupScan.remoteMatchesSynced`.
* `AirDrive.StartupScan.scanEntry`, `AirDrive.StartupScan.scanRow` — the two loops.
* `AirDrive.StartupScan.startupLocalScan`.
-/

namespace AirDrive.StartupScan

open Effect Continuous

/-- `is_ignored`: the file name of a path matches an ignore pattern. -/
def isIgnored (env : Env) (rel : RelPath) : Bool := env.ignored (rel.getLastD "")

/-- `remote_matches_synced`: the Drive object still has the row's MD5. A missing id, a missing
object and a failed request all count as no. -/
def remoteMatchesSynced (item : SyncItem) : Task Bool :=
  match item.remoteId with
  | none => pure false
  | some rid => do
    match ← (request (.getFile rid)).attempt with
    | .ok v => pure (v.md5 = item.md5)
    | .error _ => pure false

/-- The first loop: an entry of the local tree that is new or was edited. -/
def scanEntry (env : Env) (e : Fs.LocalEntry) : Task Unit := do
  if isIgnored env e.relativePath then pure ()
  else
    let existing ← sql (.getByRelativePath e.relativePath)
    if e.isDir then
      match existing with
      | none => applyLocal (.created e.relativePath)
      | some _ => pure ()
    else
      match existing with
      | some item =>
        if item.state = .skipped then pure ()
        else
          let (size, md5) ← Dispatcher.computeLocal env e.relativePath
          if item.md5 ≠ some md5 ∨ item.size ≠ some size then
            if ← remoteMatchesSynced item then applyLocal (.modified e.relativePath) else pure ()
          else pure ()
      | none => applyLocal (.created e.relativePath)

/-- The rows the second loop looks at: live files that are not on disk. -/
def vanished (env : Env) (entries : List Fs.LocalEntry) (item : SyncItem) : Bool :=
  item.kind = .file && item.state ≠ .skipped && item.trashedAt = none &&
    !((entries.filter fun e => !e.isDir).any fun e => e.relativePath = item.relativePath) &&
    !isIgnored env item.relativePath

/-- The second loop: a row whose file is gone. -/
def scanRow (env : Env) (entries : List Fs.LocalEntry) (item : SyncItem) : Task Unit := do
  if vanished env entries item then
    if ← remoteMatchesSynced item then applyLocal (.deleted item.relativePath) else pure ()
  else pure ()

/-- `startup_local_scan`. -/
def startupLocalScan (env : Env) : Task Unit := do
  let entries ← io (.walk [])
  .forEach entries (scanEntry env)
  let rows ← sql .listForMapping
  .forEach rows (scanRow env entries)

end AirDrive.StartupScan
