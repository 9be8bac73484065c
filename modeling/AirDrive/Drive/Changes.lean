import AirDrive.Drive.Engine
import AirDrive.Reconcile.Continuous

set_option relaxedAutoImplicit false
set_option autoImplicit false

/-!
# The change poller

Fetches the change feed since the stored cursor, keeps the changes of objects below the mapped
folder, and hands them to the consumer as one batch. Whether an object is below the mapped
folder, and at which path, is found by walking up its parents until a known folder is reached.

## Main definitions

* `AirDrive.PathCache` — the folders known to be below the mapped folder, with their paths.
* `AirDrive.Poller.walkUp`, `AirDrive.Poller.assemblePath`, `AirDrive.Poller.descendantPath`.
* `AirDrive.Poller.processChange`, `AirDrive.Poller.processChanges`, `AirDrive.Poller.tick` — one
  change, a list of changes, one round.
* `AirDrive.Consumer.applyBatch` — the consumer, which advances the cursor.

## Design

The walk up the parents has no bound in the source; here it takes the number of folders it may
visit, and a walk that visits more of them gives up like one that runs off the top.
-/

namespace AirDrive

open Effect Data

/-- Drive folder ids with their paths below the mapped folder. -/
abbrev PathCache := FinMap FileId RelPath

/-- One drained delta: the changes in scope and the cursor to store once they are applied. -/
structure RemoteBatch where
  /-- The changes in scope, in feed order. -/
  changes : List RemoteChange
  /-- The cursor after them. -/
  newToken : PageToken
deriving DecidableEq, Repr

namespace Poller

/-- The loop of `descendant_path`: from a folder up its first parents to a folder of the cache.
The answer is the path of that folder and the folders passed on the way, with their names. -/
def walkUp (cache : PathCache) : ℕ → FileId → List (FileId × String) →
    Task (Option (RelPath × List (FileId × String)))
  | 0, _, _ => pure none
  | fuel + 1, current, chain =>
    match cache.val current with
    | some path => pure (some (path, chain))
    | none => do
      match ← (request (.getFile current)).attempt with
      | .error _ => pure none
      | .ok raw =>
        match raw.parents with
        | [] => pure none
        | next :: _ => walkUp cache fuel next (chain ++ [(current, raw.name)])

/-- The cache with the folders of a chain below a cached path, outermost first. -/
def cacheChain (cache : PathCache) (path : RelPath) : List (FileId × String) → PathCache
  | [] => cache
  | (id, name) :: rest => cacheChain (cache.set id (path ++ [name])) (path ++ [name]) rest

/-- `assemble_path`: the path of a file below a cached folder, if all names on the way are safe;
the folders on the way enter the cache. -/
def assemblePath (cache : PathCache) (path : RelPath) (chain : List (FileId × String))
    (fileName : String) : Option RelPath × PathCache :=
  if !isSafeName fileName || chain.any fun c => !isSafeName c.2 then (none, cache)
  else
    (some (path ++ chain.reverse.map Prod.snd ++ [fileName]),
      cacheChain cache path chain.reverse)

/-- `descendant_path`: the path of an object below the mapped folder. -/
def descendantPath (fuel : ℕ) (cache : PathCache) (file : FileResource) :
    Task (Option RelPath × PathCache) :=
  match file.parents with
  | [] => pure (none, cache)
  | first :: _ => do
    match ← walkUp cache fuel first [] with
    | none => pure (none, cache)
    | some (path, chain) => pure (assemblePath cache path chain file.name)

/-- One entry of the feed: the change to forward, if it is in scope. -/
def processChange (fuel : ℕ) (root : FileId) (cache : PathCache) (c : RawChange) :
    Task (Option RemoteChange × PathCache) := do
  if c.removed ∧ c.fileId = root then
    -- the mapped folder itself is gone
    sql (.setBlocked .remote)
    pure (none, cache)
  else if c.removed then pure (some ⟨c.fileId, true, c.file, none⟩, cache)
  else
    match c.file with
    | none => pure (none, cache)
    | some f =>
      match ← descendantPath fuel cache f with
      | (none, cache) => pure (none, cache)
      | (some rel, cache) =>
        pure (some ⟨c.fileId, false, some f, some rel⟩,
          if f.isFolder then cache.set f.id rel else cache)

/-- One more entry of the feed, with the changes kept so far. -/
def processNext (fuel : ℕ) (root : FileId) (acc : List RemoteChange × PathCache)
    (c : RawChange) : Task (List RemoteChange × PathCache) := do
  let (change, cache) ← processChange fuel root acc.2 c
  pure (acc.1 ++ change.toList, cache)

/-- The entries of a delta, in feed order. -/
def processChanges (fuel : ℕ) (root : FileId) (cache : PathCache) (changes : List RawChange) :
    Task (List RemoteChange × PathCache) :=
  .foldM changes (processNext fuel root) ([], cache)

/-- The cache of a poller that starts: only the mapped folder. -/
def seedCache (root : FileId) : PathCache := FinMap.set Table.empty root []

/-- The block that a failed poll records. -/
def pollFailure : Error → BlockedKind
  | .oauth _ => .auth
  | _ => .transient

/-- One round of the poller: the batch it sends, if the feed could be read. -/
def tick (fuel : ℕ) (root : FileId) (cache : PathCache) :
    Task (Option RemoteBatch × PathCache) := do
  match ← sql .getCursor with
  | none => pure (none, cache)
  | some token =>
    match ← (request (.changesSince token)).attempt with
    | .error e =>
      sql (.setBlocked (pollFailure e))
      pure (none, cache)
    | .ok (changes, newToken) =>
      let _ ← sql .clearIfTransient
      let (batch, cache) ← processChanges fuel root cache changes
      pure (some ⟨batch, newToken⟩, cache)

end Poller

namespace Consumer

/-- Apply one change of a batch; the answer says whether all of them went well so far. -/
def applyNext (env : Env) (allApplied : Bool) (c : RemoteChange) : Task Bool := do
  match ← (Continuous.applyRemote env c).attempt with
  | .ok () => pure allApplied
  | .error _ => pure false

/-- The consumer of batches: the cursor advances only when every change was applied. -/
def applyBatch (env : Env) (batch : RemoteBatch) : Task Unit := do
  let allApplied ← .foldM batch.changes (applyNext env) true
  if allApplied then sql (.setCursor batch.newToken) else pure ()

end Consumer

end AirDrive
