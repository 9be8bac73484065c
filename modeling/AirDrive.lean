import AirDrive.Effect.Interference
import AirDrive.State.Db
import AirDrive.Local.Tree
import AirDrive.Local.Fs
import AirDrive.Drive.Service
import AirDrive.World
import AirDrive.Drive.Engine
import AirDrive.Reconcile.Conflict
import AirDrive.Reconcile.Openings
import AirDrive.Reconcile.FollowWalk
import AirDrive.Reconcile.Shortcut
import AirDrive.Reconcile.Continuous
import AirDrive.Daemon.Dispatcher
import AirDrive.Reconcile.StartupScan
import AirDrive.Drive.Changes
import AirDrive.Reconcile.Initial
import AirDrive.Cli.Start
import AirDrive.Data.Climb
import AirDrive.Data.Coalesce
import AirDrive.Data.Dfs
import AirDrive.Data.Lexical
import AirDrive.Drive.Scope
import AirDrive.Drive.Delivery
import AirDrive.System.OneWay
import AirDrive.Watch.Watcher
import AirDrive.Daemon.Outcomes
import AirDrive.System.ConflictEnd
import AirDrive.System.Drain
import AirDrive.System.Occupied
import AirDrive.System.Footprint
import AirDrive.System.Untouched
import AirDrive.System.VanishedRoot
import AirDrive.Drive.PathCache
import AirDrive.Drive.Pages
import AirDrive.System.Echo
import AirDrive.System.Turns
import AirDrive.System.Cursor
import AirDrive.System.Restore
import AirDrive.Daemon.Places
import AirDrive.System.Recreate
import AirDrive.System.Offline
import AirDrive.System.CatchUp
import AirDrive.System.Fetch
import AirDrive.System.Poison
import AirDrive.Daemon.Merging
import AirDrive.Daemon.Lock
import AirDrive.Daemon.Loop
import AirDrive.System.StopFlags
import AirDrive.System.Blocked
import AirDrive.System.ScopeExit
import AirDrive.System.LocalWork
import AirDrive.Drive.Http
import AirDrive.System.CreateOnce
import AirDrive.System.Kinds
import AirDrive.System.KindSafety
import AirDrive.Local.Merge
import AirDrive.Drive.Subtree
import AirDrive.Drive.Distinct
import AirDrive.System.FolderRename
import AirDrive.System.Substitution
import AirDrive.Watch.Debounce
import AirDrive.Watch.Renames
import AirDrive.System.Binding
import AirDrive.System.InitialPlaces
import AirDrive.System.InitialMirror
import AirDrive.System.OneRow
import AirDrive.System.RowTree
import AirDrive.System.Orphans
import AirDrive.Drive.Containment
import AirDrive.Config.Toml
import AirDrive.Config.Migrate
import AirDrive.Config.Lossless
import AirDrive.Data.Sql
import AirDrive.State.Schema
import AirDrive.State.Deletion
import AirDrive.State.Migration
import AirDrive.System.FileRename
import AirDrive.System.Fingerprints
import AirDrive.System.Landing
import AirDrive.System.Admission
import AirDrive.System.Staging
import AirDrive.System.Calls
import AirDrive.System.IgnoreRules
import AirDrive.Daemon.FileStatus
import AirDrive.Daemon.ControlSocket
import AirDrive.System.Emblems
import AirDrive.Data.Lines
import AirDrive.Data.Like
import AirDrive.State.PathText
import AirDrive.State.Subtree
import AirDrive.State.ChildStates
import AirDrive.System.BulkList
import AirDrive.System.NativeRestore
import AirDrive.System.ChildrenFirst
import AirDrive.System.EarlyDelete
import AirDrive.System.Retries
import AirDrive.System.RefusedDelete
import AirDrive.System.RemoteFolder
import AirDrive.Drive.RateLimiter
import AirDrive.Data.Multipart
import AirDrive.Data.Refcount
import AirDrive.Daemon.InFlight
import AirDrive.Reconcile.ConflictName
import AirDrive.Drive.RelatedBody
import AirDrive.System.Retries
import AirDrive.Local.Disk
import AirDrive.Reconcile.Collect
import AirDrive.Daemon.Tasks
import AirDrive.Cli.Map
import AirDrive.State.Queue
