import AirDrive.Cli.Start

set_option relaxedAutoImplicit false
set_option autoImplicit false

/-!
# Runs of the system

The daemon works through jobs: watcher events, batches of remote changes, operations of the
queue, and the passes of a start. Between two jobs the user edits the local tree, other clients
edit Drive, requests start or stop to fail, time passes and the daemon is restarted. A job may be
stopped after any number of its calls, which is what a crash does.

## Main definitions

* `AirDrive.Job`, `AirDrive.Job.task` — the jobs and their programs.
* `AirDrive.Action`, `AirDrive.Action.perform` — a job, possibly cut short, or a change from
  outside.
* `AirDrive.Runs` — the states reached by actions that all meet a condition.
* `AirDrive.performAll` — a run given by its list of actions.
* `AirDrive.sampleDrive`, `AirDrive.sampleSynced` — a folder with one file, and the state in which
  it is in step.

## Main results

* `AirDrive.Runs.invariant` — what every action keeps holds in every state reached.
-/

namespace AirDrive

open Effect

/-- The jobs of the daemon and of the command line. -/
inductive Job
  /-- Handle a watcher event. -/
  | event (ev : WatchEvent)
  /-- Handle a batch of remote changes. -/
  | batch (b : RemoteBatch)
  /-- One iteration of the drain loop. -/
  | drain (root : FileId)
  /-- One round of the poller. -/
  | poll (fuel : ℕ) (root : FileId) (cache : PathCache)
  /-- The startup scan. -/
  | scan
  /-- The initial reconciliation. -/
  | initial (fuel : ℕ) (root : FileId)
  /-- The removal of expired tombstones. -/
  | housekeeping
  /-- The probe of the remote root. -/
  | ensureRoot (mayCreate : Bool) (m : FolderMapping)
  /-- The command `map`. -/
  | map (autoCreate confirmed : Bool) (localPath : String) (spec : RemoteSpec)

/-- Drop the result of a program. -/
def void {α : Type} (p : Task α) : Task Unit := p.bind fun _ => .pure ()

/-- The program of a job. -/
def Job.task (env : Env) : Job → Task Unit
  | .event ev => Continuous.applyLocal ev
  | .batch b => Consumer.applyBatch env b
  | .drain root => void (Dispatcher.drainOne env root)
  | .poll fuel root cache => void (Poller.tick fuel root cache)
  | .scan => StartupScan.startupLocalScan env
  | .initial fuel root => Initial.initial env fuel root
  | .housekeeping => Start.housekeeping
  | .ensureRoot mayCreate m => void (Start.ensureRemoteRoot mayCreate m)
  | .map autoCreate confirmed localPath spec => Map.map autoCreate confirmed localPath spec

/-- What happens in one step: at most `calls` calls of a job, or a change of everything but the
state database from outside. -/
inductive Action
  | job (j : Job) (calls : ℕ)
  | outside (w : World)

/-- The state after an action. -/
def Action.perform (env : Env) : Action → World → World
  | .job j calls, w => (j.task env).cut (handle env) calls w
  | .outside w', w => { w' with db := w.db }

/-- The states reached from `w₀` by actions that all meet the condition `ok` in the state before
them. -/
inductive Runs (env : Env) (ok : World → Action → Prop) (w₀ : World) : World → Prop
  | start : Runs env ok w₀ w₀
  | step {w : World} {a : Action} (run : Runs env ok w₀ w) (meets : ok w a) :
      Runs env ok w₀ (a.perform env w)

/-- The state after a list of actions. -/
def performAll (env : Env) (actions : List Action) (w : World) : World :=
  actions.foldl (fun w a => a.perform env w) w

/-- All actions of a list meet a condition, each in the state before it. -/
def MeetsAll (env : Env) (ok : World → Action → Prop) : List Action → World → Prop
  | [], _ => True
  | a :: actions, w => ok w a ∧ MeetsAll env ok actions (a.perform env w)

variable {env : Env} {ok : World → Action → Prop} {w₀ w : World}

/-- A list of actions that meet a condition extends a run. -/
lemma Runs.performAll {actions : List Action} (h : Runs env ok w₀ w)
    (meets : MeetsAll env ok actions w) : Runs env ok w₀ (performAll env actions w) := by
  induction actions generalizing w with
  | nil => exact h
  | cons a actions ih => exact ih (h.step meets.1) meets.2

/-- **The run rule**: what every action keeps holds in every state reached. -/
lemma Runs.invariant {I : World → Prop} (h₀ : I w₀)
    (hjob : ∀ w j calls, I w → ok w (.job j calls) →
      (j.task env).Safe (handle env) (.solo I) Prog.Any w)
    (houtside : ∀ w w', I w → ok w (.outside w') → I { w' with db := w.db })
    (h : Runs env ok w₀ w) : I w := by
  induction h with
  | start => exact h₀
  | @step w a _ meets ih =>
    cases a with
    | job j calls => exact (hjob w j calls ih meets).cut ih calls
    | outside w' => exact houtside w w' ih meets

/-- A run that meets a condition meets every weaker one. -/
lemma Runs.mono {ok' : World → Action → Prop} (hok : ∀ w a, ok w a → ok' w a)
    (h : Runs env ok w₀ w) : Runs env ok' w₀ w := by
  induction h with
  | start => exact .start
  | step _ meets ih => exact .step ih (hok _ _ meets)

/-- Along a list of actions, what every action that meets a condition does holds of all. -/
lemma MeetsAll.mono {ok' : World → Action → Prop} (hok : ∀ w a, ok w a → ok' w a)
    {actions : List Action} (h : MeetsAll env ok actions w) : MeetsAll env ok' actions w := by
  induction actions generalizing w with
  | nil => trivial
  | cons a actions ih => exact ⟨hok w a h.1, ih h.2⟩

/-- A condition along two lists of actions in turn. -/
lemma meetsAll_append {actions actions' : List Action} :
    MeetsAll env ok (actions ++ actions') w ↔
      MeetsAll env ok actions w ∧ MeetsAll env ok actions' (performAll env actions w) := by
  induction actions generalizing w with
  | nil => simp [MeetsAll, AirDrive.performAll]
  | cons a actions ih => simp only [List.cons_append, MeetsAll, ih, and_assoc]; rfl

/-! ## A small Drive -/

/-- My Drive (1) with the mapped folder `Sync` (2), which holds the file `a.txt` (3). -/
def sampleDrive (content : Bytes) : Drive where
  files :=
    ⟨⟨[⟨1, "My Drive", folderMime, none, [], false, true, true⟩,
       ⟨2, "Sync", folderMime, none, [1], false, true, true⟩,
       ⟨3, "a.txt", "text/plain", some content, [2], false, true, true⟩],
      by simp⟩, 4, by simp⟩
  rootNum := 1
  feed := [(3, false)]

/-- The change that describes `a.txt` with some content. -/
def sampleChange (content : Bytes) : RemoteChange :=
  ⟨.id 3, false,
    some ⟨.id 3, "a.txt", "text/plain", some content.length, some (Env.plain.md5 content), [.id 2],
      false⟩, some ["a.txt"]⟩

/-- `a.txt` has arrived with the content `A`. -/
def sampleSynced : World :=
  performAll .plain [.job (.batch ⟨[sampleChange [65]], 1⟩) 100, .job (.drain (.id 2)) 100]
    (World.fresh (sampleDrive [65]))

/-- The mapped folder `Sync` (2) holds the folder `d` (3) with the file `a.txt` (4). -/
def sampleNested : Drive where
  files :=
    ⟨⟨[⟨1, "My Drive", folderMime, none, [], false, true, true⟩,
       ⟨2, "Sync", folderMime, none, [1], false, true, true⟩,
       ⟨3, "d", folderMime, none, [2], false, true, true⟩,
       ⟨4, "a.txt", "text/plain", some [65], [3], false, true, true⟩],
      by simp⟩, 5, by simp⟩
  rootNum := 1
  feed := [(3, false), (4, false)]

/-- `d` and `d/a.txt` have arrived. -/
def sampleArrived : World :=
  performAll .plain
    [.job (.batch ⟨[⟨.id 3, false, some ⟨.id 3, "d", folderMime, none, none, [.id 2], false⟩,
        some ["d"]⟩,
      ⟨.id 4, false, some ⟨.id 4, "a.txt", "text/plain", some 1, some "A", [.id 3], false⟩,
        some ["d", "a.txt"]⟩], 2⟩) 100,
      .job (.drain (.id 2)) 100, .job (.drain (.id 2)) 100]
    (World.fresh sampleNested)

/-- A call on the local tree, by the user. -/
def byUser {β : Type} (c : FsCall β) (w : World) : World := { w with fs := (c.run w.fs).2 }

end AirDrive
