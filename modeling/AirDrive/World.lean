import AirDrive.Drive.Service
import AirDrive.Effect.Interference
import AirDrive.Local.Fs

set_option relaxedAutoImplicit false
set_option autoImplicit false

/-!
# The world of the daemon

Everything the daemon's code reads and writes: the state database, the local tree, Drive behind
a connection that can fail, the registry of operations in flight and the clock. The code of the
source is a program over the calls below; each call is one atomic action on the world.

## Main definitions

* `AirDrive.Env` — the configuration and the functions that stand for code outside the source.
* `AirDrive.World` — the state.
* `AirDrive.Call`, `AirDrive.handle` — the calls and their meaning.
* `AirDrive.Task` — programs of the daemon.
* `AirDrive.withMark` — the in-flight guard of the source, from `mark` to its drop.
* `AirDrive.Ends` — what holds at the end of a program.

## Main results

* `AirDrive.handle_db`, `AirDrive.handle_fs`, `AirDrive.handle_drive` — which part of the world
  a call reads and writes.
-/

namespace AirDrive

open Effect

/-- `RemoteDeleteMode`: how a propagated deletion removes the remote object. -/
inductive RemoteDeleteMode
  | trash
  | permanent
deriving DecidableEq, Repr

/-- What the code is run with: the configuration, and the functions of other crates. -/
structure Env where
  /-- Hex MD5 of the contents of a file. -/
  md5 : Bytes → String
  /-- Whether a file name matches the compiled `watch.ignore_patterns`. -/
  ignored : String → Bool
  /-- `[sync].remote_deletes`. -/
  deleteMode : RemoteDeleteMode

/-- The state the daemon works on. -/
structure World where
  /-- The state database. -/
  db : Db
  /-- The tree under the watched folder. -/
  fs : Fs
  /-- Drive and the connection to it. -/
  remote : Remote
  /-- `InFlightOps`: the ids held by guards, one entry for each guard. -/
  inFlight : List FileId
  /-- Unix time in seconds. -/
  now : ℕ
  /-- The random numbers still to be drawn for back-offs. -/
  jitters : List ℤ

/-- An environment in which the digest of a file is its text and no file is ignored. -/
def Env.plain : Env where
  md5 b := String.ofList (b.map fun x => Char.ofNat x.toNat)
  ignored _ := false
  deleteMode := .trash

/-- The world before the first start, with a service that answers all requests. -/
def World.fresh (d : Drive) : World := ⟨Db.empty, Fs.empty, ⟨d, []⟩, [], 0, []⟩

/-- The calls of the daemon. -/
inductive Call : Type → Type 1
  /-- A statement of the state database. -/
  | db {β : Type} (c : DbCall β) : Call β
  /-- A filesystem call. -/
  | fs {β : Type} (c : FsCall β) : Call β
  /-- A request to Drive. -/
  | drive {α : Type} (c : DriveCall α) : Call (Except Error α)
  /-- `unix_now`. -/
  | clock : Call ℕ
  /-- `rand`: a number of absolute value at most `range`. -/
  | random (range : ℕ) : Call ℤ
  /-- `InFlightOps::mark`. -/
  | mark (id : FileId) : Call Unit
  /-- Drop of the guard that `mark` returned. -/
  | unmark (id : FileId) : Call Unit
  /-- `InFlightOps::contains`. -/
  | inFlight (id : FileId) : Call Bool

/-- Bring a drawn number into the range that was asked for. -/
def clampTo (range : ℕ) (j : ℤ) : ℤ := max (-(range : ℤ)) (min range j)

/-- The meaning of the calls. -/
def handle (env : Env) : Handler Call World
  | _, .db c, w => ((c.run w.db).1, { w with db := (c.run w.db).2 })
  | _, .fs c, w => ((c.run w.fs).1, { w with fs := (c.run w.fs).2 })
  | _, .drive c, w =>
    ((w.remote.send env.md5 c).1, { w with remote := (w.remote.send env.md5 c).2 })
  | _, .clock, w => (w.now, w)
  | _, .random range, w =>
    (clampTo range (w.jitters.headD 0), { w with jitters := w.jitters.tail })
  | _, .mark id, w => ((), { w with inFlight := id :: w.inFlight })
  | _, .unmark id, w => ((), { w with inFlight := w.inFlight.erase id })
  | _, .inFlight id, w => (w.inFlight.contains id, w)

section Handle

variable {env : Env} {β : Type}

@[simp] lemma handle_db (c : DbCall β) (w : World) :
    handle env β (.db c) w = ((c.run w.db).1, { w with db := (c.run w.db).2 }) := rfl

@[simp] lemma handle_fs (c : FsCall β) (w : World) :
    handle env β (.fs c) w = ((c.run w.fs).1, { w with fs := (c.run w.fs).2 }) := rfl

@[simp] lemma handle_drive (c : DriveCall β) (w : World) :
    handle env _ (.drive c) w =
      ((w.remote.send env.md5 c).1, { w with remote := (w.remote.send env.md5 c).2 }) := rfl

@[simp] lemma handle_clock (w : World) : handle env ℕ .clock w = (w.now, w) := rfl

@[simp] lemma handle_random (range : ℕ) (w : World) :
    handle env ℤ (.random range) w =
      (clampTo range (w.jitters.headD 0), { w with jitters := w.jitters.tail }) := rfl

@[simp] lemma handle_mark (id : FileId) (w : World) :
    handle env Unit (.mark id) w = ((), { w with inFlight := id :: w.inFlight }) := rfl

@[simp] lemma handle_unmark (id : FileId) (w : World) :
    handle env Unit (.unmark id) w = ((), { w with inFlight := w.inFlight.erase id }) := rfl

@[simp] lemma handle_inFlight (id : FileId) (w : World) :
    handle env Bool (.inFlight id) w = (w.inFlight.contains id, w) := rfl

end Handle

/-! ## Programs of the daemon -/

/-- A program of the daemon. -/
abbrev Task := Prog Call Error

section Perform

variable {α : Type}

/-- A statement that does not fail. -/
def sql (c : DbCall α) : Task α := .lift (.db c)

/-- A statement followed by `?`. -/
def sqlTry (c : DbCall (Except Error α)) : Task α := .call (.db c) .ofExcept

/-- A filesystem call whose outcome is looked at. -/
def io (c : FsCall α) : Task α := .lift (.fs c)

/-- A filesystem call followed by `?`. -/
def ioTry (c : FsCall (Except Error α)) : Task α := .call (.fs c) .ofExcept

/-- A request followed by `?`. -/
def request (c : DriveCall α) : Task α := .call (.drive c) .ofExcept

/-- `unix_now`. -/
def unixNow : Task ℕ := .lift .clock

/-- Run a program while an id is marked in flight; the guard is dropped whatever the outcome. -/
def withMark (id : FileId) (body : Task α) : Task α := do
  .lift (.mark id)
  let outcome ← body.attempt
  .lift (.unmark id)
  .ofExcept outcome

end Perform

/-! ## Safety of the building blocks -/

section Safe

variable {α : Type} {env : Env} {I : World → Prop} {Q : Except Error α → World → Prop} {w : World}

@[simp] lemma safe_sql (c : DbCall α) :
    (sql c).Safe (handle env) (.solo I) Q w ↔
      (I w → I { w with db := (c.run w.db).2 } ∧
        Q (.ok (c.run w.db).1) { w with db := (c.run w.db).2 }) := by
  simp [sql, Prog.lift]

@[simp] lemma safe_sqlTry (c : DbCall (Except Error α)) :
    (sqlTry c).Safe (handle env) (.solo I) Q w ↔
      (I w → I { w with db := (c.run w.db).2 } ∧
        Q (c.run w.db).1 { w with db := (c.run w.db).2 }) := by
  simp [sqlTry]

@[simp] lemma safe_io (c : FsCall α) :
    (io c).Safe (handle env) (.solo I) Q w ↔
      (I w → I { w with fs := (c.run w.fs).2 } ∧
        Q (.ok (c.run w.fs).1) { w with fs := (c.run w.fs).2 }) := by
  simp [io, Prog.lift]

@[simp] lemma safe_ioTry (c : FsCall (Except Error α)) :
    (ioTry c).Safe (handle env) (.solo I) Q w ↔
      (I w → I { w with fs := (c.run w.fs).2 } ∧
        Q (c.run w.fs).1 { w with fs := (c.run w.fs).2 }) := by
  simp [ioTry]

@[simp] lemma safe_request (c : DriveCall α) :
    (request c).Safe (handle env) (.solo I) Q w ↔
      (I w → I { w with remote := (w.remote.send env.md5 c).2 } ∧
        Q (w.remote.send env.md5 c).1 { w with remote := (w.remote.send env.md5 c).2 }) := by
  simp [request]

@[simp] lemma safe_unixNow {Q : Except Error ℕ → World → Prop} :
    unixNow.Safe (handle env) (.solo I) Q w ↔ (I w → I w ∧ Q (.ok w.now) w) := by
  simp [unixNow, Prog.lift]

/-- A guarded program is safe when its body is, with the guard dropped at its end. -/
@[simp] lemma safe_withMark {id : FileId} {body : Task α} :
    (withMark id body).Safe (handle env) (.solo I) Q w ↔
      (I w → I { w with inFlight := id :: w.inFlight } ∧
        body.Safe (handle env) (.solo I) (fun x s => I s → I { s with inFlight := s.inFlight.erase id } ∧
          Q x { s with inFlight := s.inFlight.erase id }) { w with inFlight := id :: w.inFlight }) := by
  simp [withMark, Prog.lift]

end Safe

/-- Run a program of the daemon to its end. -/
abbrev runTask {α : Type} (env : Env) (p : Task α) (w : World) : Except Error α × World :=
  p.run (handle env) w

/-- What holds when a program that runs undisturbed has ended. -/
abbrev Ends {α : Type} (env : Env) (Q : Except Error α → World → Prop) (p : Task α)
    (w : World) : Prop := p.Safe (handle env) (.solo fun _ => True) Q w

/-- Without a condition, every program ends well. -/
lemma ends_any {α : Type} {env : Env} (p : Task α) (w : World) : Ends env Prog.Any p w := by
  induction p generalizing w with
  | pure a => trivial
  | fail e => trivial
  | call c k ih => exact (Prog.safe_call_solo c k).mpr fun _ => ⟨trivial, ih _ _⟩

/-- A program ends in one way: what holds at its end holds together. -/
lemma Ends.and {α : Type} {env : Env} {Q Q' : Except Error α → World → Prop} {p : Task α}
    {w : World} (h : Ends env Q p w) (h' : Ends env Q' p w) :
    Ends env (fun x s => Q x s ∧ Q' x s) p w := by
  induction p generalizing w with
  | pure a => exact ⟨h, h'⟩
  | fail e => exact ⟨h, h'⟩
  | call c k ih =>
    obtain ⟨-, hk⟩ := (Prog.safe_call_solo c k).mp h trivial
    obtain ⟨-, hk'⟩ := (Prog.safe_call_solo c k).mp h' trivial
    exact (Prog.safe_call_solo c k).mpr fun _ => ⟨trivial, ih _ hk hk'⟩

lemma Ends.run {α : Type} {env : Env} {Q : Except Error α → World → Prop} {p : Task α} {w : World}
    (h : Ends env Q p w) : Q (runTask env p w).1 (runTask env p w).2 :=
  (Prog.Safe.run h trivial).2

end AirDrive
