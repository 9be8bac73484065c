import AirDrive.Reconcile.Continuous

set_option relaxedAutoImplicit false
set_option autoImplicit false

/-!
# The filesystem watcher

What the kernel reports about the watched tree, and the events the daemon makes of it. A rename
inside the tree is reported as two halves and a summary with one tracker; the first half is
buffered until the second one arrives, or until it is too old, which counts as a deletion. Paths
in the staging area and file names that match an ignore pattern are dropped, for each half on its
own.

## Main definitions

* `AirDrive.Watch.NotifyEvent`, `AirDrive.Watch.PendingRenames` — what is reported and what is
  buffered.
* `AirDrive.Watch.accepts` — the paths that are not dropped.
* `AirDrive.Watch.convertEvent`, `AirDrive.Watch.drainStaleRenames` — the conversion.
* `AirDrive.Watch.feed` — a sequence of reports, with the sweeps of the reaper in between.
* `AirDrive.Watch.Renaming` — the reports of one rename.

## Main results

* `AirDrive.Watch.feed_rename_of_ignored` — a rename of an ignored name to one that is not is
  reported as a creation.
-/

namespace AirDrive.Watch

open Data

/-- `RENAME_CORRELATION_TTL`, in milliseconds. -/
def renameCorrelationTtl : ℕ := 1000

/-- The kinds of `notify` events that the conversion distinguishes. -/
inductive NotifyKind
  | create
  | renameFrom
  | renameTo
  | renameBoth
  | modify
  | remove
  | other
deriving DecidableEq, Repr

/-- A `notify` event; the paths are relative to the watched folder. -/
structure NotifyEvent where
  /-- What happened. -/
  kind : NotifyKind
  /-- The paths concerned. -/
  paths : List RelPath
  /-- The tracker that the parts of a rename share. -/
  tracker : Option ℕ
deriving DecidableEq, Repr

/-- The buffered first halves of renames, by tracker, with the time they were seen. -/
abbrev PendingRenames := FinMap ℕ (RelPath × ℕ)

/-- The paths of which events are forwarded: outside the staging area and not ignored
(`accept_local_file`). -/
def accepts (env : Env) (p : RelPath) : Bool :=
  p.head? ≠ some partialDir && !env.ignored (p.getLastD "")

/-- `drain_stale_renames`: the halves that are too old, and the rest. -/
def drainStaleRenames (pending : PendingRenames) (now : ℕ) : List RelPath × PendingRenames :=
  ((pending.rows.filter fun r => renameCorrelationTtl ≤ now - r.2.2).map fun r => r.2.1,
    pending.keep fun r => !decide (renameCorrelationTtl ≤ now - r.2.2))

/-- Take a buffered half out. -/
def takeRename (pending : PendingRenames) (tracker : Option ℕ) : Option RelPath × PendingRenames :=
  match tracker with
  | some t => ((pending.val t).map Prod.fst, pending.remove t)
  | none => (none, pending)

/-- `convert_event`, for the paths that the filters keep. -/
def convertKept (kept : List RelPath) (now : ℕ) (ev : NotifyEvent) (pending : PendingRenames) :
    List WatchEvent × PendingRenames :=
  match ev.kind, ev.paths with
  | .create, _ => (kept.map .created, pending)
  | .renameFrom, _ =>
    let (stale, pending) := drainStaleRenames pending now
    match ev.tracker, kept with
    | some t, p :: _ => (stale.map .deleted, pending.set t (p, now))
    | _, _ => (stale.map .deleted, pending)
  | .renameTo, _ =>
    let (stale, pending) := drainStaleRenames pending now
    let (source, pending) := takeRename pending ev.tracker
    match source, kept with
    | some p, q :: _ => (stale.map .deleted ++ [.renamed p q], pending)
    | none, q :: _ => (stale.map .deleted ++ [.created q], pending)
    | _, [] => (stale.map .deleted, pending)
  | .renameBoth, [p, q] =>
    -- only a backend without the second half has the source still buffered
    let (source, pending) := takeRename pending ev.tracker
    (if source.isSome then [.renamed p q] else [], pending)
  | .renameBoth, _ => (kept.map .modified, pending)
  | .modify, _ => (kept.map .modified, pending)
  | .remove, _ => (kept.map .deleted, pending)
  | .other, _ => ([], pending)

/-- `convert_event`, where nothing is a link or a special file. -/
def convertEvent (env : Env) (now : ℕ) (ev : NotifyEvent) (pending : PendingRenames) :
    List WatchEvent × PendingRenames :=
  convertKept (ev.paths.filter (accepts env)) now ev pending

/-- What happens to the watcher: an event is reported, or the reaper looks for stale halves. -/
inductive Report
  | notify (ev : NotifyEvent)
  | reap

/-- The events made of a sequence of timed reports. -/
def feed (env : Env) : List (ℕ × Report) → PendingRenames → List WatchEvent
  | [], _ => []
  | (now, .notify ev) :: rest, pending =>
    (convertEvent env now ev pending).1 ++ feed env rest (convertEvent env now ev pending).2
  | (now, .reap) :: rest, pending =>
    (drainStaleRenames pending now).1.map .deleted ++ feed env rest (drainStaleRenames pending now).2

/-- The reports among a sequence. -/
def notified (reports : List (ℕ × Report)) : List NotifyEvent :=
  reports.filterMap fun r => match r.2 with
    | .notify ev => some ev
    | .reap => none

/-- The three events that Linux reports for a rename inside the tree. -/
def renameParts (tracker : ℕ) (old new : RelPath) : List NotifyEvent :=
  [⟨.renameFrom, [old], some tracker⟩, ⟨.renameTo, [new], some tracker⟩,
   ⟨.renameBoth, [old, new], some tracker⟩]

/-- The reports of one rename, at any times, with any sweeps of the reaper in between. -/
def Renaming (old new : RelPath) (reports : List (ℕ × Report)) : Prop :=
  ∃ tracker, notified reports = renameParts tracker old new

section Rename

variable {env : Env} {old new : RelPath} {tracker now : ℕ} {reports : List (ℕ × Report)}

@[simp] lemma drainStaleRenames_empty : drainStaleRenames Table.empty now = ([], Table.empty) := rfl

@[simp] lemma takeRename_empty (t : Option ℕ) : takeRename Table.empty t = (none, Table.empty) := by
  cases t <;> rfl

/-- The first report of a sequence, after some sweeps that find nothing. -/
lemma feed_of_notified (env : Env) {ev : NotifyEvent} {rest : List NotifyEvent}
    (h : notified reports = ev :: rest) :
    ∃ now tail, notified tail = rest ∧ feed env reports Table.empty =
      (convertEvent env now ev Table.empty).1 ++
        feed env tail (convertEvent env now ev Table.empty).2 := by
  induction reports with
  | nil => cases h
  | cons r reports ih =>
    obtain ⟨now, r⟩ := r
    cases r with
    | notify ev' =>
      obtain ⟨rfl, hrest⟩ := List.cons.inj h
      exact ⟨now, reports, hrest, rfl⟩
    | reap =>
      obtain ⟨now', tail, htail, hfeed⟩ := ih h
      exact ⟨now', tail, htail, hfeed⟩

/-- Sweeps alone make no events. -/
lemma feed_of_notified_nil (h : notified reports = []) : feed env reports Table.empty = [] := by
  induction reports with
  | nil => rfl
  | cons r reports ih =>
    obtain ⟨now, r⟩ := r
    cases r with
    | notify ev => cases h
    | reap => exact ih h

/-- **A rename of a dropped path to one that is not** is a creation, at whatever times its parts
are reported: the first half is dropped, so the second one has no source. -/
lemma feed_rename_of_ignored (hold : accepts env old = false) (hnew : accepts env new = true)
    (h : Renaming old new reports) : feed env reports Table.empty = [.created new] := by
  obtain ⟨tracker, hparts⟩ := h
  obtain ⟨t₁, tail₁, h₁, hfeed₁⟩ := feed_of_notified env hparts
  have hfrom : convertEvent env t₁ ⟨.renameFrom, [old], some tracker⟩ Table.empty =
      ([], Table.empty) := by
    simp [convertEvent, convertKept, hold]
  rw [hfrom] at hfeed₁
  obtain ⟨t₂, tail₂, h₂, hfeed₂⟩ := feed_of_notified env h₁
  have hto : convertEvent env t₂ ⟨.renameTo, [new], some tracker⟩ Table.empty =
      ([.created new], Table.empty) := by
    simp [convertEvent, convertKept, hnew]
  rw [hto] at hfeed₂
  obtain ⟨t₃, tail₃, h₃, hfeed₃⟩ := feed_of_notified env h₂
  have hboth : convertEvent env t₃ ⟨.renameBoth, [old, new], some tracker⟩ Table.empty =
      ([], Table.empty) := by
    simp [convertEvent, convertKept]
  rw [hboth] at hfeed₃
  rw [hfeed₁, hfeed₂, hfeed₃, feed_of_notified_nil h₃]
  rfl

/-- The parts of a rename, all reported at one moment. -/
def promptly (old new : RelPath) : List (ℕ × Report) :=
  (renameParts 0 old new).map fun ev => (0, .notify ev)

lemma renaming_promptly : Renaming old new (promptly old new) := ⟨0, rfl⟩

/-- A half that was just buffered is not stale. -/
lemma drainStaleRenames_fresh {p : RelPath} :
    drainStaleRenames (FinMap.set Table.empty tracker (p, now)) now =
      ([], FinMap.set Table.empty tracker (p, now)) := by
  simp [drainStaleRenames, FinMap.set, Table.put, Table.add, Table.keep, Table.empty,
    renameCorrelationTtl]

/-- Its second half finds it, and nothing stays behind. -/
lemma takeRename_fresh {p : RelPath} :
    takeRename (FinMap.set Table.empty tracker (p, now)) (some tracker) =
      (some p, Table.empty) := by
  have hleft : (FinMap.set Table.empty tracker (p, now)).remove tracker = Table.empty := by
    simp [FinMap.remove, Table.erase, FinMap.set, Table.put, Table.add, Table.keep, Table.empty]
  rw [takeRename, hleft]
  simp

/-- A rename between two paths that are not dropped is a rename when its parts arrive promptly. -/
lemma feed_promptly (hold : accepts env old = true) (hnew : accepts env new = true) :
    feed env (promptly old new) Table.empty = [.renamed old new] := by
  simp [promptly, renameParts, feed, convertEvent, convertKept, hold, hnew, drainStaleRenames_fresh,
    takeRename_fresh]

/-- A rename to a dropped path makes no event when its parts arrive promptly. -/
lemma feed_promptly_dropped (old : RelPath) (hnew : accepts env new = false) :
    feed env (promptly old new) Table.empty = [] := by
  cases hold : accepts env old <;>
    simp [promptly, renameParts, feed, convertEvent, convertKept, hold, hnew, drainStaleRenames_fresh,
      takeRename_fresh]

end Rename

end AirDrive.Watch
