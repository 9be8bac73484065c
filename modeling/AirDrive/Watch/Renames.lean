import AirDrive.Watch.Watcher

set_option relaxedAutoImplicit false
set_option autoImplicit false

/-!
# What becomes of the first half of a rename

The first half of a rename waits in the buffer for the second one. It must end in one event: the
rename, or a deletion when it has waited for too long. It does as long as its second half is kept
by the filters, its tracker is not used again while it waits, and a summary of the rename names it.
What is found at a path when it is filtered may change from report to report.

## Main definitions

* `AirDrive.Watch.acceptLocalFile` — the filter, by what is found at the path.
* `AirDrive.Watch.Moment`, `AirDrive.Watch.Moment.convert` — a report or a sweep, and its events.
* `AirDrive.Watch.Moment.attributed` — the same events, each with the half that it is emitted for.
* `AirDrive.Watch.Accounted` — every half that is buffered ends in one event, or still waits.
* `AirDrive.Watch.Meets` — a report drops no half.

## Main results

* `AirDrive.Watch.attributed_convert` — the events are those of the conversion.
* `AirDrive.Watch.halves_accounted` — every half is accounted for exactly when no report drops one,
  and none waits longer than its time and one interval of the sweeps.
-/

namespace AirDrive.Watch

open Data

/-! ## The filter -/

/-- `LocalKind`. -/
inductive LocalKind
  | file
  | dir
deriving DecidableEq, Repr

/-- `SymlinkPolicy`. -/
inductive SymlinkPolicy
  | skip
  | follow
deriving DecidableEq, Repr

/-- Where a link leads. -/
structure LinkTarget where
  /-- It is inside the watched folder. -/
  inside : Bool
  /-- It is a directory or a regular file. -/
  kind : Option LocalKind
deriving DecidableEq, Repr

/-- What is found at a path; a broken or circular link has no target. -/
inductive Found
  | gone
  | entry (kind : LocalKind)
  | special
  | link (target : Option LinkTarget)
deriving DecidableEq, Repr

/-- `classify_local`. -/
def classifyLocal (policy : SymlinkPolicy) : Found → Option LocalKind
  | .gone => none
  | .entry kind => some kind
  | .special => none
  | .link target =>
    match policy, target with
    | .skip, _ => none
    | .follow, none => none
    | .follow, some t => if t.inside then t.kind else none

/-- The filters that the watcher is started with. -/
structure Filters where
  /-- Whether a file name matches `watch.ignore_patterns`. -/
  ignored : String → Bool
  /-- `watch.symlinks`. -/
  symlinks : SymlinkPolicy

/-- `accept_local_file`. -/
def acceptLocalFile (filters : Filters) (p : RelPath) (found : Found) : Bool :=
  !filters.ignored (p.getLastD "") &&
    (found = .gone || (classifyLocal filters.symlinks found).isSome)

/-! ## Reports and sweeps -/

/-- A report, or a sweep of the reaper, and what is found at the paths at that moment. -/
structure Moment where
  /-- The time. -/
  now : ℕ
  /-- What is found at a path. -/
  found : RelPath → Found
  /-- The report; the reaper has none. -/
  event : Option NotifyEvent

namespace Moment

/-- The paths of a report that are kept. -/
def kept (filters : Filters) (m : Moment) (ev : NotifyEvent) : List RelPath :=
  ev.paths.filter fun p => p.head? ≠ some partialDir && acceptLocalFile filters p (m.found p)

/-- The events of a moment, and the buffer after it. -/
def convert (filters : Filters) (m : Moment) (pending : PendingRenames) :
    List WatchEvent × PendingRenames :=
  match m.event with
  | some ev => convertKept (m.kept filters ev) m.now ev pending
  | none => ((drainStaleRenames pending m.now).1.map .deleted, (drainStaleRenames pending m.now).2)

/-- The half that a report buffers. -/
def buffers (filters : Filters) (m : Moment) : Option (ℕ × RelPath) :=
  match m.event with
  | some ev =>
    if ev.kind = .renameFrom then
      match ev.tracker, m.kept filters ev with
      | some t, p :: _ => some (t, p)
      | _, _ => none
    else none
  | none => none

/-- The halves of a buffer that are too old, as deletions on their behalf. -/
def expired (pending : PendingRenames) (now : ℕ) : List (Option ℕ × WatchEvent) :=
  (pending.rows.filter fun r => renameCorrelationTtl ≤ now - r.2.2).map fun r =>
    (some r.1, .deleted r.2.1)

/-- The events of a moment, each with the tracker of the half on whose behalf it is emitted. -/
def attributed (filters : Filters) (m : Moment) (pending : PendingRenames) :
    List (Option ℕ × WatchEvent) :=
  match m.event with
  | none => expired pending m.now
  | some ev =>
    let kept := m.kept filters ev
    match ev.kind, ev.paths with
    | .renameFrom, _ => expired pending m.now
    | .renameTo, _ =>
      let (source, _) := takeRename (drainStaleRenames pending m.now).2 ev.tracker
      match source, kept with
      | some p, q :: _ => expired pending m.now ++ [(ev.tracker, .renamed p q)]
      | none, q :: _ => expired pending m.now ++ [(none, .created q)]
      | _, [] => expired pending m.now
    | .renameBoth, [p, q] =>
      if (takeRename pending ev.tracker).1.isSome then [(ev.tracker, .renamed p q)] else []
    | .create, _ => kept.map fun p => (none, .created p)
    | .renameBoth, _ => kept.map fun p => (none, .modified p)
    | .modify, _ => kept.map fun p => (none, .modified p)
    | .remove, _ => kept.map fun p => (none, .deleted p)
    | .other, _ => []

end Moment

lemma expired_convert (pending : PendingRenames) (now : ℕ) :
    (Moment.expired pending now).map Prod.snd =
      (drainStaleRenames pending now).1.map WatchEvent.deleted := by
  simp [Moment.expired, drainStaleRenames]

/-- **The events are those of the conversion.** -/
theorem attributed_convert (filters : Filters) (m : Moment) (pending : PendingRenames) :
    (m.attributed filters pending).map Prod.snd = (m.convert filters pending).1 := by
  obtain ⟨now, found, event⟩ := m
  cases event with
  | none => exact expired_convert _ _
  | some ev =>
    obtain ⟨kind, paths, tracker⟩ := ev
    simp only [Moment.attributed, Moment.convert, convertKept]
    generalize Moment.kept filters ⟨now, found, some ⟨kind, paths, tracker⟩⟩
      ⟨kind, paths, tracker⟩ = kept
    cases kind with
    | renameFrom =>
      cases tracker <;> cases kept <;> exact expired_convert _ _
    | renameTo =>
      cases (takeRename (drainStaleRenames pending now).2 tracker).1 <;> cases kept <;>
        simp [expired_convert]
    | renameBoth =>
      match paths with
      | [p, q] => cases (takeRename pending tracker).1 <;> rfl
      | [] | [_] | _ :: _ :: _ :: _ => simp
    | create | modify | remove | other => simp

/-! ## What becomes of a half -/

namespace Moment

variable (filters : Filters) (m : Moment) (pending : PendingRenames) (t : ℕ)

/-- The events on behalf of the half that is buffered under a tracker. -/
def on : List WatchEvent :=
  ((m.attributed filters pending).filter fun e => e.1 = some t).map Prod.snd

/-- The half is still buffered afterwards: it was neither taken out nor replaced. -/
def stays : Bool :=
  ((m.convert filters pending).2.val t).isSome && (m.buffers filters).map Prod.fst ≠ some t

/-- The moment does not drop a half that was buffered under the tracker for the path. Where its
second half is reported, or another first half with its tracker, it is too old already, or some path
of the second half is kept, or none of the first half; a summary of the rename names it. -/
def Spares (p : RelPath) (seen : ℕ) : Prop :=
  ∀ ev, m.event = some ev → ev.tracker = some t →
    match ev.kind, ev.paths with
    | .renameFrom, _ => m.kept filters ev = [] ∨ renameCorrelationTtl ≤ m.now - seen
    | .renameTo, _ => m.kept filters ev ≠ [] ∨ renameCorrelationTtl ≤ m.now - seen
    | .renameBoth, [p', _] => p' = p
    | _, _ => True

end Moment

/-- A report drops no half that is buffered. -/
def Meets (filters : Filters) (m : Moment) (pending : PendingRenames) : Prop :=
  ∀ t p seen, pending.val t = some (p, seen) → m.Spares filters t p seen

/-- The events on behalf of the half that is buffered under a tracker, as long as it is. -/
def eventsFor (filters : Filters) : List Moment → PendingRenames → ℕ → List WatchEvent
  | [], _, _ => []
  | m :: ms, pending, t => m.on filters pending t ++
    if m.stays filters pending t then eventsFor filters ms (m.convert filters pending).2 t else []

/-- The half is still buffered at the end. -/
def waits (filters : Filters) : List Moment → PendingRenames → ℕ → Bool
  | [], _, _ => true
  | m :: ms, pending, t =>
    m.stays filters pending t && waits filters ms (m.convert filters pending).2 t

/-- The path belongs to a report with the tracker. -/
def Destination (ms : List Moment) (t : ℕ) (q : RelPath) : Prop :=
  ∃ m ∈ ms, ∃ ev, m.event = some ev ∧ ev.tracker = some t ∧ q ∈ ev.paths

/-- A half that is buffered for a path ends in one event, which is its deletion or its rename, or it
still waits and no event was emitted for it. -/
inductive Settled (filters : Filters) (ms : List Moment) (pending : PendingRenames) (t : ℕ)
    (p : RelPath) : Prop
  | deleted (events : eventsFor filters ms pending t = [.deleted p])
      (gone : waits filters ms pending t = false)
  | renamed {q : RelPath} (events : eventsFor filters ms pending t = [.renamed p q])
      (gone : waits filters ms pending t = false) (destination : Destination ms t q)
  | waiting (events : eventsFor filters ms pending t = []) (left : waits filters ms pending t = true)

/-- **Every half that is buffered is settled** by what is reported after it. -/
def Accounted (filters : Filters) : List Moment → PendingRenames → Prop
  | [], _ => True
  | m :: ms, pending =>
    (∀ t p, m.buffers filters = some (t, p) →
      Settled filters ms (m.convert filters pending).2 t p) ∧
      Accounted filters ms (m.convert filters pending).2

/-- No report drops a half. -/
def AllMeet (filters : Filters) : List Moment → PendingRenames → Prop
  | [], _ => True
  | m :: ms, pending => Meets filters m pending ∧ AllMeet filters ms (m.convert filters pending).2

variable {filters : Filters} {m : Moment} {ms : List Moment} {pending : PendingRenames} {t now : ℕ}
  {p q : RelPath} {seen : ℕ}

lemma val_drain (pending : PendingRenames) (now t : ℕ) :
    (drainStaleRenames pending now).2.val t =
    (pending.val t).filter fun e => !decide (renameCorrelationTtl ≤ now - e.2) := by
  simp only [drainStaleRenames, FinMap.val, Table.get_keep]
  cases pending.get t <;> simp [Option.filter]

/-- A deletion is emitted on behalf of a half that is too old. -/
lemma expired_on (now : ℕ) (h : pending.val t = some (p, seen)) :
    (Moment.expired pending now).filter (fun e => e.1 = some t) =
      if renameCorrelationTtl ≤ now - seen then [(some t, .deleted p)] else [] := by
  have hrows : (pending.rows.filter fun r => r.1 = t) = [(t, p, seen)] := by
    obtain ⟨⟨t', p', seen'⟩, hget, hrow⟩ := Option.map_eq_some_iff.mp h
    obtain rfl : t' = t := (Table.get_eq_some.mp hget).2
    cases hrow
    rw [Table.filter_key pending t', hget]
    rfl
  simp only [Moment.expired, List.filter_map, List.filter_filter, Function.comp_def]
  have hcomm : (pending.rows.filter fun r =>
      decide (some r.1 = some t) && decide (renameCorrelationTtl ≤ now - r.2.2)) =
      (pending.rows.filter fun r => r.1 = t).filter
        fun r => renameCorrelationTtl ≤ now - r.2.2 := by
    rw [List.filter_filter]
    simp only [Option.some.injEq, Bool.and_comm]
  rw [hcomm, hrows]
  split_ifs with hstale <;> simp [hstale]

/-! ## One moment -/

section Step

variable (filters m)

/-- The half stays in the buffer, as it was. -/
structure Keeps (pending : PendingRenames) (t : ℕ) (p : RelPath) (seen : ℕ) : Prop where
  spares : m.Spares filters t p seen
  events : m.on filters pending t = []
  stays : m.stays filters pending t = true
  val : (m.convert filters pending).2.val t = some (p, seen)
  /-- It is not too old at a moment of a sweep. -/
  fresh : m.event = none → m.now < seen + renameCorrelationTtl

/-- The half leaves the buffer for its event. -/
structure Emits (pending : PendingRenames) (t : ℕ) (p : RelPath) (seen : ℕ) : Prop where
  spares : m.Spares filters t p seen
  gone : m.stays filters pending t = false
  events : m.on filters pending t = [.deleted p] ∨
    ∃ q ev, m.event = some ev ∧ ev.tracker = some t ∧ q ∈ ev.paths ∧
      m.on filters pending t = [.renamed p q]

/-- The half leaves the buffer, and nothing is emitted for its path. -/
structure Drops (pending : PendingRenames) (t : ℕ) (p : RelPath) (seen : ℕ) : Prop where
  unmet : ¬ m.Spares filters t p seen
  gone : m.stays filters pending t = false
  events : m.on filters pending t = [] ∨
    ∃ p' q ev, p' ≠ p ∧ m.event = some ev ∧ ev.tracker = some t ∧ q ∈ ev.paths ∧
      m.on filters pending t = [.renamed p' q]

variable {filters m}

/-- A sweep emits the deletion of a half that is too old, and keeps the others. -/
lemma sweep_cases (h : pending.val t = some (p, seen)) (hsweep : m.event = none) :
    Keeps filters m pending t p seen ∨ Emits filters m pending t p seen := by
  obtain ⟨now, found, event⟩ := m
  obtain rfl : event = none := hsweep
  have hon := expired_on now h
  have hval := val_drain pending now t
  rw [h] at hval
  by_cases hstale : renameCorrelationTtl ≤ now - seen
  · right
    exact {
      spares := fun _ hev => nomatch hev
      gone := by simp [Moment.stays, Moment.convert, hval, hstale]
      events := .inl (by simp [Moment.on, Moment.attributed, hon, hstale]) }
  · left
    exact {
      spares := fun _ hev => nomatch hev
      events := by simp [Moment.on, Moment.attributed, hon, hstale]
      stays := by simp [Moment.stays, Moment.convert, Moment.buffers, hval, hstale]
      val := by simp [Moment.convert, hval, hstale]
      fresh := fun _ => by
        show now < seen + renameCorrelationTtl
        omega }

/-- Where neither a half is taken out nor events are emitted on behalf of one, it stays. -/
lemma keeps_of_untouched {ev : NotifyEvent} (h : pending.val t = some (p, seen))
    (hev : m.event = some ev) (hspares : m.Spares filters t p seen)
    (hevents : ∀ e ∈ m.attributed filters pending, e.1 ≠ some t)
    (hval : (m.convert filters pending).2.val t = pending.val t)
    (hbuffers : (m.buffers filters).map Prod.fst ≠ some t) : Keeps filters m pending t p seen where
  spares := hspares
  events := by
    rw [Moment.on, List.filter_eq_nil_iff.mpr]
    · rfl
    · intro e he
      simpa using hevents e he
  stays := by simp [Moment.stays, hval, h, hbuffers]
  val := hval.trans h
  fresh hsweep := by rw [hev] at hsweep; cases hsweep

/-- The first half of another rename. -/
lemma from_cases {ev : NotifyEvent} (h : pending.val t = some (p, seen))
    (hev : m.event = some ev) (hkind : ev.kind = .renameFrom) :
    Keeps filters m pending t p seen ∨ Emits filters m pending t p seen ∨
      Drops filters m pending t p seen := by
  have hon := expired_on m.now h
  have hval := val_drain pending m.now t
  rw [h] at hval
  have hspares : m.Spares filters t p seen ↔
      (ev.tracker = some t → m.kept filters ev = [] ∨ renameCorrelationTtl ≤ m.now - seen) := by
    constructor
    · intro hs ht
      simpa [hkind] using hs ev hev ht
    · intro hs ev' hev' ht
      obtain rfl : ev = ev' := Option.some.inj (hev.symm.trans hev')
      simpa [hkind] using hs ht
  have hevents : m.on filters pending t =
      if renameCorrelationTtl ≤ m.now - seen then [.deleted p] else [] := by
    simp only [Moment.on, Moment.attributed, hev, hkind, hon]
    split_ifs <;> rfl
  by_cases htaken : ev.tracker = some t ∧ m.kept filters ev ≠ []
  · -- the tracker is used again
    obtain ⟨htracker, hkept⟩ := htaken
    obtain ⟨p', rest, hkept⟩ := List.exists_cons_of_ne_nil hkept
    have hgone : m.stays filters pending t = false := by
      simp [Moment.stays, Moment.buffers, hev, hkind, htracker, hkept]
    by_cases hstale : renameCorrelationTtl ≤ m.now - seen
    · right; left
      exact ⟨hspares.mpr fun _ => .inr hstale, hgone, .inl (by rw [hevents, if_pos hstale])⟩
    · right; right
      refine ⟨fun hs => ?_, hgone, .inl (by rw [hevents, if_neg hstale])⟩
      rcases hspares.mp hs htracker with hnil | hold
      · rw [hkept] at hnil
        cases hnil
      · exact hstale hold
  · have hs : m.Spares filters t p seen := by
      apply hspares.mpr
      intro ht
      left
      by_contra hkept
      exact htaken ⟨ht, hkept⟩
    have hbuffers : (m.buffers filters).map Prod.fst ≠ some t := by
      intro hb
      apply htaken
      cases ht : ev.tracker with
      | none => simp [Moment.buffers, hev, hkind, ht] at hb
      | some t' =>
        cases hkept : m.kept filters ev with
        | nil => simp [Moment.buffers, hev, hkind, hkept] at hb
        | cons p' rest =>
          have htt : t' = t := by simpa [Moment.buffers, hev, hkind, ht, hkept] using hb
          exact ⟨by rw [htt], List.cons_ne_nil _ _⟩
    have hafter : (m.convert filters pending).2.val t =
        (drainStaleRenames pending m.now).2.val t := by
      simp only [Moment.convert, hev, convertKept, hkind]
      split
      next t' p' rest ht hkept =>
        apply FinMap.val_set_ne
        rintro rfl
        exact htaken ⟨ht, by rw [hkept]; exact List.cons_ne_nil _ _⟩
      next => rfl
    rw [hval] at hafter
    by_cases hstale : renameCorrelationTtl ≤ m.now - seen
    · right; left
      exact ⟨hs, by simp [Moment.stays, hafter, hstale], .inl (by rw [hevents, if_pos hstale])⟩
    · left
      refine ⟨hs, by rw [hevents, if_neg hstale], ?_, ?_, fun hsweep => ?_⟩
      · simp [Moment.stays, hafter, hstale, hbuffers]
      · simp [hafter, hstale]
      · rw [hev] at hsweep
        cases hsweep

/-- The second half of a rename. -/
lemma to_cases {ev : NotifyEvent} (h : pending.val t = some (p, seen))
    (hev : m.event = some ev) (hkind : ev.kind = .renameTo) :
    Keeps filters m pending t p seen ∨ Emits filters m pending t p seen ∨
      Drops filters m pending t p seen := by
  have hon := expired_on m.now h
  have hval := val_drain pending m.now t
  rw [h] at hval
  have hspares : m.Spares filters t p seen ↔
      (ev.tracker = some t → m.kept filters ev ≠ [] ∨ renameCorrelationTtl ≤ m.now - seen) := by
    constructor
    · intro hs ht
      simpa [hkind] using hs ev hev ht
    · intro hs ev' hev' ht
      obtain rfl : ev = ev' := Option.some.inj (hev.symm.trans hev')
      simpa [hkind] using hs ht
  have hafter : (m.convert filters pending).2 =
      (takeRename (drainStaleRenames pending m.now).2 ev.tracker).2 := by
    simp only [Moment.convert, hev, convertKept, hkind]
    split <;> rfl
  have hbuffers : m.buffers filters = none := by simp [Moment.buffers, hev, hkind]
  have hkept : ∀ q rest, m.kept filters ev = q :: rest → q ∈ ev.paths := by
    intro q rest hq
    exact List.mem_of_mem_filter (by rw [← Moment.kept, hq]; exact List.mem_cons_self)
  by_cases htracker : ev.tracker = some t
  · rw [htracker, takeRename] at hafter
    have hgone : m.stays filters pending t = false := by
      simp [Moment.stays, hafter]
    right
    by_cases hstale : renameCorrelationTtl ≤ m.now - seen
    · left
      refine ⟨hspares.mpr fun _ => .inr hstale, hgone, .inl ?_⟩
      have hsource : (takeRename (drainStaleRenames pending m.now).2 ev.tracker).1 = none := by
        simp [htracker, takeRename, hval, hstale]
      simp only [Moment.on, Moment.attributed, hev, hkind, hsource]
      cases m.kept filters ev <;> simp [hon, hstale]
    · have hsource : (takeRename (drainStaleRenames pending m.now).2 ev.tracker).1 = some p := by
        simpa [htracker, takeRename, hval] using hstale
      cases hq : m.kept filters ev with
      | nil =>
        right
        refine ⟨fun hs => ?_, hgone, .inl ?_⟩
        · rcases hspares.mp hs htracker with hne | hold
          · exact hne hq
          · exact hstale hold
        · simp only [Moment.on, Moment.attributed, hev, hkind, hsource, hq]
          simp [hon, hstale]
      | cons q rest =>
        left
        refine ⟨hspares.mpr fun _ => .inl (by simp [hq]), hgone, .inr ⟨q, ev, hev, htracker,
          hkept q rest hq, ?_⟩⟩
        simp only [Moment.on, Moment.attributed, hev, hkind, hsource, hq]
        simp [hon, hstale, htracker]
  · have hs : m.Spares filters t p seen := hspares.mpr fun ht => absurd ht htracker
    have hafter : (m.convert filters pending).2.val t =
        (drainStaleRenames pending m.now).2.val t := by
      rw [hafter]
      cases ht : ev.tracker with
      | none => rfl
      | some t' =>
        apply FinMap.val_remove_ne
        rintro rfl
        exact htracker ht
    rw [hval] at hafter
    have hevents : m.on filters pending t =
        if renameCorrelationTtl ≤ m.now - seen then [.deleted p] else [] := by
      simp only [Moment.on, Moment.attributed, hev, hkind]
      cases (takeRename (drainStaleRenames pending m.now).2 ev.tracker).1 <;>
        cases m.kept filters ev <;> simp [hon, htracker] <;> split_ifs <;> rfl
    by_cases hstale : renameCorrelationTtl ≤ m.now - seen
    · right; left
      exact ⟨hs, by simp [Moment.stays, hafter, hstale], .inl (by rw [hevents, if_pos hstale])⟩
    · left
      refine ⟨hs, by rw [hevents, if_neg hstale], ?_, ?_, fun hsweep => ?_⟩
      · simp [Moment.stays, hafter, hstale, hbuffers]
      · simp [hafter, hstale]
      · rw [hev] at hsweep
        cases hsweep

/-- The summary of a rename between two paths. -/
lemma both_cases {ev : NotifyEvent} {p' q : RelPath} (h : pending.val t = some (p, seen))
    (hev : m.event = some ev) (hkind : ev.kind = .renameBoth) (hpaths : ev.paths = [p', q]) :
    Keeps filters m pending t p seen ∨ Emits filters m pending t p seen ∨
      Drops filters m pending t p seen := by
  have hspares : m.Spares filters t p seen ↔ (ev.tracker = some t → p' = p) := by
    constructor
    · intro hs ht
      simpa [hkind, hpaths] using hs ev hev ht
    · intro hs ev' hev' ht
      obtain rfl : ev = ev' := Option.some.inj (hev.symm.trans hev')
      simpa [hkind, hpaths] using hs ht
  have hafter : (m.convert filters pending).2 = (takeRename pending ev.tracker).2 := by
    simp only [Moment.convert, hev, convertKept, hkind, hpaths]
  by_cases htracker : ev.tracker = some t
  · rw [htracker, takeRename] at hafter
    have hgone : m.stays filters pending t = false := by
      simp [Moment.stays, hafter]
    have hevents : m.on filters pending t = [.renamed p' q] := by
      simp [Moment.on, Moment.attributed, hev, hkind, hpaths, htracker, takeRename, h]
    right
    by_cases hp : p' = p
    · left
      refine ⟨hspares.mpr fun _ => hp, hgone, .inr ⟨q, ev, hev, htracker, ?_, by rw [hevents, hp]⟩⟩
      simp [hpaths]
    · right
      exact ⟨fun hs => hp (hspares.mp hs htracker), hgone,
        .inr ⟨p', q, ev, hp, hev, htracker, by simp [hpaths], hevents⟩⟩
  · left
    apply keeps_of_untouched h hev (hspares.mpr fun ht => absurd ht htracker)
    · intro e he
      simp only [Moment.attributed, hev, hkind, hpaths] at he
      split at he
      · obtain rfl := List.mem_singleton.mp he
        exact htracker
      · cases he
    · rw [hafter]
      cases ht : ev.tracker with
      | none => rfl
      | some t' =>
        apply FinMap.val_remove_ne
        rintro rfl
        exact htracker ht
    · simp [Moment.buffers, hev, hkind]

/-- The reports that do not touch the buffer. -/
lemma plain_keeps {ev : NotifyEvent} (h : pending.val t = some (p, seen))
    (hev : m.event = some ev) (hfrom : ev.kind ≠ .renameFrom) (hto : ev.kind ≠ .renameTo)
    (hboth : ev.kind = .renameBoth → ∀ p' q, ev.paths ≠ [p', q]) :
    Keeps filters m pending t p seen := by
  obtain ⟨now, found, event⟩ := m
  obtain rfl : event = some ev := hev
  obtain ⟨kind, paths, tracker⟩ := ev
  cases kind with
  | renameFrom => exact absurd rfl hfrom
  | renameTo => exact absurd rfl hto
  | renameBoth =>
    have hspares : Moment.Spares filters ⟨now, found, some ⟨.renameBoth, paths, tracker⟩⟩ t p seen := by
      rintro ev ⟨⟩ -
      match paths, hboth with
      | [p', q], hboth => exact absurd rfl (hboth rfl p' q)
      | [], _ | [_], _ | _ :: _ :: _ :: _, _ => trivial
    apply keeps_of_untouched h rfl hspares
    · intro e he
      match paths, hboth with
      | [p', q], hboth => exact absurd rfl (hboth rfl p' q)
      | [], _ | [_], _ | _ :: _ :: _ :: _, _ =>
        obtain ⟨q, -, rfl⟩ := List.mem_map.mp he
        exact nofun
    · match paths, hboth with
      | [p', q], hboth => exact absurd rfl (hboth rfl p' q)
      | [], _ | [_], _ | _ :: _ :: _ :: _, _ => rfl
    · exact nofun
  | create | modify | remove =>
    apply keeps_of_untouched h rfl
    · rintro ev ⟨⟩ -
      trivial
    · intro e he
      obtain ⟨q, -, rfl⟩ := List.mem_map.mp he
      exact nofun
    · rfl
    · exact nofun
  | other =>
    apply keeps_of_untouched h rfl
    · rintro ev ⟨⟩ -
      trivial
    · exact nofun
    · rfl
    · exact nofun

/-- **What a moment does to a half that is buffered.** -/
lemma half_cases (filters : Filters) (m : Moment) (h : pending.val t = some (p, seen)) :
    Keeps filters m pending t p seen ∨ Emits filters m pending t p seen ∨
      Drops filters m pending t p seen := by
  cases hev : m.event with
  | none =>
    rcases sweep_cases h hev with hkeeps | hemits
    · exact .inl hkeeps
    · exact .inr (.inl hemits)
  | some ev =>
    by_cases hfrom : ev.kind = .renameFrom
    · exact from_cases h hev hfrom
    by_cases hto : ev.kind = .renameTo
    · exact to_cases h hev hto
    by_cases hboth : ev.kind = .renameBoth ∧ ∃ p' q, ev.paths = [p', q]
    · obtain ⟨hkind, p', q, hpaths⟩ := hboth
      exact both_cases h hev hkind hpaths
    · exact .inl (plain_keeps h hev hfrom hto fun hk p' q hp => hboth ⟨hk, p', q, hp⟩)

lemma val_of_drain {e : RelPath × ℕ} (h : (drainStaleRenames pending now).2.val t = some e) :
    pending.val t = some e := by
  rw [val_drain, Option.filter_eq_some_iff] at h
  exact h.1

lemma val_of_take {tracker : Option ℕ} {e : RelPath × ℕ}
    (h : (takeRename pending tracker).2.val t = some e) : pending.val t = some e := by
  cases tracker with
  | none => exact h
  | some t' =>
    simp only [takeRename] at h
    by_cases ht : t = t'
    · subst ht
      simp at h
    · rwa [FinMap.val_remove_ne pending ht] at h

/-- What is buffered afterwards was buffered just now, or before. -/
lemma val_of_convert {e : RelPath × ℕ} (h : (m.convert filters pending).2.val t = some e) :
    (m.buffers filters = some (t, e.1) ∧ e.2 = m.now) ∨ pending.val t = some e := by
  cases hev : m.event with
  | none =>
    right
    simp only [Moment.convert, hev] at h
    exact val_of_drain h
  | some ev =>
    simp only [Moment.convert, hev, convertKept] at h
    cases hkind : ev.kind with
    | renameFrom =>
      simp only [hkind] at h
      split at h
      next t' p' rest htracker hkept =>
        by_cases ht : t = t'
        · subst ht
          obtain rfl : (p', m.now) = e := by simpa using h
          exact .inl ⟨by simp [Moment.buffers, hev, hkind, htracker, hkept], rfl⟩
        · rw [FinMap.val_set_ne _ _ ht] at h
          exact .inr (val_of_drain h)
      next => exact .inr (val_of_drain h)
    | renameTo =>
      right
      apply val_of_drain
      simp only [hkind] at h
      split at h <;> exact val_of_take h
    | renameBoth =>
      right
      simp only [hkind] at h
      rcases hpaths : ev.paths with _ | ⟨p', _ | ⟨q, _ | ⟨x, rest⟩⟩⟩
      · rwa [hpaths] at h
      · rwa [hpaths] at h
      · rw [hpaths] at h
        exact val_of_take h
      · rwa [hpaths] at h
    | create | modify | remove | other =>
      simp only [hkind] at h
      exact .inr h

lemma val_of_buffers (h : m.buffers filters = some (t, p)) :
    (m.convert filters pending).2.val t = some (p, m.now) := by
  cases hev : m.event with
  | none => simp [Moment.buffers, hev] at h
  | some ev =>
    by_cases hkind : ev.kind = .renameFrom
    · simp only [Moment.buffers, hev, hkind, if_true] at h
      split at h
      next t' p' rest htracker hkept =>
        cases h
        simp [Moment.convert, hev, convertKept, hkind, htracker, hkept]
      next => cases h
    · simp [Moment.buffers, hev, hkind] at h

/-- A half that is buffered afterwards was buffered just now, or it was kept. -/
lemma val_convert (h : (m.convert filters pending).2.val t = some (p, seen)) :
    (m.buffers filters = some (t, p) ∧ seen = m.now) ∨
      pending.val t = some (p, seen) ∧ Keeps filters m pending t p seen := by
  rcases val_of_convert h with hnew | hold
  · exact .inl hnew
  by_cases hbuffers : (m.buffers filters).map Prod.fst = some t
  · -- the new half is the one that is found
    obtain ⟨⟨t', p'⟩, hb, rfl⟩ := Option.map_eq_some_iff.mp hbuffers
    obtain ⟨rfl, rfl⟩ := Prod.mk.inj (Option.some.inj ((val_of_buffers hb).symm.trans h))
    exact .inl ⟨hb, rfl⟩
  · have hstays : m.stays filters pending t = true := by simp [Moment.stays, h, hbuffers]
    rcases half_cases filters m hold with hkeeps | hemits | hdrops
    · exact .inr ⟨hold, hkeeps⟩
    · rw [hemits.gone] at hstays
      cases hstays
    · rw [hdrops.gone] at hstays
      cases hstays

end Step

/-! ## The whole sequence -/

/-- Every half in the buffer is settled by what is reported from now on. -/
def Settles (filters : Filters) (ms : List Moment) (pending : PendingRenames) : Prop :=
  ∀ t p seen, pending.val t = some (p, seen) → Settled filters ms pending t p

lemma Destination.cons (h : Destination ms t q) : Destination (m :: ms) t q := by
  obtain ⟨m', hm', ev, hev⟩ := h
  exact ⟨m', List.mem_cons_of_mem _ hm', ev, hev⟩

/-- The new path of a rename that is emitted for a half belongs to a report with its tracker. -/
lemma destination_of_mem (h : pending.val t = some (p, seen)) {p' q : RelPath}
    (hq : .renamed p' q ∈ eventsFor filters ms pending t) : Destination ms t q := by
  induction ms generalizing pending with
  | nil => cases hq
  | cons m ms ih =>
    have here (hstays : m.stays filters pending t = false)
        (hon : m.on filters pending t = [] ∨ m.on filters pending t = [.deleted p] ∨
          ∃ p'' q' ev, m.event = some ev ∧ ev.tracker = some t ∧ q' ∈ ev.paths ∧
            m.on filters pending t = [.renamed p'' q']) : Destination (m :: ms) t q := by
      simp only [eventsFor, hstays, Bool.false_eq_true, if_false, List.append_nil] at hq
      rcases hon with hnil | hdeleted | ⟨p'', q', ev, hev, htracker, hq', hrenamed⟩
      · simp [hnil] at hq
      · simp [hdeleted] at hq
      · rw [hrenamed] at hq
        cases List.mem_singleton.mp hq
        exact ⟨m, List.mem_cons_self, ev, hev, htracker, hq'⟩
    rcases half_cases filters m h with hkeeps | hemits | hdrops
    · simp only [eventsFor, hkeeps.events, hkeeps.stays, if_true, List.nil_append] at hq
      exact (ih hkeeps.val hq).cons
    · apply here hemits.gone
      rcases hemits.events with hdeleted | ⟨q', ev, hev⟩
      · exact .inr (.inl hdeleted)
      · exact .inr (.inr ⟨p, q', ev, hev⟩)
    · apply here hdrops.gone
      rcases hdrops.events with hnil | ⟨p'', q', ev, -, hev⟩
      · exact .inl hnil
      · exact .inr (.inr ⟨p'', q', ev, hev⟩)

/-- A half that is kept is settled by what follows. -/
lemma Keeps.settled_iff (h : Keeps filters m pending t p seen) :
    Settled filters (m :: ms) pending t p ↔
      Settled filters ms (m.convert filters pending).2 t p := by
  have hevents : eventsFor filters (m :: ms) pending t =
      eventsFor filters ms (m.convert filters pending).2 t := by
    simp [eventsFor, h.events, h.stays]
  have hwaits : waits filters (m :: ms) pending t =
      waits filters ms (m.convert filters pending).2 t := by
    simp [waits, h.stays]
  constructor
  · rintro (⟨he, hw⟩ | ⟨he, hw, -⟩ | ⟨he, hw⟩)
    · exact .deleted (hevents ▸ he) (hwaits ▸ hw)
    · rw [hevents] at he
      have hq : _ ∈ eventsFor filters ms (m.convert filters pending).2 t :=
        he ▸ List.mem_cons_self
      exact .renamed he (hwaits ▸ hw) (destination_of_mem h.val hq)
    · exact .waiting (hevents ▸ he) (hwaits ▸ hw)
  · rintro (⟨he, hw⟩ | ⟨he, hw, hq⟩ | ⟨he, hw⟩)
    · exact .deleted (hevents.trans he) (hwaits.trans hw)
    · exact .renamed (hevents.trans he) (hwaits.trans hw) hq.cons
    · exact .waiting (hevents.trans he) (hwaits.trans hw)

/-- The last event of a half settles it. -/
lemma Emits.settled (h : Emits filters m pending t p seen) :
    Settled filters (m :: ms) pending t p := by
  have hwaits : waits filters (m :: ms) pending t = false := by simp [waits, h.gone]
  have hevents : eventsFor filters (m :: ms) pending t = m.on filters pending t := by
    simp [eventsFor, h.gone]
  rcases h.events with hdeleted | ⟨q, ev, hev, htracker, hq, hrenamed⟩
  · exact .deleted (hevents.trans hdeleted) hwaits
  · exact .renamed (hevents.trans hrenamed) hwaits ⟨m, List.mem_cons_self, ev, hev, htracker, hq⟩

/-- A half that is dropped is not settled. -/
lemma Drops.not_settled (h : Drops filters m pending t p seen) :
    ¬ Settled filters (m :: ms) pending t p := by
  have hwaits : waits filters (m :: ms) pending t = false := by simp [waits, h.gone]
  have hevents : eventsFor filters (m :: ms) pending t = m.on filters pending t := by
    simp [eventsFor, h.gone]
  rintro (⟨he, -⟩ | ⟨he, -, -⟩ | ⟨-, hw⟩)
  · rw [hevents] at he
    rcases h.events with hnil | ⟨p', q, ev, hp, -, -, -, hrenamed⟩
    · rw [hnil] at he
      cases he
    · rw [hrenamed] at he
      cases he
  · rw [hevents] at he
    rcases h.events with hnil | ⟨p', q, ev, hp, -, -, -, hrenamed⟩
    · rw [hnil] at he
      cases he
    · rw [hrenamed] at he
      cases he
      exact hp rfl
  · rw [hwaits] at hw
    cases hw

/-- No half is dropped exactly when every half in the buffer and every later one is settled. -/
lemma allMeet_iff (filters : Filters) (ms : List Moment) (pending : PendingRenames) :
    AllMeet filters ms pending ↔ Accounted filters ms pending ∧ Settles filters ms pending := by
  induction ms generalizing pending with
  | nil => exact ⟨fun _ => ⟨trivial, fun t p seen _ => .waiting rfl rfl⟩, fun _ => trivial⟩
  | cons m ms ih =>
    simp only [AllMeet, Accounted, ih]
    constructor
    · rintro ⟨hmeets, haccounted, hsettles⟩
      refine ⟨⟨fun t p hb => hsettles t p _ (val_of_buffers hb), haccounted⟩, ?_⟩
      intro t p seen h
      rcases half_cases filters m h with hkeeps | hemits | hdrops
      · exact hkeeps.settled_iff.mpr (hsettles t p seen hkeeps.val)
      · exact hemits.settled
      · exact absurd (hmeets t p seen h) hdrops.unmet
    · rintro ⟨⟨hnew, haccounted⟩, hsettles⟩
      refine ⟨?_, haccounted, ?_⟩
      · intro t p seen h
        rcases half_cases filters m h with hkeeps | hemits | hdrops
        · exact hkeeps.spares
        · exact hemits.spares
        · exact absurd (hsettles t p seen h) hdrops.not_settled
      · intro t p seen h
        rcases val_convert h with ⟨hb, -⟩ | ⟨hold, hkeeps⟩
        · exact hnew t p hb
        · exact hkeeps.settled_iff.mp (hsettles t p seen hold)

/-- Every moment comes after the latest sweep, and at most an interval after it. -/
def Swept (interval : ℕ) : ℕ → List Moment → Prop
  | _, [] => True
  | last, m :: ms => last ≤ m.now ∧ m.now ≤ last + interval ∧
    Swept interval (if m.event = none then m.now else last) ms

/-- At no moment a half is found in the buffer that is older than its time and an interval. -/
def Timely (filters : Filters) (interval : ℕ) : List Moment → PendingRenames → Prop
  | [], _ => True
  | m :: ms, pending =>
    (∀ t p seen, pending.val t = some (p, seen) →
      m.now ≤ seen + renameCorrelationTtl + interval) ∧
      Timely filters interval ms (m.convert filters pending).2

/-- A half that the latest sweep left is not too old by it. -/
lemma timely_of_swept {interval last : ℕ} (hswept : Swept interval last ms)
    (h : ∀ t p seen, pending.val t = some (p, seen) → last ≤ seen + renameCorrelationTtl) :
    Timely filters interval ms pending := by
  induction ms generalizing pending last with
  | nil => trivial
  | cons m ms ih =>
    obtain ⟨hafter, hwithin, hrest⟩ := hswept
    refine ⟨fun t p seen hval => ?_, ih hrest fun t p seen hval => ?_⟩
    · have := h t p seen hval
      omega
    · rcases val_convert hval with ⟨-, rfl⟩ | ⟨hold, hkeeps⟩
      · split_ifs <;> omega
      · split_ifs with hsweep
        · exact (hkeeps.fresh hsweep).le
        · exact h t p seen hold

/-- **Every half is accounted for** exactly when no report drops one, and in any case none waits for
longer than its time and one interval of the sweeps. -/
theorem halves_accounted (filters : Filters) {interval start : ℕ} {ms : List Moment}
    (hswept : Swept interval start ms) :
    (Accounted filters ms Table.empty ↔ AllMeet filters ms Table.empty) ∧
      Timely filters interval ms Table.empty := by
  constructor
  · rw [allMeet_iff]
    exact (and_iff_left fun t p seen h => nomatch h).symm
  · exact timely_of_swept hswept fun t p seen h => nomatch h

/-- A rename between two paths that are kept, and a sweep between its halves. -/
def renameSwept : List Moment :=
  [⟨100, fun _ => .gone, some ⟨.renameFrom, [["a"]], some 7⟩⟩,
   ⟨150, fun _ => .gone, none⟩,
   ⟨200, fun _ => .entry .file, some ⟨.renameTo, [["b"]], some 7⟩⟩,
   ⟨200, fun _ => .entry .file, some ⟨.renameBoth, [["a"], ["b"]], some 7⟩⟩]

/-- Every name but `x.tmp` is synced, and links are not. -/
def ignoringTmp : Filters := ⟨fun name => name = "x.tmp", .skip⟩

theorem renameSwept_accounted : Accounted ignoringTmp renameSwept Table.empty ∧
    Timely ignoringTmp 250 renameSwept Table.empty := by
  have hswept : Swept 250 0 renameSwept := by
    simp [Swept, renameSwept]
  have hmeets : AllMeet ignoringTmp renameSwept Table.empty := by
    refine ⟨nofun, fun _ _ _ _ => nofun, ?_, ?_, trivial⟩
    · rintro t p seen - ev ⟨⟩ -
      exact .inl (by decide)
    · intro t p seen h
      have hrow := FinMap.val_eq_some.mp h
      revert hrow
      exact nofun
  obtain ⟨hiff, htimely⟩ := halves_accounted ignoringTmp hswept
  exact ⟨hiff.mpr hmeets, htimely⟩

/-- A file is renamed to a name that is not synced. -/
def renameToIgnored : List Moment :=
  [⟨100, fun _ => .gone, some ⟨.renameFrom, [["a"]], some 7⟩⟩,
   ⟨100, fun _ => .entry .file, some ⟨.renameTo, [["x.tmp"]], some 7⟩⟩,
   ⟨100, fun _ => .entry .file, some ⟨.renameBoth, [["a"], ["x.tmp"]], some 7⟩⟩,
   ⟨250, fun _ => .gone, none⟩,
   ⟨500, fun _ => .gone, none⟩]

/-- **The first half is dropped**: neither the rename nor a deletion is emitted for it. -/
theorem renameToIgnored_dropped : ¬ Accounted ignoringTmp renameToIgnored Table.empty := by
  rintro ⟨hnew, -⟩
  have hevents : eventsFor ignoringTmp renameToIgnored.tail
      (FinMap.set Table.empty 7 (["a"], 100)) 7 = [] := by decide
  have hwaits : waits ignoringTmp renameToIgnored.tail
      (FinMap.set Table.empty 7 (["a"], 100)) 7 = false := by decide
  rcases hnew 7 ["a"] (by decide) with ⟨he, -⟩ | ⟨he, -, -⟩ | ⟨-, hw⟩
  · cases hevents.symm.trans he
  · cases hevents.symm.trans he
  · cases hwaits.symm.trans hw

end AirDrive.Watch
