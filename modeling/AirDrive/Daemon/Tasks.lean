import AirDrive.Data.Rest
import AirDrive.Drive.Changes
import AirDrive.Watch.Debounce

set_option relaxedAutoImplicit false
set_option autoImplicit false

/-!
# The tasks of the daemon

`daemon::run` starts eight tasks that pass events on through channels of a fixed capacity, and
waits for them. Three of them bring the events of the watcher to the handler of local events: one
takes them out of the watcher's channel, the debouncer holds them back for a while, and the last one
applies them to the state. A signal cancels the tasks; each of them looks at this only when it waits
for something to do, and nobody receives what is then in the channels.

## Main definitions

* `AirDrive.Tasks.Pipeline`, `AirDrive.Tasks.Step` — the way of a local event.
* `AirDrive.Tasks.Daemon`, `AirDrive.Tasks.Daemon.Step` — all tasks, and `run` that waits for
  them.

## Main results

* `AirDrive.Tasks.Delivers.step` — as long as nothing is cancelled the tasks with their channels
  behave as the debouncer alone.
* `AirDrive.Tasks.events_settle` — every path's last event is handled.
* `AirDrive.Tasks.shutdown_ends` — all tasks end soon after the cancellation, and `run` returns if
  there was a signal.

## Design

A task that executes something, such as a request, is in one state as long as this takes. A message
that is sent to a channel whose receiver is gone is refused, and one that finds the channel full
waits.
-/

namespace AirDrive.Tasks

open Data Debounce

/-- The capacity of the channels. -/
def capacity : ℕ := 1024

/-- A task that receives messages and deals with each of them before the next. -/
inductive Relay (α : Type)
  | receiving
  | holding (x : α)
  | ended

/-- The message that the task deals with. -/
def Relay.held {α : Type} : Relay α → List α
  | .holding x => [x]
  | _ => []

/-- One as long as the task has not ended. -/
def Relay.alive {α : Type} : Relay α → ℕ
  | .ended => 0
  | _ => 1

section Relay

variable {α : Type} (x : α)

@[simp] lemma held_receiving : (.receiving : Relay α).held = [] := rfl

@[simp] lemma held_holding : (Relay.holding x).held = [x] := rfl

@[simp] lemma held_ended : (.ended : Relay α).held = [] := rfl

@[simp] lemma alive_receiving : (.receiving : Relay α).alive = 1 := rfl

@[simp] lemma alive_holding : (Relay.holding x).alive = 1 := rfl

@[simp] lemma alive_ended : (.ended : Relay α).alive = 0 := rfl

end Relay

/-- The debouncer: what it still has to send of the round, or that it has returned. -/
inductive Debouncer
  | running (out : List WatchEvent)
  | ended

/-- What the debouncer still has to send. -/
def Debouncer.out : Debouncer → List WatchEvent
  | .running out => out
  | .ended => []

/-- One as long as the debouncer has not returned. -/
def Debouncer.alive : Debouncer → ℕ
  | .running _ => 1
  | .ended => 0

@[simp] lemma out_running (out : List WatchEvent) : (Debouncer.running out).out = out := rfl

@[simp] lemma out_ended : Debouncer.ended.out = [] := rfl

@[simp] lemma alive_running (out : List WatchEvent) : (Debouncer.running out).alive = 1 := rfl

@[simp] lemma alive_returned : Debouncer.ended.alive = 0 := rfl

/-- The way of an event from the watcher to the handler. -/
structure Pipeline where
  /-- The watcher's channel. -/
  inbox : List WatchEvent
  /-- `forward_channel`. -/
  forwarder : Relay WatchEvent
  /-- The channel `raw_tx` of the debouncer. -/
  raw : List WatchEvent
  /-- `debounce::run`. -/
  debouncer : Debouncer
  /-- The events that wait for their deadlines. -/
  pending : Pending
  /-- The channel `debounced_tx` of the handler. -/
  debounced : List WatchEvent
  /-- The task that applies local events. -/
  reconciler : Relay WatchEvent
  /-- The events that the watcher's channel took, so far. -/
  accepted : List WatchEvent
  /-- The events that were applied, so far. -/
  handled : List WatchEvent

/-- The tasks when they are spawned. -/
def Pipeline.start : Pipeline :=
  ⟨[], .receiving, [], .running [], Table.empty, [], .receiving, [], []⟩

/-- The watcher has an event: `try_send` drops it when the channel is full, or closed. -/
inductive Arrives (ev : WatchEvent) (s : Pipeline) : Pipeline → Prop
  | accept (hroom : s.inbox.length < capacity) (hopen : s.forwarder ≠ .ended) :
      Arrives ev s { s with inbox := s.inbox ++ [ev], accepted := s.accepted ++ [ev] }
  | drop (hfull : capacity ≤ s.inbox.length ∨ s.forwarder = .ended) : Arrives ev s s

/-- A step of one of the three tasks. -/
inductive Step (window : ℕ) (cancelled : Bool) (s : Pipeline) : Pipeline → Prop
  | forward (ev : WatchEvent) (inbox : List WatchEvent) (htask : s.forwarder = .receiving)
      (hgoes : cancelled = false) (hin : s.inbox = ev :: inbox) :
      Step window cancelled s { s with forwarder := .holding ev, inbox }
  | stopForwarder (htask : s.forwarder = .receiving) (hcancel : cancelled = true) :
      Step window cancelled s { s with forwarder := .ended }
  | push (ev : WatchEvent) (htask : s.forwarder = .holding ev) (hroom : s.raw.length < capacity)
      (hopen : s.debouncer ≠ .ended) :
      Step window cancelled s { s with forwarder := .receiving, raw := s.raw ++ [ev] }
  | refusePush (ev : WatchEvent) (htask : s.forwarder = .holding ev)
      (hclosed : s.debouncer = .ended) : Step window cancelled s { s with forwarder := .ended }
  | take (ev : WatchEvent) (raw : List WatchEvent) (now : ℕ) (htask : s.debouncer = .running [])
      (hin : s.raw = ev :: raw) :
      Step window cancelled s
        { s with raw, pending := s.pending.set (keyOf ev) (ev, now + window) }
  | hangUp (htask : s.debouncer = .running []) (hin : s.raw = []) (hclosed : s.forwarder = .ended) :
      Step window cancelled s { s with debouncer := .ended }
  | timer (d now : ℕ) (due : List RelPath) (htask : s.debouncer = .running []) (hin : s.raw = [])
      (hopen : s.forwarder ≠ .ended) (hset : nextDeadline s.pending = some d) (hd : d ≤ now)
      (hdue : due.Perm (dueKeys s.pending now)) :
      Step window cancelled s
        { s with pending := (drain due s.pending).2, debouncer := .running (drain due s.pending).1 }
  | send (ev : WatchEvent) (out : List WatchEvent) (htask : s.debouncer = .running (ev :: out))
      (hroom : s.debounced.length < capacity) (hopen : s.reconciler ≠ .ended) :
      Step window cancelled s
        { s with debouncer := .running out, debounced := s.debounced ++ [ev] }
  | refuseSend (ev : WatchEvent) (out : List WatchEvent)
      (htask : s.debouncer = .running (ev :: out)) (hclosed : s.reconciler = .ended) :
      Step window cancelled s { s with debouncer := .ended }
  | receive (ev : WatchEvent) (debounced : List WatchEvent) (htask : s.reconciler = .receiving)
      (hgoes : cancelled = false) (hin : s.debounced = ev :: debounced) :
      Step window cancelled s { s with reconciler := .holding ev, debounced }
  | stopReconciler (htask : s.reconciler = .receiving) (hcancel : cancelled = true) :
      Step window cancelled s { s with reconciler := .ended }
  | closeReconciler (htask : s.reconciler = .receiving) (hin : s.debounced = [])
      (hclosed : s.debouncer = .ended) : Step window cancelled s { s with reconciler := .ended }
  | handle (ev : WatchEvent) (htask : s.reconciler = .holding ev) :
      Step window cancelled s
        { s with reconciler := .receiving, handled := s.handled ++ [ev] }

/-- What the debouncer has sent or is about to send. -/
def Pipeline.sent (s : Pipeline) : List WatchEvent :=
  s.handled ++ s.reconciler.held ++ s.debounced ++ s.debouncer.out

/-- The events on the way that are about a path, in their order. -/
def Pipeline.underway (s : Pipeline) (p : RelPath) : List WatchEvent :=
  about p (s.reconciler.held ++ s.debounced ++ s.debouncer.out) ++
    ((s.pending.val p).map Prod.fst).toList ++ about p (s.raw ++ s.forwarder.held ++ s.inbox)

variable {window n : ℕ} {cancelled : Bool} {s s' : Pipeline} {ev : WatchEvent} {p : RelPath}

/-! ## The tasks behave as the debouncer -/

/-- All three tasks run, and what they have done is what the debouncer alone would have done with
channels that hold everything. -/
structure Delivers (window : ℕ) (s : Pipeline) : Prop where
  forwarder : s.forwarder ≠ .ended
  debouncer : s.debouncer ≠ .ended
  reconciler : s.reconciler ≠ .ended
  run : ∃ labels, Steps window State.start labels ⟨s.raw, false, s.pending, s.sent, false⟩ ∧
    arrivals labels ++ s.forwarder.held ++ s.inbox = s.accepted

lemma Delivers.start : Delivers window .start :=
  ⟨by simp [Pipeline.start], by simp [Pipeline.start], by simp [Pipeline.start], [], .refl _, rfl⟩

/-- An event that arrives has its place at the end. -/
lemma Delivers.arrives (h : Delivers window s) (harrives : Arrives ev s s') :
    Delivers window s' := by
  cases harrives with
  | accept =>
    obtain ⟨labels, hsteps, haccepted⟩ := h.run
    exact ⟨h.forwarder, h.debouncer, h.reconciler, labels, hsteps, by
      rw [← List.append_assoc, haccepted]⟩
  | drop => exact h

/-- **One step** of the tasks is one of the debouncer, or moves an event on. -/
lemma Delivers.step (h : Delivers window s) (hstep : Step window false s s') :
    Delivers window s' := by
  obtain ⟨hforwarder, hdebouncer, hreconciler, labels, hsteps, haccepted⟩ := h
  cases hstep with
  | forward ev inbox htask hgoes hin =>
    refine ⟨by simp, hdebouncer, hreconciler, labels, hsteps, ?_⟩
    rw [← haccepted, htask, hin]
    simp [Relay.held]
  | stopForwarder htask hcancel => cases hcancel
  | push ev htask =>
    refine ⟨by simp, hdebouncer, hreconciler, _, hsteps.tail (.arrive ev), ?_⟩
    rw [← haccepted, htask, arrivals_append]
    simp [Relay.held, arrivals]
  | refusePush ev htask hclosed => exact absurd hclosed hdebouncer
  | take ev raw now htask hin =>
    rw [hin] at hsteps
    refine ⟨hforwarder, hdebouncer, hreconciler, _, hsteps.tail (.recv now), ?_⟩
    rw [← haccepted, arrivals_append]
    simp [arrivals]
  | hangUp htask hin hclosed => exact absurd hclosed hforwarder
  | timer d now due htask hin hopen hset hd hdue =>
    have hsent : s.sent ++ (drain due s.pending).1 = Pipeline.sent
        { s with pending := (drain due s.pending).2,
                 debouncer := .running (drain due s.pending).1 } := by
      simp [Pipeline.sent, htask, Debouncer.out]
    rw [hin] at hsteps
    have htimer := hsteps.tail (.timer now due (fun d' hd' => ?_) hdue)
    · rw [hsent] at htimer
      refine ⟨hforwarder, by simp, hreconciler, _, by rw [hin]; exact htimer, ?_⟩
      rw [← haccepted, arrivals_append]
      simp [arrivals]
    · rw [hset] at hd'
      exact Option.some.inj hd' ▸ hd
  | send ev out htask =>
    refine ⟨hforwarder, by simp, hreconciler, labels, ?_, haccepted⟩
    simpa [Pipeline.sent, htask, Debouncer.out] using hsteps
  | refuseSend ev out htask hclosed => exact absurd hclosed hreconciler
  | receive ev debounced htask hgoes hin =>
    refine ⟨hforwarder, hdebouncer, by simp, labels, ?_, haccepted⟩
    simpa [Pipeline.sent, htask, hin, Relay.held] using hsteps
  | stopReconciler htask hcancel => cases hcancel
  | closeReconciler htask hin hclosed => exact absurd hclosed hdebouncer
  | handle ev htask =>
    refine ⟨hforwarder, hdebouncer, by simp, labels, ?_, haccepted⟩
    simpa [Pipeline.sent, htask, Relay.held] using hsteps

/-- The events about a path that were handled or are on the way are some of those that arrived, in
their order, and end with the last of them. -/
lemma Delivers.latest (h : Delivers window s) (p : RelPath) :
    (about p s.handled ++ s.underway p).Sublist (about p s.accepted) ∧
      (about p s.handled ++ s.underway p).getLast? = (about p s.accepted).getLast? := by
  obtain ⟨labels, hsteps, haccepted⟩ := h.run
  obtain ⟨hsub, hlast⟩ := debounce_latest hsteps rfl p
  have hsplit : about p s.handled ++ s.underway p =
      (about p s.sent ++ ((s.pending.val p).map Prod.fst).toList ++ about p s.raw) ++
        about p (s.forwarder.held ++ s.inbox) := by
    simp [Pipeline.underway, Pipeline.sent, about]
  have hall : about p s.accepted =
      about p (arrivals labels) ++ about p (s.forwarder.held ++ s.inbox) := by
    rw [← haccepted, List.append_assoc]
    exact List.filter_append ..
  rw [hsplit, hall]
  refine ⟨hsub.append_right _, ?_⟩
  calc _ = _ := List.getLast?_append
    _ = _ := congrArg _ hlast
    _ = _ := List.getLast?_append.symm

/-! ## The tasks come to rest -/

/-- The work that is left: each event has so many steps before it, and each task has its end. -/
def Pipeline.work (s : Pipeline) : ℕ :=
  6 * s.forwarder.held.length + 5 * s.raw.length + 4 * s.pending.rows.length +
    3 * s.debouncer.out.length + 2 * s.debounced.length + s.reconciler.held.length +
    s.forwarder.alive + s.debouncer.alive + s.reconciler.alive

lemma length_remove_lt {k : RelPath} {e : WatchEvent × ℕ} {pending : Pending}
    (hval : pending.val k = some e) : (pending.remove k).rows.length < pending.rows.length := by
  have hmem := FinMap.val_eq_some.mp hval
  refine lt_of_le_of_ne (List.length_filter_le _ _) fun heq => ?_
  have hall := List.length_filter_eq_length_iff.mp heq _ hmem
  simp at hall

/-- A round of the timer moves entries, and at least one. -/
lemma length_drain {due : List RelPath} {pending : Pending} :
    (drain due pending).1.length + (drain due pending).2.rows.length ≤ pending.rows.length := by
  induction due generalizing pending with
  | nil => simp [drain]
  | cons k due ih =>
    simp only [drain]
    cases hval : pending.val k with
    | none => exact ih
    | some e =>
      have hless := length_remove_lt hval
      have hrest := @ih (pending.remove k)
      simp only [List.length_cons]
      omega

lemma out_ne_nil {due : List RelPath} {pending : Pending} {d now : ℕ}
    (hset : nextDeadline pending = some d) (hd : d ≤ now)
    (hdue : due.Perm (dueKeys pending now)) : (drain due pending).1 ≠ [] := by
  obtain ⟨r, hr, rfl⟩ := List.mem_map.mp (List.min?_mem hset)
  have hval : pending.val r.1 = some r.2 := FinMap.val_eq_some.mpr hr
  have hmem : r.1 ∈ due := hdue.mem_iff.mpr (mem_dueKeys.mpr ⟨r.2.1, r.2.2, hd, hval⟩)
  rw [sent_drain (hdue.nodup_iff.mpr nodup_dueKeys)]
  intro hnil
  have hsome := List.filterMap_eq_nil_iff.mp hnil _ hmem
  rw [hval] at hsome
  cases hsome

lemma length_set_le {k : RelPath} {e : WatchEvent × ℕ} {pending : Pending} :
    (pending.set k e).rows.length ≤ pending.rows.length + 1 := by
  show (pending.rows.filter _ ++ [(k, e)]).length ≤ _
  rw [List.length_append]
  exact Nat.add_le_add_right (List.length_filter_le _ _) 1

/-- **Every step** of the three tasks uses up work. -/
lemma Step.work_lt (hstep : Step window cancelled s s') :
    s'.work + 7 * s'.inbox.length < s.work + 7 * s.inbox.length := by
  cases hstep with
  | forward ev inbox htask hgoes hin => simp +arith [Pipeline.work, htask, hin]
  | stopForwarder htask hcancel => simp [Pipeline.work, htask]
  | push ev htask => simp +arith [Pipeline.work, htask]
  | refusePush ev htask hclosed => simp +arith [Pipeline.work, htask]
  | take ev raw now htask hin =>
    have hset := @length_set_le (keyOf ev) (ev, now + window) s.pending
    simp only [Pipeline.work, htask, hin, List.length_cons]
    omega
  | hangUp htask hin hclosed => simp [Pipeline.work, htask]
  | timer d now due htask hin hopen hset hd hdue =>
    have hmoved := @length_drain due s.pending
    have hsome := List.length_pos_iff.mpr (out_ne_nil hset hd hdue)
    simp only [Pipeline.work, htask, out_running, alive_running, List.length_nil]
    omega
  | send ev out htask => simp +arith [Pipeline.work, htask]
  | refuseSend ev out htask hclosed => simp +arith [Pipeline.work, htask]
  | receive ev debounced htask hgoes hin => simp +arith [Pipeline.work, htask, hin]
  | stopReconciler htask hcancel => simp [Pipeline.work, htask]
  | closeReconciler htask hin hclosed => simp [Pipeline.work, htask]
  | handle ev htask => simp [Pipeline.work, htask]

/-- Nothing is forwarded any more after a cancellation. -/
lemma Step.inbox_eq (hstep : Step window true s s') : s'.inbox = s.inbox := by
  cases hstep with
  | forward ev inbox htask hgoes => cases hgoes
  | _ => rfl

/-- A channel that is full holds something. -/
lemma exists_cons_of_full {α : Type} {l : List α} (h : ¬l.length < capacity) :
    ∃ x rest, l = x :: rest := by
  cases l with
  | nil => exact absurd (by simp [capacity]) h
  | cons x rest => exact ⟨x, rest, rfl⟩

/-- As long as the handler of events takes its steps, the debouncer is not held up. -/
lemma debouncer_goes_on {ev : WatchEvent} {out : List WatchEvent}
    (hout : s.debouncer = .running (ev :: out))
    (hreceive : s.debounced ≠ [] → s.reconciler = .receiving → ∃ s', Step window cancelled s s') :
    ∃ s', Step window cancelled s s' := by
  cases hr : s.reconciler with
  | ended => exact ⟨_, .refuseSend ev out hout hr⟩
  | holding x => exact ⟨_, .handle x hr⟩
  | receiving =>
    by_cases hroom : s.debounced.length < capacity
    · exact ⟨_, .send ev out hout hroom (by simp [hr])⟩
    · obtain ⟨x, rest, hfull⟩ := exists_cons_of_full hroom
      exact hreceive (by simp [hfull]) hr

/-- As long as the debouncer is not held up, neither is the task before it. -/
lemma forwarder_goes_on {ev : WatchEvent} (hholds : s.forwarder = .holding ev)
    (hreceive : s.debounced ≠ [] → s.reconciler = .receiving → ∃ s', Step window cancelled s s') :
    ∃ s', Step window cancelled s s' := by
  cases hd : s.debouncer with
  | ended => exact ⟨_, .refusePush ev hholds hd⟩
  | running out =>
    cases out with
    | cons x out => exact debouncer_goes_on hd hreceive
    | nil =>
      by_cases hroom : s.raw.length < capacity
      · exact ⟨_, .push ev hholds hroom (by simp [hd])⟩
      · obtain ⟨x, rest, hfull⟩ := exists_cons_of_full hroom
        exact ⟨_, .take x rest 0 hd hfull⟩

/-- **No task waits for ever** for another: when nothing can happen the events have all been
handled. -/
lemma Delivers.settled (h : Delivers window s) (hstuck : ∀ s', ¬Step window false s s')
    (p : RelPath) : s.underway p = [] := by
  have hgoes : ¬∃ s', Step window false s s' := fun ⟨s', hstep⟩ => hstuck s' hstep
  have hreceive : s.debounced ≠ [] → s.reconciler = .receiving → ∃ s', Step window false s s' := by
    intro hsome htask
    obtain ⟨x, rest, hin⟩ := List.exists_cons_of_ne_nil hsome
    exact ⟨_, .receive x rest htask rfl hin⟩
  have hreconciler : s.reconciler = .receiving := by
    cases hr : s.reconciler with
    | receiving => rfl
    | holding x => exact absurd ⟨_, .handle x hr⟩ hgoes
    | ended => exact absurd hr h.reconciler
  have hforwarder : s.forwarder = .receiving := by
    cases hf : s.forwarder with
    | receiving => rfl
    | holding x => exact absurd (forwarder_goes_on hf hreceive) hgoes
    | ended => exact absurd hf h.forwarder
  have hdebouncer : s.debouncer = .running [] := by
    cases hd : s.debouncer with
    | ended => exact absurd hd h.debouncer
    | running out =>
      cases out with
      | nil => rfl
      | cons x out => exact absurd (debouncer_goes_on hd hreceive) hgoes
  have hdebounced : s.debounced = [] := by
    by_contra hsome
    exact hgoes (hreceive hsome hreconciler)
  have hinbox : s.inbox = [] := by
    by_contra hsome
    obtain ⟨x, rest, hin⟩ := List.exists_cons_of_ne_nil hsome
    exact hgoes ⟨_, .forward x rest hforwarder rfl hin⟩
  have hraw : s.raw = [] := by
    by_contra hsome
    obtain ⟨x, rest, hin⟩ := List.exists_cons_of_ne_nil hsome
    exact hgoes ⟨_, .take x rest 0 hdebouncer hin⟩
  have hpending : s.pending.val p = none := by
    cases hset : nextDeadline s.pending with
    | some d =>
      exact absurd ⟨_, .timer d d _ hdebouncer hraw h.forwarder hset le_rfl (.refl _)⟩ hgoes
    | none =>
      have hrows : s.pending.rows = [] := List.map_eq_nil_iff.mp (List.min?_eq_none_iff.mp hset)
      simp [FinMap.val, Table.get, hrows]
  simp [Pipeline.underway, hreconciler, hforwarder, hdebouncer, hdebounced, hinbox, hraw, hpending,
    about]

/-- After a cancellation nothing keeps the three tasks from ending. -/
lemma ended_of_stuck (hstuck : ∀ s', ¬Step window true s s') :
    s.forwarder = .ended ∧ s.debouncer = .ended ∧ s.reconciler = .ended := by
  have hgoes : ¬∃ s', Step window true s s' := fun ⟨s', hstep⟩ => hstuck s' hstep
  have hreceive : s.debounced ≠ [] → s.reconciler = .receiving → ∃ s', Step window true s s' :=
    fun _ htask => ⟨_, .stopReconciler htask rfl⟩
  have hreconciler : s.reconciler = .ended := by
    cases hr : s.reconciler with
    | receiving => exact absurd ⟨_, .stopReconciler hr rfl⟩ hgoes
    | holding x => exact absurd ⟨_, .handle x hr⟩ hgoes
    | ended => rfl
  have hforwarder : s.forwarder = .ended := by
    cases hf : s.forwarder with
    | receiving => exact absurd ⟨_, .stopForwarder hf rfl⟩ hgoes
    | holding x => exact absurd (forwarder_goes_on hf hreceive) hgoes
    | ended => rfl
  refine ⟨hforwarder, ?_, hreconciler⟩
  cases hd : s.debouncer with
  | ended => rfl
  | running out =>
    cases out with
    | cons x out => exact absurd (debouncer_goes_on hd hreceive) hgoes
    | nil =>
      cases hraw : s.raw with
      | nil => exact absurd ⟨_, .hangUp hd hraw hforwarder⟩ hgoes
      | cons x rest => exact absurd ⟨_, .take x rest 0 hd hraw⟩ hgoes

/-! ## The other tasks -/

/-- The change poller: it waits for its interval, makes a round, and sends what it found. -/
inductive Poller
  | sleeping
  | polling
  | sending (b : RemoteBatch)
  | ended

/-- The dispatcher: it waits, or executes what is due. -/
inductive Dispatcher
  | waiting
  | busy
  | ended

/-- The tasks that `run` waits for. -/
inductive TaskName
  | signal
  | forwarder
  | debouncer
  | reconcileLocal
  | poller
  | reconcileRemote
  | dispatcher
  | control
deriving DecidableEq

/-- All tasks, in the order in which `run` waits for them. -/
def TaskName.all : List TaskName :=
  [.signal, .forwarder, .debouncer, .reconcileLocal, .poller, .reconcileRemote, .dispatcher,
    .control]

/-- `daemon::run` after it has spawned its tasks. -/
structure Daemon where
  /-- The cancellation token. -/
  cancelled : Bool
  /-- The task that waits for a signal has ended. -/
  signalled : Bool
  /-- The tasks for local events. -/
  pipeline : Pipeline
  /-- `changes::run`. -/
  poller : Poller
  /-- The channel of remote batches. -/
  batches : List RemoteBatch
  /-- The task that applies remote batches. -/
  consumer : Relay RemoteBatch
  /-- `runtime::run`. -/
  dispatcher : Dispatcher
  /-- `run_control_server` accepts clients. -/
  serving : Bool
  /-- The tasks that `run` still waits for. -/
  awaiting : List TaskName

/-- The daemon when all tasks are spawned. -/
def Daemon.start : Daemon :=
  ⟨false, false, .start, .sleeping, [], .receiving, .waiting, true, TaskName.all⟩

/-- The task has ended. -/
def Daemon.Ended (d : Daemon) : TaskName → Prop
  | .signal => d.signalled = true
  | .forwarder => d.pipeline.forwarder = .ended
  | .debouncer => d.pipeline.debouncer = .ended
  | .reconcileLocal => d.pipeline.reconciler = .ended
  | .poller => d.poller = .ended
  | .reconcileRemote => d.consumer = .ended
  | .dispatcher => d.dispatcher = .ended
  | .control => d.serving = false

/-- A step of one of the tasks, or of `run`. The poller and the dispatcher return when the state
cannot be read, and the control server when it cannot be set up. -/
inductive Daemon.Step (window : ℕ) (d : Daemon) : Daemon → Prop
  | events (p : Pipeline) (hstep : Tasks.Step window d.cancelled d.pipeline p) :
      Step window d { d with pipeline := p }
  | stopPoller (htask : d.poller = .sleeping) (hcancel : d.cancelled = true) :
      Step window d { d with poller := .ended }
  | failPoller (htask : d.poller = .polling) : Step window d { d with poller := .ended }
  | skipRound (htask : d.poller = .polling) : Step window d { d with poller := .sleeping }
  | endRound (b : RemoteBatch) (htask : d.poller = .polling) :
      Step window d { d with poller := .sending b }
  | sendBatch (b : RemoteBatch) (htask : d.poller = .sending b)
      (hroom : d.batches.length < capacity) (hopen : d.consumer ≠ .ended) :
      Step window d { d with poller := .sleeping, batches := d.batches ++ [b] }
  | refuseBatch (b : RemoteBatch) (htask : d.poller = .sending b) (hclosed : d.consumer = .ended) :
      Step window d { d with poller := .ended }
  | receiveBatch (b : RemoteBatch) (batches : List RemoteBatch) (htask : d.consumer = .receiving)
      (hgoes : d.cancelled = false) (hin : d.batches = b :: batches) :
      Step window d { d with consumer := .holding b, batches }
  | stopConsumer (htask : d.consumer = .receiving) (hcancel : d.cancelled = true) :
      Step window d { d with consumer := .ended }
  | applyBatch (b : RemoteBatch) (htask : d.consumer = .holding b) :
      Step window d { d with consumer := .receiving }
  | stopDispatcher (htask : d.dispatcher = .waiting) (hcancel : d.cancelled = true) :
      Step window d { d with dispatcher := .ended }
  | failDispatcher (htask : d.dispatcher = .busy) : Step window d { d with dispatcher := .ended }
  | drained (htask : d.dispatcher = .busy) : Step window d { d with dispatcher := .waiting }
  | stopControl (htask : d.serving = true) : Step window d { d with serving := false }
  | join (t : TaskName) (rest : List TaskName) (hawaits : d.awaiting = t :: rest)
      (hended : d.Ended t) : Step window d { d with awaiting := rest }
  /-- The dispatcher has not ended within 20 seconds, and is aborted. -/
  | abort (rest : List TaskName) (hawaits : d.awaiting = .dispatcher :: rest) :
      Step window d { d with dispatcher := .ended, awaiting := rest }

/-- What comes from outside, or with the time. -/
inductive Daemon.Outside (d : Daemon) : Daemon → Prop
  | event (ev : WatchEvent) (p : Pipeline) (harrives : Arrives ev d.pipeline p) :
      Outside d { d with pipeline := p }
  | interval (htask : d.poller = .sleeping) (hgoes : d.cancelled = false) :
      Outside d { d with poller := .polling }
  | wake (htask : d.dispatcher = .waiting) (hgoes : d.cancelled = false) :
      Outside d { d with dispatcher := .busy }
  /-- `SIGTERM` or `SIGINT`. -/
  | signal : Outside d { d with cancelled := true, signalled := true }
  /-- Whoever called `run` cancels the token. -/
  | cancel : Outside d { d with cancelled := true }

/-- The states of a daemon that has started. -/
inductive Reachable (window : ℕ) : Daemon → Prop
  | start : Reachable window .start
  | step {d d' : Daemon} (h : Reachable window d) (hstep : d.Step window d') : Reachable window d'
  | outside {d d' : Daemon} (h : Reachable window d) (houtside : d.Outside d') : Reachable window d'

variable {d d' : Daemon}

/-- Until it is cancelled the daemon brings every event to its handler. -/
lemma Reachable.delivers (h : Reachable window d) (hgoes : d.cancelled = false) :
    Delivers window d.pipeline := by
  induction h with
  | start => exact .start
  | step h hstep ih =>
    cases hstep with
    | events p hstep =>
      rw [show _ = false from hgoes] at hstep
      exact (ih hgoes).step hstep
    | _ => exact ih hgoes
  | outside h houtside ih =>
    cases houtside with
    | event ev p harrives => exact (ih hgoes).arrives harrives
    | interval | wake => exact ih hgoes
    | signal | cancel => cases hgoes

/-- **The way of the local events**, as long as nothing is cancelled: the events about a path that
were handled or are on the way are some of those that arrived, in their order, and end with the last
of them; when no task can take a step all were handled, so that the last event that arrived about a
path is the last that was handled; and without further events the tasks soon come to this point. -/
theorem events_settle (h : Reachable window d) (hgoes : d.cancelled = false) :
    (∀ p, (about p d.pipeline.handled ++ d.pipeline.underway p).Sublist
        (about p d.pipeline.accepted) ∧
      (about p d.pipeline.handled ++ d.pipeline.underway p).getLast? =
        (about p d.pipeline.accepted).getLast?) ∧
    ((∀ s', ¬Step window false d.pipeline s') → ∀ p,
      (about p d.pipeline.handled).getLast? = (about p d.pipeline.accepted).getLast?) ∧
    ∀ n s', RunsAmong (Step window false) (fun _ _ => False) n d.pipeline s' →
      n ≤ d.pipeline.work + 7 * d.pipeline.inbox.length := by
  have hdelivers := h.delivers hgoes
  refine ⟨hdelivers.latest, fun hstuck p => ?_, fun n s' hrun => ?_⟩
  · have hlast := (hdelivers.latest p).2
    rwa [hdelivers.settled hstuck p, List.append_nil] at hlast
  · have hbound := hrun.bounded (I := fun _ => True) (fun s => s.work + 7 * s.inbox.length)
      (fun _ _ _ hstep => ⟨trivial, hstep.work_lt⟩) (fun _ _ _ hfalse => hfalse.elim) trivial
    omega

/-- The daemon when an edit was handled. -/
def edited : Daemon :=
  { Daemon.start with
    pipeline := { Pipeline.start with
      accepted := [.modified ["a"]]
      handled := [.modified ["a"]] } }

/-- The edit takes seven steps. -/
lemma reachable_edited : Reachable 200 edited := by
  have hstart : Reachable 200 .start := .start
  have harrived := hstart.outside
    (.event (.modified ["a"]) _ (.accept (by decide) (by simp [Daemon.start, Pipeline.start])))
  have hforwarded := (harrived.step (.events _ (.forward _ _ rfl rfl rfl))).step
    (.events _ (.push _ rfl (by decide) (by simp [Daemon.start, Pipeline.start])))
  have htaken := hforwarded.step (.events _ (.take _ _ 10 rfl rfl))
  have htimer := htaken.step (.events _ (.timer 210 210 [["a"]] rfl rfl (by simp) rfl
    le_rfl (.refl _)))
  have hsent := htimer.step (.events _ (.send (.modified ["a"]) [] rfl (by decide)
    (by simp [Daemon.start, Pipeline.start])))
  exact (hsent.step (.events _ (.receive _ _ rfl rfl rfl))).step (.events _ (.handle _ rfl))

/-- `events_settle`, of the edit. -/
theorem edit_settles : (about ["a"] edited.pipeline.handled).getLast? =
    (about ["a"] edited.pipeline.accepted).getLast? := by
  refine (events_settle reachable_edited rfl).2.1 (fun s' hstep => ?_) ["a"]
  cases hstep <;> simp_all [edited, Daemon.start, Pipeline.start, nextDeadline]

/-! ## The shutdown -/

/-- The steps that the poller still takes. -/
def Poller.left : Poller → ℕ
  | .polling => 3
  | .sending _ => 2
  | .sleeping => 1
  | .ended => 0

/-- The steps that the dispatcher still takes. -/
def Dispatcher.left : Dispatcher → ℕ
  | .busy => 2
  | .waiting => 1
  | .ended => 0

/-- The work that is left after a cancellation. -/
def Daemon.work (d : Daemon) : ℕ :=
  d.pipeline.work + d.poller.left + d.consumer.held.length + d.consumer.alive +
    d.dispatcher.left + d.serving.toNat + d.awaiting.length

/-- The token stays cancelled. -/
lemma Daemon.Step.cancelled_eq (hstep : d.Step window d') : d'.cancelled = d.cancelled := by
  cases hstep <;> rfl

/-- **Every step after the cancellation** uses up work. -/
lemma Daemon.Step.work_lt (hstep : d.Step window d') (hcancel : d.cancelled = true) :
    d'.work < d.work := by
  cases hstep with
  | events p hstep =>
    rw [hcancel] at hstep
    have hless := hstep.work_lt
    rw [hstep.inbox_eq] at hless
    simp only [Daemon.work]
    omega
  | stopPoller htask => simp [Daemon.work, htask, Poller.left]
  | failPoller htask => simp [Daemon.work, htask, Poller.left]
  | skipRound htask => simp [Daemon.work, htask, Poller.left]
  | endRound b htask => simp [Daemon.work, htask, Poller.left]
  | sendBatch b htask => simp [Daemon.work, htask, Poller.left]
  | refuseBatch b htask => simp [Daemon.work, htask, Poller.left]
  | receiveBatch b batches htask hgoes =>
    rw [hcancel] at hgoes
    cases hgoes
  | stopConsumer htask => simp [Daemon.work, htask]
  | applyBatch b htask => simp [Daemon.work, htask]
  | stopDispatcher htask => simp [Daemon.work, htask, Dispatcher.left]
  | failDispatcher htask => simp [Daemon.work, htask, Dispatcher.left]
  | drained htask => simp [Daemon.work, htask, Dispatcher.left]
  | stopControl htask => simp [Daemon.work, htask]
  | join t rest hawaits => simp [Daemon.work, hawaits]
  | abort rest hawaits =>
    have hnone : Dispatcher.ended.left = 0 := rfl
    simp only [Daemon.work, hawaits, hnone, List.length_cons]
    omega

/-- What comes from outside after the cancellation makes no work. -/
lemma Daemon.Outside.work_eq (houtside : d.Outside d') (hcancel : d.cancelled = true) :
    d'.cancelled = true ∧ d'.work = d.work := by
  cases houtside with
  | event ev p harrives => exact ⟨hcancel, by cases harrives <;> rfl⟩
  | interval htask hgoes | wake htask hgoes =>
    rw [hcancel] at hgoes
    cases hgoes
  | signal | cancel => exact ⟨rfl, rfl⟩

/-- Nothing keeps a task from ending after the cancellation. -/
lemma Daemon.ended_of_stuck (hcancel : d.cancelled = true) (hstuck : ∀ d', ¬d.Step window d')
    (t : TaskName) (ht : t ≠ .signal) : d.Ended t := by
  have hlocal : ∀ p, ¬Tasks.Step window true d.pipeline p := fun p hstep =>
    hstuck _ (.events p (by rw [hcancel]; exact hstep))
  obtain ⟨hforwarder, hdebouncer, hreconciler⟩ := Tasks.ended_of_stuck hlocal
  have hconsumer : d.consumer = .ended := by
    cases hc : d.consumer with
    | receiving => exact absurd (.stopConsumer hc hcancel) (hstuck _)
    | holding b => exact absurd (.applyBatch b hc) (hstuck _)
    | ended => rfl
  cases t with
  | signal => exact absurd rfl ht
  | forwarder => exact hforwarder
  | debouncer => exact hdebouncer
  | reconcileLocal => exact hreconciler
  | poller =>
    cases hp : d.poller with
    | sleeping => exact absurd (.stopPoller hp hcancel) (hstuck _)
    | polling => exact absurd (.skipRound hp) (hstuck _)
    | sending b => exact absurd (.refuseBatch b hp hconsumer) (hstuck _)
    | ended => exact hp
  | reconcileRemote => exact hconsumer
  | dispatcher =>
    cases hd : d.dispatcher with
    | waiting => exact absurd (.stopDispatcher hd hcancel) (hstuck _)
    | busy => exact absurd (.drained hd) (hstuck _)
    | ended => exact hd
  | control =>
    cases hs : d.serving with
    | true => exact absurd (.stopControl hs) (hstuck _)
    | false => exact hs

/-- `run` does not return before there was a signal. -/
lemma Reachable.waits (h : Reachable window d) : .signal ∈ d.awaiting ∨ d.signalled = true := by
  induction h with
  | start => exact .inl (by decide)
  | step h hstep ih =>
    cases hstep with
    | join t rest hawaits hended =>
      refine ih.elim (fun hin => ?_) .inr
      rw [hawaits] at hin
      rcases List.mem_cons.mp hin with rfl | hrest
      · exact .inr hended
      · exact .inl hrest
    | abort rest hawaits =>
      refine ih.imp_left fun hin => ?_
      rw [hawaits] at hin
      exact (List.mem_cons.mp hin).resolve_left (by decide)
    | _ => exact ih
  | outside h houtside ih =>
    cases houtside with
    | signal => exact .inr rfl
    | _ => exact ih

/-- **The shutdown**: after the cancellation the tasks take a bounded number of steps, whatever is
in the channels and whatever still comes in; and when no step is left all tasks but the one that
waits for a signal have ended, and `run` has returned exactly when there was a signal. -/
theorem shutdown_ends (h : Reachable window d) (hcancel : d.cancelled = true)
    (hrun : RunsAmong (Daemon.Step window) Daemon.Outside n d d') :
    n ≤ d.work ∧ ((∀ d'', ¬d'.Step window d'') → (∀ t, t ≠ .signal → d'.Ended t) ∧
      (d'.awaiting = [] ↔ d'.signalled = true)) := by
  have hbound := hrun.bounded (I := fun d => d.cancelled = true) Daemon.work
    (fun _ _ hc hstep => ⟨hstep.cancelled_eq.trans hc, hstep.work_lt hc⟩)
    (fun _ _ hc houtside => (houtside.work_eq hc).imp_right Nat.le_of_eq) hcancel
  have hreach : Reachable window d' :=
    hrun.invariant (fun _ _ hr hstep => hr.step hstep) (fun _ _ hr ho => hr.outside ho) h
  have hcancel' : d'.cancelled = true :=
    hrun.invariant (I := fun d => d.cancelled = true)
      (fun _ _ hc hstep => hstep.cancelled_eq.trans hc)
      (fun _ _ hc houtside => (houtside.work_eq hc).1) hcancel
  refine ⟨by omega, fun hstuck => ⟨Daemon.ended_of_stuck hcancel' hstuck, fun hnil => ?_,
    fun hsignal => ?_⟩⟩
  · refine hreach.waits.resolve_left fun hin => ?_
    rw [hnil] at hin
    cases hin
  · cases hawaits : d'.awaiting with
    | nil => rfl
    | cons t rest =>
      refine absurd (.join t rest hawaits ?_) (hstuck _)
      by_cases ht : t = .signal
      · rw [ht]
        exact hsignal
      · exact Daemon.ended_of_stuck hcancel' hstuck t ht

/-- The daemon when a signal came. -/
def signalled : Daemon := { edited with cancelled := true, signalled := true }

/-- The daemon when `run` has returned. -/
def returned : Daemon where
  cancelled := true
  signalled := true
  pipeline :=
    { edited.pipeline with forwarder := .ended, debouncer := .ended, reconciler := .ended }
  poller := .ended
  batches := []
  consumer := .ended
  dispatcher := .ended
  serving := false
  awaiting := []

/-- It gets there. -/
lemma runs_returned : RunsAmong (Daemon.Step 200) Daemon.Outside 15 signalled returned := by
  have hstart : RunsAmong (Daemon.Step 200) Daemon.Outside 0 signalled signalled := .refl _
  have hlocal := ((hstart.step (.events _ (.stopForwarder rfl rfl))).step
    (.events _ (.hangUp rfl rfl rfl))).step (.events _ (.stopReconciler rfl rfl))
  have hall := (((hlocal.step (.stopPoller rfl rfl)).step (.stopConsumer rfl rfl)).step
    (.stopDispatcher rfl rfl)).step (.stopControl rfl)
  have hjoined := (((hall.step (.join _ _ rfl rfl)).step (.join _ _ rfl rfl)).step
    (.join _ _ rfl rfl)).step (.join _ _ rfl rfl)
  exact (((hjoined.step (.join _ _ rfl rfl)).step (.join _ _ rfl rfl)).step
    (.join _ _ rfl rfl)).step (.join _ _ rfl rfl)

/-- `shutdown_ends`, after the edit. -/
theorem signal_ends : 15 ≤ signalled.work ∧ ((∀ d, ¬returned.Step 200 d) →
    (∀ t, t ≠ .signal → returned.Ended t) ∧ (returned.awaiting = [] ↔ returned.signalled = true)) :=
  shutdown_ends (reachable_edited.outside .signal) rfl runs_returned

end AirDrive.Tasks
