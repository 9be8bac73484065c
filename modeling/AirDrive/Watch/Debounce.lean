import AirDrive.Data.Coalesce
import AirDrive.Reconcile.Continuous

set_option relaxedAutoImplicit false
set_option autoImplicit false

/-!
# The debouncer

One task between the watcher and the handler of local events. It keeps the last event of each path
for a window of time, and forwards it when no other event of the path came in. A rename waits under
its destination. The order in which the due entries are forwarded is that of a hash map, which is
any order.

## Main definitions

* `AirDrive.Debounce.keyOf` — the path under which an event waits.
* `AirDrive.Debounce.drain` — the loop over the due entries.
* `AirDrive.Debounce.State`, `AirDrive.Debounce.Step` — the task, and what happens to it.
* `AirDrive.Debounce.Steps` — its runs.

## Main results

* `AirDrive.Debounce.Steps.coalesces` — the task coalesces its events by path.
* `AirDrive.Debounce.debounce_sends_iff` — what the timer forwards.
* `AirDrive.Debounce.debounce_latest` — what is forwarded about a path.
* `AirDrive.Debounce.debounce_in_order` — events of different paths overtake each other only within
  one round of the timer.
-/

namespace AirDrive.Debounce

open Data Coalesce

/-- `DEFAULT_WINDOW`, in milliseconds. -/
def defaultWindow : ℕ := 200

/-- `key_of`: the path under which an event waits. -/
def keyOf : WatchEvent → RelPath
  | .created p | .modified p | .deleted p => p
  | .renamed _ to' => to'

/-- The waiting events by path, with their deadlines. -/
abbrev Pending := FinMap RelPath (WatchEvent × ℕ)

/-- The earliest deadline. -/
def nextDeadline (pending : Pending) : Option ℕ := (pending.rows.map fun r => r.2.2).min?

/-- The paths of the entries that are due. -/
def dueKeys (pending : Pending) (now : ℕ) : List RelPath :=
  (pending.rows.filter fun r => r.2.2 ≤ now).map Prod.fst

/-- The loop over the due paths: each entry is removed and sent. -/
def drain : List RelPath → Pending → List WatchEvent × Pending
  | [], pending => ([], pending)
  | k :: due, pending =>
    match pending.val k with
    | some (ev, _) => (ev :: (drain due (pending.remove k)).1, (drain due (pending.remove k)).2)
    | none => drain due pending

/-- The task and its two channels. -/
structure State where
  /-- What the incoming channel holds. -/
  rx : List WatchEvent
  /-- All senders of the incoming channel are gone. -/
  closed : Bool
  /-- The waiting events. -/
  pending : Pending
  /-- What was sent on the outgoing channel. -/
  sent : List WatchEvent
  /-- `run` has returned. -/
  returned : Bool

/-- The task when it is spawned. -/
def State.start : State := ⟨[], false, Table.empty, [], false⟩

/-- What a step is to an onlooker. -/
inductive Label
  /-- An event enters the incoming channel. -/
  | arrive (ev : WatchEvent)
  /-- The task receives an event, or forwards those that are due. -/
  | act (x : Act WatchEvent ℕ)
  /-- The incoming channel is closed, or the task returns. -/
  | quiet

/-- A step of the task or of the other ends of its channels. The branch of the `select!` that is
listed first, the reception, is taken when it is ready. -/
inductive Step (window : ℕ) : State → Label → State → Prop
  | arrive {rx : List WatchEvent} {pending : Pending} {sent : List WatchEvent} {r : Bool}
      (ev : WatchEvent) :
      Step window ⟨rx, false, pending, sent, r⟩ (.arrive ev) ⟨rx ++ [ev], false, pending, sent, r⟩
  | close {rx : List WatchEvent} {pending : Pending} {sent : List WatchEvent} {r : Bool} :
      Step window ⟨rx, false, pending, sent, r⟩ .quiet ⟨rx, true, pending, sent, r⟩
  | recv {ev : WatchEvent} {rx : List WatchEvent} {c : Bool} {pending : Pending}
      {sent : List WatchEvent} (now : ℕ) :
      Step window ⟨ev :: rx, c, pending, sent, false⟩ (.act (.recv now ev))
        ⟨rx, c, pending.set (keyOf ev) (ev, now + window), sent, false⟩
  | hangUp {pending : Pending} {sent : List WatchEvent} :
      Step window ⟨[], true, pending, sent, false⟩ .quiet ⟨[], true, pending, sent, true⟩
  | timer {pending : Pending} {sent : List WatchEvent} (now : ℕ) (due : List RelPath)
      (hset : ∀ d, nextDeadline pending = some d → d ≤ now)
      (hdue : due.Perm (dueKeys pending now)) :
      Step window ⟨[], false, pending, sent, false⟩ (.act (.flush now (drain due pending).1))
        ⟨[], false, (drain due pending).2, sent ++ (drain due pending).1, false⟩
  /-- The receiver is gone: the task returns in the middle of its loop. -/
  | refused {pending : Pending} {sent : List WatchEvent} (now : ℕ) (due : List RelPath) (n : ℕ)
      (hdue : due.Perm (dueKeys pending now)) :
      Step window ⟨[], false, pending, sent, false⟩ .quiet
        ⟨[], false, (drain (due.take (n + 1)) pending).2, sent ++ (drain (due.take n) pending).1,
          true⟩

/-- A run of the task. -/
inductive Steps (window : ℕ) : State → List Label → State → Prop
  | refl (s : State) : Steps window s [] s
  | tail {s s' s'' : State} {labels : List Label} {label : Label} (run : Steps window s labels s')
      (step : Step window s' label s'') : Steps window s (labels ++ [label]) s''

/-- The events that entered the incoming channel. -/
def arrivals (labels : List Label) : List WatchEvent :=
  labels.flatMap fun
    | .arrive ev => [ev]
    | _ => []

/-- What the task did with its events. -/
def acts (labels : List Label) : List (Act WatchEvent ℕ) :=
  labels.flatMap fun
    | .act x => [x]
    | _ => []

/-- The events among some that are about a path. -/
def about (p : RelPath) (events : List WatchEvent) : List WatchEvent :=
  events.filter fun ev => keyOf ev = p

variable {window now t t' : ℕ} {s : State} {labels : List Label} {pending : Pending}
  {due : List RelPath} {ev ev' : WatchEvent} {out : List WatchEvent}
  {before after first second mid : List (Act WatchEvent ℕ)}

/-! ## One round of the timer -/

/-- Every entry waits under the path of its event. -/
def Filed (pending : Pending) : Prop := ∀ k ev d, pending.val k = some (ev, d) → keyOf ev = k

lemma mem_dueKeys {k : RelPath} :
    k ∈ dueKeys pending now ↔ ∃ ev, ∃ d ≤ now, pending.val k = some (ev, d) := by
  simp only [dueKeys, List.mem_map, List.mem_filter, decide_eq_true_eq, Prod.exists,
    exists_and_right, exists_eq_right, FinMap.val_eq_some]
  constructor
  · rintro ⟨ev, d, hmem, hd⟩
    exact ⟨ev, d, hd, hmem⟩
  · rintro ⟨ev, d, hd, hmem⟩
    exact ⟨ev, d, hmem, hd⟩

lemma nodup_dueKeys : (dueKeys pending now).Nodup :=
  pending.nodup.sublist (List.filter_sublist.map _)

/-- What the loop leaves waiting. -/
lemma val_drain (k : RelPath) :
    (drain due pending).2.val k = if k ∈ due then none else pending.val k := by
  induction due generalizing pending with
  | nil => simp [drain]
  | cons j due ih =>
    simp only [drain]
    cases hj : pending.val j with
    | none =>
      simp only
      rw [ih]
      by_cases hk : k = j
      · simp [hk, hj]
      · simp [hk]
    | some e =>
      simp only
      rw [ih]
      by_cases hk : k = j
      · simp [hk]
      · simp [hk, FinMap.val_remove_ne pending hk]

/-- What the loop sends: the entry of each path. -/
lemma sent_drain (hnodup : due.Nodup) :
    (drain due pending).1 = due.filterMap fun k => (pending.val k).map Prod.fst := by
  induction due generalizing pending with
  | nil => rfl
  | cons k due ih =>
    obtain ⟨hk, hnodup⟩ := List.nodup_cons.mp hnodup
    simp only [drain]
    cases hval : pending.val k with
    | none => simp [hval, ih hnodup]
    | some e =>
      have hrest : (due.filterMap fun j => ((pending.remove k).val j).map Prod.fst) =
          due.filterMap fun j => (pending.val j).map Prod.fst := by
        refine List.filterMap_congr fun j hj => ?_
        rw [FinMap.val_remove_ne pending (ne_of_mem_of_not_mem hj hk)]
      simp [hval, ih hnodup, hrest]

/-- **A round of the timer is a flush**, in whatever order the entries are visited. -/
lemma drain_fits (window : ℕ) (hfiled : Filed pending) (hdue : due.Perm (dueKeys pending now)) :
    (Act.flush now (drain due pending).1).Fits keyOf pending.val ∧
      (drain due pending).2.val =
        (Act.flush now (drain due pending).1).next keyOf (· + window) pending.val := by
  have hnodup : due.Nodup := hdue.nodup_iff.mpr nodup_dueKeys
  have hmem : ∀ k, k ∈ due ↔ ∃ ev, ∃ d ≤ now, pending.val k = some (ev, d) := fun k =>
    hdue.mem_iff.trans mem_dueKeys
  refine ⟨⟨?_, fun ev => ?_⟩, ?_⟩
  · -- each event is filed under the path that is visited
    rw [sent_drain hnodup]
    have hkeys : (due.filterMap fun k => (pending.val k).map Prod.fst).map keyOf = due := by
      rw [List.map_filterMap]
      refine (List.filterMap_congr fun k hk => ?_).trans List.filterMap_some
      obtain ⟨ev, d, -, hval⟩ := (hmem k).mp hk
      simp [hval, hfiled k ev d hval]
    rw [hkeys]
    exact hnodup
  · rw [sent_drain hnodup, List.mem_filterMap]
    constructor
    · rintro ⟨k, hk, hval⟩
      obtain ⟨ev', d, hd, hentry⟩ := (hmem k).mp hk
      rw [hentry] at hval
      obtain rfl := Option.some.inj hval
      exact ⟨d, hd, by rw [hfiled k _ _ hentry, hentry]⟩
    · rintro ⟨d, hd, hval⟩
      exact ⟨keyOf ev, (hmem _).mpr ⟨ev, d, hd, hval⟩, by rw [hval]; rfl⟩
  · funext k
    rw [val_drain, next_flush]
    by_cases hk : k ∈ due
    · obtain ⟨ev, d, hd, hval⟩ := (hmem k).mp hk
      rw [if_pos hk, hval, Option.filter_some, if_neg (by simpa using hd)]
    · rw [if_neg hk]
      cases hval : pending.val k with
      | none => rfl
      | some e =>
        have hlate : now < e.2 := by
          by_contra hd
          exact hk ((hmem k).mpr ⟨e.1, e.2, not_lt.mp hd, hval⟩)
        rw [Option.filter_some, if_pos (by simpa using hlate)]

/-! ## Runs -/

lemma acts_append {labels labels' : List Label} :
    acts (labels ++ labels') = acts labels ++ acts labels' :=
  List.flatMap_append

lemma arrivals_append {labels labels' : List Label} :
    arrivals (labels ++ labels') = arrivals labels ++ arrivals labels' := List.flatMap_append

/-- What a run of the task amounts to: its acts coalesce events by path, and as long as the task
runs its state is what they leave. -/
structure Coalesces (window : ℕ) (labels : List Label) (s : State) : Prop where
  run : Run keyOf (· + window) (acts labels) fun _ => none
  held : s.returned = false →
    s.pending.val = heldAfter keyOf (· + window) (acts labels) fun _ => none
  sent : s.returned = false → s.sent = (acts labels).flatMap Act.flushed
  received : s.returned = false → arrivals labels = (acts labels).flatMap Act.received ++ s.rx
  filed : Filed s.pending

/-- What a step that is no act has to keep. -/
lemma Coalesces.idle {s' : State} {label : Label} (h : Coalesces window labels s)
    (hlabel : acts [label] = []) (hfiled : Filed s'.pending)
    (hkeeps : s'.returned = false → s.returned = false ∧ s'.pending = s.pending ∧ s'.sent = s.sent ∧
      s.rx ++ arrivals [label] = s'.rx) : Coalesces window (labels ++ [label]) s' := by
  have hacts : acts (labels ++ [label]) = acts labels := by
    rw [acts_append, hlabel, List.append_nil]
  refine ⟨?_, fun hr => ?_, fun hr => ?_, fun hr => ?_, hfiled⟩
  · rw [hacts]
    exact h.run
  · rw [hacts, (hkeeps hr).2.1]
    exact h.held (hkeeps hr).1
  · rw [hacts, (hkeeps hr).2.2.1]
    exact h.sent (hkeeps hr).1
  · rw [hacts, arrivals_append, h.received (hkeeps hr).1, List.append_assoc, (hkeeps hr).2.2.2]

lemma filed_drain (hfiled : Filed pending) : Filed (drain due pending).2 := by
  intro k ev d hval
  rw [val_drain] at hval
  split_ifs at hval
  exact hfiled k ev d hval

lemma filed_set (hfiled : Filed pending) (ev : WatchEvent) (d : ℕ) :
    Filed (pending.set (keyOf ev) (ev, d)) := by
  intro k ev' d' hval
  by_cases hk : k = keyOf ev
  · subst hk
    rw [FinMap.val_set_self] at hval
    rw [(Prod.mk.inj (Option.some.inj hval)).1]
  · rw [FinMap.val_set_ne _ _ hk] at hval
    exact hfiled k ev' d' hval

/-- An entry that is set is one that was received. -/
lemma val_set_eq_next (ev : WatchEvent) (now : ℕ) :
    (pending.set (keyOf ev) (ev, now + window)).val =
      (Act.recv now ev).next keyOf (· + window) pending.val := by
  funext k
  by_cases hk : k = keyOf ev
  · subst hk
    rw [next_recv_self]
    exact FinMap.val_set_self _ _ _
  · rw [next_recv_ne hk]
    exact FinMap.val_set_ne _ _ hk

/-- **One step.** A reception and a round of the timer are acts of the coalescer, the other steps
are none. -/
lemma Coalesces.step {s' : State} {label : Label} (h : Coalesces window labels s)
    (hstep : Step window s label s') : Coalesces window (labels ++ [label]) s' := by
  cases hstep with
  | arrive ev => exact h.idle rfl h.filed fun hr => ⟨hr, rfl, rfl, rfl⟩
  | close => exact h.idle rfl h.filed fun hr => ⟨hr, rfl, rfl, List.append_nil _⟩
  | hangUp => exact h.idle rfl h.filed fun hr => absurd hr (by simp)
  | refused now due n hdue => exact h.idle rfl (filed_drain h.filed) fun hr => absurd hr (by simp)
  | @recv ev rx c pending sent now =>
    have hacts : acts (labels ++ [.act (.recv now ev)]) = acts labels ++ [.recv now ev] :=
      acts_append
    refine ⟨?_, fun _ => ?_, fun _ => ?_, fun _ => ?_, filed_set h.filed ev _⟩
    · rw [hacts, run_append]
      exact ⟨h.run, trivial, trivial⟩
    · rw [hacts, heldAfter_append, ← h.held rfl]
      exact val_set_eq_next ev now
    · rw [hacts, List.flatMap_append, ← h.sent rfl]
      exact (List.append_nil _).symm
    · rw [hacts, List.flatMap_append, arrivals_append, h.received rfl]
      simp [arrivals, Act.received]
  | @timer pending sent now due hset hdue =>
    have hacts : acts (labels ++ [.act (.flush now (drain due pending).1)]) =
      acts labels ++ [.flush now (drain due pending).1] := acts_append
    obtain ⟨hfits, hnext⟩ := drain_fits window h.filed hdue
    refine ⟨?_, fun _ => ?_, fun _ => ?_, fun _ => ?_, filed_drain h.filed⟩
    · rw [hacts, run_append, ← h.held rfl]
      exact ⟨h.run, hfits, trivial⟩
    · rw [hacts, heldAfter_append, ← h.held rfl]
      exact hnext
    · rw [hacts, List.flatMap_append, ← h.sent rfl]
      simp [Act.flushed]
    · rw [hacts, List.flatMap_append, arrivals_append, h.received rfl]
      simp [arrivals, Act.received]

/-- **The task coalesces its events** in every run. -/
lemma Steps.coalesces (h : Steps window State.start labels s) : Coalesces window labels s := by
  induction h with
  | refl =>
    exact ⟨trivial, fun _ => rfl, fun _ => rfl, fun _ => rfl, fun k ev d hval => by cases hval⟩
  | tail _ hstep ih => exact ih.step hstep

/-- **What the timer forwards**: at most one event for each path, and an event exactly when it was
received at least the window before, and since then nothing of its path was received and no round
of the timer came late enough for it. -/
theorem debounce_sends_iff (h : Steps window State.start labels s)
    (hround : acts labels = before ++ .flush now out :: after) :
    (out.map keyOf).Nodup ∧ ∀ ev, ev ∈ out ↔ ∃ pre t mid, before = pre ++ .recv t ev :: mid ∧
      t + window ≤ now ∧ Rests keyOf (keyOf ev) (t + window) mid :=
  mem_flush_iff (hround ▸ h.coalesces.run)

/-- **What is forwarded about a path**: while the task runs, the events that were sent about a path,
the one that waits and those that are still in the channel are among those that arrived, in their
order, and the last of them is the last that arrived. -/
theorem debounce_latest (h : Steps window State.start labels s) (hruns : s.returned = false)
    (p : RelPath) :
    (about p s.sent ++ ((s.pending.val p).map Prod.fst).toList ++ about p s.rx).Sublist
        (about p (arrivals labels)) ∧
      (about p s.sent ++ ((s.pending.val p).map Prod.fst).toList ++ about p s.rx).getLast? =
        (about p (arrivals labels)).getLast? := by
  obtain ⟨hrun, hheld, hsent, hreceived, -⟩ := h.coalesces
  obtain ⟨hsub, hlast⟩ := latest hrun p
  rw [hreceived hruns, hsent hruns, hheld hruns]
  simp only [about, List.filter_append]
  refine ⟨hsub.append_right _, ?_⟩
  calc _ = _ := List.getLast?_append
    _ = _ := congrArg _ hlast
    _ = _ := List.getLast?_append.symm

/-- **The order across paths**: when an event is forwarded, so is in the same round every event that
was received before it and still waits, if the clock does not go back. -/
theorem debounce_in_order (h : Steps window State.start labels s)
    (hclock : ((acts labels).map Act.time).Pairwise (· ≤ ·))
    (hround : acts labels = before ++ .flush now out :: after)
    (hsplit : before = first ++ .recv t' ev' :: (second ++ .recv t ev :: mid))
    (hwaits : Rests keyOf (keyOf ev') (t' + window) (second ++ .recv t ev :: mid))
    (hdue : t + window ≤ now) : ev' ∈ out := by
  refine flushed_in_order (fun _ _ h => Nat.add_le_add_right h window) (hround ▸ h.coalesces.run) ?_
    hsplit hwaits hdue
  rw [hround, List.map_append, List.pairwise_append] at hclock
  exact hclock.1

/-! ## A burst of events -/

/-- `a` is deleted and made again, as editors do, and `b` is written in between. -/
def waiting : Pending :=
  FinMap.set (FinMap.set (FinMap.set Table.empty ["a"] (.deleted ["a"], 200)) ["b"]
    (.modified ["b"], 205)) ["a"] (.created ["a"], 210)

/-- The receptions of the burst. -/
def burst : List (Act WatchEvent ℕ) :=
  [.recv 0 (.deleted ["a"]), .recv 5 (.modified ["b"]), .recv 10 (.created ["a"])]

/-- Both paths are forwarded in one round. -/
def burstOut : List WatchEvent := [.created ["a"], .modified ["b"]]

/-- The burst and the round of the timer after it. -/
def burstLabels : List Label :=
  [.arrive (.deleted ["a"]), .act (.recv 0 (.deleted ["a"])), .arrive (.modified ["b"]),
    .act (.recv 5 (.modified ["b"])), .arrive (.created ["a"]), .act (.recv 10 (.created ["a"])),
    .act (.flush 210 burstOut)]

lemma drain_waiting : drain [["a"], ["b"]] waiting = (burstOut, Table.empty) := by rfl

lemma due_waiting :
    (dueKeys waiting 210).Perm [["a"], ["b"]] ∧ nextDeadline waiting = some 205 := by
  decide

lemma steps_burst :
    Steps 200 State.start burstLabels ⟨[], false, Table.empty, burstOut, false⟩ := by
  have hdeleted := ((Steps.refl State.start).tail (.arrive (.deleted ["a"]))).tail
    (@Step.recv 200 _ _ _ _ _ 0)
  have hmodified := (hdeleted.tail (.arrive (.modified ["b"]))).tail (.recv 5)
  have hcreated : Steps 200 State.start (burstLabels.take 6) ⟨[], false, waiting, [], false⟩ :=
    (hmodified.tail (.arrive (.created ["a"]))).tail (.recv 10)
  have hset : ∀ d, nextDeadline waiting = some d → d ≤ 210 := by
    intro d hd
    obtain rfl := Option.some.inj (due_waiting.2.symm.trans hd)
    omega
  have hround := hcreated.tail (.timer 210 [["a"], ["b"]] hset due_waiting.1.symm)
  rw [drain_waiting] at hround
  exact hround

/-- The round forwards the last event of each path. -/
theorem burst_sends_last : (burstOut.map keyOf).Nodup ∧ ∀ ev, ev ∈ burstOut ↔ ∃ pre t mid,
    burst = pre ++ .recv t ev :: mid ∧ t + 200 ≤ 210 ∧ Rests keyOf (keyOf ev) (t + 200) mid :=
  @debounce_sends_iff 200 210 _ _ burstOut burst [] steps_burst rfl

/-- Of the two events about `a` the second one is sent. -/
theorem burst_latest : [WatchEvent.created ["a"]].Sublist [.deleted ["a"], .created ["a"]] ∧
    [WatchEvent.created ["a"]].getLast? = [.deleted ["a"], .created ["a"]].getLast? :=
  debounce_latest steps_burst rfl ["a"]

/-- `b`, which came in before the second event about `a`, goes with it. -/
theorem burst_in_order : WatchEvent.modified ["b"] ∈ burstOut :=
  @debounce_in_order 200 210 10 5 _ _ (.created ["a"]) (.modified ["b"]) burstOut burst []
    [.recv 0 (.deleted ["a"])] [] [] steps_burst (by decide) rfl rfl
    (by simp [Rests, keyOf]) (by decide)

end AirDrive.Debounce
