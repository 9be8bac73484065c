import Mathlib.Logic.Function.Basic
import Mathlib.Logic.Relation
import AirDrive.Data.Text

set_option relaxedAutoImplicit false
set_option autoImplicit false

/-!
# The single-instance lock

Four commands go through the lock file of a configuration directory, each in a process of its own.
`start`, `status` and `unlink` take the lock and write their process id into the file; `start` keeps
the lock as long as the daemon runs, the others drop it at once. `stop` takes it without writing.
A command that finds the lock taken reads the file to learn the process id of the holder, which is
a step of its own: the holder may not have written it yet, or may be another one by then. Any
process may die at any time, which drops its lock.

## Main definitions

* `AirDrive.Lock.pidText`, `AirDrive.Lock.readPid` — the content of the file.
* `AirDrive.Lock.Command`, `AirDrive.Lock.Phase` — the commands, and where a process stands.
* `AirDrive.Lock.State`, `AirDrive.Lock.Step` — any number of processes and their lock.
* `AirDrive.Lock.Sound` — the invariant.

## Main results

* `AirDrive.Lock.sound_of_reaches` — every interleaving keeps the invariant.
* `AirDrive.Lock.lock_names_daemon` — one process holds the lock, and the file names the daemon.
* `AirDrive.Lock.reported_pid` — where a process id that is reported comes from.
* `AirDrive.Lock.refused_while_serving` — what becomes of other commands while the daemon runs.
-/

namespace AirDrive.Lock

open Data.Text

/-- What `write_current_pid` writes. -/
def pidText (pid : ℕ) : List Char := Nat.toDigits 10 pid

/-- `read_pid_from`, of a file that can be read. -/
def readPid (text : List Char) : Option ℕ := parseNat (2 ^ 32) (trim text)

/-- A process id is read as it was written. -/
lemma readPid_pidText {pid : ℕ} (h : pid < 2 ^ 32) : readPid (pidText pid) = some pid := by
  rw [readPid, pidText, trim_toDigits]
  exact parseNat_toDigits h

/-! ## The processes -/

/-- The commands that go through the lock. -/
inductive Command
  | start
  | status
  | unlink
  | stop
deriving DecidableEq, Repr

/-- How a command ends. -/
inductive Outcome
  /-- `start`: the daemon has run. -/
  | served
  /-- `status` and `stop`: no daemon is running. -/
  | notRunning
  /-- `unlink`: the account is deleted. -/
  | unlinked
  /-- A daemon is running, with this process id: `start` and `unlink` refuse, `status` reports it,
  and `stop` signals it. -/
  | running (pid : Option ℕ)
  /-- The file could not be written. -/
  | failed
  /-- The process died. -/
  | died
deriving DecidableEq, Repr

/-- Where a process stands. -/
inductive Phase
  /-- It was not started yet. -/
  | absent
  /-- It has opened the file, and tries the lock next. -/
  | opened
  /-- It took the lock, and empties the file next. -/
  | locked
  /-- It writes its process id next. -/
  | emptied
  /-- `acquire` has returned: the daemon runs, or the guard is dropped next. -/
  | held
  /-- `holder_pid` took the lock, and drops it next. -/
  | probing
  /-- The lock was taken; the file is read next. -/
  | refused
  /-- `unlink` has dropped the lock, and deletes the account next. -/
  | cleared
  /-- It has ended. -/
  | ended (outcome : Outcome)
deriving DecidableEq, Repr

/-- The process has the lock. -/
def Phase.holds : Phase → Bool
  | .locked | .emptied | .held | .probing => true
  | _ => false

/-- The process has the lock to write its process id. -/
def Phase.writes : Phase → Bool
  | .locked | .emptied | .held => true
  | _ => false

/-- The lock file and the processes. -/
structure State (ι : Type) where
  /-- Where each process stands. -/
  phase : ι → Phase
  /-- Who has the lock. -/
  holder : Option ι
  /-- The content of the file. -/
  text : List Char
  /-- The processes that have written their process id. -/
  wrote : ι → Bool

/-- What `acquire`, or `holder_pid` for `stop`, does with the lock it got. -/
def Command.entered : Command → Phase
  | .stop => .probing
  | _ => .locked

/-- Where a command stands when it has dropped the lock. -/
def Command.released : Command → Phase
  | .start => .ended .served
  | .status => .ended .notRunning
  | .unlink => .cleared
  | .stop => .ended .notRunning

variable {ι : Type} [DecidableEq ι]

/-- A process moves on. -/
def State.move (s : State ι) (p : ι) (phase : Phase) : State ι :=
  { s with phase := Function.update s.phase p phase }

section Steps

variable (command : ι → Command) (pid : ι → ℕ)

/-- A step of one process. -/
inductive Step : State ι → State ι → Prop
  | spawn {s : State ι} (p : ι) (h : s.phase p = .absent) : Step s (s.move p .opened)
  | lock {s : State ι} (p : ι) (h : s.phase p = .opened) (hfree : s.holder = none) :
      Step s { s.move p (command p).entered with holder := some p }
  | contend {s : State ι} (p q : ι) (h : s.phase p = .opened) (htaken : s.holder = some q) :
      Step s (s.move p .refused)
  | empty {s : State ι} (p : ι) (h : s.phase p = .locked) :
      Step s { s.move p .emptied with text := [] }
  | write {s : State ι} (p : ι) (h : s.phase p = .emptied) :
      Step s { s.move p .held with
        text := pidText (pid p), wrote := Function.update s.wrote p true }
  | fail {s : State ι} (p : ι) (h : s.phase p = .locked ∨ s.phase p = .emptied) :
      Step s { s.move p (.ended .failed) with holder := none }
  | release {s : State ι} (p : ι) (h : s.phase p = .held ∨ s.phase p = .probing) :
      Step s { s.move p (command p).released with holder := none }
  | read {s : State ι} (p : ι) (h : s.phase p = .refused) :
      Step s (s.move p (.ended (.running (readPid s.text))))
  | delete {s : State ι} (p : ι) (h : s.phase p = .cleared) : Step s (s.move p (.ended .unlinked))
  | die {s : State ι} (p : ι) (h : s.phase p ≠ .absent) (hlive : ∀ o, s.phase p ≠ .ended o) :
      Step s { s.move p (.ended .died) with
        holder := if s.holder = some p then none else s.holder }

/-- The state in which no process was started yet. -/
def State.start (ι : Type) (text : List Char) : State ι where
  phase _ := .absent
  holder := none
  text := text
  wrote _ := false

/-- The states that any interleaving of the processes reaches. -/
abbrev Reaches : State ι → State ι → Prop := Relation.ReflTransGen (Step command pid)

/-- **The invariant**: who has the lock, and what the file says. -/
structure Sound (first : List Char) (s : State ι) : Prop where
  holds : ∀ p, (s.phase p).holds = true ↔ s.holder = some p
  emptied : ∀ p, s.phase p = .emptied → s.text = []
  held : ∀ p, s.phase p = .held → s.text = pidText (pid p)
  text : s.text = first ∨ s.text = [] ∨ ∃ q, s.wrote q = true ∧ s.text = pidText (pid q)
  writes : ∀ p, (s.phase p).writes = true → command p ≠ .stop
  wrote : ∀ p, s.wrote p = true → command p ≠ .stop
  /-- What a process was told. -/
  told : ∀ p n, s.phase p = .ended (.running (some n)) →
    readPid first = some n ∨ ∃ q, s.wrote q = true ∧ readPid (pidText (pid q)) = some n

end Steps

variable {command : ι → Command} {pid : ι → ℕ} {first : List Char} {s s' : State ι} {p q d : ι}

@[simp] lemma move_phase_self (phase : Phase) : (s.move p phase).phase p = phase :=
  Function.update_self _ _ _

lemma move_phase_ne (h : q ≠ p) (phase : Phase) : (s.move p phase).phase q = s.phase q :=
  Function.update_of_ne h _ _

lemma entered_holds (c : Command) : c.entered.holds = true := by cases c <;> rfl

lemma released_holds (c : Command) : c.released.holds = false := by cases c <;> rfl

lemma entered_writes {c : Command} (h : c.entered.writes = true) : c ≠ .stop := by
  cases c
  case stop => cases h
  all_goals simp

lemma released_writes (c : Command) : c.released.writes = false := by cases c <;> rfl

lemma holds_of_writes {phase : Phase} (h : phase.writes = true) : phase.holds = true := by
  cases phase <;> first | rfl | cases h

omit [DecidableEq ι] in
/-- One process has the lock at a time. -/
lemma Sound.holder_unique (h : Sound command pid first s) (hp : (s.phase p).holds = true)
    (hq : (s.phase q).holds = true) : p = q :=
  Option.some.inj (((h.holds p).mp hp).symm.trans ((h.holds q).mp hq))

omit [DecidableEq ι] in
/-- Nobody else has the lock while nobody or one process has it. -/
lemma Sound.not_holds (h : Sound command pid first s) (hp : s.holder = none ∨ s.holder = some p)
    (hq : q ≠ p) : (s.phase q).holds = false := by
  cases hphase : (s.phase q).holds with
  | false => rfl
  | true =>
    have hholder := (h.holds q).mp hphase
    rcases hp with hnone | hsome
    · rw [hnone] at hholder
      cases hholder
    · rw [hsome] at hholder
      exact absurd (Option.some.inj hholder).symm hq

/-- **A step that leaves the lock and the file alone** keeps the invariant, if the process neither
has the lock nor gets it, and is told what the file says. -/
lemma Sound.move (h : Sound command pid first s) {phase : Phase} (hold : (s.phase p).holds = false)
    (hnew : phase.holds = false)
    (htold : ∀ n, phase = .ended (.running (some n)) → readPid s.text = some n) :
    Sound command pid first (s.move p phase) where
  holds q := by
    by_cases hq : q = p
    · subst hq
      rw [move_phase_self, hnew]
      exact iff_of_false (by simp) fun hmine => by simp [(h.holds q).mpr hmine] at hold
    · rw [move_phase_ne hq]
      exact h.holds q
  emptied q hphase := by
    by_cases hq : q = p
    · subst hq
      rw [move_phase_self] at hphase
      subst hphase
      cases hnew
    · rw [move_phase_ne hq] at hphase
      exact h.emptied q hphase
  held q hphase := by
    by_cases hq : q = p
    · subst hq
      rw [move_phase_self] at hphase
      subst hphase
      cases hnew
    · rw [move_phase_ne hq] at hphase
      exact h.held q hphase
  text := h.text
  writes q hphase := by
    by_cases hq : q = p
    · subst hq
      rw [move_phase_self] at hphase
      rw [holds_of_writes hphase] at hnew
      cases hnew
    · rw [move_phase_ne hq] at hphase
      exact h.writes q hphase
  wrote := h.wrote
  told q n hphase := by
    by_cases hq : q = p
    · subst hq
      rw [move_phase_self] at hphase
      have hread := htold n hphase
      rcases h.text with htext | htext | ⟨r, hr, htext⟩
      · exact .inl (htext ▸ hread)
      · rw [htext] at hread
        have hnone : readPid [] = none := by decide
        rw [hnone] at hread
        cases hread
      · exact .inr ⟨r, hr, htext ▸ hread⟩
    · rw [move_phase_ne hq] at hphase
      exact h.told q n hphase

/-- **A step of the holder** keeps the invariant, if the file then says what it should. Here the
lock is free before it, or the process has it. -/
lemma Sound.update (h : Sound command pid first s) {phase : Phase} {holder : Option ι}
    {text : List Char} {wrote : ι → Bool} (hmine : s.holder = none ∨ s.holder = some p)
    (hholder : holder = if phase.holds then some p else none)
    (hemptied : phase = .emptied → text = []) (hheld : phase = .held → text = pidText (pid p))
    (htext : text = s.text ∨ text = [] ∨ wrote p = true ∧ text = pidText (pid p))
    (hwriter : phase.writes = true → command p ≠ .stop)
    (hwrote : ∀ q, s.wrote q = true → wrote q = true)
    (hnew : ∀ q, wrote q = true → s.wrote q = true ∨ q = p ∧ phase.writes = true)
    (htold : ∀ n, phase ≠ .ended (.running (some n))) :
    Sound command pid first
      { s.move p phase with holder := holder, text := text, wrote := wrote } where
  holds q := by
    show ((s.move p phase).phase q).holds = true ↔ holder = some q
    by_cases hq : q = p
    · subst hq
      rw [move_phase_self, hholder]
      cases phase.holds <;> simp
    · rw [move_phase_ne hq, hholder, h.not_holds hmine hq]
      cases phase.holds <;> simp [Ne.symm hq]
  emptied q hphase := by
    by_cases hq : q = p
    · subst hq
      exact hemptied ((move_phase_self phase).symm.trans hphase)
    · have hother := h.not_holds hmine hq
      rw [← move_phase_ne hq phase, show (s.move p phase).phase q = .emptied from hphase] at hother
      cases hother
  held q hphase := by
    by_cases hq : q = p
    · subst hq
      exact hheld ((move_phase_self phase).symm.trans hphase)
    · have hother := h.not_holds hmine hq
      rw [← move_phase_ne hq phase, show (s.move p phase).phase q = .held from hphase] at hother
      cases hother
  text := by
    rcases htext with rfl | rfl | ⟨hp, rfl⟩
    · exact h.text.imp_right (Or.imp_right fun ⟨q, hq, he⟩ => ⟨q, hwrote q hq, he⟩)
    · exact .inr (.inl rfl)
    · exact .inr (.inr ⟨p, hp, rfl⟩)
  writes q hphase := by
    by_cases hq : q = p
    · subst hq
      exact hwriter ((congrArg Phase.writes (move_phase_self phase)).symm.trans hphase)
    · exact h.writes q ((congrArg Phase.writes (move_phase_ne hq phase)).symm.trans hphase)
  wrote q hq := by
    rcases hnew q hq with hold | ⟨rfl, hphase⟩
    · exact h.wrote q hold
    · exact hwriter hphase
  told q n hphase := by
    by_cases hq : q = p
    · subst hq
      exact absurd ((move_phase_self phase).symm.trans hphase) (htold n)
    · have hphase' : s.phase q = .ended (.running (some n)) :=
        (move_phase_ne hq phase).symm.trans hphase
      exact (h.told q n hphase').imp_right fun ⟨r, hr, hn⟩ => ⟨r, hwrote r hr, hn⟩

/-- **A process that ends** keeps the invariant: its lock is dropped, if it has it. -/
lemma Sound.leave (h : Sound command pid first s) (p : ι) (outcome : Outcome)
    (hout : ∀ n, outcome ≠ .running (some n)) :
    Sound command pid first { s.move p (.ended outcome) with
      holder := if s.holder = some p then none else s.holder } := by
  by_cases hmine : s.holder = some p
  · exact h.update (.inr hmine) (if_pos hmine) (fun he => by cases he) (fun he => by cases he)
      (.inl rfl) (fun hw => by cases hw) (fun _ hq => hq) (fun _ hq => .inl hq)
      fun n hn => hout n (Phase.ended.inj hn)
  · have hold : (s.phase p).holds = false := by
      cases hphase : (s.phase p).holds with
      | false => rfl
      | true => exact absurd ((h.holds p).mp hphase) hmine
    rw [if_neg hmine]
    exact h.move hold rfl fun n hn => absurd (Phase.ended.inj hn) (hout n)

/-- **One step** keeps the invariant. -/
lemma Sound.step (h : Sound command pid first s) (hstep : Step command pid s s') :
    Sound command pid first s' := by
  cases hstep with
  | spawn p hp => exact h.move (by rw [hp]; rfl) rfl fun n hn => by cases hn
  | contend p q hp htaken => exact h.move (by rw [hp]; rfl) rfl fun n hn => by cases hn
  | read p hp =>
    refine h.move (by rw [hp]; rfl) rfl fun n hn => ?_
    injection hn with hn
    exact Outcome.running.inj hn
  | delete p hp => exact h.move (by rw [hp]; rfl) rfl fun n hn => by cases hn
  | lock p hp hfree =>
    refine h.update (.inl hfree) (by rw [entered_holds]; rfl) (fun he => ?_) (fun he => ?_)
      (.inl rfl)
      entered_writes (fun _ hq => hq) (fun _ hq => .inl hq) fun n hn => ?_
    all_goals cases hc : command p <;> simp_all [Command.entered]
  | empty p hp =>
    have hmine : s.holder = some p := (h.holds p).mp (by rw [hp]; rfl)
    exact h.update (.inr hmine) hmine (fun _ => rfl) (fun he => by cases he) (.inr (.inl rfl))
      (fun _ => h.writes p (by rw [hp]; rfl)) (fun _ hq => hq) (fun _ hq => .inl hq)
      fun n hn => by cases hn
  | write p hp =>
    have hmine : s.holder = some p := (h.holds p).mp (by rw [hp]; rfl)
    refine h.update (.inr hmine) hmine (fun he => by cases he) (fun _ => rfl)
      (.inr (.inr ⟨Function.update_self _ _ _, rfl⟩)) (fun _ => h.writes p (by rw [hp]; rfl))
      (fun q hq => ?_) (fun q hq => ?_) fun n hn => by cases hn
    · by_cases hqp : q = p
      · rw [hqp, Function.update_self]
      · rwa [Function.update_of_ne hqp]
    · by_cases hqp : q = p
      · exact .inr ⟨hqp, rfl⟩
      · rw [Function.update_of_ne hqp] at hq
        exact .inl hq
  | fail p hp =>
    have hmine : s.holder = some p :=
      (h.holds p).mp (by rcases hp with hp | hp <;> rw [hp] <;> rfl)
    have hend := h.leave p .failed fun n hn => by cases hn
    rwa [if_pos hmine] at hend
  | release p hp =>
    refine h.update (.inr ((h.holds p).mp ?_)) (by rw [released_holds]; rfl) (fun he => ?_)
      (fun he => ?_) (.inl rfl) (fun hw => ?_) (fun _ hq => hq) (fun _ hq => .inl hq) fun n hn => ?_
    · rcases hp with hp | hp <;> rw [hp] <;> rfl
    · cases hc : command p <;> simp_all [Command.released]
    · cases hc : command p <;> simp_all [Command.released]
    · rw [released_writes] at hw
      cases hw
    · cases hc : command p <;> simp_all [Command.released]
  | die p hp hlive => exact h.leave p .died fun n hn => by cases hn

omit [DecidableEq ι] in
/-- Before any process was started. -/
lemma sound_start : Sound command pid first (State.start ι first) where
  holds p := iff_of_false (by simp [State.start, Phase.holds]) (by simp [State.start])
  emptied p hp := by cases hp
  held p hp := by cases hp
  text := .inl rfl
  writes p hp := by cases hp
  wrote p hp := by cases hp
  told p n hp := by cases hp

/-- **Every interleaving keeps the invariant.** -/
lemma sound_of_reaches (h : Reaches command pid (State.start ι first) s) :
    Sound command pid first s := by
  induction h with
  | refl => exact sound_start
  | tail _ hstep ih => exact ih.step hstep

/-! ## What the processes learn -/

/-- **One process holds the lock, and the file names the daemon.** Whatever the processes do and
whenever they die, two processes that have the lock are one, and where `acquire` has returned to a
process that still has the guard, its process id is what the file says. -/
theorem lock_names_daemon (hpid : ∀ p, pid p < 2 ^ 32)
    (h : Reaches command pid (State.start ι first) s) :
    (∀ p q, (s.phase p).holds = true → (s.phase q).holds = true → p = q) ∧
    ∀ d, s.phase d = .held → readPid s.text = some (pid d) := by
  have hsound := sound_of_reaches h
  refine ⟨fun p q hp hq => hsound.holder_unique hp hq, fun d hd => ?_⟩
  rw [hsound.held d hd]
  exact readPid_pidText (hpid d)

/-- **Where a process id that is reported comes from.** It stood in the file before the first of
the processes ran, or it is that of one of them that had the lock and wrote its process id: `stop`
never signals a process because of another `stop`. -/
theorem reported_pid (hpid : ∀ p, pid p < 2 ^ 32) {n : ℕ}
    (h : Reaches command pid (State.start ι first) s)
    (htold : s.phase p = .ended (.running (some n))) :
    readPid first = some n ∨ ∃ q, s.wrote q = true ∧ command q ≠ .stop ∧ n = pid q := by
  have hsound := sound_of_reaches h
  refine (hsound.told p n htold).imp_right fun ⟨q, hq, hread⟩ => ⟨q, hq, hsound.wrote q hq, ?_⟩
  rw [readPid_pidText (hpid q)] at hread
  exact (Option.some.inj hread).symm

/-- A stretch of a run through which a daemon keeps running. -/
abbrev Serving (command : ι → Command) (pid : ι → ℕ) (d : ι) : State ι → State ι → Prop :=
  Relation.ReflTransGen fun s s' => Step command pid s s' ∧ s'.phase d = .held

/-- Where a process may stand that has not got the lock yet. -/
def Phase.outside (phase : Phase) : Prop :=
  phase = .absent ∨ phase = .opened ∨ phase = .refused

/-- Where a process may stand that tried the lock while a daemon was running. -/
def Phase.turnedAway (daemon : ℕ) (phase : Phase) : Prop :=
  phase.outside ∨ phase = .ended (.running (some daemon)) ∨ phase = .ended .died

/-- What one step does to a process that has not got the lock, while a daemon runs. -/
lemma Sound.turnedAway (h : Sound command pid first s) (hpid : pid d < 2 ^ 32)
    (hd : s.phase d = .held) (hstep : Step command pid s s')
    (hq : (s.phase q).turnedAway (pid d)) : (s'.phase q).turnedAway (pid d) := by
  have hholder : s.holder = some d := (h.holds d).mp (by rw [hd]; rfl)
  -- a step of another process leaves this one where it stands
  have hother : ∀ p phase, (p = q → phase.turnedAway (pid d)) →
      ((s.move p phase).phase q).turnedAway (pid d) := by
    intro p phase hphase
    by_cases hp : p = q
    · subst hp
      rw [move_phase_self]
      exact hphase rfl
    · rwa [move_phase_ne (Ne.symm hp)]
  have hwaits : ∀ p phase, s.phase p = phase → p = q → phase.turnedAway (pid d) := by
    rintro p phase rfl rfl
    exact hq
  cases hstep with
  | spawn p hp => exact hother p .opened fun _ => .inl (.inr (.inl rfl))
  | lock p hp hfree =>
    rw [hholder] at hfree
    cases hfree
  | contend p r hp htaken => exact hother p .refused fun _ => .inl (.inr (.inr rfl))
  | empty p hp =>
    exact hother p .emptied fun hpq => by
      simpa [Phase.turnedAway, Phase.outside] using hwaits p _ hp hpq
  | write p hp =>
    exact hother p .held fun hpq => by
      simpa [Phase.turnedAway, Phase.outside] using hwaits p _ hp hpq
  | fail p hp =>
    refine hother p (.ended .failed) fun hpq => ?_
    rcases hp with hp | hp <;>
      simpa [Phase.turnedAway, Phase.outside] using hwaits p _ hp hpq
  | release p hp =>
    refine hother p (command p).released fun hpq => ?_
    rcases hp with hp | hp <;>
      exact absurd (hwaits p _ hp hpq) (by simp [Phase.turnedAway, Phase.outside])
  | read p hp =>
    refine hother p _ fun _ => .inr (.inl ?_)
    rw [h.held d hd, readPid_pidText hpid]
  | delete p hp =>
    exact hother p (.ended .unlinked) fun hpq => by
      simpa [Phase.turnedAway, Phase.outside] using hwaits p _ hp hpq
  | die p hp hlive => exact hother p (.ended .died) fun _ => .inr (.inr rfl)

/-- **What becomes of the other commands while a daemon runs.** Through any stretch of a run in
which a daemon has the lock, a command that tries it in that stretch is turned away: no second
daemon starts, no account is deleted, and whatever the command reports or signals is the process
id of that daemon. -/
theorem refused_while_serving (hpid : ∀ p, pid p < 2 ^ 32)
    (h : Reaches command pid (State.start ι first) s) (hd : s.phase d = .held)
    (hrun : Serving command pid d s s') (hq : (s.phase q).outside) :
    (s'.phase q).turnedAway (pid d) := by
  -- the induction carries that the state was reached and that the daemon still runs
  suffices hall : Reaches command pid (State.start ι first) s' ∧ s'.phase d = .held ∧
      (s'.phase q).turnedAway (pid d) from hall.2.2
  induction hrun with
  | refl => exact ⟨h, hd, .inl hq⟩
  | tail _ hlast ih =>
    obtain ⟨hreach, hheld, hphase⟩ := ih
    exact ⟨hreach.tail hlast.1, hlast.2,
      (sound_of_reaches hreach).turnedAway (hpid d) hheld hlast.1 hphase⟩

/-! ## A run -/

/-- A daemon, and a command that is run beside it. -/
def pairCommand : Bool → Command
  | true => .start
  | false => .unlink

/-- Their process ids. -/
def pairPid : Bool → ℕ
  | true => 4242
  | false => 4243

lemma pairPid_lt (p : Bool) : pairPid p < 2 ^ 32 := by cases p <;> decide

/-- The daemon starts. -/
lemma pair_serves : ∃ s, Reaches pairCommand pairPid (State.start Bool []) s ∧
    s.phase true = .held ∧ s.phase false = .absent :=
  ⟨_, .tail (.tail (.tail (.tail .refl (.spawn true rfl)) (.lock true rfl rfl)) (.empty true rfl))
    (.write true rfl), rfl, rfl⟩

/-- The other command is started, finds the lock taken, and reads the file. -/
lemma pair_refuses {s : State Bool} (hreach : Reaches pairCommand pairPid (State.start Bool []) s)
    (hd : s.phase true = .held) (hq : s.phase false = .absent) :
    ∃ s', Serving pairCommand pairPid true s s' ∧
      s'.phase false = .ended (.running (some 4242)) := by
  have hsound := sound_of_reaches hreach
  have hholder : s.holder = some true := (hsound.holds true).mp (by rw [hd]; rfl)
  have hread : readPid s.text = some 4242 := by
    rw [hsound.held true hd]
    exact readPid_pidText (pairPid_lt true)
  refine ⟨_, .tail (.tail (.tail .refl ⟨.spawn false hq, hd⟩) ⟨.contend false true rfl hholder, hd⟩)
    ⟨.read false rfl, hd⟩, ?_⟩
  exact congrArg (fun n => Phase.ended (.running n)) hread

/-- `lock_names_daemon`, of a daemon that is alone. -/
theorem pair_lock_names_daemon : ∃ s, Reaches pairCommand pairPid (State.start Bool []) s ∧
    s.phase true = .held ∧ readPid s.text = some 4242 := by
  obtain ⟨s, hreach, hd, -⟩ := pair_serves
  exact ⟨s, hreach, hd, (lock_names_daemon pairPid_lt hreach).2 true hd⟩

/-- `refused_while_serving`, of `unlink`. -/
theorem pair_turned_away : ∃ s s', Serving pairCommand pairPid true s s' ∧
    s'.phase false = .ended (.running (some 4242)) ∧ (s'.phase false).turnedAway 4242 := by
  obtain ⟨s, hreach, hd, hq⟩ := pair_serves
  obtain ⟨s', hrun, hended⟩ := pair_refuses hreach hd hq
  exact ⟨s, s', hrun, hended, refused_while_serving pairPid_lt hreach hd hrun (.inl hq)⟩

/-- `reported_pid`, of the same run. -/
theorem pair_reported : ∃ s : State Bool, s.phase false = .ended (.running (some 4242)) ∧
    (readPid [] = some 4242 ∨
      ∃ q, s.wrote q = true ∧ pairCommand q ≠ .stop ∧ 4242 = pairPid q) := by
  obtain ⟨s, hreach, hd, hq⟩ := pair_serves
  obtain ⟨s', hrun, hended⟩ := pair_refuses hreach hd hq
  have hreach' : Reaches pairCommand pairPid (State.start Bool []) s' :=
    hreach.trans (Relation.ReflTransGen.mono (fun _ _ hstep => hstep.1) _ _ hrun)
  exact ⟨s', hended, reported_pid pairPid_lt hreach' hended⟩

end AirDrive.Lock
