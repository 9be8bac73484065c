import Mathlib.Data.Rat.Defs
import Mathlib.Algebra.Order.Ring.Rat
import Mathlib.Tactic.NormNum
import AirDrive.Data.TokenBucket

set_option relaxedAutoImplicit false
set_option autoImplicit false

/-!
# The rate limiter of the HTTP client

All requests share one token bucket. A request calls `acquire`, which looks at the bucket under a
lock and either takes a token and returns or sleeps for as long as a token takes to come, and then
looks again. Any number of requests do so at once.

## Main definitions

* `AirDrive.RateLimiter` — the limiter, and `acquireTurn`, one turn of the loop of `acquire`.
* `AirDrive.RateLimiter.Callers` — callers of `acquire` under one clock, and their steps.

## Main results

* `AirDrive.RateLimiter.acquireTurn_eq` — a turn is a look or a take of the bucket.
* `AirDrive.RateLimiter.Inv.run` — over any run the bucket keeps its pace.
* `AirDrive.RateLimiter.token_bucket_law` — what the callers get in a window, the bounds of the
  tokens, and how long a caller sleeps.

## Design

Time is rational and exact. A turn of the loop reads the clock once, under the lock, and has no
await in it: it is one step, at the time of the reading, and an `acquire` that takes a token
returns at that time. A caller that sleeps is woken at the end of its sleep or later.
-/

namespace AirDrive

/-- `BucketState`. -/
abbrev BucketState := Data.Bucket ℚ

/-- `RateLimiter`. -/
structure RateLimiter where
  state : BucketState
  capacity : ℚ
  refillPerSec : ℚ
deriving DecidableEq, Repr

namespace RateLimiter

open Data

variable {C r t₀ : ℚ} {l : RateLimiter} {now t : ℚ}

/-- `RateLimiter::new`. -/
def new (capacity refillPerSec now : ℚ) : RateLimiter where
  state := ⟨capacity, now⟩
  capacity
  refillPerSec

/-- `Instant::duration_since`: zero when the other instant is later. -/
def durationSince (now last : ℚ) : ℚ := max (now - last) 0

/-- One turn of the loop of `acquire`: nothing to wait for when a token was taken, else how long to
sleep. -/
def acquireTurn (l : RateLimiter) (now : ℚ) : Option ℚ × RateLimiter :=
  let elapsed := durationSince now l.state.last
  let tokens := min (l.state.tokens + elapsed * l.refillPerSec) l.capacity
  if 1 ≤ tokens then (none, { l with state := ⟨tokens - 1, now⟩ })
  else (some ((1 - tokens) / l.refillPerSec), { l with state := ⟨tokens, now⟩ })

/-- The tokens at a time from the last turn on. -/
def level (l : RateLimiter) (t : ℚ) : ℚ := l.state.level l.capacity l.refillPerSec t

/-- **A turn** looks at the bucket, and takes a token when there is one. -/
lemma acquireTurn_eq (h : l.state.last ≤ now) :
    l.acquireTurn now =
      if 1 ≤ l.level now then
        (none, { l with state := l.state.take l.capacity l.refillPerSec now })
      else
        (some ((1 - l.level now) / l.refillPerSec),
          { l with state := l.state.refill l.capacity l.refillPerSec now }) := by
  have htokens : min (l.state.tokens + durationSince now l.state.last * l.refillPerSec) l.capacity =
      l.level now := by
    rw [durationSince, max_eq_left (sub_nonneg.mpr h), mul_comm, level, Bucket.level]
  simp only [acquireTurn, htokens]
  rfl

/-! ## Callers -/

/-- A caller of `acquire`: not in it, about to take a turn, or asleep until an instant. -/
inductive Caller
  | idle
  | turning
  | asleep (wakes : ℚ)
deriving DecidableEq, Repr

/-- The limiter, the clock, its callers, and the instants at which an `acquire` returned. -/
structure Callers (ι : Type) where
  limiter : RateLimiter
  now : ℚ
  caller : ι → Caller
  returned : List ℚ

/-- What happens next: time goes by, a caller calls `acquire`, takes a turn, or wakes up. -/
inductive Act (ι : Type)
  | elapse (d : ℚ)
  | call (i : ι)
  | turn (i : ι)
  | wake (i : ι)
deriving DecidableEq, Repr

namespace Callers

variable {ι : Type} [DecidableEq ι] {σ σ' : Callers ι} {a : Act ι} {acts : List (Act ι)}

/-- Nobody has called yet. -/
def start (capacity refillPerSec now : ℚ) : Callers ι where
  limiter := .new capacity refillPerSec now
  now
  caller _ := .idle
  returned := []

/-- A turn of a caller. -/
def turn (σ : Callers ι) (i : ι) : Callers ι :=
  match σ.limiter.acquireTurn σ.now with
  | (none, limiter) =>
    { σ with limiter, caller := Function.update σ.caller i .idle, returned := σ.now :: σ.returned }
  | (some wait, limiter) =>
    { σ with limiter, caller := Function.update σ.caller i (.asleep (σ.now + wait)) }

/-- One step, when it can happen. -/
def step (σ : Callers ι) : Act ι → Option (Callers ι)
  | .elapse d => if 0 ≤ d then some { σ with now := σ.now + d } else none
  | .call i =>
    if σ.caller i = .idle then some { σ with caller := Function.update σ.caller i .turning }
    else none
  | .turn i => if σ.caller i = .turning then some (σ.turn i) else none
  | .wake i =>
    match σ.caller i with
    | .asleep wakes =>
      if wakes ≤ σ.now then some { σ with caller := Function.update σ.caller i .turning } else none
    | _ => none

/-- A run. -/
def run (σ : Callers ι) : List (Act ι) → Option (Callers ι)
  | [] => some σ
  | a :: acts => (σ.step a).bind fun σ' => σ'.run acts

/-- **What a step does**: a turn, or something that leaves the limiter alone and does not turn the
clock back. -/
lemma step_cases (h : σ.step a = some σ') :
    (∃ i, a = .turn i ∧ σ.caller i = .turning ∧ σ' = σ.turn i) ∨
      (σ'.limiter = σ.limiter ∧ σ.now ≤ σ'.now ∧ σ'.returned = σ.returned) := by
  cases a with
  | elapse d =>
    simp only [step] at h
    split_ifs at h with hd
    obtain rfl := Option.some.inj h
    exact .inr ⟨rfl, le_add_of_nonneg_right hd, rfl⟩
  | call i =>
    simp only [step] at h
    split_ifs at h
    obtain rfl := Option.some.inj h
    exact .inr ⟨rfl, le_refl _, rfl⟩
  | turn i =>
    simp only [step] at h
    split_ifs at h with hi
    exact .inl ⟨i, rfl, hi, (Option.some.inj h).symm⟩
  | wake i =>
    simp only [step] at h
    split at h
    · split_ifs at h
      obtain rfl := Option.some.inj h
      exact .inr ⟨rfl, le_refl _, rfl⟩
    · cases h

end Callers

/-! ## The pace -/

/-- The limiter has its capacity and its rate, the clock is not behind the last turn, and the
bucket keeps its pace. -/
structure Inv (C r : ℚ) {ι : Type} (σ : Callers ι) : Prop where
  capacity : σ.limiter.capacity = C
  rate : σ.limiter.refillPerSec = r
  clock : σ.limiter.state.last ≤ σ.now
  paced : Bucket.Paced C r σ.limiter.state σ.returned

namespace Inv

variable {ι : Type} [DecidableEq ι] {σ σ' : Callers ι} {a : Act ι} {acts : List (Act ι)}

omit [DecidableEq ι] in
lemma start (hC : 0 ≤ C) (hr : 0 ≤ r) : Inv C r (.start C r t₀ : Callers ι) :=
  ⟨rfl, rfl, le_refl _, .full hr hC t₀⟩

/-- **A turn** keeps the pace. -/
lemma turn (h : Inv C r σ) (hr : 0 ≤ r) (i : ι) : Inv C r (σ.turn i) := by
  obtain ⟨rfl, rfl, hclock, hpaced⟩ := h
  unfold Callers.turn
  rw [acquireTurn_eq hclock]
  split_ifs with htoken
  · exact ⟨rfl, rfl, le_refl _, hpaced.take hr hclock htoken⟩
  · exact ⟨rfl, rfl, le_refl _, hpaced.refill hr hclock⟩

/-- **A step** keeps the pace. -/
lemma step (h : Inv C r σ) (hr : 0 ≤ r) (hstep : σ.step a = some σ') : Inv C r σ' := by
  obtain ⟨i, -, -, rfl⟩ | ⟨hlimiter, hnow, hreturned⟩ := Callers.step_cases hstep
  · exact h.turn hr i
  · exact ⟨hlimiter ▸ h.capacity, hlimiter ▸ h.rate, (hlimiter ▸ h.clock).trans hnow,
      hlimiter ▸ hreturned ▸ h.paced⟩

/-- **A run** keeps the pace. -/
lemma run (h : Inv C r σ) (hr : 0 ≤ r) (hrun : σ.run acts = some σ') : Inv C r σ' := by
  induction acts generalizing σ with
  | nil => exact Option.some.inj hrun ▸ h
  | cons a acts ih =>
    obtain ⟨σ₁, hstep, hrest⟩ := Option.bind_eq_some_iff.mp hrun
    exact ih (h.step hr hstep) hrest

/-! ## Waiting -/

/-- A turn takes a token now, or nothing returns. -/
lemma returned_turn (i : ι) :
    (σ.turn i).returned = σ.returned ∨ (σ.turn i).returned = σ.now :: σ.returned := by
  unfold Callers.turn
  split
  · exact .inr rfl
  · exact .inl rfl

/-- A step does not turn the clock back and takes back no return. -/
lemma step_grows (hstep : σ.step a = some σ') :
    σ.now ≤ σ'.now ∧ σ.returned <:+ σ'.returned := by
  obtain ⟨i, -, -, rfl⟩ | ⟨-, hnow, hreturned⟩ := Callers.step_cases hstep
  · refine ⟨?_, ?_⟩
    · unfold Callers.turn
      split <;> exact le_refl _
    · rcases @returned_turn ι _ σ i with h | h
      · exact h ▸ List.suffix_refl _
      · exact h ▸ List.suffix_cons _ _
  · exact ⟨hnow, hreturned ▸ List.suffix_refl _⟩

lemma run_grows (hrun : σ.run acts = some σ') :
    σ.now ≤ σ'.now ∧ σ.returned <:+ σ'.returned := by
  induction acts generalizing σ with
  | nil => exact Option.some.inj hrun ▸ ⟨le_refl _, List.suffix_refl _⟩
  | cons a acts ih =>
    obtain ⟨σ₁, hstep, hrest⟩ := Option.bind_eq_some_iff.mp hrun
    obtain ⟨hnow, hreturned⟩ := step_grows hstep
    exact ⟨hnow.trans (ih hrest).1, hreturned.trans (ih hrest).2⟩

/-- **A turn** that takes no token leaves the tokens at every later time as they are. -/
lemma level_turn (h : Inv C r σ) (hr : 0 ≤ r) {i : ι}
    (hquiet : (σ.turn i).returned = σ.returned) (ht : σ.now ≤ t) :
    (σ.turn i).limiter.level t = σ.limiter.level t := by
  unfold Callers.turn at hquiet ⊢
  rw [acquireTurn_eq h.clock] at hquiet ⊢
  split_ifs at hquiet ⊢ with htoken
  · exact absurd hquiet (List.cons_ne_self _ _)
  · exact Bucket.level_refill (h.rate ▸ hr) ht

/-- **A run** in which no `acquire` returns leaves the tokens at every later time as they are. -/
lemma level_run (h : Inv C r σ) (hr : 0 ≤ r) (hrun : σ.run acts = some σ')
    (hquiet : σ'.returned = σ.returned) (ht : σ'.now ≤ t) :
    σ'.limiter.level t = σ.limiter.level t := by
  induction acts generalizing σ with
  | nil => rw [Option.some.inj hrun]
  | cons a acts ih =>
    obtain ⟨σ₁, hstep, hrest⟩ := Option.bind_eq_some_iff.mp hrun
    obtain ⟨hnow₁, hgrown₁⟩ := step_grows hstep
    obtain ⟨hnow', hgrown'⟩ := run_grows hrest
    have hquiet₁ : σ₁.returned = σ.returned :=
      (hgrown₁.eq_of_length_le (hquiet ▸ hgrown'.length_le)).symm
    rw [ih (h.step hr hstep) hrest (hquiet.trans hquiet₁.symm)]
    obtain ⟨i, -, -, rfl⟩ | ⟨hlimiter, -, -⟩ := Callers.step_cases hstep
    · exact h.level_turn hr hquiet₁ ((hnow₁.trans hnow').trans ht)
    · rw [hlimiter]

end Inv

/-- A turn that must wait waits for the rest of a token. -/
lemma acquireTurn_wait {wait : ℚ} (h : l.state.last ≤ now)
    (hwait : (l.acquireTurn now).1 = some wait) :
    l.level now < 1 ∧ wait = (1 - l.level now) / l.refillPerSec := by
  rw [acquireTurn_eq h] at hwait
  split_ifs at hwait with htoken
  · exact ⟨not_le.mp htoken, (Option.some.inj hwait).symm⟩

/-- A turn takes a token exactly when there is one. -/
lemma acquireTurn_none (h : l.state.last ≤ now) :
    (l.acquireTurn now).1 = none ↔ 1 ≤ l.level now := by
  rw [acquireTurn_eq h]
  split_ifs with htoken <;> simp [htoken]

/-- **The law of the token bucket.** Over any run of any callers, at most `C + r * (t - s)` calls of
`acquire` return from `s` to `t`, and the tokens stay between zero and `C`. A caller that must wait
waits a positive time, and as long as no call returns a turn takes a token exactly when that time
is over. -/
theorem token_bucket_law {ι : Type} [DecidableEq ι] {C r t₀ : ℚ} (hC : 1 ≤ C) (hr : 0 < r)
    {acts : List (Act ι)} {σ : Callers ι} (hrun : (Callers.start C r t₀).run acts = some σ) :
    (∀ s t, s ≤ t → (σ.returned.countP fun x => decide (s ≤ x ∧ x ≤ t) : ℚ) ≤ C + r * (t - s)) ∧
      (0 ≤ σ.limiter.state.tokens ∧ σ.limiter.state.tokens ≤ C) ∧
      ∀ i wait, σ.caller i = .turning → (σ.limiter.acquireTurn σ.now).1 = some wait →
        0 < wait ∧ ∀ acts' σ', (σ.turn i).run acts' = some σ' → σ'.returned = σ.returned →
          ((σ'.limiter.acquireTurn σ'.now).1 = none ↔ σ.now + wait ≤ σ'.now) := by
  have h : Inv C r σ := (Inv.start (zero_le_one.trans hC) hr.le).run hr.le hrun
  refine ⟨h.paced.window, ⟨h.paced.nonneg, h.paced.le_cap⟩, fun i wait _ hwait => ?_⟩
  obtain ⟨hlow, rfl⟩ := acquireTurn_wait h.clock hwait
  rw [h.rate]
  refine ⟨div_pos (sub_pos.mpr hlow) hr, fun acts' σ' hrest hquiet => ?_⟩
  have hturn := h.turn hr.le i
  obtain ⟨-, hgrown⟩ := Inv.run_grows hrest
  have hquiet' : σ'.returned = (σ.turn i).returned := by
    rcases @Inv.returned_turn ι _ σ i with heq | heq
    · rw [heq, hquiet]
    · rw [heq, hquiet] at hgrown
      exact absurd hgrown.length_le (by simp)
  -- the turn looked at the bucket at `σ.now`, and nobody took a token since
  have hstate : (σ.turn i).limiter.state = σ.limiter.state.refill C r σ.now := by
    unfold Callers.turn
    rw [acquireTurn_eq h.clock, if_neg (not_le.mpr hlow), h.capacity, h.rate]
  rw [acquireTurn_none (hturn.run hr.le hrest).clock, hturn.level_run hr.le hrest hquiet' (le_refl _),
    level, hturn.capacity, hturn.rate, Bucket.one_le_level_iff hr hC, hstate]
  simp only [Bucket.refill, level, h.capacity, h.rate]

/-- Two calls use up a bucket of two tokens, and a third one is about to take its turn. -/
def burst : Callers ℕ where
  limiter := ⟨⟨0, 0⟩, 2, 10⟩
  now := 0
  caller := Function.update (Function.update (Function.update (Function.update (Function.update
    (fun _ => .idle) 0 .turning) 0 .idle) 1 .turning) 1 .idle) 2 .turning
  returned := [0, 0]

/-- The third call waits for a tenth of a second, at ten tokens a second. -/
theorem burst_then_paced :
    (∀ s t, s ≤ t → (burst.returned.countP fun x => decide (s ≤ x ∧ x ≤ t) : ℚ) ≤ 2 + 10 * (t - s)) ∧
      0 < (1 / 10 : ℚ) ∧
      ∀ acts' σ', (burst.turn 2).run acts' = some σ' → σ'.returned = burst.returned →
        ((σ'.limiter.acquireTurn σ'.now).1 = none ↔ burst.now + 1 / 10 ≤ σ'.now) := by
  have hlaw := @token_bucket_law ℕ _ 2 10 0 (by norm_num) (by norm_num)
    [.call 0, .turn 0, .call 1, .turn 1, .call 2] burst (by with_unfolding_all rfl)
  exact ⟨hlaw.1, hlaw.2.2 2 (1 / 10) rfl (by with_unfolding_all rfl)⟩

end RateLimiter

end AirDrive
