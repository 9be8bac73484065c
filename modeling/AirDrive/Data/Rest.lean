import Mathlib.Data.Nat.Notation
import Mathlib.Tactic.Lemma

set_option relaxedAutoImplicit false
set_option autoImplicit false

/-!
# Systems that come to rest

A system takes steps of its own, between which others may act on it. Work that every step of its own
uses up and that the others do not add to bounds how many steps it takes.

## Main definitions

* `Data.RunsAmong` — runs, with the number of the system's own steps.

## Main results

* `Data.RunsAmong.invariant` — what all steps keep is kept by a run.
* `Data.RunsAmong.bounded` — a run takes no more steps than there is work.
-/

namespace Data

variable {σ : Type} {Step Others : σ → σ → Prop} {I : σ → Prop} {n : ℕ} {s s' : σ}

/-- A run of `n` steps, among what others do. -/
inductive RunsAmong (Step Others : σ → σ → Prop) : ℕ → σ → σ → Prop
  | refl (s : σ) : RunsAmong Step Others 0 s s
  | step {n : ℕ} {s s' s'' : σ} (h : RunsAmong Step Others n s s') (hstep : Step s' s'') :
      RunsAmong Step Others (n + 1) s s''
  | others {n : ℕ} {s s' s'' : σ} (h : RunsAmong Step Others n s s') (hothers : Others s' s'') :
      RunsAmong Step Others n s s''

namespace RunsAmong

/-- What all steps keep. -/
lemma invariant (hstep : ∀ s s', I s → Step s s' → I s')
    (hothers : ∀ s s', I s → Others s s' → I s') (h : RunsAmong Step Others n s s') (hs : I s) :
    I s' := by
  induction h with
  | refl => exact hs
  | step _ h ih => exact hstep _ _ (ih hs) h
  | others _ h ih => exact hothers _ _ (ih hs) h

/-- **Every step uses up work.** -/
lemma bounded (work : σ → ℕ) (hstep : ∀ s s', I s → Step s s' → I s' ∧ work s' < work s)
    (hothers : ∀ s s', I s → Others s s' → I s' ∧ work s' ≤ work s)
    (h : RunsAmong Step Others n s s') (hs : I s) : n + work s' ≤ work s := by
  have hkeeps : ∀ {n s s'}, RunsAmong Step Others n s s' → I s → I s' := fun h =>
    h.invariant (fun s s' hs h => (hstep s s' hs h).1) fun s s' hs h => (hothers s s' hs h).1
  induction h with
  | refl => omega
  | step h hlast ih =>
    have hbefore := ih hs
    have hless := (hstep _ _ (hkeeps h hs) hlast).2
    omega
  | others h hlast ih =>
    have hbefore := ih hs
    have hless := (hothers _ _ (hkeeps h hs) hlast).2
    omega

end RunsAmong

end Data
