import Mathlib.Algebra.Order.Field.Basic
import Mathlib.Tactic.Lemma
import Mathlib.Tactic.Linarith
import Mathlib.Tactic.Ring

set_option relaxedAutoImplicit false
set_option autoImplicit false

/-!
# Token buckets

A bucket holds at most `cap` tokens and gains `rate` of them in a unit of time. It is looked at
now and then, and some looks take one token. Over an ordered field the tokens at any time are a
function of the last look, and what is taken in a window of time is bounded by the capacity and by
what flows in during the window.

## Main definitions

* `Data.Bucket` — the tokens at the time of the last look.
* `Data.Bucket.level`, `Data.Bucket.refill`, `Data.Bucket.take` — the tokens at a later time, a
  look, and a look that takes a token.
* `Data.Bucket.Paced` — what the tokens and the times of the takes have to do with each other.

## Main results

* `Data.Bucket.level_refill` — a look in between does not change the tokens at a later time.
* `Data.Bucket.one_le_level_iff` — when a token is there.
* `Data.Bucket.Paced.refill`, `Data.Bucket.Paced.take` — looks and takes keep the pace.
* `Data.Bucket.Paced.window` — the takes in a window.
-/

namespace Data

variable {K : Type} [Field K] [LinearOrder K] [IsStrictOrderedRing K]

/-- The tokens of a bucket at the time it was looked at last. -/
structure Bucket (K : Type) where
  tokens : K
  last : K
deriving DecidableEq, Repr

namespace Bucket

variable {cap rate : K} {b : Bucket K} {s t u : K} {log : List K}

/-- The tokens at a time from the last look on. -/
def level (cap rate : K) (b : Bucket K) (t : K) : K := min (b.tokens + rate * (t - b.last)) cap

/-- A look at a bucket. -/
def refill (cap rate : K) (b : Bucket K) (t : K) : Bucket K := ⟨b.level cap rate t, t⟩

/-- A look that takes a token. -/
def take (cap rate : K) (b : Bucket K) (t : K) : Bucket K := ⟨b.level cap rate t - 1, t⟩

omit [IsStrictOrderedRing K] in
lemma level_le : b.level cap rate t ≤ cap := min_le_right _ _

lemma level_nonneg (hrate : 0 ≤ rate) (hcap : 0 ≤ cap) (hb : 0 ≤ b.tokens) (ht : b.last ≤ t) :
    0 ≤ b.level cap rate t :=
  le_min (add_nonneg hb (mul_nonneg hrate (sub_nonneg.mpr ht))) hcap

/-- **A look in between** does not change the tokens at a later time. -/
lemma level_refill (hrate : 0 ≤ rate) (h : t ≤ u) :
    (b.refill cap rate t).level cap rate u = b.level cap rate u := by
  have hflow : 0 ≤ rate * (u - t) := mul_nonneg hrate (sub_nonneg.mpr h)
  have hsplit : b.tokens + rate * (t - b.last) + rate * (u - t) =
      b.tokens + rate * (u - b.last) := by ring
  have hfull : min (cap + rate * (u - t)) cap = cap := min_eq_right (by linarith)
  simp only [level, refill]
  rw [← min_add_add_right, hsplit, min_assoc, hfull]

/-- **The first time** at which a token is there. -/
lemma one_le_level_iff (hrate : 0 < rate) (hcap : 1 ≤ cap) :
    1 ≤ b.level cap rate t ↔ b.last + (1 - b.tokens) / rate ≤ t := by
  rw [level, le_min_iff, and_iff_left hcap, ← sub_le_iff_le_add', mul_comm, ← div_le_iff₀ hrate,
    le_sub_iff_add_le']

/-! ## The pace -/

/-- The takes at the times of `log` keep the pace of the bucket: the bounds of the tokens, no take
after the last look, what a window holds, and what the tokens leave to a window that is still
open. -/
structure Paced (cap rate : K) (b : Bucket K) (log : List K) : Prop where
  nonneg : 0 ≤ b.tokens
  le_cap : b.tokens ≤ cap
  past : ∀ x ∈ log, x ≤ b.last
  open_window : ∀ s, s ≤ b.last →
    (log.countP fun x => decide (s ≤ x) : K) + b.tokens ≤ cap + rate * (b.last - s)
  window : ∀ s t, s ≤ t →
    (log.countP fun x => decide (s ≤ x ∧ x ≤ t) : K) ≤ cap + rate * (t - s)

namespace Paced

/-- A full bucket. -/
lemma full (hrate : 0 ≤ rate) (hcap : 0 ≤ cap) (t : K) : Paced cap rate ⟨cap, t⟩ [] where
  nonneg := hcap
  le_cap := le_refl _
  past := by simp
  open_window s hs := by
    have hflow := mul_nonneg hrate (sub_nonneg.mpr hs)
    simpa using hflow
  window s t hs := by
    have hflow := mul_nonneg hrate (sub_nonneg.mpr hs)
    simp only [List.countP_nil, Nat.cast_zero]
    linarith

/-- What the tokens of a later look leave to an open window. -/
lemma room (h : Paced cap rate b log) (hrate : 0 ≤ rate) (hs : s ≤ t) :
    (log.countP fun x => decide (s ≤ x) : K) + b.level cap rate t ≤ cap + rate * (t - s) := by
  have hflow := mul_nonneg hrate (sub_nonneg.mpr hs)
  rcases le_or_gt s b.last with hlast | hlast
  · have hopen := h.open_window s hlast
    have hlevel : b.level cap rate t ≤ b.tokens + rate * (t - b.last) := min_le_left _ _
    have hsplit : rate * (t - s) = rate * (b.last - s) + rate * (t - b.last) := by ring
    linarith
  · -- nothing was taken since `s`
    have hnone : (log.countP fun x => decide (s ≤ x)) = 0 := by
      refine List.countP_eq_zero.mpr fun x hx => ?_
      have hpast := h.past x hx
      simp only [decide_eq_true_eq, not_le]
      linarith
    have hlevel : b.level cap rate t ≤ cap := level_le
    rw [hnone, Nat.cast_zero]
    linarith

/-- **A look** keeps the pace. -/
lemma refill (h : Paced cap rate b log) (hrate : 0 ≤ rate) (ht : b.last ≤ t) :
    Paced cap rate (b.refill cap rate t) log where
  nonneg := level_nonneg hrate (h.nonneg.trans h.le_cap) h.nonneg ht
  le_cap := level_le
  past x hx := (h.past x hx).trans ht
  open_window _ hs := h.room hrate hs
  window := h.window

/-- **A take** keeps the pace, when a token is there. -/
lemma take (h : Paced cap rate b log) (hrate : 0 ≤ rate) (ht : b.last ≤ t)
    (htoken : 1 ≤ b.level cap rate t) : Paced cap rate (b.take cap rate t) (t :: log) where
  nonneg := sub_nonneg.mpr htoken
  le_cap := (sub_le_self _ zero_le_one).trans level_le
  past x hx := by
    rcases List.mem_cons.mp hx with rfl | hx
    · exact le_refl _
    · exact (h.past x hx).trans ht
  open_window s hs := by
    have hs' : s ≤ t := hs
    have hroom := h.room hrate hs'
    simp only [List.countP_cons, hs', decide_true, if_true, Nat.cast_add, Nat.cast_one,
      Bucket.take]
    linarith
  window s u hsu := by
    by_cases hin : s ≤ t ∧ t ≤ u
    · -- the window is open until `t`, and the take uses up one of its tokens
      have hroom := h.room hrate hin.1
      have hmore : (log.countP fun x => decide (s ≤ x ∧ x ≤ u)) ≤
          log.countP fun x => decide (s ≤ x) :=
        List.countP_mono_left fun x _ hx => by
          simp only [decide_eq_true_eq] at hx ⊢
          exact hx.1
      have hmore' : ((log.countP fun x => decide (s ≤ x ∧ x ≤ u)) : K) ≤
          (log.countP fun x => decide (s ≤ x) : K) := by exact_mod_cast hmore
      have hflow : rate * (t - s) ≤ rate * (u - s) :=
        mul_le_mul_of_nonneg_left (by linarith [hin.2]) hrate
      simp only [List.countP_cons, hin, and_self, decide_true, if_true, Nat.cast_add, Nat.cast_one]
      linarith
    · simpa [List.countP_cons, hin] using h.window s u hsu

end Paced

end Bucket

end Data
