import Mathlib.Data.List.Nodup
import Mathlib.Data.List.Perm.Subperm
import Mathlib.Logic.Relation
import Mathlib.Tactic.Lemma

set_option relaxedAutoImplicit false
set_option autoImplicit false

/-!
# Climbing

A partial function `up` gives every key at most one key above it. A climb goes up from a key to
the first key at which it may stop, and records the keys it passes. Climbs are unique, pass no
key twice, and exist as soon as some key above is a place to stop.

## Main definitions

* `Data.Climb` — the climb from a key to the first stop.

## Main results

* `Data.Climb.unique` — a key has at most one climb.
* `Data.Climb.nodup`, `Data.Climb.length_le` — no key is passed twice, so the length of a climb
  is bounded by the number of keys that have a key above them.
* `Data.Climb.further` — a climb goes through the stops on its way.
* `Data.Climb.exists_of_above` — a climb exists when there is a stop above.
-/

namespace Data

variable {κ : Type} {up : κ → Option κ} {stop : κ → Prop}

/-- `Climb up stop a l b`: going up from `a`, the first stop is `b`, and the keys before it are
those of `l`, lowest first. -/
inductive Climb (up : κ → Option κ) (stop : κ → Prop) : κ → List κ → κ → Prop
  | here {a : κ} (ha : stop a) : Climb up stop a [] a
  | step {a b c : κ} {l : List κ} (ha : ¬stop a) (hab : up a = some b)
      (hb : Climb up stop b l c) : Climb up stop a (a :: l) c

/-- The key `b` is `a` or a key above it. -/
def Above (up : κ → Option κ) (a b : κ) : Prop :=
  Relation.ReflTransGen (fun x y => up x = some y) a b

namespace Climb

/-- A climb ends at a stop. -/
lemma stop_end {a b : κ} {l : List κ} (h : Climb up stop a l b) : stop b := by
  induction h with
  | here ha => exact ha
  | step ha hab hb ih => exact ih

/-- The keys of a climb have a key above them and are no stops. -/
lemma passed {a b x : κ} {l : List κ} (h : Climb up stop a l b) (hx : x ∈ l) :
    ¬stop x ∧ up x ≠ none := by
  induction h with
  | here ha => exact absurd hx (by simp)
  | step ha hab hb ih =>
    rcases List.mem_cons.mp hx with rfl | hx
    · exact ⟨ha, by rw [hab]; simp⟩
    · exact ih hx

/-- **Climbs are unique.** -/
lemma unique {a b b' : κ} {l l' : List κ} (h : Climb up stop a l b) (h' : Climb up stop a l' b') :
    l = l' ∧ b = b' := by
  induction h generalizing l' b' with
  | here ha =>
    cases h' with
    | here _ => exact ⟨rfl, rfl⟩
    | step ha' _ _ => exact absurd ha ha'
  | step ha hab hb ih =>
    cases h' with
    | here ha' => exact absurd ha' ha
    | step _ hab' hb' =>
      obtain rfl : _ = _ := Option.some.inj (hab.symm.trans hab')
      obtain ⟨rfl, rfl⟩ := ih hb'
      exact ⟨rfl, rfl⟩

/-- From every key it passes, a climb goes on for a shorter way. -/
lemma suffix {a b x : κ} {l : List κ} (h : Climb up stop a l b) (hx : x ∈ l) :
    ∃ l', Climb up stop x l' b ∧ l'.length ≤ l.length := by
  induction h with
  | here ha => exact absurd hx (by simp)
  | @step a b c l ha hab hb ih =>
    rcases List.mem_cons.mp hx with rfl | hx
    · exact ⟨_, .step ha hab hb, Nat.le_refl _⟩
    · obtain ⟨l', hl', hlen⟩ := ih hx
      refine ⟨l', hl', ?_⟩
      rw [List.length_cons]
      omega

/-- A climb passes no key twice.

**Proof sketch.** A key that comes back later would have a second, shorter climb. -/
lemma nodup {a b : κ} {l : List κ} (h : Climb up stop a l b) : l.Nodup := by
  induction h with
  | here ha => exact List.nodup_nil
  | @step a b c l ha hab hb ih =>
    refine List.nodup_cons.mpr ⟨fun hmem => ?_, ih⟩
    obtain ⟨l', hl', hlen⟩ := hb.suffix hmem
    obtain ⟨rfl, -⟩ := hl'.unique (.step ha hab hb)
    rw [List.length_cons] at hlen
    omega

/-- A climb is at most as long as a list of all keys it can pass. -/
lemma length_le {a b : κ} {l keys : List κ} (h : Climb up stop a l b)
    (hkeys : ∀ x, up x ≠ none → x ∈ keys) : l.length ≤ keys.length := by
  have hsub : l ⊆ keys := fun x hx => hkeys x (h.passed hx).2
  exact (h.nodup.subperm hsub).length_le

/-- **A climb to a stop further up** goes through the stop of a climb that stops earlier. -/
lemma further {stop' : κ → Prop} {a b c : κ} {l l' : List κ} (h : Climb up stop a l b)
    (hpass : ∀ x ∈ l, ¬stop' x) :
    Climb up stop' a l' c ↔ ∃ m, l' = l ++ m ∧ Climb up stop' b m c := by
  induction h generalizing l' with
  | here ha => simp
  | step ha hab hb ih =>
    constructor
    · intro h'
      cases h' with
      | here ha' => exact absurd ha' (hpass _ List.mem_cons_self)
      | step _ hab' hb' =>
        obtain rfl : _ = _ := Option.some.inj (hab.symm.trans hab')
        obtain ⟨m, rfl, hm⟩ := (ih fun x hx => hpass x (List.mem_cons_of_mem _ hx)).mp hb'
        exact ⟨m, rfl, hm⟩
    · rintro ⟨m, rfl, hm⟩
      exact .step (hpass _ List.mem_cons_self) hab
        ((ih fun x hx => hpass x (List.mem_cons_of_mem _ hx)).mpr ⟨m, rfl, hm⟩)

/-- A climb goes up. -/
lemma above {a b : κ} {l : List κ} (h : Climb up stop a l b) : Above up a b := by
  induction h with
  | here _ => exact .refl
  | step _ hab _ ih => exact .head hab ih

/-- **A climb exists** when there is a stop above. -/
lemma exists_of_above {a b : κ} (hab : Above up a b) (hb : stop b) :
    ∃ l c, Climb up stop a l c := by
  induction hab using Relation.ReflTransGen.head_induction_on with
  | refl => exact ⟨[], b, .here hb⟩
  | @head a c hac hcb ih =>
    by_cases ha : stop a
    · exact ⟨[], a, .here ha⟩
    · obtain ⟨l, e, he⟩ := ih
      exact ⟨a :: l, e, .step ha hac he⟩

end Climb

end Data
