import Mathlib.Data.List.Induction
import Mathlib.Data.List.Nodup
import Mathlib.Logic.Function.Basic
import Mathlib.Order.Lattice
import Mathlib.Order.Monotone.Defs
import Mathlib.Tactic.Lemma

set_option relaxedAutoImplicit false
set_option autoImplicit false

/-!
# Coalescing by key

Events come in, each with a key, and wait until some later time. An event that comes in takes the
place of the one of its key that waits. A flush lets all events go that have waited long enough, in
any order. So the events that go are those that nothing of their key follows before the first flush
that is late enough.

## Main definitions

* `Data.Coalesce.Act` — an event comes in, or the waiting events are flushed.
* `Data.Coalesce.heldAfter` — what waits after a list of acts.
* `Data.Coalesce.Run` — every flush lets go what is due.
* `Data.Coalesce.Rests` — nothing happens to an event that waits.

## Main results

* `Data.Coalesce.heldAfter_eq_some` — what waits, by the acts before.
* `Data.Coalesce.mem_flush_iff` — what a flush lets go, by the acts before.
* `Data.Coalesce.latest` — the events of a key that went, and the one that waits.
* `Data.Coalesce.flushed_in_order` — what came in earlier goes no later.
-/

namespace Data.Coalesce

/-- An event of a stream. -/
inductive Act (α T : Type)
  /-- An event comes in. -/
  | recv (now : T) (a : α)
  /-- The waiting events that are due go, in this order. -/
  | flush (now : T) (out : List α)

/-- The events that wait, by key, with the times at which they are due. -/
abbrev Held (α κ T : Type) := κ → Option (α × T)

variable {α κ T : Type} [DecidableEq κ] [LinearOrder T]

section Acts

variable (key : α → κ) (delay : T → T)

/-- What waits after an act. -/
def Act.next : Act α T → Held α κ T → Held α κ T
  | .recv now a, p => Function.update p (key a) (some (a, delay now))
  | .flush now _, p => fun k => (p k).filter fun e => now < e.2

/-- A flush lets exactly the due events go, one for each key. -/
def Act.Fits : Act α T → Held α κ T → Prop
  | .recv _ _, _ => True
  | .flush now out, p =>
    (out.map key).Nodup ∧ ∀ a, a ∈ out ↔ ∃ d ≤ now, p (key a) = some (a, d)

/-- What waits after a list of acts. -/
def heldAfter (acts : List (Act α T)) (p : Held α κ T) : Held α κ T :=
  acts.foldl (fun p x => x.next key delay p) p

/-- Every flush of a list of acts lets go what is due then. -/
def Run : List (Act α T) → Held α κ T → Prop
  | [], _ => True
  | x :: acts, p => x.Fits key p ∧ Run acts (x.next key delay p)

/-- The event that comes in with an act. -/
def Act.received : Act α T → List α
  | .recv _ a => [a]
  | .flush _ _ => []

/-- The events that go with an act. -/
def Act.flushed : Act α T → List α
  | .recv _ _ => []
  | .flush _ out => out

/-- The time of an act. -/
def Act.time : Act α T → T
  | .recv now _ => now
  | .flush now _ => now

/-- The event of a key that waits and is due at a time is neither replaced nor let go. -/
def Rests (k : κ) (due : T) (acts : List (Act α T)) : Prop :=
  ∀ x ∈ acts, match x with
    | .recv _ b => key b ≠ k
    | .flush now _ => now < due

end Acts

variable {key : α → κ} {delay : T → T} {now t d : T} {acts before after : List (Act α T)} {a b : α}
  {k : κ}
  {out : List α} {p : Held α κ T}

@[simp] lemma next_recv_self :
    (Act.recv now b).next key delay p (key b) = some (b, delay now) :=
  Function.update_self _ _ _

lemma next_recv_ne (h : k ≠ key b) : (Act.recv now b).next key delay p k = p k :=
  Function.update_of_ne h _ _

lemma next_flush : (Act.flush now out).next key delay p k = (p k).filter fun e => now < e.2 := rfl

lemma heldAfter_append (acts acts' : List (Act α T)) (p : Held α κ T) :
    heldAfter key delay (acts ++ acts') p =
      heldAfter key delay acts' (heldAfter key delay acts p) := List.foldl_append

lemma run_append {acts acts' : List (Act α T)} {p : Held α κ T} :
    Run key delay (acts ++ acts') p ↔
      Run key delay acts p ∧ Run key delay acts' (heldAfter key delay acts p) := by
  induction acts generalizing p with
  | nil => simp [Run, heldAfter]
  | cons x acts ih =>
    show _ ∧ Run key delay (acts ++ acts') _ ↔ (_ ∧ Run key delay acts _) ∧ _
    rw [ih, and_assoc]
    rfl

omit [DecidableEq κ] in
lemma rests_append {acts acts' : List (Act α T)} :
    Rests key k d (acts ++ acts') ↔ Rests key k d acts ∧ Rests key k d acts' := by
  simp only [Rests, List.mem_append]
  exact ⟨fun h => ⟨fun x hx => h x (.inl hx), fun x hx => h x (.inr hx)⟩,
    fun h x hx => hx.elim (h.1 x) (h.2 x)⟩

omit [DecidableEq κ] in
lemma rests_recv : Rests key k d [Act.recv now b] ↔ key b ≠ k := by
  simp [Rests]

omit [DecidableEq κ] in
lemma rests_flush : Rests key k d [Act.flush now out] ↔ now < d := by
  simp [Rests]

omit [LinearOrder T] in
/-- The acts up to the one in which an event comes in, of a list that ends with another one. -/
lemma recv_concat {x : Act α T} {P : List (Act α T) → T → List (Act α T) → Prop} :
    (∃ pre t mid, acts ++ [x] = pre ++ .recv t a :: mid ∧ P pre t mid) ↔
      (∃ pre t mid, acts = pre ++ .recv t a :: mid ∧ P pre t (mid ++ [x])) ∨
        ∃ t, x = .recv t a ∧ P acts t [] := by
  constructor
  · rintro ⟨pre, t, mid, hsplit, hP⟩
    rcases List.eq_nil_or_concat mid with rfl | ⟨mid, y, rfl⟩
    · obtain ⟨rfl, hx⟩ := List.append_inj' hsplit rfl
      obtain rfl := (List.cons.inj hx).1
      exact .inr ⟨t, rfl, hP⟩
    · rw [List.concat_eq_append, ← List.cons_append, ← List.append_assoc] at hsplit
      obtain ⟨rfl, hx⟩ := List.append_inj' hsplit rfl
      obtain rfl := (List.cons.inj hx).1
      exact .inl ⟨pre, t, mid, rfl, List.concat_eq_append ▸ hP⟩
  · rintro (⟨pre, t, mid, rfl, hP⟩ | ⟨t, rfl, hP⟩)
    · exact ⟨pre, t, mid ++ [x], by simp, hP⟩
    · exact ⟨acts, t, [], rfl, hP⟩

/-- **What waits**: the last event of the key, if no flush came when it was due.

**Proof sketch.** Induction on the acts from the end: the last act replaces the event of one key, or
takes those away that are due. -/
lemma heldAfter_eq_some : heldAfter key delay acts (fun _ => none) k = some (a, d) ↔
    ∃ pre t mid, acts = pre ++ .recv t a :: mid ∧
      key a = k ∧ d = delay t ∧ Rests key k d mid := by
  induction acts using List.reverseRecOn generalizing a d with
  | nil => simp [heldAfter]
  | append_singleton acts x ih =>
    rw [heldAfter_append, recv_concat]
    simp only [rests_append]
    show x.next key delay (heldAfter key delay acts fun _ => none) k = _ ↔ _
    cases x with
    | recv now b =>
      simp only [rests_recv, Act.recv.injEq]
      by_cases hk : k = key b
      · subst hk
        rw [next_recv_self]
        constructor
        · intro h
          obtain ⟨rfl, rfl⟩ := Prod.mk.inj (Option.some.inj h)
          exact .inr ⟨now, ⟨rfl, rfl⟩, rfl, rfl, by simp [Rests]⟩
        · rintro (⟨_, _, _, _, _, _, -, hne⟩ | ⟨t, ⟨rfl, rfl⟩, -, rfl, -⟩)
          · exact absurd rfl hne
          · rfl
      · rw [next_recv_ne hk, ih]
        constructor
        · rintro ⟨pre, t, mid, hsplit, hkey, hd, hrest⟩
          exact .inl ⟨pre, t, mid, hsplit, hkey, hd, hrest, fun h => hk h.symm⟩
        · rintro (⟨pre, t, mid, hsplit, hkey, hd, hrest, -⟩ | ⟨t, ⟨-, rfl⟩, hkey, -⟩)
          · exact ⟨pre, t, mid, hsplit, hkey, hd, hrest⟩
          · exact absurd hkey.symm hk
    | flush now out =>
      simp only [rests_flush, reduceCtorEq, false_and, exists_false, or_false]
      rw [next_flush, Option.filter_eq_some_iff, ih, decide_eq_true_eq]
      constructor
      · rintro ⟨⟨pre, t, mid, hsplit, hkey, hd, hrest⟩, hlate⟩
        exact ⟨pre, t, mid, hsplit, hkey, hd, hrest, hlate⟩
      · rintro ⟨pre, t, mid, hsplit, hkey, hd, hrest, hlate⟩
        exact ⟨⟨pre, t, mid, hsplit, hkey, hd, hrest⟩, hlate⟩

/-- **What a flush lets go**: an event goes exactly when it has waited long enough, nothing of its
key came in after it, and no earlier flush took it. -/
lemma mem_flush_iff (h : Run key delay (before ++ .flush now out :: after) fun _ => none) :
    (out.map key).Nodup ∧ ∀ a, a ∈ out ↔ ∃ pre t mid, before = pre ++ .recv t a :: mid ∧
      delay t ≤ now ∧ Rests key (key a) (delay t) mid := by
  obtain ⟨hnodup, hout⟩ := ((run_append.mp h).2).1
  refine ⟨hnodup, fun a => ?_⟩
  rw [hout]
  simp only [heldAfter_eq_some]
  constructor
  · rintro ⟨d, hd, pre, t, mid, hsplit, -, rfl, hrest⟩
    exact ⟨pre, t, mid, hsplit, hd, hrest⟩
  · rintro ⟨pre, t, mid, hsplit, hd, hrest⟩
    exact ⟨_, hd, pre, t, mid, hsplit, trivial, rfl, hrest⟩

/-! ## The events of one key -/

/-- Of a list with one event for each key, those of one key. -/
lemma filter_key_of_nodup (hnodup : (out.map key).Nodup) :
    out.filter (fun a => key a = k) = [] ∨
      ∃ a ∈ out, key a = k ∧ out.filter (fun a => key a = k) = [a] := by
  cases hfilter : out.filter fun a => key a = k with
  | nil => exact .inl rfl
  | cons a rest =>
    have hmem : ∀ b ∈ a :: rest, b ∈ out ∧ key b = k := fun b hb => by
      rw [← hfilter, List.mem_filter] at hb
      simpa using hb
    have hsub : (a :: rest).Nodup := by
      rw [← hfilter]
      exact (List.Nodup.of_map key hnodup).filter _
    have hrest : rest = [] := by
      apply List.eq_nil_iff_forall_not_mem.mpr
      intro b hb
      have ha := hmem a (by simp)
      have hb' := hmem b (by simp [hb])
      have hab := List.inj_on_of_nodup_map hnodup ha.1 hb'.1 (ha.2.trans hb'.2.symm)
      exact (List.nodup_cons.mp hsub).1 (hab ▸ hb)
    exact .inr ⟨a, (hmem a (by simp)).1, (hmem a (by simp)).2, by rw [hrest]⟩

/-- The event of a key that waits. -/
def waiting (p : Held α κ T) (k : κ) : List α := ((p k).map Prod.fst).toList

/-- What waits under a key is an event of that key. -/
def Keyed (key : α → κ) (p : Held α κ T) : Prop := ∀ k a d, p k = some (a, d) → key a = k

lemma Keyed.next (h : Keyed key p) (x : Act α T) : Keyed key (x.next key delay p) := by
  intro k a d hk
  cases x with
  | recv now b =>
    by_cases hb : k = key b
    · subst hb
      rw [next_recv_self] at hk
      rw [(Prod.mk.inj (Option.some.inj hk)).1]
    · rw [next_recv_ne hb] at hk
      exact h k a d hk
  | flush now out =>
    rw [next_flush] at hk
    exact h k a d (Option.filter_eq_some_iff.mp hk).1

/-- What a flush lets go under a key: the event that waits, when it is due. -/
lemma filter_flush (delay : T → T) (hkeyed : Keyed key p)
    (hfits : (Act.flush now out).Fits key p) (k : κ) :
    (out.filter (fun a => key a = k) = waiting p k ∧
        waiting ((Act.flush now out).next key delay p) k = []) ∨
      (out.filter (fun a => key a = k) = [] ∧
        waiting ((Act.flush now out).next key delay p) k = waiting p k) := by
  obtain ⟨hnodup, hout⟩ := hfits
  rcases filter_key_of_nodup (k := k) hnodup with hnone | ⟨a, ha, rfl, hone⟩
  · cases hk : p k with
    | none => exact .inr ⟨hnone, by simp [waiting, next_flush, hk]⟩
    | some e =>
      obtain ⟨a, d⟩ := e
      have hlate : now < d := by
        by_contra hdue
        have hmem := (hout a).mpr ⟨d, not_lt.mp hdue, by rw [hkeyed k a d hk, hk]⟩
        have hin : a ∈ out.filter fun a => key a = k :=
          List.mem_filter.mpr ⟨hmem, by simpa using hkeyed k a d hk⟩
        rw [hnone] at hin
        simp at hin
      exact .inr ⟨hnone, by simp [waiting, next_flush, hk, hlate]⟩
  · obtain ⟨d, hd, hk⟩ := (hout a).mp ha
    exact .inl ⟨by rw [hone]; simp [waiting, hk], by simp [waiting, next_flush, hk, hd]⟩

/-- **The events of a key**: those that went, and then the one that waits, are among those that
came in, in their order, and end with the last one.

**Proof sketch.** Induction on the acts, over what waits before them. -/
lemma latest_from (hkeyed : Keyed key p) (h : Run key delay acts p) (k : κ) :
    ((acts.flatMap Act.flushed).filter (fun a => key a = k) ++
        waiting (heldAfter key delay acts p) k).Sublist
      (waiting p k ++ (acts.flatMap Act.received).filter fun a => key a = k) ∧
    ((acts.flatMap Act.flushed).filter (fun a => key a = k) ++
        waiting (heldAfter key delay acts p) k).getLast? =
      (waiting p k ++ (acts.flatMap Act.received).filter fun a => key a = k).getLast? := by
  induction acts generalizing p with
  | nil => simp [heldAfter]
  | cons x acts ih =>
    obtain ⟨hfits, hrun⟩ := h
    obtain ⟨hsub, hlast⟩ := ih (hkeyed.next x) hrun
    have hheld : heldAfter key delay (x :: acts) p =
        heldAfter key delay acts (x.next key delay p) := rfl
    rw [hheld]
    simp only [List.flatMap_cons, List.filter_append]
    cases x with
    | recv now b =>
      by_cases hk : key b = k
      · have hwait : waiting ((Act.recv now b).next key delay p) k = [b] := by
          rw [waiting, ← hk, next_recv_self]
          rfl
        rw [hwait] at hsub hlast
        have hone : [b].filter (fun a => key a = k) = [b] := by simp [hk]
        simp only [Act.flushed, Act.received, List.filter_nil, List.nil_append, hone]
        refine ⟨hsub.trans (List.sublist_append_right _ _), hlast.trans ?_⟩
        rw [List.getLast?_append_of_ne_nil (waiting p k) (by simp)]
      · have hwait : waiting ((Act.recv now b).next key delay p) k = waiting p k := by
          rw [waiting, waiting, next_recv_ne (Ne.symm hk)]
        rw [hwait] at hsub hlast
        have hnone : [b].filter (fun a => key a = k) = [] := by simp [hk]
        simp only [Act.flushed, Act.received, List.filter_nil, List.nil_append, hnone]
        exact ⟨hsub, hlast⟩
    | flush now out =>
      simp only [Act.flushed, Act.received, List.filter_nil, List.nil_append]
      rcases filter_flush delay hkeyed hfits k with ⟨hgone, hwait⟩ | ⟨hgone, hwait⟩
      · rw [hwait, List.nil_append] at hsub hlast
        rw [hgone, List.append_assoc]
        refine ⟨hsub.append_left _, ?_⟩
        rw [List.getLast?_append, hlast, ← List.getLast?_append]
      · rw [hwait] at hsub hlast
        rw [hgone, List.nil_append]
        exact ⟨hsub, hlast⟩

/-- The events of a key in a run that starts with nothing. -/
lemma latest (h : Run key delay acts fun _ => none) (k : κ) :
    ((acts.flatMap Act.flushed).filter (fun a => key a = k) ++
        waiting (heldAfter key delay acts fun _ => none) k).Sublist
      ((acts.flatMap Act.received).filter fun a => key a = k) ∧
    ((acts.flatMap Act.flushed).filter (fun a => key a = k) ++
        waiting (heldAfter key delay acts fun _ => none) k).getLast? =
      ((acts.flatMap Act.received).filter fun a => key a = k).getLast? := by
  have hempty : Keyed key (fun _ => none : Held α κ T) := fun k a d hk => by cases hk
  simpa [waiting] using latest_from hempty h k

/-- **What came in earlier goes no later**: an event that still waits at a flush is let go by it if
it came in before another one that is, when the clock does not go back. -/
lemma flushed_in_order {first second mid : List (Act α T)} {t' : T} (hdelay : Monotone delay)
    (h : Run key delay (before ++ .flush now out :: after) fun _ => none)
    (hclock : (before.map Act.time).Pairwise (· ≤ ·))
    (hsplit : before = first ++ .recv t' b :: (second ++ .recv t a :: mid))
    (hrests : Rests key (key b) (delay t') (second ++ .recv t a :: mid))
    (hdue : delay t ≤ now) : b ∈ out := by
  refine ((mem_flush_iff h).2 b).mpr ⟨first, t', _, hsplit, ?_, hrests⟩
  have htimes : t' ≤ t := by
    rw [hsplit, List.map_append, List.map_cons, List.pairwise_append] at hclock
    exact (List.pairwise_cons.mp hclock.2.1).1 t (by simp [Act.time])
  exact (hdelay htimes).trans hdue

end Data.Coalesce
