import AirDrive.Effect.Program
import Mathlib.Logic.Function.Basic

set_option relaxedAutoImplicit false
set_option autoImplicit false

/-!
# Programs under interference

Several programs share one state. What they agree on are *terms*: an invariant of the state, what
a program relies on the others to do between two of its calls, and what each of its own calls
guarantees. A program is *safe* from a state when each of its calls keeps the terms, whatever the
others do within them, and when it ends with its postcondition. Safe programs keep the invariant
in a whole run, in a run that is stopped anywhere, and in every interleaving with each other.

A program that runs alone is the special case in which the others do nothing
(`Effect.Terms.solo`); safety is then its weakest precondition together with the invariant at
every point where it can be stopped.

## Main definitions

* `Effect.Terms`, `Effect.Terms.solo`, `Effect.Terms.shared` — the terms of sharing.
* `Effect.Prog.Safe` — safety of a program, with a postcondition on its outcome.
* `Effect.Prog.Only`, `Effect.Prog.Performs` — a program that makes only calls of some kind,
  whatever the answers are, or when it is run from a state.
* `Effect.Prog.Yields` — what a program ends with, whatever the answers are.
* `Effect.Prog.RunsAmid`, `Effect.Prog.noting` — a run while others change the state, and what its
  calls are noted to do.
* `Effect.Watched`, `Effect.watch` — a run whose calls are judged on the way.
* `Effect.Config`, `Effect.Step`, `Effect.Reaches` — programs that share a state, their
  interleaved steps and the runs of such steps.

## Main results

* `Effect.Prog.safe_bind`, `Effect.Prog.Safe.forEach` — safe programs compose.
* `Effect.Prog.Safe.run`, `Effect.Prog.Safe.cut` — whole and interrupted runs.
* `Effect.Reaches.invariant`, `Effect.Reaches.invariant_each` — every interleaving keeps the
  invariant, with terms that all share or that each thread has of its own.
-/

universe u

namespace Effect

/-- The terms on which programs share a state. -/
structure Terms (σ : Type) where
  /-- The invariant of the state. -/
  inv : σ → Prop
  /-- What the others may do to the state between two calls. -/
  rely : σ → σ → Prop
  /-- What each call may do to the state. -/
  guar : σ → σ → Prop

namespace Terms

variable {σ : Type}

/-- A program that runs alone keeps an invariant. -/
def solo (I : σ → Prop) : Terms σ := ⟨I, Eq, fun _ _ => True⟩

/-- Programs that all keep an invariant and move the state along a relation. -/
def shared (I : σ → Prop) (R : σ → σ → Prop) : Terms σ := ⟨I, R, R⟩

@[simp] lemma solo_inv (I : σ → Prop) : (solo I).inv = I := rfl

@[simp] lemma solo_rely (I : σ → Prop) (s s' : σ) : (solo I).rely s s' ↔ s = s' := Iff.rfl

@[simp] lemma solo_guar (I : σ → Prop) (s s' : σ) : (solo I).guar s s' := trivial

@[simp] lemma shared_inv (I : σ → Prop) (R : σ → σ → Prop) : (shared I R).inv = I := rfl

@[simp] lemma shared_rely (I : σ → Prop) (R : σ → σ → Prop) : (shared I R).rely = R := rfl

@[simp] lemma shared_guar (I : σ → Prop) (R : σ → σ → Prop) : (shared I R).guar = R := rfl

end Terms

namespace Prog

variable {E : Type → Type u} {ε α β γ σ : Type}

/-- From the state `s`, every call of the program keeps the terms, and the program ends with an
outcome and a state that satisfy `Q`. -/
def Safe (h : Handler E σ) (T : Terms σ) (Q : Except ε α → σ → Prop) : Prog E ε α → σ → Prop
  | .pure a, s => Q (.ok a) s
  | .fail e, s => Q (.error e) s
  | .call c k, s => ∀ s', T.rely s s' → T.inv s' →
      T.inv (h _ c s').2 ∧ T.guar s' (h _ c s').2 ∧ Safe h T Q (k (h _ c s').1) (h _ c s').2

/-- No condition on the outcome. -/
abbrev Any : Except ε α → σ → Prop := fun _ _ => True

section Safe

variable {h : Handler E σ} {T : Terms σ} {Q : Except ε α → σ → Prop} {s : σ}

@[simp] lemma safe_pure (a : α) : Safe h T Q (.pure a) s ↔ Q (.ok a) s := Iff.rfl

@[simp] lemma safe_fail (e : ε) : Safe h T Q (.fail e) s ↔ Q (.error e) s := Iff.rfl

lemma safe_call (c : E β) (k : β → Prog E ε α) :
    Safe h T Q (.call c k) s ↔ ∀ s', T.rely s s' → T.inv s' → T.inv (h _ c s').2 ∧
      T.guar s' (h _ c s').2 ∧ Safe h T Q (k (h _ c s').1) (h _ c s').2 := Iff.rfl

/-- A call of a program that runs alone. -/
@[simp] lemma safe_call_solo {I : σ → Prop} (c : E β) (k : β → Prog E ε α) :
    Safe h (.solo I) Q (.call c k) s ↔
      (I s → I (h _ c s).2 ∧ Safe h (.solo I) Q (k (h _ c s).1) (h _ c s).2) := by
  simp [safe_call]

/-- Weakening the postcondition. -/
lemma Safe.mono {Q' : Except ε α → σ → Prop} {p : Prog E ε α} (hp : Safe h T Q p s)
    (hQ : ∀ x s, Q x s → Q' x s) : Safe h T Q' p s := by
  induction p generalizing s with
  | pure a => exact hQ _ _ hp
  | fail e => exact hQ _ _ hp
  | call c k ih =>
    intro s' hrely hinv
    obtain ⟨hinv', hguar, hk⟩ := hp s' hrely hinv
    exact ⟨hinv', hguar, ih _ hk⟩

/-- **Sequencing**: the second program is safe from every state in which the first one can end. -/
@[simp] lemma safe_bind {p : Prog E ε α} {f : α → Prog E ε β} {Q : Except ε β → σ → Prop} :
    Safe h T Q (p.bind f) s ↔
      Safe h T (fun x s => match x with
        | .ok a => Safe h T Q (f a) s
        | .error e => Q (.error e) s) p s := by
  induction p generalizing s with
  | pure a => rfl
  | fail e => rfl
  | call c k ih => simp only [call_bind, safe_call, ih]

/-- Sequencing, from a postcondition of the first program. -/
lemma Safe.bind {P : Except ε α → σ → Prop} {p : Prog E ε α} {f : α → Prog E ε β}
    {Q : Except ε β → σ → Prop} (hp : Safe h T P p s)
    (hok : ∀ a s, P (.ok a) s → Safe h T Q (f a) s)
    (herror : ∀ e s, P (.error e) s → Q (.error e) s) : Safe h T Q (p.bind f) s := by
  refine safe_bind.mpr (hp.mono fun x s hx => ?_)
  cases x with
  | ok a => exact hok a s hx
  | error e => exact herror e s hx

/-- Handling the error of a program. -/
@[simp] lemma safe_attempt {p : Prog E ε α} {Q : Except ε (Except ε α) → σ → Prop} :
    Safe h T Q p.attempt s ↔ Safe h T (fun x s => Q (.ok x) s) p s := by
  induction p generalizing s with
  | pure a => rfl
  | fail e => rfl
  | call c k ih => simp only [attempt_call, safe_call, ih]

/-- An outcome makes no call. -/
@[simp] lemma safe_ofExcept (x : Except ε α) : Safe h T Q (ofExcept x) s ↔ Q x s := by
  cases x <;> rfl

/-- **The loop rule**: what holds at the head of the loop is kept by each iteration. -/
lemma Safe.forEach {l : List α} {f : α → Prog E ε Unit} {Q : Except ε Unit → σ → Prop}
    (J : σ → Prop) (hJ : J s)
    (hf : ∀ a ∈ l, ∀ s, J s → Safe h T (fun x s => match x with
      | .ok _ => J s
      | .error e => Q (.error e) s) (f a) s)
    (hQ : ∀ s, J s → Q (.ok ()) s) : Safe h T Q (Prog.forEach l f) s := by
  induction l generalizing s with
  | nil => exact hQ s hJ
  | cons a l ih =>
    refine safe_bind.mpr ((hf a (by simp) s hJ).mono fun x s' hx => ?_)
    cases x with
    | ok u => exact ih hx fun b hb => hf b (by simp [hb])
    | error e => exact hx

/-- The loop rule for a loop with an accumulator. -/
lemma Safe.foldM {l : List α} {f : β → α → Prog E ε β} {b : β} {Q : Except ε β → σ → Prop}
    (J : β → σ → Prop) (hJ : J b s)
    (hf : ∀ a ∈ l, ∀ b s, J b s → Safe h T (fun x s => match x with
      | .ok b => J b s
      | .error e => Q (.error e) s) (f b a) s)
    (hQ : ∀ b s, J b s → Q (.ok b) s) : Safe h T Q (Prog.foldM l f b) s := by
  induction l generalizing b s with
  | nil => exact hQ b s hJ
  | cons a l ih =>
    refine safe_bind.mpr ((hf a (by simp) b s hJ).mono fun x s' hx => ?_)
    cases x with
    | ok b' => exact ih hx fun c hc => hf c (by simp [hc])
    | error e => exact hx

/-- A program stays safe when the others move on within the terms, if they keep its
postcondition. -/
lemma Safe.of_rely_kept {p : Prog E ε α} {s' : σ} (hp : Safe h T Q p s) (hs : T.rely s s')
    (htrans : ∀ a b c, T.rely a b → T.rely b c → T.rely a c)
    (hkept : ∀ x a b, T.rely a b → Q x a → Q x b) : Safe h T Q p s' := by
  cases p with
  | pure a => exact hkept _ _ _ hs hp
  | fail e => exact hkept _ _ _ hs hp
  | call c k => exact fun s'' hs'' => hp s'' (htrans _ _ _ hs hs'')

/-- A program stays safe when the others move on within the terms. -/
lemma Safe.of_rely {p : Prog E ε α} {s' : σ} (hp : Safe h T Any p s) (hs : T.rely s s')
    (htrans : ∀ a b c, T.rely a b → T.rely b c → T.rely a c) : Safe h T Any p s' :=
  hp.of_rely_kept hs htrans fun _ _ _ _ _ => trivial

/-! ## Programs that run alone -/

/-- **The run rule**: a safe program keeps the invariant and establishes its postcondition.

**Proof sketch.** Induction on the program: each call keeps the invariant and leaves a safe
program. -/
lemma Safe.run {I : σ → Prop} {p : Prog E ε α} (hp : Safe h (.solo I) Q p s) (hs : I s) :
    I (Prog.run h p s).2 ∧ Q (Prog.run h p s).1 (Prog.run h p s).2 := by
  induction p generalizing s with
  | pure a => exact ⟨hs, hp⟩
  | fail e => exact ⟨hs, hp⟩
  | call c k ih =>
    obtain ⟨hinv, hk⟩ := (safe_call_solo c k).mp hp hs
    exact ih _ hk hinv

/-- A program that keeps a stronger invariant is safe for a weaker one. -/
lemma Safe.of_inv {I J : σ → Prop} {p : Prog E ε α} (hJ : ∀ s, J s → I s)
    (hp : Safe h (.solo J) Q p s) (hs : J s) : Safe h (.solo I) (fun x s => J s ∧ Q x s) p s := by
  induction p generalizing s with
  | pure a => exact ⟨hs, hp⟩
  | fail e => exact ⟨hs, hp⟩
  | call c k ih =>
    obtain ⟨hinv, hk⟩ := (safe_call_solo c k).mp hp hs
    exact (safe_call_solo c k).mpr fun _ => ⟨hJ _ hinv, ih _ hk hinv⟩

/-- To show that a program is safe one may assume the invariant, if its outcome does not matter. -/
lemma Safe.of_assumed {I : σ → Prop} {p : Prog E ε α} (hp : I s → Safe h (.solo I) Any p s) :
    Safe h (.solo I) Any p s := by
  cases p with
  | call c k => exact (safe_call_solo c k).mpr fun hs => (safe_call_solo c k).mp (hp hs) hs
  | _ => trivial

/-- A safe program that is not disturbed ends where it runs to. -/
lemma Safe.and_run {I : σ → Prop} {p : Prog E ε α} (hp : Safe h (.solo I) Q p s) :
    Safe h (.solo I) (fun x s' => Prog.run h p s = (x, s') ∧ Q x s') p s := by
  induction p generalizing s with
  | pure a => exact ⟨rfl, hp⟩
  | fail e => exact ⟨rfl, hp⟩
  | call c k ih =>
    refine (safe_call_solo c k).mpr fun hs => ?_
    obtain ⟨hinv, hk⟩ := (safe_call_solo c k).mp hp hs
    exact ⟨hinv, ih _ hk⟩

/-- A safe program ends in the invariant. -/
lemma Safe.and_inv {I : σ → Prop} {p : Prog E ε α} (hp : Safe h (.solo I) Q p s) (hs : I s) :
    Safe h (.solo I) (fun x s => I s ∧ Q x s) p s :=
  hp.of_inv (fun _ => id) hs

/-- Along a program the state moves as each call moves it. -/
lemma Safe.and_rel {I : σ → Prop} {R : σ → σ → Prop} {p : Prog E ε α} (hrefl : ∀ s, R s s)
    (htrans : ∀ a b c, R a b → R b c → R a c) (hcall : ∀ β (c : E β) s, R s (h β c s).2)
    (hp : Safe h (.solo I) Q p s) : Safe h (.solo I) (fun x s' => R s s' ∧ Q x s') p s := by
  induction p generalizing s with
  | pure a => exact ⟨hrefl s, hp⟩
  | fail e => exact ⟨hrefl s, hp⟩
  | call c k ih =>
    refine (safe_call_solo c k).mpr fun hI => ?_
    obtain ⟨hinv, hk⟩ := (safe_call_solo c k).mp hp hI
    exact ⟨hinv, (ih _ hk).mono fun x s' hx => ⟨htrans _ _ _ (hcall _ c s) hx.1, hx.2⟩⟩

/-- **The crash rule**: a safe program that is stopped anywhere leaves the invariant. -/
lemma Safe.cut {I : σ → Prop} {p : Prog E ε α} (hp : Safe h (.solo I) Q p s) (hs : I s) (n : ℕ) :
    I (Prog.cut h n p s) := by
  induction p generalizing s n with
  | pure a => cases n <;> exact hs
  | fail e => cases n <;> exact hs
  | call c k ih =>
    cases n with
    | zero => exact hs
    | succ n =>
      obtain ⟨hinv, hk⟩ := (safe_call_solo c k).mp hp hs
      exact ih _ hk hinv n

end Safe

/-! ## Programs of some calls only -/

/-- The program makes only calls that satisfy `P`, whatever their answers are. -/
def Only (P : ∀ β, E β → Prop) : Prog E ε α → Prop
  | .pure _ => True
  | .fail _ => True
  | .call c k => P _ c ∧ ∀ b, Only P (k b)

section Only

variable {P : ∀ β, E β → Prop}

@[simp] lemma only_pure (a : α) : Only P (.pure a : Prog E ε α) := trivial

@[simp] lemma only_fail (e : ε) : Only P (.fail e : Prog E ε α) := trivial

@[simp] lemma only_call (c : E β) (k : β → Prog E ε α) :
    Only P (.call c k) ↔ P _ c ∧ ∀ b, Only P (k b) := Iff.rfl

lemma Only.bind {p : Prog E ε α} {f : α → Prog E ε β} (hp : Only P p) (hf : ∀ a, Only P (f a)) :
    Only P (p.bind f) := by
  induction p with
  | pure a => exact hf a
  | fail e => trivial
  | call c k ih => exact ⟨hp.1, fun b => ih b (hp.2 b)⟩

lemma Only.mono {P' : ∀ β, E β → Prop} {p : Prog E ε α} (hp : Only P p)
    (hP : ∀ β c, P β c → P' β c) : Only P' p := by
  induction p with
  | pure a => trivial
  | fail e => trivial
  | call c k ih => exact ⟨hP _ c hp.1, fun b => ih b (hp.2 b)⟩

lemma Only.attempt {p : Prog E ε α} (hp : Only P p) : Only P p.attempt := by
  induction p with
  | pure a => trivial
  | fail e => trivial
  | call c k ih => exact ⟨hp.1, fun b => ih b (hp.2 b)⟩

@[simp] lemma only_ofExcept (x : Except ε α) : Only P (ofExcept x : Prog E ε α) := by
  cases x <;> trivial

@[simp] lemma only_ofExcept_bind (x : Except ε α) {f : α → Prog E ε β} :
    Only P ((ofExcept x).bind f) ↔ ∀ a, x = .ok a → Only P (f a) := by
  cases x <;> simp

lemma Only.forEach {l : List α} {f : α → Prog E ε Unit} (hf : ∀ a ∈ l, Only P (f a)) :
    Only P (Prog.forEach l f) := by
  induction l with
  | nil => trivial
  | cons a l ih => exact (hf a (by simp)).bind fun _ => ih fun b hb => hf b (by simp [hb])

lemma Only.foldM {l : List α} {f : β → α → Prog E ε β} {b : β} (hf : ∀ a ∈ l, ∀ b, Only P (f b a)) :
    Only P (Prog.foldM l f b) := by
  induction l generalizing b with
  | nil => trivial
  | cons a l ih => exact (hf a (by simp) b).bind fun b' => ih fun c hc => hf c (by simp [hc])

lemma Only.and {P' : ∀ β, E β → Prop} {p : Prog E ε α} (hp : Only P p) (hp' : Only P' p) :
    Only (fun β c => P β c ∧ P' β c) p := by
  induction p with
  | pure a => trivial
  | fail e => trivial
  | call c k ih => exact ⟨⟨hp.1, hp'.1⟩, fun b => ih b (hp.2 b) (hp'.2 b)⟩

/-- Every program makes calls. -/
lemma only_true (p : Prog E ε α) : Only (fun _ _ => True) p := by
  induction p with
  | pure a => trivial
  | fail e => trivial
  | call c k ih => exact ⟨trivial, ih⟩

/-- A program whose calls are not noted has an empty trace. -/
lemma Only.trace_eq_nil {τ : Type} {h : Handler E σ} {note : ∀ β, E β → σ → List τ}
    {p : Prog E ε α} {s : σ} (hp : Only P p) (hnote : ∀ β c s, P β c → note β c s = []) :
    trace h note p s = [] := by
  induction p generalizing s with
  | pure a => rfl
  | fail e => rfl
  | call c k ih => rw [trace_call, hnote _ c s hp.1, ih _ (hp.2 _), List.append_nil]

/-- A program is safe when its calls keep the terms and a fact that the others leave alone; the fact
holds when it ends. -/
lemma Only.safe_rely {h : Handler E σ} {T : Terms σ} {J : σ → Prop} {p : Prog E ε α} {s : σ}
    (hp : Only P p)
    (hcall : ∀ β c s, P β c → T.inv s → J s →
      T.inv (h β c s).2 ∧ T.guar s (h β c s).2 ∧ J (h β c s).2)
    (hrely : ∀ s s', T.rely s s' → J s → J s') (hs : J s) : Safe h T (fun _ s => J s) p s := by
  induction p generalizing s with
  | pure a => exact hs
  | fail e => exact hs
  | call c k ih =>
    intro s' hR hI
    obtain ⟨hI', hR', hJ'⟩ := hcall _ c s' hp.1 hI (hrely s s' hR hs)
    exact ⟨hI', hR', ih _ (hp.2 _) hJ'⟩

/-- A program that makes only calls which keep the terms and a fact about the state is safe, and
the fact holds when it ends. -/
lemma Only.safe {h : Handler E σ} {I J : σ → Prop} {p : Prog E ε α} {s : σ} (hp : Only P p)
    (hcall : ∀ β c s, P β c → I s → J s → I (h β c s).2 ∧ J (h β c s).2) (hs : J s) :
    Safe h (.solo I) (fun _ s => J s) p s := by
  refine hp.safe_rely (fun β c s hc hI hJ => ?_) (fun s s' hsame hJ => hsame ▸ hJ) hs
  obtain ⟨hI', hJ'⟩ := hcall β c s hc hI hJ
  exact ⟨hI', trivial, hJ'⟩

/-- A program that shares its state is safe when its calls keep the terms and a fact that the
others leave alone; the fact holds when it ends. -/
lemma Only.safe_shared {h : Handler E σ} {I J : σ → Prop} {R : σ → σ → Prop} {p : Prog E ε α}
    {s : σ} (hp : Only P p)
    (hcall : ∀ β c s, P β c → I s → J s → I (h β c s).2 ∧ R s (h β c s).2 ∧ J (h β c s).2)
    (hrely : ∀ s s', R s s' → J s → J s') (hs : J s) :
    Safe h (.shared I R) (fun _ s => J s) p s :=
  hp.safe_rely hcall hrely hs

end Only

/-! ## Values that depend on no answer -/

/-- Whatever the answers are, the program ends with a value that satisfies `Q`, if it does not
fail. -/
def Yields (Q : α → Prop) : Prog E ε α → Prop
  | .pure a => Q a
  | .fail _ => True
  | .call _ k => ∀ b, Yields Q (k b)

section Yields

variable {Q : α → Prop}

@[simp] lemma yields_pure (a : α) : Yields Q (.pure a : Prog E ε α) ↔ Q a := Iff.rfl

@[simp] lemma yields_fail (e : ε) : Yields Q (.fail e : Prog E ε α) := trivial

@[simp] lemma yields_call (c : E β) (k : β → Prog E ε α) :
    Yields Q (.call c k) ↔ ∀ b, Yields Q (k b) := Iff.rfl

/-- Without a condition on its value, every program does. -/
lemma yields_true (p : Prog E ε α) : Yields (fun _ => True) p := by
  induction p with
  | pure a => trivial
  | fail e => trivial
  | call c k ih => exact ih

lemma Yields.mono {R : α → Prop} {p : Prog E ε α} (hp : Yields Q p) (h : ∀ a, Q a → R a) :
    Yields R p := by
  induction p with
  | pure a => exact h a hp
  | fail e => trivial
  | call c k ih => exact fun b => ih b (hp b)

/-- A sequence yields what its second part yields for the values of the first. -/
lemma Yields.bind {P : β → Prop} {p : Prog E ε β} {f : β → Prog E ε α} (hp : Yields P p)
    (hf : ∀ b, P b → Yields Q (f b)) : Yields Q (p.bind f) := by
  induction p with
  | pure b => exact hf b hp
  | fail e => trivial
  | call c k ih => exact fun b => ih b (hp b)

/-- The loop rule: what holds of the accumulator is kept by each iteration. -/
lemma Yields.foldM {P : β → Prop} {l : List α} {f : β → α → Prog E ε β} {b : β} (hb : P b)
    (hf : ∀ a ∈ l, ∀ b, P b → Yields P (f b a)) : Yields P (Prog.foldM l f b) := by
  induction l generalizing b with
  | nil => exact hb
  | cons a l ih => exact (hf a (by simp) b hb).bind fun b' hb' => ih hb' fun c hc => hf c (by simp [hc])

/-- The calls of a sequence, whose second part is only asked about the values of the first. -/
lemma Only.bind_yields {P : ∀ β, E β → Prop} {R : β → Prop} {p : Prog E ε β}
    {f : β → Prog E ε α} (hp : Only P p) (hvalue : Yields R p) (hf : ∀ b, R b → Only P (f b)) :
    Only P (p.bind f) := by
  induction p with
  | pure b => exact hf b hvalue
  | fail e => trivial
  | call c k ih => exact ⟨hp.1, fun b => ih b (hp.2 b) (hvalue b)⟩

/-- Under every handler, a run that ends well ends with such a value. -/
lemma Yields.run {h : Handler E σ} {p : Prog E ε α} (hp : Yields Q p) {s s' : σ} {a : α}
    (hrun : Prog.run h p s = (.ok a, s')) : Q a := by
  induction p generalizing s with
  | pure b => cases hrun; exact hp
  | fail e => cases hrun
  | call c k ih => exact ih _ (hp _) hrun

end Yields

/-! ## The calls of a run -/

/-- The calls that a program makes when it is run from a state all satisfy `P`. -/
def Performs (h : Handler E σ) (P : ∀ β, E β → Prop) : Prog E ε α → σ → Prop
  | .pure _, _ => True
  | .fail _, _ => True
  | .call c k, s => P _ c ∧ Performs h P (k (h _ c s).1) (h _ c s).2

section Performs

variable {h : Handler E σ} {P : ∀ β, E β → Prop} {s : σ}

@[simp] lemma performs_pure (a : α) : Performs h P (.pure a : Prog E ε α) s := trivial

@[simp] lemma performs_fail (e : ε) : Performs h P (.fail e : Prog E ε α) s := trivial

@[simp] lemma performs_call (c : E β) (k : β → Prog E ε α) :
    Performs h P (.call c k) s ↔ P _ c ∧ Performs h P (k (h _ c s).1) (h _ c s).2 := Iff.rfl

/-- A sequence makes the calls of its first part, and then those of the second. -/
lemma Performs.bind {p : Prog E ε α} {f : α → Prog E ε β} (hp : Performs h P p s)
    (hf : ∀ a s', p.run h s = (.ok a, s') → Performs h P (f a) s') :
    Performs h P (p.bind f) s := by
  induction p generalizing s with
  | pure a => exact hf a s rfl
  | fail e => trivial
  | call c k ih => exact ⟨hp.1, ih _ hp.2 fun a s' hrun => hf a s' hrun⟩

lemma Performs.attempt {p : Prog E ε α} (hp : Performs h P p s) : Performs h P p.attempt s := by
  induction p generalizing s with
  | pure a => trivial
  | fail e => trivial
  | call c k ih => exact ⟨hp.1, ih _ hp.2⟩

/-- What every call of a run keeps holds when the run has ended. -/
lemma Performs.invariant {I : σ → Prop} {p : Prog E ε α} (hp : Performs h P p s)
    (hcall : ∀ β c s, P β c → I s → I (h β c s).2) (hs : I s) : I (p.run h s).2 := by
  induction p generalizing s with
  | pure a => exact hs
  | fail e => exact hs
  | call c k ih => exact ih _ hp.2 (hcall _ c s hp.1 hs)

end Performs

/-! ## Runs amid others -/

/-- A run of a program to its end, in which others change the state along `R` before any of its
calls. -/
inductive RunsAmid (h : Handler E σ) (R : σ → σ → Prop) :
    Prog E ε α → σ → Except ε α → σ → Prop
  | pure (a : α) (s : σ) : RunsAmid h R (.pure a) s (.ok a) s
  | fail (e : ε) (s : σ) : RunsAmid h R (.fail e) s (.error e) s
  | call {β : Type} {c : E β} {k : β → Prog E ε α} {s s' s'' : σ} {x : Except ε α}
      (others : R s s') (rest : RunsAmid h R (k (h β c s').1) (h β c s').2 x s'') :
      RunsAmid h R (.call c k) s x s''

/-- A program that is safe among others that move the state along `R` ends with its
postcondition. -/
lemma Safe.amid {h : Handler E σ} {R G : σ → σ → Prop} {Q : Except ε α → σ → Prop}
    {p : Prog E ε α} {s s' : σ} {x : Except ε α} (hp : Safe h ⟨fun _ => True, R, G⟩ Q p s)
    (hrun : RunsAmid h R p s x s') : Q x s' := by
  induction hrun with
  | pure a s => exact hp
  | fail e s => exact hp
  | call others rest ih => exact ih (hp _ others trivial).2.2

/-- A run of a sequence is one of its first part, and then one of the second if that has ended
well. -/
lemma RunsAmid.bind_cases {h : Handler E σ} {R : σ → σ → Prop} {p : Prog E ε α}
    {f : α → Prog E ε β} {s s' : σ} {x : Except ε β} (hrun : RunsAmid h R (p.bind f) s x s') :
    (∃ a s₁, RunsAmid h R p s (.ok a) s₁ ∧ RunsAmid h R (f a) s₁ x s') ∨
      ∃ e, x = .error e ∧ RunsAmid h R p s (.error e) s' := by
  induction p generalizing s with
  | pure a => exact .inl ⟨a, s, .pure a s, hrun⟩
  | fail e =>
    cases hrun
    exact .inr ⟨e, rfl, .fail e _⟩
  | call c k ih =>
    cases hrun with
    | call others rest =>
      rcases ih _ rest with ⟨a, s₁, hfirst, hsecond⟩ | ⟨e, rfl, hfirst⟩
      · exact .inl ⟨a, s₁, .call others hfirst, hsecond⟩
      · exact .inr ⟨e, rfl, .call others hfirst⟩

/-- A run of a program whose outcome is looked at. -/
lemma RunsAmid.attempt_cases {h : Handler E σ} {R : σ → σ → Prop} {p : Prog E ε α} {s s' : σ}
    {x : Except ε (Except ε α)} (hrun : RunsAmid h R p.attempt s x s') :
    ∃ y, x = .ok y ∧ RunsAmid h R p s y s' := by
  induction p generalizing s with
  | pure a =>
    cases hrun
    exact ⟨_, rfl, .pure a _⟩
  | fail e =>
    cases hrun
    exact ⟨_, rfl, .fail e _⟩
  | call c k ih =>
    cases hrun with
    | call others rest =>
      obtain ⟨y, hy, hrest⟩ := ih _ rest
      exact ⟨y, hy, .call others hrest⟩

/-- The run of a program in which `others n` is what the others do before the `n`-th call. -/
def runWith (h : Handler E σ) (others : ℕ → σ → σ) : ℕ → Prog E ε α → σ → Except ε α × σ
  | _, .pure a, s => (.ok a, s)
  | _, .fail e, s => (.error e, s)
  | n, .call c k, s =>
    runWith h others (n + 1) (k (h _ c (others n s)).1) (h _ c (others n s)).2

/-- Such a run is one among others, when they keep to what they may do. -/
lemma runsAmid_runWith {h : Handler E σ} {R : σ → σ → Prop} {others : ℕ → σ → σ}
    (hothers : ∀ n s, R s (others n s)) (p : Prog E ε α) (n : ℕ) (s : σ) :
    RunsAmid h R p s (p.runWith h others n s).1 (p.runWith h others n s).2 := by
  induction p generalizing n s with
  | pure a => exact .pure a s
  | fail e => exact .fail e s
  | call c k ih => exact .call (hothers n s) (ih _ _ _)

/-- The same calls, with a list of what they are noted to do: each is noted in the state before
it. -/
def noting {τ : Type} (h : Handler E σ) (note : ∀ β, E β → σ → List τ) : Handler E (σ × List τ) :=
  fun β c s => ((h β c s.1).1, ((h β c s.1).2, s.2 ++ note β c s.1))

end Prog

/-! ## Watching a run -/

/-- A state with two ghost bits: whether all calls so far met a condition, and whether all of them
did what they should. -/
structure Watched (σ : Type) where
  /-- The state. -/
  state : σ
  /-- All calls met the condition. -/
  met : Bool
  /-- All calls did what they should. -/
  kept : Bool

/-- The same calls, watched: each is judged in the state before it. -/
def watch {E : Type → Type u} {σ : Type} (h : Handler E σ) (meets keeps : ∀ β, E β → σ → Bool) :
    Handler E (Watched σ) := fun β c s =>
  ((h β c s.state).1, ⟨(h β c s.state).2, s.met && meets β c s.state, s.kept && keeps β c s.state⟩)

/-- Watching changes neither the outcome of a program nor the state it leaves. -/
lemma Prog.run_watch {E : Type → Type u} {ε α σ : Type} {h : Handler E σ}
    {meets keeps : ∀ β, E β → σ → Bool} (p : Prog E ε α) (s : Watched σ) :
    (p.run (watch h meets keeps) s).1 = (p.run h s.state).1 ∧
      (p.run (watch h meets keeps) s).2.state = (p.run h s.state).2 := by
  induction p generalizing s with
  | pure a => exact ⟨rfl, rfl⟩
  | fail e => exact ⟨rfl, rfl⟩
  | call c k ih => exact ih _ _

/-- A handler with more state, which answers as another one does: stopping a program anywhere, the
state that the two have in common is the same. -/
lemma Prog.cut_refines {E : Type → Type u} {ε α σ τ : Type} {h : Handler E σ} {h' : Handler E τ}
    (π : τ → σ) (hanswer : ∀ β c t, (h' β c t).1 = (h β c (π t)).1)
    (hstate : ∀ β c t, π (h' β c t).2 = (h β c (π t)).2) (p : Prog E ε α) (n : ℕ) (t : τ) :
    π (p.cut h' n t) = p.cut h n (π t) := by
  induction p generalizing n t with
  | pure a => cases n <;> rfl
  | fail e => cases n <;> rfl
  | call c k ih =>
    cases n with
    | zero => rfl
    | succ n =>
      simp only [Prog.cut]
      rw [ih, hanswer, hstate]

/-! ## Interleavings -/

/-- Programs that share a state: the state and what each program has still to do. -/
structure Config (E : Type → Type u) (ε ι σ : Type) where
  /-- The shared state. -/
  shared : σ
  /-- What each thread has still to do. -/
  thread : ι → Prog E ε Unit

section Interleaving

variable {E : Type → Type u} {ε ι σ : Type} [DecidableEq ι]

/-- A thread is idle when its program has ended. -/
def Config.Idle (c : Config E ε ι σ) (i : ι) : Prop :=
  (∃ u, c.thread i = .pure u) ∨ ∃ e, c.thread i = .fail e

/-- One step of programs that share a state: an idle thread takes a new job, a thread performs
its next call, the environment changes the state, or all threads are stopped. -/
inductive Step (h : Handler E σ) (job : ι → σ → Prog E ε Unit → Prop) (env : σ → σ → Prop) :
    Config E ε ι σ → Config E ε ι σ → Prop
  | start {c : Config E ε ι σ} {i : ι} {p : Prog E ε Unit} (idle : c.Idle i)
      (take : job i c.shared p) : Step h job env c { c with thread := Function.update c.thread i p }
  | call {c : Config E ε ι σ} {i : ι} {β : Type} {e : E β} {k : β → Prog E ε Unit}
      (next : c.thread i = .call e k) :
      Step h job env c
        ⟨(h _ e c.shared).2, Function.update c.thread i (k (h _ e c.shared).1)⟩
  | env {c : Config E ε ι σ} {s : σ} (change : env c.shared s) :
      Step h job env c { c with shared := s }
  | crash {c : Config E ε ι σ} : Step h job env c { c with thread := fun _ => .pure () }

/-- The configurations reached by any number of steps. -/
inductive Reaches (h : Handler E σ) (job : ι → σ → Prog E ε Unit → Prop) (env : σ → σ → Prop)
    (c₀ : Config E ε ι σ) : Config E ε ι σ → Prop
  | refl : Reaches h job env c₀ c₀
  | step {c c' : Config E ε ι σ} (run : Reaches h job env c₀ c) (next : Step h job env c c') :
      Reaches h job env c₀ c'

variable {h : Handler E σ} {job : ι → σ → Prog E ε Unit → Prop} {env : σ → σ → Prop}
  {I : σ → Prop} {R : σ → σ → Prop}

/-- A thread that performs some of its calls has the others left. -/
lemma Reaches.run_calls {c₀ : Config E ε ι σ} {s : σ} {t : ι → Prog E ε Unit} {i : ι}
    {p : Prog E ε Unit} (n : ℕ) (hc : Reaches h job env c₀ ⟨s, Function.update t i p⟩) :
    Reaches h job env c₀ ⟨p.cut h n s, Function.update t i (p.rest h n s)⟩ := by
  induction p generalizing s n with
  | pure a => cases n <;> exact hc
  | fail e => cases n <;> exact hc
  | call c k ih =>
    cases n with
    | zero => exact hc
    | succ n =>
      refine ih _ n ?_
      have hnext := hc.step (.call (i := i) (e := c) (k := k) (by simp))
      simpa using hnext

/-- A thread that performs its calls one after the other runs its program to the end. -/
lemma Reaches.run_thread {c₀ : Config E ε ι σ} {s : σ} {t : ι → Prog E ε Unit} {i : ι}
    {p : Prog E ε Unit} (hc : Reaches h job env c₀ ⟨s, Function.update t i p⟩) :
    Reaches h job env c₀ ⟨(p.run h s).2, Function.update t i (.ofExcept (p.run h s).1)⟩ := by
  induction p generalizing s with
  | pure a => exact hc
  | fail e => exact hc
  | call c k ih =>
    refine ih _ ?_
    have hnext := hc.step (.call (i := i) (e := c) (k := k) (by simp))
    simpa using hnext

/-- A thread can run what it has left to the end, and is idle then. -/
lemma Reaches.run_left {c₀ : Config E ε ι σ} {s : σ} {t : ι → Prog E ε Unit} {i : ι}
    {p : Prog E ε Unit} (hc : Reaches h job env c₀ ⟨s, t⟩) (hleft : t i = p) :
    ∃ t', Reaches h job env c₀ ⟨(p.run h s).2, t'⟩ ∧ Config.Idle ⟨(p.run h s).2, t'⟩ i ∧
      ∀ j, j ≠ i → t' j = t j := by
  rw [← Function.update_eq_self i t, hleft] at hc
  refine ⟨_, hc.run_thread, ?_, fun j hj => Function.update_of_ne hj _ _⟩
  simp only [Config.Idle, Function.update_self]
  cases (p.run h s).1 with
  | ok u => exact .inl ⟨u, rfl⟩
  | error e => exact .inr ⟨e, rfl⟩

/-- An idle thread can take a job and run it to its end, and is idle again. -/
lemma Reaches.run_job {c₀ : Config E ε ι σ} {s : σ} {t : ι → Prog E ε Unit} {i : ι}
    {p : Prog E ε Unit} (hc : Reaches h job env c₀ ⟨s, t⟩) (idle : Config.Idle ⟨s, t⟩ i)
    (take : job i s p) : ∃ t', Reaches h job env c₀ ⟨(p.run h s).2, t'⟩ ∧
      Config.Idle ⟨(p.run h s).2, t'⟩ i ∧ ∀ j, j ≠ i → t' j = t j := by
  obtain ⟨t', hrun, hidle, hothers⟩ := (hc.step (.start idle take)).run_left
    (Function.update_self i p t)
  exact ⟨t', hrun, hidle, fun j hj => (hothers j hj).trans (Function.update_of_ne hj p t)⟩

/-- A configuration whose state is in the invariant and whose threads are all safe on the
terms. -/
def Config.Safe (h : Handler E σ) (I : σ → Prop) (R : σ → σ → Prop) (c : Config E ε ι σ) : Prop :=
  I c.shared ∧ ∀ i, Prog.Safe h (.shared I R) Prog.Any (c.thread i) c.shared

/-- One step keeps a configuration safe when the jobs are safe and the environment keeps the
terms. -/
lemma Config.Safe.step {c c' : Config E ε ι σ} (hc : c.Safe h I R) (hrefl : ∀ s, R s s)
    (htrans : ∀ a b c, R a b → R b c → R a c)
    (hjob : ∀ i s p, I s → job i s p → Prog.Safe h (.shared I R) Prog.Any p s)
    (henv : ∀ s s', I s → env s s' → I s' ∧ R s s') (hs : Step h job env c c') :
    c'.Safe h I R := by
  obtain ⟨hI, ht⟩ := hc
  cases hs with
  | @start i p idle take =>
    refine ⟨hI, fun j => ?_⟩
    by_cases hj : j = i
    · subst hj; simpa using hjob j _ p hI take
    · simpa [Function.update_of_ne hj] using ht j
  | @call i β e k next =>
    have hi := ht i
    rw [next] at hi
    obtain ⟨hI', hguar, hk⟩ := hi c.shared (hrefl _) hI
    refine ⟨hI', fun j => ?_⟩
    by_cases hj : j = i
    · subst hj; simpa using hk
    · simpa [Function.update_of_ne hj] using (ht j).of_rely hguar htrans
  | @env s change =>
    obtain ⟨hI', hR⟩ := henv _ _ hI change
    exact ⟨hI', fun j => (ht j).of_rely hR htrans⟩
  | crash => exact ⟨hI, fun _ => trivial⟩

/-- **The interleaving rule**: safe programs keep the invariant in every interleaving, with
every behaviour of the environment within the terms and crashes at any point. -/
theorem Reaches.invariant {c₀ c : Config E ε ι σ} (h₀ : c₀.Safe h I R) (hrefl : ∀ s, R s s)
    (htrans : ∀ a b c, R a b → R b c → R a c)
    (hjob : ∀ i s p, I s → job i s p → Prog.Safe h (.shared I R) Prog.Any p s)
    (henv : ∀ s s', I s → env s s' → I s' ∧ R s s') (hc : Reaches h job env c₀ c) :
    c.Safe h I R := by
  induction hc with
  | refl => exact h₀
  | step _ next ih => exact ih.step hrefl htrans hjob henv next

/-- The terms of a thread when each one relies on something of its own: its calls keep to what the
others rely on. -/
def Terms.thread (I : σ → Prop) (rely : ι → σ → σ → Prop) (i : ι) : Terms σ :=
  ⟨I, rely i, fun s s' => ∀ j, j ≠ i → rely j s s'⟩

variable {rely : ι → σ → σ → Prop}

/-- A configuration whose state is in the invariant and whose threads are all safe, each on its
own terms. -/
def Config.SafeEach (h : Handler E σ) (I : σ → Prop) (rely : ι → σ → σ → Prop)
    (c : Config E ε ι σ) : Prop :=
  I c.shared ∧ ∀ i, Prog.Safe h (.thread I rely i) Prog.Any (c.thread i) c.shared

/-- **The interleaving rule for threads with terms of their own.**

**Proof sketch.** Induction on the run. A call of one thread is within what all others rely on, and
leaves a safe rest of its own program. -/
theorem Reaches.invariant_each {c₀ c : Config E ε ι σ} (h₀ : c₀.SafeEach h I rely)
    (hrefl : ∀ i s, rely i s s)
    (htrans : ∀ i a b c, rely i a b → rely i b c → rely i a c)
    (hjob : ∀ i s p, I s → job i s p → Prog.Safe h (.thread I rely i) Prog.Any p s)
    (henv : ∀ s s', I s → env s s' → I s' ∧ ∀ i, rely i s s') (hc : Reaches h job env c₀ c) :
    c.SafeEach h I rely := by
  induction hc with
  | refl => exact h₀
  | step _ next ih =>
    obtain ⟨hI, ht⟩ := ih
    cases next with
    | @start i p idle take =>
      refine ⟨hI, fun j => ?_⟩
      by_cases hj : j = i
      · subst hj; simpa using hjob j _ p hI take
      · simpa [Function.update_of_ne hj] using ht j
    | @call i β e k next =>
      have hi := ht i
      rw [next] at hi
      obtain ⟨hI', hguar, hk⟩ := hi _ (hrefl i _) hI
      refine ⟨hI', fun j => ?_⟩
      by_cases hj : j = i
      · subst hj; simpa using hk
      · simpa [Function.update_of_ne hj] using (ht j).of_rely (hguar j hj) (htrans j)
    | @env s change =>
      obtain ⟨hI', hR⟩ := henv _ _ hI change
      exact ⟨hI', fun j => (ht j).of_rely (hR j) (htrans j)⟩
    | crash => exact ⟨hI, fun _ => trivial⟩

end Interleaving

end Effect
