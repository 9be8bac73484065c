import Mathlib.Tactic.Lemma
import Mathlib.Data.List.Basic

set_option relaxedAutoImplicit false
set_option autoImplicit false

/-!
# Effect programs

A small library of programs over a signature of effects. A program `p : Prog E ε α` is a tree:
it has finished with a value, has failed with an error, or performs one call `c : E β` and goes
on with the answer. A handler gives the calls their meaning on a state, and one call is one
atomic action: this is what lets a program be run to its end (`Prog.run`), be cut short after
any number of calls (`Prog.cut`), or be interleaved with other programs
(`AirDrive.Effect.Interference`).

## Main definitions

* `Effect.Prog` — programs over a signature `E` with errors `ε`.
* `Effect.Handler` — the meaning of the calls on a state.
* `Effect.Prog.run` — running a program to its end.
* `Effect.Prog.cut`, `Effect.Prog.rest` — the state a program leaves when it is stopped after `n`
  calls, and what it has still to do then.
* `Effect.Prog.trace` — what the calls of a run are noted to do.

## Main results

* `Effect.Prog.run_bind` — running a sequence is running its parts in turn.
* `Effect.Prog.run_attempt` — a handled program never fails.
* `Effect.Prog.cut_of_le` — a cut that is late enough is a whole run.
-/

universe u

namespace Effect

/-- A program over the signature `E`: a value, an error, or a call and what follows it. -/
inductive Prog (E : Type → Type u) (ε α : Type) : Type (max 1 u)
  | pure (a : α) : Prog E ε α
  | fail (e : ε) : Prog E ε α
  | call {β : Type} (c : E β) (k : β → Prog E ε α) : Prog E ε α

/-- The meaning of the calls of `E` on a state `σ`: the answer and the state after. -/
abbrev Handler (E : Type → Type u) (σ : Type) := ∀ β, E β → σ → β × σ

namespace Prog

variable {E : Type → Type u} {ε α β γ σ : Type}

/-- Sequencing: the errors of the first program are final. -/
def bind : Prog E ε α → (α → Prog E ε β) → Prog E ε β
  | .pure a, f => f a
  | .fail e, _ => .fail e
  | .call c k, f => .call c fun b => (k b).bind f

instance : Monad (Prog E ε) where
  pure := .pure
  bind := bind

/-- The program that performs one call and returns its answer. -/
def lift (c : E α) : Prog E ε α := .call c .pure

/-- Turn an outcome into a program: the source's `?`. -/
def ofExcept : Except ε α → Prog E ε α
  | .ok a => .pure a
  | .error e => .fail e

/-- Run a program whose error is handled by the caller instead of ending the caller. -/
def attempt : Prog E ε α → Prog E ε (Except ε α)
  | .pure a => .pure (.ok a)
  | .fail e => .pure (.error e)
  | .call c k => .call c fun b => (k b).attempt

/-- Run `f` on every element of a list, in order, stopping at the first error. -/
def forEach : List α → (α → Prog E ε Unit) → Prog E ε Unit
  | [], _ => .pure ()
  | a :: l, f => (f a).bind fun _ => forEach l f

/-- Run `f` on every element of a list, in order, with an accumulator. -/
def foldM : List α → (β → α → Prog E ε β) → β → Prog E ε β
  | [], _, b => .pure b
  | a :: l, f, b => (f b a).bind fun b' => foldM l f b'

/-- Run a program to its end: its outcome and the state it leaves. -/
def run (h : Handler E σ) : Prog E ε α → σ → Except ε α × σ
  | .pure a, s => (.ok a, s)
  | .fail e, s => (.error e, s)
  | .call c k, s => run h (k (h _ c s).1) (h _ c s).2

/-- The state left by a program that is stopped after at most `n` calls. -/
def cut (h : Handler E σ) : ℕ → Prog E ε α → σ → σ
  | n + 1, .call c k, s => cut h n (k (h _ c s).1) (h _ c s).2
  | _, _, s => s

/-- What a program has still to do after at most `n` calls. -/
def rest (h : Handler E σ) : ℕ → Prog E ε α → σ → Prog E ε α
  | n + 1, .call c k, s => rest h n (k (h _ c s).1) (h _ c s).2
  | _, p, _ => p

/-- The number of calls a program makes when it runs to its end. -/
def calls (h : Handler E σ) : Prog E ε α → σ → ℕ
  | .call c k, s => calls h (k (h _ c s).1) (h _ c s).2 + 1
  | _, _ => 0

/-- What the calls of a run are noted to do, in order. -/
def trace {τ : Type} (h : Handler E σ) (note : ∀ β, E β → σ → List τ) : Prog E ε α → σ → List τ
  | .call c k, s => note _ c s ++ trace h note (k (h _ c s).1) (h _ c s).2
  | _, _ => []

/-- The same program over a larger signature. -/
def embed {F : Type → Type u} (f : ∀ β, E β → F β) : Prog E ε α → Prog F ε α
  | .pure a => .pure a
  | .fail e => .fail e
  | .call c k => .call (f _ c) fun b => (k b).embed f

@[simp] lemma pure_eq (a : α) : (Pure.pure a : Prog E ε α) = .pure a := rfl

@[simp] lemma bind_eq (p : Prog E ε α) (f : α → Prog E ε β) : p >>= f = p.bind f := rfl

@[simp] lemma pure_bind (a : α) (f : α → Prog E ε β) : (Prog.pure a).bind f = f a := rfl

@[simp] lemma fail_bind (e : ε) (f : α → Prog E ε β) : (Prog.fail e).bind f = .fail e := rfl

@[simp] lemma call_bind {δ : Type} (c : E δ) (k : δ → Prog E ε α) (f : α → Prog E ε β) :
    (Prog.call c k).bind f = .call c fun b => (k b).bind f := rfl

@[simp] lemma lift_bind (c : E α) (f : α → Prog E ε β) :
    (lift c : Prog E ε α).bind f = .call c f := rfl

@[simp] lemma ofExcept_ok (a : α) : (ofExcept (.ok a) : Prog E ε α) = .pure a := rfl

@[simp] lemma ofExcept_error (e : ε) : (ofExcept (.error e) : Prog E ε α) = .fail e := rfl

@[simp] lemma attempt_pure (a : α) : (Prog.pure a : Prog E ε α).attempt = .pure (.ok a) := rfl

@[simp] lemma attempt_fail (e : ε) :
    (Prog.fail e : Prog E ε α).attempt = .pure (.error e) := rfl

@[simp] lemma attempt_call {δ : Type} (c : E δ) (k : δ → Prog E ε α) :
    (Prog.call c k).attempt = .call c fun b => (k b).attempt := rfl

@[simp] lemma attempt_ofExcept (x : Except ε α) :
    (ofExcept x : Prog E ε α).attempt = .pure x := by
  cases x <;> rfl

@[simp] lemma forEach_nil (f : α → Prog E ε Unit) : forEach [] f = .pure () := rfl

@[simp] lemma forEach_cons (a : α) (l : List α) (f : α → Prog E ε Unit) :
    forEach (a :: l) f = (f a).bind fun _ => forEach l f := rfl

@[simp] lemma foldM_nil (f : β → α → Prog E ε β) (b : β) : foldM [] f b = .pure b := rfl

@[simp] lemma foldM_cons (a : α) (l : List α) (f : β → α → Prog E ε β) (b : β) :
    foldM (a :: l) f b = (f b a).bind fun b' => foldM l f b' := rfl

lemma bind_assoc (p : Prog E ε α) (f : α → Prog E ε β) (g : β → Prog E ε γ) :
    (p.bind f).bind g = p.bind fun a => (f a).bind g := by
  induction p with
  | pure a => rfl
  | fail e => rfl
  | call c k ih => simp [ih]

/-- A loop over two lists in turn. -/
lemma foldM_append (l l' : List α) (f : β → α → Prog E ε β) (b : β) :
    foldM (l ++ l') f b = (foldM l f b).bind fun b' => foldM l' f b' := by
  induction l generalizing b with
  | nil => rfl
  | cons a l ih =>
    rw [List.cons_append, foldM_cons, foldM_cons, bind_assoc]
    congr 1
    funext b'
    exact ih b'

/-- A sequence over a larger signature. -/
lemma embed_bind {F : Type → Type u} (g : ∀ δ, E δ → F δ) (p : Prog E ε α) (f : α → Prog E ε β) :
    (p.bind f).embed g = (p.embed g).bind fun a => (f a).embed g := by
  induction p with
  | pure a => rfl
  | fail e => rfl
  | call c k ih => simp [embed, ih]

/-! ## Running -/

section Run

variable (h : Handler E σ)

@[simp] lemma run_pure (a : α) (s : σ) : run h (.pure a : Prog E ε α) s = (.ok a, s) := rfl

@[simp] lemma run_fail (e : ε) (s : σ) : run h (.fail e : Prog E ε α) s = (.error e, s) := rfl

@[simp] lemma run_call (c : E β) (k : β → Prog E ε α) (s : σ) :
    run h (.call c k) s = run h (k (h _ c s).1) (h _ c s).2 := rfl

/-- Running a sequence: run the first program, and the second one from where it ended unless
the first one failed. -/
lemma run_bind (p : Prog E ε α) (f : α → Prog E ε β) (s : σ) :
    run h (p.bind f) s =
      match run h p s with
      | (.ok a, s') => run h (f a) s'
      | (.error e, s') => (.error e, s') := by
  induction p generalizing s with
  | pure a => rfl
  | fail e => rfl
  | call c k ih => simp [ih]

/-- A handled program never fails and leaves the state the program leaves. -/
lemma run_attempt (p : Prog E ε α) (s : σ) :
    run h p.attempt s = (.ok (run h p s).1, (run h p s).2) := by
  induction p generalizing s with
  | pure a => rfl
  | fail e => rfl
  | call c k ih => simp [ih]

/-- Sequencing when the first part is known to succeed. -/
lemma run_bind_ok {p : Prog E ε α} {f : α → Prog E ε β} {s s' : σ} {a : α}
    (hp : run h p s = (.ok a, s')) : run h (p.bind f) s = run h (f a) s' := by
  rw [run_bind, hp]

/-- Sequencing when the first part is known to fail. -/
lemma run_bind_error {p : Prog E ε α} {f : α → Prog E ε β} {s s' : σ} {e : ε}
    (hp : run h p s = (.error e, s')) : run h (p.bind f) s = (.error e, s') := by
  rw [run_bind, hp]

/-- A program runs over a larger signature as it does over its own. -/
lemma run_embed {F : Type → Type u} {f : ∀ β, E β → F β} {h' : Handler F σ}
    (hf : ∀ β (c : E β) s, h' β (f β c) s = h β c s) (p : Prog E ε α) (s : σ) :
    run h' (p.embed f) s = run h p s := by
  induction p generalizing s with
  | pure a => rfl
  | fail e => rfl
  | call c k ih => simp [embed, hf, ih]

section Trace

variable {τ : Type} (note : ∀ β, E β → σ → List τ)

@[simp] lemma trace_pure (a : α) (s : σ) : trace h note (.pure a : Prog E ε α) s = [] := rfl

@[simp] lemma trace_fail (e : ε) (s : σ) : trace h note (.fail e : Prog E ε α) s = [] := rfl

@[simp] lemma trace_call (c : E β) (k : β → Prog E ε α) (s : σ) :
    trace h note (.call c k) s = note _ c s ++ trace h note (k (h _ c s).1) (h _ c s).2 := rfl

@[simp] lemma trace_ofExcept (x : Except ε α) (s : σ) :
    trace h note (ofExcept x : Prog E ε α) s = [] := by
  cases x <;> rfl

@[simp] lemma trace_attempt (p : Prog E ε α) (s : σ) :
    trace h note p.attempt s = trace h note p s := by
  induction p generalizing s with
  | pure a => rfl
  | fail e => rfl
  | call c k ih => simp [ih]

/-- The trace of a sequence. -/
lemma trace_bind (p : Prog E ε α) (f : α → Prog E ε β) (s : σ) :
    trace h note (p.bind f) s = trace h note p s ++
      match run h p s with
      | (.ok a, s') => trace h note (f a) s'
      | (.error _, _) => [] := by
  induction p generalizing s with
  | pure a => simp
  | fail e => simp
  | call c k ih => simp [ih]

lemma mem_trace_bind {p : Prog E ε α} {f : α → Prog E ε β} {s : σ} {x : τ} :
    x ∈ trace h note (p.bind f) s ↔ x ∈ trace h note p s ∨
      ∃ a s', run h p s = (.ok a, s') ∧ x ∈ trace h note (f a) s' := by
  rw [trace_bind, List.mem_append]
  refine or_congr_right ?_
  obtain ⟨a | a, s'⟩ := run h p s <;> simp

/-- What is noted in a loop is noted in one of its rounds. -/
lemma mem_trace_foldM {l : List α} {f : β → α → Prog E ε β} {b : β} {s : σ} {x : τ}
    (hx : x ∈ trace h note (foldM l f b) s) : ∃ pre a post b' s', l = pre ++ a :: post ∧
      run h (foldM pre f b) s = (.ok b', s') ∧ x ∈ trace h note (f b' a) s' := by
  induction l generalizing b s with
  | nil => exact absurd hx List.not_mem_nil
  | cons a l ih =>
    rw [foldM_cons, mem_trace_bind] at hx
    rcases hx with hx | ⟨b₁, s₁, hrun, hx⟩
    · exact ⟨[], a, l, b, s, rfl, rfl, hx⟩
    · obtain ⟨pre, a', post, b', s', rfl, hpre, hx'⟩ := ih hx
      exact ⟨a :: pre, a', post, b', s', rfl, by rw [foldM_cons, run_bind_ok _ hrun, hpre], hx'⟩

lemma mem_trace_forEach {l : List α} {f : α → Prog E ε Unit} {s : σ} {x : τ}
    (hx : x ∈ trace h note (forEach l f) s) : ∃ pre a post s', l = pre ++ a :: post ∧
      run h (forEach pre f) s = (.ok (), s') ∧ x ∈ trace h note (f a) s' := by
  induction l generalizing s with
  | nil => exact absurd hx List.not_mem_nil
  | cons a l ih =>
    rw [forEach_cons, mem_trace_bind] at hx
    rcases hx with hx | ⟨_, s₁, hrun, hx⟩
    · exact ⟨[], a, l, s, rfl, rfl, hx⟩
    · obtain ⟨pre, a', post, s', rfl, hpre, hx'⟩ := ih hx
      exact ⟨a :: pre, a', post, s', rfl, by rw [forEach_cons, run_bind_ok _ hrun, hpre], hx'⟩

lemma trace_embed {F : Type → Type u} {f : ∀ β, E β → F β} {h' : Handler F σ}
    {note' : ∀ β, F β → σ → List τ} (hf : ∀ β (c : E β) s, h' β (f β c) s = h β c s)
    (hnote : ∀ β (c : E β) s, note' β (f β c) s = note β c s) (p : Prog E ε α) (s : σ) :
    trace h' note' (p.embed f) s = trace h note p s := by
  induction p generalizing s with
  | pure a => rfl
  | fail e => rfl
  | call c k ih => simp [embed, hf, hnote, ih]

end Trace

/-- A cut after the last call is a whole run. -/
lemma cut_of_le (p : Prog E ε α) (n : ℕ) (s : σ) (hn : calls h p s ≤ n) :
    cut h n p s = (run h p s).2 := by
  induction p generalizing s n with
  | pure a => cases n <;> rfl
  | fail e => cases n <;> rfl
  | call c k ih =>
    cases n with
    | zero => simp [calls] at hn
    | succ n => exact ih _ n _ (by simpa [calls] using hn)

end Run

end Prog

end Effect
