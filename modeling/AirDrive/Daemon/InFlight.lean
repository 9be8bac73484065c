import Mathlib.Data.List.Perm.Basic
import AirDrive.Data.Refcount
import AirDrive.World

set_option relaxedAutoImplicit false
set_option autoImplicit false

/-!
# The registry of operations in flight

The daemon marks the object that an operation is changing, so that the poller does not take the
change for one of somebody else. A mark is a guard, and its drop takes the mark back. All clones of
a registry share one map, which counts the guards of every id.

## Main definitions

* `AirDrive.InFlightOps`, `AirDrive.InFlightGuard` — handles of a registry and its guards.
* `AirDrive.InFlightOps.mark`, `AirDrive.InFlightOps.contains`, `AirDrive.InFlightGuard.drop`.
* `AirDrive.InFlight.Holder` — a program that holds handles and guards, and its steps.

## Main results

* `AirDrive.InFlight.Inv.run` — over any run, every map counts the guards that hold it.
* `AirDrive.InFlight.in_flight_counts` — an id is in flight exactly when one of its guards is live.
* `AirDrive.InFlight.world_refines` — the marks of the daemon's world are those of a registry.

## Design

The maps lie in a shared memory, and a handle is the address of its map, as an `Arc` is. Every
operation takes the lock once, so that it is one step, and no lock is poisoned.
-/

namespace AirDrive

open Data

/-- The maps in memory, by address: the addresses from `next` on are free. -/
structure Memory (κ : Type) where
  cells : ℕ → FinMap κ ℕ
  next : ℕ

/-- `InFlightOps`: the address of its map. -/
structure InFlightOps where
  inner : ℕ
deriving DecidableEq, Repr

/-- `InFlightGuard`. -/
structure InFlightGuard (κ : Type) where
  inner : ℕ
  remoteId : κ
deriving DecidableEq, Repr

section Registry

variable {κ : Type} [DecidableEq κ]

/-- What is done to the map at an address under its lock. -/
def Memory.update (mem : Memory κ) (a : ℕ) (f : FinMap κ ℕ → FinMap κ ℕ) : Memory κ :=
  { mem with cells := Function.update mem.cells a (f (mem.cells a)) }

/-- `InFlightOps::new`. -/
def InFlightOps.new (mem : Memory κ) : InFlightOps × Memory κ :=
  (⟨mem.next⟩, ⟨Function.update mem.cells mem.next Table.empty, mem.next + 1⟩)

/-- `InFlightOps::mark`. -/
def InFlightOps.mark (reg : InFlightOps) (remoteId : κ) (mem : Memory κ) :
    InFlightGuard κ × Memory κ :=
  (⟨reg.inner, remoteId⟩, mem.update reg.inner fun map => Refcount.increment map remoteId)

/-- `InFlightOps::contains`. -/
def InFlightOps.contains (reg : InFlightOps) (remoteId : κ) (mem : Memory κ) : Bool :=
  ((mem.cells reg.inner).val remoteId).isSome

/-- `InFlightGuard::drop`. -/
def InFlightGuard.drop (g : InFlightGuard κ) (mem : Memory κ) : Memory κ :=
  mem.update g.inner fun map => Refcount.decrement map g.remoteId

end Registry

namespace InFlight

variable {κ : Type} [DecidableEq κ]

/-- A program with its handles and the guards that it did not drop yet, oldest first. -/
structure Holder (κ : Type) where
  mem : Memory κ
  handles : List InFlightOps
  guards : List (InFlightGuard κ)

/-- What the program does: make a registry, clone a handle, mark an id, drop a guard. -/
inductive Act (κ : Type)
  | new
  | clone (i : ℕ)
  | mark (i : ℕ) (remoteId : κ)
  | drop (j : ℕ)
deriving DecidableEq, Repr

/-- The program has nothing yet. -/
def Holder.start : Holder κ := ⟨⟨fun _ => Table.empty, 0⟩, [], []⟩

/-- One step, when the handle or the guard is there. -/
def Holder.step (p : Holder κ) : Act κ → Option (Holder κ)
  | .new =>
    some { p with mem := (InFlightOps.new p.mem).2, handles := p.handles ++ [(InFlightOps.new p.mem).1] }
  | .clone i => p.handles[i]?.map fun reg => { p with handles := p.handles ++ [reg] }
  | .mark i remoteId => p.handles[i]?.map fun reg =>
      { p with mem := (reg.mark remoteId p.mem).2, guards := p.guards ++ [(reg.mark remoteId p.mem).1] }
  | .drop j => p.guards[j]?.map fun g => { p with mem := g.drop p.mem, guards := p.guards.eraseIdx j }

/-- A run. -/
def Holder.run (p : Holder κ) : List (Act κ) → Option (Holder κ)
  | [] => some p
  | a :: acts => (p.step a).bind fun p' => p'.run acts

/-- The ids of the guards of a map. -/
def held (guards : List (InFlightGuard κ)) (a : ℕ) : List κ :=
  (guards.filter fun g => g.inner = a).map InFlightGuard.remoteId

/-- Every map counts the guards that hold it, and no handle or guard has a free address. -/
structure Inv (p : Holder κ) : Prop where
  counts : ∀ a, Refcount.Counts (p.mem.cells a) (held p.guards a)
  handle_lt : ∀ reg ∈ p.handles, reg.inner < p.mem.next
  guard_lt : ∀ g ∈ p.guards, g.inner < p.mem.next

namespace Inv

variable {p p' : Holder κ} {a : Act κ} {acts : List (Act κ)}

lemma start : Inv (Holder.start : Holder κ) where
  counts _ := .empty
  handle_lt := by simp [Holder.start]
  guard_lt := by simp [Holder.start]

omit [DecidableEq κ] in
lemma held_append (guards : List (InFlightGuard κ)) (g : InFlightGuard κ) (a : ℕ) :
    held (guards ++ [g]) a = held guards a ++ (if g.inner = a then [g.remoteId] else []) := by
  unfold held
  rw [List.filter_append, List.map_append]
  split_ifs with h <;> simp [h]

omit [DecidableEq κ] in
/-- The guards of a map before one of the guards is dropped. -/
lemma held_eraseIdx {guards : List (InFlightGuard κ)} {g : InFlightGuard κ} {j : ℕ}
    (hg : guards[j]? = some g) (a : ℕ) :
    (held guards a).Perm ((if g.inner = a then [g.remoteId] else []) ++ held (guards.eraseIdx j) a) := by
  obtain ⟨hj, rfl⟩ := List.getElem?_eq_some_iff.mp hg
  have hperm := (List.getElem_cons_eraseIdx_perm hj).symm
  refine ((hperm.filter fun g => decide (g.inner = a)).map InFlightGuard.remoteId).trans ?_
  unfold held
  rw [List.filter_cons]
  split_ifs with h h' h' <;> simp_all

/-- **A mark** counts. -/
lemma mark (h : Inv p) {reg : InFlightOps} (hreg : reg ∈ p.handles) (id : κ) :
    Inv { p with mem := (reg.mark id p.mem).2, guards := p.guards ++ [(reg.mark id p.mem).1] } where
  counts a := by
    simp only [InFlightOps.mark, Memory.update, held_append]
    by_cases ha : reg.inner = a
    · subst ha
      rw [Function.update_self, if_pos rfl]
      exact ((h.counts _).increment id).perm (List.perm_append_singleton _ _).symm
    · rw [Function.update_of_ne (Ne.symm ha), if_neg ha, List.append_nil]
      exact h.counts a
  handle_lt := h.handle_lt
  guard_lt g hg := by
    rcases List.mem_append.mp hg with hg | hg
    · exact h.guard_lt g hg
    · rw [List.mem_singleton.mp hg]
      exact h.handle_lt reg hreg

/-- **A drop** counts. -/
lemma drop (h : Inv p) {g : InFlightGuard κ} {j : ℕ} (hg : p.guards[j]? = some g) :
    Inv { p with mem := g.drop p.mem, guards := p.guards.eraseIdx j } where
  counts a := by
    have hheld := (h.counts a).perm (held_eraseIdx hg a)
    simp only [InFlightGuard.drop, Memory.update]
    by_cases ha : g.inner = a
    · subst ha
      rw [if_pos rfl] at hheld
      rw [Function.update_self]
      exact hheld.decrement
    · rw [if_neg ha] at hheld
      rw [Function.update_of_ne (Ne.symm ha)]
      exact hheld
  handle_lt := h.handle_lt
  guard_lt g' hg' := h.guard_lt g' (List.mem_of_mem_eraseIdx hg')

/-- **A step** counts. -/
lemma step (h : Inv p) (hstep : p.step a = some p') : Inv p' := by
  cases a with
  | new =>
    obtain rfl := Option.some.inj hstep
    refine ⟨fun a => ?_, fun reg hreg => ?_, fun g hg => Nat.lt_succ_of_lt (h.guard_lt g hg)⟩
    · simp only [InFlightOps.new]
      by_cases ha : a = p.mem.next
      · have hnone : held p.guards a = [] := by
          unfold held
          rw [List.map_eq_nil_iff, List.filter_eq_nil_iff]
          intro g hg
          simpa using fun heq => absurd (h.guard_lt g hg) (by omega)
        rw [hnone, ha, Function.update_self]
        exact .empty
      · rw [Function.update_of_ne ha]
        exact h.counts a
    · rcases List.mem_append.mp hreg with hreg | hreg
      · exact Nat.lt_succ_of_lt (h.handle_lt reg hreg)
      · rw [List.mem_singleton.mp hreg]
        exact Nat.lt_succ_self _
  | clone i =>
    obtain ⟨reg, hreg, rfl⟩ := Option.map_eq_some_iff.mp hstep
    refine ⟨h.counts, fun reg' hreg' => ?_, h.guard_lt⟩
    rcases List.mem_append.mp hreg' with hreg' | hreg'
    · exact h.handle_lt reg' hreg'
    · rw [List.mem_singleton.mp hreg']
      exact h.handle_lt reg (List.mem_of_getElem? hreg)
  | mark i id =>
    obtain ⟨reg, hreg, rfl⟩ := Option.map_eq_some_iff.mp hstep
    exact h.mark (List.mem_of_getElem? hreg) id
  | drop j =>
    obtain ⟨g, hg, rfl⟩ := Option.map_eq_some_iff.mp hstep
    exact h.drop hg

/-- **A run** counts. -/
lemma run (h : Inv p) (hrun : p.run acts = some p') : Inv p' := by
  induction acts generalizing p with
  | nil => exact Option.some.inj hrun ▸ h
  | cons a acts ih =>
    obtain ⟨p₁, hstep, hrest⟩ := Option.bind_eq_some_iff.mp hrun
    exact ih (h.step hstep) hrest

/-- What a handle answers. -/
lemma contains_iff (h : Inv p) (reg : InFlightOps) (id : κ) :
    reg.contains id p.mem = true ↔
      0 < p.guards.countP fun g => decide (g.inner = reg.inner ∧ g.remoteId = id) := by
  unfold InFlightOps.contains
  rw [(h.counts _).isSome_val, List.countP_pos_iff]
  simp [held, and_comm, and_assoc]

end Inv

/-- **The registry counts exactly.** After any sequence of steps of a program that starts with
nothing, a handle contains an id exactly when some guard of the id, of this handle or a clone, was
made and not dropped yet; and the drop of a guard does not change the answer for any other id. -/
theorem in_flight_counts {acts : List (Act κ)} {p : Holder κ} (hrun : Holder.start.run acts = some p) :
    (∀ (reg : InFlightOps) (id : κ), reg.contains id p.mem = true ↔
        0 < p.guards.countP fun g => decide (g.inner = reg.inner ∧ g.remoteId = id)) ∧
      ∀ j g p', p.guards[j]? = some g → p.step (.drop j) = some p' →
        ∀ (reg : InFlightOps) (id : κ), id ≠ g.remoteId → reg.contains id p'.mem = reg.contains id p.mem := by
  have h := Inv.start.run hrun
  refine ⟨h.contains_iff, fun j g p' hg hstep reg id hid => ?_⟩
  have h' := h.step hstep
  obtain ⟨g', hg', rfl⟩ := Option.map_eq_some_iff.mp hstep
  obtain rfl := Option.some.inj (hg.symm.trans hg')
  rw [Bool.eq_iff_iff, h'.contains_iff, h.contains_iff]
  obtain ⟨hj, rfl⟩ := List.getElem?_eq_some_iff.mp hg
  have hcount := (List.getElem_cons_eraseIdx_perm hj).countP_eq
    fun g => decide (g.inner = reg.inner ∧ g.remoteId = id)
  rw [List.countP_cons_of_neg (by simp [Ne.symm hid])] at hcount
  rw [hcount]

/-- Two operations mark one id through two clones, and the first one ends. -/
def overlapping : Holder String :=
  (Holder.start.run [.new, .clone 0, .mark 0 "R1", .mark 1 "R1", .drop 0]).getD .start

/-- The id is still in flight, and the end of the second operation changes nothing for another. -/
theorem nested_marks_counted :
    (InFlightOps.contains ⟨0⟩ "R1" overlapping.mem = true ↔
        0 < overlapping.guards.countP fun g => decide (g.inner = 0 ∧ g.remoteId = "R1")) ∧
      ∀ p', overlapping.step (.drop 0) = some p' →
        InFlightOps.contains ⟨0⟩ "R2" p'.mem = InFlightOps.contains ⟨0⟩ "R2" overlapping.mem := by
  obtain ⟨hcount, hdrop⟩ := @in_flight_counts String _
    [.new, .clone 0, .mark 0 "R1", .mark 1 "R1", .drop 0] overlapping rfl
  exact ⟨hcount ⟨0⟩ "R1", fun p' hstep => hdrop 0 ⟨0, "R1"⟩ p' rfl hstep ⟨0⟩ "R2" (by decide)⟩

/-! ## The marks of the daemon -/

/-- **The marks of the world** are those of a registry: the list of marked ids and the map agree
over every mark, every unmark and every question. -/
theorem world_refines {env : Env} {w : World} {map : FinMap FileId ℕ}
    (h : Refcount.Counts map w.inFlight) (id : FileId) :
    Refcount.Counts (Refcount.increment map id) (handle env Unit (.mark id) w).2.inFlight ∧
      Refcount.Counts (Refcount.decrement map id) (handle env Unit (.unmark id) w).2.inFlight ∧
      (handle env Bool (.inFlight id) w).1 = (map.val id).isSome := by
  refine ⟨h.increment id, ?_, ?_⟩
  · simp only [handle_unmark]
    by_cases hid : id ∈ w.inFlight
    · exact (h.perm (List.perm_cons_erase hid)).decrement
    · rw [List.erase_of_not_mem hid, h.decrement_of_notMem hid]
      exact h
  · rw [handle_inFlight, Bool.eq_iff_iff, h.isSome_val, List.contains_iff_mem]

end InFlight

end AirDrive
