import AirDrive.Data.Table

set_option relaxedAutoImplicit false
set_option autoImplicit false

/-!
# Reference counts

A finite map counts the holders of every key: a new holder raises the count, and one that is gone
lowers it, where the last one takes the entry away. The map counts a list of holders when every
entry is the number of occurrences in the list, and no entry is zero.

## Main definitions

* `Data.Refcount.increment`, `Data.Refcount.decrement` — a holder more, and one less.
* `Data.Refcount.Counts` — the map counts a list of holders.

## Main results

* `Data.Refcount.Counts.increment`, `Data.Refcount.Counts.decrement` — both keep counting.
* `Data.Refcount.Counts.isSome_val` — a key has an entry exactly when it has a holder.
-/

namespace Data.Refcount

variable {κ : Type} [DecidableEq κ] {m : FinMap κ ℕ} {k j : κ} {l l' : List κ}

/-- A holder more. -/
def increment (m : FinMap κ ℕ) (k : κ) : FinMap κ ℕ := m.set k ((m.val k).getD 0 + 1)

/-- A holder less. -/
def decrement (m : FinMap κ ℕ) (k : κ) : FinMap κ ℕ :=
  match m.val k with
  | none => m
  | some n => if n ≤ 1 then m.remove k else m.set k (n - 1)

/-- The map counts the holders of the list. -/
def Counts (m : FinMap κ ℕ) (l : List κ) : Prop :=
  ∀ k, m.val k = if l.count k = 0 then none else some (l.count k)

namespace Counts

lemma empty : Counts (Table.empty : FinMap κ ℕ) [] := fun _ => rfl

/-- The order of the holders does not matter. -/
lemma perm (h : Counts m l) (hl : l.Perm l') : Counts m l' := fun k => by
  rw [← hl.count_eq k]
  exact h k

/-- **A key has an entry** exactly when it has a holder. -/
lemma isSome_val (h : Counts m l) (k : κ) : (m.val k).isSome = true ↔ k ∈ l := by
  rw [h k, ← List.count_pos_iff]
  split_ifs with hzero
  · simp [hzero]
  · simp [Nat.pos_of_ne_zero hzero]

/-- **A holder more.** -/
lemma increment (h : Counts m l) (k : κ) : Counts (increment m k) (k :: l) := fun j => by
  unfold Refcount.increment
  by_cases hjk : j = k
  · subst hjk
    rw [FinMap.val_set_self, h j, List.count_cons_self, if_neg (Nat.succ_ne_zero _)]
    split_ifs with hzero
    · simp [hzero]
    · simp
  · rw [FinMap.val_set_ne _ _ hjk, h j, List.count_cons_of_ne (Ne.symm hjk)]

/-- **A holder less.** -/
lemma decrement (h : Counts m (k :: l)) : Counts (decrement m k) l := fun j => by
  have hk : m.val k = some (l.count k + 1) := by
    rw [h k, List.count_cons_self, if_neg (Nat.succ_ne_zero _)]
  simp only [Refcount.decrement, hk]
  by_cases hjk : j = k
  · subst hjk
    by_cases hlast : l.count j = 0
    · rw [if_pos (by omega), FinMap.val_remove_self, if_pos hlast]
    · rw [if_neg (by omega), FinMap.val_set_self, if_neg hlast, Nat.add_sub_cancel]
  · have hother : m.val j = if l.count j = 0 then none else some (l.count j) := by
      rw [h j, List.count_cons_of_ne (Ne.symm hjk)]
    by_cases hlast : l.count k + 1 ≤ 1
    · rw [if_pos hlast, FinMap.val_remove_ne _ hjk, hother]
    · rw [if_neg hlast, FinMap.val_set_ne _ _ hjk, hother]

/-- A holder less of a key that has none. -/
lemma decrement_of_notMem (h : Counts m l) (hk : k ∉ l) : Refcount.decrement m k = m := by
  simp only [Refcount.decrement, h k, List.count_eq_zero.mpr hk, if_true]

end Counts

end Data.Refcount
