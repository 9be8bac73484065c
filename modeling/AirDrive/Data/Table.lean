import Mathlib.Tactic.Lemma
import Mathlib.Data.List.Nodup
import Mathlib.Data.List.Sort

set_option relaxedAutoImplicit false
set_option autoImplicit false

/-!
# Keyed tables

A table is a list of rows whose keys are pairwise different: the uniqueness of the keys is part
of the value, so a table with two rows of one key cannot be built. A finite map is a table of
pairs keyed by their first component.

Rows keep the order in which they were added. All reasoning about a table goes through
membership in its list of rows: `Table.get_eq_some` turns a lookup into a membership, and each
operation has one membership lemma.

## Main definitions

* `Data.Table` — tables of rows with a key.
* `Data.Table.get`, `Data.Table.put`, `Data.Table.add`, `Data.Table.update`, `Data.Table.keep` —
  look up, insert or replace, insert, change in place, filter.
* `Data.FinMap` — finite maps, with `val`, `set` and `move`.
* `Data.Serial` — tables whose keys are drawn from a counter.

## Main results

* `Data.Table.get_eq_some`, `Data.Table.get_eq_none` — lookups as memberships.
* `Data.Table.mem_put`, `Data.Table.mem_add`, `Data.Table.mem_update`, `Data.Table.mem_keep`.
* `Data.Table.get_put_self`, `Data.Table.get_put_ne`.
-/

namespace Data

/-- A list of rows with pairwise different keys. -/
structure Table {ρ κ : Type} (key : ρ → κ) where
  /-- The rows, oldest first. -/
  rows : List ρ
  /-- No two rows have the same key. -/
  nodup : (rows.map key).Nodup

namespace Table

variable {ρ κ : Type} {key : ρ → κ}

/-- The table with no row. -/
def empty : Table key := ⟨[], List.nodup_nil⟩

instance : Inhabited (Table key) := ⟨empty⟩

@[simp] lemma rows_empty : (empty : Table key).rows = [] := rfl

/-- Two rows of a table with the same key are the same row. -/
lemma key_inj (t : Table key) {r s : ρ} (hr : r ∈ t.rows) (hs : s ∈ t.rows)
    (h : key r = key s) : r = s :=
  List.inj_on_of_nodup_map t.nodup hr hs h

/-- Add a row with a new key at the end. -/
def add (t : Table key) (r : ρ) (hr : ∀ s ∈ t.rows, key s ≠ key r) : Table key :=
  ⟨t.rows ++ [r], by
    rw [List.map_append, List.nodup_append]
    refine ⟨t.nodup, by simp, ?_⟩
    rintro a ha b hb rfl
    obtain ⟨s, hs, rfl⟩ := List.mem_map.mp ha
    exact hr s hs (by simpa using hb)⟩

@[simp] lemma mem_add {t : Table key} {r s : ρ} (hr : ∀ s ∈ t.rows, key s ≠ key r) :
    s ∈ (t.add r hr).rows ↔ s ∈ t.rows ∨ s = r := by
  simp [add]

/-- Keep the rows that satisfy `p`. -/
def keep (t : Table key) (p : ρ → Bool) : Table key :=
  ⟨t.rows.filter p, t.nodup.sublist (List.filter_sublist.map key)⟩

@[simp] lemma mem_keep {t : Table key} {p : ρ → Bool} {r : ρ} :
    r ∈ (t.keep p).rows ↔ r ∈ t.rows ∧ p r = true := by
  simp [keep]

/-- Change rows in place by a function that keeps every key. -/
def update (t : Table key) (f : ρ → ρ) (hf : ∀ r, key (f r) = key r) : Table key :=
  ⟨t.rows.map f, by simpa [Function.comp_def, hf] using t.nodup⟩

@[simp] lemma mem_update {t : Table key} {f : ρ → ρ} {hf : ∀ r, key (f r) = key r} {r : ρ} :
    r ∈ (t.update f hf).rows ↔ ∃ s ∈ t.rows, f s = r := by
  simp [update]

section Get

variable [DecidableEq κ]

/-- The row with a given key. -/
def get (t : Table key) (k : κ) : Option ρ := t.rows.find? fun r => key r = k

/-- A lookup finds exactly the row of that key. -/
lemma get_eq_some {t : Table key} {k : κ} {r : ρ} :
    t.get k = some r ↔ r ∈ t.rows ∧ key r = k := by
  constructor
  · intro h
    exact ⟨List.mem_of_find?_eq_some h, by simpa using List.find?_some h⟩
  · rintro ⟨hr, rfl⟩
    cases h : t.get (key r) with
    | none => simpa using List.find?_eq_none.mp h r hr
    | some s =>
      have hs : key s = key r := by simpa using List.find?_some h
      rw [t.key_inj (List.mem_of_find?_eq_some h) hr hs]

/-- A lookup fails exactly when no row has the key. -/
lemma get_eq_none {t : Table key} {k : κ} : t.get k = none ↔ ∀ r ∈ t.rows, key r ≠ k := by
  simp [get]

@[simp] lemma get_empty (k : κ) : (empty : Table key).get k = none := rfl

/-- Insert a row, replacing the row of the same key. -/
def put (t : Table key) (r : ρ) : Table key :=
  (t.keep fun s => key s ≠ key r).add r fun s hs => by simpa using (mem_keep.mp hs).2

@[simp] lemma mem_put {t : Table key} {r s : ρ} :
    s ∈ (t.put r).rows ↔ (s ∈ t.rows ∧ key s ≠ key r) ∨ s = r := by
  simp [put]

/-- Remove the row with a given key. -/
def erase (t : Table key) (k : κ) : Table key := t.keep fun s => key s ≠ k

@[simp] lemma mem_erase {t : Table key} {k : κ} {s : ρ} :
    s ∈ (t.erase k).rows ↔ s ∈ t.rows ∧ key s ≠ k := by
  simp [erase]

@[simp] lemma get_put_self (t : Table key) (r : ρ) : (t.put r).get (key r) = some r :=
  get_eq_some.mpr ⟨by simp, rfl⟩

lemma get_put_ne (t : Table key) {r : ρ} {k : κ} (h : k ≠ key r) : (t.put r).get k = t.get k := by
  ext s
  simp only [get_eq_some, mem_put]
  constructor
  · rintro ⟨hs | rfl, rfl⟩
    · exact ⟨hs.1, rfl⟩
    · exact absurd rfl h
  · rintro ⟨hs, rfl⟩
    exact ⟨.inl ⟨hs, h⟩, rfl⟩

@[simp] lemma get_erase_self (t : Table key) (k : κ) : (t.erase k).get k = none :=
  get_eq_none.mpr fun _ hr => (mem_erase.mp hr).2

lemma get_erase_ne (t : Table key) {j k : κ} (h : k ≠ j) : (t.erase j).get k = t.get k := by
  ext s
  simp only [get_eq_some, mem_erase]
  constructor
  · rintro ⟨hs, rfl⟩
    exact ⟨hs.1, rfl⟩
  · rintro ⟨hs, rfl⟩
    exact ⟨⟨hs, h⟩, rfl⟩

/-- Looking up a kept row. -/
lemma get_keep (t : Table key) (p : ρ → Bool) (k : κ) :
    (t.keep p).get k = (t.get k).filter p := by
  ext s
  simp only [get_eq_some, mem_keep, Option.filter_eq_some_iff]
  tauto

/-- The rows of one key. -/
lemma filter_key (t : Table key) (k : κ) :
    (t.rows.filter fun r => key r = k) = (t.get k).toList := by
  obtain ⟨rows, nodup⟩ := t
  simp only [get]
  induction rows with
  | nil => rfl
  | cons r rows ih =>
    obtain ⟨hr, nodup⟩ := List.nodup_cons.mp nodup
    by_cases hk : key r = k
    · have hrows : (rows.filter fun r => key r = k) = [] := by
        apply List.filter_eq_nil_iff.mpr
        intro s hs hks
        apply hr
        rw [hk, ← of_decide_eq_true hks]
        exact List.mem_map_of_mem hs
      simp [hk, hrows]
    · simpa [hk] using ih nodup

end Get

end Table

/-! ## Finite maps -/

/-- A finite map: a table of pairs keyed by their first component. -/
abbrev FinMap (κ ν : Type) := Table (Prod.fst : κ × ν → κ)

namespace FinMap

variable {κ ν : Type} [DecidableEq κ]

/-- The value at a key. -/
def val (m : FinMap κ ν) (k : κ) : Option ν := (m.get k).map Prod.snd

/-- Set the value at a key. -/
def set (m : FinMap κ ν) (k : κ) (v : ν) : FinMap κ ν := m.put (k, v)

lemma val_eq_some {m : FinMap κ ν} {k : κ} {v : ν} : m.val k = some v ↔ (k, v) ∈ m.rows := by
  simp only [val, Option.map_eq_some_iff, Table.get_eq_some]
  constructor
  · rintro ⟨⟨a, b⟩, ⟨h, rfl⟩, rfl⟩
    exact h
  · exact fun h => ⟨(k, v), ⟨h, rfl⟩, rfl⟩

@[simp] lemma val_empty (k : κ) : val (Table.empty : FinMap κ ν) k = none := rfl

@[simp] lemma val_set_self (m : FinMap κ ν) (k : κ) (v : ν) : (m.set k v).val k = some v := by
  have h := Table.get_put_self m (k, v)
  simp only [val, set]
  rw [show (m.put (k, v)).get k = some (k, v) from h, Option.map_some]

lemma val_set_ne (m : FinMap κ ν) {j k : κ} (v : ν) (h : k ≠ j) : (m.set j v).val k = m.val k := by
  simp only [val, set]
  rw [Table.get_put_ne m (r := (j, v)) h]

/-- Remove a key. -/
def remove (m : FinMap κ ν) (k : κ) : FinMap κ ν := m.erase k

@[simp] lemma val_remove_self (m : FinMap κ ν) (k : κ) : (m.remove k).val k = none := by
  simp [val, remove]

lemma val_remove_ne (m : FinMap κ ν) {j k : κ} (h : k ≠ j) : (m.remove j).val k = m.val k := by
  simp [val, remove, Table.get_erase_ne m h]

/-- Keep the pairs whose key satisfies `p`. -/
def keepKeys (m : FinMap κ ν) (p : κ → Bool) : FinMap κ ν := m.keep fun r => p r.1

lemma val_keepKeys (m : FinMap κ ν) (p : κ → Bool) (k : κ) :
    (m.keepKeys p).val k = if p k then m.val k else none := by
  ext v
  simp only [keepKeys, val_eq_some, Table.mem_keep]
  split_ifs with h <;> simp [h, val_eq_some]

/-- Move the keys on which the injective partial function `g` is defined; a moved pair replaces
the pair that was at its new key. -/
def move (m : FinMap κ ν) (g : κ → Option κ) (hg : ∀ a b c, g a = some c → g b = some c → a = b) :
    FinMap κ ν :=
  ⟨(m.rows.filter fun r => g r.1 = none ∧ r.1 ∉ (m.rows.map Prod.fst).filterMap g) ++
      m.rows.filterMap fun r => (g r.1).map (·, r.2), by
    have hmap : (m.rows.filterMap fun r => (g r.1).map (·, r.2)).map Prod.fst =
        (m.rows.map Prod.fst).filterMap g := by
      simp [List.map_filterMap, List.filterMap_map, Function.comp_def]
    rw [List.map_append, hmap, List.nodup_append]
    refine ⟨m.nodup.sublist (List.filter_sublist.map _), ?_, ?_⟩
    · exact m.nodup.filterMap fun a b c ha hb => hg a b c ha hb
    · rintro a ha b hb rfl
      obtain ⟨r, hr, rfl⟩ := List.mem_map.mp ha
      simp only [List.mem_filter, decide_eq_true_eq] at hr
      exact hr.2.2 hb⟩

lemma mem_move {m : FinMap κ ν} {g : κ → Option κ}
    {hg : ∀ a b c, g a = some c → g b = some c → a = b} {k : κ} {v : ν} :
    (k, v) ∈ (m.move g hg).rows ↔
      (∃ j, (j, v) ∈ m.rows ∧ g j = some k) ∨
        ((k, v) ∈ m.rows ∧ g k = none ∧ ∀ j w, (j, w) ∈ m.rows → g j ≠ some k) := by
  simp only [move, List.mem_append, List.mem_filter, List.mem_filterMap, List.mem_map,
    decide_eq_true_eq, Option.map_eq_some_iff, Prod.mk.injEq, Prod.exists, exists_and_right,
    exists_eq_right]
  constructor
  · rintro (⟨h, hk, hn⟩ | ⟨j, w, hj, c, hc, rfl, rfl⟩)
    · exact .inr ⟨h, hk, fun j w hj hg' => hn ⟨j, ⟨w, hj⟩, hg'⟩⟩
    · exact .inl ⟨j, hj, hc⟩
  · rintro (⟨j, hj, hc⟩ | ⟨h, hk, hn⟩)
    · exact .inr ⟨j, v, hj, k, hc, rfl, rfl⟩
    · exact .inl ⟨h, hk, by rintro ⟨j, ⟨w, hj⟩, hc⟩; exact hn j w hj hc⟩

/-- **Looking up a moved map**: the value at the preimage of a key when it has one, and
otherwise the old value unless the key itself was moved away. -/
lemma val_move_of_eq_some {m : FinMap κ ν} {g : κ → Option κ}
    (hg : ∀ a b c, g a = some c → g b = some c → a = b) {j k : κ} {v : ν}
    (hj : g j = some k) (hv : m.val j = some v) : (m.move g hg).val k = some v :=
  val_eq_some.mpr (mem_move.mpr (.inl ⟨j, val_eq_some.mp hv, hj⟩))

/-- A key that is neither moved nor the target of a move keeps its value. -/
lemma val_move_of_fixed {m : FinMap κ ν} {g : κ → Option κ}
    (hg : ∀ a b c, g a = some c → g b = some c → a = b) {k : κ} (hk : g k = none)
    (hn : ∀ j, g j ≠ some k) : (m.move g hg).val k = m.val k := by
  ext v
  simp only [val_eq_some, mem_move, hk, hn, and_false, exists_false, false_or,
    not_false_eq_true, ne_eq, implies_true, and_true]

/-- A key that is moved away and is not the target of another move has no value. -/
lemma val_move_of_left {m : FinMap κ ν} {g : κ → Option κ}
    (hg : ∀ a b c, g a = some c → g b = some c → a = b) {k : κ} (hk : g k ≠ none)
    (hn : ∀ j v, m.val j = some v → g j ≠ some k) : (m.move g hg).val k = none := by
  cases h : (m.move g hg).val k with
  | none => rfl
  | some v =>
    rcases mem_move.mp (val_eq_some.mp h) with ⟨j, hj, hc⟩ | ⟨_, hk', _⟩
    · exact absurd hc (hn j v (val_eq_some.mpr hj))
    · exact absurd hk' hk

end FinMap

/-! ## Tables with a counter -/

/-- A table whose keys are numbers drawn from a counter, in increasing order and never reused:
an `AUTOINCREMENT` primary key. -/
structure Serial {ρ : Type} (key : ρ → ℕ) where
  /-- The rows. -/
  table : Table key
  /-- The key of the next row. -/
  next : ℕ
  /-- Every key was drawn from the counter. -/
  fresh : ∀ r ∈ table.rows, key r < next

namespace Serial

variable {ρ : Type} {key : ρ → ℕ}

instance : Membership ρ (Serial key) := ⟨fun t r => r ∈ t.table.rows⟩

lemma mem_def {t : Serial key} {r : ρ} : r ∈ t ↔ r ∈ t.table.rows := Iff.rfl

/-- The table with no row; the counter starts at `1`. -/
def empty : Serial key := ⟨Table.empty, 1, by simp⟩

instance : Inhabited (Serial key) := ⟨empty⟩

@[simp] lemma not_mem_empty (r : ρ) : r ∉ (empty : Serial key) := by simp [mem_def, empty]

lemma key_inj (t : Serial key) {r s : ρ} (hr : r ∈ t) (hs : s ∈ t) (h : key r = key s) : r = s :=
  t.table.key_inj hr hs h

lemma key_lt (t : Serial key) {r : ρ} (hr : r ∈ t) : key r < t.next := t.fresh r hr

/-- Of the rows with a property there is a last one. -/
lemma exists_last (t : Serial key) (P : ρ → Prop) {r : ρ} (hr : r ∈ t) (hP : P r) :
    ∃ m ∈ t, P m ∧ ∀ s ∈ t, P s → key s ≤ key m := by
  induction hn : t.next - key r using Nat.strongRecOn generalizing r with
  | _ n ih =>
    by_cases hlast : ∀ s ∈ t, P s → key s ≤ key r
    · exact ⟨r, hr, hP, hlast⟩
    · simp only [not_forall, not_le] at hlast
      obtain ⟨s, hs, hPs, hlt⟩ := hlast
      have hnext := t.key_lt hs
      exact ih (t.next - key s) (by omega) hs hPs rfl

/-- The row with a given key. -/
def get (t : Serial key) (k : ℕ) : Option ρ := t.table.get k

lemma get_eq_some {t : Serial key} {k : ℕ} {r : ρ} : t.get k = some r ↔ r ∈ t ∧ key r = k :=
  Table.get_eq_some

lemma get_eq_none {t : Serial key} {k : ℕ} : t.get k = none ↔ ∀ r ∈ t, key r ≠ k :=
  Table.get_eq_none

/-- Add the row that `mk` makes from the next key. -/
def push (t : Serial key) (mk : ℕ → ρ) (hmk : ∀ n, key (mk n) = n) : Serial key :=
  ⟨t.table.add (mk t.next) (fun s hs => by rw [hmk]; exact (t.fresh s hs).ne), t.next + 1, by
    intro r hr
    rcases (Table.mem_add _).mp hr with hr | rfl
    · exact Nat.lt_succ_of_lt (t.fresh r hr)
    · rw [hmk]; exact Nat.lt_succ_self _⟩

@[simp] lemma mem_push {t : Serial key} {mk : ℕ → ρ} {hmk : ∀ n, key (mk n) = n} {r : ρ} :
    r ∈ t.push mk hmk ↔ r ∈ t ∨ r = mk t.next :=
  Table.mem_add fun s hs => by rw [hmk]; exact (t.fresh s hs).ne

@[simp] lemma next_push (t : Serial key) (mk : ℕ → ρ) (hmk : ∀ n, key (mk n) = n) :
    (t.push mk hmk).next = t.next + 1 := rfl

/-- Keep the rows that satisfy `p`. -/
def keep (t : Serial key) (p : ρ → Bool) : Serial key :=
  ⟨t.table.keep p, t.next, fun r hr => t.fresh r (Table.mem_keep.mp hr).1⟩

@[simp] lemma mem_keep {t : Serial key} {p : ρ → Bool} {r : ρ} :
    r ∈ t.keep p ↔ r ∈ t ∧ p r = true := Table.mem_keep

@[simp] lemma next_keep (t : Serial key) (p : ρ → Bool) : (t.keep p).next = t.next := rfl

/-- Keeping every row changes nothing. -/
lemma keep_eq_self {t : Serial key} {p : ρ → Bool} (h : ∀ r ∈ t, p r = true) : t.keep p = t := by
  have hrows : t.table.rows.filter p = t.table.rows := List.filter_eq_self.mpr h
  obtain ⟨⟨rows, nd⟩, next, fr⟩ := t
  simp only [keep, Table.keep]
  congr

/-- Change rows in place by a function that keeps every key. -/
def update (t : Serial key) (f : ρ → ρ) (hf : ∀ r, key (f r) = key r) : Serial key :=
  ⟨t.table.update f hf, t.next, by
    intro r hr
    obtain ⟨s, hs, rfl⟩ := Table.mem_update.mp hr
    rw [hf]
    exact t.fresh s hs⟩

@[simp] lemma mem_update {t : Serial key} {f : ρ → ρ} {hf : ∀ r, key (f r) = key r} {r : ρ} :
    r ∈ t.update f hf ↔ ∃ s ∈ t, f s = r := @Table.mem_update _ _ _ _ _ hf _

@[simp] lemma next_update (t : Serial key) (f : ρ → ρ) (hf : ∀ r, key (f r) = key r) :
    (t.update f hf).next = t.next := rfl

/-- Change the row of one key in place. -/
def modify (t : Serial key) (k : ℕ) (f : ρ → ρ) (hf : ∀ r, key (f r) = key r) : Serial key :=
  t.update (fun r => if key r = k then f r else r) fun r => by split_ifs <;> simp [hf]

lemma mem_modify {t : Serial key} {k : ℕ} {f : ρ → ρ} {hf : ∀ r, key (f r) = key r} {r : ρ} :
    r ∈ t.modify k f hf ↔ (r ∈ t ∧ key r ≠ k) ∨ ∃ s ∈ t, key s = k ∧ f s = r := by
  simp only [modify, mem_update]
  constructor
  · rintro ⟨s, hs, rfl⟩
    split_ifs with h
    · exact .inr ⟨s, hs, h, rfl⟩
    · exact .inl ⟨hs, h⟩
  · rintro (⟨hr, h⟩ | ⟨s, hs, h, rfl⟩)
    · exact ⟨r, hr, by simp [h]⟩
    · exact ⟨s, hs, by simp [h]⟩

@[simp] lemma next_modify (t : Serial key) (k : ℕ) (f : ρ → ρ) (hf : ∀ r, key (f r) = key r) :
    (t.modify k f hf).next = t.next := rfl

end Serial

end Data
