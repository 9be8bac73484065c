import Mathlib.Tactic.Lemma
import Mathlib.Data.List.Infix
import Mathlib.Algebra.BigOperators.Group.List.Basic
import Mathlib.Algebra.GroupWithZero.Nat

set_option relaxedAutoImplicit false
set_option autoImplicit false

/-!
# Patterns of `LIKE`, and offsets in bytes

The operator `LIKE` of SQLite with an escape character. Letters of ASCII are compared without case,
all other characters as they are. A pattern that is made by escaping a text therefore stands for the
text up to the case of its ASCII letters, and not for the text itself; but the two have the same
length in UTF-8, so an offset that is found in one is an offset of a character in the other.

## Main definitions

* `Data.Like.like`, `Data.Like.escape` — the operator, and escaping a text.
* `Data.Like.byteLen`, `Data.Like.sliceFrom` — the length of a text in bytes, and what follows a
  number of bytes.

## Main results

* `Data.Like.like_escape` — what a pattern matches that begins with an escaped text.
* `Data.Like.sliceFrom_of_fold` — what follows a text that differs in case only.
-/

namespace Data.Like

/-! ## The operator -/

/-- The characters that `LIKE` tells apart. -/
def fold (t : List Char) : List Char := t.map Char.toLower

/-- Some suffix of a text satisfies `m`. -/
def anySuffix (m : List Char → Bool) : List Char → Bool
  | [] => m []
  | c :: t => m (c :: t) || anySuffix m t

/-- `t LIKE p ESCAPE esc`. -/
def like (esc : Char) : List Char → List Char → Bool
  | [], t => t.isEmpty
  | c :: p, t =>
    if c = esc then
      match p, t with
      | d :: p, x :: t => d.toLower = x.toLower && like esc p t
      | _, _ => false
    else if c = '%' then anySuffix (like esc p) t
    else
      match t with
      | x :: t => (c = '_' || c.toLower = x.toLower) && like esc p t
      | [] => false

/-- Escape the characters that have a meaning in a pattern. -/
def escape (esc : Char) (s : List Char) : List Char :=
  s.flatMap fun c => if c = esc ∨ c = '%' ∨ c = '_' then [esc, c] else [c]

section Like

variable {esc : Char} {m : List Char → Bool} {p s t : List Char}

lemma anySuffix_iff : anySuffix m t = true ↔ ∃ pre rest, t = pre ++ rest ∧ m rest = true := by
  induction t with
  | nil => simp [anySuffix]
  | cons c t ih =>
    rw [anySuffix, Bool.or_eq_true, ih]
    constructor
    · rintro (h | ⟨pre, rest, rfl, h⟩)
      · exact ⟨[], c :: t, rfl, h⟩
      · exact ⟨c :: pre, rest, rfl, h⟩
    · rintro ⟨pre, rest, heq, h⟩
      cases pre with
      | nil => exact .inl (heq ▸ h)
      | cons d pre =>
        obtain ⟨-, rfl⟩ := List.cons.inj heq
        exact .inr ⟨pre, rest, rfl, h⟩

/-- A pattern that begins with an escaped character. -/
lemma like_escape_cons (c : Char) :
    like esc (escape esc [c] ++ p) t = true ↔
      ∃ x rest, t = x :: rest ∧ x.toLower = c.toLower ∧ like esc p rest = true := by
  have hchar : like esc (escape esc [c] ++ p) t = true ↔
      ∃ x rest, t = x :: rest ∧ c.toLower = x.toLower ∧ like esc p rest = true := by
    by_cases hesc : c = esc ∨ c = '%' ∨ c = '_'
    · cases t <;> simp [escape, like, hesc]
    · obtain ⟨h, h', h''⟩ : c ≠ esc ∧ c ≠ '%' ∧ c ≠ '_' := by tauto
      have hplain : escape esc [c] ++ p = c :: p := by simp [escape, h, h', h'']
      rw [hplain, like.eq_def]
      cases t <;> simp [h, h', h'']
  simpa only [eq_comm (a := c.toLower)] using hchar

/-- **An escaped text** stands for the text up to the case of its ASCII letters. -/
lemma like_escape :
    like esc (escape esc s ++ p) t = true ↔
      ∃ pre rest, t = pre ++ rest ∧ fold pre = fold s ∧ like esc p rest = true := by
  induction s generalizing t with
  | nil =>
    constructor
    · exact fun h => ⟨[], t, rfl, rfl, h⟩
    · rintro ⟨pre, rest, rfl, hpre, h⟩
      obtain rfl : pre = [] := by simpa [fold] using hpre
      exact h
  | cons c s ih =>
    have hsplit : escape esc (c :: s) ++ p = escape esc [c] ++ (escape esc s ++ p) := by
      simp [escape]
    rw [hsplit, like_escape_cons]
    constructor
    · rintro ⟨x, rest, rfl, hx, h⟩
      obtain ⟨pre, rest, rfl, hpre, h⟩ := ih.mp h
      refine ⟨x :: pre, rest, rfl, ?_, h⟩
      simp only [fold, List.map_cons] at hpre ⊢
      rw [hx, hpre]
    · rintro ⟨pre, rest, rfl, hpre, h⟩
      cases pre with
      | nil => cases hpre
      | cons x pre =>
        obtain ⟨hx, hpre⟩ := List.cons.inj hpre
        exact ⟨x, pre ++ rest, rfl, hx, ih.mpr ⟨pre, rest, rfl, hpre, h⟩⟩

/-- A pattern that ends with `%` leaves the rest of the text open. -/
lemma like_escape_any (hesc : esc ≠ '%') :
    like esc (escape esc s ++ ['%']) t = true ↔ ∃ pre rest, t = pre ++ rest ∧ fold pre = fold s := by
  have hany : ∀ rest, like esc ['%'] rest = true := by
    intro rest
    simp only [like, if_neg hesc.symm, if_true]
    exact anySuffix_iff.mpr ⟨rest, [], by simp, rfl⟩
  simp only [like_escape, hany, and_true]

end Like

/-! ## Offsets in bytes -/

/-- The length of a text in UTF-8. -/
def byteLen (t : List Char) : ℕ := (t.map Char.utf8Size).sum

/-- `&t[n..]`: what follows the first `n` bytes, if they end with a character. -/
def sliceFrom : ℕ → List Char → Option (List Char)
  | 0, t => some t
  | _ + 1, [] => none
  | n + 1, c :: t => if c.utf8Size ≤ n + 1 then sliceFrom (n + 1 - c.utf8Size) t else none
termination_by structural _ t => t

section Bytes

variable {s t : List Char}

/-- What follows a prefix. -/
lemma sliceFrom_append (s t : List Char) : sliceFrom (byteLen s) (s ++ t) = some t := by
  induction s with
  | nil => simp [byteLen, sliceFrom]
  | cons c s ih =>
    have hpos := c.utf8Size_pos
    have hlen : byteLen (c :: s) = c.utf8Size + byteLen s := by simp [byteLen]
    obtain ⟨n, hn⟩ : ∃ n, byteLen (c :: s) = n + 1 := ⟨byteLen (c :: s) - 1, by omega⟩
    rw [hn, List.cons_append, sliceFrom, if_pos (by omega)]
    rw [show n + 1 - c.utf8Size = byteLen s by omega, ih]

/-- A letter of ASCII takes one byte in either case. -/
lemma utf8Size_toLower (c : Char) : c.toLower.utf8Size = c.utf8Size := by
  by_cases h : c.val ≥ 'A'.val ∧ c.val ≤ 'Z'.val
  · have hupper : c.val.toNat ≤ 90 := UInt32.le_iff_toNat_le.mp h.2
    have hlower : c.toLower.val.toNat ≤ 127 := by
      have hval : c.toLower.val = c.val + 32 := congrArg Char.val (dif_pos h)
      rw [hval, UInt32.toNat_add]
      exact (Nat.mod_le _ _).trans (Nat.add_le_add hupper (le_refl 32) |>.trans (by decide))
    rw [Char.utf8Size_eq_one_iff.mpr (UInt32.le_iff_toNat_le.mpr hlower),
      Char.utf8Size_eq_one_iff.mpr (UInt32.le_iff_toNat_le.mpr (hupper.trans (by decide)))]
  · exact congrArg Char.utf8Size (dif_neg h)

/-- Texts that differ in case only have the same length. -/
lemma byteLen_of_fold (h : fold s = fold t) : byteLen s = byteLen t := by
  have hfold : ∀ t : List Char, byteLen (fold t) = byteLen t := by
    intro t
    simp [byteLen, fold, Function.comp_def, utf8Size_toLower]
  rw [← hfold s, h, hfold]

/-- **What follows a text that differs in case only.** -/
lemma sliceFrom_of_fold {pre rest : List Char} (h : fold pre = fold s) :
    sliceFrom (byteLen s) (pre ++ rest) = some rest := by
  rw [← byteLen_of_fold h, sliceFrom_append]

end Bytes

end Data.Like
