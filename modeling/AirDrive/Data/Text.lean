import AirDrive.Data.Lines
import Mathlib.Algebra.Group.Nat.Defs

set_option relaxedAutoImplicit false
set_option autoImplicit false

/-!
# Texts

Texts as lists of characters, with the operations on them that command lines and small files are
read with: trimming, marks at which a text is taken apart, and decimal numbers.

## Main definitions

* `Data.Text.isWhiteSpace` — the white space of Unicode.
* `Data.Text.trim` — a text without the white space around it.
* `Data.Text.stripPrefix` — what follows a prefix.
* `Data.Text.splitOnce`, `Data.Text.secondPart` — the parts of a text with a mark in it.
* `Data.Text.parseNat`, `Data.Text.parseInt` — numbers within a bound, with an optional sign.

## Main results

* `Data.Text.splitOnce_append` — a text is taken apart at the first occurrence of the mark.
* `Data.Text.parseNat_toDigits`, `Data.Text.parseInt_toDigits` — a number is read as it was written.
-/

namespace Data.Text

/-- The property `White_Space` of Unicode. -/
def isWhiteSpace (c : Char) : Bool :=
  (9 ≤ c.toNat && c.toNat ≤ 13) || c.toNat = 32 || c.toNat = 133 || c.toNat = 160 ||
    c.toNat = 5760 || (8192 ≤ c.toNat && c.toNat ≤ 8202) || c.toNat = 8232 || c.toNat = 8233 ||
    c.toNat = 8239 || c.toNat = 8287 || c.toNat = 12288

/-- A text without the white space at its two ends. -/
def trim (text : List Char) : List Char := Lines.trim isWhiteSpace text

/-- What follows a prefix. -/
def stripPrefix (pre text : List Char) : Option (List Char) :=
  if pre.isPrefixOf text then some (text.drop pre.length) else none

/-- What stands before the first occurrence of a mark, and what follows it. -/
def splitOnce (mark : List Char) : List Char → Option (List Char × List Char)
  | [] => if mark = [] then some ([], []) else none
  | c :: text =>
    if mark.isPrefixOf (c :: text) then some ([], (c :: text).drop mark.length)
    else (splitOnce mark text).map fun parts => (c :: parts.1, parts.2)

/-- The second of the parts into which a mark splits a text. -/
def secondPart (mark text : List Char) : Option (List Char) :=
  (splitOnce mark text).map fun parts => ((splitOnce mark parts.2).map Prod.fst).getD parts.2

/-- An unsigned decimal number below a bound: digits, after an optional plus sign. -/
def parseNat (bound : ℕ) (text : List Char) : Option ℕ :=
  let digits := if text.head? = some '+' then text.tail else text
  if digits ≠ [] ∧ digits.all Char.isDigit ∧ Nat.ofDigitChars 10 digits 0 < bound then
    some (Nat.ofDigitChars 10 digits 0)
  else none

/-- A decimal number between `-bound` and `bound`: digits, after an optional sign. -/
def parseInt (bound : ℕ) (text : List Char) : Option ℤ :=
  let digits := if text.head? = some '+' ∨ text.head? = some '-' then text.tail else text
  let n : ℤ := Nat.ofDigitChars 10 digits 0
  let value := if text.head? = some '-' then -n else n
  if digits ≠ [] ∧ digits.all Char.isDigit ∧ -(bound : ℤ) ≤ value ∧ value < bound then some value
  else none

variable {pre text left right : List Char} {n bound : ℕ}

@[simp] lemma stripPrefix_append : stripPrefix pre (pre ++ text) = some text := by
  simp [stripPrefix]

/-- The two parts, with the mark between them, are the text. -/
lemma eq_of_splitOnce {mark : List Char} (h : splitOnce mark text = some (left, right)) :
    text = left ++ mark ++ right := by
  induction text generalizing left with
  | nil =>
    simp only [splitOnce] at h
    split at h
    · next hmark => simp_all
    · cases h
  | cons c text ih =>
    simp only [splitOnce] at h
    split at h
    · next hpre =>
      obtain ⟨rest, hrest⟩ := List.isPrefixOf_iff_prefix.mp hpre
      simp only [Option.some.injEq, Prod.mk.injEq] at h
      obtain ⟨rfl, rfl⟩ := h
      rw [← hrest, List.drop_left]
      rfl
    · obtain ⟨parts, hparts, heq⟩ := Option.map_eq_some_iff.mp h
      obtain ⟨rfl, rfl⟩ := Prod.mk.inj heq
      exact congrArg (c :: ·) (ih hparts)

/-- **The first occurrence** is the one before which there is none. -/
lemma splitOnce_append {mark : List Char} (hmark : mark ≠ [])
    (hfirst : splitOnce mark (left ++ mark.dropLast) = none) :
    splitOnce mark (left ++ mark ++ right) = some (left, right) := by
  induction left with
  | nil =>
    obtain ⟨c, rest, rfl⟩ := List.exists_cons_of_ne_nil hmark
    have hpre : (c :: rest).isPrefixOf (c :: (rest ++ right)) = true :=
      List.isPrefixOf_iff_prefix.mpr ⟨right, rfl⟩
    show splitOnce (c :: rest) (c :: (rest ++ right)) = _
    simp [splitOnce]
  | cons c left ih =>
    rw [List.cons_append] at hfirst
    simp only [splitOnce] at hfirst
    split at hfirst
    · cases hfirst
    · next hnot =>
      have hlater := ih (Option.map_eq_none_iff.mp hfirst)
      have hearlier : ¬mark.isPrefixOf (c :: (left ++ mark ++ right)) = true := by
        intro hpre
        refine hnot (List.isPrefixOf_iff_prefix.mpr ?_)
        refine List.prefix_of_prefix_length_le (List.isPrefixOf_iff_prefix.mp hpre) ?_ ?_
        · have hdrop : mark.dropLast <+: mark ++ right :=
            (List.dropLast_prefix mark).trans (List.prefix_append _ _)
          rw [List.append_assoc]
          exact (List.prefix_append_right_inj (c :: left)).mpr hdrop
        · have hpos := List.length_pos_iff.mpr hmark
          simp only [List.length_cons, List.length_append, List.length_dropLast]
          omega
      show splitOnce mark (c :: (left ++ mark ++ right)) = _
      rw [splitOnce, if_neg hearlier, hlater]
      rfl

/-- A digit is no white space. -/
lemma isWhiteSpace_of_isDigit {c : Char} (h : c.isDigit = true) : isWhiteSpace c = false := by
  simp only [Char.isDigit, Bool.and_eq_true, decide_eq_true_eq] at h
  have hlow : 48 ≤ c.toNat := UInt32.le_iff_toNat_le.mp h.1
  have hhigh : c.toNat ≤ 57 := UInt32.le_iff_toNat_le.mp h.2
  simp only [isWhiteSpace, Bool.or_eq_false_iff, Bool.and_eq_false_iff, decide_eq_false_iff_not]
  omega

/-- **A number is read as it was written.** -/
lemma parseNat_toDigits (h : n < bound) : parseNat bound (Nat.toDigits 10 n) = some n := by
  have hdigit : ∀ c ∈ Nat.toDigits 10 n, c.isDigit = true := fun c hc =>
    Nat.isDigit_of_mem_toDigits (by decide) (by decide) hc
  have hsign : (Nat.toDigits 10 n).head? ≠ some '+' := by
    intro hhead
    exact absurd (hdigit '+' (List.mem_of_mem_head? hhead)) (by decide)
  simp only [parseNat, if_neg hsign, Nat.ofDigitChars_ten_toDigits]
  rw [if_pos ⟨Nat.toDigits_ne_nil, by simpa using hdigit, h⟩]

/-- A natural number is read as it was written, if it is in range. -/
lemma parseInt_toDigits :
    parseInt bound (Nat.toDigits 10 n) = if n < bound then some (n : ℤ) else none := by
  have hdigit : ∀ c ∈ Nat.toDigits 10 n, c.isDigit = true := fun c hc =>
    Nat.isDigit_of_mem_toDigits (by decide) (by decide) hc
  have hplus : (Nat.toDigits 10 n).head? ≠ some '+' := fun hhead =>
    absurd (hdigit '+' (List.mem_of_mem_head? hhead)) (by decide)
  have hminus : (Nat.toDigits 10 n).head? ≠ some '-' := fun hhead =>
    absurd (hdigit '-' (List.mem_of_mem_head? hhead)) (by decide)
  simp only [parseInt, if_neg hminus, if_neg (not_or.mpr ⟨hplus, hminus⟩),
    Nat.ofDigitChars_ten_toDigits]
  refine if_congr ⟨fun hrange => by omega, fun hn => ?_⟩ rfl rfl
  exact ⟨Nat.toDigits_ne_nil, by simpa using hdigit, by omega, by omega⟩

/-- A written number has no white space around it. -/
lemma trim_toDigits : trim (Nat.toDigits 10 n) = Nat.toDigits 10 n := by
  have hspace : ∀ c ∈ Nat.toDigits 10 n, isWhiteSpace c = false := fun c hc =>
    isWhiteSpace_of_isDigit (Nat.isDigit_of_mem_toDigits (by decide) (by decide) hc)
  exact Lines.trim_eq_self (fun c hc => hspace c (List.mem_of_mem_head? hc))
    fun c hc => hspace c (List.mem_of_getLast? hc)

end Data.Text
