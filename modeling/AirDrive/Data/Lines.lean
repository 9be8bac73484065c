import Mathlib.Tactic.Lemma
import Mathlib.Data.List.DropRight
import Mathlib.Data.List.TakeDrop
import Mathlib.Data.List.TakeWhile

set_option relaxedAutoImplicit false
set_option autoImplicit false

/-!
# Lists and tables as text, one line for each entry

Two formats without escaping, and the texts that survive them. A list of texts is written with a
newline between two of them; the reader splits the text at newlines, trims the lines, and skips
blank ones and comments. A table is written with a line for each entry, the key after a tab; the
reader takes other characters for the end of a line as well.

## Main definitions

* `Data.Lines.join`, `Data.Lines.entries` — writing a list and reading it.
* `Data.Lines.Entry` — the texts that are read as they were written.
* `Data.Lines.splitlines`, `Data.Lines.partition` — the operations of Python's `str`.

## Main results

* `Data.Lines.entries_join_iff` — when a list is read as it was written.
* `Data.Lines.splitlines_ended`, `Data.Lines.unbroken_of_splitlines` — lines that are ended by
  newlines, and that no line contains what ends a line.
-/

namespace Data.Lines

/-- The parts of a text that is split consist of its characters other than the separator. -/
lemma mem_of_splitOn {c d : Char} {t x : List Char} (hx : x ∈ t.splitOn c) (hd : d ∈ x) :
    d ∈ t ∧ d ≠ c := by
  induction t generalizing x with
  | nil =>
    obtain rfl : x = [] := by simpa using hx
    cases hd
  | cons e t ih =>
    have hrest : ∀ {y}, y ∈ t.splitOn c → d ∈ y → d ∈ e :: t ∧ d ≠ c := fun hy hdy =>
      ⟨.tail _ (ih hy hdy).1, (ih hy hdy).2⟩
    rw [List.splitOn_cons_eq_if_modifyHead] at hx
    split at hx
    · rcases List.mem_cons.mp hx with rfl | hx
      · cases hd
      · exact hrest hx hd
    · next he =>
      cases hsplit : t.splitOn c with
      | nil => exact absurd hsplit (by simp)
      | cons y ys =>
        rw [hsplit, List.modifyHead_cons] at hx
        rcases List.mem_cons.mp hx with rfl | hx
        · rcases List.mem_cons.mp hd with rfl | hd
          · exact ⟨.head _, by simpa using he⟩
          · exact hrest (by simp [hsplit]) hd
        · exact hrest (by simp [hsplit, hx]) hd

/-- No part contains the separator. -/
lemma not_mem_of_splitOn {c : Char} {t x : List Char} (hx : x ∈ t.splitOn c) : c ∉ x :=
  fun hc => (mem_of_splitOn hx hc).2 rfl

/-! ## A list of trimmed lines -/

/-- The texts with a newline between two of them. -/
def join (l : List (List Char)) : List Char := ['\n'].intercalate l

/-- A text without the white space at its ends. -/
def trim (space : Char → Bool) (t : List Char) : List Char := (t.dropWhile space).rdropWhile space

/-- The line is neither blank nor a comment. -/
def counts (comment : Char → Bool) : List Char → Bool
  | [] => false
  | c :: _ => !comment c

/-- The lines of a text, trimmed, without blank ones and comments. -/
def entries (space comment : Char → Bool) (t : List Char) : List (List Char) :=
  ((t.splitOn '\n').map (trim space)).filter (counts comment)

/-- One line, with neither white space nor the mark of a comment where they would be taken for
such. -/
structure Entry (space comment : Char → Bool) (t : List Char) : Prop where
  oneLine : '\n' ∉ t
  head : ∃ c, t.head? = some c ∧ space c = false ∧ comment c = false
  last : ∀ c, t.getLast? = some c → space c = false

instance (space comment : Char → Bool) (t : List Char) : Decidable (Entry space comment t) :=
  decidable_of_iff ('\n' ∉ t ∧ (t.head?.any fun c => !space c && !comment c) = true ∧
      (t.getLast?.all fun c => !space c) = true) <| by
    constructor
    · rintro ⟨hline, hhead, hlast⟩
      refine ⟨hline, ?_, fun c hc => ?_⟩
      · obtain ⟨c, hc, h⟩ := (Option.any_eq_true ..).mp hhead
        exact ⟨c, hc, by simpa using h⟩
      · rw [hc] at hlast
        simpa using hlast
    · rintro ⟨hline, ⟨c, hc, hspace, hcomment⟩, hlast⟩
      refine ⟨hline, by simp [hc, hspace, hcomment], ?_⟩
      cases h : t.getLast? with
      | none => rfl
      | some d => simpa using hlast d h

section List

variable {space comment : Char → Bool} {t : List Char} {l : List (List Char)}

/-- What is left of a trimmed text does not end with white space. -/
lemma trim_ends (t : List Char) :
    (∀ c, (trim space t).head? = some c → space c = false) ∧
      ∀ c, (trim space t).getLast? = some c → space c = false := by
  refine ⟨fun c hc => ?_, fun c hc => ?_⟩
  · obtain ⟨rest, hrest⟩ : trim space t <+: t.dropWhile space := List.rdropWhile_prefix _ _
    cases htrim : trim space t with
    | nil => simp [htrim] at hc
    | cons d s =>
      obtain rfl : d = c := by simpa [htrim] using hc
      have hhead : (t.dropWhile space).head? = some d := by simp [← hrest, htrim]
      have hnot := List.head?_dropWhile_not space t
      rw [hhead] at hnot
      simpa using hnot
  · have hne : trim space t ≠ [] := fun h => by simp [h] at hc
    have hlast := List.rdropWhile_last_not space (t.dropWhile space) hne
    rw [List.getLast?_eq_some_getLast hne] at hc
    rw [← Option.some.inj hc]
    exact Bool.eq_false_iff.mpr hlast

/-- **A text that nothing surrounds** is left alone. -/
lemma trim_eq_self (hhead : ∀ c, t.head? = some c → space c = false)
    (hlast : ∀ c, t.getLast? = some c → space c = false) : trim space t = t := by
  have hdrop : t.dropWhile space = t := by
    cases t with
    | nil => rfl
    | cons c t => exact List.dropWhile_cons_of_neg (by simp [hhead c rfl])
  rw [trim, hdrop, List.rdropWhile_eq_self_iff]
  intro hne
  simp [hlast _ (List.getLast?_eq_some_getLast hne)]

/-- **What surrounds a text** is cut off. -/
lemma trim_between {left right : List Char} (hleft : ∀ c ∈ left, space c = true)
    (hright : ∀ c ∈ right, space c = true) (hne : t ≠ [])
    (hhead : ∀ c, t.head? = some c → space c = false)
    (hlast : ∀ c, t.getLast? = some c → space c = false) :
    trim space (left ++ t ++ right) = t := by
  obtain ⟨c, rest, rfl⟩ := List.exists_cons_of_ne_nil hne
  have hdrop : (left ++ c :: rest ++ right).dropWhile space = c :: rest ++ right := by
    rw [List.append_assoc, List.dropWhile_append_of_pos hleft]
    exact List.dropWhile_cons_of_neg (by simp [hhead c rfl])
  have hback : ((c :: rest) ++ right).reverse.dropWhile space = (c :: rest).reverse := by
    rw [List.reverse_append, List.dropWhile_append_of_pos (by simpa using hright)]
    obtain ⟨d, hd⟩ := Option.isSome_iff_exists.mp
      (List.isSome_head?.mpr (show (c :: rest).reverse ≠ [] by simp))
    obtain ⟨tail, htail⟩ : ∃ tail, (c :: rest).reverse = d :: tail := List.head?_eq_some_iff.mp hd
    rw [htail]
    rw [List.head?_reverse] at hd
    exact List.dropWhile_cons_of_neg (by simp [hlast d hd])
  rw [trim, hdrop, List.rdropWhile, hback, List.reverse_reverse]

/-- What an entry is trimmed to. -/
lemma Entry.trim_eq (h : Entry space comment t) : trim space t = t := by
  obtain ⟨c, hc, hspace, -⟩ := h.head
  refine trim_eq_self (fun d hd => ?_) h.last
  rw [hc] at hd
  rwa [← Option.some.inj hd]

/-- What is read is an entry. -/
lemma entry_of_entries {x : List Char} (hx : x ∈ entries space comment t) :
    Entry space comment x := by
  obtain ⟨hmem, hcounts⟩ := List.mem_filter.mp hx
  obtain ⟨line, hline, rfl⟩ := List.mem_map.mp hmem
  have hsub : (trim space line).Sublist line :=
    (List.rdropWhile_prefix _ _).sublist.trans (List.dropWhile_sublist _)
  refine ⟨fun h => not_mem_of_splitOn hline (hsub.subset h), ?_, (trim_ends line).2⟩
  cases htrim : trim space line with
  | nil => simp [htrim, counts] at hcounts
  | cons c rest =>
    refine ⟨c, rfl, (trim_ends line).1 c (by simp [htrim]), ?_⟩
    simpa [htrim, counts] using hcounts

/-- **A list is read as it was written** exactly when all its texts are entries. -/
theorem entries_join_iff : entries space comment (join l) = l ↔ ∀ t ∈ l, Entry space comment t := by
  constructor
  · intro h t ht
    rw [← h] at ht
    exact entry_of_entries ht
  · intro h
    cases hl : l with
    | nil => rfl
    | cons x rest =>
      have hsplit : (join l).splitOn '\n' = l :=
        List.splitOn_intercalate '\n' (fun t ht => (h t ht).oneLine) (by simp [hl])
      rw [← hl, entries, hsplit, List.map_congr_left fun t ht => (h t ht).trim_eq, List.map_id']
      refine List.filter_eq_self.mpr fun t ht => ?_
      obtain ⟨c, hc, -, hcomment⟩ := (h t ht).head
      cases t with
      | nil => cases hc
      | cons d t =>
        obtain rfl : d = c := by simpa using hc
        simp [counts, hcomment]

end List

/-! ## A table with a line for each entry -/

/-- The characters at which Python ends a line. -/
def isBreak (c : Char) : Bool :=
  c ∈ ['\n', '\r', '\x0b', '\x0c', '\x1c', '\x1d', '\x1e', '\u0085', '\u2028', '\u2029']

/-- `str.splitlines`, with the characters of the current line in reverse. -/
def splitlinesFrom : List Char → List Char → List (List Char)
  | line, [] => if line = [] then [] else [line.reverse]
  | line, '\r' :: '\n' :: t => line.reverse :: splitlinesFrom [] t
  | line, c :: t =>
    if isBreak c then line.reverse :: splitlinesFrom [] t else splitlinesFrom (c :: line) t

/-- `str.splitlines`. -/
def splitlines (t : List Char) : List (List Char) := splitlinesFrom [] t

/-- `str.partition`: what is before the separator, whether it occurs, and what is after it. -/
def partition (sep : Char) (t : List Char) : List Char × Bool × List Char :=
  match t.span (· ≠ sep) with
  | (before, []) => (before, false, [])
  | (before, _ :: after) => (before, true, after)

/-- No character ends a line. -/
def Unbroken (t : List Char) : Prop := ∀ c ∈ t, isBreak c = false

instance (t : List Char) : Decidable (Unbroken t) := List.decidableBAll _ _

section Table

variable {line t x : List Char} {sep : Char}

/-- A line that is ended by a newline. -/
lemma splitlinesFrom_ended (line : List Char) {x : List Char} (hx : Unbroken x) (t : List Char) :
    splitlinesFrom line (x ++ '\n' :: t) = (line.reverse ++ x) :: splitlinesFrom [] t := by
  induction x generalizing line with
  | nil => simp [splitlinesFrom, isBreak]
  | cons c x ih =>
    obtain ⟨hc, hx⟩ := List.forall_mem_cons.mp hx
    have hreturn : c ≠ '\r' := by
      rintro rfl
      exact absurd hc (by decide)
    rw [List.cons_append, splitlinesFrom, if_neg (by simp [hc]), ih _ hx]
    · simp
    · exact fun _ h _ => hreturn h

/-- **Lines that are ended by newlines.** -/
lemma splitlines_ended {l : List (List Char)} (hl : ∀ x ∈ l, Unbroken x) :
    splitlines (l.flatMap fun x => x ++ ['\n']) = l := by
  induction l with
  | nil => rfl
  | cons x l ih =>
    obtain ⟨hx, hl⟩ := List.forall_mem_cons.mp hl
    have htail := ih hl
    unfold splitlines at htail ⊢
    rw [List.flatMap_cons, List.append_assoc, List.singleton_append, splitlinesFrom_ended [] hx,
      htail]
    rfl

lemma unbroken_of_splitlinesFrom (hline : Unbroken line) (hx : x ∈ splitlinesFrom line t) :
    Unbroken x := by
  have hended : ∀ {line t : List Char}, Unbroken line →
      (x ∈ splitlinesFrom [] t → Unbroken x) → x ∈ line.reverse :: splitlinesFrom [] t →
        Unbroken x := by
    intro line t hline ih hx
    rcases List.mem_cons.mp hx with rfl | hx
    · simpa [Unbroken] using hline
    · exact ih hx
  induction line, t using splitlinesFrom.induct with
  | case1 => simp [splitlinesFrom] at hx
  | case2 line hne =>
    rw [splitlinesFrom, if_neg hne] at hx
    obtain rfl := List.mem_singleton.mp hx
    simpa [Unbroken] using hline
  | case3 line t ih =>
    rw [splitlinesFrom] at hx
    exact hended hline (ih (by simp [Unbroken])) hx
  | case4 line c t hpair hbreak ih =>
    rw [splitlinesFrom, if_pos hbreak] at hx
    · exact hended hline (ih (by simp [Unbroken])) hx
    · exact hpair
  | case5 line c t hpair hbreak ih =>
    rw [splitlinesFrom, if_neg hbreak] at hx
    · exact ih (List.forall_mem_cons.mpr ⟨by simpa using hbreak, hline⟩) hx
    · exact hpair

/-- **No line contains what ends a line.** -/
lemma unbroken_of_splitlines (hx : x ∈ splitlines t) : Unbroken x :=
  unbroken_of_splitlinesFrom (by simp [Unbroken]) hx

/-- A text that begins without the separator. -/
lemma partition_append {before : List Char} (hbefore : sep ∉ before) (after : List Char) :
    partition sep (before ++ sep :: after) = (before, true, after) := by
  have hall : ∀ c ∈ before, decide (c ≠ sep) = true := fun c hc => by
    simpa using fun h : c = sep => hbefore (h ▸ hc)
  rw [partition, List.span_eq_takeWhile_dropWhile, List.takeWhile_append_of_pos hall,
    List.dropWhile_append_of_pos hall]
  simp

/-- What is after the separator is part of the text. -/
lemma partition_suffix (sep : Char) (t : List Char) : (partition sep t).2.2 <:+ t := by
  rw [partition, List.span_eq_takeWhile_dropWhile]
  split
  · exact List.nil_suffix
  · next before c after heq =>
    obtain ⟨-, hdrop⟩ := Prod.mk.inj heq
    exact (List.suffix_cons c after).trans (hdrop ▸ List.dropWhile_suffix _)

end Table

end Data.Lines
