import Mathlib.Tactic.Lemma
import Mathlib.Data.List.Basic

set_option relaxedAutoImplicit false
set_option autoImplicit false

/-!
# Slash-separated paths

Paths as texts, on the pattern of POSIX: components separated by `/`, where empty components and
`.` stand for nothing and `..` for the directory above. A text is resolved *lexically*, without a
look at the file system.

## Main definitions

* `Data.Lexical.Plain` — the components that name an entry of a directory.
* `Data.Lexical.render` — components joined by `/`.
* `Data.Lexical.resolve` — the components that are left of a text.
* `Data.Lexical.join` — a path taken relative to another one, which an absolute path replaces.

## Main results

* `Data.Lexical.splitOn_render` — the components can be read back.
* `Data.Lexical.resolve_join` — a path of plain components stays below the path it is joined to.
-/

namespace Data.Lexical

/-- A component that names an entry: not empty, not `.` or `..`, and without `/`, backslash and
NUL. -/
structure Plain (c : List Char) : Prop where
  nonempty : c ≠ []
  notHere : c ≠ ['.']
  notUp : c ≠ ['.', '.']
  noSlash : '/' ∉ c
  noBackslash : '\\' ∉ c
  noNul : '\x00' ∉ c

/-- Components joined by `/`. -/
def render (cs : List (List Char)) : List Char := ['/'].intercalate cs

/-- One component of a path that is resolved: it is skipped, goes up or goes down. -/
def enter (above : List (List Char)) (c : List Char) : List (List Char) :=
  if c = [] ∨ c = ['.'] then above
  else if c = ['.', '.'] then above.dropLast
  else above ++ [c]

/-- The components that are left when a text is resolved lexically. -/
def resolve (t : List Char) : List (List Char) := (t.splitOn '/').foldl enter []

/-- The path `rel` taken relative to `base`: an absolute path replaces it, and a separator is put
between the two unless `base` is empty or ends in one. -/
def join (base rel : List Char) : List Char :=
  if rel.head? = some '/' then rel
  else if base = [] ∨ base.getLast? = some '/' then base ++ rel
  else base ++ '/' :: rel

/-- Components without `/` are read back from the text they make. -/
lemma splitOn_render {cs : List (List Char)} (hne : cs ≠ []) (hcs : ∀ c ∈ cs, '/' ∉ c) :
    (render cs).splitOn '/' = cs :=
  List.splitOn_intercalate '/' hcs hne

/-- Plain components are entered one after the other. -/
lemma foldl_enter {cs : List (List Char)} (hcs : ∀ c ∈ cs, Plain c) (above : List (List Char)) :
    cs.foldl enter above = above ++ cs := by
  induction cs generalizing above with
  | nil => simp
  | cons c cs ih =>
    have hc : Plain c := hcs c (by simp)
    have henter : enter above c = above ++ [c] := by
      simp [enter, hc.nonempty, hc.notHere, hc.notUp]
    rw [List.foldl_cons, henter, ih fun d hd => hcs d (by simp [hd])]
    simp

/-- A text of plain components does not start with a separator. -/
lemma head_render {cs : List (List Char)} (hcs : ∀ c ∈ cs, Plain c) :
    (render cs).head? ≠ some '/' := by
  cases cs with
  | nil => simp [render]
  | cons c cs =>
    obtain ⟨x, c', rfl⟩ := List.exists_cons_of_ne_nil (hcs c (by simp)).nonempty
    have hx : x ≠ '/' := by
      rintro rfl
      exact (hcs ('/' :: c') (by simp)).noSlash (by simp)
    cases cs with
    | nil => simpa [render] using hx
    | cons d cs => simpa [render, List.intercalate_cons_cons] using hx

/-- What comes after a separator is entered from where the text before it leads. -/
lemma resolve_append (s t : List Char) :
    resolve (s ++ '/' :: t) = (t.splitOn '/').foldl enter (resolve s) := by
  rw [resolve, List.splitOn_append_cons_self, List.foldl_append, resolve]

/-- A separator at the end stands for nothing. -/
lemma resolve_slash (s : List Char) : resolve (s ++ ['/']) = resolve s := by
  rw [resolve_append]
  simp [enter]

/-- **A path of plain components stays below** the path it is joined to.

**Proof sketch.** It is not absolute, so it comes after the base and a separator; from there each
of its components goes down. -/
theorem resolve_join {cs : List (List Char)} (hne : cs ≠ []) (hcs : ∀ c ∈ cs, Plain c)
    (base : List Char) : resolve (join base (render cs)) = resolve base ++ cs := by
  have hsplit : (render cs).splitOn '/' = cs := splitOn_render hne fun c hc => (hcs c hc).noSlash
  rw [join, if_neg (head_render hcs)]
  split
  case isFalse => rw [resolve_append, hsplit, foldl_enter hcs]
  case isTrue h =>
    rcases h with rfl | hlast
    · rw [List.nil_append, resolve, hsplit, foldl_enter hcs]
      rfl
    · obtain ⟨s, rfl⟩ := List.getLast?_eq_some_iff.mp hlast
      rw [resolve_slash, List.append_assoc, List.singleton_append, resolve_append, hsplit,
        foldl_enter hcs]

end Data.Lexical
