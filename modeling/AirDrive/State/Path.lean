import Mathlib.Tactic.Lemma
import Mathlib.Data.Char
import Mathlib.Data.List.Lex
import Mathlib.Data.List.Sort

set_option relaxedAutoImplicit false
set_option autoImplicit false

/-!
# Relative paths

A path below the mapped folder is the list of its components, outermost first; the mapped
folder itself (the empty string of the source) is the empty list. A component is non-empty and
free of `/`, so the list and the `/`-separated string of the source determine each other.

## Main definitions

* `AirDrive.RelPath` — relative paths, with `splitParent` and `parentDir`.
* `AirDrive.RelPath.below` — byte-for-byte descendants of a path.
* `AirDrive.RelPath.likeBelow` — the descendants that `LIKE 'old/%'` selects in SQLite.
* `AirDrive.RelPath.rebase` — the path of a descendant after its ancestor moved.
-/

namespace AirDrive

/-- A `/`-separated path relative to the mapped folder. -/
abbrev RelPath := List String

namespace RelPath

/-- `split_parent`: the parent path and the last component. -/
def splitParent (rel : RelPath) : RelPath × String := (rel.dropLast, rel.getLastD "")

/-- `parent_dir`: the parent path, empty for a root-level entry. -/
def parentDir (rel : RelPath) : RelPath := rel.dropLast

/-- The `/`-separated text of a path, as a list of characters: the key by which the walks of
the source sort their entries. -/
def text (rel : RelPath) : List Char :=
  ((rel.map String.toList).intersperse ['/']).flatten

/-- The path lies strictly below `dir`, component by component. -/
def below (dir rel : RelPath) : Bool := dir.isPrefixOf rel && decide (dir.length < rel.length)

/-- The characters of a component with the ASCII letters in lower case. -/
def foldCase (name : String) : List Char := name.toList.map Char.toLower

/-- The rows selected by `relative_path LIKE 'dir/%'`: SQLite compares ASCII letters without
case. The pattern of the empty path is `/%`, which no relative path matches. -/
def likeBelow (dir rel : RelPath) : Bool :=
  dir ≠ [] && (dir.map foldCase).isPrefixOf (rel.map foldCase) && decide (dir.length < rel.length)

/-- `new` followed by what comes after `old` in `rel`: the source cuts the text of `rel` at the
length of `old`. -/
def rebase (old new rel : RelPath) : RelPath := new ++ rel.drop old.length

/-- Sort paths by their text, as the walks of the source do. -/
def sort {α : Type} (path : α → RelPath) (l : List α) : List α :=
  l.insertionSort fun a b => (path a).text ≤ (path b).text

lemma below_iff {dir rel : RelPath} : below dir rel ↔ ∃ x rest, rel = dir ++ x :: rest := by
  simp only [below, Bool.and_eq_true, List.isPrefixOf_iff_prefix, decide_eq_true_eq]
  constructor
  · rintro ⟨⟨rest, rfl⟩, hlen⟩
    cases rest with
    | nil => simp at hlen
    | cons x rest => exact ⟨x, rest, rfl⟩
  · rintro ⟨x, rest, rfl⟩
    exact ⟨List.prefix_append _ _, by simp⟩

@[simp] lemma not_below_self (rel : RelPath) : below rel rel = false := by
  simp [below]

/-- A descendant moves along with its ancestor. -/
lemma rebase_append (old new rest : RelPath) : rebase old new (old ++ rest) = new ++ rest := by
  simp [rebase]

@[simp] lemma rebase_self (old new : RelPath) : rebase old new old = new := by
  simp [rebase]

@[simp] lemma mem_sort {α : Type} (path : α → RelPath) (l : List α) (a : α) :
    a ∈ sort path l ↔ a ∈ l :=
  List.mem_insertionSort _

/-- The text of a path in a directory. -/
lemma text_append {p : RelPath} (hp : p ≠ []) (x : String) :
    text (p ++ [x]) = text p ++ '/' :: x.toList := by
  induction p with
  | nil => exact absurd rfl hp
  | cons y p ih =>
    cases p with
    | nil => simp [text]
    | cons z p =>
      have := ih (by simp)
      simp [text] at this ⊢
      exact this

/-- A sorted list is in the order of the texts. -/
lemma pairwise_sort {α : Type} (path : α → RelPath) (l : List α) :
    (sort path l).Pairwise fun a b => (path a).text ≤ (path b).text := by
  have : Std.Total fun a b : α => (path a).text ≤ (path b).text :=
    ⟨fun a b => le_total _ _⟩
  have : IsTrans α fun a b : α => (path a).text ≤ (path b).text :=
    ⟨fun a b c => le_trans⟩
  exact List.pairwise_insertionSort _ _

/-- **Parents come first** in a sorted list of paths. -/
lemma parent_before {l pre post : List RelPath} {p : RelPath} {x : String} (hp : p ≠ [])
    (hmem : p ∈ l) (hsplit : sort id l = pre ++ (p ++ [x]) :: post) : p ∈ pre := by
  have hsorted : p ∈ pre ++ (p ++ [x]) :: post := by
    rw [← hsplit]
    exact (mem_sort _ _ _).mpr hmem
  rcases List.mem_append.mp hsorted with hpre | hpost
  · exact hpre
  exfalso
  rcases List.mem_cons.mp hpost with heq | hpost
  · have := congrArg List.length heq
    simp at this
  · have hpair := pairwise_sort id l
    rw [hsplit] at hpair
    have hle := List.rel_of_pairwise_cons (List.pairwise_append.mp hpair).2.1 hpost
    simp only [id, text_append hp] at hle
    have hlt : text p < text p ++ '/' :: x.toList := by
      simpa using List.Lex.append_left (· < ·) .nil (text p)
    exact absurd hle (not_le_of_gt hlt)

end RelPath

end AirDrive
