import Mathlib.Tactic.Lemma
import Mathlib.Data.List.Nodup
import Mathlib.Data.List.Perm.Subperm

set_option relaxedAutoImplicit false
set_option autoImplicit false

/-!
# TOML documents

Documents as an editor that keeps their formatting holds them: a table of entries in order, each
with the comments of its key and value, and the comments after the last entry. One logical table
can be spelled as a table (under a header of its own, above another header, or by dotted keys) or
as an inline table, which is a value.

## Main definitions

* `Toml.Item`, `Toml.Document` — the syntax.
* `Toml.Item.paths`, `Toml.Item.comments` — the key paths with what they lead to, and the comments
  with the places they stand at.
* `Toml.Document.get`, `Toml.Document.insert`, `Toml.Document.modify` — the entry of a key.
* `Toml.Document.Same` — equality up to the order of the entries.

## Main results

* `Toml.Document.find_insert_ne`, `Toml.Document.find_modify_ne` — an edit leaves the other entries.
* `Toml.Document.Same.find_eq` — the order of the entries does not matter.
-/

namespace Toml

/-- What stands at a key. -/
inductive Item
  /-- A string, number, boolean or date, by its text. -/
  | scalar (text : String)
  /-- An array, with the comments of each element and those before the closing bracket. -/
  | array (elements : List (List String × Item)) (trailing : List String)
  /-- An inline table: it has no room for comments of its own. -/
  | inlineTable (entries : List (String × Item))
  /-- A table: comments, key and item of each entry. -/
  | table (entries : List (List String × String × Item))
  /-- An array of tables. -/
  | arrayOfTables (tables : List (List String × Item))

/-- An entry of a table: its comments, its key and its item. -/
abbrev Entry := List String × String × Item

/-- What a key path leads to, whatever the spelling. -/
inductive Shape
  | scalar (text : String)
  | array (length : ℕ)
  | table
deriving DecidableEq, Repr

/-- A path or a comment one level further down. -/
def under {α : Type} (key : String) (x : List String × α) : List String × α := (key :: x.1, x.2)

mutual

/-- The key paths of an item, with what they lead to. -/
def Item.paths : Item → List (List String × Shape)
  | .scalar text => [([], .scalar text)]
  | .array elements _ => ([], .array elements.length) :: elementPaths 0 elements
  | .inlineTable entries => ([], .table) :: inlinePaths entries
  | .table entries => ([], .table) :: entryPaths entries
  | .arrayOfTables tables => ([], .array tables.length) :: elementPaths 0 tables

/-- The key paths of the elements of an array, from an index on. -/
def elementPaths : ℕ → List (List String × Item) → List (List String × Shape)
  | _, [] => []
  | n, (_, it) :: rest => it.paths.map (under (toString n)) ++ elementPaths (n + 1) rest

/-- The key paths of the entries of an inline table. -/
def inlinePaths : List (String × Item) → List (List String × Shape)
  | [] => []
  | (key, it) :: rest => it.paths.map (under key) ++ inlinePaths rest

/-- The key paths of the entries of a table. -/
def entryPaths : List (List String × String × Item) → List (List String × Shape)
  | [] => []
  | (_, key, it) :: rest => it.paths.map (under key) ++ entryPaths rest

end

mutual

/-- The comments of an item, with their places. -/
def Item.comments : Item → List (List String × String)
  | .scalar _ => []
  | .array elements trailing =>
    elementComments 0 elements ++ trailing.map fun c => ([toString elements.length], c)
  | .inlineTable entries => inlineComments entries
  | .table entries => entryComments entries
  | .arrayOfTables tables => elementComments 0 tables

/-- The comments of the elements of an array, from an index on. -/
def elementComments : ℕ → List (List String × Item) → List (List String × String)
  | _, [] => []
  | n, (cs, it) :: rest =>
    cs.map (fun c => ([toString n], c)) ++ it.comments.map (under (toString n)) ++
      elementComments (n + 1) rest

/-- The comments within an inline table. -/
def inlineComments : List (String × Item) → List (List String × String)
  | [] => []
  | (key, it) :: rest => it.comments.map (under key) ++ inlineComments rest

/-- The comments of the entries of a table. -/
def entryComments : List (List String × String × Item) → List (List String × String)
  | [] => []
  | (cs, key, it) :: rest =>
    cs.map (fun c => ([key], c)) ++ it.comments.map (under key) ++ entryComments rest

end

/-- The item of a key in a table of either spelling. -/
def Item.field (it : Item) (key : String) : Option Item :=
  match it with
  | .table entries => (entries.find? fun e => e.2.1 = key).map fun e => e.2.2
  | .inlineTable entries => (entries.find? fun e => e.1 = key).map Prod.snd
  | _ => none

/-- A table in either spelling. -/
def Item.isTableLike : Item → Bool
  | .table _ | .inlineTable _ => true
  | _ => false

/-- A document: its entries, one for each key, and the comments after them. -/
structure Document where
  /-- The entries, in order. -/
  entries : List Entry
  /-- The comments after the last entry. -/
  trailing : List String
  /-- No key is defined twice. -/
  unique : (entries.map fun e => e.2.1).Nodup

namespace Document

/-- The key paths of a document. -/
def paths (d : Document) : List (List String × Shape) := entryPaths d.entries

/-- The comments of a document. -/
def comments (d : Document) : List (List String × String) :=
  entryComments d.entries ++ d.trailing.map fun c => ([], c)

/-- The entry of a key. -/
def find (d : Document) (key : String) : Option Entry := d.entries.find? fun e => e.2.1 = key

/-- The item of a key. -/
def get (d : Document) (key : String) : Option Item := (d.find key).map fun e => e.2.2

/-- Replace the item of a key by one that is made of it; the comments stay. -/
def modify (d : Document) (key : String) (f : Item → Item) : Document where
  entries := d.entries.map fun e => if e.2.1 = key then (e.1, key, f e.2.2) else e
  trailing := d.trailing
  unique := by
    have hkeys : (fun e : Entry => e.2.1) ∘ (fun e : Entry =>
        if e.2.1 = key then (e.1, key, f e.2.2) else e) = fun e => e.2.1 := by
      funext e
      simp only [Function.comp]
      split <;> simp_all
    rw [List.map_map, hkeys]
    exact d.unique

/-- Set the item of a key. An entry that was there loses its comments with its item, a new one
comes last. -/
def insert (d : Document) (key : String) (it : Item) : Document where
  entries :=
    if d.entries.any fun e => e.2.1 = key then
      d.entries.map fun e => if e.2.1 = key then ([], key, it) else e
    else d.entries ++ [([], key, it)]
  trailing := d.trailing
  unique := by
    split
    case isTrue h =>
      have hkeys : (fun e : Entry => e.2.1) ∘ (fun e : Entry =>
          if e.2.1 = key then ([], key, it) else e) = fun e => e.2.1 := by
        funext e
        simp only [Function.comp]
        split <;> simp_all
      rw [List.map_map, hkeys]
      exact d.unique
    case isFalse h =>
      rw [List.map_append, List.nodup_append]
      refine ⟨d.unique, by simp, ?_⟩
      intro a ha b hb hab
      obtain ⟨e, he, rfl⟩ := List.mem_map.mp ha
      simp only [List.map_cons, List.map_nil, List.mem_singleton] at hb
      exact h (List.any_eq_true.mpr ⟨e, he, by simpa using hab.trans hb⟩)

/-- Two documents with the same entries, in any order, and the same comments after them. -/
def Same (d d' : Document) : Prop := d.entries.Perm d'.entries ∧ d.trailing = d'.trailing

end Document

/-! ## Paths and comments -/

lemma entryPaths_eq (es : List Entry) :
    entryPaths es = es.flatMap fun e => e.2.2.paths.map (under e.2.1) := by
  induction es with
  | nil => rfl
  | cons e es ih => simp [entryPaths, ih]

lemma mem_entryPaths {es : List Entry} {x : List String × Shape} :
    x ∈ entryPaths es ↔ ∃ e ∈ es, ∃ y ∈ e.2.2.paths, under e.2.1 y = x := by
  simp [entryPaths_eq]

lemma mem_inlinePaths {es : List (String × Item)} {x : List String × Shape} :
    x ∈ inlinePaths es ↔ ∃ e ∈ es, ∃ y ∈ e.2.paths, under e.1 y = x := by
  induction es with
  | nil => simp [inlinePaths]
  | cons e es ih => simp [inlinePaths, ih]

lemma entryComments_eq (es : List Entry) :
    entryComments es = es.flatMap fun e =>
      e.1.map (fun c => ([e.2.1], c)) ++ e.2.2.comments.map (under e.2.1) := by
  induction es with
  | nil => rfl
  | cons e es ih => simp [entryComments, ih]

lemma mem_inlineComments {es : List (String × Item)} {x : List String × String} :
    x ∈ inlineComments es ↔ ∃ e ∈ es, ∃ y ∈ e.2.comments, under e.1 y = x := by
  induction es with
  | nil => simp [inlineComments]
  | cons e es ih => simp [inlineComments, ih]

/-- Within an item, comments stand at a place further down. -/
lemma elementComments_place {n : ℕ} {es : List (List String × Item)} {x : List String × String}
    (hx : x ∈ elementComments n es) : x.1 ≠ [] := by
  induction es generalizing n with
  | nil => simp [elementComments] at hx
  | cons e es ih =>
    simp only [elementComments, List.mem_append, List.mem_map] at hx
    rcases hx with (⟨c, -, rfl⟩ | ⟨y, -, rfl⟩) | hx
    · simp
    · simp [under]
    · exact ih hx

lemma Item.comments_place {it : Item} {x : List String × String} (hx : x ∈ it.comments) :
    x.1 ≠ [] := by
  cases it with
  | scalar t => simp [Item.comments] at hx
  | array es tr =>
    simp only [Item.comments, List.mem_append, List.mem_map] at hx
    rcases hx with hx | ⟨c, -, rfl⟩
    · exact elementComments_place hx
    · simp
  | inlineTable es =>
    obtain ⟨e, -, y, -, rfl⟩ := mem_inlineComments.mp hx
    simp [under]
  | table es =>
    simp only [Item.comments, entryComments_eq, List.mem_flatMap, List.mem_append,
      List.mem_map] at hx
    obtain ⟨e, -, ⟨c, -, rfl⟩ | ⟨y, -, rfl⟩⟩ := hx
    · simp
    · simp [under]
  | arrayOfTables es => exact elementComments_place hx

namespace Document

variable {d d' : Document} {key : String} {e : Entry}

/-! ## The entry of a key -/

/-- There is one entry for a key. -/
lemma find_eq_some : d.find key = some e ↔ e ∈ d.entries ∧ e.2.1 = key := by
  constructor
  · intro h
    exact ⟨List.mem_of_find?_eq_some h, by simpa using List.find?_some h⟩
  · rintro ⟨hmem, rfl⟩
    cases hfind : d.find e.2.1 with
    | none =>
      have := List.find?_eq_none.mp hfind e hmem
      simp at this
    | some f =>
      have hf : f.2.1 = e.2.1 := by simpa using List.find?_some hfind
      rw [List.inj_on_of_nodup_map d.unique (List.mem_of_find?_eq_some hfind) hmem hf]

/-- The order of the entries does not matter. -/
lemma Same.find_eq (h : d.Same d') (key : String) : d.find key = d'.find key := by
  apply Option.ext
  intro e
  rw [find_eq_some, find_eq_some, h.1.mem_iff]

lemma Same.get_eq (h : d.Same d') (key : String) : d.get key = d'.get key := by
  rw [get, get, h.find_eq]

lemma Same.paths (h : d.Same d') {x : List String × Shape} : x ∈ d.paths ↔ x ∈ d'.paths := by
  simp only [Document.paths, entryPaths_eq, List.mem_flatMap, h.1.mem_iff]

lemma Same.comments (h : d.Same d') : d.comments.Perm d'.comments := by
  simp only [Document.comments, entryComments_eq, h.2]
  exact (h.1.flatMap_right _).append_right _

lemma find_modify_self {f : Item → Item} (h : d.find key = some e) :
    (d.modify key f).find key = some (e.1, key, f e.2.2) := by
  obtain ⟨hmem, hkey⟩ := find_eq_some.mp h
  refine find_eq_some.mpr ⟨List.mem_map.mpr ⟨e, hmem, by simp [hkey]⟩, rfl⟩

lemma find_modify_ne {f : Item → Item} {k : String} (hk : k ≠ key) :
    (d.modify key f).find k = d.find k := by
  apply Option.ext
  intro e
  rw [find_eq_some, find_eq_some]
  simp only [modify, List.mem_map]
  constructor
  · rintro ⟨⟨e', hmem, rfl⟩, hkey⟩
    split at hkey
    · exact absurd hkey.symm hk
    · rw [if_neg (by rwa [hkey])]
      exact ⟨hmem, hkey⟩
  · rintro ⟨hmem, hkey⟩
    exact ⟨⟨e, hmem, by rw [if_neg (by rwa [hkey])]⟩, hkey⟩

lemma find_insert_self (it : Item) : (d.insert key it).find key = some ([], key, it) := by
  refine find_eq_some.mpr ⟨?_, rfl⟩
  unfold insert
  simp only
  split
  case isTrue h =>
    obtain ⟨e, hmem, hkey⟩ := List.any_eq_true.mp h
    exact List.mem_map.mpr ⟨e, hmem, by rw [if_pos (by simpa using hkey)]⟩
  case isFalse => simp

lemma find_insert_ne {k : String} (hk : k ≠ key) (it : Item) :
    (d.insert key it).find k = d.find k := by
  apply Option.ext
  intro e
  rw [find_eq_some, find_eq_some]
  unfold insert
  simp only
  split
  case isTrue =>
    simp only [List.mem_map]
    constructor
    · rintro ⟨⟨e', hmem, rfl⟩, hkey⟩
      split at hkey
      · exact absurd hkey.symm hk
      · rw [if_neg (by rwa [hkey])]
        exact ⟨hmem, hkey⟩
    · rintro ⟨hmem, hkey⟩
      exact ⟨⟨e, hmem, by rw [if_neg (by rwa [hkey])]⟩, hkey⟩
  case isFalse =>
    simp only [List.mem_append, List.mem_singleton]
    constructor
    · rintro ⟨hmem | rfl, hkey⟩
      · exact ⟨hmem, hkey⟩
      · exact absurd hkey.symm hk
    · exact fun h => ⟨.inl h.1, h.2⟩

/-! ## What an edit keeps -/

lemma flatMap_sublist_map {α β : Type} {l : List α} {f : α → α} {g : α → List β}
    (h : ∀ a ∈ l, (g a).Sublist (g (f a))) : (l.flatMap g).Sublist ((l.map f).flatMap g) := by
  induction l with
  | nil => simp
  | cons a l ih =>
    simp only [List.flatMap_cons, List.map_cons]
    exact (h a (by simp)).append (ih fun b hb => h b (by simp [hb]))

/-- A modified item that keeps its comments keeps those of the document. -/
lemma comments_modify {f : Item → Item}
    (h : ∀ e, d.find key = some e → e.2.2.comments.Sublist (f e.2.2).comments) :
    d.comments.Sublist (d.modify key f).comments := by
  simp only [comments, modify, entryComments_eq]
  refine List.Sublist.append (flatMap_sublist_map fun e he => ?_) (List.Sublist.refl _)
  split
  case isTrue hkey =>
    rw [hkey]
    exact (List.Sublist.refl _).append ((h e (find_eq_some.mpr ⟨he, hkey⟩)).map _)
  case isFalse => exact List.Sublist.refl _

/-- Setting the item of a key keeps all comments if there were none at the key. -/
lemma comments_insert {it : Item}
    (h : ∀ e, d.find key = some e → e.1 = [] ∧ e.2.2.comments = []) :
    d.comments.Sublist (d.insert key it).comments := by
  simp only [comments, insert, entryComments_eq]
  refine List.Sublist.append ?_ (List.Sublist.refl _)
  split
  case isTrue =>
    refine flatMap_sublist_map fun e he => ?_
    split
    case isTrue hkey =>
      obtain ⟨hnone, hinner⟩ := h e (find_eq_some.mpr ⟨he, hkey⟩)
      simp [hnone, hinner]
    case isFalse => exact List.Sublist.refl _
  case isFalse => simp

/-- The paths of a document, entry by entry. -/
lemma mem_paths {x : List String × Shape} :
    x ∈ d.paths ↔ ∃ k e, d.find k = some e ∧ ∃ y ∈ e.2.2.paths, under k y = x := by
  simp only [paths, mem_entryPaths]
  constructor
  · rintro ⟨e, he, y, hy, rfl⟩
    exact ⟨e.2.1, e, find_eq_some.mpr ⟨he, rfl⟩, y, hy, rfl⟩
  · rintro ⟨k, e, hfind, y, hy, rfl⟩
    obtain ⟨he, rfl⟩ := find_eq_some.mp hfind
    exact ⟨e, he, y, hy, rfl⟩

/-- A comment that stands at a key or within its item. -/
lemma mem_comments_below {k : String} {place : List String} {c : String} :
    (k :: place, c) ∈ d.comments ↔ ∃ e, d.find k = some e ∧
      ((place = [] ∧ c ∈ e.1) ∨ (place, c) ∈ e.2.2.comments) := by
  simp only [comments, entryComments_eq, List.mem_append, List.mem_flatMap, List.mem_map, under,
    Prod.mk.injEq, List.cons.injEq, List.nil_eq]
  constructor
  · rintro (⟨e, he, ⟨c', hc', ⟨rfl, rfl⟩, rfl⟩ | ⟨y, hy, ⟨rfl, rfl⟩, rfl⟩⟩ | ⟨c', -, h, -⟩)
    · exact ⟨e, find_eq_some.mpr ⟨he, rfl⟩, .inl ⟨rfl, hc'⟩⟩
    · exact ⟨e, find_eq_some.mpr ⟨he, rfl⟩, .inr hy⟩
    · exact absurd h (by simp)
  · rintro ⟨e, hfind, hc⟩
    obtain ⟨he, rfl⟩ := find_eq_some.mp hfind
    refine .inl ⟨e, he, ?_⟩
    rcases hc with ⟨rfl, hc⟩ | hc
    · exact .inl ⟨c, hc, ⟨rfl, rfl⟩, rfl⟩
    · exact .inr ⟨(place, c), hc, ⟨rfl, rfl⟩, rfl⟩

end Document

end Toml
