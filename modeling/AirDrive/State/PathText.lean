import AirDrive.Data.Like
import AirDrive.Data.Lines
import AirDrive.State.Path

set_option relaxedAutoImplicit false
set_option autoImplicit false

/-!
# Paths and their texts

The source keeps a path as a text. A list of components stands for the text in which they are
separated by slashes; every text is that of exactly one list of components that contain no slash.

## Main definitions

* `AirDrive.RelPath.Canonical` — the paths that stand for the texts.
* `AirDrive.RelPath.ofText` — the path of a text.
* `AirDrive.RelPath.normalise` — a path with slashes for its backslashes.

## Main results

* `AirDrive.RelPath.text_ofText`, `AirDrive.RelPath.ofText_text` — texts and canonical paths
  determine each other.
* `AirDrive.RelPath.below_iff_text`, `AirDrive.RelPath.likeBelow_iff_text` — what lies below a path,
  in terms of texts.
-/

namespace AirDrive.RelPath

open Data.Like

/-- The components contain no slash. The text of no component is the empty one. -/
structure Canonical (p : RelPath) : Prop where
  slashless : ∀ x ∈ p, '/' ∉ x.toList
  ne_blank : p ≠ [""]

instance (p : RelPath) : Decidable (Canonical p) :=
  decidable_of_iff ((∀ x ∈ p, '/' ∉ x.toList) ∧ p ≠ [""]) ⟨fun h => ⟨h.1, h.2⟩, fun h => ⟨h.1, h.2⟩⟩

/-- The path of a text. -/
def ofText (t : List Char) : RelPath :=
  if t = [] then [] else (t.splitOn '/').map String.ofList

/-- `replace('\\', "/")`: a component falls apart at its backslashes. -/
def normalise (p : RelPath) : RelPath :=
  p.flatMap fun x => (x.toList.splitOn '\\').map String.ofList

/-- No component contains a backslash. -/
def Plain (p : RelPath) : Prop := ∀ x ∈ p, '\\' ∉ x.toList

instance (p : RelPath) : Decidable (Plain p) := List.decidableBAll _ _

section Text

variable {p q dir rel : RelPath} {t s pre rest : List Char}

lemma text_eq (p : RelPath) : text p = ['/'].intercalate (p.map String.toList) := rfl

lemma splitOn_ne_blank (c : Char) (ht : t ≠ []) : (t.splitOn c).map String.ofList ≠ [""] := by
  intro h
  obtain ⟨x, hx, hblank⟩ := List.map_eq_singleton_iff.mp h
  have hsame : [c].intercalate (t.splitOn c) = t := List.intercalate_splitOn c
  rw [hx] at hsame
  have hnil : x = [] := by simpa using congrArg String.toList hblank
  exact ht (by simpa [hnil] using hsame.symm)

lemma canonical_ofText (t : List Char) : Canonical (ofText t) := by
  unfold ofText
  split
  · exact ⟨by simp, by simp⟩
  · next ht =>
    refine ⟨fun x hx => ?_, splitOn_ne_blank '/' ht⟩
    obtain ⟨y, hy, rfl⟩ := List.mem_map.mp hx
    rw [String.toList_ofList]
    exact Data.Lines.not_mem_of_splitOn hy

/-- **Every text is that of a path.** -/
lemma text_ofText (t : List Char) : text (ofText t) = t := by
  unfold ofText
  split
  · next ht => simp [ht, text]
  · simp only [text_eq, List.map_map, Function.comp_def, String.toList_ofList, List.map_id']
    exact List.intercalate_splitOn '/'

/-- **A path is that of its text.** -/
lemma ofText_text (h : Canonical p) : ofText (text p) = p := by
  have hslash : ∀ l ∈ p.map String.toList, '/' ∉ l := by
    intro l hl
    obtain ⟨x, hx, rfl⟩ := List.mem_map.mp hl
    exact h.slashless x hx
  unfold ofText
  split
  · next ht =>
    by_contra hne
    have hsplit := List.splitOn_intercalate '/' hslash (by simpa using Ne.symm hne)
    rw [← text_eq, ht, List.splitOn_nil] at hsplit
    refine h.ne_blank ?_
    have hmap := congrArg (List.map String.ofList) hsplit
    simpa [Function.comp_def] using hmap.symm
  · next ht =>
    have hne : p.map String.toList ≠ [] := by
      intro hnil
      exact ht (by simp [text_eq, hnil])
    rw [text_eq, List.splitOn_intercalate '/' hslash hne]
    simp [Function.comp_def]

lemma text_inj (hp : Canonical p) (hq : Canonical q) : text p = text q ↔ p = q :=
  ⟨fun h => by rw [← ofText_text hp, h, ofText_text hq], fun h => h ▸ rfl⟩

lemma text_ne_nil (h : Canonical p) (hp : p ≠ []) : text p ≠ [] := fun hnil =>
  hp (by rw [← ofText_text h, hnil]; rfl)

/-- The text of two paths in turn. -/
lemma text_append_path (hp : p ≠ []) (hq : q ≠ []) : text (p ++ q) = text p ++ '/' :: text q := by
  induction p with
  | nil => exact absurd rfl hp
  | cons x p ih =>
    cases p with
    | nil =>
      obtain ⟨y, q, rfl⟩ := List.exists_cons_of_ne_nil hq
      simp [text_eq, List.intercalate_cons_cons]
    | cons y p =>
      have htail := ih (by simp)
      simp only [text_eq, List.cons_append, List.map_cons, List.intercalate_cons_cons,
        List.append_assoc] at htail ⊢
      rw [htail]

lemma ofText_append (hs : s ≠ []) :
    ofText (s ++ '/' :: rest) = ofText s ++ (rest.splitOn '/').map String.ofList := by
  simp only [ofText, hs, if_false]
  rw [if_neg (by simp), List.splitOn_append_cons_self, List.map_append]

/-! ## Backslashes -/

/-- A path without a backslash is as it was. -/
lemma Plain.normalise_eq (h : Plain p) : normalise p = p := by
  induction p with
  | nil => rfl
  | cons x p ih =>
    obtain ⟨hx, hp⟩ := List.forall_mem_cons.mp h
    have htail : normalise p = p := ih hp
    unfold normalise at htail ⊢
    rw [List.flatMap_cons, htail, List.splitOn_eq_singleton hx]
    simp

/-! ## Below a path -/

/-- A text below that of a path is that of a path below. -/
lemma below_iff_text (hdir : Canonical dir) (hrel : Canonical rel) (hne : dir ≠ []) :
    below dir rel = true ↔ ∃ rest, text rel = text dir ++ '/' :: rest := by
  constructor
  · intro h
    obtain ⟨x, rest, rfl⟩ := below_iff.mp h
    exact ⟨_, text_append_path hne (by simp)⟩
  · rintro ⟨rest, h⟩
    have hsplit := congrArg ofText h
    rw [ofText_text hrel, ofText_append (text_ne_nil hdir hne), ofText_text hdir] at hsplit
    obtain ⟨y, ys, hys⟩ := List.exists_cons_of_ne_nil (List.splitOn_ne_nil '/' rest)
    exact below_iff.mpr ⟨String.ofList y, ys.map String.ofList, by rw [hsplit, hys]; rfl⟩

/-- No letter is folded to a slash. -/
lemma toLower_slash (c : Char) : c.toLower = '/' ↔ c = '/' := by
  by_cases h : c.val ≥ 'A'.val ∧ c.val ≤ 'Z'.val
  · refine iff_of_false (fun hlow => ?_) fun hc => absurd h (by rw [hc]; decide)
    have hval : c.val + 32 = '/'.val := by
      rw [← hlow]
      exact (show c.toLower.val = c.val + 32 from congrArg Char.val (dif_pos h)).symm
    have hnat := congrArg UInt32.toNat hval
    have hge : 65 ≤ c.val.toNat := UInt32.le_iff_toNat_le.mp h.1
    have hle : c.val.toNat ≤ 90 := UInt32.le_iff_toNat_le.mp h.2
    have h32 : (32 : UInt32).toNat = 32 := rfl
    have h47 : '/'.val.toNat = 47 := rfl
    rw [UInt32.toNat_add, h32, h47, Nat.mod_eq_of_lt (by omega)] at hnat
    omega
  · have hsame : c.toLower = c := dif_neg h
    rw [hsame]

/-- Folding the case of a text folds that of its components. -/
lemma splitOn_fold (t : List Char) : (fold t).splitOn '/' = (t.splitOn '/').map fold := by
  induction t with
  | nil => simp [fold]
  | cons c t ih =>
    have hcons : fold (c :: t) = c.toLower :: fold t := rfl
    rw [hcons, List.splitOn_cons_eq_if_modifyHead, List.splitOn_cons_eq_if_modifyHead, ih]
    by_cases hc : c = '/'
    · simp [hc, fold]
    · have hlow : c.toLower ≠ '/' := fun h => hc ((toLower_slash c).mp h)
      simp only [beq_iff_eq, hlow, hc, if_false]
      cases t.splitOn '/' <;> rfl

/-- The text of a path, folded. -/
lemma fold_text (p : RelPath) : fold (text p) = ['/'].intercalate (p.map foldCase) := by
  induction p with
  | nil => rfl
  | cons x p ih =>
    cases p with
    | nil => simp [text_eq, fold, foldCase]
    | cons y p =>
      simp only [text_eq, fold, List.map_cons, List.intercalate_cons_cons, List.map_append] at ih ⊢
      rw [ih]
      rfl

lemma ne_nil_of_fold (hdir : Canonical dir) (hne : dir ≠ []) (h : fold pre = fold (text dir)) :
    pre ≠ [] := by
  rintro rfl
  exact text_ne_nil hdir hne (by simpa [fold] using h.symm)

/-- The components of a text that is that of a path up to case. -/
lemma foldCase_ofText (hdir : Canonical dir) (hne : dir ≠ []) (h : fold pre = fold (text dir)) :
    (ofText pre).map foldCase = dir.map foldCase := by
  have hmap : ∀ {t : List Char}, t ≠ [] → (ofText t).map foldCase = (fold t).splitOn '/' := by
    intro t ht
    rw [splitOn_fold, ofText, if_neg ht, List.map_map]
    exact List.map_congr_left fun x _ => by simp [foldCase, fold]
  rw [hmap (ne_nil_of_fold hdir hne h), h, ← hmap (text_ne_nil hdir hne), ofText_text hdir]

/-- **A text below that of a path up to the case of ASCII letters** is that of a path which `LIKE`
finds below it. -/
lemma likeBelow_iff_text (hdir : Canonical dir) (hrel : Canonical rel) (hne : dir ≠ []) :
    likeBelow dir rel = true ↔
      ∃ pre rest, text rel = pre ++ '/' :: rest ∧ fold pre = fold (text dir) := by
  simp only [likeBelow, hne, ne_eq, not_false_eq_true, decide_true, Bool.true_and,
    Bool.and_eq_true, List.isPrefixOf_iff_prefix, decide_eq_true_eq]
  constructor
  · rintro ⟨hpre, hlen⟩
    have htake : (rel.take dir.length).map foldCase = dir.map foldCase := by
      have heq := List.prefix_iff_eq_take.mp hpre
      rw [List.length_map] at heq
      rw [heq, List.map_take]
    have hhead : rel.take dir.length ≠ [] := by
      intro hnil
      rw [hnil] at htake
      exact hne (by simpa using htake.symm)
    have htail : rel.drop dir.length ≠ [] := by
      intro hnil
      have := List.drop_eq_nil_iff.mp hnil
      omega
    refine ⟨text (rel.take dir.length), text (rel.drop dir.length), ?_, ?_⟩
    · rw [← text_append_path hhead htail, List.take_append_drop]
    · rw [fold_text, fold_text, htake]
  · rintro ⟨pre, rest, h, hfold⟩
    have hsplit := congrArg ofText h
    rw [ofText_text hrel, ofText_append (ne_nil_of_fold hdir hne hfold)] at hsplit
    have hcomponents := foldCase_ofText hdir hne hfold
    rw [hsplit, List.map_append, hcomponents]
    refine ⟨List.prefix_append _ _, ?_⟩
    have hlen := congrArg List.length hcomponents
    have hpos := List.length_pos_iff.mpr (List.splitOn_ne_nil '/' rest)
    simp only [List.length_map, List.length_append] at hlen ⊢
    omega

end Text

end AirDrive.RelPath
