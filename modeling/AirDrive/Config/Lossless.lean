import AirDrive.Config.Migrate

set_option relaxedAutoImplicit false
set_option autoImplicit false

/-!
# What the migration of the configuration loses

The merge looks for a section among the tables of the user's document. A section that is spelled
as an inline table is not found there, and neither is a value that stands at its name: the merge
puts an empty table in its place and fills it with defaults.

## Main definitions

* `AirDrive.Config.KeepsAll`, `AirDrive.Config.Lossless` — what a migration should do.
* `AirDrive.Config.Complete`, `AirDrive.Config.Mergeable`, `AirDrive.Config.Spared` — the documents
  for which it does.

## Main results

* `AirDrive.Config.find_mergeInto` — what stands at a key after the merge.
* `AirDrive.Config.lossless_iff` — when nothing is lost.
-/

namespace AirDrive.Config

open Toml

/-! ## The merge of a section -/

/-- The keys of a section that the user's table lacks. -/
def missingKeys (refKeys user : List Entry) : List Entry :=
  refKeys.filter fun r => !user.any fun e => e.2.1 = r.2.1

/-- The user's table with the missing keys of a section. -/
def filled (section' : String) (refKeys user : List Entry) : List Entry :=
  user ++ (missingKeys refKeys user).map fun r =>
    (insertedComments section' r.2.1, r.2.1, r.2.2)

/-- Filling a table inserts exactly the missing keys.

**Proof sketch.** Induction on the keys of the section. They are distinct, so a key that was
inserted does not count for the keys after it. -/
lemma foldl_insertMissing {section' : String} {refKeys user : List Entry} {report : MigrationReport}
    (hnodup : (refKeys.map fun r => r.2.1).Nodup) :
    refKeys.foldl (insertMissing section') (user, report) = (filled section' refKeys user,
      report ++ (missingKeys refKeys user).map fun r => (section', r.2.1)) := by
  induction refKeys generalizing user report with
  | nil => simp [filled, missingKeys]
  | cons r refKeys ih =>
    obtain ⟨hfresh, hnodup⟩ := List.nodup_cons.mp hnodup
    rw [List.foldl_cons, insertMissing]
    split
    case isTrue h =>
      have hcons : missingKeys (r :: refKeys) user = missingKeys refKeys user :=
        List.filter_cons_of_neg (by rw [show (user.any fun e => e.2.1 = r.2.1) = true from h]; simp)
      rw [ih hnodup, filled, filled, hcons]
    case isFalse h =>
      have hcons : missingKeys (r :: refKeys) user = r :: missingKeys refKeys user :=
        List.filter_cons_of_pos (by
          rw [show (user.any fun e => e.2.1 = r.2.1) = false from Bool.eq_false_iff.mpr h]; rfl)
      rw [ih hnodup]
      have hsame : missingKeys refKeys (user ++ [(insertedComments section' r.2.1, r.2.1, r.2.2)]) =
          missingKeys refKeys user := by
        refine List.filter_congr fun x hx => ?_
        have hne : r.2.1 ≠ x.2.1 := fun heq => hfresh (List.mem_map.mpr ⟨x, hx, heq.symm⟩)
        simp [hne]
      simp [filled, hsame, hcons]

/-- What stands at the name of a section after the merge. -/
def mergedEntry (section' : String) (refKeys : List Entry) : Option Entry → Entry
  | some (cs, _, .table user) => (cs, section', .table (filled section' refKeys user))
  | _ => ([], section', .table (filled section' refKeys []))

/-- The keys that are inserted into a section. -/
def insertedKeys (section' : String) (refKeys : List Entry) (found : Option Entry) :
    MigrationReport :=
  match found with
  | some (_, _, .table user) => (missingKeys refKeys user).map fun r => (section', r.2.1)
  | _ => (missingKeys refKeys []).map fun r => (section', r.2.1)

/-- The merge keeps what stands at a key within its own section's reach. -/
structure SectionMerged (acc acc' : Document × MigrationReport) (section' : String)
    (refKeys : List Entry) : Prop where
  here : acc'.1.find section' = some (mergedEntry section' refKeys (acc.1.find section'))
  others : ∀ k, k ≠ section' → acc'.1.find k = acc.1.find k
  report : acc'.2 = acc.2 ++ insertedKeys section' refKeys (acc.1.find section')
  trailing : acc'.1.trailing = acc.1.trailing

/-- A section that is a table is filled in place, any other item is replaced. -/
lemma mergeSection_spec (acc : Document × MigrationReport) {cs : List String} {section' : String}
    {refKeys : List Entry} (hnodup : (refKeys.map fun r => r.2.1).Nodup) :
    SectionMerged acc (mergeSection acc (cs, section', .table refKeys)) section' refKeys := by
  by_cases htable : containsTable acc.1 section' = true
  · obtain ⟨cs', key, user, hfind⟩ : ∃ cs' key user,
        acc.1.find section' = some (cs', key, .table user) := by
      unfold containsTable Document.get at htable
      cases hfind : acc.1.find section' with
      | none => simp [hfind] at htable
      | some e =>
        obtain ⟨cs', key, it⟩ := e
        cases it <;> simp_all
    have hget : acc.1.get section' = some (.table user) := by simp [Document.get, hfind]
    have hstep : mergeSection acc (cs, section', .table refKeys) =
        (acc.1.modify section' fun _ => .table (filled section' refKeys user),
          acc.2 ++ insertedKeys section' refKeys (acc.1.find section')) := by
      simp [mergeSection, htable, hget, foldl_insertMissing hnodup, hfind, insertedKeys]
    rw [hstep]
    refine ⟨?_, fun k hk => Document.find_modify_ne hk, rfl, rfl⟩
    rw [Document.find_modify_self hfind, hfind, mergedEntry]
  · have hfind : ∀ cs' key user, acc.1.find section' ≠ some (cs', key, .table user) := by
      intro cs' key user h
      simp [containsTable, Document.get, h] at htable
    have hget : (acc.1.insert section' (.table [])).get section' = some (.table []) := by
      simp [Document.get, Document.find_insert_self]
    have hentry : mergedEntry section' refKeys (acc.1.find section') =
        ([], section', .table (filled section' refKeys [])) := by
      unfold mergedEntry
      split
      · exact absurd ‹_› (hfind _ _ _)
      · rfl
    have hkeys : insertedKeys section' refKeys (acc.1.find section') =
        (missingKeys refKeys []).map fun r => (section', r.2.1) := by
      unfold insertedKeys
      split
      · exact absurd ‹_› (hfind _ _ _)
      · rfl
    have hstep : mergeSection acc (cs, section', .table refKeys) =
        ((acc.1.insert section' (.table [])).modify section'
            fun _ => .table (filled section' refKeys []),
          acc.2 ++ insertedKeys section' refKeys (acc.1.find section')) := by
      simp [mergeSection, htable, hget, foldl_insertMissing hnodup, hkeys]
    rw [hstep]
    refine ⟨?_, fun k hk => ?_, rfl, rfl⟩
    · rw [Document.find_modify_self (Document.find_insert_self _), hentry]
    · rw [Document.find_modify_ne hk, Document.find_insert_ne hk]

/-! ## The merge of all sections -/

/-- A list of tables, one for each key and each with distinct keys, as a rendered configuration
is. -/
structure Sections (l : List Entry) : Prop where
  distinct : (l.map fun e => e.2.1).Nodup
  tables : ∀ e ∈ l, ∃ refKeys, e.2.2 = .table refKeys ∧ (refKeys.map fun r => r.2.1).Nodup

variable {l : List Entry} {acc : Document × MigrationReport}

/-- The first of several sections, and the others. -/
lemma Sections.cons {e : Entry} (h : Sections (e :: l)) : Sections l ∧
    (∀ x ∈ l, x.2.1 ≠ e.2.1) ∧ ∃ refKeys, e = (e.1, e.2.1, .table refKeys) ∧
      ∀ acc, SectionMerged acc (mergeSection acc e) e.2.1 refKeys := by
  obtain ⟨hfresh, hdistinct⟩ := List.nodup_cons.mp h.distinct
  obtain ⟨refKeys, htable, hkeys⟩ := h.tables e (by simp)
  have he : e = (e.1, e.2.1, .table refKeys) := by rw [← htable]
  refine ⟨⟨hdistinct, fun x hx => h.tables x (by simp [hx])⟩, fun x hx heq => ?_, refKeys, he,
    fun acc => ?_⟩
  · exact hfresh (List.mem_map.mpr ⟨x, hx, heq⟩)
  · have hspec := @mergeSection_spec acc e.1 e.2.1 refKeys hkeys
    rwa [← he] at hspec

/-- A key that names no section is left alone. -/
lemma find_foldl_of_other (h : Sections l) {k : String} (hk : ∀ e ∈ l, e.2.1 ≠ k) :
    (l.foldl mergeSection acc).1.find k = acc.1.find k := by
  induction l generalizing acc with
  | nil => rfl
  | cons e l ih =>
    obtain ⟨htail, -, refKeys, -, hspec⟩ := h.cons
    rw [List.foldl_cons, ih htail fun x hx => hk x (by simp [hx])]
    exact (hspec acc).others k (hk e (by simp)).symm

/-- At the name of a section stands what the merge of that section makes. -/
lemma find_foldl_of_section (h : Sections l) {cs : List String} {k : String} {refKeys : List Entry}
    (hmem : (cs, k, .table refKeys) ∈ l) :
    (l.foldl mergeSection acc).1.find k = some (mergedEntry k refKeys (acc.1.find k)) := by
  induction l generalizing acc with
  | nil => simp at hmem
  | cons e l ih =>
    obtain ⟨htail, hothers, refKeys', he, hspec⟩ := h.cons
    rw [List.foldl_cons]
    rcases List.mem_cons.mp hmem with heq | hmem
    · subst heq
      obtain rfl : refKeys = refKeys' := by simpa using he
      rw [find_foldl_of_other htail hothers]
      exact (hspec acc).here
    · rw [ih htail hmem, (hspec acc).others k (hothers _ hmem)]

/-- Nothing is inserted exactly when every section lacks nothing. -/
lemma foldl_report_eq_nil (h : Sections l) : (l.foldl mergeSection acc).2 = [] ↔
    acc.2 = [] ∧ ∀ cs k refKeys, (cs, k, Item.table refKeys) ∈ l →
      insertedKeys k refKeys (acc.1.find k) = [] := by
  induction l generalizing acc with
  | nil => simp
  | cons e l ih =>
    obtain ⟨htail, hothers, refKeys, he, hspec⟩ := h.cons
    rw [List.foldl_cons, ih htail, (hspec acc).report, List.append_eq_nil_iff]
    constructor
    · rintro ⟨⟨hacc, hhere⟩, hrest⟩
      refine ⟨hacc, fun cs k refKeys' hmem => ?_⟩
      rcases List.mem_cons.mp hmem with heq | hmem
      · subst heq
        obtain rfl : refKeys' = refKeys := by simpa using he
        exact hhere
      · rw [← (hspec acc).others k (hothers _ hmem)]
        exact hrest cs k refKeys' hmem
    · rintro ⟨hacc, hall⟩
      refine ⟨⟨hacc, hall e.1 e.2.1 refKeys (by simp [← he])⟩, fun cs k refKeys' hmem => ?_⟩
      rw [(hspec acc).others k (hothers _ hmem)]
      exact hall cs k refKeys' (by simp [hmem])

/-- What may stand at the name of a section without a loss: nothing, a table, or an inline table
that has no comments and only repeats defaults of the section. -/
def Mergeable (refKeys : List Entry) : Option Entry → Prop
  | none => True
  | some (_, _, .table _) => True
  | some (cs, _, .inlineTable es) => cs = [] ∧ ∀ x ∈ es, x.2.comments = [] ∧
      ∃ r ∈ refKeys, r.2.1 = x.1 ∧ ∀ y ∈ x.2.paths, y ∈ r.2.2.paths
  | some _ => False

lemma inlineComments_eq_nil {es : List (String × Item)} :
    inlineComments es = [] ↔ ∀ x ∈ es, x.2.comments = [] := by
  induction es with
  | nil => simp [inlineComments]
  | cons x es ih => simp [inlineComments, ih]

lemma entryComments_append (es es' : List Entry) :
    entryComments (es ++ es') = entryComments es ++ entryComments es' := by
  simp [entryComments_eq]

/-- The merge of a section keeps the comments. -/
lemma comments_mergeSection {cs : List String} {section' : String} {refKeys : List Entry}
    (hnodup : (refKeys.map fun r => r.2.1).Nodup)
    (h : Mergeable refKeys (acc.1.find section')) :
    acc.1.comments.Sublist (mergeSection acc (cs, section', .table refKeys)).1.comments := by
  unfold mergeSection
  simp only
  by_cases htable : containsTable acc.1 section' = true
  · simp only [htable, if_true]
    split
    case h_1 user hget =>
      refine Document.comments_modify fun e he => ?_
      obtain ⟨cs', key, it⟩ := e
      obtain rfl : it = .table user := by simpa [Document.get, he] using hget
      rw [foldl_insertMissing hnodup]
      simp only [Item.comments, filled, entryComments_append]
      exact List.sublist_append_left _ _
    case h_2 => exact List.Sublist.refl _
  · have hget : (acc.1.insert section' (.table [])).get section' = some (.table []) := by
      simp [Document.get, Document.find_insert_self]
    simp only [htable, hget, Bool.false_eq_true, if_false]
    refine (Document.comments_insert fun e he => ?_).trans (Document.comments_modify fun e he => ?_)
    · obtain ⟨cs', key, it⟩ := e
      rw [he] at h
      cases it with
      | inlineTable es => exact ⟨h.1, inlineComments_eq_nil.mpr fun x hx => (h.2 x hx).1⟩
      | table es => simp [containsTable, Document.get, he] at htable
      | scalar t => exact h.elim
      | array es tr => exact h.elim
      | arrayOfTables es => exact h.elim
    · rw [Document.find_insert_self] at he
      obtain rfl := Option.some.inj he
      simp [Item.comments, entryComments]

lemma comments_foldl (h : Sections l) (hmerge : ∀ cs k refKeys, (cs, k, Item.table refKeys) ∈ l →
    Mergeable refKeys (acc.1.find k)) :
    acc.1.comments.Sublist (l.foldl mergeSection acc).1.comments := by
  induction l generalizing acc with
  | nil => exact List.Sublist.refl _
  | cons e l ih =>
    obtain ⟨htail, hothers, refKeys, he, hspec⟩ := h.cons
    obtain ⟨refKeys', htable, hnodup⟩ := h.tables e (by simp)
    obtain rfl : refKeys' = refKeys := by
      rw [he] at htable
      simpa using htable.symm
    rw [List.foldl_cons]
    have hfirst := @comments_mergeSection acc e.1 e.2.1 refKeys' hnodup
      (hmerge e.1 e.2.1 refKeys' (by simp [← he]))
    rw [← he] at hfirst
    refine hfirst.trans (ih htail fun cs k refKeys hmem => ?_)
    rw [(hspec acc).others k (hothers _ hmem)]
    exact hmerge cs k refKeys (by simp [hmem])

/-! ## The schema -/

/-- The reference has the key in the section, with this default. -/
def SchemaKey (section' key : String) (default : Item) : Prop :=
  ∃ cs refKeys cs', (cs, section', Item.table refKeys) ∈ referenceDoc.entries ∧
    (cs', key, default) ∈ refKeys

/-- The section is absent from the document, or it is a table without the key, in any spelling. -/
def Lacks (d : Document) (section' key : String) : Prop :=
  ∀ it, d.get section' = some it → it.isTableLike = true ∧ it.field key = none

lemma sections_reference : Sections referenceDoc.entries := by
  refine ⟨by decide, fun e he => ?_⟩
  simp only [referenceDoc, List.mem_cons, List.not_mem_nil, or_false] at he
  rcases he with rfl | rfl | rfl | rfl | rfl | rfl <;> exact ⟨_, rfl, by decide⟩

/-- The rendered defaults have no comments. -/
lemma comments_default {section' key : String} {it : Item} (h : SchemaKey section' key it) :
    it.comments = [] := by
  obtain ⟨cs, refKeys, cs', hsection, hkey⟩ := h
  have hnone : entryComments referenceDoc.entries = [] := rfl
  simp only [entryComments_eq, List.flatMap_eq_nil_iff, List.append_eq_nil_iff,
    List.map_eq_nil_iff] at hnone
  have hkeys : entryComments refKeys = [] := (hnone _ hsection).2
  simp only [entryComments_eq, List.flatMap_eq_nil_iff, List.append_eq_nil_iff,
    List.map_eq_nil_iff] at hkeys
  exact (hkeys _ hkey).2

/-- Every section that has keys is a table with all of them. -/
def Complete (d : Document) : Prop :=
  ∀ cs section' refKeys, (cs, section', Item.table refKeys) ∈ referenceDoc.entries → refKeys ≠ [] →
    ∃ es, d.get section' = some (.table es) ∧ ∀ r ∈ refKeys, ∃ e ∈ es, e.2.1 = r.2.1

lemma insertedKeys_eq_nil {section' : String} {refKeys : List Entry} {found : Option Entry} :
    insertedKeys section' refKeys found = [] ↔ refKeys = [] ∨
      ∃ cs key es, found = some (cs, key, .table es) ∧ ∀ r ∈ refKeys, ∃ e ∈ es, e.2.1 = r.2.1 := by
  unfold insertedKeys
  split
  case h_1 cs key user =>
    simp only [List.map_eq_nil_iff, missingKeys, List.filter_eq_nil_iff, Bool.not_eq_true,
      Bool.not_eq_false', List.any_eq_true, decide_eq_true_eq]
    constructor
    · exact fun h => .inr ⟨cs, key, user, rfl, h⟩
    · rintro (rfl | ⟨cs', key', es, heq, h⟩)
      · simp
      · obtain ⟨-, -, rfl⟩ : cs = cs' ∧ key = key' ∧ user = es := by simpa using heq
        exact h
  case h_2 found hfound =>
    simp only [List.map_eq_nil_iff, missingKeys, List.any_nil, Bool.not_false, List.filter_true]
    exact ⟨.inl, fun h => h.resolve_right fun ⟨cs, key, es, heq, _⟩ => hfound cs key es heq⟩

/-- The merge inserts nothing exactly when every section of the schema is complete. -/
lemma report_eq_nil_iff {d : Document} : (mergeInto referenceDoc d).2 = [] ↔ Complete d := by
  rw [mergeInto, foldl_report_eq_nil sections_reference]
  simp only [true_and, insertedKeys_eq_nil, Complete, Document.get, Option.map_eq_some_iff]
  constructor
  · intro h cs k refKeys hmem hne
    obtain ⟨cs', key, es, hfind, hall⟩ := (h cs k refKeys hmem).resolve_left hne
    exact ⟨es, ⟨_, hfind, rfl⟩, hall⟩
  · intro h cs k refKeys hmem
    by_cases hne : refKeys = []
    · exact .inl hne
    · obtain ⟨es, ⟨⟨cs', key, it⟩, hfind, rfl⟩, hall⟩ := h cs k refKeys hmem hne
      exact .inr ⟨cs', key, es, hfind, hall⟩

/-- A table that is filled has the default of a key it lacked. -/
lemma field_filled {section' key : String} {refKeys user : List Entry} {cs : List String} {it : Item}
    (hnodup : (refKeys.map fun r => r.2.1).Nodup) (hkey : (cs, key, it) ∈ refKeys)
    (hlacks : user.find? (fun e => e.2.1 = key) = none) :
    (Item.table (filled section' refKeys user)).field key = some it := by
  have hnone : ∀ e ∈ user, e.2.1 ≠ key := by simpa using hlacks
  have hmissing : (cs, key, it) ∈ missingKeys refKeys user :=
    List.mem_filter.mpr ⟨hkey, by simpa using hnone⟩
  have hsome : ((missingKeys refKeys user).map fun r =>
      (insertedComments section' r.2.1, r.2.1, r.2.2)).find? (fun e => e.2.1 = key) =
        some (insertedComments section' key, key, it) := by
    cases hfind : ((missingKeys refKeys user).map fun r =>
      (insertedComments section' r.2.1, r.2.1, r.2.2)).find? (fun e => e.2.1 = key) with
    | none =>
      have := List.find?_eq_none.mp hfind _ (List.mem_map.mpr ⟨_, hmissing, rfl⟩)
      simp at this
    | some e =>
      obtain ⟨r, hr, rfl⟩ := List.mem_map.mp (List.mem_of_find?_eq_some hfind)
      have hrkey : r.2.1 = key := by simpa using List.find?_some hfind
      have hsame : r = (cs, key, it) :=
        List.inj_on_of_nodup_map hnodup (List.mem_filter.mp hr).1 hkey hrkey
      rw [hsame]
  simp only [Item.field, filled, List.find?_append, hlacks, Option.none_or, hsome, Option.map_some]

/-! ## What is kept -/

/-- Of two documents, the second one keeps all of the first one and has what the first one lacks. -/
structure KeepsAll (d after : Document) : Prop where
  /-- Every key path leads to what it led to. -/
  paths : ∀ x ∈ d.paths, x ∈ after.paths
  /-- Every comment stands where it stood. -/
  comments : d.comments.Subperm after.comments
  /-- Every key of the schema that was absent has its default. -/
  added : ∀ section' key it, SchemaKey section' key it → Lacks d section' key →
    ∃ t, after.get section' = some t ∧ t.field key = some it
  /-- A value at the name of a section that is no table is as it was. -/
  untouched : ∀ cs section' refKeys, (cs, section', Item.table refKeys) ∈ referenceDoc.entries →
    ∀ it, d.get section' = some it → it.isTableLike = false → after.get section' = some it

/-- Nothing else is at stake when the order of the entries changes. -/
lemma KeepsAll.same {d m after : Document} (h : KeepsAll d m) (hsame : m.Same after) :
    KeepsAll d after where
  paths x hx := hsame.paths.mp (h.paths x hx)
  comments := h.comments.trans hsame.comments.subperm
  added section' key it hkey hlacks := by
    rw [← hsame.get_eq]
    exact h.added section' key it hkey hlacks
  untouched cs section' refKeys hmem it hget hno := by
    rw [← hsame.get_eq]
    exact h.untouched cs section' refKeys hmem it hget hno

section Merge

variable {d : Document} (hmerge : ∀ cs section' refKeys,
  (cs, section', Item.table refKeys) ∈ referenceDoc.entries → Mergeable refKeys (d.find section'))

include hmerge

/-- What stands at a key keeps its paths in the merge.

**Proof sketch.** A key that names no section is left alone. At a section, a table is only filled;
an inline table that may be merged repeats defaults, all of which are in the new table. -/
lemma paths_mergeInto {x : List String × Shape} (hx : x ∈ d.paths) :
    x ∈ (mergeInto referenceDoc d).1.paths := by
  obtain ⟨k, e, hfind, y, hy, rfl⟩ := Document.mem_paths.mp hx
  refine Document.mem_paths.mpr ?_
  by_cases hother : ∀ s ∈ referenceDoc.entries, s.2.1 ≠ k
  · exact ⟨k, e, (find_foldl_of_other sections_reference hother).trans hfind, y, hy, rfl⟩
  push Not at hother
  obtain ⟨s, hs, rfl⟩ := hother
  obtain ⟨refKeys, htable, -⟩ := sections_reference.tables s hs
  have hmem : (s.1, s.2.1, Item.table refKeys) ∈ referenceDoc.entries := by rwa [← htable]
  have hmerged := @find_foldl_of_section _ (d, []) sections_reference _ _ _ hmem
  rw [hfind] at hmerged
  have hclean := hmerge _ _ _ hmem
  rw [hfind] at hclean
  refine ⟨s.2.1, _, hmerged, y, ?_, rfl⟩
  obtain ⟨cs, key, it⟩ := e
  cases it with
  | scalar t => exact hclean.elim
  | array es tr => exact hclean.elim
  | arrayOfTables es => exact hclean.elim
  | table es =>
    simp only [Item.paths, List.mem_cons, mergedEntry] at hy ⊢
    refine hy.imp_right fun hy => ?_
    obtain ⟨e, he, z, hz, rfl⟩ := mem_entryPaths.mp hy
    exact mem_entryPaths.mpr ⟨e, by simp [filled, he], z, hz, rfl⟩
  | inlineTable es =>
    simp only [Item.paths, List.mem_cons, mergedEntry] at hy ⊢
    refine hy.imp_right fun hy => ?_
    obtain ⟨p, hp, z, hz, rfl⟩ := mem_inlinePaths.mp hy
    obtain ⟨-, r, hr, hkey, hpaths⟩ := hclean.2 p hp
    refine mem_entryPaths.mpr ⟨(insertedComments s.2.1 r.2.1, r.2.1, r.2.2), ?_, z, hpaths z hz, ?_⟩
    · have hmissing : r ∈ missingKeys refKeys [] := List.mem_filter.mpr ⟨hr, rfl⟩
      exact List.mem_append_right _ (List.mem_map.mpr ⟨r, hmissing, rfl⟩)
    · rw [hkey]

/-- A section without a clash is merged without a loss. -/
lemma keepsAll_mergeInto : KeepsAll d (mergeInto referenceDoc d).1 where
  paths x hx := paths_mergeInto hmerge hx
  comments := (@comments_foldl _ (d, []) sections_reference hmerge).subperm
  added section' key it := by
    rintro ⟨cs, refKeys, cs', hsection, hkey⟩ hlacks
    obtain ⟨refKeys', htable, hnodup⟩ := sections_reference.tables _ hsection
    obtain rfl : refKeys = refKeys' := by simpa using htable
    have hmerged := @find_foldl_of_section _ (d, []) sections_reference _ _ _ hsection
    refine ⟨_, by rw [Document.get, mergeInto, hmerged]; rfl, ?_⟩
    unfold mergedEntry
    split
    case h_1 cs' key' user hfind =>
      have hlack := (hlacks (.table user) (by simp [Document.get, hfind])).2
      exact field_filled hnodup hkey (by simpa [Item.field] using hlack)
    case h_2 => exact field_filled hnodup hkey rfl
  untouched cs section' refKeys hmem it hget hno := by
    have hclean := hmerge cs section' refKeys hmem
    obtain ⟨⟨cs', key, it'⟩, hfind, rfl⟩ := Option.map_eq_some_iff.mp hget
    rw [hfind] at hclean
    cases it' with
    | table es => simp [Item.isTableLike] at hno
    | inlineTable es => simp [Item.isTableLike] at hno
    | scalar t => exact hclean.elim
    | array es tr => exact hclean.elim
    | arrayOfTables es => exact hclean.elim

end Merge

/-! ## The migration of a file -/

section File

variable (parse : String → Except String Document) (print : Document → String)

/-- A file is migrated without a loss: it keeps all that it has and gets what it lacks, it is not
written when it lacks nothing, and a second migration does nothing. -/
def Lossless (text : String) : Prop :=
  ∀ d, parse text = .ok d →
    let first := migrateOnDisk parse print (some text)
    (∃ after, parse (first.written.getD text) = .ok after ∧ KeepsAll d after) ∧
      ((∀ section' key it, SchemaKey section' key it → ¬Lacks d section' key) →
        first.written = none) ∧
      migrateOnDisk parse print (some (first.written.getD text)) = ⟨.ok [], none⟩

/-- The documents that are migrated without a loss: those whose sections are complete tables, and
those that lack a key and have no section that clashes with a table. -/
def Spared (d : Document) : Prop :=
  Complete d ∨ (∃ section' key it, SchemaKey section' key it ∧ Lacks d section' key) ∧
    ∀ cs section' refKeys, (cs, section', Item.table refKeys) ∈ referenceDoc.entries →
      Mergeable refKeys (d.find section')

/-- A complete document is left alone. -/
lemma migrateOnDisk_of_complete {text : String} {d : Document} (hparse : parse text = .ok d)
    (h : Complete d) : migrateOnDisk parse print (some text) = ⟨.ok [], none⟩ := by
  simp [migrateOnDisk, hparse, report_eq_nil_iff.mpr h]

/-- Any other document is written. -/
lemma written_of_incomplete {text : String} {d : Document} (hparse : parse text = .ok d)
    (h : ¬Complete d) : (migrateOnDisk parse print (some text)).written =
      some (print (mergeInto referenceDoc d).1) := by
  simp [migrateOnDisk, hparse, mt report_eq_nil_iff.mp h]

/-- The merge completes every section. -/
lemma complete_mergeInto (d : Document) : Complete (mergeInto referenceDoc d).1 := by
  intro cs section' refKeys hmem hne
  obtain ⟨refKeys', htable, hnodup⟩ := sections_reference.tables _ hmem
  have hmerged := @find_foldl_of_section _ (d, []) sections_reference _ _ _ hmem
  have hall : ∀ user, ∀ r ∈ refKeys, ∃ e ∈ filled section' refKeys user, e.2.1 = r.2.1 := by
    intro user r hr
    by_cases hhas : ∃ e ∈ user, e.2.1 = r.2.1
    · obtain ⟨e, he, hkey⟩ := hhas
      exact ⟨e, by simp [filled, he], hkey⟩
    · have hmissing : r ∈ missingKeys refKeys user :=
        List.mem_filter.mpr ⟨hr, by
          simp only [Bool.not_eq_true', List.any_eq_false, decide_eq_true_eq]
          exact fun e he hkey => hhas ⟨e, he, hkey⟩⟩
      exact ⟨_, List.mem_append_right _ (List.mem_map.mpr ⟨r, hmissing, rfl⟩), rfl⟩
  have hget : ∃ user, (mergeInto referenceDoc d).1.get section' =
      some (.table (filled section' refKeys user)) := by
    rw [Document.get, mergeInto, hmerged]
    unfold mergedEntry
    split
    · exact ⟨_, rfl⟩
    · exact ⟨_, rfl⟩
  obtain ⟨user, hget⟩ := hget
  exact ⟨_, hget, hall user⟩

/-- A document that keeps all of an incomplete one without a written loss has no clash.

**Proof sketch.** At the name of a section the merge leaves a table. A value that is no table is
gone, against what is asked for it; the comments of an inline table are gone, since the new table
has comments only in front of its keys; and an entry of an inline table leads to the same values
only if it repeats a default. -/
lemma mergeable_of_keepsAll {d : Document} (h : KeepsAll d (mergeInto referenceDoc d).1)
    {cs : List String} {section' : String} {refKeys : List Entry}
    (hmem : (cs, section', Item.table refKeys) ∈ referenceDoc.entries) :
    Mergeable refKeys (d.find section') := by
  have hmerged := @find_foldl_of_section _ (d, []) sections_reference _ _ _ hmem
  cases hfind : d.find section' with
  | none => trivial
  | some e =>
    obtain ⟨cs', key, it⟩ := e
    rw [hfind] at hmerged
    have hget : d.get section' = some it := by simp [Document.get, hfind]
    have hclash : it.isTableLike = false → (mergeInto referenceDoc d).1.get section' ≠ some it := by
      intro hno heq
      rw [Document.get, mergeInto, hmerged] at heq
      rw [← Option.some.inj heq] at hno
      unfold mergedEntry at hno
      split at hno <;> simp [Item.isTableLike] at hno
    cases it with
    | table es => trivial
    | scalar t => exact absurd (h.untouched _ _ _ hmem _ hget rfl) (hclash rfl)
    | array es tr => exact absurd (h.untouched _ _ _ hmem _ hget rfl) (hclash rfl)
    | arrayOfTables es => exact absurd (h.untouched _ _ _ hmem _ hget rfl) (hclash rfl)
    | inlineTable es =>
      have hcomment : ∀ place c, (section' :: place, c) ∈ d.comments → ∃ k, place = [k] := by
        intro place c hc
        obtain ⟨e, he, hplace⟩ := Document.mem_comments_below.mp (h.comments.subset hc)
        obtain rfl := Option.some.inj (hmerged.symm.trans he)
        rcases hplace with ⟨-, hnone⟩ | hinner
        · simp [mergedEntry] at hnone
        · simp only [mergedEntry, Item.comments, entryComments_eq, List.mem_flatMap,
            List.mem_append, List.mem_map] at hinner
          obtain ⟨r', hr', hinner⟩ := hinner
          obtain ⟨r, hr, rfl⟩ : ∃ r ∈ refKeys,
              (insertedComments section' r.2.1, r.2.1, r.2.2) = r' := by
            simpa [filled, missingKeys] using hr'
          have hplain : r.2.2.comments = [] := comments_default ⟨_, _, _, hmem, hr⟩
          rcases hinner with ⟨c', -, heq⟩ | ⟨y, hy, -⟩
          · exact ⟨r.2.1, (Prod.mk.inj heq).1.symm⟩
          · rw [hplain] at hy
            exact absurd hy (by simp)
      refine ⟨List.eq_nil_iff_forall_not_mem.mpr fun c hc => ?_, fun x hx => ⟨?_, ?_⟩⟩
      · obtain ⟨k, hk⟩ := hcomment [] c
          (Document.mem_comments_below.mpr ⟨_, hfind, .inl ⟨rfl, hc⟩⟩)
        simp at hk
      · refine List.eq_nil_iff_forall_not_mem.mpr fun y hy => ?_
        have hinner : under x.1 y ∈ (Item.inlineTable es).comments :=
          mem_inlineComments.mpr ⟨x, hx, y, hy, rfl⟩
        obtain ⟨k, hk⟩ := hcomment (x.1 :: y.1) y.2
          (Document.mem_comments_below.mpr ⟨_, hfind, .inr hinner⟩)
        exact Item.comments_place hy (List.cons.inj hk).2
      · have hpath : ∀ y ∈ x.2.paths, ∃ r ∈ refKeys, r.2.1 = x.1 ∧ y ∈ r.2.2.paths := by
          intro y hy
          have hin : under section' (under x.1 y) ∈ d.paths :=
            Document.mem_paths.mpr ⟨section', _, hfind, under x.1 y, by
              simp only [Item.paths, List.mem_cons]
              exact .inr (mem_inlinePaths.mpr ⟨x, hx, y, hy, rfl⟩), rfl⟩
          obtain ⟨k, e, he, z, hz, heq⟩ := Document.mem_paths.mp (h.paths _ hin)
          obtain ⟨rfl, rfl⟩ : k = section' ∧ z = under x.1 y := by
            simp only [under, Prod.mk.injEq, List.cons.injEq] at heq
            exact ⟨heq.1.1, Prod.ext heq.1.2 heq.2⟩
          obtain rfl := Option.some.inj (hmerged.symm.trans he)
          simp only [mergedEntry, Item.paths, List.mem_cons, under, Prod.mk.injEq, reduceCtorEq,
            false_and, false_or] at hz
          obtain ⟨r', hr', w, hw, hweq⟩ := mem_entryPaths.mp hz
          obtain ⟨r, hr, rfl⟩ : ∃ r ∈ refKeys,
              (insertedComments k r.2.1, r.2.1, r.2.2) = r' := by
            simpa [filled, missingKeys] using hr'
          simp only [under, Prod.mk.injEq, List.cons.injEq] at hweq
          obtain rfl : w = y := Prod.ext hweq.1.2 hweq.2
          exact ⟨r, hr, hweq.1.1, hw⟩
        have hdistinct : (refKeys.map fun r => r.2.1).Nodup := by
          obtain ⟨refKeys', htable, hnodup⟩ := sections_reference.tables _ hmem
          obtain rfl : refKeys = refKeys' := by simpa using htable
          exact hnodup
        obtain ⟨y, hy⟩ : ∃ y, y ∈ x.2.paths := by
          cases x.2 <;> exact ⟨_, List.mem_cons_self⟩
        obtain ⟨r, hr, hkey, -⟩ := hpath y hy
        refine ⟨r, hr, hkey, fun y hy => ?_⟩
        obtain ⟨r', hr', hkey', hy'⟩ := hpath y hy
        rwa [List.inj_on_of_nodup_map hdistinct hr hr' (hkey.trans hkey'.symm)]

/-- **When the migration loses nothing**, for a document that the editor library reads back from
what it writes: exactly when its sections are all complete tables, or it lacks a key and every
section is absent, a table, or an inline table that only repeats defaults. -/
theorem lossless_iff {text : String} {d : Document} (hparse : parse text = .ok d)
    (hround : ∃ after, parse (print (mergeInto referenceDoc d).1) = .ok after ∧
      (mergeInto referenceDoc d).1.Same after) :
    Lossless parse print text ↔ Spared d := by
  by_cases hcomplete : Complete d
  · refine ⟨fun _ => .inl hcomplete, fun _ d' hd' => ?_⟩
    obtain rfl : d = d' := Except.ok.inj (hparse.symm.trans hd')
    have hrun := migrateOnDisk_of_complete parse print hparse hcomplete
    simp only [hrun, Option.getD_none]
    refine ⟨⟨d, hparse, fun x hx => hx, List.Subperm.refl _, ?_, ?_⟩, fun _ => trivial, trivial⟩
    · rintro section' key it ⟨cs, refKeys, cs', hsection, hkey⟩ hlacks
      obtain ⟨es, hget, hall⟩ := hcomplete _ _ _ hsection (by rintro rfl; simp at hkey)
      obtain ⟨e, he, hekey⟩ := hall _ hkey
      have hnone := (hlacks _ hget).2
      simp only [Item.field, Option.map_eq_none_iff, List.find?_eq_none, decide_eq_true_eq] at hnone
      exact absurd hekey (hnone e he)
    · exact fun _ _ _ _ it hget _ => hget
  · obtain ⟨after, hafter, hsame⟩ := hround
    have hwritten := written_of_incomplete parse print hparse hcomplete
    have hagain : Complete after := by
      intro cs section' refKeys hmem hne
      rw [← hsame.get_eq]
      exact complete_mergeInto d cs section' refKeys hmem hne
    constructor
    · intro h
      obtain ⟨⟨after', hafter', hkeeps⟩, hquiet, -⟩ := h d hparse
      rw [hwritten, Option.getD_some, hafter] at hafter'
      obtain rfl := Except.ok.inj hafter'
      refine .inr ⟨?_, fun cs section' refKeys hmem => ?_⟩
      · by_contra hnone
        push Not at hnone
        have := hquiet hnone
        rw [hwritten] at this
        simp at this
      · have hback : (after.Same (mergeInto referenceDoc d).1) := ⟨hsame.1.symm, hsame.2.symm⟩
        exact mergeable_of_keepsAll (hkeeps.same hback) hmem
    · rintro (h | ⟨hlacks, hmerge⟩)
      · exact absurd h hcomplete
      intro d' hd'
      obtain rfl : d = d' := Except.ok.inj (hparse.symm.trans hd')
      simp only [hwritten, Option.getD_some]
      refine ⟨⟨after, hafter, (keepsAll_mergeInto hmerge).same hsame⟩, fun hnone => ?_, ?_⟩
      · obtain ⟨section', key, it, hkey, hlack⟩ := hlacks
        exact absurd hlack (hnone section' key it hkey)
      · exact migrateOnDisk_of_complete parse print hafter hagain

end File

/-! ## A configuration without `[sync]`, and one with it in one line -/

/-- The sections other than `sync`. -/
def otherSections : List Entry := [
  referenceSection "oauth" [],
  referenceSection "mapping" [("auto_create_remote_root", .scalar "false")],
  referenceSection "daemon" [
    ("remote_poll_interval_seconds", .scalar "30"),
    ("safety_net_interval_seconds", .scalar "300"),
    ("log_file", quoted ""), ("log_level", quoted "debug"),
    ("log_format", quoted "text"), ("log_color", quoted "auto")],
  referenceSection "rclone" [],
  referenceSection "watch" [
    ("ignore_patterns", .array [] []), ("auto_create_root", .scalar "false"),
    ("symlinks", quoted "skip")]]

/-- Their text. -/
def otherText : String :=
  "[oauth]\n\n[mapping]\nauto_create_remote_root = false\n\n[daemon]\n" ++
  "remote_poll_interval_seconds = 30\nsafety_net_interval_seconds = 300\nlog_file = \"\"\n" ++
  "log_level = \"debug\"\nlog_format = \"text\"\nlog_color = \"auto\"\n\n[rclone]\n\n" ++
  "[watch]\nignore_patterns = []\nauto_create_root = false\nsymlinks = \"skip\"\n"

/-- The document without the section. -/
def lackingDoc : Document := ⟨otherSections, [], by decide⟩

/-- The document with the section at its end. -/
def completedDoc : Document :=
  ⟨otherSections ++ [referenceSection "sync" [("remote_deletes", quoted "trash")]], [], by decide⟩

/-- Its text. -/
def completedText : String := otherText ++ "\n[sync]\nremote_deletes = \"trash\"\n"

/-- The document in which the user asks for permanent deletions, in an inline table. -/
def inlineDoc : Document :=
  ⟨([], "sync", .inlineTable [("remote_deletes", quoted "permanent")]) :: otherSections, [],
    by decide⟩

/-- Its text. -/
def inlineText : String := "sync = \x7b remote_deletes = \"permanent\" \x7d\n\n" ++ otherText

/-- The document that the migration makes of it. -/
def replacedDoc : Document :=
  ⟨referenceSection "sync" [("remote_deletes", quoted "trash")] :: otherSections, [], by decide⟩

/-- Its text. -/
def replacedText : String := "[sync]\nremote_deletes = \"trash\"\n\n" ++ otherText

/-- The editor library on these texts. -/
def sampleParse (text : String) : Except String Document :=
  if text = otherText then .ok lackingDoc
  else if text = completedText then .ok completedDoc
  else if text = inlineText then .ok inlineDoc
  else if text = replacedText then .ok replacedDoc
  else .error "not one of the samples"

/-- And on the documents that the migration makes of them. -/
def samplePrint (d : Document) : String :=
  if (d.entries.map fun e => e.2.1).head? = some "sync" then replacedText else completedText

/-- The texts are different ones. -/
lemma texts_distinct : completedText ≠ otherText ∧ (inlineText ≠ otherText ∧
    inlineText ≠ completedText) ∧ replacedText ≠ otherText ∧ replacedText ≠ completedText ∧
      replacedText ≠ inlineText := by decide +kernel

lemma sampleParse_inline : sampleParse inlineText = .ok inlineDoc := by
  obtain ⟨-, ⟨hother, hcompleted⟩, -⟩ := texts_distinct
  rw [sampleParse, if_neg hother, if_neg hcompleted, if_pos rfl]

lemma sampleParse_replaced : sampleParse replacedText = .ok replacedDoc := by
  obtain ⟨-, -, hother, hcompleted, hinline⟩ := texts_distinct
  rw [sampleParse, if_neg hother, if_neg hcompleted, if_neg hinline, if_pos rfl]

lemma sampleParse_completed : sampleParse completedText = .ok completedDoc := by
  rw [sampleParse, if_neg texts_distinct.1, if_pos rfl]

/-- The migration of the inline table puts the default in the place of what the user chose. -/
theorem inline_table_replaced : ¬Lossless sampleParse samplePrint inlineText := by
  intro h
  obtain ⟨⟨after, hafter, hkeeps⟩, -⟩ := h inlineDoc sampleParse_inline
  have hchosen := hkeeps.paths (["sync", "remote_deletes"], .scalar "\"permanent\"") (by decide)
  have hwritten : (migrateOnDisk sampleParse samplePrint (some inlineText)).written =
      some replacedText := by
    simp only [migrateOnDisk, sampleParse_inline]
    rfl
  rw [hwritten, Option.getD_some, sampleParse_replaced] at hafter
  obtain rfl : replacedDoc = after := Except.ok.inj hafter
  exact absurd hchosen (by decide)

/-- The missing section is appended with its default, and nothing is lost. -/
theorem missing_section_added : Lossless sampleParse samplePrint otherText := by
  have hkey : SchemaKey "sync" "remote_deletes" (quoted "trash") :=
    ⟨[], [([], "remote_deletes", quoted "trash")], [], by simp [referenceDoc, referenceSection],
      by simp⟩
  refine (@lossless_iff sampleParse samplePrint otherText lackingDoc (if_pos rfl)
    ⟨completedDoc, sampleParse_completed, .refl _, rfl⟩).mpr
      (.inr ⟨⟨_, _, _, hkey, fun it h => ?_⟩, ?_⟩)
  · have hnone : lackingDoc.get "sync" = none := rfl
    rw [hnone] at h
    simp at h
  · intro cs section' refKeys hmem
    simp only [referenceDoc, referenceSection, List.mem_cons, List.not_mem_nil, or_false,
      Prod.mk.injEq] at hmem
    rcases hmem with ⟨-, rfl, -⟩ | ⟨-, rfl, -⟩ | ⟨-, rfl, -⟩ | ⟨-, rfl, -⟩ | ⟨-, rfl, -⟩ |
      ⟨-, rfl, -⟩ <;> exact trivial

end AirDrive.Config
