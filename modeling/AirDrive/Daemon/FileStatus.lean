import AirDrive.State.Db
import AirDrive.State.Subtree

set_option relaxedAutoImplicit false
set_option autoImplicit false

/-!
# Emblems

The status that the file manager shows for a path: for the mapped folder that of the whole mapping,
for a path below it what the state of its row says. A path without a row has none.

The status of one path is looked up at the path with slashes for its backslashes, whether the row is
live or not. The statuses of the entries of a directory are those of the live rows one level below
it, where only the directory has slashes for its backslashes. So the two agree about an entry unless
its row is a tombstone or its name contains a backslash.

## Main definitions

* `AirDrive.FileStatus.Token`, `AirDrive.FileStatus.Token.text` — the statuses.
* `AirDrive.FileStatus.tokenForState`, `AirDrive.FileStatus.aggregateToken`,
  `AirDrive.FileStatus.statusToken`.
* `AirDrive.FileStatus.statusPath`, `AirDrive.FileStatus.dirStatus` — the two queries.
* `AirDrive.FileStatus.Agree` — they agree about an entry of a directory.

## Main results

* `AirDrive.FileStatus.statusToken_of_row` — the token of a tracked path.
* `AirDrive.FileStatus.mem_listChildStates` — the statement with `LIKE` gives the live rows one level
  below.
* `AirDrive.FileStatus.tokens_agree_iff` — when the queries agree.
-/

namespace AirDrive.FileStatus

open Data.Like

/-- The status tokens. -/
inductive Token
  /-- Up to date on both sides. -/
  | synced
  /-- A local or remote change is queued. -/
  | pending
  /-- A conflict was opened on this path. -/
  | conflict
  /-- Deliberately not synced. -/
  | ignored
  /-- Not tracked, or outside the mapped root. -/
  | unknown
deriving DecidableEq, Repr

/-- The text of a token. -/
def Token.text : Token → String
  | synced => "synced"
  | pending => "pending"
  | conflict => "conflict"
  | ignored => "ignored"
  | unknown => "unknown"

/-- `token_for_state`. -/
def tokenForState : ItemState → Token
  | .synced => .synced
  | .pendingLocal => .pending
  | .pendingRemote => .pending
  | .conflict => .conflict
  | .skipped => .ignored

/-- `aggregate_token`: the state of the whole mapping. -/
def aggregateToken (db : Db) : Token :=
  if db.conflicts.table.rows ≠ [] then .conflict
  else
    match db.info.blocked with
    | some .transient => .pending
    | some .auth | some .remote | some .mapping => .conflict
    | none => if db.ops.table.rows ≠ [] then .pending else .synced

/-- `status_token`, by the path below the mapped root; `none` is a path outside it. -/
def statusToken (db : Db) : Option RelPath → Token
  | none => .unknown
  | some rel =>
    -- the mapped root has no row of its own
    if rel = [] then aggregateToken db
    else
      match db.items.getByRelativePath rel.normalise with
      | some item => tokenForState item.state
      | none => .unknown

/-- The token of a tracked path is that of its row's state. -/
lemma statusToken_of_row {db : Db} {r : SyncItem} (hr : r ∈ db.items) (hne : r.relativePath ≠ [])
    (hplain : r.relativePath.Plain) :
    statusToken db (some r.relativePath) = tokenForState r.state := by
  have hrow : db.items.getByRelativePath r.relativePath.normalise = some r := by
    rw [hplain.normalise_eq]
    exact ItemTable.getByRelativePath_eq_some.mpr ⟨hr, rfl⟩
  simp [statusToken, hne, hrow]

/-! ## The two queries -/

/-- The components of an absolute path. -/
abbrev AbsPath := List String

/-- `list_child_states`, for the text of a directory. -/
def listChildStates (t : ItemTable) (dirRel : List Char) : List (List Char × ItemState) :=
  let pre := if dirRel = [] then [] else dirRel ++ ['/']
  let rows := t.rows.filter fun r => r.trashedAt = none &&
    like '\\' (escapeLike pre ++ ['%']) r.relativePath.text
  rows.filterMap fun r =>
    match r.relativePath.text.dropPrefix? pre with
    | none => none
    | some rest => if rest ≠ [] ∧ '/' ∉ rest then some (rest, r.state) else none

/-- `status_token`, by an absolute path. -/
def statusPath (db : Db) (localRoot abs : AbsPath) : Token :=
  statusToken db (abs.dropPrefix? localRoot)

/-- `dir_status`: the entries of a directory with their tokens. -/
def dirStatus (db : Db) (localRoot absDir : AbsPath) : List (String × Token) :=
  -- the mapped root, as an entry of its parent
  (match localRoot.getLast? with
    | some name => if localRoot.dropLast = absDir then [(name, aggregateToken db)] else []
    | none => []) ++
  match absDir.dropPrefix? localRoot with
  | none => []
  | some rel => (listChildStates db.items (RelPath.normalise rel).text).map
      fun child => (String.ofList child.1, tokenForState child.2)

/-- The token that a listing shows for a name; a name that is not listed is unknown. -/
def Shows (entries : List (String × Token)) (name : String) (t : Token) : Prop :=
  (name, t) ∈ entries ∨ t = .unknown ∧ ∀ t', (name, t') ∉ entries

/-- The query for a path and the one for its directory give the same token. -/
def Agree (db : Db) (localRoot dir : AbsPath) (name : String) : Prop :=
  ∀ t, Shows (dirStatus db localRoot dir) name t ↔ statusPath db localRoot (dir ++ [name]) = t

/-- The rows say the same about an entry: its row, if there is one, is no tombstone. If the name
contains a backslash, the live row of the entry and the row whose path has slashes instead have one
token, or are both missing. -/
def Matches (db : Db) (rel : RelPath) (name : String) : Prop :=
  if '\\' ∈ name.toList then
    ∀ t, (∃ r ∈ db.items, r.trashedAt = none ∧
        r.relativePath = RelPath.normalise rel ++ [name] ∧ tokenForState r.state = t) ↔
      ∃ r ∈ db.items, r.relativePath = RelPath.normalise (rel ++ [name]) ∧ tokenForState r.state = t
  else ∀ r ∈ db.items, r.relativePath = RelPath.normalise rel ++ [name] → r.trashedAt = none

section Children

variable {db : Db} {t : ItemTable} {dir rel : RelPath} {root : AbsPath} {name : String}

lemma tokenForState_ne_unknown (s : ItemState) : tokenForState s ≠ .unknown := by
  cases s <;> decide

/-- The components are those of a path of the file system. -/
def Proper (p : AbsPath) : Prop := ∀ x ∈ p, x ≠ "" ∧ '/' ∉ x.toList

instance (p : AbsPath) : Decidable (Proper p) := List.decidableBAll _ _

/-- The text of an entry of a directory. -/
lemma text_child (dir : RelPath) (name : String) :
    (dir ++ [name]).text = (if dir = [] then [] else dir.text ++ ['/']) ++ name.toList := by
  split
  · next hnil => simp [hnil, RelPath.text_eq]
  · next hne =>
    rw [RelPath.text_append_path hne (by simp), List.append_assoc]
    simp [RelPath.text_eq]

lemma canonical_child (hdir : dir.Canonical) (hne : name ≠ "") (hname : '/' ∉ name.toList) :
    RelPath.Canonical (dir ++ [name]) := by
  refine ⟨fun x hx => ?_, fun h => ?_⟩
  · rcases List.mem_append.mp hx with hx | hx
    · exact hdir.slashless x hx
    · exact List.mem_singleton.mp hx ▸ hname
  · cases dir with
    | nil => exact hne (by simpa using h)
    | cons y dir => simp at h

/-- **The statement with `LIKE`** gives the live rows one level below a directory. -/
lemma mem_listChildStates (hrows : ∀ r ∈ t, r.relativePath.Canonical) (hdir : dir.Canonical)
    {s : ItemState} (hne : name ≠ "") (hname : '/' ∉ name.toList) :
    (name.toList, s) ∈ listChildStates t dir.text ↔
      ∃ r ∈ t, r.trashedAt = none ∧ r.relativePath = dir ++ [name] ∧ r.state = s := by
  have hempty : (dir.text = []) ↔ dir = [] :=
    ⟨fun h => by_contra fun hne => RelPath.text_ne_nil hdir hne h, fun h => by simp [h, RelPath.text]⟩
  simp only [listChildStates, hempty]
  set pre := if dir = [] then [] else dir.text ++ ['/'] with hpre
  have hlike : ∀ rest, like '\\' (escapeLike pre ++ ['%']) (pre ++ rest) = true := fun rest => by
    rw [ItemTable.escapeLike_eq]
    exact (like_escape_any (by decide)).mpr ⟨pre, rest, rfl, rfl⟩
  have hpath : ∀ r ∈ t, r.relativePath.text = pre ++ name.toList ↔ r.relativePath = dir ++ [name] := by
    intro r hr
    rw [hpre, ← text_child]
    exact RelPath.text_inj (hrows r hr) (canonical_child hdir hne hname)
  constructor
  · intro h
    obtain ⟨r, hr, hrest⟩ := List.mem_filterMap.mp h
    obtain ⟨hmem, hfound⟩ := List.mem_filter.mp hr
    obtain ⟨hlive, -⟩ := Bool.and_eq_true_iff.mp hfound
    refine ⟨r, hmem, by simpa using hlive, ?_⟩
    cases hdrop : r.relativePath.text.dropPrefix? pre with
    | none => simp [hdrop] at hrest
    | some rest =>
      obtain ⟨pre', htext, hsame⟩ := List.dropPrefix?_eq_some_iff.mp hdrop
      rw [hdrop] at hrest
      simp only at hrest
      split_ifs at hrest
      obtain ⟨rfl, rfl⟩ := Prod.mk.inj (Option.some.inj hrest)
      rw [eq_of_beq hsame] at htext
      exact ⟨(hpath r hmem).mp htext, rfl⟩
  · rintro ⟨r, hr, hlive, hrel, rfl⟩
    have htext := (hpath r hr).mpr hrel
    refine List.mem_filterMap.mpr ⟨r, List.mem_filter.mpr ⟨hr, ?_⟩, ?_⟩
    · simp [hlive, htext, hlike]
    · rw [htext, List.dropPrefix?_append_of_beq _ (by simp)]
      simp only
      rw [if_pos ⟨fun h => hne (by simpa using h), hname⟩]

/-- The path of a directory with slashes for its backslashes is one of a text. -/
lemma canonical_normalise (h : Proper dir) : RelPath.Canonical (RelPath.normalise dir) := by
  refine ⟨fun x hx => ?_, fun hblank => ?_⟩
  · obtain ⟨y, hy, hx⟩ := List.mem_flatMap.mp hx
    obtain ⟨part, hpart, rfl⟩ := List.mem_map.mp hx
    rw [String.toList_ofList]
    exact fun hslash => (h y hy).2 (Data.Lines.mem_of_splitOn hpart hslash).1
  · cases dir with
    | nil => cases hblank
    | cons y dir =>
      have hy : y.toList ≠ [] := by simpa using (h y (.head _)).1
      have hparts : (y.toList.splitOn '\\').map String.ofList ≠ [] := by simp
      rw [RelPath.normalise, List.flatMap_cons] at hblank
      rcases List.append_eq_singleton_iff.mp hblank with ⟨hnil, -⟩ | ⟨hone, -⟩
      · exact hparts hnil
      · exact RelPath.splitOn_ne_blank '\\' hy hone

/-- What is shown for a name that a list gives tokens, none of them `unknown`. -/
lemma shows_iff {A B : Token → Prop} (hA : ¬A .unknown) (hB : ¬B .unknown) :
    (∀ t, (A t ∨ t = .unknown ∧ ∀ t', ¬A t') ↔ (B t ∨ t = .unknown ∧ ∀ t', ¬B t')) ↔
      ∀ t, A t ↔ B t := by
  have hlisted : ∀ {A B : Token → Prop}, ¬A .unknown →
      (∀ t, (A t ∨ t = .unknown ∧ ∀ t', ¬A t') ↔ (B t ∨ t = .unknown ∧ ∀ t', ¬B t')) →
        ∀ t, A t → B t := by
    intro A B hA h t ht
    rcases (h t).mp (.inl ht) with hB | ⟨rfl, -⟩
    · exact hB
    · exact absurd ht hA
  constructor
  · exact fun h t => ⟨hlisted hA h t, hlisted hB (fun t => (h t).symm) t⟩
  · intro h t
    simp only [h]

/-- The token of a path below the root. -/
lemma statusToken_eq_iff {t : Token} (hne : rel ≠ []) :
    statusToken db (some rel) = t ↔
      (∃ r ∈ db.items, r.relativePath = rel.normalise ∧ tokenForState r.state = t) ∨
        t = .unknown ∧ ∀ t', ¬∃ r ∈ db.items, r.relativePath = rel.normalise ∧
          tokenForState r.state = t' := by
  simp only [statusToken, hne, if_false]
  cases hrow : db.items.getByRelativePath rel.normalise with
  | some r =>
    obtain ⟨hr, hpath⟩ := ItemTable.getByRelativePath_eq_some.mp hrow
    constructor
    · exact fun h => .inl ⟨r, hr, hpath, h⟩
    · rintro (⟨s, hs, hspath, rfl⟩ | ⟨-, hnone⟩)
      · rw [db.items.path_inj hs hr (hspath.trans hpath.symm)]
      · exact absurd ⟨r, hr, hpath, rfl⟩ (hnone _)
  | none =>
    have hnone := ItemTable.getByRelativePath_eq_none.mp hrow
    constructor
    · exact fun h => .inr ⟨h.symm, fun _ ⟨r, hr, hpath, _⟩ => hnone r hr hpath⟩
    · rintro (⟨r, hr, hpath, -⟩ | ⟨rfl, -⟩)
      · exact absurd hpath (hnone r hr)
      · rfl

/-- What is not below the root. -/
lemma dropPrefix_of_not_prefix {p : AbsPath} (h : ¬root <+: p) : p.dropPrefix? root = none := by
  cases hdrop : p.dropPrefix? root with
  | none => rfl
  | some rel =>
    obtain ⟨root', rfl, hsame⟩ := List.dropPrefix?_eq_some_iff.mp hdrop
    exact absurd (eq_of_beq hsame ▸ List.prefix_append root' rel) h

/-- The entries of a directory below the root. -/
lemma mem_dirStatus (hrows : ∀ r ∈ db.items, r.relativePath.Canonical) (hrel : Proper rel)
    {tok : Token} (hne : name ≠ "") (hname : '/' ∉ name.toList) :
    (name, tok) ∈ dirStatus db root (root ++ rel) ↔
      ∃ r ∈ db.items, r.trashedAt = none ∧ r.relativePath = rel.normalise ++ [name] ∧
        tokenForState r.state = tok := by
  have hparent : (match root.getLast? with
      | some name => if root.dropLast = root ++ rel then [(name, aggregateToken db)] else []
      | none => []) = [] := by
    cases hlast : root.getLast? with
    | none => rfl
    | some x =>
      have hdrop : root.dropLast ≠ root ++ rel := by
        intro h
        have hlen := congrArg List.length h
        have hpos : root ≠ [] := fun hnil => by simp [hnil] at hlast
        have := List.length_pos_iff.mpr hpos
        simp only [List.length_dropLast, List.length_append] at hlen
        omega
      simp [hdrop]
  rw [dirStatus, hparent, List.nil_append, List.dropPrefix?_append_of_beq _ (by simp)]
  simp only [List.mem_map, Prod.mk.injEq]
  constructor
  · rintro ⟨child, hchild, rfl, rfl⟩
    rw [← Prod.eta child, ← @String.toList_ofList child.1] at hchild
    obtain ⟨r, hr, hlive, hpath, hstate⟩ :=
      (mem_listChildStates hrows (canonical_normalise hrel) hne hname).mp hchild
    exact ⟨r, hr, hlive, hpath, by rw [hstate]⟩
  · rintro ⟨r, hr, hlive, hpath, rfl⟩
    exact ⟨(name.toList, r.state), (mem_listChildStates hrows (canonical_normalise hrel) hne
      hname).mpr ⟨r, hr, hlive, hpath, rfl⟩, by simp, rfl⟩

/-- Outside the root the queries agree: the root itself is listed in its parent. -/
lemma agree_outside (h : ¬root <+: dir) : Agree db root dir name := by
  have hdir := dropPrefix_of_not_prefix h
  by_cases hroot : root = dir ++ [name]
  · subst hroot
    have hself : (dir ++ [name]).dropPrefix? (dir ++ [name]) = some [] :=
      List.dropPrefix?_eq_some_iff.mpr ⟨dir ++ [name], by simp, by simp⟩
    intro t
    simp only [Shows, dirStatus, hdir, statusPath, hself, statusToken, List.getLast?_concat,
      List.dropLast_concat, if_true, List.append_nil, List.mem_singleton, Prod.mk.injEq, true_and]
    constructor
    · rintro (rfl | ⟨-, hnot⟩)
      · rfl
      · exact absurd rfl (hnot _)
    · exact fun h => .inl h.symm
  · have habs : ¬root <+: dir ++ [name] := fun hprefix => by
      rcases List.prefix_concat_iff.mp hprefix with heq | hsub
      · exact hroot heq
      · exact h hsub
    have hnot : ∀ t, (name, t) ∉ dirStatus db root dir := by
      intro t hmem
      simp only [dirStatus, hdir, List.append_nil] at hmem
      split at hmem
      · next x hlast =>
        split_ifs at hmem with hparent
        · obtain ⟨rfl, -⟩ := Prod.mk.inj (List.mem_singleton.mp hmem)
          refine hroot ?_
          rw [← hparent]
          exact (List.dropLast_append_getLast? _ hlast).symm
        · cases hmem
      · cases hmem
    intro t
    rw [statusPath, dropPrefix_of_not_prefix habs]
    constructor
    · rintro (hmem | ⟨rfl, -⟩)
      · exact absurd hmem (hnot t)
      · rfl
    · exact fun h => .inr ⟨h.symm, hnot⟩

/-- In both cases the two rows show the same. -/
lemma matches_iff : Matches db rel name ↔
    ∀ t, (∃ r ∈ db.items, r.trashedAt = none ∧
        r.relativePath = RelPath.normalise rel ++ [name] ∧ tokenForState r.state = t) ↔
      ∃ r ∈ db.items, r.relativePath = RelPath.normalise (rel ++ [name]) ∧
        tokenForState r.state = t := by
  unfold Matches
  split
  · exact Iff.rfl
  · next hplain =>
    have hpath : RelPath.normalise (rel ++ [name]) = RelPath.normalise rel ++ [name] := by
      rw [RelPath.normalise, List.flatMap_append, List.flatMap_singleton,
        List.splitOn_eq_singleton hplain]
      simp [RelPath.normalise]
    rw [hpath]
    constructor
    · intro h t
      constructor
      · exact fun ⟨r, hr, _, hat, htoken⟩ => ⟨r, hr, hat, htoken⟩
      · exact fun ⟨r, hr, hat, htoken⟩ => ⟨r, hr, h r hr hat, hat, htoken⟩
    · intro h r hr hat
      obtain ⟨s, hs, hlive, hsat, -⟩ := (h _).mpr ⟨r, hr, hat, rfl⟩
      exact db.items.path_inj hs hr (hsat.trans hat.symm) ▸ hlive

/-- **The queries agree about an entry of a directory** exactly when the entry is not below the root,
or the rows say the same about it. -/
theorem tokens_agree_iff (db : Db) (root dir : AbsPath) (name : String)
    (hrows : ∀ r ∈ db.items, r.relativePath.Canonical) (hproper : Proper (dir ++ [name])) :
    Agree db root dir name ↔ ∀ rel, dir = root ++ rel → Matches db rel name := by
  by_cases hbelow : root <+: dir
  · obtain ⟨rel, rfl⟩ := hbelow
    obtain ⟨hne, hname⟩ := hproper name (by simp)
    have hrel : Proper rel := fun x hx => hproper x (by simp [hx])
    have hunknown : ∀ {r : SyncItem}, tokenForState r.state ≠ .unknown :=
      fun {r} => tokenForState_ne_unknown r.state
    have hagree : Agree db root (root ++ rel) name ↔ Matches db rel name := by
      simp only [Agree, Shows, mem_dirStatus hrows hrel hne hname, statusPath, List.append_assoc,
        List.dropPrefix?_append_of_beq _ (BEq.refl root),
        statusToken_eq_iff (show rel ++ [name] ≠ [] by simp)]
      rw [matches_iff]
      exact shows_iff (fun ⟨_, _, _, _, h⟩ => hunknown h) fun ⟨_, _, _, h⟩ => hunknown h
    rw [hagree]
    constructor
    · intro h rel' heq
      exact List.append_cancel_left heq ▸ h
    · exact fun h => h rel rfl
  · exact iff_of_true (agree_outside hbelow) fun rel heq => absurd ⟨rel, heq.symm⟩ hbelow

/-- A table with the row of a file `a.txt`, live or a tombstone. -/
def sampleRows (trashed : Bool) : Db :=
  let db := (DbCall.run (.insertItem ⟨["a.txt"], .file, none, none, none, .synced⟩) Db.empty).2
  if trashed then (DbCall.run (.markTrashed 1 0) db).2 else db

/-- The queries agree about a live row. -/
theorem live_agree : Agree (sampleRows false) ["home", "Drive"] ["home", "Drive"] "a.txt" := by
  have hcanonical : ∀ r ∈ (sampleRows false).items.rows, r.relativePath.Canonical := by decide +kernel
  refine (tokens_agree_iff (sampleRows false) ["home", "Drive"] ["home", "Drive"] "a.txt" hcanonical
    (by decide)).mpr fun rel hrel => ?_
  obtain rfl : rel = [] := by simpa using hrel
  have hlive : ∀ r ∈ (sampleRows false).items.rows, r.trashedAt = none := by decide +kernel
  rw [Matches, if_neg (by decide)]
  exact fun r hr _ => hlive r hr

/-- A tombstone is shown by the one query and not listed by the other. -/
theorem tombstone_differs :
    ¬∀ (db : Db) (root dir : AbsPath) (name : String),
      (∀ r ∈ db.items, r.relativePath.Canonical) → Proper (dir ++ [name]) →
        Agree db root dir name := by
  intro h
  have hcanonical : ∀ r ∈ (sampleRows true).items.rows, r.relativePath.Canonical := by decide +kernel
  have hagree := h (sampleRows true) ["home", "Drive"] ["home", "Drive"] "a.txt" hcanonical (by decide)
  have hlisted : dirStatus (sampleRows true) ["home", "Drive"] ["home", "Drive"] = [] := by
    decide +kernel
  have hpath : statusPath (sampleRows true) ["home", "Drive"] ["home", "Drive", "a.txt"] = .synced := by
    decide +kernel
  have hunknown := (hagree .unknown).mp (.inr ⟨rfl, by simp [hlisted]⟩)
  exact absurd (hpath.symm.trans hunknown) (by decide)

end Children

end AirDrive.FileStatus
