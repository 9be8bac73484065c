import AirDrive.Data.Sql

set_option relaxedAutoImplicit false
set_option autoImplicit false

/-!
# Deletions that cascade

A deletion takes with a row all rows that refer to it, and all that refer to those: every foreign
key is `ON DELETE CASCADE`. Where references go up a hierarchy of tables, the rows that go are found
in as many rounds as there are tables.

## Main definitions

* `Data.Sql.Doomed` — the rows that go with the chosen ones.
* `Data.Sql.Database.doomed` — the same in a number of rounds.
* `Data.Sql.Database.deleteCascade` — the database after the deletion.
* `Data.Sql.Ranked` — references go up a hierarchy.

## Main results

* `Data.Sql.doomed_iff`, `Data.Sql.mem_deleteCascade` — which rows stay.
* `Data.Sql.Sound.deleteCascade` — the content still obeys the schema.
* `Data.Sql.doomed_iff_chosen` — nothing else goes in the tables that rows are chosen from.
* `Data.Sql.all_doomed` — a table whose rows must refer to rows that all go.
* `Data.Sql.rows_deleteCascade` — the rows of a table after the deletion.
-/

namespace Data.Sql

/-- The row goes: it is chosen, or it refers to one that goes. -/
inductive Doomed (db : Database) (chosen : String → Row → Bool) : String → Row → Prop
  | chosen {name : String} {r : Row} (h : chosen name r = true) : Doomed db chosen name r
  | follows {T P : Table} {c : Column} {r s : Row} (hT : T ∈ db.tables) (hc : c ∈ T.columns)
      (hP : P ∈ db.tables) (href : c.references = some P.name) (hs : s ∈ db.rows P.name)
      (hkey : s P.key = r c.name) (hnull : r c.name ≠ .null) (up : Doomed db chosen P.name s) :
      Doomed db chosen T.name r

/-- The rows that go after a number of rounds. -/
def Database.doomed (db : Database) (chosen : String → Row → Bool) : ℕ → String → Row → Bool
  | 0, name, r => chosen name r
  | n + 1, name, r => chosen name r || db.tables.any fun T => decide (T.name = name) &&
      T.columns.any fun c => decide (r c.name ≠ .null) && db.tables.any fun P =>
        decide (c.references = some P.name) && (db.rows P.name).any fun s =>
          decide (s P.key = r c.name) && db.doomed chosen n P.name s

/-- `DELETE FROM ... WHERE chosen`, with what goes along. -/
def Database.deleteCascade (db : Database) (chosen : String → Row → Bool) : Database :=
  ⟨db.tables, fun name => (db.rows name).filter fun r =>
    !db.doomed chosen db.tables.length name r⟩

/-- References go up a hierarchy of at most as many levels as there are tables. -/
structure Ranked (tables : List Table) (rank : String → ℕ) : Prop where
  up : ∀ T ∈ tables, ∀ c ∈ T.columns, ∀ p, c.references = some p → rank p < rank T.name
  bounded : ∀ T ∈ tables, rank T.name ≤ tables.length

variable {db : Database} {chosen : String → Row → Bool} {rank : String → ℕ} {name : String}
  {r : Row} {T P : Table} {c : Column} {n : ℕ}

/-- What one round adds. -/
lemma doomed_succ : db.doomed chosen (n + 1) name r = true ↔ chosen name r = true ∨
    ∃ T ∈ db.tables, T.name = name ∧ ∃ c ∈ T.columns, r c.name ≠ .null ∧
      ∃ P ∈ db.tables, c.references = some P.name ∧
        ∃ s ∈ db.rows P.name, s P.key = r c.name ∧ db.doomed chosen n P.name s = true := by
  simp only [Database.doomed, Bool.or_eq_true, List.any_eq_true, Bool.and_eq_true,
    decide_eq_true_eq]

/-- **A row that goes** is found in as many rounds as its table is high up. -/
lemma doomed_iff (hrank : Ranked db.tables rank) (hn : rank name ≤ n) :
    db.doomed chosen n name r = true ↔ Doomed db chosen name r := by
  constructor
  · intro h
    induction n generalizing name r with
    | zero => exact .chosen h
    | succ n ih =>
      rcases doomed_succ.mp h with hchosen |
        ⟨T, hT, rfl, c, hc, hnull, P, hP, href, s, hs, hkey, hup⟩
      · exact .chosen hchosen
      · have hlt := hrank.up T hT c hc P.name href
        exact .follows hT hc hP href hs hkey hnull (ih (by omega) hup)
  · intro h
    induction h generalizing n with
    | chosen h =>
      cases n with
      | zero => exact h
      | succ n => exact doomed_succ.mpr (.inl h)
    | @follows T P c r s hT hc hP href hs hkey hnull _ ih =>
      have hlt := hrank.up T hT c hc P.name href
      obtain ⟨m, rfl⟩ : ∃ m, n = m + 1 := ⟨n - 1, by omega⟩
      exact doomed_succ.mpr
        (.inr ⟨T, hT, rfl, c, hc, hnull, P, hP, href, s, hs, hkey, ih (by omega)⟩)

/-- **Which rows stay.** -/
lemma mem_deleteCascade (hrank : Ranked db.tables rank) (hT : T ∈ db.tables) :
    r ∈ (db.deleteCascade chosen).rows T.name ↔
      r ∈ db.rows T.name ∧ ¬Doomed db chosen T.name r := by
  rw [← doomed_iff hrank (hrank.bounded T hT)]
  simp [Database.deleteCascade]

/-- **A deletion that cascades leaves no reference behind**, and breaks no other rule. -/
lemma Sound.deleteCascade (h : Sound db) (hrank : Ranked db.tables rank) :
    Sound (db.deleteCascade chosen) := by
  refine ⟨h.names, h.formed, fun n hn => ?_, fun T hT r hr => ?_, fun T hT => ?_⟩
  · simp [Database.deleteCascade, h.absent n hn]
  · obtain ⟨hr, hstays⟩ := (mem_deleteCascade hrank hT).mp hr
    have hfits := h.fits T hT r hr
    refine ⟨hfits.key, hfits.accepts, fun c hc p hp => ?_, hfits.stored, hfits.beyond⟩
    rcases hfits.refers c hc p hp with hnull | ⟨P, hP, rfl, s, hs, hkey⟩
    · exact .inl hnull
    · by_cases hnull : r c.name = .null
      · exact .inl hnull
      · refine .inr ⟨P, hP, rfl, s, (mem_deleteCascade hrank hP).mpr ⟨hs, fun hup => ?_⟩, hkey⟩
        exact hstays (.follows hT hc hP hp hs hkey hnull hup)
  · exact (h.distinct T hT).filter _

/-- A table whose rows must refer to rows of a table that all go. -/
lemma all_doomed (h : Sound db) (hT : T ∈ db.tables) (hc : c ∈ T.columns) (hP : P ∈ db.tables)
    (href : c.references = some P.name) (hrequired : c.notNull = true)
    (hall : ∀ s ∈ db.rows P.name, Doomed db chosen P.name s) :
    ∀ r ∈ db.rows T.name, Doomed db chosen T.name r := by
  intro r hr
  have hfits := h.fits T hT r hr
  have hnull : r c.name ≠ .null := by
    have haccepts := hfits.accepts c hc
    simp only [Column.accepts, hrequired, Bool.not_true, Bool.false_or, Bool.and_eq_true,
      decide_eq_true_eq] at haccepts
    exact haccepts.1
  rcases hfits.refers c hc P.name href with hisNull | ⟨P', hP', hname, s, hs, hkey⟩
  · exact absurd hisNull hnull
  · obtain rfl := List.inj_on_of_nodup_map h.names hP' hP hname
    exact .follows hT hc hP' href hs hkey hnull (hall s hs)

/-- Nothing goes above the tables that rows are chosen from, and in these only what is chosen. -/
lemma doomed_iff_chosen (level : ℕ) (hrank : Ranked db.tables rank)
    (hchosen : ∀ name r, chosen name r = true → level ≤ rank name) (hname : rank name ≤ level) :
    Doomed db chosen name r ↔ chosen name r = true := by
  have hlevel : ∀ {name r}, Doomed db chosen name r → level ≤ rank name := by
    intro name r hdoomed
    induction hdoomed with
    | chosen h => exact hchosen _ _ h
    | follows hT hc _ href _ _ _ _ ih =>
      exact Nat.le_of_lt (Nat.lt_of_le_of_lt ih (hrank.up _ hT _ hc _ href))
  refine ⟨fun hdoomed => ?_, .chosen⟩
  cases hdoomed with
  | chosen h => exact h
  | follows hT hc _ href _ _ _ hup =>
    have hlt := hrank.up _ hT _ hc _ href
    have hle := hlevel hup
    omega

/-- The rows of a table after the deletion, by what goes. -/
lemma rows_deleteCascade (hrank : Ranked db.tables rank) (hname : rank name ≤ db.tables.length)
    (stays : Row → Bool) (hstays : ∀ r ∈ db.rows name, Doomed db chosen name r ↔ stays r = false) :
    (db.deleteCascade chosen).rows name = (db.rows name).filter stays := by
  refine List.filter_congr fun r hr => ?_
  rw [Bool.eq_iff_iff, Bool.not_eq_true', ← Bool.not_eq_true, doomed_iff hrank hname, hstays r hr,
    Bool.not_eq_false]

end Data.Sql
