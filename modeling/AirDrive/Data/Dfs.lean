import Mathlib.Tactic.Lemma
import Mathlib.Data.List.Nodup
import Mathlib.Data.List.Perm.Basic

set_option relaxedAutoImplicit false
set_option autoImplicit false

/-!
# Depth-first exploration of a labelled graph

An exploration reads the labels at a node one after another and enters the node behind a label
unless that node has been entered before. Which way leads into a node therefore depends on the
order in which the labels are read, whereas the set of the nodes that are entered does not. The
start is not entered: a way that leads back to it enters it once.

## Main definitions

* `Data.Dfs.Leads`, `Data.Dfs.Simple` — a way through the graph, and one that passes no node twice.
* `Data.Dfs.Explores` — an exploration, with the ways that it enters in their order.
* `Data.Dfs.ahead` — the order that reads the labels of one way first.
* `Data.Dfs.room` — the number of nodes that are not entered yet.

## Main results

* `Data.Dfs.Explores.simple` — only simple ways are entered.
* `Data.Dfs.Explores.nodup` — no node is entered twice.
* `Data.Dfs.Explores.closed` — every node behind a label that is read has been entered.
* `Data.Dfs.Explores.enters_ahead` — every simple way is entered under the order that is `ahead`.
-/

namespace Data

namespace Dfs

variable {ν α : Type} {next : ν → α → Option ν} {order : List α → List α}

/-! ## Ways -/

/-- The nodes that a way passes after its start. -/
inductive Leads (next : ν → α → Option ν) : ν → List α → List ν → Prop
  | stop (v : ν) : Leads next v [] []
  | step {v u : ν} {x : α} {path : List α} {passed : List ν} (hx : next v x = some u)
      (h : Leads next u path passed) : Leads next v (x :: path) (u :: passed)

/-- A way from `v` to `u` that passes no node twice. -/
def Simple (next : ν → α → Option ν) (v : ν) (path : List α) (u : ν) : Prop :=
  ∃ passed, Leads next v path passed ∧ passed.getLast? = some u ∧ passed.Nodup

/-- A way passes the same nodes each time. -/
lemma Leads.unique {v : ν} {path : List α} {passed passed' : List ν}
    (h : Leads next v path passed) (h' : Leads next v path passed') : passed = passed' := by
  induction h generalizing passed' with
  | stop v =>
    cases h'
    rfl
  | step hx _ ih =>
    cases h' with
    | step hx' h' =>
      obtain rfl := Option.some.inj (hx.symm.trans hx')
      rw [ih h']

/-- A way falls into two. -/
lemma Leads.split {v : ν} {path rest : List α} {passed : List ν}
    (h : Leads next v (path ++ rest) passed) : ∃ first last, Leads next v path first ∧
      Leads next (first.getLastD v) rest last := by
  induction path generalizing v passed with
  | nil => exact ⟨[], passed, .stop v, h⟩
  | cons x path ih =>
    cases h with
    | @step _ u _ _ _ hx h =>
      obtain ⟨first, last, hfirst, hlast⟩ := ih h
      refine ⟨u :: first, last, .step hx hfirst, ?_⟩
      rwa [List.getLastD_cons]

/-! ## Explorations -/

/-- `Explores next order path v labels seen seen'`: at the node `v`, to which `path` leads, the
labels are read and the entered ways grow from `seen` to `seen'`. -/
inductive Explores (next : ν → α → Option ν) (order : List α → List α) :
    List α → ν → List α → List (List α × ν) → List (List α × ν) → Prop
  | done (path : List α) (v : ν) (seen : List (List α × ν)) :
      Explores next order path v [] seen seen
  | pass {path : List α} {v : ν} {x : α} {labels : List α} {seen seen' : List (List α × ν)}
      (hx : ∀ u, next v x = some u → u ∈ seen.map Prod.snd)
      (h : Explores next order path v labels seen seen') :
      Explores next order path v (x :: labels) seen seen'
  | enter {path : List α} {v u : ν} {x : α} {labels : List α} {seen mid seen' : List (List α × ν)}
      (hx : next v x = some u) (hu : u ∉ seen.map Prod.snd)
      (hin : Explores next order (path ++ [x]) u (order (path ++ [x]))
        (seen ++ [(path ++ [x], u)]) mid)
      (h : Explores next order path v labels mid seen') :
      Explores next order path v (x :: labels) seen seen'

namespace Explores

variable {path labels : List α} {v : ν} {seen seen' : List (List α × ν)}

/-- What has been entered stays entered. -/
lemma grows (h : Explores next order path v labels seen seen') : seen ⊆ seen' := by
  induction h with
  | done => exact List.Subset.refl _
  | pass _ _ ih => exact ih
  | enter _ _ _ _ ihin ih =>
    exact fun q hq => ih (ihin (List.mem_append_left _ hq))

lemma grows_snd (h : Explores next order path v labels seen seen') {u : ν}
    (hu : u ∈ seen.map Prod.snd) : u ∈ seen'.map Prod.snd :=
  List.map_subset Prod.snd h.grows hu

/-- **Once**: no node is entered twice. -/
theorem nodup (h : Explores next order path v labels seen seen')
    (hseen : (seen.map Prod.snd).Nodup) : (seen'.map Prod.snd).Nodup := by
  induction h with
  | done => exact hseen
  | pass _ _ ih => exact ih hseen
  | enter _ hu _ _ ihin ih =>
    apply ih
    apply ihin
    rw [List.map_append, List.nodup_append]
    refine ⟨hseen, by simp, fun a ha b hb hab => hu ?_⟩
    rwa [hab, List.mem_singleton.mp hb] at ha

/-- A node is entered by one way only. -/
lemma way_inj (h : Explores next order path v labels [] seen') {p p' : List α} {u : ν}
    (hp : (p, u) ∈ seen') (hp' : (p', u) ∈ seen') : p = p' := by
  have hone := List.inj_on_of_nodup_map (h.nodup (by simp)) hp hp' rfl
  exact congrArg Prod.fst hone

/-- Every way that is entered leads on from the node that is read, through nodes that had not
been entered, and passes none of them twice. -/
lemma simple_from (h : Explores next order path v labels seen seen') :
    ∀ q ∈ seen', q ∉ seen → ∃ rest passed, q.1 = path ++ rest ∧ Leads next v rest passed ∧
      passed.getLast? = some q.2 ∧ passed.Nodup ∧ ∀ w ∈ passed, w ∉ seen.map Prod.snd := by
  induction h with
  | done => exact fun q hq hnot => absurd hq hnot
  | pass _ _ ih => exact ih
  | @enter path v u x labels seen mid seen' hx hu hin _ ihin ih =>
    intro q hq hnot
    by_cases hmid : q ∈ mid
    · by_cases hself : q = (path ++ [x], u)
      · subst hself
        exact ⟨[x], [u], rfl, .step hx (.stop u), rfl, List.nodup_singleton u, by simpa using hu⟩
      · have hout : q ∉ seen ++ [(path ++ [x], u)] := by simp [hnot, hself]
        obtain ⟨rest, passed, hpath, hleads, hlast, hnodup, hfresh⟩ := ihin q hmid hout
        have hnew : ∀ w ∈ passed, w ∉ seen.map Prod.snd ∧ w ≠ u := by
          intro w hw
          simpa [not_or] using hfresh w hw
        refine ⟨x :: rest, u :: passed, by simpa using hpath, .step hx hleads, ?_, ?_, ?_⟩
        · cases passed with
          | nil => cases hlast
          | cons w passed => simpa [List.getLast?_cons_cons] using hlast
        · exact List.nodup_cons.mpr ⟨fun hmem => (hnew u hmem).2 rfl, hnodup⟩
        · intro w hw
          rcases List.mem_cons.mp hw with rfl | hw
          · exact hu
          · exact (hnew w hw).1
    · obtain ⟨rest, passed, hpath, hleads, hlast, hnodup, hfresh⟩ := ih q hq hmid
      refine ⟨rest, passed, hpath, hleads, hlast, hnodup, fun w hw hseen => hfresh w hw ?_⟩
      exact hin.grows_snd (by simpa using Or.inl hseen)

/-- **Only simple ways are entered.** -/
theorem simple (h : Explores next order [] v labels [] seen') {p : List α} {u : ν}
    (hp : (p, u) ∈ seen') : Simple next v p u := by
  obtain ⟨rest, passed, hpath, hleads, hlast, hnodup, -⟩ := h.simple_from _ hp (by simp)
  obtain rfl : p = rest := by simpa using hpath
  exact ⟨passed, hleads, hlast, hnodup⟩

/-- **Nothing is left out**: the node behind a label that is read has been entered, be it a label
of the node that is read or of one that is entered. -/
theorem closed (h : Explores next order path v labels seen seen') :
    (∀ x ∈ labels, ∀ u, next v x = some u → u ∈ seen'.map Prod.snd) ∧
      ∀ q ∈ seen', q ∉ seen → ∀ x ∈ order q.1, ∀ u, next q.2 x = some u →
        u ∈ seen'.map Prod.snd := by
  induction h with
  | done => exact ⟨by simp, fun q hq hnot => absurd hq hnot⟩
  | pass hx hrest ih =>
    refine ⟨fun y hy u hu => ?_, ih.2⟩
    rcases List.mem_cons.mp hy with rfl | hy
    · exact hrest.grows_snd (hx u hu)
    · exact ih.1 y hy u hu
  | @enter path v u x labels seen mid seen' hx hu hin hrest ihin ih =>
    have hself : (path ++ [x], u) ∈ mid := hin.grows (by simp)
    refine ⟨fun y hy w hw => ?_, fun q hq hnot y hy w hw => ?_⟩
    · rcases List.mem_cons.mp hy with rfl | hy
      · obtain rfl := Option.some.inj (hx.symm.trans hw)
        exact hrest.grows_snd (List.mem_map_of_mem hself)
      · exact ih.1 y hy w hw
    · by_cases hmid : q ∈ mid
      · apply hrest.grows_snd
        by_cases hq' : q = (path ++ [x], u)
        · subst hq'
          exact ihin.1 y hy w hw
        · exact ihin.2 q hmid (by simp [hnot, hq']) y hy w hw
      · exact ih.2 q hq hmid y hy w hw

/-- Every node that a way of read labels leads to has been entered. -/
theorem reaches (h : Explores next order [] v (order []) [] seen')
    (hlisted : ∀ q, q = ([], v) ∨ q ∈ seen' → ∀ x u, next q.2 x = some u → x ∈ order q.1)
    {rest : List α} {passed : List ν} (hleads : Leads next v rest passed) :
    ∀ u ∈ passed, u ∈ seen'.map Prod.snd := by
  suffices hgen : ∀ w rest passed, Leads next w rest passed → (w = v ∨ w ∈ seen'.map Prod.snd) →
      ∀ u ∈ passed, u ∈ seen'.map Prod.snd from hgen v rest passed hleads (.inl rfl)
  intro w rest passed hw
  induction hw with
  | stop => simp
  | @step w u x rest passed hx _ ih =>
    intro hin
    have hu : u ∈ seen'.map Prod.snd := by
      rcases hin with rfl | hin
      · exact h.closed.1 x (hlisted ([], w) (.inl rfl) x u hx) u hx
      · obtain ⟨q, hq, rfl⟩ := List.mem_map.mp hin
        exact h.closed.2 q hq (by simp) x (hlisted q (.inr hq) x u hx) u hx
    intro y hy
    rcases List.mem_cons.mp hy with rfl | hy
    · exact hu
    · exact ih (.inr hu) y hy

end Explores

/-! ## An order for a way -/

section Ahead

variable [DecidableEq α]

/-- A label that is listed, moved to the front. -/
def raise (x : α) (labels : List α) : List α :=
  if x ∈ labels then x :: labels.erase x else labels

lemma raise_perm (x : α) (labels : List α) : (raise x labels).Perm labels := by
  unfold raise
  split_ifs with h
  · exact (List.perm_cons_erase h).symm
  · exact List.Perm.refl labels

lemma raise_of_mem {x : α} {labels : List α} (h : x ∈ labels) :
    raise x labels = x :: labels.erase x := if_pos h

/-- The order that reads the labels of `way` first. -/
def ahead (way : List α) (order : List α → List α) (path : List α) : List α :=
  match way[path.length]? with
  | some x => raise x (order path)
  | none => order path

lemma ahead_perm (way : List α) (order : List α → List α) (path : List α) :
    (ahead way order path).Perm (order path) := by
  unfold ahead
  split
  · exact raise_perm _ _
  · exact List.Perm.refl _

lemma ahead_at (order : List α → List α) {path rest : List α} {x : α} (h : x ∈ order path) :
    ahead (path ++ x :: rest) order path = x :: (order path).erase x := by
  have hx : (path ++ x :: rest)[path.length]? = some x := by simp
  simp only [ahead, hx, raise_of_mem h]

/-- **Every simple way is entered** when its labels are read first, as long as each node lists
the labels behind which there is a node. -/
theorem Explores.enters_ahead {path rest : List α} {v u : ν} {passed : List ν}
    {seen seen' : List (List α × ν)} (hleads : Leads next v rest passed)
    (hlisted : ∀ r y s, path ++ rest = r ++ y :: s → y ∈ order r)
    (hlast : passed.getLast? = some u) (hnodup : passed.Nodup)
    (hfresh : ∀ w ∈ passed, w ∉ seen.map Prod.snd)
    (h : Explores next (ahead (path ++ rest) order) path v (ahead (path ++ rest) order path)
      seen seen') : (path ++ rest, u) ∈ seen' := by
  induction hleads generalizing path seen seen' with
  | stop => cases hlast
  | @step v w x rest passed hx hrest ih =>
    rw [ahead_at order (hlisted path x rest rfl)] at h
    obtain ⟨hw, hnodup⟩ := List.nodup_cons.mp hnodup
    cases h with
    | pass hpass _ => exact absurd (hpass w hx) (hfresh w (by simp))
    | @enter _ _ w' _ _ _ mid _ hx' _ hin hout =>
      obtain rfl := Option.some.inj (hx.symm.trans hx')
      apply hout.grows
      cases passed with
      | nil =>
        cases hrest
        obtain rfl : w = u := by simpa using hlast
        exact hin.grows (by simp)
      | cons y passed =>
        have happ : path ++ x :: rest = path ++ [x] ++ rest := by simp
        rw [happ] at hin hlisted ⊢
        refine ih hlisted (by simpa [List.getLast?_cons_cons] using hlast) hnodup ?_ hin
        intro z hz hmem
        rw [List.map_append, List.mem_append] at hmem
        rcases hmem with hmem | hmem
        · exact hfresh z (List.mem_cons_of_mem _ hz) hmem
        · obtain rfl : z = w := by simpa using hmem
          exact hw hz

end Ahead

/-! ## Room -/

section Room

variable [DecidableEq ν]

/-- The number of nodes of a list that are not entered yet. -/
def room (nodes : List ν) (seen : List (List α × ν)) : ℕ :=
  (nodes.filter fun u => u ∉ seen.map Prod.snd).length

lemma room_le_length (nodes : List ν) (seen : List (List α × ν)) :
    room nodes seen ≤ nodes.length := List.length_filter_le _ _

lemma room_le (nodes : List ν) {seen seen' : List (List α × ν)} (h : seen ⊆ seen') :
    room nodes seen' ≤ room nodes seen := by
  apply List.Sublist.length_le
  apply List.monotone_filter_right
  intro u hu
  simp only [decide_eq_true_eq] at hu ⊢
  exact fun hmem => hu (List.map_subset Prod.snd h hmem)

/-- Entering a node takes room. -/
lemma room_lt {nodes : List ν} {seen : List (List α × ν)} {path : List α} {u : ν}
    (hmem : u ∈ nodes) (hu : u ∉ seen.map Prod.snd) :
    room nodes (seen ++ [(path, u)]) < room nodes seen := by
  have hsub : ((nodes.filter fun w => w ∉ (seen ++ [(path, u)]).map Prod.snd)).Sublist
      (nodes.filter fun w => w ∉ seen.map Prod.snd) := by
    apply List.monotone_filter_right
    intro w hw
    simp only [List.map_append, List.mem_append, not_or, decide_eq_true_eq] at hw ⊢
    exact hw.1
  rcases Nat.lt_or_ge (room nodes (seen ++ [(path, u)])) (room nodes seen) with hlt | hge
  · exact hlt
  · have heq := hsub.eq_of_length_le hge
    have hin : u ∈ nodes.filter fun w => w ∉ seen.map Prod.snd := by
      simpa [hmem] using hu
    rw [← heq] at hin
    simp at hin

end Room

end Dfs

end Data
