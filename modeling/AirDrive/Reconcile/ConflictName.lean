import Mathlib.Data.List.TakeWhile
import AirDrive.Reconcile.Stamp

set_option relaxedAutoImplicit false
set_option autoImplicit false

/-!
# The names of conflicts

`conflict_path_for` puts the time stamp before the extension of a name, or behind a name without
one. No two names meet: the last dot of a conflict name is before the extension or before the mark,
and the stamp has no dot.

## Main results

* `AirDrive.Conflict.rsplitDot_eq_some` — the parts of a name at its last dot.
* `AirDrive.Conflict.newName_inj` — the name and the time can be read off a conflict name.
* `AirDrive.Conflict.conflict_names_injective` — so can they off a conflict path, which lies in the
  same directory and keeps the extension.
-/

namespace AirDrive.Conflict

variable {name stem ext : String} {s t : ℤ}

/-! ## The last dot -/

/-- **The parts of a name** at its last dot. -/
lemma rsplitDot_eq_some :
    rsplitDot name = some (stem, ext) ↔ name = stem ++ "." ++ ext ∧ '.' ∉ ext.toList := by
  constructor
  · intro h
    have hsplit := List.takeWhile_append_dropWhile (p := (· ≠ '.')) (l := name.toList.reverse)
    have hbefore := fun c hc => @List.mem_takeWhile_imp _ (· ≠ '.') name.toList.reverse c hc
    have hhead := List.head?_dropWhile_not (· ≠ '.') name.toList.reverse
    simp only [rsplitDot] at h
    split at h
    · cases h
    · next c rest hdrop =>
      obtain ⟨rfl, rfl⟩ := Prod.mk.inj (Option.some.inj h)
      rw [hdrop] at hsplit hhead
      have hdot : c = '.' := by simpa using hhead
      refine ⟨?_, fun hmem => ?_⟩
      · refine String.toList_injective ?_
        have hname := congrArg List.reverse hsplit
        rw [List.reverse_reverse] at hname
        exact hname.symm.trans (by simp [hdot])
      · simp only [String.toList_ofList, List.mem_reverse] at hmem
        simpa using hbefore _ hmem
  · rintro ⟨rfl, hext⟩
    have hback : (stem ++ "." ++ ext).toList.reverse =
        ext.toList.reverse ++ '.' :: stem.toList.reverse := by simp
    have hpos : ∀ c ∈ ext.toList.reverse, decide (c ≠ '.') = true := fun c hc => by
      simp only [decide_eq_true_eq]
      rintro rfl
      exact hext (List.mem_reverse.mp hc)
    simp only [rsplitDot, hback, List.dropWhile_append_of_pos hpos, List.takeWhile_append_of_pos hpos]
    simp

/-! ## Conflict names -/

/-- The new name in `conflict_path_for`. -/
def newName (fileName : String) (unixNow : ℤ) : String :=
  match rsplitDot fileName with
  | some (stem, ext) =>
    if stem ≠ "" then stem ++ ".conflict-" ++ formatIsoZ unixNow ++ "." ++ ext
    else fileName ++ ".conflict-" ++ formatIsoZ unixNow
  | none => fileName ++ ".conflict-" ++ formatIsoZ unixNow

lemma conflictPathFor_append (dir : RelPath) (name : String) (now : ℤ) :
    conflictPathFor (dir ++ [name]) now = dir ++ [newName name now] := by
  simp only [conflictPathFor, List.dropLast_concat, List.getLastD_concat]
  rfl

/-- **The two shapes**: the mark goes before the extension, or behind a name without one. -/
lemma newName_cases (name : String) (now : ℤ) :
    (∃ stem ext, rsplitDot name = some (stem, ext) ∧ stem ≠ "" ∧
      newName name now = stem ++ "." ++ ("conflict-" ++ formatIsoZ now) ++ "." ++ ext) ∨
      (∀ stem ext, rsplitDot name = some (stem, ext) → stem = "") ∧
        newName name now = name ++ "." ++ ("conflict-" ++ formatIsoZ now) := by
  have hmark : ∀ x : String, x ++ ".conflict-" ++ formatIsoZ now =
      x ++ "." ++ ("conflict-" ++ formatIsoZ now) := fun x => by
    rw [show ".conflict-" = "." ++ "conflict-" from rfl]
    simp only [String.append_assoc]
  unfold newName
  cases hsplit : rsplitDot name with
  | none => exact .inr ⟨fun _ _ h => (by cases h), hmark name⟩
  | some parts =>
    obtain ⟨stem, ext⟩ := parts
    by_cases hstem : stem = ""
    · refine .inr ⟨fun stem' ext' h => ?_, ?_⟩
      · obtain ⟨rfl, -⟩ := Prod.mk.inj (Option.some.inj h)
        exact hstem
      · simp only [hstem, ne_eq, not_true_eq_false, if_false]
        exact hmark name
    · refine .inl ⟨stem, ext, rfl, hstem, ?_⟩
      simp only [ne_eq, hstem, not_false_eq_true, if_true, hmark]

/-- A name has one last dot. -/
lemma last_dot_inj {x y x' y' : String} (hy : '.' ∉ y.toList) (hy' : '.' ∉ y'.toList)
    (h : x ++ "." ++ y = x' ++ "." ++ y') : x = x' ∧ y = y' := by
  have hleft : rsplitDot (x ++ "." ++ y) = some (x, y) := rsplitDot_eq_some.mpr ⟨rfl, hy⟩
  have hright := rsplitDot_eq_some.mpr ⟨h, hy'⟩
  exact Prod.mk.inj (Option.some.inj (hleft.symm.trans hright))

/-- The mark has no dot. -/
lemma dot_notMem_mark (h : 0 ≤ yearOf s) : '.' ∉ ("conflict-" ++ formatIsoZ s).toList := by
  rw [String.toList_append, List.mem_append]
  exact not_or.mpr ⟨by decide, dot_notMem_formatIsoZ h⟩

lemma mark_inj (hs : 0 ≤ yearOf s ∧ yearOf s ≤ 9999) (ht : 0 ≤ yearOf t ∧ yearOf t ≤ 9999)
    (h : "conflict-" ++ formatIsoZ s = "conflict-" ++ formatIsoZ t) : s = t :=
  formatIsoZ_inj hs ht ((String.append_right_inj _).mp h)

/-- A name with a stem and an extension does not meet a name without. -/
lemma newName_apart {b stem ext : String} (hs : 0 ≤ yearOf s) (ht : 0 ≤ yearOf t)
    (hext : '.' ∉ ext.toList) (hstem : stem ≠ "")
    (hb : ∀ stem' ext', rsplitDot b = some (stem', ext') → stem' = "") :
    stem ++ "." ++ ("conflict-" ++ formatIsoZ s) ++ "." ++ ext ≠
      b ++ "." ++ ("conflict-" ++ formatIsoZ t) := by
  intro h
  obtain ⟨hname, -⟩ := last_dot_inj hext (dot_notMem_mark ht) h
  exact hstem (hb _ _ (rsplitDot_eq_some.mpr ⟨hname.symm, dot_notMem_mark hs⟩))

/-- **The name and the time** can be read off a conflict name. -/
lemma newName_inj {a b : String} (hs : 0 ≤ yearOf s ∧ yearOf s ≤ 9999)
    (ht : 0 ≤ yearOf t ∧ yearOf t ≤ 9999) (h : newName a s = newName b t) : a = b ∧ s = t := by
  obtain ⟨stem, ext, ha, hstem, hna⟩ | ⟨ha, hna⟩ := newName_cases a s <;>
    obtain ⟨stem', ext', hb, hstem', hnb⟩ | ⟨hb, hnb⟩ := newName_cases b t <;>
    rw [hna, hnb] at h
  · obtain ⟨rfl, hext⟩ := rsplitDot_eq_some.mp ha
    obtain ⟨rfl, hext'⟩ := rsplitDot_eq_some.mp hb
    obtain ⟨hbefore, rfl⟩ := last_dot_inj hext hext' h
    obtain ⟨rfl, hmark⟩ := last_dot_inj (dot_notMem_mark hs.1) (dot_notMem_mark ht.1) hbefore
    exact ⟨rfl, mark_inj hs ht hmark⟩
  · exact absurd h (newName_apart hs.1 ht.1 (rsplitDot_eq_some.mp ha).2 hstem hb)
  · exact absurd h.symm (newName_apart ht.1 hs.1 (rsplitDot_eq_some.mp hb).2 hstem' ha)
  · obtain ⟨rfl, hmark⟩ := last_dot_inj (dot_notMem_mark hs.1) (dot_notMem_mark ht.1) h
    exact ⟨rfl, mark_inj hs ht hmark⟩

/-- **Conflict names are injective.** In one directory the conflict path determines the name and
the time; it is another path of the same directory, and what is behind the last dot of a name stays
behind the last dot, when there is a stem before it. -/
theorem conflict_names_injective (dir : RelPath) :
    (∀ a b s t, 0 ≤ yearOf s ∧ yearOf s ≤ 9999 → 0 ≤ yearOf t ∧ yearOf t ≤ 9999 →
      conflictPathFor (dir ++ [a]) s = conflictPathFor (dir ++ [b]) t → a = b ∧ s = t) ∧
      ∀ a s, ∃ name, conflictPathFor (dir ++ [a]) s = dir ++ [name] ∧ name ≠ a ∧
        ∀ stem ext, a = stem ++ "." ++ ext → '.' ∉ ext.toList → stem ≠ "" →
          ∃ stem', name = stem' ++ "." ++ ext := by
  refine ⟨fun a b s t hs ht h => ?_, fun a s => ⟨newName a s, conflictPathFor_append dir a s, ?_,
    fun stem ext ha hext hstem => ?_⟩⟩
  · rw [conflictPathFor_append, conflictPathFor_append] at h
    exact newName_inj hs ht (List.singleton_inj.mp (List.append_cancel_left h))
  · intro h
    obtain ⟨name, hpath, hlonger⟩ := conflictPathFor_spec (dir ++ [a]) s
    rw [conflictPathFor_append, List.dropLast_concat, h] at hpath
    obtain rfl := List.singleton_inj.mp (List.append_cancel_left hpath)
    rw [List.getLastD_concat] at hlonger
    exact absurd hlonger (lt_irrefl _)
  · have hsplit := rsplitDot_eq_some.mpr ⟨ha, hext⟩
    obtain ⟨stem', ext', hsplit', -, hname⟩ | ⟨hnone, -⟩ := newName_cases a s
    · obtain ⟨rfl, rfl⟩ := Prod.mk.inj (Option.some.inj (hsplit.symm.trans hsplit'))
      exact ⟨_, hname⟩
    · exact absurd (hnone _ _ hsplit) hstem

/-- A name, and the conflict name of its stem: their conflict names differ, and keep `txt`. -/
theorem conflict_of_conflict_apart :
    (conflictPathFor ["d", "a.txt"] 0 = conflictPathFor ["d", "a.conflict-19700101T000000Z.txt"] 0 →
      "a.txt" = "a.conflict-19700101T000000Z.txt" ∧ (0 : ℤ) = 0) ∧
      ∃ name, conflictPathFor ["d", "a.txt"] 0 = ["d", name] ∧ name ≠ "a.txt" ∧
        ∃ stem', name = stem' ++ "." ++ "txt" := by
  obtain ⟨hinj, hbeside⟩ := conflict_names_injective ["d"]
  obtain ⟨name, hpath, hne, hext⟩ := hbeside "a.txt" 0
  exact ⟨hinj _ _ 0 0 (by decide) (by decide), name, hpath, hne,
    hext "a" "txt" rfl (by decide) (by decide)⟩

end AirDrive.Conflict
