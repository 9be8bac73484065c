import AirDrive.World

set_option relaxedAutoImplicit false
set_option autoImplicit false

/-!
# Conflicts

When both sides of a file changed, the local version is renamed to a conflict name, the remote
version keeps the canonical one, and the pair is recorded.

## Main definitions

* `AirDrive.Conflict.formatIsoZ`, `AirDrive.Conflict.civilFromDays` — the time stamp.
* `AirDrive.Conflict.conflictPathFor` — the conflict name of a path.
* `AirDrive.Conflict.openConflict`, `AirDrive.Conflict.cleanupOnLocalDelete`.
-/

namespace AirDrive.Conflict

open Effect

/-- `civil_from_days`: year, month and day of a count of days since 1970-01-01. -/
def civilFromDays (daysSinceEpoch : ℤ) : ℤ × ℕ × ℕ :=
  let z := daysSinceEpoch + 719468
  let era := z / 146097
  let doe := (z - era * 146097).toNat
  let yoe := (doe - doe / 1460 + doe / 36524 - doe / 146096) / 365
  let y := (yoe : ℤ) + era * 400
  let doy := doe - (365 * yoe + yoe / 4 - yoe / 100)
  let mp := (5 * doy + 2) / 153
  let d := doy - (153 * mp + 2) / 5 + 1
  let m := if mp < 10 then mp + 3 else mp - 9
  (if m ≤ 2 then y + 1 else y, m, d)

/-- A natural number in decimal, padded with zeros to `width`. -/
def pad (width n : ℕ) : List Char :=
  let digits := Nat.toDigits 10 n
  List.replicate (width - digits.length) '0' ++ digits

/-- An integer in decimal, padded with zeros to `width`, the sign counting. -/
def padInt (width : ℕ) : ℤ → List Char
  | .ofNat n => pad width n
  | .negSucc n => '-' :: pad (width - 1) (n + 1)

/-- `format_iso_z`: a Unix time as `YYYYMMDDTHHMMSSZ`. -/
def formatIsoZ (unixSecs : ℤ) : String :=
  let days := unixSecs / 86400
  let secsOfDay := (unixSecs % 86400).toNat
  let (year, month, day) := civilFromDays days
  String.ofList (padInt 4 year ++ pad 2 month ++ pad 2 day ++ ['T'] ++ pad 2 (secsOfDay / 3600) ++
    pad 2 (secsOfDay / 60 % 60) ++ pad 2 (secsOfDay % 60) ++ ['Z'])

/-- `rsplit_once('.')`: what is before and after the last dot. -/
def rsplitDot (name : String) : Option (String × String) :=
  let back := name.toList.reverse
  match back.dropWhile (· ≠ '.') with
  | [] => none
  | _ :: stem => some (String.ofList stem.reverse, String.ofList (back.takeWhile (· ≠ '.')).reverse)

/-- `conflict_path_for`: `doc.txt` becomes `doc.conflict-20260518T093000Z.txt`. -/
def conflictPathFor (canonical : RelPath) (unixNow : ℤ) : RelPath :=
  let fileName := canonical.getLastD "file"
  let ts := formatIsoZ unixNow
  let newName := match rsplitDot fileName with
    | some (stem, ext) =>
      if stem ≠ "" then stem ++ ".conflict-" ++ ts ++ "." ++ ext
      else fileName ++ ".conflict-" ++ ts
    | none => fileName ++ ".conflict-" ++ ts
  canonical.dropLast ++ [newName]

/-- The two parts and the dot make up the name. -/
lemma length_rsplitDot {name stem ext : String} (h : rsplitDot name = some (stem, ext)) :
    name.length = stem.length + ext.length + 1 := by
  have hsplit := List.takeWhile_append_dropWhile (p := (· ≠ '.')) (l := name.toList.reverse)
  simp only [rsplitDot] at h
  split at h
  · cases h
  · next c rest hdrop =>
    obtain ⟨rfl, rfl⟩ := Prod.mk.inj (Option.some.inj h)
    have hlen := congrArg List.length hsplit
    simp only [hdrop, List.length_append, List.length_cons, List.length_reverse,
      String.length_toList] at hlen
    simp only [String.length_ofList, List.length_reverse]
    omega

/-- The conflict name is longer than the canonical one. -/
lemma conflictPathFor_spec (canonical : RelPath) (now : ℤ) :
    ∃ name, conflictPathFor canonical now = canonical.dropLast ++ [name] ∧
      (canonical.getLastD "file").length < name.length := by
  refine ⟨_, rfl, ?_⟩
  have hmark : ".conflict-".length = 10 := by decide
  split
  · next stem ext hsplit =>
    have hlen := length_rsplitDot hsplit
    split_ifs <;> simp only [String.length_append] <;> omega
  · simp only [String.length_append]
    omega

/-- The conflict path lies beside the canonical one. -/
lemma conflictPathFor_beside {p : RelPath} (hp : p ≠ []) (now : ℤ) :
    (conflictPathFor p now).dropLast = p.dropLast ∧ ¬p <+: conflictPathFor p now := by
  obtain ⟨name, hq, hlen⟩ := conflictPathFor_spec p now
  refine ⟨by simp [hq], fun hpre => ?_⟩
  have heq : p = conflictPathFor p now := by
    refine hpre.eq_of_length ?_
    have := List.length_pos_iff.mpr hp
    rw [hq]
    simp
    omega
  have hlast : p.getLastD "file" = name := by
    rw [heq.trans hq]
    simp
  exact absurd hlen (by rw [hlast]; exact lt_irrefl _)

/-- Rename the local version to its conflict path; a file that is already gone is no error. -/
def moveAside (canonical conflict : RelPath) : Task Unit := do
  if ← io (.pathExists canonical) then
    match ← io (.rename canonical conflict) with
    | .ok () => pure ()
    | .error _ => .fail (.mapping "rename to the conflict path failed")
  else pure ()

/-- `open_conflict`: rename the local file to its conflict path and record the pair. -/
def openConflict (item : ItemId) (canonical : RelPath) (now : ℕ) : Task RelPath := do
  let conflict := conflictPathFor canonical now
  moveAside canonical conflict
  let _ ← sqlTry (.insertConflict item canonical conflict now)
  pure conflict

/-- `cleanup_on_local_delete`: drop the open conflicts that the deleted path is a side of. -/
def cleanupOnLocalDelete (rel : RelPath) : Task Unit := do
  let rows ← sql .listUnresolved
  .forEach rows fun row =>
    if row.originalRelativePath = rel ∨ row.conflictRelativePath = rel then
      sql (.deleteConflict row.id)
    else pure ()

end AirDrive.Conflict
