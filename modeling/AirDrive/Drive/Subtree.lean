import AirDrive.Drive.Service

set_option relaxedAutoImplicit false
set_option autoImplicit false

/-!
# The objects in a folder

The poller finds the path of an object by its first parent, the first parent of that, and so on.
The tree of a folder is made of the live objects that reach the folder on this way. When the
folder gets another name, its tree is the same.

## Main definitions

* `AirDrive.InFolder` — the objects in the tree of a folder, by their paths in it.
* `AirDrive.Drive.renamed` — the folder has another name.

## Main results

* `AirDrive.inFolder_renamed` — renaming the folder changes nothing in its tree.
-/

namespace AirDrive

open Data

/-- The live object `f` is in the tree of the folder `n`, at a path from it: each folder on the way
is live and the first parent of the next object. The folder itself is at the empty path. -/
inductive InFolder (d : Drive) (n : ℕ) : RelPath → DriveFile → Prop
  | self {g : DriveFile} (mem : g ∈ d.files) (num : g.num = n) (live : g.trashed = false)
      (folder : g.mimeType = folderMime) : InFolder d n [] g
  | child {rel : RelPath} {g f : DriveFile} (above : InFolder d n rel g)
      (folder : g.mimeType = folderMime) (mem : f ∈ d.files)
      (parent : f.parents.head? = some g.num) (live : f.trashed = false) (other : f.num ≠ n) :
      InFolder d n (rel ++ [f.name]) f

namespace InFolder

variable {d : Drive} {n : ℕ} {rel : RelPath} {f : DriveFile}

lemma mem (h : InFolder d n rel f) : f ∈ d.files := by
  cases h with
  | self mem => exact mem
  | child _ _ mem => exact mem

lemma live (h : InFolder d n rel f) : f.trashed = false := by
  cases h with
  | self _ _ live => exact live
  | child _ _ _ _ live => exact live

/-- Only the folder itself is at the empty path. -/
lemma nil_iff (h : InFolder d n rel f) : rel = [] ↔ f.num = n := by
  cases h with
  | self _ num => exact ⟨fun _ => num, fun _ => rfl⟩
  | child _ _ _ _ _ other => exact ⟨fun heq => by simp at heq, fun heq => absurd heq other⟩

lemma folder (h : InFolder d n rel f) (hnil : rel = []) : f.mimeType = folderMime := by
  cases h with
  | self _ _ _ folder => exact folder
  | child => simp at hnil

/-- Every other object is in a folder of the tree. -/
lemma above (h : InFolder d n rel f) (hne : rel ≠ []) : ∃ g, InFolder d n rel.dropLast g ∧
    g.mimeType = folderMime ∧ f.parents.head? = some g.num ∧ rel = rel.dropLast ++ [f.name] := by
  cases h with
  | self => exact absurd rfl hne
  | @child rel' g f above folder _ parent =>
    refine ⟨g, by simpa using above, folder, parent, by simp⟩

/-- An object is at one path. -/
lemma unique {rel' : RelPath} (h : InFolder d n rel f) (h' : InFolder d n rel' f) : rel = rel' := by
  induction h generalizing rel' with
  | self _ num => exact (h'.nil_iff.mpr num).symm
  | child above _ _ parent _ other ih =>
    have hne : rel' ≠ [] := fun hnil => other (h'.nil_iff.mp hnil)
    obtain ⟨g, hg, -, hparent, hrel⟩ := h'.above hne
    have hsame := d.files.key_inj hg.mem above.mem (Option.some.inj (hparent.symm.trans parent))
    rw [hrel, ih (hsame ▸ hg)]

end InFolder

/-! ## Renaming the folder -/

/-- The folder `n` gets another name from another client. -/
def Drive.renamed (md5 : List UInt8 → String) (d : Drive) (n : ℕ) (name : String) : Drive :=
  (DriveCall.run md5 (.patchFile (.id n) name none) d).2

/-- The object before its folder was renamed, and after it. -/
def Relabeled (n : ℕ) (name : String) (f f' : DriveFile) : Prop :=
  f.num ≠ n ∧ f' = f ∨ f.num = n ∧ f' = { f with name := name }

section Renamed

variable {md5 : List UInt8 → String} {d : Drive} {n : ℕ} {name : String} {rel : RelPath}
  {f f' : DriveFile}

lemma mem_renamed (h : f' ∈ (d.renamed md5 n name).files) :
    ∃ f ∈ d.files, Relabeled n name f f' := by
  simp only [Drive.renamed, DriveCall.run, DriveCall.onFile] at h
  split at h
  · next hnone =>
    refine ⟨f', h, .inl ⟨?_, rfl⟩⟩
    exact Serial.get_eq_none.mp hnone f' h
  · next g hg =>
    obtain ⟨-, hnum⟩ := Serial.get_eq_some.mp hg
    have hnum : g.num = n := hnum
    rcases (@Serial.mem_modify DriveFile _ d.files g.num
      (fun x : DriveFile => { x with name := name }) (fun _ => rfl) f').mp h with ⟨hf, hne⟩ | ⟨s, hs, hsame, rfl⟩
    · exact ⟨f', hf, .inl ⟨hnum ▸ hne, rfl⟩⟩
    · exact ⟨s, hs, .inr ⟨hsame.trans hnum, rfl⟩⟩

/-- **Renaming the folder** changes nothing in its tree. -/
lemma inFolder_renamed (h : InFolder (d.renamed md5 n name) n rel f') :
    ∃ f, InFolder d n rel f ∧ Relabeled n name f f' := by
  induction h with
  | self mem num live folder =>
    obtain ⟨f, hf, ⟨hne, rfl⟩ | ⟨hnum, rfl⟩⟩ := mem_renamed mem
    · exact absurd num hne
    · exact ⟨f, .self hf hnum live folder, .inr ⟨hnum, rfl⟩⟩
  | @child _ g' f' _ folder mem parent live other ih =>
    obtain ⟨g, hg, hrelabel⟩ := ih
    have hsame : g.num = g'.num ∧ g.mimeType = g'.mimeType := by
      rcases hrelabel with ⟨-, rfl⟩ | ⟨-, rfl⟩ <;> exact ⟨rfl, rfl⟩
    obtain ⟨f, hf, ⟨hne, rfl⟩ | ⟨hnum, rfl⟩⟩ := mem_renamed mem
    · exact ⟨_, .child hg (hsame.2.trans folder) hf (hsame.1 ▸ parent) live other, .inl ⟨hne, rfl⟩⟩
    · exact absurd hnum other

end Renamed

end AirDrive
