import AirDrive.Data.Lines
import AirDrive.State.PathText
import AirDrive.System.Calls

set_option relaxedAutoImplicit false
set_option autoImplicit false

/-!
# The list of a bulk transfer

The initial transfer hands rclone the paths in a file, one a line and unescaped. rclone trims the
lines and skips blank ones and comments, so a path is left out, or another one is taken for it, when
its text is not such a line; the copy succeeds all the same, and the rows are recorded.

## Main definitions

* `AirDrive.BulkList.writeFilesFrom`, `AirDrive.BulkList.filesFrom` — writing the file and reading it.
* `AirDrive.BulkList.RoundTrips` — the list is read as it was written, and nothing else is recorded.

## Main results

* `AirDrive.BulkList.roundTrips_iff` — which lists survive.
-/

namespace AirDrive.BulkList

open Effect Data.Lines Initial Calls

/-- White space, as Go's `strings.TrimSpace` takes it. -/
def isSpace (c : Char) : Bool :=
  c ∈ ['\t', '\n', '\x0b', '\x0c', '\r', ' ', '\u0085', '\u00a0', '\u1680', '\u2000', '\u2001',
    '\u2002', '\u2003', '\u2004', '\u2005', '\u2006', '\u2007', '\u2008', '\u2009', '\u200a',
    '\u2028', '\u2029', '\u202f', '\u205f', '\u3000']

/-- What begins a comment. -/
def isComment (c : Char) : Bool := c ∈ ['#', ';']

/-- `write_files_from`: the body of the file. -/
def writeFilesFrom (relPaths : List RelPath) : List Char := join (relPaths.map RelPath.text)

/-- The paths that rclone reads in the file. -/
def filesFrom (body : List Char) : List (List Char) := entries isSpace isComment body

/-- The list is read as it was written; so what is recorded after the transfer, of the downloads and
of the uploads, was in the set that rclone transferred. -/
structure RoundTrips (paths : List RelPath) : Prop where
  list : filesFrom (writeFilesFrom paths) = paths.map RelPath.text
  downloads : ∀ ds : List (RemoteEntry × String), ds.map (fun d => d.1.relativePath) = paths →
    (Prog.forEach ds fun d => recordSyncedItem d.1.relativePath d.1.id d.1.size d.2).Only
      fun _ c => Records (fun new => new.relativePath.text ∈ filesFrom (writeFilesFrom paths)) c
  uploads : ∀ (ups : List Engine.BulkUpload) (fuel : ℕ) (root : FileId),
    ups.map (fun up => up.relPath) = paths → (recordUploads fuel root ups).Only
      fun _ c => Records (fun new => new.relativePath.text ∈ filesFrom (writeFilesFrom paths)) c

/-- What is recorded is in the list. -/
lemma roundTrips_of_list {paths : List RelPath}
    (h : filesFrom (writeFilesFrom paths) = paths.map RelPath.text) : RoundTrips paths := by
  refine ⟨h, fun ds hds => ?_, fun ups fuel root hups => ?_⟩
  · refine Prog.Only.forEach fun d hd => records_of_looks (looks_recordSyncedItem ?_)
    rw [h, ← hds]
    exact List.mem_map_of_mem (List.mem_map_of_mem hd)
  · refine records_of_looks (looks_recordUploads fun up hup id size md5 => ?_)
    rw [h, ← hups]
    exact List.mem_map_of_mem (List.mem_map_of_mem hup)

/-- **A bulk list survives** exactly when every path is one line, neither blank nor a comment, without
white space at its ends. -/
theorem roundTrips_iff (paths : List RelPath) :
    RoundTrips paths ↔ ∀ p ∈ paths, Entry isSpace isComment p.text := by
  have hlist : filesFrom (writeFilesFrom paths) = paths.map RelPath.text ↔
      ∀ p ∈ paths, Entry isSpace isComment p.text := by
    refine entries_join_iff.trans ?_
    simp
  exact ⟨fun h => hlist.mp h.list, fun h => roundTrips_of_list (hlist.mpr h)⟩

example : RoundTrips [["Photos", "été 2024.jpg"], ["a #1.txt"]] :=
  roundTrips_of_list (by decide +kernel)

/-- `#1.txt` is a safe name, and a comment. -/
theorem comment_left_out :
    ¬∀ paths : List RelPath, (∀ p ∈ paths, p ≠ [] ∧ ∀ x ∈ p, isSafeName x = true) →
      RoundTrips paths := by
  intro h
  have hlist := (h [["#1.txt"]] (by decide +kernel)).list
  exact absurd hlist (by decide +kernel)

end AirDrive.BulkList
