import AirDrive.Data.Table
import AirDrive.Error
import AirDrive.State.Db

set_option relaxedAutoImplicit false
set_option autoImplicit false

/-!
# Google Drive

The Drive v3 service as the daemon's requests see it. The repository talks to it over HTTP and
carries its own stand-in for it (the mock of the integration suite); the service here follows
that stand-in: objects with one name, a list of parents and a trash flag, a feed of changes that
a page token indexes into, and the permission errors of files the user does not own. A listing
leaves trashed objects out, as its query asks.

## Main definitions

* `AirDrive.DriveFile`, `AirDrive.Drive` — objects and the service's state.
* `AirDrive.FileResource`, `AirDrive.RawChange` — the answers, as the client decodes them.
* `AirDrive.DriveCall`, `AirDrive.DriveCall.run` — the requests and what they do.
* `AirDrive.Fault`, `AirDrive.Remote` — the service behind a connection that can fail, before
  or after the request took effect.
-/

namespace AirDrive

open Data

/-- `FOLDER_MIME`. -/
def folderMime : String := "application/vnd.google-apps.folder"

/-- An object on Drive. -/
structure DriveFile where
  /-- The number of its id. -/
  num : ℕ
  /-- Display name. -/
  name : String
  /-- MIME type. -/
  mimeType : String
  /-- The bytes of a regular file; folders and native documents have none. -/
  content : Option (List UInt8)
  /-- The numbers of its parent folders, first one first. -/
  parents : List ℕ
  /-- Whether it is in the trash. -/
  trashed : Bool
  /-- Whether the user may trash or delete it. -/
  owned : Bool := true
  /-- Whether the user may remove it from their own folders. -/
  removable : Bool := true
deriving DecidableEq, Repr

/-- A `files` resource: an object as a response describes it. -/
structure FileResource where
  /-- Drive file id. -/
  id : FileId
  /-- Display name. -/
  name : String
  /-- MIME type. -/
  mimeType : String
  /-- Size in bytes, when Drive reports one. -/
  size : Option ℕ
  /-- `md5Checksum`; `none` for folders and native documents. -/
  md5 : Option String
  /-- Parent folder ids. -/
  parents : List FileId
  /-- Whether the object is in the trash. -/
  trashed : Bool
deriving DecidableEq, Repr

/-- `is_folder`. -/
def FileResource.isFolder (f : FileResource) : Bool := f.mimeType = folderMime

/-- An entry of `changes.list`. -/
structure RawChange where
  /-- The object that changed. -/
  fileId : FileId
  /-- Deleted for good, or no longer accessible. -/
  removed : Bool
  /-- The object, when it is there. -/
  file : Option FileResource
deriving DecidableEq, Repr

/-- The state of the service. -/
structure Drive where
  /-- The objects. -/
  files : Serial DriveFile.num
  /-- The user's My Drive folder, to which the alias `root` resolves. -/
  rootNum : ℕ
  /-- The change feed: which object changed, and whether it was removed. -/
  feed : List (ℕ × Bool)

namespace Drive

/-- The object an id names. -/
def resolve (d : Drive) : FileId → ℕ
  | .rootAlias => d.rootNum
  | .id n => n

/-- The object of an id. -/
def file (d : Drive) (id : FileId) : Option DriveFile := d.files.get (d.resolve id)

/-- An object as a response describes it. -/
def resource (md5 : List UInt8 → String) (f : DriveFile) : FileResource :=
  { id := .id f.num
    name := f.name
    mimeType := f.mimeType
    size := f.content.map List.length
    md5 := f.content.map md5
    parents := f.parents.map .id
    trashed := f.trashed }

/-- The error of a request for an object that does not exist. -/
def notFound : Error := .driveHttp 404 "File not found"

/-- The error of a change the user is not allowed to make. -/
def forbidden : Error := .driveHttp 403 insufficientFilePermissions

/-- Create an object in a folder. -/
def create (d : Drive) (parent : FileId) (name mimeType : String)
    (content : Option (List UInt8)) : Option DriveFile × Drive :=
  match d.file parent with
  | none => (none, d)
  | some p =>
    let mk (num : ℕ) : DriveFile :=
      { num, name, mimeType, content, parents := [p.num], trashed := false }
    (some (mk d.files.next),
      { d with files := d.files.push mk fun _ => rfl, feed := d.feed ++ [(d.files.next, false)] })

/-- Change an object in place. -/
def change (d : Drive) (num : ℕ) (f : DriveFile → DriveFile) (hf : ∀ x, (f x).num = x.num) :
    Drive :=
  { d with files := d.files.modify num f hf, feed := d.feed ++ [(num, false)] }

/-- Delete an object for good. -/
def remove (d : Drive) (num : ℕ) : Drive :=
  { d with files := d.files.keep fun x => x.num ≠ num, feed := d.feed ++ [(num, true)] }

/-- The live objects that have a folder among their parents. -/
def children (d : Drive) (num : ℕ) : List DriveFile :=
  d.files.table.rows.filter fun f => f.parents.contains num && !f.trashed

/-- The changes since a token: the entries after it, with the objects as they are now. -/
def changesSince (md5 : List UInt8 → String) (d : Drive) (token : PageToken) : List RawChange :=
  (d.feed.drop token).map fun e =>
    ⟨.id e.1, e.2, (d.files.get e.1).map (resource md5)⟩

end Drive

/-- The requests the daemon sends to Drive; a request that goes well answers an `α`. -/
inductive DriveCall : Type → Type
  /-- `GET files/id`: `get_file_raw`, `get_file`. -/
  | getFile (id : FileId) : DriveCall FileResource
  /-- `GET files`, all pages: `list_children`. -/
  | listChildren (parent : FileId) : DriveCall (List FileResource)
  /-- `POST files`: `create_folder`. -/
  | createFolder (parent : FileId) (name : String) : DriveCall FileResource
  /-- `POST upload files`: the first upload of a file. -/
  | uploadMultipart (parent : FileId) (name mimeType : String) (bytes : List UInt8) :
      DriveCall FileResource
  /-- `PATCH upload files/id`: replace the content. -/
  | patchMedia (id : FileId) (bytes : List UInt8) : DriveCall FileResource
  /-- `GET files/id` with `alt=media`: the content. -/
  | getMedia (id : FileId) : DriveCall (List UInt8)
  /-- `PATCH files/id`: rename, and move from some parents to another. -/
  | patchFile (id : FileId) (name : String) (move : Option (FileId × List FileId)) :
      DriveCall Unit
  /-- `PATCH files/id` with `trashed`. -/
  | trash (id : FileId) : DriveCall Unit
  /-- `DELETE files/id`. -/
  | deleteFile (id : FileId) : DriveCall Unit
  /-- `PATCH files/id` with only `removeParents`. -/
  | removeParents (id : FileId) (parents : List FileId) : DriveCall Unit
  /-- `GET changes`, all pages: `fetch_changes_since`. -/
  | changesSince (token : PageToken) : DriveCall (List RawChange × PageToken)
  /-- `GET changes/startPageToken`. -/
  | startPageToken : DriveCall PageToken

namespace DriveCall

/-- Change an existing object, or answer `404`. -/
def onFile {α : Type} (d : Drive) (id : FileId) (k : DriveFile → Except Error α × Drive) :
    Except Error α × Drive :=
  match d.file id with
  | none => (.error Drive.notFound, d)
  | some f => k f

/-- The answer of a request and the service after it. -/
def run (md5 : List UInt8 → String) : {α : Type} → DriveCall α → Drive →
    Except Error α × Drive
  | _, getFile id, d => onFile d id fun f => (.ok (Drive.resource md5 f), d)
  | _, listChildren parent, d =>
    (.ok ((d.children (d.resolve parent)).map (Drive.resource md5)), d)
  | _, createFolder parent name, d =>
    match d.create parent name folderMime none with
    | (some f, d') => (.ok (Drive.resource md5 f), d')
    | (none, d') => (.error Drive.notFound, d')
  | _, uploadMultipart parent name mimeType bytes, d =>
    match d.create parent name mimeType (some bytes) with
    | (some f, d') => (.ok (Drive.resource md5 f), d')
    | (none, d') => (.error Drive.notFound, d')
  | _, patchMedia id bytes, d =>
    onFile d id fun f =>
      (.ok (Drive.resource md5 { f with content := some bytes }),
        d.change f.num (fun x => { x with content := some bytes }) fun _ => rfl)
  | _, getMedia id, d =>
    onFile d id fun f =>
      match f.content with
      | some bytes => (.ok bytes, d)
      | none => (.error (.driveHttp 403 "fileNotDownloadable"), d)
  | _, patchFile id name move, d =>
    onFile d id fun f =>
      let parents := fun x : DriveFile => match move with
        | none => x.parents
        | some (add, remove) =>
          (x.parents.filter fun p => !(remove.map d.resolve).contains p) ++ [d.resolve add]
      (.ok (), d.change f.num (fun x => { x with name := name, parents := parents x })
        fun _ => rfl)
  | _, trash id, d =>
    onFile d id fun f =>
      if f.owned then
        (.ok (), d.change f.num (fun x => { x with trashed := true }) fun _ => rfl)
      else (.error Drive.forbidden, d)
  | _, deleteFile id, d =>
    onFile d id fun f => if f.owned then (.ok (), d.remove f.num) else (.error Drive.forbidden, d)
  | _, removeParents id parents, d =>
    onFile d id fun f =>
      if f.removable then
        (.ok (), d.change f.num (fun x =>
          { x with parents := x.parents.filter fun p => !(parents.map d.resolve).contains p })
          fun _ => rfl)
      else (.error Drive.forbidden, d)
  | _, changesSince token, d => (.ok (d.changesSince md5 token, d.feed.length), d)
  | _, startPageToken, d => (.ok d.feed.length, d)

/-! ## What a request can change -/

/-- The object that a request changes or removes. -/
def touches : {α : Type} → DriveCall α → Option FileId
  | _, patchMedia id _ => some id
  | _, patchFile id _ _ => some id
  | _, trash id => some id
  | _, deleteFile id => some id
  | _, removeParents id _ => some id
  | _, _ => none

section Run

variable {md5 : List UInt8 → String} {α : Type} {c : DriveCall α} {d : Drive}

lemma get_change {num : ℕ} {g : DriveFile → DriveFile} {hg : ∀ x, (g x).num = x.num}
    {n : ℕ} (h : num ≠ n) : (d.change num g hg).files.get n = d.files.get n := by
  ext f
  simp only [Drive.change, Serial.get_eq_some, Serial.mem_modify]
  constructor
  · rintro ⟨⟨hf, -⟩ | ⟨s, hs, hnum, rfl⟩, hn⟩
    · exact ⟨hf, hn⟩
    · exact absurd (hnum.symm.trans ((hg s).symm.trans hn)) h
  · rintro ⟨hf, hn⟩
    exact ⟨.inl ⟨hf, fun hnum => h (hnum.symm.trans hn)⟩, hn⟩

/-- The object that a change in place concerns. -/
lemma get_change_self {num : ℕ} {g : DriveFile → DriveFile} {hg : ∀ x, (g x).num = x.num}
    {f : DriveFile} (h : d.files.get num = some f) :
    (d.change num g hg).files.get num = some (g f) := by
  obtain ⟨hf, hnum⟩ := Serial.get_eq_some.mp h
  exact Serial.get_eq_some.mpr ⟨(@Serial.mem_modify _ _ _ _ _ hg _).mpr
    (.inr ⟨f, hf, hnum, rfl⟩), (hg f).trans hnum⟩

lemma get_remove {num n : ℕ} (h : num ≠ n) :
    (d.remove num).files.get n = d.files.get n := by
  ext f
  simp only [Drive.remove, Serial.get_eq_some, Serial.mem_keep, decide_eq_true_eq]
  constructor
  · rintro ⟨⟨hf, -⟩, hn⟩
    exact ⟨hf, hn⟩
  · rintro ⟨hf, hn⟩
    exact ⟨⟨hf, fun hnum => h (hnum.symm.trans hn)⟩, hn⟩

private lemma get_create {parent : FileId} {name mime : String} {content : Option (List UInt8)}
    {n : ℕ} (h : n < d.files.next) :
    (d.create parent name mime content).2.files.get n = d.files.get n := by
  unfold Drive.create
  split
  · rfl
  · ext f
    simp only [Serial.get_eq_some, Serial.mem_push]
    constructor
    · rintro ⟨hf | rfl, hn⟩
      · exact ⟨hf, hn⟩
      · exact absurd hn h.ne'
    · rintro ⟨hf, hn⟩
      exact ⟨.inl hf, hn⟩

private lemma files_createFolder {parent : FileId} {name : String} :
    (run md5 (.createFolder parent name) d).2.files =
      (d.create parent name folderMime none).2.files := by
  simp only [run]
  generalize d.create parent name folderMime none = made
  obtain ⟨f, d'⟩ := made
  cases f <;> rfl

private lemma files_uploadMultipart {parent : FileId} {name mime : String}
    {bytes : List UInt8} : (run md5 (.uploadMultipart parent name mime bytes) d).2.files =
      (d.create parent name mime (some bytes)).2.files := by
  simp only [run]
  generalize d.create parent name mime (some bytes) = made
  obtain ⟨f, d'⟩ := made
  cases f <;> rfl

private lemma next_le_create {parent : FileId} {name mime : String}
    {content : Option (List UInt8)} :
    d.files.next ≤ (d.create parent name mime content).2.files.next := by
  unfold Drive.create
  split
  · exact Nat.le_refl _
  · exact Nat.le_succ _

/-- **A request leaves every other object alone.** -/
lemma get_run {n : ℕ} (hn : n < d.files.next)
    (htouch : ∀ id, c.touches = some id → d.resolve id ≠ n) :
    (c.run md5 d).2.files.get n = d.files.get n := by
  have hfound : ∀ {id f}, c.touches = some id → d.file id = some f → f.num ≠ n := by
    intro id f hid hfile
    rw [(Serial.get_eq_some.mp hfile).2]
    exact htouch id hid
  cases c with
  | getFile id =>
    simp only [run, onFile]
    split <;> rfl
  | listChildren parent => rfl
  | createFolder parent name =>
    rw [files_createFolder]
    exact get_create hn
  | uploadMultipart parent name mime bytes =>
    rw [files_uploadMultipart]
    exact get_create hn
  | patchMedia id bytes =>
    simp only [run, onFile]
    split
    · rfl
    · next f hfile => exact get_change (hfound rfl hfile)
  | getMedia id =>
    simp only [run, onFile]
    split
    · rfl
    · split <;> rfl
  | patchFile id name move =>
    simp only [run, onFile]
    split
    · rfl
    · next f hfile => exact get_change (hfound rfl hfile)
  | trash id =>
    simp only [run, onFile]
    split
    · rfl
    · next f hfile =>
      split
      · exact get_change (hfound rfl hfile)
      · rfl
  | deleteFile id =>
    simp only [run, onFile]
    split
    · rfl
    · next f hfile =>
      split
      · exact get_remove (hfound rfl hfile)
      · rfl
  | removeParents id parents =>
    simp only [run, onFile]
    split
    · rfl
    · next f hfile =>
      split
      · exact get_change (hfound rfl hfile)
      · rfl
  | changesSince token => rfl
  | startPageToken => rfl

/-- My Drive stays the same folder. -/
lemma rootNum_run (c : DriveCall α) (d : Drive) : (c.run md5 d).2.rootNum = d.rootNum := by
  have hcreate : ∀ parent name mime content,
      (d.create parent name mime content).2.rootNum = d.rootNum := by
    intro parent name mime content
    unfold Drive.create
    split <;> rfl
  cases c with
  | createFolder parent name =>
    rw [← hcreate parent name folderMime none]
    simp only [run]
    generalize d.create parent name folderMime none = made
    obtain ⟨f, d'⟩ := made
    cases f <;> rfl
  | uploadMultipart parent name mime bytes =>
    rw [← hcreate parent name mime (some bytes)]
    simp only [run]
    generalize d.create parent name mime (some bytes) = made
    obtain ⟨f, d'⟩ := made
    cases f <;> rfl
  | getMedia id =>
    simp only [run, onFile]
    split
    · rfl
    · split <;> rfl
  | getFile id =>
    simp only [run, onFile]
    split <;> rfl
  | patchMedia id bytes =>
    simp only [run, onFile]
    split <;> rfl
  | patchFile id name move =>
    simp only [run, onFile]
    split <;> rfl
  | trash id =>
    simp only [run, onFile]
    split
    · rfl
    · split <;> rfl
  | deleteFile id =>
    simp only [run, onFile]
    split
    · rfl
    · split <;> rfl
  | removeParents id parents =>
    simp only [run, onFile]
    split
    · rfl
    · split <;> rfl
  | listChildren parent => rfl
  | changesSince token => rfl
  | startPageToken => rfl

/-- Drive does not give out an id twice. -/
lemma next_le_run (c : DriveCall α) (d : Drive) :
    d.files.next ≤ (c.run md5 d).2.files.next := by
  cases c with
  | createFolder parent name =>
    rw [files_createFolder]
    exact next_le_create
  | uploadMultipart parent name mime bytes =>
    rw [files_uploadMultipart]
    exact next_le_create
  | getFile id =>
    simp only [run, onFile]
    split <;> exact Nat.le_refl _
  | patchMedia id bytes =>
    simp only [run, onFile]
    split <;> exact Nat.le_refl _
  | getMedia id =>
    simp only [run, onFile]
    split
    · exact Nat.le_refl _
    · split <;> exact Nat.le_refl _
  | patchFile id name move =>
    simp only [run, onFile]
    split <;> exact Nat.le_refl _
  | trash id =>
    simp only [run, onFile]
    split
    · exact Nat.le_refl _
    · split <;> exact Nat.le_refl _
  | deleteFile id =>
    simp only [run, onFile]
    split
    · exact Nat.le_refl _
    · split <;> exact Nat.le_refl _
  | removeParents id parents =>
    simp only [run, onFile]
    split
    · exact Nat.le_refl _
    · split <;> exact Nat.le_refl _
  | listChildren parent => exact Nat.le_refl _
  | changesSince token => exact Nat.le_refl _
  | startPageToken => exact Nat.le_refl _

/-- **The feed is a log**: a request appends to it or leaves it alone. -/
lemma feed_run (c : DriveCall α) (d : Drive) : d.feed <+: (c.run md5 d).2.feed := by
  have hcreate : ∀ parent name mime content,
      d.feed <+: (d.create parent name mime content).2.feed := by
    intro parent name mime content
    unfold Drive.create
    split
    · exact List.prefix_refl _
    · exact List.prefix_append _ _
  have hchange : ∀ num g hg, d.feed <+: (d.change num g hg).feed := fun _ _ _ =>
    List.prefix_append _ _
  cases c with
  | createFolder parent name =>
    have h := hcreate parent name folderMime none
    simp only [run]
    generalize d.create parent name folderMime none = made at h ⊢
    obtain ⟨f, d'⟩ := made
    cases f <;> exact h
  | uploadMultipart parent name mime bytes =>
    have h := hcreate parent name mime (some bytes)
    simp only [run]
    generalize d.create parent name mime (some bytes) = made at h ⊢
    obtain ⟨f, d'⟩ := made
    cases f <;> exact h
  | getFile id =>
    simp only [run, onFile]
    split <;> exact List.prefix_refl _
  | patchMedia id bytes =>
    simp only [run, onFile]
    split
    · exact List.prefix_refl _
    · exact hchange _ _ _
  | getMedia id =>
    simp only [run, onFile]
    split
    · exact List.prefix_refl _
    · split <;> exact List.prefix_refl _
  | patchFile id name move =>
    simp only [run, onFile]
    split
    · exact List.prefix_refl _
    · exact hchange _ _ _
  | trash id =>
    simp only [run, onFile]
    split
    · exact List.prefix_refl _
    · split
      · exact hchange _ _ _
      · exact List.prefix_refl _
  | deleteFile id =>
    simp only [run, onFile]
    split
    · exact List.prefix_refl _
    · split
      · exact List.prefix_append _ _
      · exact List.prefix_refl _
  | removeParents id parents =>
    simp only [run, onFile]
    split
    · exact List.prefix_refl _
    · split
      · exact hchange _ _ _
      · exact List.prefix_refl _
  | listChildren parent => exact List.prefix_refl _
  | changesSince token => exact List.prefix_refl _
  | startPageToken => exact List.prefix_refl _

end Run

end DriveCall

/-- Every object of `d` is in `d'` as it was. -/
structure Drive.Extends (d d' : Drive) : Prop where
  /-- Ids are not given out twice. -/
  next : d.files.next ≤ d'.files.next
  /-- No object of `d` changed. -/
  same : ∀ n < d.files.next, d'.files.get n = d.files.get n
  /-- My Drive is the same folder. -/
  root : d'.rootNum = d.rootNum

lemma Drive.Extends.refl (d : Drive) : d.Extends d := ⟨Nat.le_refl _, fun _ _ => rfl, rfl⟩

lemma Drive.Extends.trans {d₁ d₂ d₃ : Drive} (h : d₁.Extends d₂) (h' : d₂.Extends d₃) :
    d₁.Extends d₃ :=
  ⟨h.next.trans h'.next, fun n hn => (h'.same n (hn.trans_le h.next)).trans (h.same n hn),
    h'.root.trans h.root⟩

/-- The object of an id stays what it is. -/
lemma Drive.Extends.file {d d' : Drive} (h : d.Extends d') {id : FileId} {f : DriveFile}
    (hf : d.file id = some f) : d'.file id = some f := by
  have hres : d'.resolve id = d.resolve id := by
    cases id with
    | rootAlias => exact h.root
    | id n => rfl
  have hlt : d.resolve id < d.files.next := by
    obtain ⟨hmem, hnum⟩ := Serial.get_eq_some.mp hf
    rw [← hnum]
    exact d.files.key_lt hmem
  rw [Drive.file, hres, h.same _ hlt]
  exact hf

/-- A request that changes no object extends the service. -/
lemma DriveCall.extends_run {α : Type} {md5 : List UInt8 → String} {c : DriveCall α} {d : Drive}
    (hc : c.touches = none) : d.Extends (c.run md5 d).2 := by
  refine ⟨next_le_run c d, fun n hn => get_run hn fun id hid => ?_, rootNum_run c d⟩
  rw [hc] at hid
  cases hid

/-! ## The connection -/

/-- What goes wrong with a request after the client's own retries: it never took effect, or it
did and its answer was lost. -/
inductive Fault
  | failed (e : Error)
  | lost (e : Error)
deriving DecidableEq, Repr

/-- The service behind a connection: the head of `faults` is what happens to the next request. -/
structure Remote where
  /-- The service. -/
  drive : Drive
  /-- The fate of the coming requests; an empty list means that all go well. -/
  faults : List (Option Fault)

namespace Remote

/-- Send a request. -/
def send {α : Type} (md5 : List UInt8 → String) (c : DriveCall α) (r : Remote) :
    Except Error α × Remote :=
  match r.faults with
  | [] => ((c.run md5 r.drive).1, { r with drive := (c.run md5 r.drive).2 })
  | none :: rest => ((c.run md5 r.drive).1, ⟨(c.run md5 r.drive).2, rest⟩)
  | some (.failed e) :: rest => (.error e, ⟨r.drive, rest⟩)
  | some (.lost e) :: rest => (.error e, ⟨(c.run md5 r.drive).2, rest⟩)

/-- The first `n` of the coming requests go well. -/
def Answered (faults : List (Option Fault)) (n : ℕ) : Prop := ∀ x ∈ faults.take n, x = none

section Send

variable {α : Type} {md5 : List UInt8 → String} {c : DriveCall α} {r : Remote}

@[simp] lemma answered_zero (faults : List (Option Fault)) : Answered faults 0 := by
  simp [Answered]

/-- The first request goes well, and the others after it. -/
lemma answered_succ {faults : List (Option Fault)} {n : ℕ} :
    Answered faults (n + 1) ↔ faults.headD none = none ∧ Answered faults.tail n := by
  unfold Answered
  cases faults with
  | nil => simp
  | cons x rest => simp

/-- A request that goes well. -/
lemma send_answered (h : r.faults.headD none = none) :
    r.send md5 c = ((c.run md5 r.drive).1, ⟨(c.run md5 r.drive).2, r.faults.tail⟩) := by
  obtain ⟨d, faults⟩ := r
  cases faults with
  | nil => rfl
  | cons x rest =>
    obtain rfl : x = none := h
    rfl

/-- A request that does not go well has no answer. -/
lemma send_faulty (h : r.faults.headD none ≠ none) : ∃ e, (r.send md5 c).1 = .error e := by
  obtain ⟨d, faults⟩ := r
  cases faults with
  | nil => exact absurd rfl h
  | cons x rest =>
    match x, h with
    | some (.failed e), _ => exact ⟨e, rfl⟩
    | some (.lost e), _ => exact ⟨e, rfl⟩

/-- An answer is the answer of the service itself. -/
lemma send_ok {a : α} (h : (r.send md5 c).1 = .ok a) : (c.run md5 r.drive).1 = .ok a := by
  obtain ⟨d, faults⟩ := r
  match faults with
  | [] => exact h
  | none :: rest => exact h
  | some (.failed e) :: rest => exact absurd h (by simp [send])
  | some (.lost e) :: rest => exact absurd h (by simp [send])

/-- An answered request has taken effect. -/
lemma send_ok_drive {a : α} (h : (r.send md5 c).1 = .ok a) :
    (r.send md5 c).2.drive = (c.run md5 r.drive).2 := by
  obtain ⟨d, faults⟩ := r
  match faults with
  | [] => rfl
  | none :: rest => rfl
  | some (.failed e) :: rest => exact absurd h (by simp [send])
  | some (.lost e) :: rest => exact absurd h (by simp [send])

/-- A request takes effect once or not at all. -/
lemma send_drive : (r.send md5 c).2.drive = r.drive ∨
    (r.send md5 c).2.drive = (c.run md5 r.drive).2 := by
  obtain ⟨d, faults⟩ := r
  match faults with
  | [] => exact .inr rfl
  | none :: rest => exact .inr rfl
  | some (.failed e) :: rest => exact .inl rfl
  | some (.lost e) :: rest => exact .inr rfl

/-- The feed is a log, whatever happens to a request. -/
lemma feed_send : r.drive.feed <+: (r.send md5 c).2.drive.feed := by
  rcases @send_drive _ md5 c r with hsame | hrun
  · rw [hsame]
  · rw [hrun]
    exact DriveCall.feed_run c r.drive

/-- A request that changes no object extends the service, whatever happens to it. -/
lemma extends_send (hc : c.touches = none) : r.drive.Extends (r.send md5 c).2.drive := by
  rcases @send_drive _ md5 c r with hsame | hrun
  · rw [hsame]
    exact .refl _
  · rw [hrun]
    exact DriveCall.extends_run hc

/-- Reading an object changes nothing on Drive, whatever happens to the request. -/
lemma send_getFile_drive {id : FileId} : (r.send md5 (.getFile id)).2.drive = r.drive := by
  have hrun : (DriveCall.run md5 (.getFile id) r.drive).2 = r.drive := by
    simp only [DriveCall.run, DriveCall.onFile]
    split <;> rfl
  obtain ⟨d, faults⟩ := r
  match faults with
  | [] => exact hrun
  | none :: rest => exact hrun
  | some (.failed e) :: rest => rfl
  | some (.lost e) :: rest => exact hrun

/-- Reading an object uses up one entry of the connection's fate. -/
lemma send_getFile {id : FileId} :
    (r.send md5 (.getFile id)).2 = ⟨r.drive, r.faults.tail⟩ := by
  have hdrive := @send_getFile_drive md5 r id
  obtain ⟨d, faults⟩ := r
  match faults with
  | [] => exact congrArg (Remote.mk · []) hdrive
  | none :: rest => exact congrArg (Remote.mk · rest) hdrive
  | some (.failed e) :: rest => rfl
  | some (.lost e) :: rest => exact congrArg (Remote.mk · rest) hdrive

/-- Reading an object gives its description exactly when the request goes well and the object is
there. -/
lemma send_getFile_eq_ok {id : FileId} {v : FileResource} :
    (r.send md5 (.getFile id)).1 = .ok v ↔
      r.faults.headD none = none ∧ ∃ f, r.drive.file id = some f ∧ v = Drive.resource md5 f := by
  by_cases h : r.faults.headD none = none
  · rw [send_answered h]
    simp only [DriveCall.run, DriveCall.onFile, h, true_and]
    cases r.drive.file id with
    | none => simp
    | some f => simp [eq_comm]
  · obtain ⟨e, he⟩ := @send_faulty _ md5 (.getFile id) r h
    rw [he]
    exact ⟨fun hok => (by cases hok), fun hok => absurd hok.1 h⟩

/-- Fetching content changes nothing on Drive either. -/
lemma send_getMedia_drive {id : FileId} : (r.send md5 (.getMedia id)).2.drive = r.drive := by
  have hrun : (DriveCall.run md5 (.getMedia id) r.drive).2 = r.drive := by
    simp only [DriveCall.run, DriveCall.onFile]
    split
    · rfl
    · split <;> rfl
  rcases @send_drive _ md5 (.getMedia id) r with hsame | heq
  · exact hsame
  · rw [heq, hrun]

/-- With no faults ahead, a request goes well. -/
lemma send_of_no_faults (h : r.faults = []) :
    r.send md5 c = ((c.run md5 r.drive).1, { r with drive := (c.run md5 r.drive).2 }) := by
  obtain ⟨d, faults⟩ := r
  obtain rfl : faults = [] := h
  rfl

end Send

end Remote

namespace Drive

/-- The folder above an object, by the first of its parents. -/
def parentOf (d : Drive) (id : FileId) : Option FileId :=
  (d.file id).bind fun f => f.parents.head?.map .id

/-- The name of an object. -/
def nameOf (d : Drive) (id : FileId) : String := ((d.file id).map DriveFile.name).getD ""

lemma parentOf_eq_some {d : Drive} {id p : FileId} :
    d.parentOf id = some p ↔
      ∃ f n, d.file id = some f ∧ f.parents.head? = some n ∧ p = .id n := by
  simp only [parentOf, Option.bind_eq_some_iff, Option.map_eq_some_iff]
  constructor
  · rintro ⟨f, hf, n, hn, rfl⟩
    exact ⟨f, n, hf, hn, rfl⟩
  · rintro ⟨f, n, hf, hn, rfl⟩
    exact ⟨f, hf, n, hn, rfl⟩

end Drive

end AirDrive
