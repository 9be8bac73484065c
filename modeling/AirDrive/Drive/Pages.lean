import AirDrive.Data.Json
import AirDrive.Drive.Service
import AirDrive.Effect.Paging
import AirDrive.Reconcile.Shortcut

set_option relaxedAutoImplicit false
set_option autoImplicit false

/-!
# Pages

Drive answers a listing and a request for changes one page at a time, as JSON, and the client asks
for the next page with the token it got. Other users change Drive between two pages, and a request
for a page may fail. The rest of the model takes a listing and the changes since a token for one
request each; here they are the loops that the client runs.

## Main definitions

* `AirDrive.metaFromJson`, `AirDrive.parseSnapshot`, `AirDrive.parseChange` — the decoders.
* `AirDrive.listChildren`, `AirDrive.fetchChangesSince` — the loops.
* `AirDrive.PageServer`, `AirDrive.PageCall.serve` — Drive, answering with pages.
* `AirDrive.Drive.Logged` — whatever others change, they leave an entry in the feed.

## Main results

* `AirDrive.listChildren_eq` — the loop lists what the one request of the model lists.
* `AirDrive.fetchChangesSince_eq` — the loop reads the feed from the token to its end.
* `AirDrive.polls_latest` — after any number of rounds nothing was skipped, and what was read last
  of an object is what the object is, or a change of it is still to come.
-/

namespace AirDrive

open Effect Data

/-! ## The decoders -/

/-- `DriveFileMeta`. -/
structure DriveFileMeta where
  /-- Drive file id. -/
  id : String
  /-- Display name. -/
  name : String
  /-- MIME type. -/
  mimeType : String
  /-- Size in bytes. -/
  size : Option ℤ
  /-- `md5Checksum`. -/
  md5 : Option String
deriving DecidableEq, Repr

/-- `FileSnapshot`. -/
structure FileSnapshot where
  /-- Drive file id. -/
  id : String
  /-- Display name. -/
  name : String
  /-- MIME type. -/
  mimeType : String
  /-- Size in bytes. -/
  size : Option ℤ
  /-- `md5Checksum`. -/
  md5 : Option String
  /-- Parent folder ids. -/
  parents : List String
  /-- Whether the object is in the trash. -/
  trashed : Bool
deriving DecidableEq, Repr

/-- The `size` of a resource: a string or a number. -/
def jsonSize (v : Json) : Option ℤ :=
  match v.get "size" with
  | some (.str s) => Text.parseInt (2 ^ 63) s.toList
  | some n => n.asInt (2 ^ 63)
  | none => none

/-- The `mimeType` of a resource. -/
def jsonMime (v : Json) : String :=
  ((v.get "mimeType").bind Json.asStr).getD "application/octet-stream"

/-- `meta_from_json`. -/
def metaFromJson (v : Json) : Except Error DriveFileMeta :=
  match (v.get "id").bind Json.asStr with
  | none => .error (.drive "file resource missing `id`")
  | some id =>
    match (v.get "name").bind Json.asStr with
    | none => .error (.drive "file resource missing `name`")
    | some name =>
      .ok ⟨id, name, jsonMime v, jsonSize v, (v.get "md5Checksum").bind Json.asStr⟩

/-- `parse_snapshot`. -/
def parseSnapshot (v : Json) : Option FileSnapshot :=
  match (v.get "id").bind Json.asStr, (v.get "name").bind Json.asStr with
  | some id, some name =>
    some
      { id, name
        mimeType := jsonMime v
        size := jsonSize v
        md5 := (v.get "md5Checksum").bind Json.asStr
        parents := (((v.get "parents").bind Json.asArray).getD []).filterMap Json.asStr
        trashed := ((v.get "trashed").bind Json.asBool).getD false }
  | _, _ => none

/-- What the poller decodes from an entry of the feed. -/
structure ChangeEntry where
  /-- The object that changed. -/
  fileId : String
  /-- Deleted for good, or no longer accessible. -/
  removed : Bool
  /-- The object, when it is there. -/
  file : Option FileSnapshot
deriving DecidableEq, Repr

/-- The decoding of an entry at the head of the loop of `run`. -/
def parseChange (c : Json) : ChangeEntry where
  fileId := ((c.get "fileId").bind Json.asStr).getD ""
  removed := ((c.get "removed").bind Json.asBool).getD false
  file := (c.get "file").bind parseSnapshot

/-! ### What is decoded -/

/-- A size that the client can take in. -/
def clientSize (size : Option ℕ) : Option ℤ :=
  size.bind fun n => if n < 2 ^ 63 then some (n : ℤ) else none

/-- The metadata of an object of the model. -/
def FileResource.metadata (r : FileResource) : DriveFileMeta :=
  ⟨Shortcut.idText r.id, r.name, r.mimeType, clientSize r.size, r.md5⟩

/-- The snapshot of an object of the model. -/
def FileResource.snapshot (r : FileResource) : FileSnapshot :=
  ⟨Shortcut.idText r.id, r.name, r.mimeType, clientSize r.size, r.md5,
    r.parents.map Shortcut.idText, r.trashed⟩

/-- The entry that a change of the model is decoded from. -/
def RawChange.entry (c : RawChange) : ChangeEntry :=
  ⟨Shortcut.idText c.fileId, c.removed, c.file.map FileResource.snapshot⟩

/-! ## The loops -/

/-- The requests for pages. -/
inductive PageCall : Type → Type
  /-- `GET files` with the query for the children of a folder. -/
  | files (parent : FileId) (pageToken : Option String) : PageCall (Except Error Json)
  /-- `GET changes`. -/
  | changes (pageToken : String) : PageCall (Except Error Json)

/-- The token of the next page; an empty one is none. -/
def nextPageToken (body : Json) : Option String :=
  ((body.get "nextPageToken").bind Json.asStr).filter fun t => t ≠ ""

/-- What an iteration of `list_children` makes of a body. -/
def readFiles (body : Json) : Except Error (Page DriveFileMeta (Option String)) := do
  match (body.get "files").bind Json.asArray with
  | none => .error (.drive "files.list response missing `files`")
  | some arr =>
    let items ← arr.mapM metaFromJson
    .ok ⟨items, nextPageToken body, (nextPageToken body).isSome⟩

/-- An iteration of `list_children`. -/
def filesPage (parent : FileId) (token : Option String) :
    Prog PageCall Error (Page DriveFileMeta (Option String)) := do
  let body ← .ofExcept (← .lift (.files parent token))
  .ofExcept (readFiles body)

/-- `list_children`, up to a number of pages. -/
def listChildren (fuel : ℕ) (parent : FileId) :
    Prog PageCall Error (Option (List DriveFileMeta)) := do
  let read ← gather (filesPage parent) fuel none []
  pure (read.map Prod.fst)

/-- What an iteration of `fetch_changes_since` makes of a body. -/
def readChanges (token : String) (body : Json) : Page Json String :=
  let items := ((body.get "changes").bind Json.asArray).getD []
  match nextPageToken body with
  | some next => ⟨items, next, true⟩
  | none => ⟨items, ((body.get "newStartPageToken").bind Json.asStr).getD token, false⟩

/-- An iteration of `fetch_changes_since`. -/
def changesPage (token : String) : Prog PageCall Error (Page Json String) := do
  let body ← .ofExcept (← .lift (.changes token))
  pure (readChanges token body)

/-- `fetch_changes_since`, up to a number of pages. -/
def fetchChangesSince (fuel : ℕ) (startToken : String) :
    Prog PageCall Error (Option (List Json × String)) :=
  gather changesPage fuel startToken []

/-! ## The service -/

/-- The tokens that the service gives out. They tell the client nothing. -/
structure Tokens where
  /-- The token of a position. -/
  text : ℕ → String
  /-- The position that a token stands for. -/
  position : String → ℕ
  position_text : ∀ n, position (text n) = n
  text_ne : ∀ n, text n ≠ ""

/-- An object in an answer. -/
def fileToValue (md5 : List UInt8 → String) (f : DriveFile) : Json :=
  .obj <|
    [("id", .str (Shortcut.idText (.id f.num))), ("name", .str f.name),
      ("mimeType", .str f.mimeType),
      ("parents", .arr (f.parents.map fun p => .str (Shortcut.idText (.id p)))),
      ("trashed", .bool f.trashed)] ++
    match f.content with
    | none => []
    | some bytes => [("size", .str (Nat.repr bytes.length)), ("md5Checksum", .str (md5 bytes))]

/-- An entry of the feed in an answer. -/
def changeToValue (md5 : List UInt8 → String) (d : Drive) (e : ℕ × Bool) : Json :=
  .obj [("fileId", .str (Shortcut.idText (.id e.1))), ("removed", .bool e.2),
    ("file", match d.files.get e.1 with
      | none => .null
      | some f => fileToValue md5 f)]

/-- A page of a listing: at most `size` objects from a position on. -/
def filesBody (md5 : List UInt8 → String) (tokens : Tokens) (d : Drive) (parent : FileId)
    (start size : ℕ) : Json :=
  let children := d.children (d.resolve parent)
  let files := ("files", Json.arr (((children.drop start).take size).map (fileToValue md5)))
  if start + size < children.length then
    .obj [("nextPageToken", .str (tokens.text (start + size))), files]
  else .obj [files]

/-- A page of the feed: at most `size` entries from a position on. -/
def changesBody (md5 : List UInt8 → String) (tokens : Tokens) (d : Drive) (start size : ℕ) : Json :=
  let changes := ("changes", Json.arr (((d.feed.drop start).take size).map (changeToValue md5 d)))
  if start + size < d.feed.length then
    .obj [("nextPageToken", .str (tokens.text (start + size))), changes]
  else .obj [("newStartPageToken", .str (tokens.text d.feed.length)), changes]

/-- The service, with what becomes of the coming requests: a failure, or a page with at most so
many entries and one. -/
structure PageServer where
  /-- The service. -/
  drive : Drive
  /-- What becomes of the coming requests; after them, pages have the size that was asked for. -/
  plan : List (Except Error ℕ)

namespace PageServer

/-- What becomes of the next request. -/
def turn (s : PageServer) : Except Error ℕ := s.plan.headD (.ok 999)

/-- The service after a request. -/
def after (s : PageServer) : PageServer := { s with plan := s.plan.tail }

/-- Nobody changes Drive, and no request fails that was not going to. -/
def Quiet (s s' : PageServer) : Prop :=
  s'.drive = s.drive ∧ ∀ e, .error e ∈ s'.plan → .error e ∈ s.plan

lemma Quiet.refl (s : PageServer) : s.Quiet s := ⟨rfl, fun _ => id⟩

lemma Quiet.trans {s₁ s₂ s₃ : PageServer} (h : s₁.Quiet s₂) (h' : s₂.Quiet s₃) : s₁.Quiet s₃ :=
  ⟨h'.1.trans h.1, fun e he => h.2 e (h'.2 e he)⟩

lemma quiet_after (s : PageServer) : s.Quiet s.after := ⟨rfl, fun _ he => List.mem_of_mem_tail he⟩

/-- A request that fails was going to. -/
lemma mem_of_turn {s : PageServer} {e : Error} (h : s.turn = .error e) : .error e ∈ s.plan := by
  cases hplan : s.plan with
  | nil => simp [turn, hplan] at h
  | cons x rest =>
    rw [show x = .error e by simpa [turn, hplan] using h]
    exact .head _

end PageServer

/-- What the service answers. -/
def PageCall.serve (md5 : List UInt8 → String) (tokens : Tokens) : Handler PageCall PageServer :=
  fun _ c s =>
    match c with
    | .files parent token =>
      (s.turn.map fun size =>
        filesBody md5 tokens s.drive parent ((token.map tokens.position).getD 0) (size + 1),
        s.after)
    | .changes token =>
      (s.turn.map fun size => changesBody md5 tokens s.drive (tokens.position token) (size + 1),
        s.after)

variable {md5 : List UInt8 → String} {tokens : Tokens}

/-! ## The answers, decoded -/

/-- The size of an object is read as it was written. -/
lemma jsonSize_fileToValue (f : DriveFile) :
    jsonSize (fileToValue md5 f) = clientSize (Drive.resource md5 f).size := by
  cases hcontent : f.content with
  | none => simp [jsonSize, fileToValue, Drive.resource, clientSize, hcontent]
  | some bytes =>
    simp [jsonSize, fileToValue, Drive.resource, clientSize, hcontent, Nat.repr,
      Text.parseInt_toDigits]

/-- The checksum of an object. -/
lemma md5_fileToValue (f : DriveFile) :
    ((fileToValue md5 f).get "md5Checksum").bind Json.asStr = (Drive.resource md5 f).md5 := by
  cases hcontent : f.content <;> simp [fileToValue, Drive.resource, Json.asStr, hcontent]

/-- The MIME type of an object. -/
lemma jsonMime_fileToValue (f : DriveFile) : jsonMime (fileToValue md5 f) = f.mimeType := by
  simp [jsonMime, fileToValue, Json.asStr]

/-- A listed object is decoded to its metadata. -/
lemma metaFromJson_fileToValue (f : DriveFile) :
    metaFromJson (fileToValue md5 f) = .ok (Drive.resource md5 f).metadata := by
  have hid : ((fileToValue md5 f).get "id").bind Json.asStr =
      some (Shortcut.idText (.id f.num)) := by simp [fileToValue, Json.asStr]
  have hname : ((fileToValue md5 f).get "name").bind Json.asStr = some f.name := by
    simp [fileToValue, Json.asStr]
  rw [metaFromJson, hid, hname, jsonSize_fileToValue, md5_fileToValue, jsonMime_fileToValue]
  rfl

/-- A changed object is decoded to its snapshot. -/
lemma parseSnapshot_fileToValue (f : DriveFile) :
    parseSnapshot (fileToValue md5 f) = some (Drive.resource md5 f).snapshot := by
  have hid : ((fileToValue md5 f).get "id").bind Json.asStr =
      some (Shortcut.idText (.id f.num)) := by simp [fileToValue, Json.asStr]
  have hname : ((fileToValue md5 f).get "name").bind Json.asStr = some f.name := by
    simp [fileToValue, Json.asStr]
  have hparents : (((fileToValue md5 f).get "parents").bind Json.asArray).getD [] =
      f.parents.map fun p => .str (Shortcut.idText (.id p)) := by simp [fileToValue, Json.asArray]
  have htrashed : ((fileToValue md5 f).get "trashed").bind Json.asBool = some f.trashed := by
    simp [fileToValue, Json.asBool]
  rw [parseSnapshot, hid, hname, jsonSize_fileToValue, md5_fileToValue, jsonMime_fileToValue,
    hparents, htrashed]
  simp [FileResource.snapshot, Drive.resource, List.filterMap_map, Function.comp_def, Json.asStr]

/-- The change that an entry of the feed stands for, with the object as it is now. -/
def Drive.changeOf (md5 : List UInt8 → String) (d : Drive) (e : ℕ × Bool) : RawChange :=
  ⟨.id e.1, e.2, (d.files.get e.1).map (Drive.resource md5)⟩

/-- An entry of the feed is decoded to the change it stands for. -/
lemma parseChange_changeToValue (d : Drive) (e : ℕ × Bool) :
    parseChange (changeToValue md5 d e) = (d.changeOf md5 e).entry := by
  cases hfile : d.files.get e.1 with
  | none =>
    have hnull : parseSnapshot .null = none := rfl
    simp [parseChange, changeToValue, Drive.changeOf, RawChange.entry, hfile, Json.asStr,
      Json.asBool, hnull]
  | some f =>
    simp [parseChange, changeToValue, Drive.changeOf, RawChange.entry, hfile, Json.asStr,
      Json.asBool, parseSnapshot_fileToValue]

/-- The next token in a page of the feed, and what the client makes of the page. -/
lemma readChanges_changesBody (d : Drive) (token : String) (start size : ℕ) :
    readChanges token (changesBody md5 tokens d start size) =
      if start + size < d.feed.length then
        ⟨((d.feed.drop start).take size).map (changeToValue md5 d), tokens.text (start + size),
          true⟩
      else
        ⟨((d.feed.drop start).take size).map (changeToValue md5 d), tokens.text d.feed.length,
          false⟩ := by
  unfold changesBody
  split_ifs with hmore
  · simp [readChanges, nextPageToken, Json.asStr, Json.asArray, Option.filter_some, tokens.text_ne]
  · simp [readChanges, nextPageToken, Json.asStr, Json.asArray]

/-- Decoding the objects of a page. -/
lemma mapM_metaFromJson (l : List DriveFile) :
    l.mapM (metaFromJson ∘ fileToValue md5) =
      .ok (l.map fun f => (Drive.resource md5 f).metadata) := by
  induction l with
  | nil => rfl
  | cons f l ih =>
    rw [List.mapM_cons, ih, Function.comp_apply, metaFromJson_fileToValue]
    rfl

/-- What the client makes of a page of a listing. -/
lemma readFiles_filesBody (d : Drive) (parent : FileId) (start size : ℕ) :
    readFiles (filesBody md5 tokens d parent start size) = .ok
      ⟨(((d.children (d.resolve parent)).drop start).take size).map fun f =>
          (Drive.resource md5 f).metadata,
        if start + size < (d.children (d.resolve parent)).length then
          some (tokens.text (start + size)) else none,
        start + size < (d.children (d.resolve parent)).length⟩ := by
  by_cases hmore : start + size < (d.children (d.resolve parent)).length
  · simp [readFiles, filesBody, nextPageToken, hmore, Json.asArray, Json.asStr, mapM_metaFromJson,
      Option.filter_some, tokens.text_ne, bind, Except.bind, -List.map_take, -List.map_drop]
  · simp [readFiles, filesBody, nextPageToken, hmore, Json.asArray, mapM_metaFromJson, bind,
      Except.bind, -List.map_take, -List.map_drop]

/-! ## What others do -/

/-- Whatever others change on Drive, they leave an entry in the feed. -/
structure Drive.Logged (d d' : Drive) : Prop where
  /-- The feed is a log. -/
  feed : d.feed <+: d'.feed
  /-- An object that is not what it was has an entry. -/
  changed : ∀ n, d'.files.get n = d.files.get n ∨
    ∃ j r, d.feed.length ≤ j ∧ d'.feed[j]? = some (n, r)

lemma Drive.Logged.refl (d : Drive) : d.Logged d := ⟨List.prefix_refl _, fun _ => .inl rfl⟩

lemma Drive.Logged.trans {d₁ d₂ d₃ : Drive} (h : d₁.Logged d₂) (h' : d₂.Logged d₃) :
    d₁.Logged d₃ := by
  refine ⟨h.feed.trans h'.feed, fun n => ?_⟩
  rcases h'.changed n with hsame | ⟨j, r, hj, he⟩
  · rw [hsame]
    refine (h.changed n).imp_right fun ⟨j, r, hj, he⟩ => ⟨j, r, hj, ?_⟩
    obtain ⟨tail, htail⟩ := h'.feed
    rw [← htail, List.getElem?_append_left (List.getElem?_eq_some_iff.mp he).1, he]
  · exact .inr ⟨j, r, h.feed.length_le.trans hj, he⟩

/-- One new entry, about the object that changed. -/
lemma Drive.logged_of_append {d d' : Drive} {num : ℕ} {r : Bool}
    (hfeed : d'.feed = d.feed ++ [(num, r)])
    (hget : ∀ n, num ≠ n → d'.files.get n = d.files.get n) : d.Logged d' := by
  refine ⟨hfeed ▸ List.prefix_append _ _, fun n => ?_⟩
  by_cases hn : num = n
  · subst hn
    exact .inr ⟨d.feed.length, r, Nat.le_refl _, by simp [hfeed]⟩
  · exact .inl (hget n hn)

lemma Drive.logged_change {d : Drive} {num : ℕ} {g : DriveFile → DriveFile}
    {hg : ∀ x, (g x).num = x.num} : d.Logged (d.change num g hg) :=
  Drive.logged_of_append rfl fun _ hn => DriveCall.get_change hn

lemma Drive.logged_remove {d : Drive} {num : ℕ} : d.Logged (d.remove num) :=
  Drive.logged_of_append rfl fun _ hn => DriveCall.get_remove hn

lemma Drive.logged_create {d : Drive} {parent : FileId} {name mime : String}
    {content : Option (List UInt8)} : d.Logged (d.create parent name mime content).2 := by
  unfold Drive.create
  split
  · exact .refl d
  · refine Drive.logged_of_append rfl fun n hn => ?_
    ext f
    simp only [Serial.get_eq_some, Serial.mem_push]
    constructor
    · rintro ⟨hf | rfl, hnum⟩
      · exact ⟨hf, hnum⟩
      · exact absurd hnum hn
    · rintro ⟨hf, hnum⟩
      exact ⟨.inl hf, hnum⟩

/-- **The requests of the daemon are such changes.** -/
lemma Drive.logged_run {α : Type} (c : DriveCall α) (d : Drive) : d.Logged (c.run md5 d).2 := by
  have hon : ∀ {β : Type} (id : FileId) (k : DriveFile → Except Error β × Drive),
      (∀ f, d.Logged (k f).2) → d.Logged (DriveCall.onFile d id k).2 := by
    intro β id k hk
    unfold DriveCall.onFile
    split
    · exact .refl d
    · exact hk _
  cases c with
  | getFile id => exact hon id _ fun _ => .refl d
  | listChildren parent => exact .refl d
  | createFolder parent name =>
    have h := @Drive.logged_create d parent name folderMime none
    simp only [DriveCall.run]
    generalize d.create parent name folderMime none = made at h ⊢
    obtain ⟨f, d'⟩ := made
    cases f <;> exact h
  | uploadMultipart parent name mime bytes =>
    have h := @Drive.logged_create d parent name mime (some bytes)
    simp only [DriveCall.run]
    generalize d.create parent name mime (some bytes) = made at h ⊢
    obtain ⟨f, d'⟩ := made
    cases f <;> exact h
  | patchMedia id bytes => exact hon id _ fun _ => Drive.logged_change
  | getMedia id =>
    refine hon id _ fun f => ?_
    split <;> exact .refl d
  | patchFile id name move => exact hon id _ fun _ => Drive.logged_change
  | trash id =>
    refine hon id _ fun f => ?_
    split
    · exact Drive.logged_change
    · exact .refl d
  | deleteFile id =>
    refine hon id _ fun f => ?_
    split
    · exact Drive.logged_remove
    · exact .refl d
  | removeParents id parents =>
    refine hon id _ fun f => ?_
    split
    · exact Drive.logged_change
    · exact .refl d
  | changesSince token => exact .refl d
  | startPageToken => exact .refl d

/-! ## A listing -/

/-- The children of a folder, while nobody changes Drive. -/
def childLog (md5 : List UInt8 → String) (parent : FileId) :
    Log PageServer DriveFile DriveFileMeta where
  log s := s.drive.children (s.drive.resolve parent)
  reads _ f a := a = (Drive.resource md5 f).metadata
  others := PageServer.Quiet
  refl := .refl
  trans := .trans
  grows h := by rw [h.1]

/-- Where a token of a listing points to. -/
def childPosition (tokens : Tokens) (token : Option String) : ℕ :=
  (token.map tokens.position).getD 0

/-- A request of a listing is answered by a page of the children. -/
lemma serves_files (parent : FileId) :
    (childLog md5 parent).Serves (PageCall.serve md5 tokens) (childPosition tokens)
      (fun _ _ => True) (fun s e => .error e ∈ s.plan) (filesPage parent) := by
  refine ⟨fun token s ht => ?_, fun h he => h.2 _ he⟩
  intro s₁ hothers _
  refine ⟨trivial, trivial, ?_⟩
  have hafter := s₁.quiet_after
  have hall := (childLog md5 parent).trans hothers hafter
  cases hturn : s₁.turn with
  | error e =>
    simp only [PageCall.serve, hturn, Except.map]
    exact ⟨hall, hothers.2 e (PageServer.mem_of_turn hturn)⟩
  | ok size =>
    have hlog : childPosition tokens token ≤ ((childLog md5 parent).log s₁).length :=
      ht.trans ((childLog md5 parent).grows hothers).length_le
    simp only [PageCall.serve, hturn, Except.map]
    show Prog.Safe _ _ _ (Prog.ofExcept (readFiles _)) _
    rw [readFiles_filesBody, Prog.safe_ofExcept]
    refine ⟨hall, Log.answers_slice hothers hafter (fun f => rfl) hlog (Nat.succ_pos size) rfl
      (fun hmore => ?_) fun hmore => ⟨?_, trivial⟩⟩
    · have hlt := of_decide_eq_true hmore
      refine ⟨hlt, ?_⟩
      rw [if_pos hlt]
      exact tokens.position_text _
    · exact Nat.le_of_not_lt (of_decide_eq_false hmore)

/-- All pages of a listing together. -/
lemma eq_of_covers {parent : FileId} {l : List DriveFileMeta} {s s' : PageServer}
    (hcovers : (childLog md5 parent).Covers 0 l s s')
    (hdrained : (childLog md5 parent).Drained (0 + l.length) s s') :
    l = (s.drive.children (s.drive.resolve parent)).map fun f =>
      (Drive.resource md5 f).metadata := by
  obtain ⟨s₁, hbefore, -, hlength⟩ := hdrained
  have hsame : (childLog md5 parent).log s₁ = s.drive.children (s.drive.resolve parent) := by
    simp only [childLog, hbefore.1]
  rw [hsame, Nat.zero_add] at hlength
  apply List.ext_getElem?
  intro i
  by_cases hi : i < l.length
  · obtain ⟨s₂, f, hs₂, -, hf, hread⟩ := hcovers.read i l[i] (List.getElem?_eq_getElem hi)
    have hf' : (s.drive.children (s.drive.resolve parent))[i]? = some f := by
      have hlog : (childLog md5 parent).log s₂ = s.drive.children (s.drive.resolve parent) := by
        simp only [childLog, hs₂.1]
      rwa [hlog, Nat.zero_add] at hf
    rw [List.getElem?_eq_getElem hi, List.getElem?_map, hf', Option.map_some, hread]
  · rw [List.getElem?_eq_none (by omega), List.getElem?_eq_none (by rw [List.length_map]; omega)]

/-- The feed, while others move the service along `R`. -/
def changeLog (md5 : List UInt8 → String) (R : PageServer → PageServer → Prop)
    (hrefl : ∀ s, R s s) (htrans : ∀ a b c, R a b → R b c → R a c)
    (hfeed : ∀ s s', R s s' → s.drive.feed <+: s'.drive.feed) :
    Log PageServer (ℕ × Bool) Json where
  log s := s.drive.feed
  reads s e c := parseChange c = (s.drive.changeOf md5 e).entry
  others := R
  refl := hrefl
  trans := htrans _ _ _
  grows := hfeed _ _

/-- A request for changes is answered by a page of the feed. -/
lemma serves_changes {R : PageServer → PageServer → Prop} {hrefl : ∀ s, R s s}
    {htrans : ∀ a b c, R a b → R b c → R a c}
    {hfeed : ∀ s s', R s s' → s.drive.feed <+: s'.drive.feed} {fails : PageServer → Error → Prop}
    (hafter : ∀ s, R s s.after) (hturn : ∀ s e, s.turn = .error e → fails s e)
    (hmono : ∀ s s' e, R s s' → fails s' e → fails s e) :
    (changeLog md5 R hrefl htrans hfeed).Serves (PageCall.serve md5 tokens) tokens.position
      (fun t n => tokens.position t = n) fails changesPage := by
  refine ⟨fun token s ht => ?_, hmono _ _ _⟩
  intro s₁ hothers _
  refine ⟨trivial, trivial, ?_⟩
  have hall : R s s₁.after := htrans _ _ _ hothers (hafter s₁)
  cases hnow : s₁.turn with
  | error e =>
    simp only [PageCall.serve, hnow, Except.map]
    exact ⟨hall, hmono _ _ _ hothers (hturn s₁ e hnow)⟩
  | ok size =>
    have hlog : tokens.position token ≤ s₁.drive.feed.length :=
      ht.trans (hfeed _ _ hothers).length_le
    simp only [PageCall.serve, hnow, Except.map]
    show Prog.Safe _ _ _ (Prog.pure (readChanges token _)) _
    rw [Prog.safe_pure, readChanges_changesBody]
    refine ⟨hall, Log.answers_slice hothers (hafter s₁) (parseChange_changeToValue s₁.drive) hlog
      (Nat.succ_pos size) ?_ (fun hmore => ?_) fun hmore => ?_⟩
    · split_ifs <;> rfl
    · split_ifs at hmore ⊢ with hlt
      exact ⟨hlt, tokens.position_text _⟩
    · split_ifs at hmore ⊢ with hlt
      exact ⟨Nat.le_of_not_lt hlt, tokens.position_text _⟩

/-- The feed, while nobody changes Drive. -/
abbrev quietLog (md5 : List UInt8 → String) : Log PageServer (ℕ × Bool) Json :=
  changeLog md5 PageServer.Quiet .refl (fun _ _ _ => .trans) fun _ _ h => by rw [h.1]

/-- The feed, while others change Drive and requests fail. -/
abbrev busyLog (md5 : List UInt8 → String) : Log PageServer (ℕ × Bool) Json :=
  changeLog md5 (fun s s' => s.drive.Logged s'.drive) (fun s => .refl s.drive)
    (fun _ _ _ => .trans) fun _ _ h => h.feed

/-- **The loop of `fetch_changes_since`** reads what the one request of the model reads, whatever
the sizes of the pages are, as long as nobody changes Drive meanwhile. -/
theorem fetchChangesSince_eq {fuel : ℕ} {token : String} {s s' : PageServer}
    {x : Except Error (Option (List Json × String))}
    (ht : tokens.position token ≤ s.drive.feed.length)
    (hrun : Prog.RunsAmid (PageCall.serve md5 tokens) PageServer.Quiet
      (fetchChangesSince fuel token) s x s') :
    (∀ l new, x = .ok (some (l, new)) → ∃ changes t,
      ((DriveCall.changesSince (tokens.position token)).run md5 s.drive).1 = .ok (changes, t) ∧
        l.map parseChange = changes.map RawChange.entry ∧ tokens.position new = t) ∧
    (∀ e, x = .error e → .error e ∈ s.plan) ∧
    (s.drive.feed.length < tokens.position token + fuel → x ≠ .ok none) := by
  have hserves : (quietLog md5).Serves (PageCall.serve md5 tokens) tokens.position
      (fun t n => tokens.position t = n) (fun s e => .error e ∈ s.plan) changesPage :=
    serves_changes PageServer.quiet_after (fun _ _ => PageServer.mem_of_turn) fun _ _ e h => h.2 e
  obtain ⟨-, hall, herror⟩ := (hserves.covers ht).amid hrun
  refine ⟨fun l new hx => ⟨_, _, rfl, ?_⟩, herror, fun hfuel => ?_⟩
  · obtain ⟨hcovers, hnew, s₁, hbefore, -, hlength⟩ := hall l new hx
    have hlength' : tokens.position token + l.length = s.drive.feed.length := by
      rw [hlength]
      show s₁.drive.feed.length = _
      rw [hbefore.1]
    refine ⟨?_, hnew.trans hlength'⟩
    apply List.ext_getElem?
    intro i
    simp only [Drive.changesSince, List.getElem?_map, List.getElem?_drop, Option.map_map]
    by_cases hi : i < l.length
    · obtain ⟨s₂, e, hs₂, -, he, hread⟩ := hcovers.read i l[i] (List.getElem?_eq_getElem hi)
      have he' : s.drive.feed[tokens.position token + i]? = some e := by
        rw [← hs₂.1]
        exact he
      rw [List.getElem?_eq_getElem hi, he', Option.map_some, Option.map_some, hread, hs₂.1]
      rfl
    · rw [List.getElem?_eq_none (by omega), List.getElem?_eq_none (by omega)]
      rfl
  · exact (hserves.ends ht (fun s₂ hs₂ => by
      show s₂.drive.feed.length ≤ s.drive.feed.length
      rw [hs₂.1]) hfuel).amid hrun

/-! ## Rounds of the poller -/

/-- Any number of rounds, while others change Drive and requests fail; a round moves the cursor or
not. -/
abbrev Polls (md5 : List UInt8 → String) (tokens : Tokens) :
    Session PageServer Json String → Session PageServer Json String → Prop :=
  Relation.ReflTransGen ((busyLog md5).Visit (PageCall.serve md5 tokens) changesPage)

/-- Different objects have different ids. -/
lemma idText_inj {m n : ℕ} : Shortcut.idText (.id m) = Shortcut.idText (.id n) ↔ m = n := by
  refine ⟨fun h => ?_, fun h => by rw [h]⟩
  have hdigits : Nat.toDigits 10 m = Nat.toDigits 10 n :=
    String.ofList_injective (by simpa [Shortcut.idText, Nat.repr] using h)
  rw [← @Nat.ofDigitChars_ten_toDigits m, hdigits, Nat.ofDigitChars_ten_toDigits]

/-- Drive, as what the feed is about. -/
lemma keyed_changes : (busyLog md5).Keyed Prod.fst
    (fun s n => (s.drive.files.get n).map fun f => (Drive.resource md5 f).snapshot)
    (fun c n => (parseChange c).fileId = Shortcut.idText (.id n))
    (fun c => (parseChange c).file) := by
  refine ⟨fun {s e c n} hread => ?_, fun {s e c} hread => ?_, fun {s s'} n hothers => ?_⟩
  · rw [show parseChange c = _ from hread]
    exact idText_inj
  · rw [show parseChange c = _ from hread]
    simp [Drive.changeOf, RawChange.entry, Option.map_map, Function.comp_def]
  · rcases hothers.changed n with hsame | ⟨j, r, hj, he⟩
    · exact .inl (by rw [hsame])
    · exact .inr ⟨j, (n, r), hj, he, rfl⟩

/-- **After any number of rounds nothing was skipped or read twice**, and what was read last of an
object is what the object is now, or the feed has a change of it after the cursor. Pages are read
while others change Drive, so an entry may come with an object that is newer than the entry, and
the last page may come with objects that the first page did not have yet. -/
theorem polls_latest {v v' : Session PageServer Json String}
    (hpos : tokens.position v.cursor ≤ v.state.drive.feed.length) (hempty : v.taken = [])
    (hpolls : Polls md5 tokens v v') :
    tokens.position v'.cursor = tokens.position v.cursor + v'.taken.length ∧
    v'.taken.map (fun c => ((parseChange c).fileId, (parseChange c).removed)) =
      ((v'.state.drive.feed.drop (tokens.position v.cursor)).take v'.taken.length).map
        (fun e => (Shortcut.idText (.id e.1), e.2)) ∧
    ∀ (n i : ℕ) (c : Json), v'.taken[i]? = some c →
      (parseChange c).fileId = Shortcut.idText (.id n) →
      (∀ j b, i < j → v'.taken[j]? = some b → (parseChange b).fileId ≠ Shortcut.idText (.id n)) →
      (parseChange c).file =
          (v'.state.drive.files.get n).map (fun f => (Drive.resource md5 f).snapshot) ∨
        ∃ j r, tokens.position v'.cursor ≤ j ∧ v'.state.drive.feed[j]? = some (n, r) := by
  have hserves : (busyLog md5).Serves (PageCall.serve md5 tokens) tokens.position
      (fun t n => tokens.position t = n) (fun _ _ => True) changesPage :=
    serves_changes (fun s => .refl s.drive) (fun _ _ _ => trivial) fun _ _ _ _ _ => trivial
  obtain ⟨-, hcovers, hcursor⟩ := hserves.session hpos hempty hpolls
  refine ⟨hcursor, ?_, fun n i c hc hid hlast => ?_⟩
  · apply List.ext_getElem?
    intro i
    by_cases hi : i < v'.taken.length
    · obtain ⟨s₁, e, -, hafter, he, hread⟩ :=
        hcovers.read i v'.taken[i] (List.getElem?_eq_getElem hi)
      have he' : v'.state.drive.feed[tokens.position v.cursor + i]? = some e :=
        Log.entry (L := busyLog md5) hafter he
      rw [List.getElem?_map, List.getElem?_map, List.getElem?_eq_getElem hi,
        List.getElem?_take_of_lt hi, List.getElem?_drop, he', Option.map_some, Option.map_some,
        show parseChange v'.taken[i] = _ from hread]
      rfl
    · rw [List.getElem?_eq_none (by rw [List.length_map]; omega),
        List.getElem?_eq_none (by rw [List.length_map, List.length_take]; omega)]
  · rcases keyed_changes.latest hcovers hc hid hlast with hnow | ⟨j, e, hj, he, hkey⟩
    · exact .inl hnow
    · refine .inr ⟨j, e.2, hcursor ▸ hj, ?_⟩
      rw [← hkey]
      exact he

/-! ## Two pages -/

/-- Tokens as the stand-in of the integration suite gives them out. -/
def Tokens.decimal : Tokens where
  text n := String.ofList (Nat.toDigits 10 n)
  position t := Nat.ofDigitChars 10 t.toList 0
  position_text n := by rw [String.toList_ofList, Nat.ofDigitChars_ten_toDigits]
  text_ne n h := Nat.toDigits_ne_nil (String.ofList_injective h)

/-- My Drive (1) with the mapped folder `Photos` (2), which holds two files (3, 4). -/
def pagedDrive : Drive where
  files :=
    ⟨⟨[⟨1, "My Drive", folderMime, none, [], false, true, true⟩,
       ⟨2, "Photos", folderMime, none, [1], false, true, true⟩,
       ⟨3, "a.png", "image/png", some [65], [2], false, true, true⟩,
       ⟨4, "b.png", "image/png", some [66], [2], false, true, true⟩],
      by simp⟩, 5, by simp⟩
  rootNum := 1
  feed := [(3, false), (4, false)]

/-- The service with pages of one entry. -/
def pagedServer : PageServer := ⟨pagedDrive, [.ok 0, .ok 0]⟩

/-- What its requests are answered. -/
def pagedServe : Handler PageCall PageServer := PageCall.serve (fun _ => "A") .decimal

/-- `fetchChangesSince_eq`, of two pages. -/
theorem paged_fetched : ∃ (l : List Json) (new : String) (changes : List RawChange) (t : PageToken),
    ((fetchChangesSince 3 "0").runWith pagedServe (fun _ s => s) 0 pagedServer).1 =
      .ok (some (l, new)) ∧
    ((DriveCall.changesSince 0).run (fun _ => "A") pagedDrive).1 = .ok (changes, t) ∧
      l.map parseChange = changes.map RawChange.entry ∧ Tokens.decimal.position new = t := by
  obtain ⟨l, new, hl⟩ : ∃ l new, ((fetchChangesSince 3 "0").runWith pagedServe (fun _ s => s) 0
      pagedServer).1 = .ok (some (l, new)) := ⟨_, _, rfl⟩
  have hrun := @Prog.runsAmid_runWith _ _ _ _ pagedServe PageServer.Quiet (fun _ s => s)
    (fun _ s => .refl s) (fetchChangesSince 3 "0") 0 pagedServer
  obtain ⟨changes, t, hread⟩ := (fetchChangesSince_eq (Nat.zero_le 2) hrun).1 l new hl
  exact ⟨l, new, changes, t, hl, hread⟩

/-- Another user renames the second file when its entry has been read. -/
def renamedBetween : ℕ → PageServer → PageServer
  | 1, s => { s with drive := s.drive.change 3 (fun f => { f with name := "c.png" }) fun _ => rfl }
  | _, s => s

/-- `polls_latest`, of a round in which a file changes between two pages. -/
theorem paged_polls : ∃ v' : Session PageServer Json String,
    Polls (fun _ => "A") .decimal ⟨pagedServer, "0", []⟩ v' ∧ v'.taken.length = 3 ∧
    Tokens.decimal.position v'.cursor = 0 + v'.taken.length := by
  obtain ⟨l, new, hl, hthree⟩ : ∃ l new, ((fetchChangesSince 3 "0").runWith pagedServe
      renamedBetween 0 pagedServer).1 = .ok (some (l, new)) ∧ l.length = 3 := ⟨_, _, rfl, rfl⟩
  have hrun := @Prog.runsAmid_runWith _ _ _ _ pagedServe
    (fun s s' : PageServer => s.drive.Logged s'.drive) renamedBetween
    (fun n s => by
      unfold renamedBetween
      split
      · exact Drive.logged_change
      · exact .refl s.drive) (fetchChangesSince 3 "0") 0 pagedServer
  rw [hl] at hrun
  have hpolls : Polls (fun _ => "A") .decimal ⟨pagedServer, "0", []⟩ _ :=
    .single (.took hrun)
  exact ⟨_, hpolls, hthree, (polls_latest (Nat.zero_le 2) rfl hpolls).1⟩

end AirDrive
