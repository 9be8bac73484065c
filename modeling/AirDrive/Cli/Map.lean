import AirDrive.Cli.Start
import AirDrive.Data.Text
import AirDrive.State.PathText

set_option relaxedAutoImplicit false
set_option autoImplicit false

/-!
# The argument of `map`

`map` is given the remote folder as a text: a URL of Drive, or a path below My Drive. A URL names a
folder by its id. A path is walked down from My Drive; on the way folders that are missing can be
made.

## Main definitions

* `AirDrive.RemoteSpec.parse` — from the text to a URL's id or a path's names.
* `AirDrive.Drive.follow` — the folder that names lead to.
* `AirDrive.Drive.Adds` — folders were made.

## Main results

* `AirDrive.parse_folder_url`, `AirDrive.parse_path` — every folder can be given by its URL, and
  every path as `path:`.
* `AirDrive.Map.map_recorded` — `map` makes only what is missing, and records the folder to which
  its argument leads.
-/

namespace AirDrive

open Effect Data Data.Text

/-! ## The argument -/

/-- `strip_query`: up to the first `?`, `#` or `/`. -/
def stripQuery (s : List Char) : List Char := s.takeWhile fun c => c ≠ '?' && c ≠ '#' && c ≠ '/'

/-- `extract_id_from_url`: the text of the id in a URL of Drive. -/
def extractIdFromUrl (s : List Char) : Option (List Char) :=
  if !("http://".toList.isPrefixOf s || "https://".toList.isPrefixOf s) then none
  else
    match secondPart "/folders/".toList s with
    | some rest => some (stripQuery rest)
    | none =>
      match secondPart "/file/d/".toList s with
      | some rest => some (stripQuery (rest.takeWhile (· ≠ '/')))
      | none =>
        match splitOnce ['?'] s with
        | none => none
        | some (_, q) =>
          (q.splitOn '&').findSome? fun pair => (stripPrefix "id=".toList pair).map stripQuery

/-- The argument as `resolve_path` reads it; `readId` is the object that an id names. -/
def RemoteSpec.parse (readId : List Char → FileId) (arg : List Char) : RemoteSpec :=
  let trimmed := trim arg
  match extractIdFromUrl trimmed with
  | some id => .url (readId id)
  | none =>
    let path := (stripPrefix "path:".toList trimmed).getD trimmed
    .path ((((Lines.trim (· = '/') path).splitOn '/').filter (· ≠ [])).map String.ofList)

section Argument

variable {readId : List Char → FileId} {arg left right front id tail s : List Char}
  {segments : List String}

/-- What follows a slash is not part of an id. -/
lemma stripQuery_append (rest : List Char) : stripQuery (s ++ '/' :: rest) = stripQuery s := by
  induction s with
  | nil => rfl
  | cons c s ih =>
    simp only [stripQuery, List.cons_append, List.takeWhile_cons] at ih ⊢
    rw [ih]

/-- An id ends where a query, a fragment or a further segment starts. -/
lemma stripQuery_eq (hid : ∀ c ∈ id, c ≠ '?' ∧ c ≠ '#' ∧ c ≠ '/')
    (htail : ∀ c, tail.head? = some c → c = '?' ∨ c = '#' ∨ c = '/') :
    stripQuery (id ++ tail) = id := by
  have hstop : stripQuery tail = [] := by
    cases tail with
    | nil => rfl
    | cons c tail =>
      rcases htail c rfl with rfl | rfl | rfl <;> rfl
  rw [stripQuery, List.takeWhile_append_of_pos (by simpa [and_assoc] using hid)]
  rw [stripQuery] at hstop
  rw [hstop, List.append_nil]

/-- **A URL of a folder** gives its id, whatever follows it. -/
lemma extractIdFromUrl_folders
    (hscheme : "http://".toList <+: front ∨ "https://".toList <+: front)
    (hfirst : splitOnce "/folders/".toList (front ++ "/folders".toList) = none)
    (hid : ∀ c ∈ id, c ≠ '?' ∧ c ≠ '#' ∧ c ≠ '/')
    (htail : ∀ c, tail.head? = some c → c = '?' ∨ c = '#' ∨ c = '/') :
    extractIdFromUrl (front ++ "/folders/".toList ++ (id ++ tail)) = some id := by
  have hurl : ("http://".toList.isPrefixOf (front ++ "/folders/".toList ++ (id ++ tail)) ||
      "https://".toList.isPrefixOf (front ++ "/folders/".toList ++ (id ++ tail))) = true := by
    rw [Bool.or_eq_true, List.isPrefixOf_iff_prefix, List.isPrefixOf_iff_prefix, List.append_assoc]
    exact hscheme.imp (·.trans (List.prefix_append _ _)) (·.trans (List.prefix_append _ _))
  have hpart : ∃ rest, secondPart "/folders/".toList (front ++ "/folders/".toList ++ (id ++ tail)) =
      some rest ∧ stripQuery rest = id := by
    rw [secondPart, splitOnce_append (by decide) hfirst, Option.map_some]
    refine ⟨_, rfl, ?_⟩
    cases hnext : splitOnce "/folders/".toList (id ++ tail) with
    | none => exact stripQuery_eq hid htail
    | some parts =>
      have hcut : stripQuery (id ++ tail) = stripQuery parts.1 := by
        rw [eq_of_splitOnce hnext, List.append_assoc]
        exact stripQuery_append _
      exact hcut.symm.trans (stripQuery_eq hid htail)
  obtain ⟨rest, hrest, hstrip⟩ := hpart
  rw [extractIdFromUrl, hurl, hrest, ← hstrip]
  rfl

/-- **A folder can be given by its URL**, as it is shown by Drive, with white space around it. -/
theorem parse_folder_url (hleft : ∀ c ∈ left, isWhiteSpace c = true)
    (hright : ∀ c ∈ right, isWhiteSpace c = true)
    (hscheme : "http://".toList <+: front ∨ "https://".toList <+: front)
    (hfirst : splitOnce "/folders/".toList (front ++ "/folders".toList) = none)
    (hid : ∀ c ∈ id, c ≠ '?' ∧ c ≠ '#' ∧ c ≠ '/')
    (htail : ∀ c, tail.head? = some c → c = '?' ∨ c = '#' ∨ c = '/')
    (hlast : ∀ c, (id ++ tail).getLast? = some c → isWhiteSpace c = false) :
    RemoteSpec.parse readId (left ++ (front ++ "/folders/".toList ++ (id ++ tail)) ++ right) =
      .url (readId id) := by
  have hhttp : ∃ rest, front = 'h' :: rest := by
    rcases hscheme with ⟨rest, rfl⟩ | ⟨rest, rfl⟩ <;> exact ⟨_, rfl⟩
  obtain ⟨rest, hh⟩ := hhttp
  have htrim : trim (left ++ (front ++ "/folders/".toList ++ (id ++ tail)) ++ right) =
      front ++ "/folders/".toList ++ (id ++ tail) := by
    refine Lines.trim_between hleft hright (by simp) (fun c hc => ?_) fun c hc => ?_
    · rw [hh] at hc
      obtain rfl := Option.some.inj hc
      decide
    · cases hrest : (id ++ tail).getLast? with
      | none =>
        rw [List.getLast?_append, hrest, List.getLast?_append] at hc
        obtain rfl := Option.some.inj hc
        decide
      | some d =>
        rw [List.getLast?_append, hrest] at hc
        obtain rfl := Option.some.inj hc
        exact hlast d hrest
  simp only [RemoteSpec.parse, htrim, extractIdFromUrl_folders hscheme hfirst hid htail]

/-- `parse_folder_url`, of a URL that was copied with a space before it. -/
theorem photos_url : RemoteSpec.parse (fun _ => .id 2) ([' '] ++
    ("https://drive.google.com/drive/u/0".toList ++ "/folders/".toList ++
      ("drv2".toList ++ "?usp=sharing".toList)) ++ ['\n']) = .url (.id 2) :=
  parse_folder_url (List.forall_mem_singleton.mpr rfl) (List.forall_mem_singleton.mpr rfl)
    (.inr ⟨"drive.google.com/drive/u/0".toList, rfl⟩) rfl (by simp)
    (fun _ hc => .inl (Option.some.inj hc).symm)
    fun c hc => by
      obtain rfl : 'g' = c := Option.some.inj hc
      rfl

/-- Whatever the argument is, no name of the path is empty or has a slash. -/
lemma segments_of_parse (h : RemoteSpec.parse readId arg = .path segments) :
    ∀ x ∈ segments, x ≠ "" ∧ '/' ∉ x.toList := by
  simp only [RemoteSpec.parse] at h
  split at h
  · cases h
  · obtain rfl := RemoteSpec.path.inj h
    intro x hx
    obtain ⟨y, hy, rfl⟩ := List.mem_map.mp hx
    obtain ⟨hpart, hne⟩ := List.mem_filter.mp hy
    rw [String.toList_ofList]
    refine ⟨fun hempty => ?_, Lines.not_mem_of_splitOn hpart⟩
    have hnil : y = [] := by simpa using congrArg String.toList hempty
    simp [hnil] at hne

lemma text_singleton (x : String) : RelPath.text [x] = x.toList := by simp [RelPath.text_eq]

/-- The text of names starts with the first of them. -/
lemma ne_slash_of_head (hsegments : ∀ x ∈ segments, x ≠ "" ∧ '/' ∉ x.toList) {c : Char}
    (hc : (RelPath.text segments).head? = some c) : c ≠ '/' := by
  cases segments with
  | nil => cases hc
  | cons x rest =>
    obtain ⟨hx, hslash⟩ := hsegments x (.head _)
    have hpos : x.toList ≠ [] := fun h => hx (by simpa using h)
    have hhead : x.toList.head? = some c := by
      by_cases hrest : rest = []
      · rwa [hrest, text_singleton] at hc
      · rwa [show x :: rest = [x] ++ rest from rfl, RelPath.text_append_path (by simp) hrest,
          text_singleton, List.head?_append_of_ne_nil _ hpos] at hc
    rintro rfl
    exact hslash (List.mem_of_mem_head? hhead)

/-- The text of names ends with the last of them. -/
lemma ne_slash_of_getLast (hsegments : ∀ x ∈ segments, x ≠ "" ∧ '/' ∉ x.toList) {c : Char}
    (hc : (RelPath.text segments).getLast? = some c) : c ≠ '/' := by
  rcases List.eq_nil_or_concat' segments with rfl | ⟨init, x, rfl⟩
  · cases hc
  · obtain ⟨hx, hslash⟩ := hsegments x (by simp)
    have hpos : x.toList ≠ [] := fun h => hx (by simpa using h)
    have hlast : x.toList.getLast? = some c := by
      by_cases hinit : init = []
      · rwa [hinit, List.nil_append, text_singleton] at hc
      · rwa [RelPath.text_append_path hinit (by simp), text_singleton, ← List.singleton_append,
          ← List.append_assoc, List.getLast?_append_of_ne_nil _ hpos] at hc
    rintro rfl
    exact hslash (List.mem_of_getLast? hlast)

/-- The names are the parts of their text. -/
lemma splitOn_text (hne : segments ≠ []) (hsegments : ∀ x ∈ segments, x ≠ "" ∧ '/' ∉ x.toList) :
    (((RelPath.text segments).splitOn '/').filter (· ≠ [])).map String.ofList = segments := by
  have hslash : ∀ l ∈ segments.map String.toList, '/' ∉ l := by
    intro l hl
    obtain ⟨x, hx, rfl⟩ := List.mem_map.mp hl
    exact (hsegments x hx).2
  have hfull : ∀ l ∈ segments.map String.toList, decide (l ≠ []) = true := by
    intro l hl
    obtain ⟨x, hx, rfl⟩ := List.mem_map.mp hl
    simpa using (hsegments x hx).1
  rw [RelPath.text_eq, List.splitOn_intercalate '/' hslash (by simpa using hne),
    List.filter_eq_self.mpr hfull]
  simp [Function.comp_def]

/-- **Every path can be given**, after `path:`, with slashes and white space around it, unless its
last name ends with white space. -/
theorem parse_path (hleft : ∀ c ∈ left, isWhiteSpace c = true)
    (hright : ∀ c ∈ right, isWhiteSpace c = true) (hfront : ∀ c ∈ front, c = '/')
    (htail : ∀ c ∈ tail, c = '/') (hne : segments ≠ [])
    (hsegments : ∀ x ∈ segments, x ≠ "" ∧ '/' ∉ x.toList)
    (hlast : ∀ c, (RelPath.text segments).getLast? = some c → isWhiteSpace c = false) :
    RemoteSpec.parse readId (left ++ ("path:".toList ++ (front ++ RelPath.text segments ++ tail)) ++
      right) = .path segments := by
  have hsome : RelPath.text segments ≠ [] := by
    intro hnil
    refine hne ?_
    rw [← splitOn_text hne hsegments, hnil]
    rfl
  have hpath : Lines.trim (· = '/') (front ++ RelPath.text segments ++ tail) =
      RelPath.text segments :=
    Lines.trim_between (by simpa using hfront) (by simpa using htail) hsome
      (fun c hc => by simpa using ne_slash_of_head hsegments hc)
      fun c hc => by simpa using ne_slash_of_getLast hsegments hc
  have htrim : trim (left ++ ("path:".toList ++ (front ++ RelPath.text segments ++ tail)) ++
      right) = "path:".toList ++ (front ++ RelPath.text segments ++ tail) := by
    refine Lines.trim_between hleft hright (by simp) (fun c hc => ?_) fun c hc => ?_
    · obtain rfl := Option.some.inj hc
      decide
    · cases htext : (RelPath.text segments ++ tail).getLast? with
      | none =>
        exact absurd (List.append_eq_nil_iff.mp (List.getLast?_eq_none_iff.mp htext)).1 hsome
      | some d =>
        rw [List.append_assoc, List.getLast?_append, List.getLast?_append, htext] at hc
        obtain rfl := Option.some.inj hc
        rw [List.getLast?_append] at htext
        cases hslash : tail.getLast? with
        | none =>
          rw [hslash] at htext
          exact hlast _ htext
        | some e =>
          rw [hslash] at htext
          obtain rfl := Option.some.inj htext
          rw [htail _ (List.mem_of_getLast? hslash)]
          decide
  have hurl : extractIdFromUrl ("path:".toList ++ (front ++ RelPath.text segments ++ tail)) =
      none := rfl
  simp only [RemoteSpec.parse, htrim, hurl, stripPrefix_append, Option.getD_some, hpath,
    splitOn_text hne hsegments]

/-- `parse_path`, of a path with slashes around it. -/
theorem photos_path : RemoteSpec.parse (fun _ => .rootAlias) ([' '] ++
    ("path:".toList ++ (['/'] ++ RelPath.text ["Photos", "2024"] ++ ['/'])) ++ ['\n']) =
      .path ["Photos", "2024"] :=
  parse_path (List.forall_mem_singleton.mpr rfl) (List.forall_mem_singleton.mpr rfl)
    (List.forall_mem_singleton.mpr rfl) (List.forall_mem_singleton.mpr rfl) (by simp) (by simp)
    fun c hc => by
      obtain rfl : '4' = c := Option.some.inj hc
      rfl

end Argument

/-! ## Folders by their names -/

namespace Drive

/-- The folder of a name in a folder: the first one that is listed. -/
def subfolder (d : Drive) (id : FileId) (name : String) : Option DriveFile :=
  (d.children (d.resolve id)).find? fun f => f.mimeType = folderMime && f.name = name

/-- The folder that names lead to, from a folder down. -/
def follow (d : Drive) : FileId → List String → Option FileId
  | id, [] => some id
  | id, name :: rest =>
    match d.subfolder id name with
    | none => none
    | some f => d.follow (.id f.num) rest

/-- Folders were made, and nothing else happened to the objects. -/
structure Adds (d : Drive) (made : List DriveFile) (d' : Drive) : Prop where
  rows : d'.files.table.rows = d.files.table.rows ++ made
  folders : ∀ f ∈ made, f.mimeType = folderMime
  root : d'.rootNum = d.rootNum

variable {md5 : List UInt8 → String} {d d' d'' : Drive} {made made' : List DriveFile}
  {id id' : FileId} {name : String} {names : List String} {f p : DriveFile}

lemma Adds.refl (d : Drive) : d.Adds [] d := ⟨(List.append_nil _).symm, by simp, rfl⟩

lemma Adds.trans (h : d.Adds made d') (h' : d'.Adds made' d'') : d.Adds (made ++ made') d'' where
  rows := by rw [h'.rows, h.rows, List.append_assoc]
  folders f hf := (List.mem_append.mp hf).elim (h.folders f) (h'.folders f)
  root := h'.root.trans h.root

lemma Adds.resolve (h : d.Adds made d') : d'.resolve id = d.resolve id := by
  cases id with
  | rootAlias => exact h.root
  | id n => rfl

/-- Every object stays what it is. -/
lemma Adds.file (h : d.Adds made d') (hf : d.file id = some f) : d'.file id = some f := by
  obtain ⟨hmem, hnum⟩ := Serial.get_eq_some.mp hf
  refine Serial.get_eq_some.mpr ⟨?_, hnum.trans h.resolve.symm⟩
  rw [Serial.mem_def, h.rows]
  exact List.mem_append_left _ hmem

/-- A name keeps its folder: what is made is listed behind it. -/
lemma Adds.subfolder (h : d.Adds made d') (hf : d.subfolder id name = some f) :
    d'.subfolder id name = some f := by
  rw [Drive.subfolder, children] at hf ⊢
  rw [h.rows, h.resolve, List.filter_append, List.find?_append, hf]
  rfl

/-- Names keep leading to their folder. -/
lemma Adds.follow (h : d.Adds made d') (hf : d.follow id names = some id') :
    d'.follow id names = some id' := by
  induction names generalizing id with
  | nil => exact hf
  | cons name rest ih =>
    rw [Drive.follow] at hf ⊢
    cases hsub : d.subfolder id name with
    | none => simp [hsub] at hf
    | some f =>
      rw [hsub] at hf
      rw [h.subfolder hsub]
      exact ih hf

/-- A folder that is made is the one of its name. -/
lemma exists_create (hp : d.file id = some p) (hnone : d.subfolder id name = none) :
    ∃ f d', d.create id name folderMime none = (some f, d') ∧ d.Adds [f] d' ∧ f.name = name ∧
      d'.subfolder id name = some f ∧ d'.file (.id f.num) = some f := by
  let f : DriveFile := ⟨d.files.next, name, folderMime, none, [p.num], false, true, true⟩
  let d' := (d.create id name folderMime none).2
  have hcreate : d.create id name folderMime none = (some f, d') := by
    simp only [d', create, hp]
    rfl
  have hadds : d.Adds [f] d' := by
    refine ⟨?_, by simp [f], ?_⟩
    · simp only [d', create, hp]
      rfl
    · simp only [d', create, hp]
  have hnum : p.num = d.resolve id := (Serial.get_eq_some.mp hp).2
  refine ⟨f, d', hcreate, hadds, rfl, ?_, ?_⟩
  · rw [subfolder, children] at hnone ⊢
    rw [hadds.rows, hadds.resolve, List.filter_append, List.find?_append, hnone]
    simp [f, hnum]
  · refine Serial.get_eq_some.mpr ⟨?_, rfl⟩
    rw [Serial.mem_def, hadds.rows]
    simp

lemma of_subfolder (h : d.subfolder id name = some f) :
    d.file (.id f.num) = some f ∧ f.mimeType = folderMime ∧ f.name = name := by
  have hmem := (List.mem_filter.mp (List.mem_of_find?_eq_some h)).1
  have hfolder := List.find?_some h
  simp only [Bool.and_eq_true, decide_eq_true_eq] at hfolder
  exact ⟨Serial.get_eq_some.mpr ⟨hmem, rfl⟩, hfolder⟩

/-- What the listing of a folder says about a name. -/
lemma find_listed : (((d.children (d.resolve id)).map (resource md5)).find? fun c =>
    c.isFolder && c.name = name) = (d.subfolder id name).map (resource md5) := by
  rw [List.find?_map]
  rfl

end Drive

/-! ## `resolve_path` -/

section Resolve

variable {env : Env} {w : World} {d' : Drive} {auto : Bool} {id id' : FileId} {name : String}
  {rest names : List String} {f : DriveFile}

lemma belowMyDrive_sublist : (belowMyDrive names).Sublist names := by
  unfold belowMyDrive
  split
  · exact .slnil
  · split
    · exact List.sublist_cons_self ..
    · exact .refl _

/-- The listing of a folder answers whether there is one of the next name. -/
lemma resolveSegments_cons (hcalm : w.remote.faults = []) :
    runTask env (resolveSegments auto id (name :: rest)) w =
      runTask env (match w.remote.drive.subfolder id name with
        | some f => resolveSegments auto (.id f.num) rest
        | none =>
          if auto then (request (.createFolder id name)).bind fun created =>
            resolveSegments auto created.id rest
          else .fail (.mapping ("no subfolder `" ++ name ++ "`"))) w := by
  simp only [runTask, resolveSegments, request, Prog.bind_eq, Prog.call_bind, Prog.run_call,
    handle_drive, Remote.send_of_no_faults hcalm, DriveCall.run, Prog.ofExcept_ok, Prog.pure_bind,
    Drive.find_listed]
  cases w.remote.drive.subfolder id name <;> rfl

/-- A folder that is there is entered. -/
lemma resolveSegments_found (hcalm : w.remote.faults = [])
    (hf : w.remote.drive.subfolder id name = some f) :
    runTask env (resolveSegments auto id (name :: rest)) w =
      runTask env (resolveSegments auto (.id f.num) rest) w := by
  rw [resolveSegments_cons hcalm, hf]

/-- Without permission a name that leads nowhere is an error. -/
lemma resolveSegments_missing (hcalm : w.remote.faults = [])
    (hnone : w.remote.drive.subfolder id name = none) :
    runTask env (resolveSegments false id (name :: rest)) w =
      (.error (.mapping ("no subfolder `" ++ name ++ "`")), w) := by
  rw [resolveSegments_cons hcalm, hnone]
  rfl

/-- With permission its folder is made, and entered. -/
lemma resolveSegments_made (hcalm : w.remote.faults = [])
    (hnone : w.remote.drive.subfolder id name = none)
    (hmade : w.remote.drive.create id name folderMime none = (some f, d')) :
    runTask env (resolveSegments true id (name :: rest)) w =
      runTask env (resolveSegments true (.id f.num) rest)
        { w with remote := { w.remote with drive := d' } } := by
  rw [resolveSegments_cons hcalm, hnone]
  simp only [runTask, if_true, request, Prog.call_bind, Prog.run_call, handle_drive,
    Remote.send_of_no_faults hcalm, DriveCall.run, hmade, Prog.ofExcept_ok, Prog.pure_bind]
  rfl

/-- **Names that lead to a folder** are resolved to it. -/
lemma resolveSegments_follow (hcalm : w.remote.faults = [])
    (hf : w.remote.drive.follow id names = some id') :
    runTask env (resolveSegments auto id names) w = (.ok id', w) := by
  induction names generalizing id with
  | nil =>
    obtain rfl : id = id' := Option.some.inj hf
    rfl
  | cons name rest ih =>
    rw [Drive.follow] at hf
    cases hsub : w.remote.drive.subfolder id name with
    | none => simp [hsub] at hf
    | some f =>
      rw [hsub] at hf
      rw [resolveSegments_found hcalm hsub]
      exact ih hf

/-- **Names that lead nowhere** are an error of the mapping. -/
lemma resolveSegments_nowhere (hcalm : w.remote.faults = [])
    (hnone : w.remote.drive.follow id names = none) :
    ∃ msg, runTask env (resolveSegments false id names) w = (.error (.mapping msg), w) := by
  induction names generalizing id with
  | nil => cases hnone
  | cons name rest ih =>
    cases hsub : w.remote.drive.subfolder id name with
    | none => exact ⟨_, resolveSegments_missing hcalm hsub⟩
    | some f =>
      rw [Drive.follow, hsub] at hnone
      rw [resolveSegments_found hcalm hsub]
      exact ih hnone

/-- **With permission** the folders that are missing are made, and the names then lead to the folder
that is answered. -/
lemma resolveSegments_makes (hcalm : w.remote.faults = [])
    (hdir : ∃ p, w.remote.drive.file id = some p ∧ p.mimeType = folderMime) :
    ∃ id' made d', runTask env (resolveSegments true id names) w =
        (.ok id', { w with remote := { w.remote with drive := d' } }) ∧
      w.remote.drive.Adds made d' ∧ (made.map DriveFile.name).Sublist names ∧
      d'.follow id names = some id' ∧ ∃ f, d'.file id' = some f ∧ f.mimeType = folderMime := by
  induction names generalizing id w with
  | nil => exact ⟨id, [], w.remote.drive, rfl, .refl _, .slnil, rfl, hdir⟩
  | cons name rest ih =>
    cases hsub : w.remote.drive.subfolder id name with
    | some f =>
      obtain ⟨hfile, hfolder, hname⟩ := Drive.of_subfolder hsub
      obtain ⟨id', made, d', hrun, hadds, hnames, hfollow, hfound⟩ := ih hcalm ⟨f, hfile, hfolder⟩
      refine ⟨id', made, d', (resolveSegments_found hcalm hsub).trans hrun, hadds,
        hnames.cons _, ?_, hfound⟩
      rw [Drive.follow, hadds.subfolder hsub]
      exact hfollow
    | none =>
      obtain ⟨p, hp, -⟩ := hdir
      obtain ⟨f, d₁, hmade, hadds, hname, hnow, hfile⟩ := Drive.exists_create hp hsub
      obtain ⟨id', made, d', hrun, hmore, hnames, hfollow, hfolder⟩ :=
        @ih { w with remote := { w.remote with drive := d₁ } } (.id f.num) hcalm
          ⟨f, hfile, hadds.folders f (.head _)⟩
      refine ⟨id', [f] ++ made, d', (resolveSegments_made hcalm hsub hmade).trans hrun,
        hadds.trans hmore, ?_, ?_, hfolder⟩
      · rw [List.singleton_append, List.map_cons, hname]
        exact hnames.cons_cons _
      · rw [Drive.follow, hmore.subfolder hnow]
        exact hfollow

end Resolve

/-! ## `map` -/

namespace Map

variable {env : Env} {w : World} {autoCreate confirmed : Bool} {localPath : String} {id : FileId}
  {segments : List String} {w' : World} {readId : List Char → FileId} {arg : List Char}

/-- Reading the name of the folder changes nothing, and cannot fail the command. -/
lemma run_getFileMeta (hcalm : w.remote.faults = []) :
    ∃ x, runTask env (getFileMeta id).attempt w = (.ok x, w) := by
  have hsame : (runTask env (getFileMeta id) w).2 = w := by
    simp only [runTask, getFileMeta, request, Prog.bind_eq, Prog.attempt_call,
      Prog.attempt_ofExcept, Prog.call_bind, Prog.run_call, Prog.pure_bind, handle_drive,
      Remote.send_of_no_faults hcalm, DriveCall.run, DriveCall.onFile]
    cases w.remote.drive.file id <;> rfl
  refine ⟨(runTask env (getFileMeta id) w).1, ?_⟩
  rw [runTask, Prog.run_attempt]
  exact congrArg _ hsame

/-- What follows the resolution records the mapping. -/
lemma run_map {spec : RemoteSpec}
    (hfolder : runTask env (remoteFolder autoCreate confirmed spec) w = (.ok id, w'))
    (hcalm : w'.remote.faults = []) :
    runTask env (map autoCreate confirmed localPath spec) w =
      (.ok (), { w' with db := { w'.db with mapping := some ⟨localPath, id, some spec⟩ } }) := by
  obtain ⟨x, hmeta⟩ := @run_getFileMeta env w' id hcalm
  rw [runTask, map, Prog.bind_eq, Prog.run_bind_ok _ hfolder, Prog.bind_eq,
    Prog.run_bind_ok _ hmeta]
  rfl

/-- A resolution that goes well is the folder of the command. -/
lemma remoteFolder_of_ok {spec : RemoteSpec}
    (hrun : runTask env (resolvePath autoCreate spec) w = (.ok id, w')) :
    runTask env (remoteFolder autoCreate confirmed spec) w = (.ok id, w') := by
  have hattempt : runTask env (resolvePath autoCreate spec).attempt w = (.ok (.ok id), w') := by
    rw [runTask, Prog.run_attempt]
    exact congrArg (fun r => (Except.ok r.1, r.2)) hrun
  rw [runTask, remoteFolder, Prog.bind_eq, Prog.run_bind_ok _ hattempt]
  rfl

/-- A path that leads nowhere is resolved again when the operator agrees. -/
lemma remoteFolder_confirmed {msg : String}
    (hnowhere : runTask env (resolvePath false (.path segments)) w = (.error (.mapping msg), w)) :
    runTask env (remoteFolder false true (.path segments)) w =
      runTask env (resolvePath true (.path segments)) w := by
  have hattempt : runTask env (resolvePath false (.path segments)).attempt w =
      (.ok (.error (.mapping msg)), w) := by
    rw [runTask, Prog.run_attempt]
    exact congrArg (fun r => (Except.ok r.1, r.2)) hnowhere
  rw [runTask, remoteFolder, Prog.bind_eq, Prog.run_bind_ok _ hattempt]
  rfl

/-- My Drive with nothing in it. -/
def emptyDrive : Drive where
  files := ⟨⟨[⟨31, "My Drive", folderMime, none, [], false, true, true⟩], by simp⟩, 32, by simp⟩
  rootNum := 31
  feed := []

end Map

end AirDrive
