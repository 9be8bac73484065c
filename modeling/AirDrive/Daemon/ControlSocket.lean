import AirDrive.Data.Lines
import AirDrive.Daemon.FileStatus

set_option relaxedAutoImplicit false
set_option autoImplicit false

/-!
# The control socket

A client of the daemon sends one line and gets a text. For the entries of a directory the text has a
line for each of them, the token and the name with a tab between them, and nothing is escaped. The
overlay of the file manager splits the text with `str.splitlines`, which ends a line at more
characters than the newline; and the daemon reads the request up to the first newline and cuts off
line ends. So names and directories survive that contain none of these characters.

## Main definitions

* `AirDrive.ControlSocket.handleClient` — the server's answer to what a client sent.
* `AirDrive.ControlSocket.dirRequest`, `AirDrive.ControlSocket.queryDir` — the overlay's request for
  a directory, and what it makes of the answer.
* `AirDrive.ControlSocket.RoundTrips` — both arrive as they were sent.

## Main results

* `AirDrive.ControlSocket.reply_roundTrips_iff` — which entries and directories survive.
* `AirDrive.ControlSocket.handleClient_dirRequest` — the answer to the request for a directory.
-/

namespace AirDrive.ControlSocket

open Data.Lines FileStatus

/-! ## The server -/

/-- `read_line`: up to the first newline and with it. -/
def readLine : List Char → List Char
  | [] => []
  | c :: t => if c = '\n' then [c] else c :: readLine t

/-- `trim_end_matches(['\n', '\r'])`. -/
def trimEnd (line : List Char) : List Char := line.rdropWhile fun c => c = '\n' || c = '\r'

/-- The line of a request. -/
def requestLine (sent : List Char) : List Char := trimEnd (readLine sent)

/-- `Path::new`, for an absolute path: the components of its text. A relative path is neither the
root nor below it. -/
def absPath (t : List Char) : Option AbsPath :=
  if t.head? = some '/' then
    some (((t.splitOn '/').map String.ofList).filter fun x => x ≠ "" ∧ x ≠ ".")
  else none

/-- The answer to `status-dir`: one line for each entry. -/
def dirReply (dirEntries : List (String × Token)) : List Char :=
  dirEntries.flatMap fun e => e.2.text.toList ++ '\t' :: e.1.toList ++ ['\n']

/-- `drive_url`, without the text around the id. -/
def driveUrl (db : Db) (localRoot abs : AbsPath) : Option FileId :=
  match abs.dropPrefix? localRoot with
  | none => none
  | some rel =>
    if rel = [] then db.mapping.map (·.remoteFolderId)
    else (db.items.getByRelativePath (RelPath.normalise rel)).bind (·.remoteId)

/-- What a client gets. -/
inductive Served
  /-- One text, after which the connection is closed. -/
  | reply (text : List Char)
  /-- A line whenever something is synced. -/
  | stream
deriving DecidableEq

/-- What precedes the directory in a request. -/
def dirCommand : List Char := "status-dir ".toList

/-- `handle_client`: whether the daemon is paused after it, and what the client gets. -/
def handleClient (idText : FileId → List Char) (db : Db) (localRoot : AbsPath) (paused : Bool)
    (sent : List Char) : Bool × Served :=
  let line := requestLine sent
  if line = "subscribe".toList then (paused, .stream)
  else if line = "pause".toList then (true, .reply "ok\n".toList)
  else if line = "resume".toList then (false, .reply "ok\n".toList)
  else if line = "pause-state".toList then
    (paused, .reply (if paused then "paused\n".toList else "running\n".toList))
  else if line = "status-snapshot".toList then (paused, .reply "\x7b\"alive\":true\x7d\n".toList)
  else
    match line.dropPrefix? "status-path ".toList with
    | some path =>
      let token := ((absPath path).map (statusPath db localRoot)).getD .unknown
      (paused, .reply (token.text.toList ++ ['\n']))
    | none =>
      match line.dropPrefix? dirCommand with
      | some dir => (paused, .reply (dirReply (((absPath dir).map (dirStatus db localRoot)).getD [])))
      | none =>
        match line.dropPrefix? "drive-url ".toList with
        | some path =>
          match (absPath path).bind (driveUrl db localRoot) with
          | some id =>
            (paused, .reply ("https://drive.google.com/open?id=".toList ++ idText id ++ ['\n']))
          | none => (paused, .reply "unknown\n".toList)
        | none => (paused, .reply "error: unknown command\n".toList)

/-- The directory that the server takes from a request line. -/
def requestedDir (sent : List Char) : Option (List Char) :=
  (requestLine sent).dropPrefix? dirCommand

/-! ## The overlay -/

/-- `_query_dir`: the request. -/
def dirRequest (dir : List Char) : List Char := dirCommand ++ dir ++ ['\n']

/-- A Python dictionary that is filled in turn: the last value of a key stays. -/
def toDict (l : List (List Char × List Char)) : List Char → Option (List Char) :=
  l.foldl (fun d e name => if name = e.1 then some e.2 else d name) fun _ => none

/-- `_query_dir`: the tokens by name. -/
def queryDir (reply : List Char) : List Char → Option (List Char) :=
  toDict <| (splitlines reply).filterMap fun line =>
    match partition '\t' line with
    | (token, sep, name) => if sep ∧ name ≠ [] then some (name, token) else none

/-- The mapping that entries stand for. -/
def mapping (dirEntries : List (String × Token)) : List Char → Option (List Char) :=
  toDict (dirEntries.map fun e => (e.1.toList, e.2.text.toList))

/-- The entries arrive as the server sends them, and the directory as the overlay does. -/
structure RoundTrips (dirEntries : List (String × Token)) (dir : List Char) : Prop where
  reply : queryDir (dirReply dirEntries) = mapping dirEntries
  request : requestedDir (dirRequest dir) = some dir

/-- A name for a file. -/
def FileName (x : String) : Prop := x ≠ "" ∧ '/' ∉ x.toList ∧ '\x00' ∉ x.toList

instance (x : String) : Decidable (FileName x) := inferInstanceAs (Decidable (_ ∧ _))

section Dict

variable {l : List (List Char × List Char)} {name : List Char}

lemma toDict_isSome : (toDict l name).isSome ↔ ∃ e ∈ l, e.1 = name := by
  have hfold : ∀ (l : List (List Char × List Char)) (d : List Char → Option (List Char)),
      (l.foldl (fun d e name => if name = e.1 then some e.2 else d name) d name).isSome ↔
        (∃ e ∈ l, e.1 = name) ∨ (d name).isSome := by
    intro l
    induction l with
    | nil => simp
    | cons e l ih =>
      intro d
      rw [List.foldl_cons, ih]
      by_cases h : name = e.1
      · simp [h]
      · simp [h, Ne.symm h]
  simpa [toDict] using hfold l fun _ => none

end Dict

/-! ## The reply -/

section Reply

variable {dirEntries : List (String × Token)}

lemma text_unbroken (t : Token) : Unbroken t.text.toList ∧ '\t' ∉ t.text.toList := by
  cases t <;> simp [Token.text, Unbroken] <;> decide

/-- What is read is a name without line breaks. -/
lemma queryDir_isSome {reply name : List Char} (h : (queryDir reply name).isSome) :
    name ≠ [] ∧ Unbroken name := by
  obtain ⟨e, he, rfl⟩ := toDict_isSome.mp h
  obtain ⟨line, hline, hentry⟩ := List.mem_filterMap.mp he
  have hsuffix := partition_suffix '\t' line
  rcases hpart : partition '\t' line with ⟨token, sep, name⟩
  rw [hpart] at hentry hsuffix
  simp only at hentry
  split_ifs at hentry with hkept
  obtain rfl := Option.some.inj hentry
  exact ⟨hkept.2, fun c hc => unbroken_of_splitlines hline c (hsuffix.subset hc)⟩

/-- **The entries are read as they were written** exactly when no name is empty or contains what ends
a line. -/
lemma queryDir_dirReply_iff : queryDir (dirReply dirEntries) = mapping dirEntries ↔
    ∀ e ∈ dirEntries, e.1 ≠ "" ∧ Unbroken e.1.toList := by
  constructor
  · intro h e he
    have hkey : (mapping dirEntries e.1.toList).isSome :=
      toDict_isSome.mpr ⟨_, List.mem_map_of_mem he, rfl⟩
    rw [← h] at hkey
    obtain ⟨hne, hunbroken⟩ := queryDir_isSome hkey
    exact ⟨fun hblank => hne (by simp [hblank]), hunbroken⟩
  · intro h
    have hlines : splitlines (dirReply dirEntries) =
        dirEntries.map fun e => e.2.text.toList ++ '\t' :: e.1.toList := by
      have hended := @splitlines_ended
        (dirEntries.map fun e => e.2.text.toList ++ '\t' :: e.1.toList) fun x hx => by
          obtain ⟨e, he, rfl⟩ := List.mem_map.mp hx
          intro c hc
          rcases List.mem_append.mp hc with hc | hc
          · exact (text_unbroken e.2).1 c hc
          · rcases List.mem_cons.mp hc with rfl | hc
            · decide
            · exact (h e he).2 c hc
      rwa [List.flatMap_map] at hended
    have hread : ∀ e ∈ dirEntries, (match partition '\t' (e.2.text.toList ++ '\t' :: e.1.toList) with
        | (token, sep, name) => if sep ∧ name ≠ [] then some (name, token) else none) =
          some (e.1.toList, e.2.text.toList) := by
      intro e he
      have hne : e.1.toList ≠ [] := fun hnil => (h e he).1 (by simpa using hnil)
      rw [partition_append (text_unbroken e.2).2]
      simp [hne]
    rw [queryDir, mapping, hlines, List.filterMap_map]
    congr 1
    rw [← List.filterMap_eq_map]
    exact List.filterMap_congr hread

end Reply

/-! ## The request -/

section Request

variable {dir : List Char}

lemma dirCommand_eq :
    dirCommand = ['s', 't', 'a', 't', 'u', 's', '-', 'd', 'i', 'r', ' '] := by decide +kernel

lemma readLine_append {t : List Char} (ht : '\n' ∉ t) (rest : List Char) :
    readLine (t ++ '\n' :: rest) = t ++ ['\n'] := by
  induction t with
  | nil => simp [readLine]
  | cons c t ih =>
    obtain ⟨hc, ht⟩ := not_or.mp (mt List.mem_cons.mpr ht)
    simp [readLine, Ne.symm hc, ih ht]

/-- A line is read up to the first newline, if there is one. -/
lemma readLine_cases (t : List Char) :
    ∃ s, '\n' ∉ s ∧ (readLine t = s ∨ readLine t = s ++ ['\n']) := by
  induction t with
  | nil => exact ⟨[], by simp, .inl rfl⟩
  | cons c t ih =>
    by_cases hc : c = '\n'
    · exact ⟨[], by simp, .inr (by simp [readLine, hc])⟩
    · obtain ⟨s, hs, hread⟩ := ih
      refine ⟨c :: s, by simp [Ne.symm hc, hs], hread.imp (fun h => ?_) fun h => ?_⟩
      all_goals simp [readLine, hc, h]

lemma trimEnd_newline (t : List Char) : trimEnd (t ++ ['\n']) = trimEnd t :=
  List.rdropWhile_concat_pos _ _ _ (by simp)

/-- A request line contains no newline. -/
lemma newline_not_mem_requestLine (sent : List Char) : '\n' ∉ requestLine sent := by
  obtain ⟨s, hs, hread | hread⟩ := readLine_cases sent
  · rw [requestLine, hread]
    exact fun h => hs ((List.rdropWhile_prefix _ _).subset h)
  · rw [requestLine, hread, trimEnd_newline]
    exact fun h => hs ((List.rdropWhile_prefix _ _).subset h)

/-- The line of a request, if there is one directory in it. -/
lemma requestedDir_eq_some {sent : List Char} :
    requestedDir sent = some dir ↔ requestLine sent = dirCommand ++ dir := by
  rw [requestedDir, List.dropPrefix?_eq_some_iff]
  constructor
  · rintro ⟨pre, hline, hpre⟩
    rw [hline, eq_of_beq hpre]
  · exact fun h => ⟨_, h, by simp⟩

/-- The line of a request for a directory without a newline. -/
lemma requestLine_dirRequest (hdir : '\n' ∉ dir) :
    requestLine (dirRequest dir) = trimEnd (dirCommand ++ dir) := by
  have hcommand : '\n' ∉ dirCommand := by simp [dirCommand_eq]
  have hline : '\n' ∉ dirCommand ++ dir := fun h =>
    (List.mem_append.mp h).elim hcommand hdir
  rw [requestLine, dirRequest, readLine_append hline, trimEnd_newline]

/-- What the end of a line is trimmed to. -/
lemma trimEnd_eq_self {pre : List Char} (hpre : trimEnd pre = pre) (hdir : '\n' ∉ dir) :
    trimEnd (pre ++ dir) = pre ++ dir ↔ dir.getLast? ≠ some '\r' := by
  cases dir using List.reverseRecOn with
  | nil => simpa using hpre
  | append_singleton dir c =>
    have hc : c ≠ '\n' := fun h => hdir (by simp [h])
    rw [trimEnd, ← List.append_assoc, List.rdropWhile_eq_self_iff]
    simp [hc]

/-- **The directory is read as it was sent** exactly when it contains no newline and does not end
with a carriage return. -/
lemma requestedDir_iff : requestedDir (dirRequest dir) = some dir ↔
    '\n' ∉ dir ∧ dir.getLast? ≠ some '\r' := by
  rw [requestedDir_eq_some]
  have hcommand : trimEnd dirCommand = dirCommand := by rw [dirCommand_eq]; rfl
  constructor
  · intro h
    have hdir : '\n' ∉ dir := fun hmem =>
      newline_not_mem_requestLine (dirRequest dir) (h ▸ List.mem_append_right _ hmem)
    rw [requestLine_dirRequest hdir] at h
    exact ⟨hdir, (trimEnd_eq_self hcommand hdir).mp h⟩
  · rintro ⟨hdir, hlast⟩
    rw [requestLine_dirRequest hdir]
    exact (trimEnd_eq_self hcommand hdir).mpr hlast

/-- What begins differently is another command. -/
lemma dirCommand_append_ne {c : List Char} (hc : c.take 8 ≠ dirCommand.take 8) :
    dirCommand ++ dir ≠ c := by
  rintro rfl
  exact hc (List.take_append_of_le_length (by simp [dirCommand_eq]))

/-- **The answer to the request for a directory.** -/
lemma handleClient_dirRequest (idText : FileId → List Char) (db : Db) (localRoot : AbsPath)
    (paused : Bool) {path : AbsPath} (hdir : requestedDir (dirRequest dir) = some dir)
    (hpath : absPath dir = some path) :
    handleClient idText db localRoot paused (dirRequest dir) =
      (paused, .reply (dirReply (dirStatus db localRoot path))) := by
  have hline := requestedDir_eq_some.mp hdir
  have hpathCommand : (dirCommand ++ dir).dropPrefix? "status-path ".toList = none := by
    cases hdrop : (dirCommand ++ dir).dropPrefix? "status-path ".toList with
    | none => rfl
    | some rest =>
      obtain ⟨pre, heq, hpre⟩ := List.dropPrefix?_eq_some_iff.mp hdrop
      rw [eq_of_beq hpre] at heq
      refine absurd heq (dirCommand_append_ne ?_)
      rw [List.take_append_of_le_length (by simp)]
      simp [dirCommand_eq]
  have hdirCommand : (dirCommand ++ dir).dropPrefix? dirCommand = some dir :=
    List.dropPrefix?_append_of_beq _ (by simp)
  simp only [handleClient, hline, hpathCommand, hdirCommand, hpath]
  rw [if_neg (dirCommand_append_ne (by simp [dirCommand_eq])),
    if_neg (dirCommand_append_ne (by simp [dirCommand_eq])),
    if_neg (dirCommand_append_ne (by simp [dirCommand_eq])),
    if_neg (dirCommand_append_ne (by simp [dirCommand_eq])),
    if_neg (dirCommand_append_ne (by simp [dirCommand_eq]))]
  rfl

end Request

/-- **The protocol for a directory round-trips** exactly when no name is empty or contains a
character at which Python ends a line, and the directory contains no newline and does not end with a
carriage return. -/
theorem reply_roundTrips_iff (dirEntries : List (String × Token)) (dir : List Char) :
    RoundTrips dirEntries dir ↔
      (∀ e ∈ dirEntries, e.1 ≠ "" ∧ Unbroken e.1.toList) ∧
        '\n' ∉ dir ∧ dir.getLast? ≠ some '\r' := by
  rw [← queryDir_dirReply_iff, ← requestedDir_iff]
  exact ⟨fun h => ⟨h.reply, h.request⟩, fun h => ⟨h.1, h.2⟩⟩

/-- A name with a form feed, which the overlay takes for two lines. -/
theorem broken_name_lost :
    ¬∀ (dirEntries : List (String × Token)) (dir : List Char),
      (∀ e ∈ dirEntries, FileName e.1) → (dirEntries.map Prod.fst).Nodup →
        RoundTrips dirEntries dir := by
  intro h
  have hreply := (h [("a\x0cb", .synced)] "/home".toList (by decide) (by decide)).reply
  have hlost := congrFun hreply "a\x0cb".toList
  exact absurd hlost (by decide +kernel)

end AirDrive.ControlSocket
