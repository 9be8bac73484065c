import AirDrive.World

set_option relaxedAutoImplicit false
set_option autoImplicit false

/-!
# Shortcuts for native documents

Native Google documents have no bytes to sync; the daemon writes a pointer file in their place.

## Main definitions

* `AirDrive.Shortcut.isNative`, `AirDrive.Shortcut.extension`, `AirDrive.Shortcut.relativePath`.
* `AirDrive.Shortcut.content` — the body of the pointer file.
* `AirDrive.Shortcut.write` — writing it.
-/

namespace AirDrive.Shortcut

open Effect

/-- `NATIVE_PREFIX`. -/
def nativePrefix : String := "application/vnd.google-apps."

/-- `is_native`: a native Google format other than a folder. -/
def isNative (mime : String) : Bool :=
  nativePrefix.toList.isPrefixOf mime.toList && mime ≠ folderMime

/-- `extension`: the file extension of a pointer. -/
def extension (mime : String) : String :=
  match mime with
  | "application/vnd.google-apps.document" => "gdoc"
  | "application/vnd.google-apps.spreadsheet" => "gsheet"
  | "application/vnd.google-apps.presentation" => "gslides"
  | "application/vnd.google-apps.drawing" => "gdraw"
  | "application/vnd.google-apps.form" => "gform"
  | "application/vnd.google-apps.script" => "gscript"
  | "application/vnd.google-apps.site" => "gsite"
  | "application/vnd.google-apps.jam" => "gjam"
  | "application/vnd.google-apps.map" => "gmap"
  | _ => "glink"

/-- The text of an id in a URL. -/
def idText : FileId → String
  | .rootAlias => "root"
  | .id n => "drv" ++ Nat.repr n

/-- `web_url`: the address that opens the document. -/
def webUrl (mime : String) (id : FileId) : String :=
  match mime with
  | "application/vnd.google-apps.document" =>
    "https://docs.google.com/document/d/" ++ idText id ++ "/edit"
  | "application/vnd.google-apps.spreadsheet" =>
    "https://docs.google.com/spreadsheets/d/" ++ idText id ++ "/edit"
  | "application/vnd.google-apps.presentation" =>
    "https://docs.google.com/presentation/d/" ++ idText id ++ "/edit"
  | "application/vnd.google-apps.drawing" =>
    "https://docs.google.com/drawings/d/" ++ idText id ++ "/edit"
  | "application/vnd.google-apps.form" =>
    "https://docs.google.com/forms/d/" ++ idText id ++ "/edit"
  | "application/vnd.google-apps.script" =>
    "https://script.google.com/d/" ++ idText id ++ "/edit"
  | _ => "https://drive.google.com/open?id=" ++ idText id

/-- `relative_path`: the document's path with the extension appended to its last component. -/
def relativePath (base : RelPath) (mime : String) : RelPath :=
  base.dropLast ++ [base.getLastD "" ++ "." ++ extension mime]

/-- A JSON string literal. -/
def jsonString (s : String) : String :=
  "\"" ++ String.ofList (s.toList.flatMap fun c =>
    if c = '"' then ['\\', '"'] else if c = '\\' then ['\\', '\\'] else [c]) ++ "\""

/-- `content`: the JSON body of the pointer file. -/
def content (mime : String) (id : FileId) : String :=
  "\x7b\n  \"doc_id\": " ++ jsonString (idText id) ++
    ",\n  \"mime_type\": " ++ jsonString mime ++
    ",\n  \"resource_key\": null,\n  \"url\": " ++ jsonString (webUrl mime id) ++ "\n\x7d\n"

/-- The bytes of a text. -/
def bytes (body : String) : Bytes := body.toUTF8.data.toList

/-- `write`: write a pointer file, making its parent directories. -/
def write (rel : RelPath) (body : String) : Task Unit := do
  ioTry (.createDirAll rel.parentDir)
  ioTry (.writeFile rel (bytes body))

end AirDrive.Shortcut
