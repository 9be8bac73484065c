import AirDrive.Data.Multipart
import AirDrive.Error
import AirDrive.Local.Tree

set_option relaxedAutoImplicit false
set_option autoImplicit false

/-!
# The body of an upload

A file is uploaded as a `multipart/related` body of two parts: the metadata as JSON, and the bytes
of the file. Texts are their bytes in UTF-8.

## Main definitions

* `AirDrive.RelatedBody.buildRelatedBody` — the body of an upload.
* `AirDrive.RelatedBody.startsValue` — how the text of a JSON value starts.

## Main results

* `AirDrive.RelatedBody.buildRelatedBody_eq` — the body is that of its two parts.
* `AirDrive.RelatedBody.related_body_parses` — the parts are read back.
-/

namespace AirDrive.RelatedBody

open Data.Multipart

/-- The bytes of an ASCII text. -/
def ascii (t : String) : Bytes := t.toList.map fun c => UInt8.ofNat c.toNat

variable {Value : Type} {toVec : Value → Except String Bytes} {boundary contentType content : Bytes}
  {metadata : Value} {text : Bytes}

/-- `build_related_body`, with the serialiser of JSON values. -/
def buildRelatedBody (toVec : Value → Except String Bytes) (boundary : Bytes) (metadata : Value)
    (contentType content : Bytes) : Except Error Bytes := do
  let metaBytes ← (toVec metadata).mapError fun e => .drive ("metadata serialisation: " ++ e)
  let out := ascii "--" ++ boundary ++ ascii "\r\n"
  let out := out ++ ascii "Content-Type: application/json; charset=UTF-8\r\n\r\n"
  let out := out ++ metaBytes
  let out := out ++ ascii "\r\n"
  let out := out ++ (ascii "--" ++ boundary ++ ascii "\r\n")
  let out := out ++ (ascii "Content-Type: " ++ contentType ++ ascii "\r\n\r\n")
  let out := out ++ content
  let out := out ++ ascii "\r\n"
  let out := out ++ (ascii "--" ++ boundary ++ ascii "--\r\n")
  pure out

/-- A part with its content type. -/
def partOf (contentType body : Bytes) : Part := ⟨[(ascii "Content-Type", contentType)], body⟩

/-- The content type of the metadata. -/
def jsonType : Bytes := ascii "application/json; charset=UTF-8"

/-- **The body** is that of its two parts. -/
lemma buildRelatedBody_eq (htext : toVec metadata = .ok text) :
    buildRelatedBody toVec boundary metadata contentType content =
      .ok (encode boundary [partOf jsonType text, partOf contentType content]) := by
  have hjson : ascii "Content-Type: application/json; charset=UTF-8\r\n\r\n" =
      headerLine (ascii "Content-Type", jsonType) ++ crlf ++ crlf := by decide +kernel
  have htype : ascii "Content-Type: " ++ contentType ++ ascii "\r\n\r\n" =
      headerLine (ascii "Content-Type", contentType) ++ crlf ++ crlf := by
    have hname : ascii "Content-Type: " = ascii "Content-Type" ++ [58, 32] := by decide +kernel
    have hend : ascii "\r\n\r\n" = crlf ++ crlf := by decide +kernel
    simp [hname, hend, headerLine]
  have hdashes : ascii "--" = dashes := by decide +kernel
  have hend : ascii "\r\n" = crlf := by decide +kernel
  have hclose : ascii "--\r\n" = dashes ++ crlf := by decide +kernel
  unfold buildRelatedBody
  rw [htext, hjson, htype, hdashes, hend, hclose]
  simp [Except.mapError, encode, partOf, Part.text, bind, Except.bind, pure, Except.pure]

/-! ## What does not contain the delimiter -/

/-- How the text of a JSON value starts: with a brace, a bracket, a quote, the first letter of a
literal, a digit, or a minus sign and a digit. -/
def startsValue : Bytes → Bool
  | [] => false
  | b :: rest =>
    [123, 91, 34, 116, 102, 110].contains b || (48 ≤ b && b ≤ 57) ||
      b = 45 && rest.head?.any fun d => 48 ≤ d && d ≤ 57

/-- The bytes of a boundary: letters, digits and dashes. -/
def isBoundaryByte (b : UInt8) : Bool :=
  65 ≤ b && b ≤ 90 || 97 ≤ b && b ≤ 122 || 48 ≤ b && b ≤ 57 || b = 45

lemma not_dashes_prefix (h : startsValue text = true) : ¬dashes <+: text := by
  rintro ⟨rest, rfl⟩
  have hnone : startsValue (dashes ++ rest) = false := rfl
  rw [hnone] at h
  cases h

/-- What the name of the header and the type of the metadata do not contain. -/
lemma notMem_header : 13 ∉ ascii "Content-Type" ∧ 58 ∉ ascii "Content-Type" ∧ 13 ∉ jsonType := by
  decide +kernel

lemma cr_notMem_headerLine (htype : 13 ∉ contentType) :
    13 ∉ headerLine (ascii "Content-Type", contentType) := by
  simp [headerLine, notMem_header.1, htype]

/-- The delimiter is not in the text of a part with a content type, when it is not in what follows
the header. -/
lemma fits_partOf {body : Bytes} (htype : 13 ∉ contentType)
    (h : ¬delimiter boundary <:+: crlf ++ body) : Fits boundary (partOf contentType body) where
  names := by
    intro field hfield
    rw [List.mem_singleton.mp hfield]
    exact notMem_header.2.1
  lines := by
    intro field hfield
    rw [List.mem_singleton.mp hfield]
    exact cr_notMem_headerLine htype
  delim := by
    intro hin
    have htext : (partOf contentType body).text =
        headerLine (ascii "Content-Type", contentType) ++ (crlf ++ (crlf ++ body)) := by
      simp [partOf, Part.text]
    rw [htext] at hin
    -- it does not start in the header line, nor at the end of that line
    have hend := @infix_of_append _ 13 (10 :: (dashes ++ boundary)) _ _ (cr_notMem_headerLine htype) hin
    rcases List.infix_cons_iff.mp hend with hpre | hrest
    · have hlf := (List.cons_prefix_cons.mp (List.cons_prefix_cons.mp hpre).2).2
      exact absurd (List.cons_prefix_cons.mp hlf).1 (by decide)
    · exact h (@infix_of_append _ 13 (10 :: (dashes ++ boundary)) _ [10] (by decide) hrest)

/-- The delimiter is not at the start of the metadata. -/
lemma not_infix_metadata (hstart : startsValue text = true)
    (h : ¬delimiter boundary <:+: text ++ crlf) : ¬delimiter boundary <:+: crlf ++ text := by
  intro hin
  rcases List.infix_cons_iff.mp hin with hpre | hrest
  · have hlf := (List.cons_prefix_cons.mp (List.cons_prefix_cons.mp hpre).2).2
    exact not_dashes_prefix hstart ((List.prefix_append dashes boundary).trans hlf)
  · have htext := @infix_of_append _ 13 (10 :: (dashes ++ boundary)) _ [10] (by decide) hrest
    exact h (htext.trans (List.prefix_append text crlf).isInfix)

/-- **The body of an upload parses back** to the metadata as JSON and to the bytes of the file, for
a serialiser that gives texts of JSON values. -/
theorem related_body_parses
    (htoVec : ∀ v text, toVec v = .ok text → startsValue text = true)
    (hboundary : ∀ b ∈ boundary, isBoundaryByte b = true)
    (htype : 13 ∉ contentType ∧ 10 ∉ contentType) (htext : toVec metadata = .ok text)
    (hmeta : ¬delimiter boundary <:+: text ++ crlf)
    (hcontent : ¬delimiter boundary <:+: crlf ++ content) :
    ∃ body, buildRelatedBody toVec boundary metadata contentType content = .ok body ∧
      parse boundary body =
        some [⟨[(ascii "Content-Type", ascii "application/json; charset=UTF-8")], text⟩,
          ⟨[(ascii "Content-Type", contentType)], content⟩] := by
  refine ⟨_, buildRelatedBody_eq htext, parse_encode (fun hin => ?_) fun p hp => ?_⟩
  · exact absurd (hboundary 13 hin) (by decide)
  · simp only [List.mem_cons, List.not_mem_nil, or_false] at hp
    rcases hp with rfl | rfl
    · exact fits_partOf notMem_header.2.2 (not_infix_metadata (htoVec _ _ htext) hmeta)
    · exact fits_partOf htype.1 hcontent

/-- The serialiser, for the metadata of one file. -/
def sampleToVec (_ : Unit) : Except String Bytes :=
  .ok (ascii "\x7b\"name\":\"hi.txt\",\"parents\":[\"p1\"]\x7d")

/-- A file whose bytes start with dashes and end in the middle of a line break. -/
theorem related_body_parses_dashes :
    ∃ body, buildRelatedBody sampleToVec (ascii "BND") () (ascii "text/plain") (ascii "--BN\r") =
        .ok body ∧
      parse (ascii "BND") body =
        some [⟨[(ascii "Content-Type", ascii "application/json; charset=UTF-8")],
            ascii "\x7b\"name\":\"hi.txt\",\"parents\":[\"p1\"]\x7d"⟩,
          ⟨[(ascii "Content-Type", ascii "text/plain")], ascii "--BN\r"⟩] :=
  related_body_parses (fun v text h => by
      obtain rfl := Except.ok.inj h
      decide +kernel)
    (by decide +kernel) (by decide +kernel) rfl (by decide +kernel) (by decide +kernel)

end AirDrive.RelatedBody
