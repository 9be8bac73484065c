import Mathlib.Data.List.Infix
import Mathlib.Tactic.Lemma

set_option relaxedAutoImplicit false
set_option autoImplicit false

/-!
# Multipart bodies

A multipart body is a sequence of parts between delimiters: a delimiter is a line break, two dashes
and the boundary, and the last one has two more dashes. A part is a list of header lines, a blank
line, and bytes of any kind. The reader cuts the body at the first occurrence of the delimiter, and
again behind it.

## Main definitions

* `Data.Multipart.breakOn` — what is before and after the first occurrence of a pattern.
* `Data.Multipart.Part`, `Data.Multipart.encode` — parts and the body that is written of them.
* `Data.Multipart.parse` — the parts of a body.

## Main results

* `Data.Multipart.breakOn_append` — a pattern whose first letter does not come again is found where
  it was put.
* `Data.Multipart.parse_encode` — parts that do not contain the delimiter are read as they were
  written.
-/

namespace Data.Multipart

/-! ## The first occurrence of a pattern -/

section Search

variable {α : Type} [DecidableEq α] {c : α} {pat rest s t u : List α}

/-- What is before and after the first occurrence of a pattern. -/
def breakOn (pat : List α) : List α → Option (List α × List α)
  | [] => if pat = [] then some ([], []) else none
  | x :: s =>
    if pat.isPrefixOf (x :: s) then some ([], (x :: s).drop pat.length)
    else (breakOn pat s).map fun r => (x :: r.1, r.2)

lemma breakOn_of_prefix : breakOn (c :: rest) ((c :: rest) ++ t) = some ([], t) := by
  have hpre := List.isPrefixOf_iff_prefix.mpr (List.prefix_append (c :: rest) t)
  rw [List.cons_append] at hpre ⊢
  rw [breakOn, if_pos hpre]
  simp

lemma breakOn_of_not_prefix {x : α} (h : ¬pat <+: x :: s) :
    breakOn pat (x :: s) = (breakOn pat s).map fun r => (x :: r.1, r.2) := by
  rw [breakOn, if_neg fun hpre => h (List.isPrefixOf_iff_prefix.mp hpre)]

omit [DecidableEq α] in
/-- **Two occurrences** of a pattern whose first letter does not come again do not overlap. -/
lemma prefix_of_overlap (hc : c ∉ rest) (hu : u ≠ [])
    (h : (c :: rest) <+: u ++ ((c :: rest) ++ t)) : (c :: rest) <+: u := by
  rcases List.prefix_or_prefix_of_prefix h (List.prefix_append u _) with hpre | hpre
  · exact hpre
  · obtain ⟨v, hv⟩ := hpre
    have hover : v <+: (c :: rest) ++ t := by
      rw [← List.prefix_append_right_inj u, hv]
      exact h
    cases v with
    | nil =>
      rw [List.append_nil] at hv
      exact hv ▸ List.prefix_refl u
    | cons d v =>
      obtain rfl : d = c := (List.cons_prefix_cons.mp hover).1
      cases u with
      | nil => exact absurd rfl hu
      | cons e u =>
        obtain ⟨-, hrest⟩ := List.cons.inj hv
        exact absurd (hrest ▸ List.mem_append_right u (.head v)) hc

/-- **A pattern** whose first letter does not come again is found where it was put. -/
lemma breakOn_append (hc : c ∉ rest) (hs : ¬(c :: rest) <:+: s) :
    breakOn (c :: rest) (s ++ ((c :: rest) ++ t)) = some (s, t) := by
  induction s with
  | nil => exact breakOn_of_prefix
  | cons x s ih =>
    have hnone : ¬(c :: rest) <+: x :: (s ++ ((c :: rest) ++ t)) := fun h =>
      hs (prefix_of_overlap hc (List.cons_ne_nil x s) h).isInfix
    rw [List.cons_append, breakOn_of_not_prefix hnone,
      ih fun h => hs (h.trans (List.suffix_cons x s).isInfix)]
    rfl

omit [DecidableEq α] in
/-- A pattern is not found in letters that do not have its first one. -/
lemma infix_of_append (hc : c ∉ u) (h : (c :: rest) <:+: u ++ s) : (c :: rest) <:+: s := by
  induction u with
  | nil => exact h
  | cons x u ih =>
    rcases List.infix_cons_iff.mp h with hpre | hin
    · exact absurd (List.cons_prefix_cons.mp hpre).1 fun heq => hc (heq ▸ .head u)
    · exact ih (fun hmem => hc (.tail x hmem)) hin

end Search

/-! ## Bodies -/

/-- A line break. -/
def crlf : List UInt8 := [13, 10]

@[simp] lemma length_crlf : crlf.length = 2 := rfl

/-- Two dashes. -/
def dashes : List UInt8 := [45, 45]

/-- A part: its header fields and its bytes. -/
structure Part where
  headers : List (List UInt8 × List UInt8)
  body : List UInt8
deriving DecidableEq, Repr

/-- A line break, two dashes and the boundary. -/
def delimiter (boundary : List UInt8) : List UInt8 := crlf ++ dashes ++ boundary

/-- A header line, without its end. -/
def headerLine (field : List UInt8 × List UInt8) : List UInt8 := field.1 ++ 58 :: 32 :: field.2

/-- The text of a part: its header lines, a blank line and its bytes. -/
def Part.text (p : Part) : List UInt8 :=
  (p.headers.map fun field => headerLine field ++ crlf).flatten ++ crlf ++ p.body

/-- The body of a list of parts. -/
def encode (boundary : List UInt8) : List Part → List UInt8
  | [] => dashes ++ boundary ++ dashes ++ crlf
  | p :: ps => dashes ++ boundary ++ crlf ++ p.text ++ crlf ++ encode boundary ps

/-- Spaces and tabs may stand at the end of a line with a boundary. -/
def isBlank (b : UInt8) : Bool := b = 32 || b = 9

/-- A header field: what is before and after the first colon, and a space after it. -/
def parseHeader (line : List UInt8) : Option (List UInt8 × List UInt8) :=
  (breakOn [58] line).map fun r => (r.1, if r.2.head? = some 32 then r.2.tail else r.2)

/-- The header fields of a part and its bytes. -/
def parseFields : ℕ → List UInt8 → Option (List (List UInt8 × List UInt8) × List UInt8)
  | 0, _ => none
  | fuel + 1, s =>
    match breakOn crlf s with
    | none => if s = [] then some ([], []) else (parseHeader s).map fun field => ([field], [])
    | some (line, rest) =>
      if line = [] then some ([], rest)
      else
        (parseHeader line).bind fun field =>
          (parseFields fuel rest).map fun r => (field :: r.1, r.2)

/-- A part. -/
def parsePart (s : List UInt8) : Option Part :=
  (parseFields (s.length + 1) s).map fun r => ⟨r.1, r.2⟩

/-- The parts behind a delimiter. -/
def parseParts (delim : List UInt8) : ℕ → List UInt8 → Option (List Part)
  | 0, _ => none
  | fuel + 1, s =>
    if dashes.isPrefixOf s then
      -- the last delimiter, and the end of its line
      let after := (s.drop 2).dropWhile isBlank
      if after = [] ∨ crlf.isPrefixOf after then some [] else none
    else
      let line := s.dropWhile isBlank
      if crlf.isPrefixOf line then
        (breakOn delim (line.drop 2)).bind fun r =>
          (parsePart r.1).bind fun p => (parseParts delim fuel r.2).map fun ps => p :: ps
      else none

/-- The parts of a body: what is before the first delimiter and after the last one is left out. -/
def parse (boundary body : List UInt8) : Option (List Part) :=
  (breakOn (delimiter boundary) (crlf ++ body)).bind fun r =>
    parseParts (delimiter boundary) body.length r.2

/-! ## Reading back what was written -/

variable {boundary delim rest : List UInt8} {p : Part} {ps : List Part} {fuel : ℕ}

/-- A part that is read as it was written: no header name has a colon, no header has a line break,
and the delimiter does not occur in the text. -/
structure Fits (boundary : List UInt8) (p : Part) : Prop where
  names : ∀ field ∈ p.headers, 58 ∉ field.1
  lines : ∀ field ∈ p.headers, 13 ∉ headerLine field
  delim : ¬delimiter boundary <:+: p.text

lemma parseHeader_headerLine {field : List UInt8 × List UInt8} (h : 58 ∉ field.1) :
    parseHeader (headerLine field) = some field := by
  have hfound : breakOn [58] (field.1 ++ ([58] ++ 32 :: field.2)) = some (field.1, 32 :: field.2) :=
    breakOn_append (by simp) fun hin => h (hin.subset (.head _))
  rw [parseHeader, show headerLine field = field.1 ++ ([58] ++ 32 :: field.2) from rfl, hfound]
  rfl

/-- A line is read up to its end. -/
lemma breakOn_crlf {line : List UInt8} (h : 13 ∉ line) :
    breakOn crlf (line ++ (crlf ++ rest)) = some (line, rest) :=
  breakOn_append (by decide) fun hin => h (hin.subset (.head _))

/-- **The header fields** are read back, and the bytes behind the blank line. -/
lemma parseFields_text {headers : List (List UInt8 × List UInt8)} {body : List UInt8}
    (hnames : ∀ field ∈ headers, 58 ∉ field.1) (hlines : ∀ field ∈ headers, 13 ∉ headerLine field)
    (hfuel : headers.length < fuel) :
    parseFields fuel ((headers.map fun field => headerLine field ++ crlf).flatten ++ crlf ++ body) =
      some (headers, body) := by
  induction headers generalizing fuel with
  | nil =>
    obtain ⟨fuel, rfl⟩ := Nat.exists_eq_add_of_lt hfuel
    have hblank : breakOn crlf (crlf ++ body) = some ([], body) := breakOn_of_prefix
    simp only [parseFields, List.map_nil, List.flatten_nil, List.nil_append, hblank, if_true]
  | cons field headers ih =>
    obtain ⟨fuel, rfl⟩ : ∃ k, fuel = k + 1 := ⟨fuel - 1, by omega⟩
    have hline := @breakOn_crlf ((headers.map fun field => headerLine field ++ crlf).flatten ++ crlf ++
      body) _ (hlines field (.head _))
    have hne : headerLine field ≠ [] := by simp [headerLine]
    have hrest := ih (fun f hf => hnames f (.tail _ hf)) (fun f hf => hlines f (.tail _ hf))
      (Nat.lt_of_succ_lt_succ hfuel)
    simp only [List.map_cons, List.flatten_cons, List.append_assoc] at hline hrest ⊢
    simp only [parseFields, hline, if_neg hne, parseHeader_headerLine (hnames field (.head _)),
      Option.bind_some, hrest, Option.map_some]

/-- **A part** is read back. -/
lemma parsePart_text (h : Fits boundary p) : parsePart p.text = some p := by
  have hlen : p.headers.length < p.text.length + 1 := by
    have hheaders : p.headers.length ≤
        (p.headers.map fun field => headerLine field ++ crlf).flatten.length := by
      generalize p.headers = headers
      induction headers with
      | nil => exact Nat.zero_le _
      | cons field headers ih =>
        simp only [List.map_cons, List.flatten_cons, List.length_append, List.length_cons, length_crlf]
        omega
    simp only [Part.text, List.length_append]
    omega
  have hfields : parseFields (p.text.length + 1) p.text = some (p.headers, p.body) :=
    parseFields_text h.names h.lines hlen
  rw [parsePart, hfields]
  rfl

/-- What is behind the delimiter before a list of parts. -/
def tail (boundary : List UInt8) : List Part → List UInt8
  | [] => dashes ++ crlf
  | p :: ps => crlf ++ (p.text ++ (delimiter boundary ++ tail boundary ps))

lemma crlf_encode (boundary : List UInt8) (ps : List Part) :
    crlf ++ encode boundary ps = delimiter boundary ++ tail boundary ps := by
  induction ps with
  | nil => simp [encode, tail, delimiter]
  | cons p ps ih =>
    rw [tail, ← ih]
    simp [encode, delimiter]

/-- A delimiter at the end of its line. -/
lemma parseParts_crlf (delim s : List UInt8) (fuel : ℕ) :
    parseParts delim (fuel + 1) (crlf ++ s) = (breakOn delim s).bind fun r =>
      (parsePart r.1).bind fun p => (parseParts delim fuel r.2).map fun ps => p :: ps := rfl

/-- **The parts** behind a delimiter are read back. -/
lemma parseParts_tail (hboundary : 13 ∉ boundary) (h : ∀ p ∈ ps, Fits boundary p)
    (hfuel : ps.length < fuel) : parseParts (delimiter boundary) fuel (tail boundary ps) = some ps := by
  induction ps generalizing fuel with
  | nil =>
    obtain ⟨fuel, rfl⟩ : ∃ k, fuel = k + 1 := ⟨fuel - 1, by omega⟩
    rfl
  | cons p ps ih =>
    obtain ⟨fuel, rfl⟩ : ∃ k, fuel = k + 1 := ⟨fuel - 1, by omega⟩
    have hp := h p (.head _)
    have hcr : (13 : UInt8) ∉ 10 :: (dashes ++ boundary) := by
      simp [dashes, hboundary]
    have hfound : breakOn (delimiter boundary)
        (p.text ++ (delimiter boundary ++ tail boundary ps)) = some (p.text, tail boundary ps) :=
      breakOn_append hcr hp.delim
    have hrest := ih (fun q hq => h q (.tail _ hq)) (Nat.lt_of_succ_lt_succ hfuel)
    rw [tail, parseParts_crlf, hfound, Option.bind_some, parsePart_text hp, Option.bind_some, hrest]
    rfl

/-- **Parts that fit** are read as they were written. -/
theorem parse_encode (hboundary : 13 ∉ boundary) (h : ∀ p ∈ ps, Fits boundary p) :
    parse boundary (encode boundary ps) = some ps := by
  have hstart : breakOn (delimiter boundary) (crlf ++ encode boundary ps) =
      some ([], tail boundary ps) := by
    rw [crlf_encode]
    exact breakOn_of_prefix
  have hfuel : ps.length < (encode boundary ps).length := by
    clear h hstart
    induction ps with
    | nil => simp [encode, crlf, dashes]
    | cons p ps ih =>
      simp only [encode, List.length_append, List.length_cons, length_crlf]
      omega
  rw [parse, hstart, Option.bind_some, parseParts_tail hboundary h hfuel]

end Data.Multipart
