import AirDrive.Effect.Interference
import Mathlib.Logic.Relation

set_option relaxedAutoImplicit false
set_option autoImplicit false

/-!
# Reading a log page by page

A reader asks for the entries of a log from a token on. An answer is a page: some entries, the
token after them, and whether more pages follow. Others append to the log between two requests, and
what an answer says of an entry is what holds when its page is read. A reader that comes back again
and again stores the token it got last, and moves on only if it could make use of what it read.

## Main definitions

* `Effect.Page`, `Effect.gather` — pages, and the loop that reads them to the last one.
* `Effect.Log` — a log that others append to, and what an answer says of an entry.
* `Effect.Log.Covers` — answers for all entries from a position on, in order.
* `Effect.Log.Serves` — requests are answered by pages of the log.
* `Effect.Session`, `Effect.Log.Visit` — a reader with a stored token, and its next visit.
* `Effect.Log.Keyed` — a log of what changes in a state that has many parts.

## Main results

* `Effect.Prog.Safe.gather` — the invariant rule of the loop.
* `Effect.Log.Serves.covers`, `Effect.Log.Serves.ends` — what the loop reads, and that it ends.
* `Effect.Log.Serves.session` — many visits together read every entry once.
* `Effect.Log.Keyed.latest` — the last answer about a part is right, or another one is to come.
-/

universe u

namespace Effect

/-- One page: entries, the token after them, and whether more pages follow. -/
structure Page (α τ : Type) where
  /-- The entries. -/
  items : List α
  /-- The token after them. -/
  next : τ
  /-- Whether more pages follow. -/
  more : Bool

variable {E : Type → Type u} {ε α γ τ σ κ ν : Type}

/-- Ask for pages up to the last one, a number of pages at most. -/
def gather (ask : τ → Prog E ε (Page α τ)) : ℕ → τ → List α → Prog E ε (Option (List α × τ))
  | 0, _, _ => pure none
  | n + 1, token, sofar => do
    let page ← ask token
    if page.more then gather ask n page.next (sofar ++ page.items)
    else pure (some (sofar ++ page.items, page.next))

/-- **The invariant rule of the loop**: `I n token sofar` holds at its head, with `n` pages left. -/
lemma Prog.Safe.gather {h : Handler E σ} {T : Terms σ} {ask : τ → Prog E ε (Page α τ)}
    {Q : Except ε (Option (List α × τ)) → σ → Prop} (I : ℕ → τ → List α → σ → Prop)
    (hask : ∀ n t l s, I (n + 1) t l s → Prog.Safe h T (fun x s' =>
      match x with
      | .ok page =>
        if page.more then I n page.next (l ++ page.items) s'
        else Q (.ok (some (l ++ page.items, page.next))) s'
      | .error e => Q (.error e) s') (ask t) s)
    (hspent : ∀ t l s, I 0 t l s → Q (.ok none) s) {n : ℕ} {t : τ} {l : List α} {s : σ}
    (hI : I n t l s) : Prog.Safe h T Q (Effect.gather ask n t l) s := by
  induction n generalizing t l s with
  | zero => exact hspent t l s hI
  | succ n ih =>
    refine (hask n t l s hI).bind (fun page s' hpage => ?_) fun e s' he => he
    dsimp only at hpage
    by_cases hmore : page.more = true
    · rw [if_pos hmore] at hpage ⊢
      exact ih hpage
    · rw [if_neg hmore] at hpage ⊢
      exact hpage

/-! ## The log -/

/-- A log that others append to. -/
structure Log (σ γ α : Type) where
  /-- The entries. -/
  log : σ → List γ
  /-- What an answer may say of an entry, when it is read. -/
  reads : σ → γ → α → Prop
  /-- What others do. -/
  others : σ → σ → Prop
  /-- They may do nothing. -/
  refl : ∀ s, others s s
  /-- They may do one thing after the other. -/
  trans : ∀ {a b c}, others a b → others b c → others a c
  /-- They only append to the log. -/
  grows : ∀ {s s'}, others s s' → log s <+: log s'

namespace Log

variable (L : Log σ γ α)

/-- Among the others, with no terms but what they do. -/
def amid : Terms σ := ⟨fun _ => True, L.others, fun _ _ => True⟩

/-- The answers are those for the entries from `n` on, each read in a state between the two. -/
structure Covers (n : ℕ) (l : List α) (s s' : σ) : Prop where
  /-- There are that many entries. -/
  le : n + l.length ≤ (L.log s').length
  /-- Each answer was right when it was read. -/
  read : ∀ i a, l[i]? = some a → ∃ s₁ e, L.others s s₁ ∧ L.others s₁ s' ∧
    (L.log s₁)[n + i]? = some e ∧ L.reads s₁ e a

/-- All entries of a log were read, as of some state between the two. -/
def Drained (n : ℕ) (s s' : σ) : Prop :=
  ∃ s₁, L.others s s₁ ∧ L.others s₁ s' ∧ n = (L.log s₁).length

/-- A page that a request may be answered with; `pos` is where a token points to, and `last` what
is known of the token that the last page ends with. -/
structure Answers (pos : τ → ℕ) (last : τ → ℕ → Prop) (t : τ) (page : Page α τ) (s s' : σ) :
    Prop where
  /-- The page has the entries from the token on. -/
  covers : L.Covers (pos t) page.items s s'
  /-- More pages follow one that is not empty, from where it ends. -/
  more : page.more = true → page.items ≠ [] ∧ pos page.next = pos t + page.items.length
  /-- The last page ends where the log does. -/
  last : page.more = false →
    last page.next (pos t + page.items.length) ∧ L.Drained (pos t + page.items.length) s s'

/-- Requests are answered by pages of the log, or fail in one of the ways `fails`. -/
structure Serves (h : Handler E σ) (pos : τ → ℕ) (last : τ → ℕ → Prop) (fails : σ → ε → Prop)
    (ask : τ → Prog E ε (Page α τ)) : Prop where
  /-- One request. -/
  answer : ∀ t s, pos t ≤ (L.log s).length → Prog.Safe h L.amid (fun x s' => L.others s s' ∧
    match x with
    | .ok page => L.Answers pos last t page s s'
    | .error e => fails s e) (ask t) s
  /-- The others bring in no failures. -/
  fails_mono : ∀ {s s' e}, L.others s s' → fails s' e → fails s e

variable {L} {n m : ℕ} {l l' : List α} {s s' s'' : σ} {t : τ}

/-- An entry stays where it is. -/
lemma entry (h : L.others s s') {e : γ} (he : (L.log s)[n]? = some e) :
    (L.log s')[n]? = some e := by
  obtain ⟨tail, htail⟩ := L.grows h
  rw [← htail, List.getElem?_append_left (List.getElem?_eq_some_iff.mp he).1, he]

/-- Nothing read yet. -/
lemma covers_nil (h : n ≤ (L.log s).length) : L.Covers n [] s s :=
  ⟨by simpa using h, fun i a ha => by simp at ha⟩

/-- What was read stays read. -/
lemma Covers.later (hc : L.Covers n l s s') (h : L.others s' s'') : L.Covers n l s s'' where
  le := Nat.le_trans hc.le (L.grows h).length_le
  read i a ha := by
    obtain ⟨s₁, e, hbefore, hafter, he, hread⟩ := hc.read i a ha
    exact ⟨s₁, e, hbefore, L.trans hafter h, he, hread⟩

/-- **A slice of the log** is a page. -/
lemma answers_slice {pos : τ → ℕ} {last : τ → ℕ → Prop} {page : Page α τ} {s₁ : σ} {size : ℕ}
    {encode : γ → α} (h : L.others s s₁) (h' : L.others s₁ s')
    (hread : ∀ e, L.reads s₁ e (encode e))
    (ht : pos t ≤ (L.log s₁).length) (hsize : 0 < size)
    (hitems : page.items = (((L.log s₁).drop (pos t)).take size).map encode)
    (hmore : page.more = true → pos t + size < (L.log s₁).length ∧ pos page.next = pos t + size)
    (hlast : page.more = false →
      (L.log s₁).length ≤ pos t + size ∧ last page.next (L.log s₁).length) :
    L.Answers pos last t page s s' := by
  have hlength : page.items.length = min size ((L.log s₁).length - pos t) := by
    rw [hitems, List.length_map, List.length_take, List.length_drop]
  have hgrow := (L.grows h').length_le
  refine ⟨⟨by omega, fun i a ha => ?_⟩, fun hm => ?_, fun hm => ?_⟩
  · rw [hitems, List.getElem?_map] at ha
    obtain ⟨e, he, rfl⟩ := Option.map_eq_some_iff.mp ha
    have hi := (List.getElem?_eq_some_iff.mp he).1
    rw [List.length_take] at hi
    rw [List.getElem?_take_of_lt (by omega), List.getElem?_drop] at he
    exact ⟨s₁, e, h, h', he, hread e⟩
  · obtain ⟨hlt, hnext⟩ := hmore hm
    refine ⟨fun hnil => ?_, by rw [hnext]; omega⟩
    rw [hnil, List.length_nil] at hlength
    omega
  · obtain ⟨hle, hnext⟩ := hlast hm
    have hend : pos t + page.items.length = (L.log s₁).length := by omega
    rw [hend]
    exact ⟨hnext, s₁, h, h', rfl⟩

/-- Two stretches that follow each other. -/
lemma Covers.append (hc : L.Covers n l s s') (hc' : L.Covers (n + l.length) l' s' s'')
    (h : L.others s s') (h' : L.others s' s'') : L.Covers n (l ++ l') s s'' where
  le := by
    have hle := hc'.le
    rw [List.length_append]
    omega
  read i a ha := by
    by_cases hi : i < l.length
    · rw [List.getElem?_append_left hi] at ha
      exact (hc.later h').read i a ha
    · rw [List.getElem?_append_right (by omega)] at ha
      obtain ⟨s₁, e, hbefore, hafter, he, hread⟩ := hc'.read _ a ha
      refine ⟨s₁, e, L.trans h hbefore, hafter, ?_, hread⟩
      rwa [show n + l.length + (i - l.length) = n + i by omega] at he

section Serves

variable {h : Handler E σ} {pos : τ → ℕ} {last : τ → ℕ → Prop} {fails : σ → ε → Prop}
  {ask : τ → Prog E ε (Page α τ)}

/-- **What the loop reads**: all entries from the token on, in order, to the end of the log as it
was when the last page was read. -/
lemma Serves.covers (hserves : L.Serves h pos last fails ask) (ht : pos t ≤ (L.log s).length) :
    Prog.Safe h L.amid (fun x s' => L.others s s' ∧
      (∀ l t', x = .ok (some (l, t')) → L.Covers (pos t) l s s' ∧ last t' (pos t + l.length) ∧
        L.Drained (pos t + l.length) s s') ∧
      ∀ e, x = .error e → fails s e) (gather ask n t []) s := by
  refine Prog.Safe.gather (fun _ t₁ l s₁ => L.others s s₁ ∧ L.Covers (pos t) l s s₁ ∧
    pos t₁ = pos t + l.length) (fun n t₁ l s₁ hI => ?_)
    (fun _ _ s₁ hI => ⟨hI.1, (fun _ _ hx => by cases hx), fun _ hx => by cases hx⟩)
    ⟨L.refl s, covers_nil ht, (Nat.add_zero _).symm⟩
  obtain ⟨hothers, hcovers, hpos⟩ := hI
  have hlog : pos t₁ ≤ (L.log s₁).length := hpos ▸ hcovers.le
  refine (hserves.answer t₁ s₁ hlog).mono fun x s₂ hx => ?_
  obtain ⟨hothers', hanswer⟩ := hx
  have hall : L.others s s₂ := L.trans hothers hothers'
  cases x with
  | error e =>
    refine ⟨hall, (fun _ _ hx => by cases hx), fun e' hx => ?_⟩
    obtain rfl := Except.error.inj hx
    exact hserves.fails_mono hothers hanswer
  | ok page =>
    dsimp only at hanswer ⊢
    have happend : L.Covers (pos t) (l ++ page.items) s s₂ :=
      hcovers.append (hpos ▸ hanswer.covers) hothers hothers'
    have hlength : pos t₁ + page.items.length = pos t + (l ++ page.items).length := by
      rw [hpos, List.length_append, Nat.add_assoc]
    split_ifs with hmore
    · exact ⟨hall, happend, (hanswer.more hmore).2.trans hlength⟩
    · refine ⟨hall, (fun l' t' hx => ?_), fun _ hx => by cases hx⟩
      injection hx with hx
      injection hx with hx
      injection hx with hl ht'
      subst hl ht'
      obtain ⟨hlast, s₃, hbefore, hafter, hdrained⟩ := hanswer.last (by simpa using hmore)
      rw [hlength] at hlast hdrained
      exact ⟨happend, hlast, s₃, L.trans hothers hbefore, hafter, hdrained⟩

/-- **The loop ends**, where the log does not grow without bound. -/
lemma Serves.ends (hserves : L.Serves h pos last fails ask) (ht : pos t ≤ (L.log s).length)
    (hbound : ∀ s', L.others s s' → (L.log s').length ≤ m) (hn : m < pos t + n) :
    Prog.Safe h L.amid (fun x _ => x ≠ .ok none) (gather ask n t []) s := by
  refine Prog.Safe.gather (fun n t₁ _ s₁ => L.others s s₁ ∧ pos t₁ ≤ (L.log s₁).length ∧
    m < pos t₁ + n) (fun n t₁ l s₁ hI => ?_) (fun t₁ _ s₁ hI => ?_) ⟨L.refl s, ht, hn⟩
  · obtain ⟨hothers, hlog, hleft⟩ := hI
    refine (hserves.answer t₁ s₁ hlog).mono fun x s₂ hx => ?_
    obtain ⟨hothers', hanswer⟩ := hx
    cases x with
    | error e => exact fun he => by cases he
    | ok page =>
      dsimp only at hanswer ⊢
      split_ifs with hmore
      · obtain ⟨hne, hnext⟩ := hanswer.more hmore
        have hpositive : 0 < page.items.length := List.length_pos_iff.mpr hne
        have hle := hanswer.covers.le
        exact ⟨L.trans hothers hothers', by omega, by omega⟩
      · exact fun he => by cases he
  · obtain ⟨hothers, hlog, hleft⟩ := hI
    have hm := hbound s₁ hothers
    omega

end Serves

end Log

/-! ## Many visits -/

/-- A reader between two visits. -/
structure Session (σ α τ : Type) where
  /-- The state. -/
  state : σ
  /-- The stored token. -/
  cursor : τ
  /-- What was read and made use of so far. -/
  taken : List α

namespace Log

variable (L : Log σ γ α)

/-- What happens next: others do something; or the reader reads, and makes use of what it read or
not. -/
inductive Visit (h : Handler E σ) (ask : τ → Prog E ε (Page α τ)) :
    Session σ α τ → Session σ α τ → Prop
  | elsewhere {v : Session σ α τ} {s' : σ} (others : L.others v.state s') :
      Visit h ask v { v with state := s' }
  | left {v : Session σ α τ} {n : ℕ} {x : Except ε (Option (List α × τ))} {s' : σ}
      (run : Prog.RunsAmid h L.others (gather ask n v.cursor []) v.state x s') :
      Visit h ask v { v with state := s' }
  | took {v : Session σ α τ} {n : ℕ} {l : List α} {t' : τ} {s' : σ}
      (run : Prog.RunsAmid h L.others (gather ask n v.cursor []) v.state (.ok (some (l, t'))) s') :
      Visit h ask v ⟨s', t', v.taken ++ l⟩

variable {L} {h : Handler E σ} {pos : τ → ℕ} {fails : σ → ε → Prop}
  {ask : τ → Prog E ε (Page α τ)} {v v' : Session σ α τ}

/-- **Many visits together read every entry once**: whatever goes wrong in between, what was made
use of are the entries between the first token and the stored one, in order. -/
lemma Serves.session (hserves : L.Serves h pos (fun t n => pos t = n) fails ask)
    (hpos : pos v.cursor ≤ (L.log v.state).length) (hempty : v.taken = [])
    (hvisits : Relation.ReflTransGen (L.Visit h ask) v v') :
    L.others v.state v'.state ∧ L.Covers (pos v.cursor) v'.taken v.state v'.state ∧
      pos v'.cursor = pos v.cursor + v'.taken.length := by
  induction hvisits with
  | refl =>
    rw [hempty]
    exact ⟨L.refl _, covers_nil hpos, rfl⟩
  | tail _ hlast ih =>
    obtain ⟨hothers, hcovers, hcursor⟩ := ih
    cases hlast with
    | elsewhere hnext => exact ⟨L.trans hothers hnext, hcovers.later hnext, hcursor⟩
    | left hrun =>
      obtain ⟨hnext, -⟩ := (hserves.covers (hcursor ▸ hcovers.le)).amid hrun
      exact ⟨L.trans hothers hnext, hcovers.later hnext, hcursor⟩
    | took hrun =>
      obtain ⟨hnext, hread, -⟩ := (hserves.covers (hcursor ▸ hcovers.le)).amid hrun
      obtain ⟨hcovers', hcursor', -⟩ := hread _ _ rfl
      refine ⟨L.trans hothers hnext, hcovers.append (hcursor ▸ hcovers') hothers hnext, ?_⟩
      rw [hcursor', hcursor, List.length_append, Nat.add_assoc]

/-! ## What the answers say -/

variable (L) in
/-- A log of what changes in a state that has many parts: whatever is done to a part is logged, and
an answer shows which part an entry is about, and what that part is when it is read. -/
structure Keyed (key : γ → κ) (view : σ → κ → ν) (about : α → κ → Prop) (value : α → ν) :
    Prop where
  about_iff : ∀ {s e a k}, L.reads s e a → (about a k ↔ key e = k)
  value_eq : ∀ {s e a}, L.reads s e a → value a = view s (key e)
  logged : ∀ {s s'} (k : κ), L.others s s' → view s' k = view s k ∨
    ∃ j e, (L.log s).length ≤ j ∧ (L.log s')[j]? = some e ∧ key e = k

variable {key : γ → κ} {view : σ → κ → ν} {about : α → κ → Prop} {value : α → ν} {n i : ℕ}
  {l : List α} {s s' : σ} {a : α} {k : κ}

/-- **The last answer about a part is right, or another one is to come.** -/
lemma Keyed.latest (hkeyed : L.Keyed key view about value) (hc : L.Covers n l s s')
    (ha : l[i]? = some a) (hk : about a k) (hlast : ∀ j b, i < j → l[j]? = some b → ¬about b k) :
    value a = view s' k ∨
      ∃ j e, n + l.length ≤ j ∧ (L.log s')[j]? = some e ∧ key e = k := by
  obtain ⟨s₁, e, hbefore, hafter, he, hread⟩ := hc.read i a ha
  obtain rfl := (hkeyed.about_iff hread).mp hk
  rw [hkeyed.value_eq hread]
  rcases hkeyed.logged (key e) hafter with hsame | ⟨j, e', hj, he', hkey⟩
  · exact .inl hsame.symm
  · refine .inr ⟨j, e', ?_, he', hkey⟩
    have hi : n + i < (L.log s₁).length := (List.getElem?_eq_some_iff.mp he).1
    by_contra hlt
    -- an entry for the part that was read is answered after `a`
    have hin : j - n < l.length := by omega
    obtain ⟨s₂, e₂, -, hafter₂, he₂, hread₂⟩ :=
      hc.read (j - n) l[j - n] (List.getElem?_eq_getElem hin)
    have hsame : e₂ = e' := by
      rw [show n + (j - n) = j by omega] at he₂
      exact Option.some.inj ((entry hafter₂ he₂).symm.trans he')
    refine hlast (j - n) _ (by omega) (List.getElem?_eq_getElem hin) ?_
    exact (hkeyed.about_iff hread₂).mpr (hsame ▸ hkey)

/-- An entry that was passed was answered. -/
lemma Keyed.answered (hkeyed : L.Keyed key view about value) (hc : L.Covers n l s s') {e : γ}
    {j : ℕ} (hn : n ≤ j) (hj : j < n + l.length) (he : (L.log s')[j]? = some e) :
    ∃ a, l[j - n]? = some a ∧ about a (key e) := by
  have hin : j - n < l.length := by omega
  refine ⟨l[j - n], List.getElem?_eq_getElem hin, ?_⟩
  obtain ⟨s₁, e₁, -, hafter, he₁, hread⟩ :=
    hc.read (j - n) l[j - n] (List.getElem?_eq_getElem hin)
  rw [show n + (j - n) = j by omega] at he₁
  rw [hkeyed.about_iff hread, Option.some.inj ((entry hafter he₁).symm.trans he)]

end Log

end Effect
