import AirDrive.Drive.PathCache
import AirDrive.System.Footprint
import Mathlib.Logic.Relation

set_option relaxedAutoImplicit false
set_option autoImplicit false

/-!
# The change cursor

The poller reads the cursor, fetches the changes since it, resolves them one by one and sends them
as a batch; the consumer applies the batches in the order in which they were sent, one change after
the other, and moves the cursor when all changes of a batch went well. Both go on at the same time,
next to everything else that happens, and the daemon is stopped and started at any moment.

The cursor never goes back. It passes a change that was forwarded and never applied only when the
poller has left a file out of a batch: a file that the poller does not find is treated as one
outside the mapped folder, whether it is there or a lookup went wrong.

## Main definitions

* `AirDrive.Cursor.Answers` — what Drive may answer to a request for the changes since a token.
* `AirDrive.Cursor.State`, `AirDrive.Cursor.Step` — the poller, the channel and the consumer, with
  a journal of what was forwarded and what was applied.
* `AirDrive.Cursor.Safe` — the cursor has not passed a change that was forwarded and not applied.
* `AirDrive.Cursor.Found` — the poller finds the file of a change.
* `AirDrive.Cursor.Resolvable` — resolving a change now leaves no file out.

## Main results

* `AirDrive.Cursor.runs_of_tick`, `AirDrive.Cursor.runs_of_applyBatch` — a round of the poller and
  a batch of the consumer are runs of these steps.
* `AirDrive.Cursor.elsewhere_of_job` — so is what all other jobs do.
* `AirDrive.Cursor.Inv.step` — the invariant of the steps.
* `AirDrive.Cursor.cursor_safe` — the cursor never goes back, and passes no change that is owed as
  long as no file is left out.
-/

namespace AirDrive.Cursor

open Effect Data Remote Poller

/-! ## The feed -/

/-- The file of an entry of the feed. -/
def EntryOf (d : Drive) (i : ℕ) (id : FileId) : Prop :=
  ∃ n r, d.feed[i]? = some (n, r) ∧ id = .id n

/-- What Drive may answer to a request for the changes since a token: entries of the feed after the
token, in feed order and each with the object as it is now, among them the latest one of every file
that changed. Each change stands next to its place in the feed. -/
structure Answers (md5 : Bytes → String) (d : Drive) (token : PageToken)
    (l : List (ℕ × RawChange)) : Prop where
  /-- The answer is in feed order. -/
  order : l.Pairwise fun a b => a.1 < b.1
  /-- It consists of changes since the token. -/
  entry : ∀ e ∈ l, token ≤ e.1 ∧ ∃ n r, d.feed[e.1]? = some (n, r) ∧
    e.2 = ⟨.id n, r, (d.files.get n).map (Drive.resource md5)⟩
  /-- The latest change of every file is there. -/
  latest : ∀ i id, token ≤ i → EntryOf d i id → ∃ e ∈ l, i ≤ e.1 ∧ e.2.fileId = id

/-- The entries since a token, each with its place in the feed. -/
def placed (md5 : Bytes → String) (d : Drive) (token : PageToken) : List (ℕ × RawChange) :=
  (d.feed.zipIdx.drop token).map fun e =>
    (e.2, ⟨.id e.1.1, e.1.2, (d.files.get e.1.1).map (Drive.resource md5)⟩)

/-! ## The parties -/

/-- A batch, each change with its place in the feed. -/
structure Batch where
  /-- The changes. -/
  changes : List (ℕ × RemoteChange)
  /-- The cursor after them. -/
  newToken : PageToken

/-- The batch as it is sent. -/
def Batch.sent (b : Batch) : RemoteBatch := ⟨b.changes.map Prod.snd, b.newToken⟩

/-- The batch has a change of the file that is not older than the entry `i`. -/
def Batch.Carries (b : Batch) (i : ℕ) (id : FileId) : Prop :=
  ∃ e ∈ b.changes, i ≤ e.1 ∧ e.2.fileId = id

/-- Where the poller is. -/
inductive PollerAt
  /-- Between two rounds. -/
  | asleep
  /-- It has read the cursor. -/
  | woken (token : PageToken)
  /-- It has fetched the changes, and resolved those that are not in `todo`. -/
  | resolving (todo : List (ℕ × RawChange)) (kept : List (ℕ × RemoteChange))
    (newToken : PageToken)

/-- Where the consumer is. -/
inductive ConsumerAt
  /-- It waits for a batch. -/
  | waiting
  /-- Between two changes of a batch. -/
  | between (todo : List (ℕ × RemoteChange)) (allApplied : Bool) (newToken : PageToken)
  /-- In the middle of a change of a batch. -/
  | applying (i : ℕ) (c : RemoteChange) (p : Task Unit) (todo : List (ℕ × RemoteChange))
    (allApplied : Bool) (newToken : PageToken)

/-- The parties: the world, the poller with its cache, the channel, the consumer, and a journal of
the changes that were forwarded and of those that were applied. -/
structure State where
  /-- The world. -/
  world : World
  /-- The mapped folder, as the running daemon knows it. -/
  root : FileId
  /-- The cache of the poller. -/
  cache : PathCache
  /-- The poller. -/
  poller : PollerAt
  /-- The batches on their way. -/
  channel : List Batch
  /-- The consumer. -/
  consumer : ConsumerAt
  /-- The changes that were sent in some batch. -/
  forwarded : List (ℕ × FileId)
  /-- The changes for which `apply_remote` has returned `Ok`. -/
  applied : List (ℕ × FileId)

/-- Before the first start of the daemon. -/
def State.start (w : World) (root : FileId) : State :=
  ⟨w, root, seedCache root, .asleep, [], .waiting, [], []⟩

/-- What everything else does to the world: Drive only appends to its feed, and the cursor stays
unless there is none yet. -/
structure Elsewhere (w w' : World) : Prop where
  /-- The feed is a log. -/
  feed : w.remote.drive.feed <+: w'.remote.drive.feed
  /-- The first cursor comes from the initial reconciliation. -/
  cursor : w'.db.cursor = w.db.cursor ∨ w.db.cursor = none ∧
    ∃ t, w'.db.cursor = some t ∧ t ≤ w'.remote.drive.feed.length

/-- One step of the parties; `ok` is asked whenever the poller resolves a change. -/
inductive Step (env : Env) (ok : State → ℕ → RawChange → List (ℕ × RawChange) → Prop) :
    State → State → Prop
  /-- Something else happens. -/
  | elsewhere {s : State} {w : World} (change : Elsewhere s.world w) :
    Step env ok s { s with world := w }
  /-- The daemon is stopped and started again. -/
  | restart {s : State} (root : FileId) :
    Step env ok s
      { s with
        root, cache := seedCache root, poller := .asleep, channel := [], consumer := .waiting }
  /-- The poller reads the cursor. -/
  | wake {s : State} {token : PageToken} (asleep : s.poller = .asleep)
    (cursor : s.world.db.cursor = some token) :
    Step env ok s { s with poller := .woken token }
  /-- The poller fetches the changes. -/
  | fetch {s : State} {token : PageToken} {l : List (ℕ × RawChange)}
    (woken : s.poller = .woken token) (answered : s.world.remote.faults.headD none = none)
    (answers : Answers env.md5 s.world.remote.drive token l) :
    Step env ok s
      { s with
        world := polled s.world
        poller := .resolving l [] s.world.remote.drive.feed.length }
  /-- The changes cannot be fetched. -/
  | unreachable {s : State} {token : PageToken} {e : Error} {r : Remote}
    (woken : s.poller = .woken token)
    (answered : s.world.remote.send env.md5 (.changesSince token) = (.error e, r)) :
    Step env ok s
      { s with
        world := { s.world with
          db := (DbCall.run (.setBlocked (pollFailure e)) s.world.db).2, remote := r }
        poller := .asleep }
  /-- The poller resolves the next change. -/
  | resolve {s : State} {fuel i : ℕ} {c : RawChange} {todo : List (ℕ × RawChange)}
    {kept : List (ℕ × RemoteChange)} {newToken : PageToken} {o : Option RemoteChange}
    {cache : PathCache} {w : World} (at' : s.poller = .resolving ((i, c) :: todo) kept newToken)
    (fuel_ge : size s.world.remote.drive + 1 < fuel)
    (run : (processChange fuel s.root s.cache c).run (handle env) s.world = (.ok (o, cache), w))
    (meets : ok s i c todo) :
    Step env ok s
      { s with
        world := w, cache
        poller := .resolving todo (kept ++ (o.map fun r => (i, r)).toList) newToken }
  /-- The poller sends its batch. -/
  | send {s : State} {kept : List (ℕ × RemoteChange)} {newToken : PageToken}
    (at' : s.poller = .resolving [] kept newToken) :
    Step env ok s
      { s with
        poller := .asleep
        channel := s.channel ++ [⟨kept, newToken⟩]
        forwarded := s.forwarded ++ kept.map fun e => (e.1, e.2.fileId) }
  /-- The consumer takes a batch. -/
  | take {s : State} {b : Batch} {rest : List Batch} (waiting : s.consumer = .waiting)
    (head : s.channel = b :: rest) :
    Step env ok s { s with channel := rest, consumer := .between b.changes true b.newToken }
  /-- The consumer turns to the next change. -/
  | begin {s : State} {i : ℕ} {c : RemoteChange} {todo : List (ℕ × RemoteChange)} {all : Bool}
    {newToken : PageToken} (at' : s.consumer = .between ((i, c) :: todo) all newToken) :
    Step env ok s
      { s with consumer := .applying i c (Continuous.applyRemote env c) todo all newToken }
  /-- The consumer performs the next call of a change. -/
  | call {s : State} {i : ℕ} {c : RemoteChange} {β : Type} {e : Call β} {k : β → Task Unit}
    {todo : List (ℕ × RemoteChange)} {all : Bool} {newToken : PageToken}
    (at' : s.consumer = .applying i c (.call e k) todo all newToken) :
    Step env ok s
      { s with
        world := (handle env β e s.world).2
        consumer := .applying i c (k (handle env β e s.world).1) todo all newToken }
  /-- `apply_remote` returns `Ok`. -/
  | applied {s : State} {i : ℕ} {c : RemoteChange} {todo : List (ℕ × RemoteChange)} {all : Bool}
    {newToken : PageToken} (at' : s.consumer = .applying i c (.pure ()) todo all newToken) :
    Step env ok s
      { s with
        consumer := .between todo all newToken
        applied := s.applied ++ [(i, c.fileId)] }
  /-- `apply_remote` fails, of its own or because the database does not answer its next call. -/
  | failed {s : State} {i : ℕ} {c : RemoteChange} {p : Task Unit}
    {todo : List (ℕ × RemoteChange)} {all : Bool} {newToken : PageToken}
    (at' : s.consumer = .applying i c p todo all newToken) (unfinished : p ≠ .pure ()) :
    Step env ok s { s with consumer := .between todo false newToken }
  /-- The batch was applied: the cursor moves. -/
  | advance {s : State} {newToken : PageToken} (at' : s.consumer = .between [] true newToken) :
    Step env ok s
      { s with
        world := { s.world with db := (DbCall.run (.setCursor newToken) s.world.db).2 }
        consumer := .waiting }
  /-- The cursor stays: some change was not applied, or the cursor cannot be written. -/
  | keep {s : State} {all : Bool} {newToken : PageToken}
    (at' : s.consumer = .between [] all newToken) :
    Step env ok s { s with consumer := .waiting }

/-- No condition on what the poller resolves. -/
abbrev Always : State → ℕ → RawChange → List (ℕ × RawChange) → Prop := fun _ _ _ _ => True

/-- Any number of steps. -/
abbrev Runs (env : Env) (ok : State → ℕ → RawChange → List (ℕ × RawChange) → Prop) :
    State → State → Prop := Relation.ReflTransGen (Step env ok)

/-! ## What is owed -/

/-- `apply_remote` has returned `Ok` for the entry `i` of the file or for a later one. -/
def State.Applied (s : State) (i : ℕ) (id : FileId) : Prop := ∃ j, i ≤ j ∧ (j, id) ∈ s.applied

/-- The cursor has not passed the entry `i`. -/
def State.Before (s : State) (i : ℕ) : Prop := ∀ t, s.world.db.cursor = some t → t ≤ i

/-- The cursor has not passed a change that was forwarded and not applied. -/
def Safe (s : State) : Prop :=
  ∀ i id, (i, id) ∈ s.forwarded → s.Applied i id ∨ s.Before i

/-- A change that was forwarded and not applied is part of every answer to the next poll, as
itself or as a later change of the file. -/
def Redelivered (env : Env) (s : State) : Prop :=
  ∀ i id, (i, id) ∈ s.forwarded → ¬s.Applied i id → ∃ token, s.world.db.cursor = some token ∧
    ∀ l, Answers env.md5 s.world.remote.drive token l → ∃ e ∈ l, i ≤ e.1 ∧ e.2.fileId = id

/-- The cursor of the second state is not before that of the first. -/
def NotBack (s s' : State) : Prop :=
  ∀ t, s.world.db.cursor = some t → ∃ t', s'.world.db.cursor = some t' ∧ t ≤ t'

/-- The batches that can still move the cursor: what is left of the one that the consumer has in
hand, unless a change of it failed, and those in the channel. -/
def State.outstanding (s : State) : List Batch :=
  (match s.consumer with
    | .between todo true newToken => [⟨todo, newToken⟩]
    | .applying i c _ todo true newToken => [⟨(i, c) :: todo, newToken⟩]
    | _ => []) ++ s.channel

/-- The entry `i` of the file was applied, or the cursor is before it and no batch takes the cursor
past it without a change of the file. -/
def State.Covered (s : State) (i : ℕ) (id : FileId) : Prop :=
  s.Applied i id ∨ s.Before i ∧ ∀ b ∈ s.outstanding, i < b.newToken → b.Carries i id

/-- A change of the file was forwarded and not applied. -/
def State.Owed (s : State) (id : FileId) : Prop :=
  ∃ i, (i, id) ∈ s.forwarded ∧ ¬s.Applied i id

/-- The poller finds the file of a change: it is gone for good and not the mapped folder, or a
folder of the cache is found above it. -/
def Found (s : State) (c : RawChange) : Prop :=
  c.removed = true ∧ c.fileId ≠ s.root ∨
    ∃ f ids top path, FoundBelow s.cache s.world c f ids top path

/-- Resolving the change leaves no file out: a file of which a change is owed is found again, and a
file that is found has not been left out by a batch that takes the cursor past the change. -/
def Resolvable (s : State) (i : ℕ) (c : RawChange) (todo : List (ℕ × RawChange)) : Prop :=
  (s.Owed c.fileId → (∀ e ∈ todo, e.2.fileId ≠ c.fileId) → Found s c) ∧
    (Found s c → s.Covered i c.fileId)

/-! ## Tokens -/

/-- The token of the batch that the consumer has in hand. -/
def ConsumerAt.token : ConsumerAt → Option PageToken
  | .waiting => none
  | .between _ _ newToken => some newToken
  | .applying _ _ _ _ _ newToken => some newToken

/-- The token of the batch that the poller prepares. -/
def PollerAt.token : PollerAt → Option PageToken
  | .resolving _ _ newToken => some newToken
  | _ => none

/-- The tokens from the cursor back to the poller. -/
def State.tokens (s : State) : List PageToken :=
  s.world.db.cursor.toList ++ (s.consumer.token.toList ++
    (s.channel.map Batch.newToken ++ s.poller.token.toList))

/-- The invariant of the steps: tokens are handed on in order. -/
structure Inv (s : State) : Prop where
  /-- No token is before one that is ahead of it. -/
  sorted : s.tokens.Pairwise (· ≤ ·)
  /-- All tokens are places in the feed. -/
  bounded : ∀ t ∈ s.tokens, t ≤ s.world.remote.drive.feed.length
  /-- The poller has read the cursor, or an earlier one. -/
  woken : ∀ token, s.poller = .woken token → ∃ t, s.world.db.cursor = some t ∧ token ≤ t
  /-- Without a cursor nothing has happened. -/
  blank : s.world.db.cursor = none →
    s.poller = .asleep ∧ s.channel = [] ∧ s.consumer = .waiting ∧ s.forwarded = []
  /-- A change is applied without moving the cursor. -/
  within : ∀ i c p todo all newToken, s.consumer = .applying i c p todo all newToken →
    Within (fun e => e ≠ .cursor) p

variable {env : Env} {ok : State → ℕ → RawChange → List (ℕ × RawChange) → Prop}
  {s s' : State}

/-- A call that does not move the cursor is one of those that happen elsewhere. -/
lemma elsewhere_of_call {β : Type} {c : Call β} {w : World} (hc : effortOf c ≠ some .cursor) :
    Elsewhere w (handle env β c w).2 := by
  refine ⟨?_, .inl (cursor_handle hc)⟩
  cases c with
  | drive c => exact feed_send
  | _ => exact List.prefix_refl _

/-- **All other jobs** do nothing but what may happen elsewhere. -/
theorem elsewhere_of_job {j : Job} (hbatch : ∀ b, j ≠ .batch b)
    (hinitial : ∀ fuel root, j ≠ .initial fuel root) :
    (j.task env).Only fun β c => ∀ w, Elsewhere w (handle env β c w).2 :=
  Prog.Only.mono (within_task_cursor hbatch hinitial) fun _ _ hc _ =>
    elsewhere_of_call fun he => hc _ he rfl

/-- The tokens of a state with a cursor. -/
lemma tokens_of_cursor {t : PageToken} (h : s.world.db.cursor = some t) :
    s.tokens = t :: (s.consumer.token.toList ++
      (s.channel.map Batch.newToken ++ s.poller.token.toList)) := by
  simp [State.tokens, h]

/-- A block that is cleared does not concern the cursor. -/
lemma cursor_polled (w : World) : (polled w).db.cursor = w.db.cursor := by
  show (DbCall.clearIfTransient.run w.db).2.cursor = w.db.cursor
  simp only [DbCall.run]
  split <;> rfl

/-- The poller does not move the cursor, whatever it finds. -/
lemma cursor_processChange {fuel : ℕ} {root : FileId} {cache cache' : PathCache} {c : RawChange}
    {w w' : World} {o : Option RemoteChange}
    (run : (processChange fuel root cache c).run (handle env) w = (.ok (o, cache'), w')) :
    w'.db.cursor = w.db.cursor ∧ w'.remote.drive = w.remote.drive := by
  obtain ⟨o', cache₁, w₁, hrun, hspec⟩ := processChange_spec env fuel root cache c w
  rw [run] at hrun
  obtain ⟨-, rfl⟩ : _ ∧ w' = w₁ := by simpa using hrun
  exact ⟨within_processChange.keeps_cursor run, hspec.drive⟩

/-- A step that hands no token on and lets the world go on keeps the tokens in order. -/
lemma Inv.of_tokens (h : Inv s) (htokens : s'.tokens.Sublist s.tokens)
    (hfeed : s.world.remote.drive.feed <+: s'.world.remote.drive.feed) :
    s'.tokens.Pairwise (· ≤ ·) ∧ ∀ t ∈ s'.tokens, t ≤ s'.world.remote.drive.feed.length :=
  ⟨h.sorted.sublist htokens, fun t ht =>
    (h.bounded t (htokens.subset ht)).trans hfeed.length_le⟩

/-- **One step** keeps the tokens in order, and does not move the cursor back. -/
lemma Inv.step (h : Inv s) (hs : Step env ok s s') : Inv s' ∧ NotBack s s' := by
  have hstay : ∀ {v : World}, v.db.cursor = s.world.db.cursor → ∀ t,
      s.world.db.cursor = some t → ∃ t', v.db.cursor = some t' ∧ t ≤ t' := fun hv t ht =>
    ⟨t, hv.trans ht, Nat.le_refl t⟩
  cases hs with
  | @elsewhere w change =>
    obtain ⟨hfeed, hsame | ⟨hnone, t, ht, hle⟩⟩ := change
    · have htokens : (State.tokens { s with world := w }).Sublist s.tokens := by
        simp [State.tokens, hsame]
      obtain ⟨hsorted, hbounded⟩ := h.of_tokens htokens hfeed
      exact ⟨⟨hsorted, hbounded, fun token hw => hsame ▸ h.woken token hw,
        fun hn => h.blank (hsame ▸ hn), h.within⟩, hstay hsame⟩
    · obtain ⟨hpoller, hchannel, hconsumer, -⟩ := h.blank hnone
      have htokens : State.tokens { s with world := w } = [t] := by
        simp [State.tokens, ht, hpoller, hchannel, hconsumer, ConsumerAt.token, PollerAt.token]
      refine ⟨⟨by simp [htokens], by simpa [htokens] using hle, ?_, ?_, h.within⟩, ?_⟩
      · intro token hw
        simp [hpoller] at hw
      · intro hn
        simp [ht] at hn
      · intro t' ht'
        simp [hnone] at ht'
  | restart root =>
    have htokens : (State.tokens { s with
        root, cache := seedCache root, poller := .asleep, channel := [],
        consumer := .waiting }).Sublist s.tokens := by
      simp [State.tokens, ConsumerAt.token, PollerAt.token]
    obtain ⟨hsorted, hbounded⟩ := h.of_tokens htokens (List.prefix_refl _)
    exact ⟨⟨hsorted, hbounded, by simp, fun hn => ⟨rfl, rfl, rfl, (h.blank hn).2.2.2⟩, by simp⟩,
      hstay rfl⟩
  | @wake token asleep cursor =>
    have htokens : (State.tokens { s with poller := .woken token }).Sublist s.tokens := by
      simp [State.tokens, PollerAt.token]
    obtain ⟨hsorted, hbounded⟩ := h.of_tokens htokens (List.prefix_refl _)
    refine ⟨⟨hsorted, hbounded, ?_, fun hn => ?_, h.within⟩, hstay rfl⟩
    · rintro token' ⟨⟩
      exact ⟨token, cursor, Nat.le_refl _⟩
    · simp [cursor] at hn
  | @fetch token l woken answered answers =>
    obtain ⟨t, ht, -⟩ := h.woken token woken
    have hcursor : (polled s.world).db.cursor = s.world.db.cursor := cursor_polled s.world
    have hs : s.tokens = t :: (s.consumer.token.toList ++ s.channel.map Batch.newToken) := by
      simp [tokens_of_cursor ht, woken, PollerAt.token]
    have htokens : (State.tokens { s with
        world := polled s.world
        poller := .resolving l [] s.world.remote.drive.feed.length }) =
        s.tokens ++ [s.world.remote.drive.feed.length] := by
      rw [tokens_of_cursor (hcursor.trans ht), hs]
      simp [PollerAt.token]
    refine ⟨⟨?_, ?_, by simp, fun hn => ?_, h.within⟩, hstay hcursor⟩
    · rw [htokens]
      refine List.pairwise_append.mpr ⟨h.sorted, by simp, fun a ha b hb => ?_⟩
      obtain rfl := List.mem_singleton.mp hb
      exact h.bounded a ha
    · intro a ha
      rw [htokens] at ha
      rcases List.mem_append.mp ha with ha | ha
      · exact h.bounded a ha
      · exact (List.mem_singleton.mp ha).le
    · rw [hcursor, ht] at hn
      cases hn
  | @unreachable token e r woken answered =>
    have hfeed : s.world.remote.drive.feed <+: r.drive.feed := by
      have hsend := @feed_send _ env.md5 (.changesSince token) s.world.remote
      rwa [answered] at hsend
    obtain ⟨t, ht, -⟩ := h.woken token woken
    have htokens : (State.tokens { s with
        world := { s.world with
          db := (DbCall.run (.setBlocked (pollFailure e)) s.world.db).2, remote := r }
        poller := .asleep }).Sublist s.tokens := by
      simp [State.tokens, woken, PollerAt.token, DbCall.run]
    obtain ⟨hsorted, hbounded⟩ := h.of_tokens htokens hfeed
    refine ⟨⟨hsorted, hbounded, by simp, fun hn => ?_, h.within⟩, hstay rfl⟩
    have hn' : s.world.db.cursor = none := hn
    rw [ht] at hn'
    cases hn'
  | @resolve fuel i c todo kept newToken o cache w at' fuel_ge run meets =>
    obtain ⟨hcursor, hdrive⟩ := cursor_processChange run
    have htokens : (State.tokens { s with
        world := w, cache
        poller := .resolving todo (kept ++ (o.map fun r => (i, r)).toList) newToken }).Sublist
        s.tokens := by
      simp [State.tokens, at', PollerAt.token, hcursor]
    obtain ⟨hsorted, hbounded⟩ := h.of_tokens htokens (by rw [← hdrive])
    refine ⟨⟨hsorted, hbounded, by simp, fun hn => ?_, h.within⟩, hstay hcursor⟩
    have hasleep := (h.blank (hcursor ▸ hn)).1
    rw [at'] at hasleep
    cases hasleep
  | @send kept newToken at' =>
    have htokens : (State.tokens { s with
        poller := .asleep
        channel := s.channel ++ [⟨kept, newToken⟩]
        forwarded := s.forwarded ++ kept.map fun e => (e.1, e.2.fileId) }).Sublist
        s.tokens := by
      simp [State.tokens, at', PollerAt.token]
    obtain ⟨hsorted, hbounded⟩ := h.of_tokens htokens (List.prefix_refl _)
    refine ⟨⟨hsorted, hbounded, by simp, fun hn => ?_, h.within⟩, hstay rfl⟩
    have hasleep := (h.blank hn).1
    rw [at'] at hasleep
    cases hasleep
  | @take b rest waiting head =>
    have htokens : (State.tokens { s with
        channel := rest, consumer := .between b.changes true b.newToken }).Sublist s.tokens := by
      simp [State.tokens, waiting, head, ConsumerAt.token]
    obtain ⟨hsorted, hbounded⟩ := h.of_tokens htokens (List.prefix_refl _)
    refine ⟨⟨hsorted, hbounded, h.woken, fun hn => ?_, by simp⟩, hstay rfl⟩
    have hempty := (h.blank hn).2.1
    rw [head] at hempty
    cases hempty
  | @begin i c todo all newToken at' =>
    have htokens : (State.tokens { s with
        consumer := .applying i c (Continuous.applyRemote env c) todo all newToken }).Sublist
        s.tokens := by
      simp [State.tokens, at', ConsumerAt.token]
    obtain ⟨hsorted, hbounded⟩ := h.of_tokens htokens (List.prefix_refl _)
    refine ⟨⟨hsorted, hbounded, h.woken, fun hn => ?_, ?_⟩, hstay rfl⟩
    · exact absurd (h.blank hn).2.2.1 (by simp [at'])
    · rintro _ _ _ _ _ _ ⟨⟩
      exact (handled_applyRemote (by simp) (by simp) (by simp) (by simp) (by simp)).within
  | @call i c β e k todo all newToken at' =>
    obtain ⟨he, hk⟩ := h.within _ _ _ _ _ _ at'
    have helse : Elsewhere s.world (handle env β e s.world).2 :=
      elsewhere_of_call fun hc => he _ hc rfl
    have hcursor : (handle env β e s.world).2.db.cursor = s.world.db.cursor :=
      cursor_handle fun hc => he _ hc rfl
    have htokens : (State.tokens { s with
        world := (handle env β e s.world).2
        consumer := .applying i c (k (handle env β e s.world).1) todo all newToken }).Sublist
        s.tokens := by
      simp [State.tokens, at', ConsumerAt.token, hcursor]
    obtain ⟨hsorted, hbounded⟩ := h.of_tokens htokens helse.feed
    refine ⟨⟨hsorted, hbounded, fun token hw => hcursor ▸ h.woken token hw, fun hn => ?_, ?_⟩,
      hstay hcursor⟩
    · exact absurd (h.blank (hcursor ▸ hn)).2.2.1 (by simp [at'])
    · rintro _ _ _ _ _ _ ⟨⟩
      exact hk _
  | @applied i c todo all newToken at' =>
    have htokens : (State.tokens { s with
        consumer := .between todo all newToken
        applied := s.applied ++ [(i, c.fileId)] }).Sublist s.tokens := by
      simp [State.tokens, at', ConsumerAt.token]
    obtain ⟨hsorted, hbounded⟩ := h.of_tokens htokens (List.prefix_refl _)
    refine ⟨⟨hsorted, hbounded, h.woken, fun hn => ?_, by simp⟩, hstay rfl⟩
    exact absurd (h.blank hn).2.2.1 (by simp [at'])
  | @failed i c p todo all newToken at' unfinished =>
    have htokens : (State.tokens { s with
        consumer := .between todo false newToken }).Sublist s.tokens := by
      simp [State.tokens, at', ConsumerAt.token]
    obtain ⟨hsorted, hbounded⟩ := h.of_tokens htokens (List.prefix_refl _)
    refine ⟨⟨hsorted, hbounded, h.woken, fun hn => ?_, by simp⟩, hstay rfl⟩
    exact absurd (h.blank hn).2.2.1 (by simp [at'])
  | @advance newToken at' =>
    have hs : s.tokens = s.world.db.cursor.toList ++ (newToken ::
        (s.channel.map Batch.newToken ++ s.poller.token.toList)) := by
      simp [State.tokens, at', ConsumerAt.token]
    have htokens : (State.tokens { s with
        world := { s.world with db := (DbCall.run (.setCursor newToken) s.world.db).2 }
        consumer := .waiting }).Sublist s.tokens := by
      rw [hs, tokens_of_cursor rfl]
      exact List.sublist_append_right _ _
    obtain ⟨hsorted, hbounded⟩ := h.of_tokens htokens (List.prefix_refl _)
    have hle : ∀ t, s.world.db.cursor = some t → t ≤ newToken := by
      intro t ht
      have hsorted' := h.sorted
      rw [hs, ht] at hsorted'
      exact (List.pairwise_cons.mp hsorted').1 newToken (by simp)
    refine ⟨⟨hsorted, hbounded, fun token hw => ?_, fun hn => ?_, by simp⟩,
      fun t ht => ⟨newToken, rfl, hle t ht⟩⟩
    · obtain ⟨t, ht, hto⟩ := h.woken token hw
      exact ⟨newToken, rfl, hto.trans (hle t ht)⟩
    · cases hn
  | @keep all newToken at' =>
    have htokens : (State.tokens { s with consumer := .waiting }).Sublist s.tokens := by
      simp [State.tokens, at', ConsumerAt.token]
    obtain ⟨hsorted, hbounded⟩ := h.of_tokens htokens (List.prefix_refl _)
    refine ⟨⟨hsorted, hbounded, h.woken, fun hn => ?_, by simp⟩, hstay rfl⟩
    exact absurd (h.blank hn).2.2.1 (by simp [at'])

/-! ## What is owed stays ahead of the cursor -/

/-- What holds of a round of the poller that is under way. -/
structure Resolving (s : State) (todo : List (ℕ × RawChange)) (kept : List (ℕ × RemoteChange))
    (newToken : PageToken) : Prop where
  /-- The changes to come are entries of the feed. -/
  entries : ∀ e ∈ todo, EntryOf s.world.remote.drive e.1 e.2.fileId
  /-- They come in feed order. -/
  order : todo.Pairwise fun a b => a.1 < b.1
  /-- No file was left out that is in the batch. -/
  included : ∀ e ∈ kept, EntryOf s.world.remote.drive e.1 e.2.fileId ∧ s.Covered e.1 e.2.fileId
  /-- A file of which a change is owed is in the batch, or still to come. -/
  owed : ∀ i id, (i, id) ∈ s.forwarded → ¬s.Applied i id → i < newToken →
    (∃ e ∈ kept, i ≤ e.1 ∧ e.2.fileId = id) ∨ ∃ e ∈ todo, i ≤ e.1 ∧ e.2.fileId = id

/-- The invariant of the steps that leave no file out. -/
structure Owes (s : State) : Prop where
  /-- Entries of the feed are forwarded. -/
  entry : ∀ i id, (i, id) ∈ s.forwarded → EntryOf s.world.remote.drive i id
  /-- What is owed stays ahead of the cursor and of the batches that move it. -/
  covered : ∀ i id, (i, id) ∈ s.forwarded → s.Covered i id
  /-- The poller leaves no file out. -/
  resolving : ∀ todo kept newToken, s.poller = .resolving todo kept newToken →
    Resolving s todo kept newToken

/-- An entry of a log stays where it is. -/
lemma EntryOf.mono {d d' : Drive} {i : ℕ} {id : FileId} (h : EntryOf d i id)
    (hfeed : d.feed <+: d'.feed) : EntryOf d' i id := by
  obtain ⟨n, r, hi, rfl⟩ := h
  obtain ⟨later, hlater⟩ := hfeed
  refine ⟨n, r, ?_, rfl⟩
  rw [← hlater, List.getElem?_append_left (List.getElem?_eq_some_iff.mp hi).1]
  exact hi

/-- What a step does that neither fetches, nor resolves, nor sends. -/
structure Passes (s s' : State) : Prop where
  /-- The feed is a log. -/
  feed : s.world.remote.drive.feed <+: s'.world.remote.drive.feed
  /-- Nothing is forwarded. -/
  forwarded : s'.forwarded = s.forwarded
  /-- What was applied stays applied. -/
  applied : ∀ i id, s.Applied i id → s'.Applied i id
  /-- What is covered stays covered. -/
  covered : ∀ i id, s.Covered i id → s'.Covered i id
  /-- A round of the poller goes on as it was, or ends. -/
  poller : ∀ todo kept newToken, s'.poller = .resolving todo kept newToken →
    s.poller = .resolving todo kept newToken

lemma Owes.passes (h : Owes s) (hp : Passes s s') : Owes s' := by
  refine ⟨fun i id hi => ?_, fun i id hi => ?_, fun todo kept newToken hres => ?_⟩
  · exact (h.entry i id (hp.forwarded ▸ hi)).mono hp.feed
  · exact hp.covered i id (h.covered i id (hp.forwarded ▸ hi))
  · obtain ⟨htodo, horder, hkept, howed⟩ := h.resolving todo kept newToken (hp.poller _ _ _ hres)
    refine ⟨fun e he => (htodo e he).mono hp.feed, horder, fun e he => ?_, ?_⟩
    · exact ⟨(hkept e he).1.mono hp.feed, hp.covered _ _ (hkept e he).2⟩
    · intro i id hi hnot
      exact howed i id (hp.forwarded ▸ hi) fun ha => hnot (hp.applied i id ha)

/-- A step that keeps the journal, the cursor and the batches that can move it passes. -/
lemma passes_of_outstanding (hfeed : s.world.remote.drive.feed <+: s'.world.remote.drive.feed)
    (hforwarded : s'.forwarded = s.forwarded) (happlied : s'.applied = s.applied)
    (hcursor : s'.world.db.cursor = s.world.db.cursor)
    (hout : ∀ b ∈ s'.outstanding, b ∈ s.outstanding)
    (hpoller : ∀ todo kept newToken, s'.poller = .resolving todo kept newToken →
      s.poller = .resolving todo kept newToken) : Passes s s' := by
  have hap : ∀ i id, s.Applied i id → s'.Applied i id := by
    rintro i id ⟨j, hj, hmem⟩
    exact ⟨j, hj, happlied ▸ hmem⟩
  refine ⟨hfeed, hforwarded, hap, ?_, hpoller⟩
  rintro i id (hdone | ⟨hbefore, hb⟩)
  · exact .inl (hap i id hdone)
  · exact .inr ⟨fun t ht => hbefore t (hcursor ▸ ht), fun b hmem => hb b (hout b hmem)⟩

/-- The poller forwards a change exactly when it finds its file. -/
lemma found_iff {fuel : ℕ} {c : RawChange} {o : Option RemoteChange} {cache : PathCache}
    {w : World} (hfuel : size s.world.remote.drive + 1 < fuel)
    (run : (processChange fuel s.root s.cache c).run (handle env) s.world = (.ok (o, cache), w)) :
    Found s c ↔ ∃ r, o = some r ∧ r.fileId = c.fileId := by
  constructor
  · rintro (⟨hremoved, hroot⟩ | ⟨f, ids, top, path, hfound⟩)
    · simp only [processChange, hremoved, hroot, and_false, if_true, if_false, Prog.pure_eq,
        Prog.run_pure, Prod.mk.injEq, Except.ok.injEq] at run
      exact ⟨_, run.1.1.symm, rfl⟩
    · obtain ⟨w', hrun⟩ := emits_of_found env s.root hfound hfuel
      rw [run] at hrun
      obtain ⟨⟨rfl, -⟩, -⟩ : ((o = _) ∧ _) ∧ _ := by simpa using hrun
      exact ⟨_, rfl, rfl⟩
  · rintro ⟨r, rfl, hid⟩
    rcases found_or_silent env hfuel run with ⟨f, ids, top, path, hfound⟩ | ⟨-, hremoved⟩
    · exact .inr ⟨f, ids, top, path, hfound⟩
    · obtain ⟨o', cache₁, w₁, hrun, hspec⟩ := processChange_spec env fuel s.root s.cache c s.world
      rw [run] at hrun
      obtain ⟨⟨rfl, -⟩, -⟩ : ((some r = o') ∧ _) ∧ _ := by simpa using hrun
      have hc : c.removed = true := (hspec.same r rfl).2.1 ▸ hremoved r rfl
      refine .inl ⟨hc, fun hroot => ?_⟩
      simp [processChange, hc, hroot, sql] at run

/-- An answer to a fetch contains every file of which a change since the token is owed. -/
lemma resolving_of_answers {token t : PageToken} {l : List (ℕ × RawChange)} (h : Owes s)
    (hle : token ≤ t) (ht : s.world.db.cursor = some t)
    (answers : Answers env.md5 s.world.remote.drive token l) {w : World}
    (hdrive : w.remote.drive = s.world.remote.drive) {newToken : PageToken} :
    Resolving { s with world := w, poller := .resolving l [] newToken } l [] newToken := by
  refine ⟨fun e he => ?_, answers.order, by simp, fun i id hi hnot _ => .inr ?_⟩
  · obtain ⟨-, n, r, hn, hc⟩ := answers.entry e he
    refine ⟨n, r, ?_, by rw [hc]⟩
    simpa only [hdrive] using hn
  · rcases h.covered i id hi with hdone | ⟨hbefore, -⟩
    · exact absurd hdone hnot
    · exact answers.latest i id (hle.trans (hbefore t ht)) (h.entry i id hi)

/-- Resolving a change under the condition leaves no file out. -/
lemma Resolving.resolve {fuel i : ℕ} {c : RawChange} {todo : List (ℕ × RawChange)}
    {kept : List (ℕ × RemoteChange)} {newToken : PageToken} {o : Option RemoteChange}
    {cache : PathCache} {w : World} (h : Resolving s ((i, c) :: todo) kept newToken)
    (hfuel : size s.world.remote.drive + 1 < fuel)
    (run : (processChange fuel s.root s.cache c).run (handle env) s.world = (.ok (o, cache), w))
    (meets : Resolvable s i c todo) :
    Resolving s todo (kept ++ (o.map fun r => (i, r)).toList) newToken := by
  obtain ⟨hentry, horder, hkept, howed⟩ := h
  obtain ⟨hfirst, horder'⟩ := List.pairwise_cons.mp horder
  have hfile : ∀ r, o = some r → r.fileId = c.fileId := by
    rintro r rfl
    obtain ⟨o', cache₁, w₁, hrun, hspec⟩ := processChange_spec env fuel s.root s.cache c s.world
    rw [run] at hrun
    obtain ⟨⟨rfl, -⟩, -⟩ : ((some r = o') ∧ _) ∧ _ := by simpa using hrun
    exact (hspec.same r rfl).1
  refine ⟨fun e he => hentry e (by simp [he]), horder', ?_, ?_⟩
  · intro e he
    rcases List.mem_append.mp he with he | he
    · exact hkept e he
    · obtain ⟨r, rfl, rfl⟩ : ∃ r, o = some r ∧ (i, r) = e := by
        cases o <;> simp_all
      have hid := hfile r rfl
      have hfound : Found s c := (found_iff hfuel run).mpr ⟨r, rfl, hid⟩
      refine ⟨?_, ?_⟩
      · simpa only [hid] using hentry (i, c) (by simp)
      · simpa only [hid] using meets.2 hfound
  · intro j id hj hnot hlt
    rcases howed j id hj hnot hlt with ⟨e, he, hje, hid⟩ | ⟨e, he, hje, hid⟩
    · exact .inl ⟨e, by simp [he], hje, hid⟩
    · rcases List.mem_cons.mp he with rfl | he
      · by_cases hlater : ∀ e ∈ todo, e.2.fileId ≠ c.fileId
        · have howes : s.Owed c.fileId := ⟨j, by rwa [hid], by rwa [hid]⟩
          obtain ⟨r, rfl, hr⟩ := (found_iff hfuel run).mp (meets.1 howes hlater)
          exact .inl ⟨(i, r), by simp, hje, hr.trans hid⟩
        · -- a later change of the file is still to come
          push Not at hlater
          obtain ⟨e, he, hsame⟩ := hlater
          exact .inr ⟨e, he, hje.trans (hfirst e he).le, hsame.trans hid⟩
      · exact .inr ⟨e, he, hje, hid⟩

/-- Sending a batch from which no file was left out. -/
lemma Owes.send {kept : List (ℕ × RemoteChange)} {newToken : PageToken} (h : Owes s)
    (at' : s.poller = .resolving [] kept newToken) :
    Owes { s with
      poller := .asleep
      channel := s.channel ++ [⟨kept, newToken⟩]
      forwarded := s.forwarded ++ kept.map fun e => (e.1, e.2.fileId) } := by
  obtain ⟨-, -, hkept, howed⟩ := h.resolving _ _ _ at'
  have hmem : ∀ i id, (i, id) ∈ s.forwarded ++ kept.map (fun e => (e.1, e.2.fileId)) →
      (i, id) ∈ s.forwarded ∨ ∃ e ∈ kept, e.1 = i ∧ e.2.fileId = id := by
    intro i id hi
    simpa using hi
  refine ⟨fun i id hi => ?_, fun i id hi => ?_, by simp⟩
  · rcases hmem i id hi with hi | ⟨e, he, rfl, rfl⟩
    · exact h.entry i id hi
    · exact (hkept e he).1
  · have hout : ∀ b, b ∈ State.outstanding { s with
        poller := .asleep
        channel := s.channel ++ [⟨kept, newToken⟩]
        forwarded := s.forwarded ++ kept.map fun e => (e.1, e.2.fileId) } →
        b ∈ s.outstanding ∨ b = ⟨kept, newToken⟩ := by
      intro b hb
      simpa [State.outstanding, or_assoc] using hb
    have hcov : s.Covered i id ∧
        (¬s.Applied i id → i < newToken → ∃ e ∈ kept, i ≤ e.1 ∧ e.2.fileId = id) := by
      rcases hmem i id hi with hi | ⟨e, he, rfl, rfl⟩
      · refine ⟨h.covered i id hi, fun hnot hlt => ?_⟩
        rcases howed i id hi hnot hlt with hin | ⟨e, he, -⟩
        · exact hin
        · simp at he
      · exact ⟨(hkept e he).2, fun _ _ => ⟨e, he, Nat.le_refl _, rfl⟩⟩
    by_cases hdone : s.Applied i id
    · exact .inl hdone
    · rcases hcov.1 with hdone' | ⟨hbefore, hb⟩
      · exact absurd hdone' hdone
      · refine .inr ⟨hbefore, fun b hmemb hlt => ?_⟩
        rcases hout b hmemb with hold | rfl
        · exact hb b hold hlt
        · exact hcov.2 hdone hlt

/-- The consumer goes on to the rest of a batch when a change was applied. -/
lemma passes_applied {i : ℕ} {c : RemoteChange} {todo : List (ℕ × RemoteChange)} {all : Bool}
    {newToken : PageToken} (at' : s.consumer = .applying i c (.pure ()) todo all newToken) :
    Passes s { s with
      consumer := .between todo all newToken
      applied := s.applied ++ [(i, c.fileId)] } := by
  have hap : ∀ j id, s.Applied j id → State.Applied { s with
      consumer := .between todo all newToken
      applied := s.applied ++ [(i, c.fileId)] } j id := by
    rintro j id ⟨k, hk, hmem⟩
    exact ⟨k, hk, List.mem_append_left _ hmem⟩
  refine ⟨List.prefix_refl _, rfl, hap, ?_, fun _ _ _ hp => hp⟩
  rintro j id (hdone | ⟨hbefore, hb⟩)
  · exact .inl (hap j id hdone)
  · by_cases hnow : j ≤ i ∧ c.fileId = id
    · exact .inl ⟨i, hnow.1, List.mem_append_right _ (by simp [hnow.2])⟩
    · refine .inr ⟨hbefore, fun b hmem hlt => ?_⟩
      cases all with
      | false => exact hb b (by simpa [State.outstanding, at'] using hmem) hlt
      | true =>
        have hmem' : b = ⟨todo, newToken⟩ ∨ b ∈ s.channel := by
          simpa [State.outstanding] using hmem
        rcases hmem' with rfl | hchannel
        · obtain ⟨e, he, hje, hid⟩ := hb ⟨(i, c) :: todo, newToken⟩
            (by simp [State.outstanding, at']) hlt
          rcases List.mem_cons.mp he with rfl | he
          · exact absurd ⟨hje, hid⟩ hnow
          · exact ⟨e, he, hje, hid⟩
        · exact hb b (by simp [State.outstanding, hchannel]) hlt

/-- The cursor moves to the end of a batch that was applied. -/
lemma passes_advance {newToken : PageToken} (at' : s.consumer = .between [] true newToken) :
    Passes s { s with
      world := { s.world with db := (DbCall.run (.setCursor newToken) s.world.db).2 }
      consumer := .waiting } := by
  refine ⟨List.prefix_refl _, rfl, fun _ _ h => h, ?_, fun _ _ _ hp => hp⟩
  rintro i id (hdone | ⟨-, hb⟩)
  · exact .inl hdone
  · refine .inr ⟨?_, fun b hmem => hb b ?_⟩
    · intro t ht
      obtain rfl : newToken = t := Option.some.inj ht
      by_contra hlt
      obtain ⟨e, he, -⟩ := hb ⟨[], newToken⟩ (by simp [State.outstanding, at']) (not_le.mp hlt)
      simp at he
    · have hchannel : b ∈ s.channel := by simpa [State.outstanding] using hmem
      simp [State.outstanding, hchannel]

/-- **One step that leaves no file out** keeps what is owed ahead of the cursor. -/
lemma Owes.step (h : Owes s) (hinv : Inv s) (hs : Step env Resolvable s s') : Owes s' := by
  cases hs with
  | @elsewhere w change =>
    obtain ⟨hfeed, hsame | ⟨hnone, -⟩⟩ := change
    · exact h.passes (passes_of_outstanding hfeed rfl rfl hsame (fun _ hb => hb)
        fun _ _ _ hp => hp)
    · obtain ⟨hpoller, -, -, hforwarded⟩ := hinv.blank hnone
      refine ⟨?_, ?_, ?_⟩
      · simp [hforwarded]
      · simp [hforwarded]
      · intro todo kept newToken hp
        simp [hpoller] at hp
  | restart root =>
    exact h.passes (passes_of_outstanding (List.prefix_refl _) rfl rfl rfl
      (by simp [State.outstanding]) (by simp))
  | @wake token asleep cursor =>
    exact h.passes (passes_of_outstanding (List.prefix_refl _) rfl rfl rfl (fun _ hb => hb)
      (by simp))
  | @fetch token l woken answered answers =>
    obtain ⟨t, ht, hle⟩ := hinv.woken token woken
    have hres : ∀ newToken, Resolving { s with
        world := polled s.world, poller := .resolving l [] newToken } l [] newToken := fun _ =>
      resolving_of_answers (w := polled s.world) h hle ht answers rfl
    have hcov : ∀ i id, s.Covered i id → State.Covered { s with
        world := polled s.world
        poller := .resolving l [] s.world.remote.drive.feed.length } i id := by
      rintro i id (hdone | ⟨hbefore, hb⟩)
      · exact .inl hdone
      · exact .inr ⟨fun t ht => hbefore t (cursor_polled s.world ▸ ht), hb⟩
    refine ⟨h.entry, fun i id hi => hcov i id (h.covered i id hi), ?_⟩
    rintro todo kept newToken ⟨⟩
    exact hres _
  | @unreachable token e r woken answered =>
    have hfeed : s.world.remote.drive.feed <+: r.drive.feed := by
      have hsend := @feed_send _ env.md5 (.changesSince token) s.world.remote
      rwa [answered] at hsend
    exact h.passes (passes_of_outstanding hfeed rfl rfl rfl (fun _ hb => hb) (by simp))
  | @resolve fuel i c todo kept newToken o cache w at' fuel_ge run meets =>
    obtain ⟨hcursor, hdrive⟩ := cursor_processChange run
    have hres := (h.resolving _ _ _ at').resolve fuel_ge run meets
    have hcov : ∀ i id, s.Covered i id → State.Covered { s with
        world := w, cache
        poller := .resolving todo (kept ++ (o.map fun r => (i, r)).toList) newToken } i id := by
      rintro i id (hdone | ⟨hbefore, hb⟩)
      · exact .inl hdone
      · exact .inr ⟨fun t ht => hbefore t (hcursor ▸ ht), hb⟩
    refine ⟨fun i id hi => ?_, fun i id hi => hcov i id (h.covered i id hi), ?_⟩
    · exact (h.entry i id hi).mono (by rw [← hdrive])
    · rintro _ _ _ ⟨⟩
      refine ⟨fun e he => (hres.entries e he).mono (by rw [← hdrive]), hres.order, ?_, hres.owed⟩
      intro e he
      obtain ⟨hentry, hcovered⟩ := hres.included e he
      exact ⟨hentry.mono (by rw [← hdrive]), hcov _ _ hcovered⟩
  | @send kept newToken at' => exact h.send at'
  | @take b rest waiting head =>
    refine h.passes (passes_of_outstanding (List.prefix_refl _) rfl rfl rfl (fun b' hb => ?_)
      fun _ _ _ hp => hp)
    simpa [State.outstanding, waiting, head] using hb
  | @begin i c todo all newToken at' =>
    refine h.passes (passes_of_outstanding (List.prefix_refl _) rfl rfl rfl (fun b' hb => ?_)
      fun _ _ _ hp => hp)
    cases all <;> simpa [State.outstanding, at'] using hb
  | @call i c β e k todo all newToken at' =>
    obtain ⟨he, -⟩ := hinv.within _ _ _ _ _ _ at'
    have helse : Elsewhere s.world (handle env β e s.world).2 :=
      elsewhere_of_call fun hc => he _ hc rfl
    refine h.passes (passes_of_outstanding helse.feed rfl rfl
      (cursor_handle fun hc => he _ hc rfl) (fun b' hb => ?_) fun _ _ _ hp => hp)
    cases all <;> simpa [State.outstanding, at'] using hb
  | @applied i c todo all newToken at' => exact h.passes (passes_applied at')
  | @failed i c p todo all newToken at' unfinished =>
    refine h.passes (passes_of_outstanding (List.prefix_refl _) rfl rfl rfl (fun b' hb => ?_)
      fun _ _ _ hp => hp)
    have hchannel : b' ∈ s.channel := by simpa [State.outstanding] using hb
    simp [State.outstanding, hchannel]
  | @advance newToken at' => exact h.passes (passes_advance at')
  | @keep all newToken at' =>
    refine h.passes (passes_of_outstanding (List.prefix_refl _) rfl rfl rfl (fun b' hb => ?_)
      fun _ _ _ hp => hp)
    have hchannel : b' ∈ s.channel := by simpa [State.outstanding] using hb
    simp [State.outstanding, hchannel]

/-! ## The code's own rounds -/

/-- All changes since a token are an answer to a request for them. -/
lemma answers_placed (md5 : Bytes → String) (d : Drive) (token : PageToken) :
    Answers md5 d token (placed md5 d token) := by
  have hget : ∀ k, (placed md5 d token)[k]? = d.feed[token + k]?.map fun e =>
      (token + k, ⟨.id e.1, e.2, (d.files.get e.1).map (Drive.resource md5)⟩) := by
    intro k
    simp [placed, List.getElem?_drop, List.getElem?_zipIdx, Function.comp_def]
  refine ⟨?_, fun e he => ?_, fun i id hi hentry => ?_⟩
  · refine List.pairwise_iff_getElem.mpr fun j k hj hk hlt => ?_
    have hplace : ∀ m (hm : m < (placed md5 d token).length),
        ((placed md5 d token)[m]).1 = token + m := by
      intro m hm
      have heq := hget m
      rw [List.getElem?_eq_getElem hm] at heq
      obtain ⟨x, -, hx⟩ := Option.map_eq_some_iff.mp heq.symm
      rw [← hx]
    rw [hplace j hj, hplace k hk]
    omega
  · obtain ⟨k, hk⟩ := List.mem_iff_getElem?.mp he
    rw [hget] at hk
    obtain ⟨x, hx, rfl⟩ := Option.map_eq_some_iff.mp hk
    exact ⟨Nat.le_add_right _ _, x.1, x.2, hx, rfl⟩
  · obtain ⟨n, r, hn, rfl⟩ := hentry
    refine ⟨(i, ⟨.id n, r, (d.files.get n).map (Drive.resource md5)⟩),
      List.mem_iff_getElem?.mpr ⟨i - token, ?_⟩, Nat.le_refl _, rfl⟩
    rw [hget, Nat.add_sub_cancel' hi, hn]
    rfl

/-- The changes since a token, without their places. -/
lemma snd_placed (md5 : Bytes → String) (d : Drive) (token : PageToken) :
    (placed md5 d token).map Prod.snd = d.changesSince md5 token := by
  have hfst : (d.feed.zipIdx.drop token).map Prod.fst = d.feed.drop token := by
    rw [List.map_drop, List.zipIdx_map_fst]
  rw [Drive.changesSince, ← hfst, placed, List.map_map, List.map_map]
  rfl

/-- The poller resolves a list of changes step by step. -/
lemma runs_of_processChanges {fuel : ℕ} {l : List (ℕ × RawChange)} {s : State}
    {kept₀ : List (ℕ × RemoteChange)} {newToken : PageToken} {kept : List RemoteChange}
    {cache : PathCache} {w : World} (at' : s.poller = .resolving l kept₀ newToken)
    (hfuel : size s.world.remote.drive + 1 < fuel)
    (hrun : (Prog.foldM (l.map Prod.snd) (processNext fuel s.root)
      (kept₀.map Prod.snd, s.cache)).run (handle env) s.world = (.ok (kept, cache), w)) :
    ∃ kept', kept'.map Prod.snd = kept ∧ Runs env Always s
      { s with world := w, cache, poller := .resolving [] kept' newToken } := by
  induction l generalizing s kept₀ with
  | nil =>
    simp only [List.map_nil, Prog.foldM_nil, Prog.run_pure, Prod.mk.injEq, Except.ok.injEq] at hrun
    obtain ⟨⟨rfl, rfl⟩, rfl⟩ := hrun
    refine ⟨kept₀, rfl, ?_⟩
    rw [← at']
  | cons e l ih =>
    obtain ⟨i, c⟩ := e
    obtain ⟨o, cache₁, w₁, hone, hspec⟩ := processChange_spec env fuel s.root s.cache c s.world
    have hnext : (processNext fuel s.root (kept₀.map Prod.snd, s.cache) c).run (handle env)
        s.world = (.ok (kept₀.map Prod.snd ++ o.toList, cache₁), w₁) := by
      simp only [processNext, Prog.bind_eq]
      rw [Prog.run_bind_ok _ hone]
      rfl
    rw [List.map_cons, Prog.foldM_cons, Prog.run_bind_ok _ hnext] at hrun
    have hstep : Step env Always s
        { s with
          world := w₁, cache := cache₁
          poller := .resolving l (kept₀ ++ (o.map fun r => (i, r)).toList) newToken } :=
      .resolve at' hfuel hone trivial
    have hmap : (kept₀ ++ (o.map fun r => (i, r)).toList).map Prod.snd =
        kept₀.map Prod.snd ++ o.toList := by
      cases o <;> simp
    obtain ⟨kept', hkept, hruns⟩ := ih (s := { s with
      world := w₁, cache := cache₁
      poller := .resolving l (kept₀ ++ (o.map fun r => (i, r)).toList) newToken }) rfl
      (by rw [hspec.drive]; exact hfuel) (by rw [hmap]; exact hrun)
    exact ⟨kept', hkept, .head hstep hruns⟩

/-- **A round of the poller** that goes on undisturbed is a run of the steps. -/
theorem runs_of_tick {fuel : ℕ} {s : State} {batch : RemoteBatch} {cache : PathCache} {w : World}
    (asleep : s.poller = .asleep) (hfuel : size s.world.remote.drive + 1 < fuel)
    (hrun : (tick fuel s.root s.cache).run (handle env) s.world = (.ok (some batch, cache), w)) :
    ∃ b : Batch, b.sent = batch ∧ Runs env Always s
      { s with
        world := w, cache, poller := .asleep, channel := s.channel ++ [b]
        forwarded := s.forwarded ++ b.changes.map fun e => (e.1, e.2.fileId) } := by
  obtain ⟨token, hcursor, hnow, htoken, hres⟩ := (tick_sends_iff env).mp hrun
  rw [processChanges, ← snd_placed] at hres
  obtain ⟨kept, hkept, hruns⟩ := runs_of_processChanges (s := { s with
    world := polled s.world
    poller := .resolving (placed env.md5 s.world.remote.drive token) []
      s.world.remote.drive.feed.length }) rfl hfuel hres
  refine ⟨⟨kept, s.world.remote.drive.feed.length⟩, ?_, ?_⟩
  · rw [Batch.sent, hkept, ← htoken]
  · have hwake : Step env Always s { s with poller := .woken token } := .wake asleep hcursor
    have hfetch : Step env Always { s with poller := .woken token }
        { s with
          world := polled s.world
          poller := .resolving (placed env.md5 s.world.remote.drive token) []
            s.world.remote.drive.feed.length } :=
      .fetch rfl hnow (answers_placed _ _ _)
    exact .tail (.head hwake (.head hfetch hruns)) (.send rfl)

/-- The consumer applies one change call by call. -/
lemma runs_of_applyRemote {i : ℕ} {c : RemoteChange} {p : Task Unit} {s : State}
    {todo : List (ℕ × RemoteChange)} {all : Bool} {newToken : PageToken}
    (at' : s.consumer = .applying i c p todo all newToken) :
    ∃ journal, Runs env Always s
      { s with
        world := (p.run (handle env) s.world).2
        consumer := .between todo (match (p.run (handle env) s.world).1 with
          | .ok _ => all
          | .error _ => false) newToken
        applied := journal } := by
  induction p generalizing s with
  | pure a => exact ⟨_, .single (.applied at')⟩
  | fail e => exact ⟨s.applied, .single (.failed at' (by simp))⟩
  | call e k ih =>
    have hcall : Step env Always s _ := .call at'
    obtain ⟨journal, hruns⟩ := ih (handle env _ e s.world).1 (s := { s with
      world := (handle env _ e s.world).2
      consumer := .applying i c (k (handle env _ e s.world).1) todo all newToken }) rfl
    exact ⟨journal, .head hcall hruns⟩

/-- The consumer applies a list of changes one after the other. -/
lemma runs_of_applyNext {l : List (ℕ × RemoteChange)} {s : State} {all : Bool}
    {newToken : PageToken} (at' : s.consumer = .between l all newToken) :
    ∃ journal flag, ((Prog.foldM (l.map Prod.snd) (Consumer.applyNext env) all).run (handle env)
        s.world).1 = .ok flag ∧ Runs env Always s
      { s with
        world := ((Prog.foldM (l.map Prod.snd) (Consumer.applyNext env) all).run (handle env)
          s.world).2
        consumer := .between [] flag newToken
        applied := journal } := by
  induction l generalizing s all with
  | nil =>
    refine ⟨s.applied, all, rfl, ?_⟩
    rw [← at']
    exact .refl
  | cons e l ih =>
    obtain ⟨i, c⟩ := e
    have hbegin : Step env Always s _ := .begin at'
    obtain ⟨journal, hone⟩ := @runs_of_applyRemote env i c (Continuous.applyRemote env c)
      { s with consumer := .applying i c (Continuous.applyRemote env c) l all newToken } l all
      newToken rfl
    have hnext : ∀ x v, (Continuous.applyRemote env c).run (handle env) s.world = (x, v) →
        (Consumer.applyNext env all c).run (handle env) s.world = (.ok (match x with
          | .ok _ => all
          | .error _ => false), v) := by
      intro x v hx
      have hattempt := Prog.run_attempt (handle env) (Continuous.applyRemote env c) s.world
      rw [hx] at hattempt
      simp only [Consumer.applyNext, Prog.bind_eq]
      rw [Prog.run_bind_ok _ hattempt]
      cases x <;> rfl
    rw [List.map_cons, Prog.foldM_cons, Prog.run_bind_ok _ (hnext _ _ rfl)]
    obtain ⟨journal', flag, hflag, hrest⟩ := ih (s := { s with
      world := ((Continuous.applyRemote env c).run (handle env) s.world).2
      consumer := .between l (match ((Continuous.applyRemote env c).run (handle env) s.world).1 with
        | .ok _ => all
        | .error _ => false) newToken
      applied := journal }) rfl
    exact ⟨journal', flag, hflag, .head hbegin (hone.trans hrest)⟩

/-- **A batch** that the consumer applies undisturbed is a run of the steps. -/
theorem runs_of_applyBatch {s : State} {b : Batch} {rest : List Batch}
    (waiting : s.consumer = .waiting) (head : s.channel = b :: rest) :
    ∃ journal, Runs env Always s
      { s with
        world := ((Consumer.applyBatch env b.sent).run (handle env) s.world).2
        channel := rest, consumer := .waiting, applied := journal } := by
  have htake : Step env Always s _ := .take waiting head
  obtain ⟨journal, flag, hflag, hruns⟩ := @runs_of_applyNext env b.changes
    { s with channel := rest, consumer := .between b.changes true b.newToken } true b.newToken rfl
  have hfold : (Prog.foldM b.sent.changes (Consumer.applyNext env) true).run (handle env) s.world =
      (.ok flag, ((Prog.foldM b.sent.changes (Consumer.applyNext env) true).run (handle env)
        s.world).2) := Prod.ext hflag rfl
  refine ⟨journal, .tail (.head htake hruns) ?_⟩
  simp only [Consumer.applyBatch, Prog.bind_eq]
  rw [Prog.run_bind_ok _ hfold]
  cases flag with
  | true => exact .advance rfl
  | false => exact .keep rfl

/-! ## The cursor is safe -/

lemma inv_start {w : World} {root : FileId}
    (hcursor : ∀ t, w.db.cursor = some t → t ≤ w.remote.drive.feed.length) :
    Inv (.start w root) := by
  have htokens : (State.start w root).tokens = w.db.cursor.toList := by
    simp [State.tokens, State.start, ConsumerAt.token, PollerAt.token]
  refine ⟨?_, ?_, by simp [State.start], fun _ => ⟨rfl, rfl, rfl, rfl⟩, by simp [State.start]⟩
  · rw [htokens]
    cases w.db.cursor <;> simp
  · intro t ht
    rw [htokens] at ht
    exact hcursor t (Option.mem_toList.mp ht)

/-- **Any number of steps** keeps the tokens in order, and does not move the cursor back. -/
lemma Inv.runs (h : Inv s) (hruns : Runs env ok s s') : Inv s' ∧ NotBack s s' := by
  induction hruns with
  | refl => exact ⟨h, fun t ht => ⟨t, ht, Nat.le_refl t⟩⟩
  | tail _ hstep ih =>
    obtain ⟨hinv', hback⟩ := ih.1.step hstep
    refine ⟨hinv', fun t ht => ?_⟩
    obtain ⟨t', ht', hle⟩ := ih.2 t ht
    obtain ⟨t'', ht'', hle'⟩ := hback t' ht'
    exact ⟨t'', ht'', hle.trans hle'⟩

/-- **The change cursor** never moves backwards, whatever happens. In a run in which the poller
leaves no file out, it has never passed a change that was forwarded and not applied; after a stop
at any moment, all of these are fetched again.

**Proof sketch.** Tokens are handed on in order, from the feed over the poller, the channel and the
consumer to the cursor (`Inv.step`). What is owed is ahead of the cursor and in every batch that
will move the cursor past it (`Owes.step`): a fetch contains it, since it starts at the cursor or
before it; the condition puts it into the batch; and a batch moves the cursor only when all its
changes were applied. -/
theorem cursor_safe (env : Env) {w : World} (root : FileId)
    (hcursor : ∀ t, w.db.cursor = some t → t ≤ w.remote.drive.feed.length) :
    (∀ s s', Runs env Always (.start w root) s → Runs env Always s s' → NotBack s s') ∧
      ∀ s, Runs env Resolvable (.start w root) s → Safe s ∧ Redelivered env s := by
  constructor
  · intro s s' hs hs'
    exact ((inv_start hcursor).runs hs).1.runs hs' |>.2
  · intro s hs
    have hboth : Inv s ∧ Owes s := by
      induction hs with
      | refl => exact ⟨inv_start hcursor, by simp [State.start], by simp [State.start],
          by simp [State.start]⟩
      | tail _ hstep ih => exact ⟨(ih.1.step hstep).1, ih.2.step ih.1 hstep⟩
    obtain ⟨hinv, howes⟩ := hboth
    refine ⟨fun i id hi => ?_, fun i id hi hnot => ?_⟩
    · rcases howes.covered i id hi with hdone | ⟨hbefore, -⟩
      · exact .inl hdone
      · exact .inr hbefore
    · rcases howes.covered i id hi with hdone | ⟨hbefore, -⟩
      · exact absurd hdone hnot
      · cases ht : s.world.db.cursor with
        | none => simp [(hinv.blank ht).2.2.2] at hi
        | some t => exact ⟨t, rfl, fun l hl => hl.latest i id (hbefore t ht) (howes.entry i id hi)⟩

/-- A daemon with a cursor, before the change of `Docs/a.txt` is polled. -/
def docsWorld : World :=
  { World.fresh docsDrive with db := { Db.empty with cursor := some 0 } }

/-- The change of `Docs/a.txt` as it is forwarded. -/
def docsForwarded : RemoteChange := ⟨.id 4, false, docsChange.file, some ["Docs", "a.txt"]⟩

/-- The poller after it has found `Docs/a.txt`. -/
def docsCache : PathCache := (seedCache (.id 2)).set (.id 3) ["Docs"]

lemma docsWorld_fuel : size docsDrive + 1 < 6 := by decide

/-- The daemon was stopped after the change was forwarded and its batch failed. -/
def stoppedBeforeApplied : State :=
  { State.start docsWorld (.id 2) with forwarded := [(0, .id 4)] }

/-- The change is forwarded and cannot be applied, and the daemon is stopped; this is possible
under every condition that the resolution of the change meets. -/
lemma runs_stoppedBeforeApplied (ok : State → ℕ → RawChange → List (ℕ × RawChange) → Prop)
    (meets : ok { State.start docsWorld (.id 2) with
      poller := .resolving [(0, docsChange)] [] 1 } 0 docsChange []) :
    Runs .plain ok (.start docsWorld (.id 2)) stoppedBeforeApplied := by
  have answers : Answers Env.plain.md5 docsDrive 0 [(0, docsChange)] :=
    answers_placed Env.plain.md5 docsDrive 0
  have hwake : Step .plain ok (.start docsWorld (.id 2))
      { State.start docsWorld (.id 2) with poller := .woken 0 } := .wake rfl rfl
  have hfetch : Step .plain ok { State.start docsWorld (.id 2) with poller := .woken 0 }
      { State.start docsWorld (.id 2) with poller := .resolving [(0, docsChange)] [] 1 } :=
    .fetch rfl rfl answers
  have hresolve : Step .plain ok
      { State.start docsWorld (.id 2) with poller := .resolving [(0, docsChange)] [] 1 }
      { State.start docsWorld (.id 2) with
        cache := docsCache, poller := .resolving [] [(0, docsForwarded)] 1 } :=
    .resolve (o := some docsForwarded) rfl docsWorld_fuel rfl meets
  refine .head hwake (.head hfetch (.head hresolve (.head (.send rfl) ?_)))
  exact .head (.take rfl rfl) (.head (.begin rfl)
    (.head (.failed rfl (by simp [Continuous.applyRemote, Prog.lift]))
      (.head (.keep rfl) (.single (.restart (.id 2))))))

/-- A change is forwarded and cannot be applied; after a restart the lookup of the folder above the
file fails, the change is left out of the batch, and the cursor passes it. -/
theorem failed_lookup_passes_owed_change :
    ∃ s, Runs .plain Always (.start docsWorld (.id 2)) s ∧ s.world.db.cursor = some 1 ∧
      (0, .id 4) ∈ s.forwarded ∧ s.applied = [] ∧ ¬Safe s := by
  have answers : Answers Env.plain.md5 docsDrive 0 [(0, docsChange)] :=
    answers_placed Env.plain.md5 docsDrive 0
  have helsewhere : Step .plain Always stoppedBeforeApplied
      { stoppedBeforeApplied with world := lostLookup } := .elsewhere ⟨List.prefix_refl _, .inl rfl⟩
  have hfetch : Step .plain Always
      { stoppedBeforeApplied with world := lostLookup, poller := .woken 0 }
      { stoppedBeforeApplied with
        world := polled lostLookup, poller := .resolving [(0, docsChange)] [] 1 } :=
    .fetch rfl rfl answers
  have hresolve : Step .plain Always
      { stoppedBeforeApplied with
        world := polled lostLookup, poller := .resolving [(0, docsChange)] [] 1 }
      { stoppedBeforeApplied with
        world := { lostLookup with remote := ⟨docsDrive, []⟩ }, poller := .resolving [] [] 1 } :=
    @Step.resolve .plain Always
      { stoppedBeforeApplied with
        world := polled lostLookup, poller := .resolving [(0, docsChange)] [] 1 }
      6 0 docsChange [] [] 1 none _ _ rfl docsWorld_fuel rfl trivial
  have hruns := (runs_stoppedBeforeApplied Always trivial).trans
    (.head helsewhere (.head (@Step.wake .plain Always _ 0 rfl rfl) (.head hfetch (.head hresolve
      (.head (.send rfl) (.head (.take rfl rfl) (.single (.advance rfl))))))))
  refine ⟨_, hruns, rfl, by simp [stoppedBeforeApplied, State.start], rfl, fun hsafe => ?_⟩
  rcases hsafe 0 (.id 4) (by simp [stoppedBeforeApplied, State.start]) with ⟨j, -, hj⟩ | hbefore
  · simp [stoppedBeforeApplied, State.start] at hj
  · exact absurd (hbefore 1 rfl) (by decide)

/-- The change was forwarded and not applied when the daemon is stopped: the next poll fetches it
again. -/
theorem stopped_daemon_fetches_again :
    (0, .id 4) ∈ stoppedBeforeApplied.forwarded ∧ stoppedBeforeApplied.applied = [] ∧
      Safe stoppedBeforeApplied ∧ Redelivered .plain stoppedBeforeApplied := by
  refine ⟨by simp [stoppedBeforeApplied], rfl, (cursor_safe .plain (.id 2)
    (w := docsWorld) ?_).2 _ (runs_stoppedBeforeApplied Resolvable ⟨?_, fun _ => .inr ⟨?_, ?_⟩⟩)⟩
  · rintro t ⟨⟩
    exact Nat.zero_le _
  · rintro ⟨i, hi, -⟩
    simp [State.start] at hi
  · rintro t ⟨⟩
    exact Nat.le_refl _
  · simp [State.outstanding, State.start]

end AirDrive.Cursor
