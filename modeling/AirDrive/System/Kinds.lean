import AirDrive.Daemon.Outcomes
import AirDrive.System.Run

set_option relaxedAutoImplicit false
set_option autoImplicit false

/-!
# Kinds of rows, objects and local paths

A row is a file row or a directory row for good, and so is an object on Drive; only the object at
a local path can change its kind, when the user replaces a file by a directory of the same name or
the reverse. Here is what a row, an object and a local path of one kind are, which calls mix the
kinds up, and that a call which does not mix them up keeps every row of the kind of the object it
is bound to.

## Main definitions

* `AirDrive.Kinds.kindOf`, `AirDrive.Kinds.localKind` — the kinds of objects and of local paths.
* `AirDrive.Kinds.allowed` — the calls that do not mix up kinds.
* `AirDrive.Kinds.Names`, `AirDrive.Kinds.Good` — an id names an object of a kind; the invariant.
* `AirDrive.Kinds.Kept` — a program that makes only allowed calls and keeps the invariant.

## Main results

* `AirDrive.Kinds.good_call` — a call keeps the invariant.
* `AirDrive.Kinds.evolves_call` — rows and objects do not change their kinds.
-/

namespace AirDrive.Kinds

open Effect

/-! ## Kinds -/

/-- The kind of an object on Drive. -/
def kindOf (f : DriveFile) : ItemKind := if f.mimeType = folderMime then .dir else .file

/-- The kind of an object that an answer describes. -/
def resourceKind (f : FileResource) : ItemKind := if f.isFolder then .dir else .file

/-- The kind of the object at a local path. -/
def localKind (fs : Fs) (p : RelPath) : Option ItemKind :=
  (fs.node p).map fun n => if n = .dir then .dir else .file

/-- No folder has the id. -/
def notFolder (d : Drive) (id : FileId) : Bool := (d.file id).all fun f => kindOf f = .file

/-- There is a directory at the path of a file row. -/
def mistaken (w : World) (p : RelPath) : Bool :=
  w.fs.isDir p && (w.db.items.getByRelativePath p).any fun r => r.kind = .file

/-- The calls that do not mix up kinds, when they are made for a row of the kind `source`: no
content goes to the id of a folder or comes from a directory row, a row for a local object has its
kind, and no local directory is moved for a file row. -/
def allowed (source : Option ItemKind) : {β : Type} → Call β → World → Bool
  | _, .drive (.patchMedia id _), w => source ≠ some .dir && notFolder w.remote.drive id
  | _, .drive (.uploadMultipart _ _ _ _), _ => source ≠ some .dir
  | _, .db (.insertItem new), w =>
    new.remoteId.isSome || localKind w.fs new.relativePath = some new.kind
  | _, .fs (.rename old _), w => !mistaken w old
  | _, .fs (.mergeMoveDir src _), w => !mistaken w src
  | _, _, _ => true

/-- The calls, watched: each is judged in the state before it. -/
def judge (env : Env) (source : Option ItemKind) : Handler Call (Watched World) :=
  watch (handle env) (fun _ _ _ => true) fun _ c w => allowed source c w

/-! ## Objects on Drive -/

/-- Ids keep their kinds: they are not given out twice, and an object stays a folder or a file. -/
structure KindsKept (d d' : Drive) : Prop where
  /-- Ids are not given out twice. -/
  next : d.files.next ≤ d'.files.next
  /-- An object that is not new was there, of the same type. -/
  kinds : ∀ f' ∈ d'.files, f'.num < d.files.next →
    ∃ f ∈ d.files, f.num = f'.num ∧ f.mimeType = f'.mimeType

section Objects

variable {md5 : List UInt8 → String} {d d' : Drive} {α : Type}

lemma KindsKept.refl (d : Drive) : KindsKept d d :=
  ⟨Nat.le_refl _, fun f hf _ => ⟨f, hf, rfl, rfl⟩⟩

lemma KindsKept.trans {d₁ d₂ d₃ : Drive} (h : KindsKept d₁ d₂) (h' : KindsKept d₂ d₃) :
    KindsKept d₁ d₃ := by
  refine ⟨h.next.trans h'.next, fun f₃ hf₃ hold => ?_⟩
  obtain ⟨f₂, hf₂, hnum₂, hmime₂⟩ := h'.kinds f₃ hf₃ (hold.trans_le h.next)
  obtain ⟨f₁, hf₁, hnum₁, hmime₁⟩ := h.kinds f₂ hf₂ (hnum₂ ▸ hold)
  exact ⟨f₁, hf₁, hnum₁.trans hnum₂, hmime₁.trans hmime₂⟩

private lemma kindsKept_create {parent : FileId} {name mime : String}
    {content : Option (List UInt8)} : KindsKept d (d.create parent name mime content).2 := by
  unfold Drive.create
  split
  · exact .refl d
  · refine ⟨Nat.le_succ _, fun f hf hold => ?_⟩
    rcases Data.Serial.mem_push.mp hf with hf | rfl
    · exact ⟨f, hf, rfl, rfl⟩
    · exact absurd hold (lt_irrefl _)

private lemma kindsKept_change {num : ℕ} {g : DriveFile → DriveFile} {hg : ∀ x, (g x).num = x.num}
    (hmime : ∀ x, (g x).mimeType = x.mimeType) : KindsKept d (d.change num g hg) := by
  refine ⟨Nat.le_refl _, fun f hf _ => ?_⟩
  rcases (@Data.Serial.mem_modify _ _ _ _ _ hg _).mp hf with ⟨hf, -⟩ | ⟨s, hs, -, rfl⟩
  · exact ⟨f, hf, rfl, rfl⟩
  · exact ⟨s, hs, (hg s).symm, (hmime s).symm⟩

/-- **No request changes the kind of an object.** -/
lemma kindsKept_run (c : DriveCall α) (d : Drive) : KindsKept d (c.run md5 d).2 := by
  cases c with
  | createFolder parent name =>
    have h := @kindsKept_create d parent name folderMime none
    simp only [DriveCall.run]
    generalize d.create parent name folderMime none = made at h ⊢
    obtain ⟨f, d'⟩ := made
    cases f <;> exact h
  | uploadMultipart parent name mime bytes =>
    have h := @kindsKept_create d parent name mime (some bytes)
    simp only [DriveCall.run]
    generalize d.create parent name mime (some bytes) = made at h ⊢
    obtain ⟨f, d'⟩ := made
    cases f <;> exact h
  | patchMedia id bytes =>
    simp only [DriveCall.run, DriveCall.onFile]
    split
    · exact .refl d
    · exact kindsKept_change fun _ => rfl
  | patchFile id name move =>
    simp only [DriveCall.run, DriveCall.onFile]
    split
    · exact .refl d
    · exact kindsKept_change fun _ => rfl
  | trash id =>
    simp only [DriveCall.run, DriveCall.onFile]
    split
    · exact .refl d
    · split
      · exact kindsKept_change fun _ => rfl
      · exact .refl d
  | deleteFile id =>
    simp only [DriveCall.run, DriveCall.onFile]
    split
    · exact .refl d
    · split
      · refine ⟨Nat.le_refl _, fun f hf _ => ⟨f, (Data.Serial.mem_keep.mp hf).1, rfl, rfl⟩⟩
      · exact .refl d
  | removeParents id parents =>
    simp only [DriveCall.run, DriveCall.onFile]
    split
    · exact .refl d
    · split
      · exact kindsKept_change fun _ => rfl
      · exact .refl d
  | getFile id =>
    simp only [DriveCall.run, DriveCall.onFile]
    split <;> exact .refl d
  | getMedia id =>
    simp only [DriveCall.run, DriveCall.onFile]
    split
    · exact .refl d
    · split <;> exact .refl d
  | listChildren parent => exact .refl d
  | changesSince token => exact .refl d
  | startPageToken => exact .refl d

lemma kindsKept_send (c : DriveCall α) (r : Remote) : KindsKept r.drive (r.send md5 c).2.drive := by
  rcases @Remote.send_drive _ md5 c r with hsame | hrun
  · rw [hsame]
    exact .refl _
  · rw [hrun]
    exact kindsKept_run c _

/-- An object of this number and kind has been on Drive. -/
def Was (past : List Drive) (n : ℕ) (k : ItemKind) : Prop :=
  ∃ d ∈ past, ∃ f ∈ d.files, f.num = n ∧ kindOf f = k

/-- Every id has had one kind up to the state `d`, the last one. -/
structure Consistent (past : List Drive) (d : Drive) : Prop where
  /-- The ids were given out. -/
  below : ∀ n k, Was past n k → n < d.files.next
  /-- An object that is there has the kind it had. -/
  now : ∀ f ∈ d.files, ∀ k, Was past f.num k → kindOf f = k
  /-- An id has one kind. -/
  unique : ∀ n k k', Was past n k → Was past n k' → k = k'

/-- The id was given out, and the object it names has always been of this kind. -/
def Names (past : List Drive) (d : Drive) (rid : FileId) (k : ItemKind) : Prop :=
  ∃ n, rid = .id n ∧ n < d.files.next ∧ (∀ k', Was past n k' → k' = k) ∧
    ∀ f ∈ d.files, f.num = n → kindOf f = k

lemma kindOf_congr {f g : DriveFile} (h : f.mimeType = g.mimeType) : kindOf f = kindOf g := by
  rw [kindOf, h, kindOf]

variable {past : List Drive} {k : ItemKind} {rid : FileId}

lemma Consistent.mono (h : Consistent past d) (hkept : KindsKept d d') : Consistent past d' := by
  refine ⟨fun n k hwas => (h.below n k hwas).trans_le hkept.next, fun f hf k hwas => ?_, h.unique⟩
  obtain ⟨g, hg, hnum, hmime⟩ := hkept.kinds f hf (h.below _ _ hwas)
  rw [← kindOf_congr hmime]
  exact h.now g hg k (hnum ▸ hwas)

/-- The last state of Drive joins the past. -/
lemma Consistent.cons (h : Consistent past d) : Consistent (d :: past) d := by
  have hcases : ∀ {n k}, Was (d :: past) n k → (∃ f ∈ d.files, f.num = n ∧ kindOf f = k) ∨
      Was past n k := by
    rintro n k ⟨d₁, hd₁, hwas⟩
    rcases List.mem_cons.mp hd₁ with rfl | hd₁
    · exact .inl hwas
    · exact .inr ⟨d₁, hd₁, hwas⟩
  have hnow : ∀ f ∈ d.files, ∀ k, Was (d :: past) f.num k → kindOf f = k := by
    intro f hf k hwas
    rcases hcases hwas with ⟨g, hg, hnum, hkind⟩ | hwas
    · rw [← hkind, d.files.key_inj hg hf hnum]
    · exact h.now f hf k hwas
  refine ⟨fun n k hwas => ?_, hnow, fun n k k' hwas hwas' => ?_⟩
  · rcases hcases hwas with ⟨f, hf, rfl, -⟩ | hwas
    · exact d.files.key_lt hf
    · exact h.below n k hwas
  · rcases hcases hwas with ⟨f, hf, rfl, rfl⟩ | hold
    · exact hnow f hf k' hwas'
    · rcases hcases hwas' with ⟨f, hf, rfl, rfl⟩ | hold'
      · exact (hnow f hf k hwas).symm
      · exact h.unique n k k' hold hold'

lemma consistent_self (d : Drive) : Consistent [d] d := by
  have hnever : ∀ n k, ¬Was [] n k := fun n k ⟨_, hd, _⟩ => nomatch hd
  have hempty : Consistent [] d :=
    ⟨fun n k h => absurd h (hnever n k), fun _ _ k h => absurd h (hnever _ k),
      fun n k _ h => absurd h (hnever n k)⟩
  exact hempty.cons

lemma Names.mono (h : Names past d rid k) (hkept : KindsKept d d') : Names past d' rid k := by
  obtain ⟨n, rfl, hlt, hwas, hnow⟩ := h
  refine ⟨n, rfl, hlt.trans_le hkept.next, hwas, fun f hf hnum => ?_⟩
  obtain ⟨g, hg, hnum', hmime⟩ := hkept.kinds f hf (hnum ▸ hlt)
  rw [← kindOf_congr hmime]
  exact hnow g hg (hnum'.trans hnum)

/-- The id of an object that is there. -/
lemma Consistent.names (h : Consistent past d) {f : DriveFile} (hf : f ∈ d.files) :
    Names past d (.id f.num) (kindOf f) :=
  ⟨f.num, rfl, d.files.key_lt hf, fun k' hwas => (h.now f hf k' hwas).symm,
    fun g hg hnum => by rw [d.files.key_inj hg hf hnum]⟩

/-- The id of an object that has been there. -/
lemma Consistent.names_was (h : Consistent past d) {n : ℕ} (hwas : Was past n k) :
    Names past d (.id n) k :=
  ⟨n, rfl, h.below n k hwas, fun k' hwas' => h.unique n k' k hwas' hwas,
    fun f hf hnum => h.now f hf k (hnum ▸ hwas)⟩

/-- What the last state of Drive adds to the past says nothing new about an id. -/
lemma Names.cons (h : Names past d rid k) : Names (d :: past) d rid k := by
  obtain ⟨n, rfl, hlt, hwas, hnow⟩ := h
  refine ⟨n, rfl, hlt, ?_, hnow⟩
  rintro k' ⟨d₁, hd₁, f, hf, hnum, hkind⟩
  rcases List.mem_cons.mp hd₁ with rfl | hd₁
  · rw [← hkind]
    exact hnow f hf hnum
  · exact hwas k' ⟨d₁, hd₁, f, hf, hnum, hkind⟩

end Objects

/-! ## The invariant -/

/-- The row of an id has a kind, and so will every later one. -/
def RowKind (i : ItemId) (k : ItemKind) (w : World) : Prop :=
  i < w.db.items.nextId ∧ ∀ r ∈ w.db.items, r.id = i → r.kind = k

/-- No row changes its kind, and neither does an object on Drive. -/
structure Evolves (w w' : World) : Prop where
  /-- The objects on Drive. -/
  drive : KindsKept w.remote.drive w'.remote.drive
  /-- Row ids are not given out twice. -/
  nextId : w.db.items.nextId ≤ w'.db.items.nextId
  /-- A row that is not new was there, of the same kind. -/
  rows : ∀ r ∈ w'.db.items, r.id < w.db.items.nextId →
    ∃ s ∈ w.db.items, s.id = r.id ∧ s.kind = r.kind

/-- What holds in every state: each row is of the kind of the object it is bound to, what is
fetched for a row is a file, and so is the row; the rows that `D` asks about, by their ids and
paths, are directory rows. -/
structure Good (past : List Drive) (D : ItemId → RelPath → Prop) (w : World) : Prop where
  /-- Ids have one kind. -/
  history : Consistent past w.remote.drive
  /-- Rows have the kind of their objects. -/
  bound : ∀ r ∈ w.db.items, ∀ rid, r.remoteId = some rid → Names past w.remote.drive rid r.kind
  /-- Downloads are of files, for file rows. -/
  downloads : ∀ o ∈ w.db.ops, o.op = .download → ∀ dl, o.payload = some (.download dl) →
    Names past w.remote.drive dl.remoteId .file ∧ RowKind o.syncItemId .file w
  /-- The rows in question are directory rows. -/
  dirs : ∀ r ∈ w.db.items, D r.id r.relativePath → r.kind = .dir

section Invariant

variable {env : Env} {past : List Drive} {D : ItemId → RelPath → Prop} {w w₁ w₂ w₃ : World}
  {k : ItemKind} {i : ItemId} {rid : FileId}

lemma Evolves.refl (w : World) : Evolves w w :=
  ⟨.refl _, Nat.le_refl _, fun r hr _ => ⟨r, hr, rfl, rfl⟩⟩

lemma Evolves.trans (h : Evolves w₁ w₂) (h' : Evolves w₂ w₃) : Evolves w₁ w₃ := by
  refine ⟨h.drive.trans h'.drive, h.nextId.trans h'.nextId, fun r hr hold => ?_⟩
  obtain ⟨s, hs, hid, hkind⟩ := h'.rows r hr (hold.trans_le h.nextId)
  obtain ⟨t, ht, hid', hkind'⟩ := h.rows s hs (hid ▸ hold)
  exact ⟨t, ht, hid'.trans hid, hkind'.trans hkind⟩

lemma RowKind.evolve (h : RowKind i k w₁) (hev : Evolves w₁ w₂) : RowKind i k w₂ := by
  refine ⟨h.1.trans_le hev.nextId, fun r hr hid => ?_⟩
  obtain ⟨s, hs, hsid, hkind⟩ := hev.rows r hr (hid ▸ h.1)
  rw [← hkind]
  exact h.2 s hs (hsid.trans hid)

/-- The row that is there. -/
lemma rowKind_of_mem {r : SyncItem} (hr : r ∈ w.db.items) : RowKind r.id r.kind w :=
  ⟨ItemTable.id_lt hr, fun s hs hid => by rw [ItemTable.id_inj hs hr hid]⟩

/-- No statement changes the kind of a row. -/
lemma kind_of_changes {β : Type} {c : DbCall β} {s r : SyncItem} (h : c.Changes s r) :
    r.kind = s.kind := by
  have hsame : r = s → r.kind = s.kind := fun heq => by rw [heq]
  cases c with
  | setRemoteId id rid => rcases h with rfl | ⟨-, rfl⟩ <;> rfl
  | setRelativePath id rel =>
    obtain ⟨p, rfl⟩ := h
    rfl
  | renameSubtree old new =>
    obtain ⟨p, rfl⟩ := h
    rfl
  | updateFingerprint id size md5 => rcases h with rfl | ⟨-, rfl⟩ <;> rfl
  | setState id state => rcases h with rfl | ⟨-, rfl⟩ <;> rfl
  | markTrashed id at' => rcases h with rfl | ⟨-, rfl⟩ <;> rfl
  | clearTrashed id => rcases h with rfl | ⟨-, rfl⟩ <;> rfl
  | _ => exact hsame h

/-- **Rows and objects do not change their kinds**, whatever the call. -/
lemma evolves_call (env : Env) {β : Type} (c : Call β) (w : World) :
    Evolves w (handle env β c w).2 := by
  cases c with
  | db c =>
    refine ⟨.refl _, DbCall.nextId_le_run c w.db, fun r hr hold => ?_⟩
    rcases DbCall.mem_items_run hr with ⟨s, hs, hid, hchange⟩ | ⟨new, -, rfl⟩
    · exact ⟨s, hs, hid, (kind_of_changes hchange).symm⟩
    · exact absurd hold (lt_irrefl _)
  | drive c => exact ⟨kindsKept_send c _, Nat.le_refl _, fun r hr _ => ⟨r, hr, rfl, rfl⟩⟩
  | _ => exact ⟨.refl _, Nat.le_refl _, fun r hr _ => ⟨r, hr, rfl, rfl⟩⟩

/-- What a call binds or queues has the kind of its row. -/
def Binds (past : List Drive) (w : World) : {β : Type} → Call β → Prop
  | _, .db (.insertItem new) =>
    ∀ rid, new.remoteId = some rid → Names past w.remote.drive rid new.kind
  | _, .db (.setRemoteId id rid) =>
    ∀ r ∈ w.db.items, r.id = id → Names past w.remote.drive rid r.kind
  | _, .db (.enqueue item .download (some (.download dl)) _) =>
    Names past w.remote.drive dl.remoteId .file ∧ RowKind item .file w
  | _, _ => True

/-- The row that a call inserts or moves stays a directory row, if it is asked about. -/
def Places (D : ItemId → RelPath → Prop) : {β : Type} → Call β → Prop
  | _, .db (.insertItem new) => ∀ i, D i new.relativePath → new.kind = .dir
  | _, .db (.setRelativePath _ _) => ∀ i p q, D i p → D i q
  | _, .db (.renameSubtree _ _) => ∀ i p q, D i p → D i q
  | _, _ => True

/-- A row that a statement changed is bound as it was, or as the statement says. -/
lemma names_of_changes {β : Type} {c : DbCall β} {s r : SyncItem} (hs : s ∈ w.db.items)
    (hbound : ∀ rid, s.remoteId = some rid → Names past w.remote.drive rid s.kind)
    (hbind : Binds past w (.db c)) (h : c.Changes s r) (hrid : r.remoteId = some rid) :
    Names past w.remote.drive rid r.kind := by
  rw [kind_of_changes h]
  have hsame : r.remoteId = s.remoteId → Names past w.remote.drive rid s.kind := fun heq =>
    hbound rid (heq ▸ hrid)
  have heq : r = s → Names past w.remote.drive rid s.kind := fun heq => hsame (by rw [heq])
  cases c with
  | setRemoteId id rid' =>
    rcases h with rfl | ⟨hid, rfl⟩
    · exact hsame rfl
    · exact Option.some.inj hrid ▸ hbind s hs hid
  | setRelativePath id rel =>
    obtain ⟨p, rfl⟩ := h
    exact hsame rfl
  | renameSubtree old new =>
    obtain ⟨p, rfl⟩ := h
    exact hsame rfl
  | updateFingerprint id size md5 => rcases h with rfl | ⟨-, rfl⟩ <;> exact hsame rfl
  | setState id state => rcases h with rfl | ⟨-, rfl⟩ <;> exact hsame rfl
  | markTrashed id at' => rcases h with rfl | ⟨-, rfl⟩ <;> exact hsame rfl
  | clearTrashed id => rcases h with rfl | ⟨-, rfl⟩ <;> exact hsame rfl
  | _ => exact heq h

/-- A row that a statement changed is asked about as before. -/
lemma asked_of_changes {β : Type} {c : DbCall β} {s r : SyncItem} (hplace : Places D (.db c))
    (h : c.Changes s r) (hD : D r.id r.relativePath) : D s.id s.relativePath := by
  have heq : r = s → D s.id s.relativePath := fun heq => heq ▸ hD
  cases c with
  | setRemoteId id rid' => rcases h with rfl | ⟨-, rfl⟩ <;> exact hD
  | setRelativePath id rel =>
    obtain ⟨p, rfl⟩ := h
    exact hplace _ _ _ hD
  | renameSubtree old new =>
    obtain ⟨p, rfl⟩ := h
    exact hplace _ _ _ hD
  | updateFingerprint id size md5 => rcases h with rfl | ⟨-, rfl⟩ <;> exact hD
  | setState id state => rcases h with rfl | ⟨-, rfl⟩ <;> exact hD
  | markTrashed id at' => rcases h with rfl | ⟨-, rfl⟩ <;> exact hD
  | clearTrashed id => rcases h with rfl | ⟨-, rfl⟩ <;> exact hD
  | _ => exact heq h

/-- A download that a statement queues. -/
lemma binds_enqueue {β : Type} {c : DbCall β} {op : Operation} {dl : DownloadPayload}
    (hbind : Binds past w (.db c)) (h : c.enqueues = some (i, op, some (.download dl)))
    (hop : op = .download) : Names past w.remote.drive dl.remoteId .file ∧ RowKind i .file w := by
  cases c with
  | enqueue item op' payload now =>
    obtain ⟨rfl, rfl, rfl⟩ : item = i ∧ op' = op ∧ payload = some (.download dl) := by
      simpa [DbCall.enqueues] using h
    subst hop
    exact hbind
  | _ => cases h

/-- **A call keeps the invariant** when what it binds or queues has the kind of its row. -/
lemma good_call {β : Type} {c : Call β} (h : Good past D w) (hbind : Binds past w c)
    (hplace : Places D c) : Good past D (handle env β c w).2 := by
  have hev := evolves_call env c w
  refine ⟨h.history.mono hev.drive, fun r hr rid hrid => ?_, fun o ho hop dl hdl => ?_,
    fun r hr hD => ?_⟩
  · cases c with
    | db c =>
      rcases DbCall.mem_items_run hr with ⟨s, hs, -, hchange⟩ | ⟨new, hnew, rfl⟩
      · exact names_of_changes (w := w) hs (h.bound s hs) hbind hchange hrid
      · cases c with
        | insertItem new' =>
          obtain rfl := Option.some.inj hnew
          exact hbind rid hrid
        | _ => cases hnew
    | drive c => exact (h.bound r hr rid hrid).mono hev.drive
    | _ => exact h.bound r hr rid hrid
  · cases c with
    | db c =>
      rcases DbCall.mem_ops_run ho with ⟨o', ho', -, hitem, hop', hpayload⟩ | ⟨henqueue, -⟩
      · obtain ⟨hnames, hrow⟩ := h.downloads o' ho' (hop'.trans hop) dl (hpayload.trans hdl)
        exact ⟨hnames, hitem ▸ hrow.evolve hev⟩
      · rw [hdl] at henqueue
        obtain ⟨hnames, hrow⟩ := binds_enqueue hbind henqueue hop
        exact ⟨hnames, hrow.evolve hev⟩
    | drive c =>
      obtain ⟨hnames, hrow⟩ := h.downloads o ho hop dl hdl
      exact ⟨hnames.mono hev.drive, hrow⟩
    | _ => exact h.downloads o ho hop dl hdl
  · cases c with
    | db c =>
      rcases DbCall.mem_items_run hr with ⟨s, hs, -, hchange⟩ | ⟨new, hnew, rfl⟩
      · rw [kind_of_changes hchange]
        exact h.dirs s hs (asked_of_changes hplace hchange hD)
      · cases c with
        | insertItem new' =>
          obtain rfl := Option.some.inj hnew
          exact hplace _ hD
        | _ => cases hnew
    | _ => exact h.dirs r hr hD

end Invariant

/-! ## Programs -/

/-- The invariant of a watched run in which no kinds were mixed up so far. -/
def Inv (past : List Drive) (D : ItemId → RelPath → Prop) (s : Watched World) : Prop :=
  Good past D s.state ∧ s.kept = true

/-- A program that runs for a row of the kind `source` makes only allowed calls, keeps the
invariant and ends with an outcome and a state that satisfy `Q`. -/
def Kept {α : Type} (env : Env) (past : List Drive) (D : ItemId → RelPath → Prop)
    (source : Option ItemKind) (Q : Except Error α → World → Prop) (p : Task α) (w : World) :
    Prop :=
  ∀ s : Watched World, s.state = w →
    p.Safe (judge env source) (.solo (Inv past D)) (fun x s' => Q x s'.state) s

section Programs

variable {env : Env} {past : List Drive} {D : ItemId → RelPath → Prop} {source : Option ItemKind}
  {w : World} {α β : Type} {Q : Except Error α → World → Prop}

@[simp] lemma kept_pure {a : α} : Kept env past D source Q (.pure a) w ↔ Q (.ok a) w :=
  ⟨fun h => h ⟨w, true, true⟩ rfl, fun h s hs => by rwa [Prog.safe_pure, hs]⟩

@[simp] lemma kept_fail {e : Error} : Kept env past D source Q (.fail e) w ↔ Q (.error e) w :=
  ⟨fun h => h ⟨w, true, true⟩ rfl, fun h s hs => by rwa [Prog.safe_fail, hs]⟩

@[simp] lemma kept_ofExcept {x : Except Error α} :
    Kept env past D source Q (.ofExcept x) w ↔ Q x w := by
  cases x <;> simp

/-- What a call has to satisfy. -/
structure Fine (past : List Drive) (D : ItemId → RelPath → Prop) (source : Option ItemKind)
    (c : Call β) (w : World) : Prop where
  /-- It does not mix up kinds. -/
  allowed : allowed source c w = true
  /-- What it binds or queues has the kind of its row. -/
  binds : Binds past w c
  /-- What it inserts or moves stays a directory row. -/
  places : Places D c

/-- **One call.** -/
lemma kept_call {c : Call β} {k : β → Task α} (hfine : Good past D w → Fine past D source c w)
    (hk : Good past D w → Kept env past D source Q (k (handle env β c w).1) (handle env β c w).2) :
    Kept env past D source Q (.call c k) w := by
  rintro s rfl
  refine (Prog.safe_call_solo _ _).mpr fun ⟨hgood, hkept⟩ => ⟨⟨?_, ?_⟩, hk hgood _ rfl⟩
  · exact good_call hgood (hfine hgood).binds (hfine hgood).places
  · show (s.kept && Kinds.allowed source c s.state) = true
    rw [hkept, (hfine hgood).allowed]
    rfl

lemma Kept.mono {Q' : Except Error α → World → Prop} {p : Task α}
    (h : Kept env past D source Q p w) (hQ : ∀ x w, Q x w → Q' x w) :
    Kept env past D source Q' p w :=
  fun s hs => (h s hs).mono fun x _ hx => hQ x _ hx

/-- Sequencing. -/
lemma Kept.bind {P : Except Error α → World → Prop} {Q : Except Error β → World → Prop}
    {p : Task α} {f : α → Task β} (hp : Kept env past D source P p w)
    (hok : ∀ a w, P (.ok a) w → Kept env past D source Q (f a) w)
    (herror : ∀ e w, P (.error e) w → Q (.error e) w) :
    Kept env past D source Q (p.bind f) w :=
  fun s hs => Prog.Safe.bind (hp s hs) (fun a s' ha => hok a _ ha s' rfl) fun e _ he => herror e _ he

lemma kept_attempt {Q : Except Error (Except Error α) → World → Prop} {p : Task α}
    (h : Kept env past D source (fun x w => Q (.ok x) w) p w) :
    Kept env past D source Q p.attempt w :=
  fun s hs => Prog.safe_attempt.mpr (h s hs)

/-- The loop rule. -/
lemma kept_forEach {l : List α} {f : α → Task Unit} {Q : Except Error Unit → World → Prop}
    (J : World → Prop) (hJ : J w)
    (hf : ∀ a ∈ l, ∀ w, J w → Kept env past D source (fun x w => match x with
      | .ok _ => J w
      | .error e => Q (.error e) w) (f a) w)
    (hQ : ∀ w, J w → Q (.ok ()) w) : Kept env past D source Q (.forEach l f) w :=
  fun s hs => Prog.Safe.forEach (fun s => J s.state) (hs ▸ hJ)
    (fun a ha s' hs' => (hf a ha _ hs' s' rfl).mono fun x _ hx => by cases x <;> exact hx)
    fun s' hs' => hQ _ hs'

/-- The loop rule for a loop with an accumulator. -/
lemma kept_foldM {l : List α} {f : β → α → Task β} {b : β} {Q : Except Error β → World → Prop}
    (J : β → World → Prop) (hJ : J b w)
    (hf : ∀ a ∈ l, ∀ b w, J b w → Kept env past D source (fun x w => match x with
      | .ok b => J b w
      | .error e => Q (.error e) w) (f b a) w)
    (hQ : ∀ b w, J b w → Q (.ok b) w) : Kept env past D source Q (.foldM l f b) w :=
  fun s hs => Prog.Safe.foldM (fun b s => J b s.state) (hs ▸ hJ)
    (fun a ha b s' hs' => (hf a ha b _ hs' s' rfl).mono fun x _ hx => by cases x <;> exact hx)
    fun b s' hs' => hQ b _ hs'

/-- **Rows and objects keep their kinds** along a program. -/
lemma Kept.evolve {p : Task α} (h : Kept env past D source Q p w) :
    Kept env past D source (fun x w' => Evolves w w' ∧ Q x w') p w := by
  rintro s rfl
  exact Prog.Safe.and_rel (R := fun s s' => Evolves s.state s'.state) (fun s => .refl _)
    (fun _ _ _ => .trans) (fun β c s => evolves_call env c s.state) (h s rfl)

/-- A program that keeps more rows directory rows keeps the fewer. -/
lemma Kept.of_dirs {D' : ItemId → RelPath → Prop} {p : Task α}
    (h : Kept env past D' source Q p w) (hD : ∀ i p, D i p → D' i p)
    (hdirs : ∀ r ∈ w.db.items, D' r.id r.relativePath → r.kind = .dir) :
    Kept env past D source Q p w := by
  rintro s rfl
  have hgood : Good past D s.state → Good past D' s.state := fun h =>
    ⟨h.history, h.bound, h.downloads, hdirs⟩
  have hinv : ∀ s, Inv past D' s → Inv past D s := fun s ⟨h, hkept⟩ =>
    ⟨⟨h.history, h.bound, h.downloads, fun r hr hr' => h.dirs r hr (hD _ _ hr')⟩, hkept⟩
  cases p with
  | pure a => exact h s rfl
  | fail e => exact h s rfl
  | call c k =>
    refine (Prog.safe_call_solo _ _).mpr fun hI => ?_
    have hsafe := (Prog.Safe.of_inv hinv (h s rfl) ⟨hgood hI.1, hI.2⟩).mono fun _ _ => And.right
    exact (Prog.safe_call_solo _ _).mp hsafe hI

/-- The calls that neither insert, bind nor move a row, queue no download, upload nothing and move
nothing on disk. -/
def harmless : {β : Type} → Call β → Bool
  | _, .db (.insertItem _) => false
  | _, .db (.setRemoteId _ _) => false
  | _, .db (.setRelativePath _ _) => false
  | _, .db (.renameSubtree _ _) => false
  | _, .db (.enqueue _ op _ _) => op ≠ .download
  | _, .drive (.patchMedia _ _) => false
  | _, .drive (.uploadMultipart _ _ _ _) => false
  | _, .fs (.rename _ _) => false
  | _, .fs (.mergeMoveDir _ _) => false
  | _, _ => true

/-- The harmless calls after which every live row was live at its path before. -/
def settled : {β : Type} → Call β → Bool
  | _, .db (.clearTrashed _) => false
  | _, c => harmless c

/-- The harmless calls that change neither the database nor the local tree. -/
def still : {β : Type} → Call β → Bool
  | _, .db (.getByRelativePath _) => true
  | _, .db (.getById _) => true
  | _, .db (.getByRemoteId _) => true
  | _, .db .listForMapping => true
  | _, .db (.nextDue _) => true
  | _, .db .listUnresolved => true
  | _, .db .getCursor => true
  | _, .db .getMapping => true
  | _, .db .getBlocked => true
  | _, .db _ => false
  | _, .fs (.isFile _) => true
  | _, .fs (.isDir _) => true
  | _, .fs (.pathExists _) => true
  | _, .fs (.readFile _) => true
  | _, .fs (.walk _) => true
  | _, .fs _ => false
  | _, .drive (.patchMedia _ _) => false
  | _, .drive (.uploadMultipart _ _ _ _) => false
  | _, _ => true

/-- A harmless call is fine. -/
lemma Fine.of_harmless {c : Call β} (hc : harmless c = true) : Fine past D source c w := by
  cases c with
  | db c =>
    cases c with
    | enqueue item op payload now =>
      refine ⟨rfl, ?_, trivial⟩
      cases op with
      | download => cases hc
      | _ => trivial
    | insertItem new => cases hc
    | setRemoteId id rid => cases hc
    | setRelativePath id rel => cases hc
    | renameSubtree old new => cases hc
    | _ => exact ⟨rfl, trivial, trivial⟩
  | fs c => cases c <;> first | exact ⟨rfl, trivial, trivial⟩ | cases hc
  | drive c => cases c <;> first | exact ⟨rfl, trivial, trivial⟩ | cases hc
  | _ => exact ⟨rfl, trivial, trivial⟩

lemma harmless_of_settled {c : Call β} (hc : settled c = true) : harmless c = true := by
  cases c with
  | db c => cases c <;> first | exact hc | cases hc
  | _ => exact hc

lemma settled_of_still {c : Call β} (hc : still c = true) : settled c = true := by
  cases c with
  | db c => cases c <;> first | rfl | cases hc
  | fs c => cases c <;> first | rfl | cases hc
  | drive c => cases c <;> first | rfl | cases hc
  | _ => rfl

lemma harmless_of_still {c : Call β} (hc : still c = true) : harmless c = true :=
  harmless_of_settled (settled_of_still hc)

lemma still_handle (env : Env) (w : World) {c : Call β} (hc : still c = true) :
    (handle env β c w).2.db = w.db ∧ (handle env β c w).2.fs = w.fs := by
  cases c with
  | db c => cases c <;> first | exact ⟨rfl, rfl⟩ | cases hc
  | fs c => cases c <;> first | exact ⟨rfl, rfl⟩ | cases hc
  | _ => exact ⟨rfl, rfl⟩

/-- A program of harmless calls that all keep a fact. -/
lemma kept_only {P : ∀ β, Call β → Prop} {J : World → Prop} {p : Task α} (hp : p.Only P)
    (hharmless : ∀ β c, P β c → harmless c = true)
    (hcall : ∀ β c w, P β c → J w → J (handle env β c w).2) (hJ : J w) :
    Kept env past D source (fun _ w' => J w') p w := by
  induction p generalizing w with
  | pure a => exact kept_pure.mpr hJ
  | fail e => exact kept_fail.mpr hJ
  | call c k ih =>
    exact kept_call (fun _ => .of_harmless (hharmless _ c hp.1)) fun _ =>
      ih _ (hp.2 _) (hcall _ c w hp.1 hJ)

/-- A program of harmless calls. -/
lemma kept_harmless {p : Task α} (hp : p.Only fun _ c => harmless c = true) :
    Kept env past D source Prog.Any p w :=
  kept_only (J := fun _ => True) hp (fun _ _ => id) (fun _ _ _ _ => id) trivial

lemma only_harmless {p : Task α} (hp : p.Only fun _ c => settled c = true) :
    p.Only fun _ c => harmless c = true := hp.mono fun _ _ => harmless_of_settled

/-- A program of still calls. -/
lemma kept_still {p : Task α} (hp : p.Only fun _ c => still c = true) :
    Kept env past D source (fun _ w' => w'.db = w.db ∧ w'.fs = w.fs) p w := by
  refine kept_only (J := fun w' => w'.db = w.db ∧ w'.fs = w.fs) hp (fun _ _ => harmless_of_still)
    (fun β c w' hc hJ => ?_) ⟨rfl, rfl⟩
  obtain ⟨hdb, hfs⟩ := still_handle env w' hc
  exact ⟨hdb.trans hJ.1, hfs.trans hJ.2⟩

/-- A statement. -/
lemma kept_sql {c : DbCall α} (hfine : Good past D w → Fine past D source (.db c) w)
    (hQ : Good past D w → Q (.ok (c.run w.db).1) { w with db := (c.run w.db).2 }) :
    Kept env past D source Q (sql c) w :=
  kept_call hfine fun h => kept_pure.mpr (hQ h)

/-- A statement followed by `?`. -/
lemma kept_sqlTry {c : DbCall (Except Error α)}
    (hfine : Good past D w → Fine past D source (.db c) w)
    (hQ : Good past D w → Q (c.run w.db).1 { w with db := (c.run w.db).2 }) :
    Kept env past D source Q (sqlTry c) w :=
  kept_call hfine fun h => kept_ofExcept.mpr (hQ h)

/-- A filesystem call. -/
lemma kept_io {c : FsCall α} (hfine : Good past D w → Fine past D source (.fs c) w)
    (hQ : Good past D w → Q (.ok (c.run w.fs).1) { w with fs := (c.run w.fs).2 }) :
    Kept env past D source Q (io c) w :=
  kept_call hfine fun h => kept_pure.mpr (hQ h)

/-- A filesystem call followed by `?`. -/
lemma kept_ioTry {c : FsCall (Except Error α)}
    (hfine : Good past D w → Fine past D source (.fs c) w)
    (hQ : Good past D w → Q (c.run w.fs).1 { w with fs := (c.run w.fs).2 }) :
    Kept env past D source Q (ioTry c) w :=
  kept_call hfine fun h => kept_ofExcept.mpr (hQ h)

/-- A request followed by `?`. -/
lemma kept_request {c : DriveCall α} (hfine : Good past D w → Fine past D source (.drive c) w)
    (hQ : Good past D w → Q (w.remote.send env.md5 c).1
      { w with remote := (w.remote.send env.md5 c).2 }) :
    Kept env past D source Q (request c) w :=
  kept_call hfine fun h => kept_ofExcept.mpr (hQ h)

/-- A guarded program. -/
lemma kept_withMark {id : FileId} {body : Task α}
    (h : Kept env past D source (fun x w' => Q x { w' with inFlight := w'.inFlight.erase id }) body
      { w with inFlight := id :: w.inFlight }) :
    Kept env past D source Q (withMark id body) w := by
  simp only [withMark, Prog.bind_eq, Prog.lift_bind]
  refine kept_call (fun _ => .of_harmless rfl) fun _ => (kept_attempt (Q := fun y w' =>
    ∃ x, y = .ok x ∧ Q x { w' with inFlight := w'.inFlight.erase id }) ?_).bind
      (fun x w' hx => ?_) fun e w' he => ?_
  · exact h.mono fun x w' hx => ⟨x, rfl, hx⟩
  · obtain ⟨x', hx', hQ⟩ := hx
    obtain rfl := Except.ok.inj hx'
    exact kept_call (fun _ => .of_harmless rfl) fun _ => kept_ofExcept.mpr hQ
  · obtain ⟨x, hx, -⟩ := he
    cases hx

end Programs

end AirDrive.Kinds
