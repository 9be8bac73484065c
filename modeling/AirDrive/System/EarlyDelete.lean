import AirDrive.Local.Merge
import AirDrive.System.CreateOnce
import AirDrive.System.Footprint
import AirDrive.System.Orphans

set_option relaxedAutoImplicit false
set_option autoImplicit false

/-!
# A file that is deleted while it is uploaded

A file that was created locally has a row without an id, until its first upload has made an object
and the id of the object is written to the row. The deletion of the file is handled by a task of
its own: it drops a row without an id, and queues the removal of the object of a row with one. The
calls of the two tasks, and of those that apply remote changes, are interleaved. The deletion
sticks when the row is neither dropped while the upload is under way nor described by a change once
it is gone.

## Main definitions

* `AirDrive.EarlyDelete.Traced`, `AirDrive.EarlyDelete.track` — the world, with the objects that
  the uploads of the row made.
* `AirDrive.EarlyDelete.meets` — the condition on a call.
* `AirDrive.EarlyDelete.Good` — every object made is gone from Drive, or has the row, or is about
  to have it.
* `AirDrive.EarlyDelete.Runs` — the operations of the row and the handlers of events and changes,
  call by call.

## Main results

* `AirDrive.EarlyDelete.Good.routine`, `AirDrive.EarlyDelete.Good.upload`,
  `AirDrive.EarlyDelete.Good.store` — what the calls keep.
* `AirDrive.EarlyDelete.deletion_sticks` — every interleaving.
* `AirDrive.EarlyDelete.deletion_undone` — a deletion that falls between the request of the upload
  and the storing of the id.
-/

namespace AirDrive.EarlyDelete

open Effect Dispatcher Orphans

/-! ## The calls, traced -/

/-- The world, with what happened to a file and to the objects that its uploads made. -/
structure Traced where
  /-- The world. -/
  world : World
  /-- The objects that first uploads made, by their numbers. -/
  made : List ℕ
  /-- The one whose id the row does not have yet. -/
  owed : Option ℕ
  /-- The deletion was handled: the row was dropped, or the removal of its object was queued. -/
  handled : Bool
  /-- The user has removed the file. -/
  gone : Bool
  /-- All calls met the condition. -/
  met : Bool

/-- The object is on Drive, outside the trash and in some folder. -/
def onDrive (d : Drive) (n : ℕ) : Bool :=
  d.files.table.rows.any fun f => f.num = n && !f.trashed && f.parents ≠ []

section Calls

variable (i : ItemId) (p : RelPath)

/-- What a call adds to the trace. -/
def note (env : Env) (t : Traced) : {β : Type} → Call β → Traced
  | _, .drive (.uploadMultipart parent name mime bytes) =>
    let new := CreateOnce.made t.world.remote.drive
      (t.world.remote.send env.md5 (.uploadMultipart parent name mime bytes)).2.drive
    { t with made := t.made ++ new, owed := new.head?.or t.owed }
  | _, .db (.setRemoteId id rid) =>
    { t with owed := if id = i ∧ t.owed.map .id = some rid then none else t.owed }
  | _, .db (.enqueue item .deleteRemote _ _) => { t with handled := t.handled || item = i }
  | _, .db (.deleteItem item) => { t with handled := t.handled || item = i }
  | _, _ => t

/-- The operations that a created and deleted file needs. -/
def ownWork : Operation → Bool
  | .upload => true
  | .deleteRemote => true
  | .deleteLocal => true
  | _ => false

/-- The row is not dropped while an object waits for its id, or while its object is on Drive. -/
def dropsSafely (t : Traced) (db' : Db) : Bool :=
  decide ((∃ r ∈ t.world.db.items.rows, r.id = i) → (∀ r ∈ db'.items.rows, r.id ≠ i) →
    t.owed = none ∧ ∀ r ∈ t.world.db.items.rows, r.id = i → ∀ n ∈ t.made,
      r.remoteId = some (.id n) → onDrive t.world.remote.drive n = false)

/-- A statement leaves the row and its objects to the tasks of the file: it neither binds another
row to one of the objects, nor moves the row, nor queues other work for it, nor gives up the
removal of its object. -/
def leavesAlone (t : Traced) : {β : Type} → DbCall β → Bool
  | _, .insertItem new => decide (∀ n ∈ t.made, new.remoteId ≠ some (.id n))
  | _, .setRemoteId id rid => decide (id ≠ i → ∀ n ∈ t.made, rid ≠ .id n)
  | _, .setRelativePath id _ => id ≠ i
  | _, .enqueue item op _ _ => decide (item = i → ownWork op = true)
  | _, .deleteOp id => decide (∀ o ∈ OpTable.rows t.world.db.ops, o.id = id → o.syncItemId = i →
    o.op = .deleteRemote → ∀ r ∈ t.world.db.items.rows, r.id ≠ i)
  | _, _ => true

/-- The condition on a call, in the state before it: the request of the upload is sent while the
row is there, no earlier object waits for its id, and no row has the id that Drive gives next; a
statement leaves the row and its objects alone; nothing is moved to the path of the file. -/
def meets (t : Traced) : {β : Type} → Call β → Bool
  | _, .drive (.uploadMultipart _ _ _ _) => decide (t.owed = none ∧
    (∃ r ∈ t.world.db.items.rows, r.id = i) ∧
      ∀ r ∈ t.world.db.items.rows, r.remoteId ≠ some (.id t.world.remote.drive.files.next))
  | _, .db c => dropsSafely i t (c.run t.world.db).2 && leavesAlone i t c
  | _, .fs (.rename _ new) => !new.isPrefixOf p
  | _, _ => true

/-- The calls of the daemon, traced. -/
def track (env : Env) : Handler Call Traced := fun β c t =>
  ((handle env β c t.world).1,
    { note i env t c with
      world := (handle env β c t.world).2
      met := t.met && meets i p t c })

/-- What is known of the row and of the objects of the file. -/
structure Good (t : Traced) : Prop where
  /-- An object that was made is bound to the row, or waits for that, while it is on Drive. -/
  account : ∀ n ∈ t.made, OnDrive t.world.remote.drive n →
    (∃ r ∈ t.world.db.items, r.id = i ∧ r.remoteId = some (.id n)) ∨ t.owed = some n
  /-- The row waits for the id of an object that was made. -/
  waits : ∀ n, t.owed = some n → n ∈ t.made ∧ ∃ r ∈ t.world.db.items, r.id = i ∧ r.remoteId = none
  /-- When the deletion was handled, the row is gone or the removal of its object is queued. -/
  pending : t.handled = true → (∀ r ∈ t.world.db.items, r.id ≠ i) ∨
    ∃ o ∈ t.world.db.ops, o.syncItemId = i ∧ o.op = .deleteRemote
  /-- No other row has the id of an object that was made. -/
  others : ∀ r ∈ t.world.db.items, r.id ≠ i → ∀ n ∈ t.made, r.remoteId ≠ some (.id n)
  /-- The objects were made. -/
  minted : ∀ n ∈ t.made, n < t.world.remote.drive.files.next
  /-- The row is at the path of the file. -/
  place : ∀ r ∈ t.world.db.items, r.id = i → r.relativePath = p
  /-- The work of the row. -/
  work : ∀ o ∈ t.world.db.ops, o.syncItemId = i → ownWork o.op = true
  /-- The id of the row was given. -/
  given : i < t.world.db.items.nextId
  /-- The file is gone once the user has removed it. -/
  absent : t.gone = true → t.world.fs.node p = none

end Calls

section Statements

variable {i : ItemId} {p : RelPath} {env : Env} {t : Traced} {db : Db} {β : Type}

lemma onDrive_iff {d : Drive} {n : ℕ} : onDrive d n = true ↔ OnDrive d n := by
  simp only [onDrive, List.any_eq_true, Bool.and_eq_true, decide_eq_true_eq, Bool.not_eq_true']
  constructor
  · rintro ⟨f, hf, ⟨hnum, hlive⟩, hparents⟩
    exact ⟨f, hf, hnum, hlive, hparents⟩
  · rintro ⟨f, hf, hnum, hlive, hparents⟩
    exact ⟨f, hf, ⟨hnum, hlive⟩, hparents⟩

/-- The calls that neither bind a row nor move one along with a folder, upload nothing, move
nothing on Drive and write nothing. -/
def routine : {β : Type} → Call β → Bool
  | _, .db (.setRemoteId _ _) => false
  | _, .db (.renameSubtree _ _) => false
  | _, .db (.gcTombstones _) => false
  | _, .db _ => true
  | _, .fs (.writeFile _ _) => false
  | _, .fs (.createDirAll _) => false
  | _, .fs (.mergeMoveDir _ _) => false
  | _, .fs _ => true
  | _, .drive (.uploadMultipart _ _ _ _) => false
  | _, .drive (.patchFile _ _ _) => false
  | _, .drive _ => true
  | _, _ => true

/-- A routine statement changes the ids of no rows. -/
lemma remoteId_of_routine {c : DbCall β} (hc : routine (.db c) = true) {r s : SyncItem}
    (h : c.Changes s r) : r.remoteId = s.remoteId := by
  cases c with
  | setRemoteId id rid => cases hc
  | renameSubtree old new => cases hc
  | setRelativePath id rel =>
    obtain ⟨q, rfl⟩ := h
    rfl
  | updateFingerprint id size md5 => rcases h with rfl | ⟨-, rfl⟩ <;> rfl
  | setState id state => rcases h with rfl | ⟨-, rfl⟩ <;> rfl
  | markTrashed id at' => rcases h with rfl | ⟨-, rfl⟩ <;> rfl
  | clearTrashed id => rcases h with rfl | ⟨-, rfl⟩ <;> rfl
  | _ => rw [show r = s from h]

/-- The row of the file after a routine statement has the id and the path that it had. -/
lemma row_of_routine {c : DbCall β} (hc : routine (.db c) = true)
    (halone : leavesAlone i t c = true) (hgiven : i < db.items.nextId) {r' : SyncItem}
    (hr' : r' ∈ (c.run db).2.items) (hid : r'.id = i) : ∃ r ∈ db.items, r.id = i ∧
      r'.remoteId = r.remoteId ∧ r'.relativePath = r.relativePath := by
  rcases DbCall.mem_items_run hr' with ⟨r, hr, hrid, hchange⟩ | ⟨new, -, rfl⟩
  · have hpath : r'.relativePath = r.relativePath := by
      cases c with
      | setRelativePath id rel =>
        rcases ItemTable.mem_setRelativePath.mp hr' with ⟨s, -, hs, rfl⟩ | ⟨hr₀, -⟩
        · exact absurd (hs.symm.trans hid) (of_decide_eq_true halone)
        · rw [ItemTable.id_inj hr hr₀ hrid]
      | renameSubtree old new => cases hc
      | setRemoteId id rid => cases hc
      | updateFingerprint id size md5 => rcases hchange with rfl | ⟨-, rfl⟩ <;> rfl
      | setState id state => rcases hchange with rfl | ⟨-, rfl⟩ <;> rfl
      | markTrashed id at' => rcases hchange with rfl | ⟨-, rfl⟩ <;> rfl
      | clearTrashed id => rcases hchange with rfl | ⟨-, rfl⟩ <;> rfl
      | _ => rw [show r' = r from hchange]
    exact ⟨r, hr, hrid.trans hid, remoteId_of_routine hc hchange, hpath⟩
  · exact absurd hid hgiven.ne'

/-- A routine call makes no object for the file and stores no id. -/
lemma track_routine (i : ItemId) (p : RelPath) (env : Env) (t : Traced) {c : Call β}
    (hc : routine c = true) : (track i p env β c t).2.made = t.made ∧
      (track i p env β c t).2.owed = t.owed ∧ (track i p env β c t).2.gone = t.gone := by
  cases c with
  | db c =>
    cases c with
    | enqueue item op payload now => cases op <;> exact ⟨rfl, rfl, rfl⟩
    | setRemoteId id rid => cases hc
    | _ => exact ⟨rfl, rfl, rfl⟩
  | drive c => cases c <;> first | exact ⟨rfl, rfl, rfl⟩ | cases hc
  | _ => exact ⟨rfl, rfl, rfl⟩

/-- How a routine statement handles the deletion: it queues the removal of the object, or drops the
row. -/
lemma handled_cases {c : DbCall β} (h : (note i env t (.db c)).handled = true) :
    t.handled = true ∨ (∃ payload now, c.adds = some (i, .deleteRemote, payload, now)) ∨
      ∀ db : Db, ∀ r ∈ (c.run db).2.items, r.id ≠ i := by
  cases c with
  | enqueue item op payload now =>
    cases op with
    | deleteRemote =>
      rcases Bool.or_eq_true_iff.mp h with h | h
      · exact .inl h
      · obtain rfl := of_decide_eq_true h
        exact .inr (.inl ⟨payload, now, rfl⟩)
    | _ => exact .inl h
  | deleteItem item =>
    rcases Bool.or_eq_true_iff.mp h with h | h
    · exact .inl h
    · obtain rfl := of_decide_eq_true h
      exact .inr (.inr fun db r hr => (ItemTable.mem_delete.mp hr).2)
  | _ => exact .inl h

/-- **A routine statement** that meets the condition keeps the account. -/
lemma Good.statement {c : DbCall β} (h : Good i p t) (hc : routine (.db c) = true)
    (hmeets : meets i p t (.db c) = true) : Good i p (track i p env β (.db c) t).2 := by
  obtain ⟨hdrop, halone⟩ := Bool.and_eq_true_iff.mp hmeets
  obtain ⟨hmade, howed, hgone⟩ := track_routine i p env t hc
  have hrow : ∀ r' ∈ (c.run t.world.db).2.items, r'.id = i → ∃ r ∈ t.world.db.items, r.id = i ∧
      r'.remoteId = r.remoteId ∧ r'.relativePath = r.relativePath := fun r' hr' hid =>
    row_of_routine hc halone h.given hr' hid
  -- a row that waits for an id or holds an object that is on Drive is not dropped
  have hstays : ∀ r ∈ t.world.db.items, r.id = i → (t.owed ≠ none ∨ ∃ n ∈ t.made,
      r.remoteId = some (.id n) ∧ OnDrive t.world.remote.drive n) →
        ∃ r' ∈ (c.run t.world.db).2.items, r'.id = i ∧ r'.remoteId = r.remoteId := by
    intro r hr hid hneeded
    by_contra hnone
    have hdropped : ∀ r' ∈ (c.run t.world.db).2.items, r'.id ≠ i := by
      intro r' hr' hid'
      obtain ⟨s, hs, hsid, hremote, -⟩ := hrow r' hr' hid'
      obtain rfl := ItemTable.id_inj hs hr (hsid.trans hid.symm)
      exact hnone ⟨r', hr', hid', hremote⟩
    obtain ⟨hfree, hoff⟩ := of_decide_eq_true hdrop ⟨r, hr, hid⟩ hdropped
    rcases hneeded with howed | ⟨n, hn, hrid, hon⟩
    · exact howed hfree
    · exact absurd (onDrive_iff.mpr hon) (by simp [hoff r hr hid n hn hrid])
  refine ⟨fun n hn hon => ?_, fun n hn => ?_, fun hhandled => ?_, fun r' hr' hid n hn => ?_,
    fun n hn => h.minted n (hmade ▸ hn), fun r' hr' hid => ?_, fun o' ho' hitem => ?_,
    h.given.trans_le (DbCall.nextId_le_run c _), fun hg => h.absent (hgone ▸ hg)⟩
  · rw [hmade] at hn
    rcases h.account n hn hon with ⟨r, hr, hid, hrid⟩ | hwaits
    · obtain ⟨r', hr', hid', hremote⟩ := hstays r hr hid (.inr ⟨n, hn, hrid, hon⟩)
      exact .inl ⟨r', hr', hid', hremote.trans hrid⟩
    · exact .inr (howed.trans hwaits)
  · rw [howed] at hn
    obtain ⟨hmem, r, hr, hid, hrid⟩ := h.waits n hn
    obtain ⟨r', hr', hid', hremote⟩ := hstays r hr hid (.inl (by simp [hn]))
    exact ⟨hmade ▸ hmem, r', hr', hid', hremote.trans hrid⟩
  · by_cases hthere : ∃ r' ∈ (c.run t.world.db).2.items, r'.id = i
    · obtain ⟨r', hr', hid'⟩ := hthere
      obtain ⟨r, hr, hid, -⟩ := hrow r' hr' hid'
      right
      rcases handled_cases hhandled with hbefore | ⟨payload, now, hadds⟩ | hgone
      · rcases h.pending hbefore with hnone | ⟨o, ho, hitem, hop⟩
        · exact absurd hid (hnone r hr)
        · have hkept : c.deletes ≠ some o.id := by
            intro hdelete
            cases c with
            | deleteOp id =>
              obtain rfl : id = o.id := Option.some.inj hdelete
              exact of_decide_eq_true halone o ho rfl hitem hop r hr hid
            | _ => cases hdelete
          obtain ⟨o', ho', -, hitem', hop', -⟩ :=
            DbCall.ops_stay ho ⟨r', hr', hid'.trans hitem.symm⟩ hkept
          exact ⟨o', ho', hitem'.symm.trans hitem, hop'.symm.trans hop⟩
      · cases c with
        | enqueue item op payload' now' =>
          obtain ⟨rfl, rfl, rfl, rfl⟩ :
              item = i ∧ op = .deleteRemote ∧ payload' = payload ∧ now' = now := by
            simpa [DbCall.adds] using hadds
          obtain ⟨-, hmem⟩ := Db.enqueue_of_row .deleteRemote payload' now' ⟨r, hr, hid⟩
          exact ⟨_, (hmem _).mpr (.inr rfl), rfl, rfl⟩
        | _ => cases hadds
      · exact absurd hid' (hgone _ r' hr')
    · exact .inl fun r' hr' hid' => hthere ⟨r', hr', hid'⟩
  · rw [hmade] at hn
    rcases DbCall.mem_items_run hr' with ⟨r, hr, hrid, hchange⟩ | ⟨new, hnew, rfl⟩
    · rw [remoteId_of_routine hc hchange]
      exact h.others r hr (hrid ▸ hid) n hn
    · cases c with
      | insertItem new' =>
        obtain rfl : new' = new := Option.some.inj hnew
        exact of_decide_eq_true halone n hn
      | _ => cases hnew
  · obtain ⟨r, hr, hrid, -, hpath⟩ := hrow r' hr' hid
    exact hpath.trans (h.place r hr hrid)
  · rcases DbCall.ops_run_cases ho' with ⟨ho, -⟩ | ⟨item, op, payload, now, hadds, rfl⟩ |
        ⟨o, ho, next, -, rfl⟩
    · exact h.work o' ho hitem
    · cases c with
      | enqueue item' op' payload' now' =>
        obtain ⟨rfl, rfl, rfl, rfl⟩ :
            item' = item ∧ op' = op ∧ payload' = payload ∧ now' = now := by
          simpa [DbCall.adds] using hadds
        exact of_decide_eq_true halone hitem
      | _ => cases hadds
    · exact h.work o ho hitem

/-- A routine call on the local tree puts nothing at the path of the file. -/
lemma absent_routine {c : FsCall β} {fs : Fs} (hc : routine (.fs c) = true)
    (hmeets : meets i p t (.fs c) = true) (hp : fs.node p = none) : (c.run fs).2.node p = none := by
  have hcommit : ∀ x : Except Error Fs, (∀ fs', x = .ok fs' → fs'.node p = none) →
      (FsCall.commit fs x).2.node p = none := by
    intro x hx
    cases x with
    | ok fs' => exact hx fs' rfl
    | error e => exact hp
  have hremove : ∀ (q : RelPath) (hq : q ≠ []), (fs.removeTree q hq).node p = none := by
    intro q hq
    rw [Fs.node_removeTree]
    split_ifs
    · rfl
    · exact hp
  cases c with
  | writeFile q b => cases hc
  | createDirAll q => cases hc
  | mergeMoveDir src dst => cases hc
  | removeFile q =>
    refine hcommit _ fun fs' hfs' => ?_
    unfold Fs.removeFile at hfs'
    split at hfs'
    · cases hfs'
    · cases hfs'
    · split_ifs at hfs' with hq
      exact Except.ok.inj hfs' ▸ hremove q hq
  | removeDirAll q =>
    refine hcommit _ fun fs' hfs' => ?_
    unfold Fs.removeDirAll at hfs'
    split at hfs'
    · cases hfs'
    · cases hfs'
    · split_ifs at hfs' with hq
      exact Except.ok.inj hfs' ▸ hremove q hq
  | rename old new =>
    refine hcommit _ fun fs' hfs' => ?_
    have hnew : ¬new <+: p := fun hprefix => by
      simp [meets, List.isPrefixOf_iff_prefix.mpr hprefix] at hmeets
    rcases Fs.rename_cases hfs' with ⟨-, rfl⟩ | ⟨hmov, rfl⟩
    · exact hp
    · by_cases hold : old <+: p
      · obtain ⟨rest, rfl⟩ := hold
        exact Fs.node_moveTree_left rest
      · exact (Fs.node_moveTree_fixed hold hnew).trans hp
  | _ => exact hp

/-- **A routine call** that meets the condition keeps the account. -/
theorem Good.routine {c : Call β} (h : Good i p t) (hc : routine c = true)
    (hmeets : meets i p t c = true) : Good i p (track i p env β c t).2 := by
  obtain ⟨hmade, howed, hgone⟩ := track_routine i p env t hc
  cases c with
  | db c => exact h.statement hc hmeets
  | fs c =>
    exact ⟨h.account, h.waits, h.pending, h.others, h.minted, h.place, h.work, h.given,
      fun hg => absent_routine hc hmeets (h.absent hg)⟩
  | drive c =>
    have hnote : (note i env t (.drive c)).handled = t.handled := by cases c <;> rfl
    refine ⟨fun n hn hon => ?_, fun n hn => ?_, fun hh => h.pending (hnote ▸ hh), ?_, ?_, h.place,
      h.work, h.given, fun hg => h.absent (hgone ▸ hg)⟩
    · rw [hmade] at hn
      rw [howed]
      refine h.account n hn (@onDrive_call env t.world n _ (.drive c) (h.minted n hn) ?_ hon)
      cases c with
      | patchFile id name move => cases hc
      | _ => trivial
    · rw [howed] at hn
      rw [hmade]
      exact h.waits n hn
    · rw [hmade]
      exact h.others
    · rw [hmade]
      exact fun n hn => (h.minted n hn).trans_le (@Binding.next_le_handle env t.world _ (.drive c))
  | _ =>
    exact ⟨h.account, h.waits, h.pending, h.others, h.minted, h.place, h.work, h.given, h.absent⟩

/-- The rows after an id was written. -/
lemma mem_setRemoteId {id : ItemId} {rid : FileId} {r' : SyncItem} :
    r' ∈ (DbCall.run (.setRemoteId id rid) db).2.items ↔ (r' ∈ db.items ∧ r'.id ≠ id) ∨
      ∃ r ∈ db.items, r.id = id ∧ { r with remoteId := some rid } = r' := by
  simp only [DbCall.run, Db.items_withItems, ItemTable.mem_modify]

/-- **Binding another row** to an object that was not made for the file keeps the account. -/
lemma Good.bindOther {id : ItemId} {rid : FileId} (h : Good i p t) (hid : id ≠ i)
    (hmeets : meets i p t (.db (.setRemoteId id rid)) = true) :
    Good i p (track i p env Unit (.db (.setRemoteId id rid)) t).2 := by
  have hfree : ∀ n ∈ t.made, rid ≠ .id n := of_decide_eq_true (Bool.and_eq_true_iff.mp hmeets).2 hid
  have hops : (DbCall.run (.setRemoteId id rid) t.world.db).2.ops = t.world.db.ops :=
    DbCall.ops_run_eq rfl rfl
  have howed : (track i p env Unit (.db (.setRemoteId id rid)) t).2.owed = t.owed :=
    if_neg fun hsame => hid hsame.1
  have hrow : ∀ r, r.id = i → (r ∈ (DbCall.run (.setRemoteId id rid) t.world.db).2.items ↔
      r ∈ t.world.db.items) := by
    intro r hri
    rw [mem_setRemoteId]
    refine ⟨fun hr => ?_, fun hr => .inl ⟨hr, fun hsame => hid (hsame.symm.trans hri)⟩⟩
    rcases hr with ⟨hr, -⟩ | ⟨s, -, hs, rfl⟩
    · exact hr
    · exact absurd (hs.symm.trans hri) hid
  refine ⟨fun n hn hon => ?_, fun n hn => ?_, fun hh => ?_, fun r hr hri n hn => ?_, h.minted,
    fun r hr hri => h.place r ((hrow r hri).mp hr) hri, fun o ho => h.work o (hops ▸ ho), h.given,
    h.absent⟩
  · rw [howed]
    refine (h.account n hn hon).imp_left ?_
    rintro ⟨r, hr, hri, hrid⟩
    exact ⟨r, (hrow r hri).mpr hr, hri, hrid⟩
  · rw [howed] at hn
    obtain ⟨hmem, r, hr, hri, hrid⟩ := h.waits n hn
    exact ⟨hmem, r, (hrow r hri).mpr hr, hri, hrid⟩
  · rcases h.pending hh with hnone | ⟨o, ho, hitem, hop⟩
    · exact .inl fun r hr hri => hnone r ((hrow r hri).mp hr) hri
    · exact .inr ⟨o, hops.symm ▸ ho, hitem, hop⟩
  · rcases mem_setRemoteId.mp hr with ⟨hr, -⟩ | ⟨s, -, -, rfl⟩
    · exact h.others r hr hri n hn
    · exact fun hsame => hfree n hn (Option.some.inj hsame)

/-- **Storing the id** of the object that the upload made keeps the account. -/
lemma Good.store {n : ℕ} (h : Good i p t) (howed : t.owed = some n) :
    Good i p (track i p env Unit (.db (.setRemoteId i (.id n))) t).2 := by
  obtain ⟨hmem, s, hs, hsi, hunbound⟩ := h.waits n howed
  have hops : (DbCall.run (.setRemoteId i (.id n)) t.world.db).2.ops = t.world.db.ops :=
    DbCall.ops_run_eq rfl rfl
  have hfree : (track i p env Unit (.db (.setRemoteId i (.id n))) t).2.owed = none :=
    if_pos ⟨rfl, by simp [howed]⟩
  have hother : ∀ r, r.id ≠ i → (r ∈ (DbCall.run (.setRemoteId i (.id n)) t.world.db).2.items ↔
      r ∈ t.world.db.items) := by
    intro r hri
    rw [mem_setRemoteId]
    refine ⟨fun hr => ?_, fun hr => .inl ⟨hr, hri⟩⟩
    rcases hr with ⟨hr, -⟩ | ⟨r₀, -, hr₀, rfl⟩
    · exact hr
    · exact absurd hr₀ hri
  refine ⟨fun m hm hon => .inl ?_, fun m hm => ?_, fun hh => ?_, fun r hr hri =>
    h.others r ((hother r hri).mp hr) hri, h.minted, fun r hr hri => ?_, fun o ho =>
    h.work o (hops ▸ ho), h.given, h.absent⟩
  · have hsame : m = n := by
      rcases h.account m hm hon with ⟨r, hr, hri, hrid⟩ | hwaits
      · obtain rfl := ItemTable.id_inj hr hs (hri.trans hsi.symm)
        exact absurd (hunbound.symm.trans hrid) (by simp)
      · exact Option.some.inj (hwaits.symm.trans howed)
    exact ⟨_, mem_setRemoteId.mpr (.inr ⟨s, hs, hsi, rfl⟩), hsi, by rw [hsame]⟩
  · exact absurd (hfree.symm.trans hm) (by simp)
  · rcases h.pending hh with hnone | ⟨o, ho, hitem, hop⟩
    · exact absurd hsi (hnone s hs)
    · exact .inr ⟨o, hops.symm ▸ ho, hitem, hop⟩
  · rcases mem_setRemoteId.mp hr with ⟨hr, -⟩ | ⟨r₀, hr₀, hri₀, rfl⟩
    · exact h.place r hr hri
    · exact h.place r₀ hr₀ hri₀

/-- The row of the file has no id, if it is there. -/
def Unbound (i : ItemId) (t : Traced) : Prop :=
  ∀ r ∈ t.world.db.items, r.id = i → r.remoteId = none

/-- The request of an upload has no effect, or makes one object: the one that it answers. -/
lemma upload_cases (md5 : Bytes → String) (r : Remote) (parent : FileId) (name mime : String)
    (bytes : Bytes) :
    let c := DriveCall.uploadMultipart parent name mime bytes
    (r.send md5 c).2.drive = r.drive ∧ (∀ rf, (r.send md5 c).1 ≠ .ok rf) ∨
      CreateOnce.made r.drive (r.send md5 c).2.drive = [r.drive.files.next] ∧
        (r.send md5 c).2.drive = (c.run md5 r.drive).2 ∧
          ∀ rf, (r.send md5 c).1 = .ok rf → rf.id = .id r.drive.files.next := by
  intro c
  have hmade : ∀ {rf}, (c.run md5 r.drive).1 = .ok rf → (r.send md5 c).2.drive =
      (c.run md5 r.drive).2 → CreateOnce.made r.drive (r.send md5 c).2.drive =
        [r.drive.files.next] := by
    intro rf hrun hdrive
    rw [hdrive]
    exact (CreateOnce.made_upload hrun).1
  by_cases hok : ∃ rf, (r.send md5 c).1 = .ok rf
  · obtain ⟨rf, hrf⟩ := hok
    have hdrive := Remote.send_ok_drive hrf
    refine .inr ⟨hmade (Remote.send_ok hrf) hdrive, hdrive, fun rf' hrf' => ?_⟩
    exact (CreateOnce.made_upload (Remote.send_ok hrf')).2
  · have hnone : ∀ rf, (r.send md5 c).1 ≠ .ok rf := fun rf hrf => hok ⟨rf, hrf⟩
    rcases @Remote.send_drive _ md5 c r with hsame | hdrive
    · exact .inl ⟨hsame, hnone⟩
    · cases hrun : (c.run md5 r.drive).1 with
      | ok rf => exact .inr ⟨hmade hrun hdrive, hdrive, fun rf hrf => absurd hrf (hnone rf)⟩
      | error e => exact .inl ⟨hdrive.trans (CreateOnce.upload_refused r.drive e hrun), hnone⟩

/-- **The request of the upload** keeps the account: the object that it makes waits for its id. -/
lemma Good.upload {parent : FileId} {name mime : String} {bytes : Bytes} (h : Good i p t)
    (hunbound : Unbound i t)
    (hmeets : meets i p t (.drive (.uploadMultipart parent name mime bytes)) = true) :
    Good i p (track i p env _ (.drive (.uploadMultipart parent name mime bytes)) t).2 := by
  obtain ⟨hfree, ⟨s, hs, hsi⟩, hfresh⟩ := of_decide_eq_true hmeets
  have hoff : ∀ n ∈ t.made, ¬OnDrive t.world.remote.drive n := by
    intro n hn hon
    rcases h.account n hn hon with ⟨r, hr, hri, hrid⟩ | hwaits
    · exact absurd ((hunbound r hr hri).symm.trans hrid) (by simp)
    · exact absurd (hfree.symm.trans hwaits) (by simp)
  let c := DriveCall.uploadMultipart parent name mime bytes
  let t' := (track i p env _ (.drive c) t).2
  have hmade' : t'.made = t.made ++
    CreateOnce.made t.world.remote.drive t'.world.remote.drive := rfl
  have howed' : t'.owed = (CreateOnce.made t.world.remote.drive t'.world.remote.drive).head?.or
    t.owed := rfl
  have hback : ∀ n ∈ t.made, ¬OnDrive t'.world.remote.drive n := fun n hn hon =>
    hoff n hn (@onDrive_call env t.world n _ (.drive c) (h.minted n hn) trivial hon)
  have hnext : t.world.remote.drive.files.next ≤ t'.world.remote.drive.files.next :=
    @Binding.next_le_handle env t.world _ (.drive c)
  rcases upload_cases env.md5 t.world.remote parent name mime bytes with
    ⟨hsame, -⟩ | ⟨hnew, hdrive, -⟩
  · have hnew : CreateOnce.made t.world.remote.drive t'.world.remote.drive = [] := by
      rw [show t'.world.remote.drive = t.world.remote.drive from hsame]
      exact CreateOnce.made_self _
    rw [hnew, List.append_nil] at hmade'
    rw [hnew] at howed'
    refine ⟨fun n hn hon => ?_, fun n hn => ?_, h.pending, ?_, ?_, h.place, h.work, h.given,
      h.absent⟩
    · exact absurd hon (hback n (hmade' ▸ hn))
    · exact absurd (howed'.symm.trans hn) (by simp [hfree])
    · exact hmade' ▸ h.others
    · exact fun n hn => (h.minted n (hmade' ▸ hn)).trans_le hnext
  · have hmem : ∀ n, n ∈ t'.made ↔ n ∈ t.made ∨ n = t.world.remote.drive.files.next := by
      intro n
      rw [hmade', show CreateOnce.made _ t'.world.remote.drive = _ from hnew]
      simp
    have howes : t'.owed = some t.world.remote.drive.files.next := by
      rw [howed', show CreateOnce.made _ t'.world.remote.drive = _ from hnew]
      rfl
    refine ⟨fun n hn hon => ?_, fun n hn => ?_, h.pending, fun r hr hri n hn => ?_, fun n hn => ?_,
      h.place, h.work, h.given, h.absent⟩
    · rcases (hmem n).mp hn with hold | rfl
      · exact absurd hon (hback n hold)
      · exact .inr howes
    · obtain rfl := Option.some.inj (howes.symm.trans hn)
      exact ⟨(hmem _).mpr (.inr rfl), s, hs, hsi, hunbound s hs hsi⟩
    · rcases (hmem n).mp hn with hold | rfl
      · exact h.others r hr hri n hold
      · exact hfresh r hr
    · rcases (hmem n).mp hn with hold | rfl
      · exact (h.minted n hold).trans_le hnext
      · rw [show t'.world.remote.drive = _ from hdrive]
        rcases @DriveCall.made_uploadMultipart env.md5 t.world.remote.drive parent name mime bytes
          with hsame | ⟨f, hmade, -⟩
        · rw [hdrive, hsame, CreateOnce.made_self] at hnew
          cases hnew
        · exact hmade.next ▸ Nat.lt_succ_self _

end Statements

/-! ## The tasks -/

/-- What `drain_one` does with the operation that is due. -/
def handleOp (env : Env) (root : FileId) (op : PendingOperation) : Task Bool :=
  if maxAttempts ≤ op.attempts then do
    sql (.markAttempt op.id parkedForever)
    pure true
  else do
    match ← (execute env root op).attempt with
    | .ok () =>
      completed op
      pure true
    | .error e => failed op e

/-- An iteration of the drain loop takes the operation that is due and handles it. -/
lemma drainOne_eq (env : Env) (root : FileId) : drainOne env root = (do
    let now ← unixNow
    match ← sql (.nextDue now) with
    | none => pure false
    | some op => handleOp env root op) := rfl

section Tasks

variable (i : ItemId) (p : RelPath)

/-- The account is kept as long as all calls meet the condition. -/
def Inv (t : Traced) : Prop := t.met = true → Good i p t

/-- What a thread relies on: the handlers write no id of the row and leave the upload to the
dispatcher; the handlers themselves need nothing. -/
def rely : Option ℕ → Traced → Traced → Prop
  | none, t, t' => (t'.met = true → t.met = true) ∧ t'.owed = t.owed ∧
    (t'.met = true → ∀ r' ∈ t'.world.db.items, r'.id = i → ∃ r ∈ t.world.db.items, r.id = i ∧
      r'.remoteId = r.remoteId)
  | some _, _, _ => True

/-- The tasks: the dispatcher with an operation of the row that is due, and the handlers of events
and of remote changes. -/
def job (env : Env) : Option ℕ → Traced → Task Unit → Prop
  | none, t, q => ∃ op now root, OpTable.nextDue t.world.db.ops now = some op ∧
    op.syncItemId = i ∧ q = void (handleOp env root op)
  | some _, _, q => (∃ ev, q = (Job.event ev).task env) ∨ ∃ b, q = (Job.batch b).task env

/-- What happens from outside, and what the other tasks do: everything but the row, its
operations and the objects that were made for it may change. The user may remove the file, which
nobody else puts back. -/
structure Elsewhere (t t' : Traced) : Prop where
  made : t'.made = t.made
  owed : t'.owed = t.owed
  handled : t'.handled = t.handled
  met : t'.met = t.met
  gone : t.gone = true → t'.gone = true
  absent : t'.gone = true → (t.gone = true → t.world.fs.node p = none) →
    t'.world.fs.node p = none
  row : ∀ r, r.id = i → (r ∈ t'.world.db.items ↔ r ∈ t.world.db.items)
  others : ∀ r' ∈ t'.world.db.items, r'.id ≠ i → (∃ r ∈ t.world.db.items, r.id = r'.id ∧
    r.remoteId = r'.remoteId) ∨ ∀ n ∈ t.made, r'.remoteId ≠ some (.id n)
  ops : ∀ o, o.syncItemId = i → (o ∈ t'.world.db.ops ↔ o ∈ t.world.db.ops)
  ids : t.world.db.items.nextId ≤ t'.world.db.items.nextId
  next : t.world.remote.drive.files.next ≤ t'.world.remote.drive.files.next
  drive : ∀ n ∈ t.made, OnDrive t'.world.remote.drive n → OnDrive t.world.remote.drive n

/-- The runs from a state, call by call: the dispatcher with the operations of the row, the handlers
of events and changes, and everything else from outside, with crashes at any point. -/
abbrev Runs (env : Env) (w₀ : World) :=
  Reaches (track i p env) (job i env) (Elsewhere i p)
    ⟨⟨w₀, [], none, false, false, true⟩, fun _ => .pure ()⟩

end Tasks

section Tasks

variable {i : ItemId} {p : RelPath} {env : Env} {t t' : Traced}

/-- What happens elsewhere keeps the account. -/
lemma Good.elsewhere (h : Good i p t) (he : Elsewhere i p t t') : Good i p t' := by
  refine ⟨fun n hn hon => ?_, fun n hn => ?_, fun hh => ?_, fun r' hr' hri n hn => ?_,
    fun n hn => (h.minted n (he.made ▸ hn)).trans_le he.next,
    fun r hr hri => h.place r ((he.row r hri).mp hr) hri,
    fun o ho hitem => h.work o ((he.ops o hitem).mp ho) hitem, h.given.trans_le he.ids,
    fun hg => he.absent hg h.absent⟩
  · rw [he.made] at hn
    rw [he.owed]
    refine (h.account n hn (he.drive n hn hon)).imp_left ?_
    rintro ⟨r, hr, hri, hrid⟩
    exact ⟨r, (he.row r hri).mpr hr, hri, hrid⟩
  · rw [he.owed] at hn
    obtain ⟨hmem, r, hr, hri, hrid⟩ := h.waits n hn
    exact ⟨he.made ▸ hmem, r, (he.row r hri).mpr hr, hri, hrid⟩
  · rcases h.pending (he.handled ▸ hh) with hnone | ⟨o, ho, hitem, hop⟩
    · exact .inl fun r hr hri => hnone r ((he.row r hri).mp hr) hri
    · exact .inr ⟨o, (he.ops o hitem).mpr ho, hitem, hop⟩
  · rw [he.made] at hn
    rcases he.others r' hr' hri with ⟨r, hr, hrid, hremote⟩ | hfree
    · exact hremote ▸ h.others r hr (hrid ▸ hri) n hn
    · exact hfree n hn

/-- A call that meets the condition was met by those before it. -/
lemma met_of_track {β : Type} {c : Call β} (h : (track i p env β c t).2.met = true) :
    t.met = true ∧ meets i p t c = true := Bool.and_eq_true_iff.mp h

/-- **A routine call** keeps the account, and leaves the upload to the dispatcher. -/
lemma Inv.routine {β : Type} {c : Call β} (h : Inv i p t) (hc : routine c = true) :
    Inv i p (track i p env β c t).2 ∧ rely i none t (track i p env β c t).2 := by
  obtain ⟨-, howed, -⟩ := track_routine i p env t hc
  refine ⟨fun hmet => ?_, fun hmet => (met_of_track hmet).1, howed, fun hmet r' hr' hid => ?_⟩
  · obtain ⟨hmet₀, hmeets⟩ := met_of_track hmet
    exact (h hmet₀).routine hc hmeets
  · obtain ⟨hmet₀, hmeets⟩ := met_of_track hmet
    cases c with
    | db c =>
      obtain ⟨-, halone⟩ := Bool.and_eq_true_iff.mp hmeets
      obtain ⟨r, hr, hri, hremote, -⟩ := row_of_routine hc halone (h hmet₀).given hr' hid
      exact ⟨r, hr, hri, hremote⟩
    | _ => exact ⟨r', hr', hid, rfl⟩

lemma rely_of_ne {j : Option ℕ} (hj : j ≠ none) : rely i j t t' := by
  cases j with
  | none => exact absurd rfl hj
  | some n => trivial

/-- A handler keeps the terms. -/
lemma safe_handler {α : Type} {q : Task α} {n : ℕ} (hq : q.Only fun _ c => routine c = true) :
    q.Safe (track i p env) (.thread (Inv i p) (rely i) (some n)) Prog.Any t := by
  refine (hq.safe_rely (J := fun _ => True) (fun β c t hc hI _ => ⟨(hI.routine hc).1, ?_, trivial⟩)
    (fun _ _ _ _ => trivial) trivial).mono fun _ _ _ => trivial
  rintro (_ | m) -
  · exact (hI.routine hc).2
  · trivial

/-- The terms of the dispatcher. -/
abbrev own (i : ItemId) (p : RelPath) : Terms Traced := .thread (Inv i p) (rely i) none

/-- A program of routine calls of the dispatcher keeps the terms, and what stays true of them. -/
lemma safe_own {α : Type} {q : Task α} {J : Traced → Prop}
    (hq : q.Only fun _ c => routine c = true) (hJ : ∀ t t', rely i none t t' → J t → J t')
    (h : J t) : q.Safe (track i p env) (own i p) (fun _ t => J t) t :=
  hq.safe_rely (fun _ _ _ hc hI hJt => ⟨(hI.routine hc).1, fun _ hj => rely_of_ne hj,
    hJ _ _ (hI.routine hc).2 hJt⟩) hJ h

lemma safe_own_any {α : Type} {q : Task α} (hq : q.Only fun _ c => routine c = true) :
    q.Safe (track i p env) (own i p) Prog.Any t :=
  (safe_own (J := fun _ => True) hq (fun _ _ _ _ => trivial) trivial).mono fun _ _ _ => trivial

/-- When the condition is not met any more, nothing more is asked. -/
lemma safe_unmet {α : Type} (q : Task α) (h : t.met = false) :
    q.Safe (track i p env) (own i p) Prog.Any t := by
  refine (q.only_true.safe_rely (J := fun t => t.met = false) (fun β c t _ _ hJ => ?_)
    (fun t t' hr hJ => ?_) h).mono fun _ _ _ => trivial
  · have hmet : (track i p env β c t).2.met = false := by simp [track, hJ]
    exact ⟨fun hm => by simp [hmet] at hm, fun _ hj => rely_of_ne hj, hmet⟩
  · by_contra hm
    have := hr.1 (by simpa using hm)
    simp [hJ] at this

/-- The row of the file has no id as long as the condition is met. -/
def StillUnbound (i : ItemId) (t : Traced) : Prop := t.met = true → Unbound i t

lemma StillUnbound.rely (h : StillUnbound i t) (hr : rely i none t t') : StillUnbound i t' := by
  intro hmet r' hr' hid
  obtain ⟨r, hr₀, hri, hremote⟩ := hr.2.2 hmet r' hr' hid
  exact hremote.trans (h (hr.1 hmet) r hr₀ hri)

/-- Binding a row of another path leaves the row of the file without an id. -/
lemma StillUnbound.bindOther {id : ItemId} {rid : FileId} (h : StillUnbound i t)
    (hid : t.met = true → id ≠ i) :
    StillUnbound i (track i p env Unit (.db (.setRemoteId id rid)) t).2 := by
  intro hmet r hr hri
  obtain ⟨hmet₀, -⟩ := met_of_track hmet
  rcases mem_setRemoteId.mp hr with ⟨hr, -⟩ | ⟨s, -, hs, rfl⟩
  · exact h hmet₀ r hr hri
  · exact absurd (hs.symm.trans hri) (hid hmet₀)

/-- Recording a folder above the file. -/
lemma safe_persistDir {rel : RelPath} {rid : FileId} (hrel : rel ≠ p) (h : StillUnbound i t) :
    (persistDir rel rid).Safe (track i p env) (own i p) (fun _ t => StillUnbound i t) t := by
  simp only [persistDir, sql, Prog.lift, Prog.bind_eq, Prog.call_bind, Prog.pure_bind]
  intro t₁ hr₁ hI₁
  have h₁ := h.rely hr₁
  obtain ⟨hI₂, hr₂⟩ := @Inv.routine _ _ env _ _ (.db (.getByRelativePath rel)) hI₁ rfl
  refine ⟨hI₂, fun _ hj => rely_of_ne hj, ?_⟩
  have h₂ := h₁.rely hr₂
  cases hrow : (track i p env _ (.db (.getByRelativePath rel)) t₁).1 with
  | none => exact safe_own ⟨rfl, fun x => by cases x <;> trivial⟩ (fun _ _ hr hJ => hJ.rely hr) h₂
  | some existing =>
    obtain ⟨hmem, hpath⟩ := ItemTable.getByRelativePath_eq_some.mp hrow
    have hne : t₁.met = true → existing.id ≠ i := fun hmet hid =>
      hrel (hpath.symm.trans ((hI₁ hmet).place existing hmem hid))
    simp only
    split_ifs
    · intro t₃ hr₃ hI₃
      have hmet₁ : t₃.met = true → t₁.met = true := fun hmet => hr₂.1 (hr₃.1 hmet)
      refine ⟨fun hmet => ?_, fun _ hj => rely_of_ne hj, ?_⟩
      · obtain ⟨hmet₃, hmeets⟩ := met_of_track hmet
        exact (hI₃ hmet₃).bindOther (hne (hmet₁ hmet₃)) hmeets
      · exact (h₂.rely hr₃).bindOther fun hmet => hne (hmet₁ hmet)
    · exact h₂

/-- Making the folders above the file. -/
lemma safe_ensureSegments {current : FileId} {cumulative : RelPath} {segments : List String}
    (hlen : (cumulative ++ segments).length < p.length) (h : StillUnbound i t) :
    (ensureSegments current cumulative segments).Safe (track i p env) (own i p)
      (fun _ t => StillUnbound i t) t := by
  induction segments generalizing current cumulative t with
  | nil => exact h
  | cons seg rest ih =>
    have hchild : (childFolder current seg).Only fun _ c => routine c = true := by
      refine Prog.Only.bind ⟨rfl, fun x => Prog.only_ofExcept x⟩ fun children => ?_
      split
      · trivial
      · exact Prog.Only.bind ⟨rfl, fun x => Prog.only_ofExcept x⟩ fun _ => trivial
    have hrel : cumulative ++ [seg] ≠ p := by
      rintro rfl
      simp at hlen
    refine (safe_own hchild (fun _ _ hr hJ => hJ.rely hr) h).bind (fun next t₁ h₁ => ?_)
      fun _ _ h₁ => h₁
    refine (safe_persistDir hrel h₁).bind (fun _ t₂ h₂ => ?_) fun _ _ h₂ => h₂
    exact ih (by simpa using hlen) h₂

/-- Making the folders above the file. -/
lemma safe_ensureRemoteFolder {root : FileId} (hp : p ≠ []) (h : StillUnbound i t) :
    (ensureRemoteFolder root p.splitParent.1).Safe (track i p env) (own i p)
      (fun _ t => StillUnbound i t) t := by
  refine safe_ensureSegments ?_ h
  have hlen := List.length_pos_iff.mpr hp
  simp only [RelPath.splitParent, List.nil_append, List.length_dropLast]
  omega

/-- The id that an upload answered is the one that the row waits for. -/
def Owes (rf : FileResource) (t : Traced) : Prop :=
  t.met = true → ∃ n, t.owed = some n ∧ rf.id = .id n

lemma Owes.rely {rf : FileResource} (h : Owes rf t) (hr : rely i none t t') : Owes rf t' := by
  intro hmet
  obtain ⟨n, howed, hid⟩ := h (hr.1 hmet)
  exact ⟨n, hr.2.1.trans howed, hid⟩

/-- **The request of the upload** and what its answer says. -/
lemma safe_uploadMultipart {parent : FileId} {name mime : String} {bytes : Bytes}
    (h : StillUnbound i t) :
    (request (.uploadMultipart parent name mime bytes)).Safe (track i p env) (own i p)
      (fun x t => match x with
        | .ok rf => Owes rf t
        | .error _ => True) t := by
  intro t₁ hr₁ hI₁
  have h₁ := h.rely hr₁
  refine ⟨fun hmet => ?_, fun _ hj => rely_of_ne hj, ?_⟩
  · obtain ⟨hmet₁, hmeets⟩ := met_of_track hmet
    exact (hI₁ hmet₁).upload (h₁ hmet₁) hmeets
  · rw [Prog.safe_ofExcept]
    cases hrf : (track i p env _ (.drive (.uploadMultipart parent name mime bytes)) t₁).1 with
    | error e => trivial
    | ok rf =>
      intro hmet
      rcases upload_cases env.md5 t₁.world.remote parent name mime bytes with
        ⟨-, hnone⟩ | ⟨hnew, -, hid⟩
      · exact absurd hrf (hnone rf)
      · refine ⟨_, ?_, hid rf hrf⟩
        show (CreateOnce.made _ _).head?.or _ = _
        rw [hnew]
        rfl

/-- **Storing the id** of the object that was made. -/
lemma safe_setRemoteId {rf : FileResource} (h : Owes rf t) :
    (sql (.setRemoteId i rf.id)).Safe (track i p env) (own i p) Prog.Any t := by
  intro t₁ hr₁ hI₁
  refine ⟨fun hmet => ?_, fun _ hj => rely_of_ne hj, trivial⟩
  obtain ⟨hmet₁, -⟩ := met_of_track hmet
  obtain ⟨n, howed, hid⟩ := h.rely hr₁ hmet₁
  rw [hid]
  exact (hI₁ hmet₁).store howed

/-- A program whose calls are all routine. -/
abbrev Routine {α : Type} (q : Task α) : Prop :=
  q.Only fun _ c => EarlyDelete.routine c = true

section Routine

variable {α : Type} {item : SyncItem} {op : PendingOperation}

lemma routine_sql {c : DbCall α} (hc : EarlyDelete.routine (.db c) = true) : Routine (sql c) :=
  ⟨hc, fun _ => trivial⟩

lemma routine_io {c : FsCall α} (hc : EarlyDelete.routine (.fs c) = true) : Routine (io c) :=
  ⟨hc, fun _ => trivial⟩

lemma routine_request {c : DriveCall α} (hc : EarlyDelete.routine (.drive c) = true) :
    Routine (request c) := ⟨hc, fun _ => Prog.only_ofExcept _⟩

lemma routine_unixNow : Routine unixNow := ⟨rfl, fun _ => trivial⟩

lemma routine_withMark {id : FileId} {body : Task α} (h : Routine body) :
    Routine (withMark id body) := by
  have hmark : Routine (.lift (.mark id) : Task Unit) := ⟨rfl, fun _ => trivial⟩
  have hunmark : Routine (.lift (.unmark id) : Task Unit) := ⟨rfl, fun _ => trivial⟩
  exact hmark.bind fun _ => (Prog.Only.attempt h).bind fun x => hunmark.bind fun _ =>
    Prog.only_ofExcept x

lemma routine_computeLocal {rel : RelPath} : Routine (computeLocal env rel) :=
  Prog.Only.bind ⟨rfl, fun _ => Prog.only_ofExcept _⟩ fun _ => trivial

/-- The upload of new content. -/
lemma routine_update {rid : FileId} {rel : RelPath} {size : ℕ} {md5 : String} :
    Routine (withMark rid do
      let _ ← Engine.update rid rel
      sql (.updateFingerprint i (some size) (some md5))) := by
  refine routine_withMark (Prog.Only.bind ?_ fun _ => routine_sql rfl)
  exact Prog.Only.bind ⟨rfl, fun _ => Prog.only_ofExcept _⟩ fun _ => routine_request rfl

lemma routine_executeDeleteRemote : Routine (executeDeleteRemote env item) := by
  unfold executeDeleteRemote
  cases item.remoteId with
  | none => exact routine_sql rfl
  | some rid =>
    have hdelete : Routine (Engine.deleteRemote env rid) := by
      unfold Engine.deleteRemote
      cases env.deleteMode <;> exact routine_request rfl
    refine routine_withMark ((Prog.Only.attempt hdelete).bind fun res => ?_)
    cases res with
    | ok u => exact routine_sql rfl
    | error e =>
      have hremove : Routine (removeFromMyDrive rid) := by
        refine Prog.Only.bind (routine_request rfl) fun v => ?_
        split
        · trivial
        · exact routine_request rfl
      simp only
      split
      · refine (Prog.Only.attempt hremove).bind fun res => ?_
        cases res <;> exact routine_sql rfl
      · trivial

lemma routine_executeDeleteLocal {payload : Option Payload} :
    Routine (executeDeleteLocal item payload) := by
  have hremove : Routine (removeLocal item) := by
    unfold removeLocal
    split <;>
    · refine Prog.Only.bind (routine_io rfl) fun res => ?_
      cases res with
      | ok u => trivial
      | error e =>
        simp only
        split <;> trivial
  refine hremove.bind fun _ => Prog.Only.bind (Prog.only_ofExcept _) fun q => ?_
  unfold forgetLocal
  split
  · exact routine_unixNow.bind fun _ => routine_sql rfl
  · exact routine_sql rfl

lemma routine_completed : Routine (completed op) := by
  have hend : Routine (do
      let _ ← sql .clearIfTransient
      sql (.deleteOp op.id)) := Prog.Only.bind (routine_sql rfl) fun _ => routine_sql rfl
  unfold completed
  split
  · exact routine_unixNow.bind fun _ => Prog.Only.bind (routine_sql rfl) fun _ => hend
  · exact hend

lemma routine_failed {e : Error} : Routine (failed op e) := by
  have hlater : Routine (do
      let delay ← backoffSeconds (op.attempts + 1)
      let now ← unixNow
      sql (.markAttempt op.id (now + delay))
      pure true) := by
    refine Prog.Only.bind ⟨rfl, fun _ => trivial⟩ fun _ => routine_unixNow.bind fun _ => ?_
    exact Prog.Only.bind (routine_sql rfl) fun _ => trivial
  unfold failed
  split
  · refine Prog.Only.bind (routine_sql rfl) fun _ => routine_unixNow.bind fun _ => ?_
    exact Prog.Only.bind (routine_sql rfl) fun _ => trivial
  · exact hlater

end Routine

/-- Recording the object that was made. -/
lemma safe_record {rf : FileResource} {size : ℕ} {md5 : String} (h : Owes rf t) :
    (withMark rf.id do
      sql (.setRemoteId i rf.id)
      sql (.updateFingerprint i (some size) (some md5))).Safe (track i p env) (own i p)
        Prog.Any t := by
  have hmark : Routine (.lift (.mark rf.id) : Task Unit) := ⟨rfl, fun _ => trivial⟩
  have hend : ∀ x : Except Error Unit, Routine (do
      .lift (.unmark rf.id)
      .ofExcept x) := fun x => ⟨rfl, fun _ => Prog.only_ofExcept x⟩
  refine (safe_own hmark (fun _ _ hr hJ => hJ.rely hr) h).bind (fun _ t₁ h₁ => ?_)
    fun _ _ _ => trivial
  refine Prog.Safe.bind (P := Prog.Any) ?_ (fun x _ _ => safe_own_any (hend x)) fun _ _ _ => trivial
  refine Prog.safe_attempt.mpr ?_
  exact (safe_setRemoteId h₁).bind (fun _ _ _ => safe_own_any (routine_sql rfl))
    fun _ _ _ => trivial

/-- **The first upload** keeps the terms: what it makes waits for its id until it is stored. -/
lemma safe_executeUpload {root : FileId} {item : SyncItem} (hid : item.id = i)
    (hpath : item.relativePath = p) (hp : p ≠ [])
    (h : item.remoteId = none → StillUnbound i t) :
    (executeUpload env root item).Safe (track i p env) (own i p) Prog.Any t := by
  have hloc : Routine (io (.isFile item.relativePath)) := routine_io rfl
  refine (safe_own (J := fun t => item.remoteId = none → StillUnbound i t) hloc
    (fun _ _ hr hJ hnone => (hJ hnone).rely hr) h).bind (fun isFile t₁ h₁ => ?_)
    fun _ _ _ => trivial
  split
  · refine (safe_own (J := fun t => item.remoteId = none → StillUnbound i t) routine_computeLocal
      (fun _ _ hr hJ hnone => (hJ hnone).rely hr) h₁).bind (fun print t₂ h₂ => ?_)
      fun _ _ _ => trivial
    simp only
    split
    · trivial
    · cases hrid : item.remoteId with
      | some rid =>
        rw [hid]
        exact safe_own_any routine_update
      | none =>
        rw [hpath]
        refine (safe_ensureRemoteFolder hp (h₂ hrid)).bind (fun parent t₃ h₃ => ?_)
          fun _ _ _ => trivial
        have hread : Routine (ioTry (.readFile p)) := ⟨rfl, fun _ => Prog.only_ofExcept _⟩
        refine Prog.Safe.bind (P := fun x t => match x with
          | .ok rf => Owes rf t
          | .error _ => True) ?_ (fun rf t₄ h₄ => ?_) fun _ _ _ => trivial
        · exact (safe_own hread (fun _ _ hr hJ => hJ.rely hr) h₃).bind
            (fun content t₄ h₄ => safe_uploadMultipart h₄) fun _ _ _ => trivial
        · rw [hid]
          exact safe_record h₄
  · trivial

/-- **An operation of the row** keeps the terms. -/
lemma safe_execute {root : FileId} {op : PendingOperation} (hp : p ≠ [])
    (hitem : op.syncItemId = i) (hop : ownWork op.op = true) :
    (execute env root op).Safe (track i p env) (own i p) Prog.Any t := by
  intro t₁ _ hI₁
  obtain ⟨hI₂, -⟩ := @Inv.routine _ _ env _ _ (.db (.getById op.syncItemId)) hI₁ rfl
  refine ⟨hI₂, fun _ hj => rely_of_ne hj, ?_⟩
  cases hrow : (track i p env _ (.db (.getById op.syncItemId)) t₁).1 with
  | none => trivial
  | some item =>
    by_cases hmet : (track i p env _ (.db (.getById op.syncItemId)) t₁).2.met = true
    · obtain ⟨hmem, hid⟩ := ItemTable.getById_eq_some.mp hrow
      rw [hitem] at hid
      have hpath := (hI₂ hmet).place item hmem hid
      have hstill : item.remoteId = none →
          StillUnbound i (track i p env _ (.db (.getById op.syncItemId)) t₁).2 := by
        intro hnone _ r hr hri
        rw [ItemTable.id_inj hr hmem (hri.trans hid.symm), hnone]
      simp only [executeItem]
      cases hkind : op.op with
      | upload => exact safe_executeUpload hid hpath hp hstill
      | deleteRemote => exact safe_own_any routine_executeDeleteRemote
      | deleteLocal => exact safe_own_any routine_executeDeleteLocal
      | _ =>
        rw [hkind] at hop
        cases hop
    · exact safe_unmet _ (by simpa using hmet)

/-- **The dispatcher**, with an operation of the row. -/
lemma safe_handleOp {root : FileId} {op : PendingOperation} {now : ℕ} (hp : p ≠ [])
    (hI : Inv i p t) (hnext : OpTable.nextDue t.world.db.ops now = some op)
    (hitem : op.syncItemId = i) :
    (void (handleOp env root op)).Safe (track i p env) (own i p) Prog.Any t := by
  by_cases hmet : t.met = true
  · obtain ⟨hmem, -⟩ := OpTable.nextDue_mem hnext
    have hop := (hI hmet).work op hmem hitem
    refine Prog.Safe.bind (P := Prog.Any) ?_ (fun _ _ _ => trivial) fun _ _ _ => trivial
    unfold handleOp
    split
    · exact safe_own_any (Prog.Only.bind (routine_sql rfl) fun _ => trivial)
    · refine Prog.Safe.bind (P := Prog.Any) (Prog.safe_attempt.mpr ?_) (fun x t₁ _ => ?_)
        fun _ _ _ => trivial
      · exact (safe_execute hp hitem hop).mono fun _ _ _ => trivial
      · cases x with
        | ok u => exact safe_own_any (routine_completed.bind fun _ => trivial)
        | error e => exact safe_own_any routine_failed
  · exact safe_unmet _ (by simpa using hmet)

/-- The calls of a handler are routine. -/
lemma routine_of_handled {α : Type} {q : Task α} (h : Handled (fun _ => True) q) : Routine q := by
  refine h.handling.mono fun β c hc => ?_
  cases c with
  | db c => cases c <;> first | rfl | cases hc
  | fs c => cases c <;> first | rfl | cases hc
  | drive c => cases c <;> first | rfl | cases hc
  | _ => rfl

end Tasks

/-! ## The deletion before and after the id is stored -/

/-- The user has made `b.txt` next to `a.txt`, which is in step: its upload is queued. -/
def created : World :=
  performAll .plain [.job (.event (.created ["b.txt"])) 100]
    (byUser (.writeFile ["b.txt"] [66]) sampleSynced)

/-- The upload of `b.txt`. -/
def firstUpload : PendingOperation := ⟨2, 2, .upload, none, 0, 0⟩

/-- The dispatcher makes some calls of the upload; then the user removes the file, the deletion is
handled, and the dispatcher makes the other calls. -/
def deletedAmid (n : ℕ) : Traced :=
  let task := void (handleOp .plain (.id 2) firstUpload)
  let calls := track 2 ["b.txt"] .plain
  let start : Traced := ⟨created, [], none, false, false, true⟩
  let sent := task.cut calls n start
  let removed := { sent with world := byUser (.removeFile ["b.txt"]) sent.world, gone := true }
  let handled := (((Job.event (.deleted ["b.txt"])).task .plain).run calls removed).2
  ((task.rest calls n start).run calls handled).2

/-- The user removes the file. -/
lemma elsewhere_removed {i : ItemId} {p : RelPath} {t : Traced}
    (h : ((FsCall.removeFile p).run t.world.fs).2.node p = none) :
    Elsewhere i p t { t with world := byUser (.removeFile p) t.world, gone := true } :=
  ⟨rfl, rfl, rfl, rfl, fun _ => rfl, fun _ _ => h, fun _ _ => .rfl,
    fun r hr _ => .inl ⟨r, hr, rfl, rfl⟩, fun _ _ => .rfl, le_rfl, le_rfl, fun _ _ => id⟩

/-- The removal can fall between any two calls of the upload, and then the dispatcher is idle. -/
lemma runs_deletedAmid (n : ℕ)
    (hfile : ((FsCall.removeFile ["b.txt"]).run ((void (handleOp .plain (.id 2) firstUpload)).cut
      (track 2 ["b.txt"] .plain) n ⟨created, [], none, false, false, true⟩).world.fs).2.node
        ["b.txt"] = none) : ∃ t, Runs 2 ["b.txt"] .plain created ⟨deletedAmid n, t⟩ ∧
      Config.Idle ⟨deletedAmid n, t⟩ none := by
  have hdue : OpTable.nextDue created.db.ops 0 = some firstUpload := by decide +kernel
  have hstart := (Reaches.refl : Runs 2 ["b.txt"] .plain created _).step
    (.start (i := none) (.inl ⟨(), rfl⟩) ⟨firstUpload, 0, .id 2, hdue, rfl, rfl⟩)
  have hremoved := (hstart.run_calls n).step (.env (elsewhere_removed hfile))
  obtain ⟨t, hhandled, -, hothers⟩ := Reaches.run_job (i := some 0) hremoved (.inl ⟨(), rfl⟩)
    (.inl ⟨.deleted ["b.txt"], rfl⟩)
  have hrest : t none = (void (handleOp .plain (.id 2) firstUpload)).rest
      (track 2 ["b.txt"] .plain) n ⟨created, [], none, false, false, true⟩ := by
    rw [hothers none (by simp)]
    simp only [Function.update_self]
  obtain ⟨t', hall, hidle, -⟩ := hhandled.run_left hrest
  exact ⟨t', hall, hidle⟩

/-- The change that describes the new object. -/
def echo : RemoteChange :=
  ⟨.id 4, false, some ⟨.id 4, "b.txt", "text/plain", some 1, some "B", [.id 2], false⟩,
    some ["b.txt"]⟩

/-- Changes are delivered, and the dispatcher takes the operation that is due. -/
def delivered (changes : List RemoteChange) (w : World) : World :=
  performAll .plain [.job (.batch ⟨changes, 1⟩) 100, .job (.drain (.id 2)) 100] w

/-- The deletion is handled once the id is stored; then the dispatcher removes the object. -/
def deletedLater : Traced :=
  ((void (handleOp .plain (.id 2) ⟨3, 2, .deleteRemote, none, 0, 0⟩)).run
    (track 2 ["b.txt"] .plain) (deletedAmid 7)).2

end AirDrive.EarlyDelete
