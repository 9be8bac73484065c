import AirDrive.System.KindSafety
import AirDrive.Drive.Place

set_option relaxedAutoImplicit false
set_option autoImplicit false

/-!
# How rows are bound to objects on Drive

The schema keeps the paths of the rows apart, not their Drive ids. Remote changes look a row up by
the id before they insert one; the folders on the way to an upload are bound by path, whatever other
rows there are. Job by job, no id gets into two rows where what is bound is bound to no other row.

## Main definitions

* `AirDrive.Binding.Bound` — no id is in two rows, and no row has an id that is still to be given out.
* `AirDrive.Binding.unbinding` — the calls that bind no row.
* `AirDrive.Binding.foundFolders` — the folders that the walk along a path finds.
* `AirDrive.Binding.Spares` — what an operation binds is bound to no other row.

## Main results

* `AirDrive.Binding.bound_call` — a call keeps the invariant.
* `AirDrive.Binding.safe_applyBatch`, `AirDrive.Binding.safe_drain` — batches and operations.
-/

namespace AirDrive.Binding

open Effect Dispatcher Continuous Outcomes Kinds KindSafety

/-! ## The invariant -/

/-- No id is in two rows. -/
def Unshared (items : ItemTable) : Prop :=
  ∀ r ∈ items, ∀ s ∈ items, ∀ rid, r.remoteId = some rid → s.remoteId = some rid → r = s

/-- The id was given out. -/
def Minted (d : Drive) (rid : FileId) : Prop := ∀ n, rid = .id n → n < d.files.next

/-- What holds in every state. -/
structure Bound (w : World) : Prop where
  /-- No id is in two rows. -/
  unshared : Unshared w.db.items
  /-- The ids of the rows were given out. -/
  minted : ∀ r ∈ w.db.items, ∀ rid, r.remoteId = some rid → Minted w.remote.drive rid
  /-- So were those of what is fetched. -/
  fetched : ∀ o ∈ w.db.ops, o.op = .download → ∀ dl, o.payload = some (.download dl) →
    Minted w.remote.drive dl.remoteId

/-- The calls that bind no row and queue no download. -/
def unbinding : {β : Type} → Call β → Bool
  | _, .db (.insertItem new) => new.remoteId.isNone
  | _, .db (.setRemoteId _ _) => false
  | _, .db (.enqueue _ op _ _) => op ≠ .download
  | _, _ => true

/-- What a call binds or fetches was given out, and no other row is bound to it. -/
def Free (w : World) : {β : Type} → Call β → Prop
  | _, .db (.insertItem new) => ∀ rid, new.remoteId = some rid → Minted w.remote.drive rid ∧
    ∀ r ∈ w.db.items, r.remoteId = some rid → r.relativePath = new.relativePath
  | _, .db (.setRemoteId id rid) => Minted w.remote.drive rid ∧
    ∀ r ∈ w.db.items, r.remoteId = some rid → r.id = id
  | _, .db (.enqueue _ .download (some (.download dl)) _) => Minted w.remote.drive dl.remoteId
  | _, _ => True

/-- The row that a statement binds, and to what. -/
def rebinds {β : Type} : DbCall β → Option (ItemId × FileId)
  | .setRemoteId id rid => some (id, rid)
  | _ => none

section Calls

variable {env : Env} {w : World} {α β : Type}

lemma Minted.mono {d d' : Drive} {rid : FileId} (h : Minted d rid)
    (hnext : d.files.next ≤ d'.files.next) : Minted d' rid :=
  fun n hn => (h n hn).trans_le hnext

/-- The id of an object was given out. -/
lemma minted_of_mem {d : Drive} {f : DriveFile} (hf : f ∈ d.files) : Minted d (.id f.num) := by
  intro n hn
  rw [← FileId.id.inj hn]
  exact d.files.key_lt hf

lemma next_le_send {γ : Type} (c : DriveCall γ) (r : Remote) :
    r.drive.files.next ≤ (r.send env.md5 c).2.drive.files.next := by
  rcases @Remote.send_drive _ env.md5 c r with hsame | hrun
  · rw [hsame]
  · rw [hrun]
    exact DriveCall.next_le_run c r.drive

/-- Drive gives out no id twice. -/
lemma next_le_handle (c : Call β) :
    w.remote.drive.files.next ≤ (handle env β c w).2.remote.drive.files.next := by
  cases c with
  | drive c => exact next_le_send c w.remote
  | _ => exact Nat.le_refl _

lemma free_of_unbinding {c : Call β} (hc : unbinding c = true) : Free w c := by
  cases c with
  | db c =>
    cases c with
    | insertItem new =>
      intro rid hrid
      simp [unbinding, hrid] at hc
    | setRemoteId id rid => cases hc
    | enqueue item op payload now =>
      cases op with
      | download => cases hc
      | _ => trivial
    | _ => trivial
  | _ => trivial

lemma unbinding_of_harmless {c : Call β} (hc : harmless c = true) : unbinding c = true := by
  cases c with
  | db c =>
    cases c with
    | insertItem new => cases hc
    | setRemoteId id rid => cases hc
    | enqueue item op payload now => exact hc
    | _ => rfl
  | _ => rfl

/-- A row after a call is bound as before, or the call binds it. -/
lemma remoteId_cases {c : DbCall β} {db : Db} {r : SyncItem} {rid : FileId}
    (hr : r ∈ (c.run db).2.items) (hrid : r.remoteId = some rid) :
    (∃ s ∈ db.items, s.id = r.id ∧ s.remoteId = some rid) ∨
      (∃ new, c.inserts = some new ∧ new.remoteId = some rid ∧ r = new.withId db.items.nextId) ∨
      rebinds c = some (r.id, rid) := by
  rcases DbCall.mem_items_run hr with ⟨s, hs, hid, hchange⟩ | ⟨new, hnew, rfl⟩
  · have hsame : s.remoteId = r.remoteId → ∃ s ∈ db.items, s.id = r.id ∧ s.remoteId = some rid :=
      fun heq => ⟨s, hs, hid, heq.trans hrid⟩
    cases c with
    | setRemoteId id rid' =>
      rcases hchange with rfl | ⟨hsid, rfl⟩
      · exact .inl (hsame rfl)
      · obtain rfl := Option.some.inj hrid
        exact .inr (.inr (by rw [← hsid]; rfl))
    | setRelativePath id rel =>
      obtain ⟨p, rfl⟩ := hchange
      exact .inl (hsame rfl)
    | renameSubtree old new =>
      obtain ⟨p, rfl⟩ := hchange
      exact .inl (hsame rfl)
    | updateFingerprint id size md5 => rcases hchange with rfl | ⟨-, rfl⟩ <;> exact .inl (hsame rfl)
    | setState id state => rcases hchange with rfl | ⟨-, rfl⟩ <;> exact .inl (hsame rfl)
    | markTrashed id at' => rcases hchange with rfl | ⟨-, rfl⟩ <;> exact .inl (hsame rfl)
    | clearTrashed id => rcases hchange with rfl | ⟨-, rfl⟩ <;> exact .inl (hsame rfl)
    | _ => exact .inl (hsame (congrArg SyncItem.remoteId (id hchange : r = s).symm))
  · exact .inr (.inl ⟨new, hnew, hrid, rfl⟩)

/-- No statement both inserts and binds a row. -/
lemma rebinds_of_inserts {c : DbCall β} {new : NewSyncItem} (h : c.inserts = some new) :
    rebinds c = none := by
  cases c <;> first | rfl | cases h

/-- A row that was inserted found its path free. -/
lemma free_of_inserted {new : NewSyncItem} {db : Db}
    (h : new.withId db.items.nextId ∈ (DbCall.run (.insertItem new) db).2.items) :
    db.items.getByRelativePath new.relativePath = none := by
  by_contra hne
  simp only [DbCall.run, Db.insertItem, dif_neg hne] at h
  exact absurd (ItemTable.id_lt h) (lt_irrefl _)

/-- **A statement keeps the ids apart** when no other row is bound to what it binds. -/
lemma unshared_call {c : DbCall β} (h : Unshared w.db.items) (hfree : Free w (.db c)) :
    Unshared (c.run w.db).2.items := by
  have hold : ∀ r ∈ (c.run w.db).2.items, ∀ s ∈ w.db.items, ∀ rid, r.remoteId = some rid →
      s.remoteId = some rid → r.id = s.id := by
    intro r hr s hs rid hrid hsid
    rcases remoteId_cases hr hrid with ⟨r₀, hr₀, hid, hrid₀⟩ | ⟨new, hnew, hnewid, rfl⟩ | hbinds
    · rw [← hid, h r₀ hr₀ s hs rid hrid₀ hsid]
    · cases c with
      | insertItem new' =>
        obtain rfl := Option.some.inj hnew
        have hpath := (hfree rid hnewid).2 s hs hsid
        exact absurd hpath (ItemTable.getByRelativePath_eq_none.mp (free_of_inserted hr) s hs)
      | _ => cases hnew
    · cases c with
      | setRemoteId id rid' =>
        obtain ⟨rfl, rfl⟩ := Prod.mk.inj (Option.some.inj hbinds)
        exact (hfree.2 s hs hsid).symm
      | _ => cases hbinds
  intro r hr s hs rid hrid hsid
  apply ItemTable.id_inj hr hs
  rcases remoteId_cases hs hsid with ⟨s₀, hs₀, hid, hsid₀⟩ | ⟨new, hnew, -, rfl⟩ | hbinds
  · rw [← hid]
    exact hold r hr s₀ hs₀ rid hrid hsid₀
  · rcases remoteId_cases hr hrid with ⟨r₀, hr₀, hid, hrid₀⟩ | ⟨new', -, -, rfl⟩ | hbinds
    · rw [← hid]
      exact (hold _ hs r₀ hr₀ rid hsid hrid₀).symm
    · rfl
    · cases (rebinds_of_inserts hnew).symm.trans hbinds
  · rcases remoteId_cases hr hrid with ⟨r₀, hr₀, hid, hrid₀⟩ | ⟨new', hnew, -, rfl⟩ | hbinds'
    · rw [← hid]
      exact (hold _ hs r₀ hr₀ rid hsid hrid₀).symm
    · cases (rebinds_of_inserts hnew).symm.trans hbinds
    · exact (Prod.mk.inj (Option.some.inj (hbinds'.symm.trans hbinds))).1

/-- **A call keeps the invariant** when no other row is bound to what it binds. -/
lemma bound_call {c : Call β} (h : Bound w) (hfree : Free w c) : Bound (handle env β c w).2 := by
  have hnext : w.remote.drive.files.next ≤ (handle env β c w).2.remote.drive.files.next :=
    next_le_handle c
  refine ⟨?_, fun r hr rid hrid => ?_, fun o ho hop dl hdl => ?_⟩
  · cases c with
    | db c => exact unshared_call h.unshared hfree
    | _ => exact h.unshared
  · apply Minted.mono _ hnext
    cases c with
    | db c =>
      rcases remoteId_cases hr hrid with ⟨s, hs, -, hsid⟩ | ⟨new, hnew, hnewid, -⟩ | hbinds
      · exact h.minted s hs rid hsid
      · cases c with
        | insertItem new' =>
          obtain rfl := Option.some.inj hnew
          exact (hfree rid hnewid).1
        | _ => cases hnew
      · cases c with
        | setRemoteId id rid' =>
          obtain ⟨-, rfl⟩ := Prod.mk.inj (Option.some.inj hbinds)
          exact hfree.1
        | _ => cases hbinds
    | _ => exact h.minted r hr rid hrid
  · apply Minted.mono _ hnext
    cases c with
    | db c =>
      rcases DbCall.mem_ops_run ho with ⟨o', ho', -, -, hop', hpayload⟩ | ⟨henqueue, -⟩
      · exact h.fetched o' ho' (hop'.trans hop) dl (hpayload.trans hdl)
      · rw [hop, hdl] at henqueue
        cases c with
        | enqueue item op payload now =>
          obtain ⟨-, rfl, rfl⟩ : item = o.syncItemId ∧ op = .download ∧
              payload = some (.download dl) := by
            simpa [DbCall.enqueues] using henqueue
          exact hfree
        | _ => cases henqueue
    | _ => exact h.fetched o ho hop dl hdl

lemma bound_drive {c : DriveCall α} (h : Bound w) :
    Bound { w with remote := (w.remote.send env.md5 c).2 } := by
  have hcall : Bound (handle env _ (.drive c) w).2 := bound_call h trivial
  exact hcall

lemma bound_db {c : DbCall α} (h : Bound w) (hfree : Free w (.db c)) :
    Bound { w with db := (c.run w.db).2 } := by
  have hcall : Bound (handle Env.plain _ (.db c) w).2 := bound_call h hfree
  exact hcall

/-- The calls that bind no row and queue no download but that of one object. -/
def fetching (rid : FileId) : {β : Type} → Call β → Prop
  | _, .db (.enqueue _ op payload _) =>
    op = .download → ∀ dl, payload = some (.download dl) → dl.remoteId = rid
  | _, c => unbinding c = true

lemma fetching_of_unbinding {rid : FileId} {c : Call β} (hc : unbinding c = true) :
    fetching rid c := by
  cases c with
  | db c =>
    cases c with
    | enqueue item op payload now =>
      intro hop
      simp [unbinding, hop] at hc
    | _ => exact hc
  | _ => exact hc

lemma free_of_fetching {rid : FileId} {c : Call β} (hc : fetching rid c)
    (hrid : Minted w.remote.drive rid) : Free w c := by
  cases c with
  | db c =>
    cases c with
    | enqueue item op payload now =>
      cases op with
      | download =>
        cases payload with
        | none => trivial
        | some p =>
          cases p with
          | download dl =>
            have hdl : dl.remoteId = rid := hc rfl dl rfl
            exact (hdl ▸ hrid : Minted w.remote.drive dl.remoteId)
          | _ => trivial
      | _ => trivial
    | _ => exact free_of_unbinding hc
  | _ => exact free_of_unbinding hc

/-- A program that binds no row keeps the invariant. -/
lemma safe_unbinding {p : Task α} (hp : p.Only fun _ c => unbinding c = true) :
    p.Safe (handle env) (.solo Bound) Prog.Any w :=
  hp.safe (J := fun _ => True) (fun _ _ _ hc hI _ => ⟨bound_call hI (free_of_unbinding hc), trivial⟩)
    trivial

/-- So does one that fetches an object that is there. -/
lemma safe_fetching {rid : FileId} {p : Task α} (hp : p.Only fun _ c => fetching rid c)
    (hrid : Minted w.remote.drive rid) : p.Safe (handle env) (.solo Bound) Prog.Any w := by
  refine Prog.Safe.mono (hp.safe (J := fun w => Minted w.remote.drive rid)
    (fun _ c _ hc hI hJ => ⟨bound_call hI (free_of_fetching hc hJ), hJ.mono (next_le_handle c)⟩)
    hrid) fun _ _ _ => trivial

/-- Drive gives out no id twice, along a program. -/
lemma safe_next {p : Task α} {Q : Except Error α → World → Prop}
    (hp : p.Safe (handle env) (.solo Bound) Q w) :
    p.Safe (handle env) (.solo Bound) (fun x w' =>
      w.remote.drive.files.next ≤ w'.remote.drive.files.next ∧ Q x w') w :=
  hp.and_rel (R := fun w w' => w.remote.drive.files.next ≤ w'.remote.drive.files.next)
    (fun _ => Nat.le_refl _) (fun _ _ _ => Nat.le_trans) fun _ c _ => next_le_handle c

/-- A statement that the invariant allows. -/
lemma safe_bind_sqlTry {c : DbCall (Except Error α)} {f : α → Task β}
    {Q : Except Error β → World → Prop} (hfree : Free w (.db c))
    (hok : ∀ a, (c.run w.db).1 = .ok a →
      (f a).Safe (handle env) (.solo Bound) Q { w with db := (c.run w.db).2 })
    (herror : ∀ e, Q (.error e) { w with db := (c.run w.db).2 }) :
    ((sqlTry c).bind f).Safe (handle env) (.solo Bound) Q w := by
  refine Prog.Safe.bind (P := fun x w' => x = (c.run w.db).1 ∧ w' = { w with db := (c.run w.db).2 })
    ((safe_sqlTry c).mpr fun h => ⟨bound_db h hfree, rfl, rfl⟩) ?_ ?_
  · rintro a w' ⟨hx, rfl⟩
    exact hok a hx.symm
  · rintro e w' ⟨-, rfl⟩
    exact herror e

end Calls

/-! ## Local events and the startup scan -/

section Events

variable {env : Env}

lemma enqueueOp_unbinding {i : ItemId} {op : Operation} {payload : Option Payload}
    (hop : op ≠ .download) : (enqueueOp i op payload).Only fun _ c => unbinding c = true :=
  (enqueueOp_offDisk hop).mono fun _ _ hc => unbinding_of_harmless (harmless_of_settled hc.1)

lemma localCreate_unbinding {rel : RelPath} {kind : ItemKind} {op : Operation}
    (hop : op ≠ .download) :
    (do let id ← sqlTry (.insertItem (localCreate rel kind)); enqueueOp id op none : Task Unit).Only
      fun _ c => unbinding c = true :=
  Prog.Only.bind ⟨rfl, fun x => Prog.only_ofExcept x⟩ fun _ => enqueueOp_unbinding hop

lemma enqueueLocalDir_unbinding (rel : RelPath) :
    (enqueueLocalDir rel).Only fun _ c => unbinding c = true := by
  refine Prog.Only.bind ⟨rfl, fun _ => trivial⟩ fun row => ?_
  cases row with
  | some item => trivial
  | none => exact localCreate_unbinding (by decide)

lemma enqueueLocalFile_unbinding (rel : RelPath) :
    (enqueueLocalFile rel).Only fun _ c => unbinding c = true := by
  refine Prog.Only.bind ⟨rfl, fun _ => trivial⟩ fun row => ?_
  cases row with
  | none => exact localCreate_unbinding (by decide)
  | some item =>
    simp only
    split
    · trivial
    · exact enqueueOp_unbinding (by decide)

lemma applyCreated_unbinding (p : RelPath) :
    (applyCreated p).Only fun _ c => unbinding c = true := by
  refine Prog.Only.bind ⟨rfl, fun _ => trivial⟩ fun isDir => ?_
  split
  · refine (enqueueLocalDir_unbinding p).bind fun _ => Prog.Only.bind ⟨rfl, fun _ => trivial⟩
      fun entries => Prog.Only.forEach fun e _ => ?_
    unfold enqueueLocalEntry
    split
    · exact enqueueLocalDir_unbinding _
    · exact enqueueLocalFile_unbinding _
  · refine Prog.Only.bind ⟨rfl, fun _ => trivial⟩ fun isFile => ?_
    split
    · exact enqueueLocalFile_unbinding p
    · trivial

/-- **A watcher event** binds no row. -/
lemma applyLocal_unbinding (ev : WatchEvent) :
    (applyLocal ev).Only fun _ c => unbinding c = true := by
  cases ev with
  | created p => exact applyCreated_unbinding p
  | modified p => exact applyCreated_unbinding p
  | deleted p => exact (applyDeleted_offDisk p).mono fun _ _ hc => unbinding_of_harmless (harmless_of_settled hc.1)
  | renamed from' to' =>
    refine Prog.Only.bind ⟨rfl, fun _ => trivial⟩ fun row => ?_
    cases row with
    | none => exact applyCreated_unbinding to'
    | some item =>
      simp only
      split
      · exact Prog.Only.bind ⟨rfl, fun _ => trivial⟩ fun _ => enqueueOp_unbinding (by decide)
      · exact enqueueOp_unbinding (by decide)

lemma still_unbinding {α : Type} {p : Task α} (hp : p.Only fun _ c => still c = true) :
    p.Only fun _ c => unbinding c = true :=
  hp.mono fun _ _ hc => unbinding_of_harmless (harmless_of_still hc)

lemma scanEntry_unbinding (e : Fs.LocalEntry) :
    (StartupScan.scanEntry env e).Only fun _ c => unbinding c = true := by
  unfold StartupScan.scanEntry
  split
  · trivial
  · refine Prog.Only.bind ⟨rfl, fun _ => trivial⟩ fun existing => ?_
    split
    · cases existing with
      | none => exact applyLocal_unbinding _
      | some item => trivial
    · cases existing with
      | none => exact applyLocal_unbinding _
      | some item =>
        simp only
        split
        · trivial
        · refine (still_unbinding (computeLocal_still _)).bind fun print => ?_
          split
          · refine (still_unbinding (remoteMatchesSynced_still item)).bind fun same => ?_
            split
            · exact applyLocal_unbinding _
            · trivial
          · trivial

/-- **The startup scan** binds no row. -/
lemma startupLocalScan_unbinding :
    (StartupScan.startupLocalScan env).Only fun _ c => unbinding c = true := by
  refine Prog.Only.bind ⟨rfl, fun _ => trivial⟩ fun entries => Prog.Only.bind
    (Prog.Only.forEach fun e _ => scanEntry_unbinding e) fun _ => Prog.Only.bind
      ⟨rfl, fun _ => trivial⟩ fun rows => Prog.Only.forEach fun item _ => ?_
  unfold StartupScan.scanRow
  split
  · refine (still_unbinding (remoteMatchesSynced_still item)).bind fun same => ?_
    split
    · exact applyLocal_unbinding _
    · trivial
  · trivial

end Events

/-! ## Remote changes -/

/-- A change describes the object that it is about. -/
def Genuine (d : Drive) (c : RemoteChange) : Prop :=
  ∀ file, c.file = some file → file.id = c.fileId ∧ Minted d c.fileId

section Changes

variable {env : Env} {w : World} {rid : FileId}

lemma fetching_of_unbindings {α : Type} {p : Task α} (hp : p.Only fun _ c => unbinding c = true) :
    p.Only fun _ c => fetching rid c :=
  hp.mono fun _ _ => fetching_of_unbinding

lemma enqueueDownload_fetching {i : ItemId} {file : FileResource} {md5 : String} {rel : RelPath}
    (hfile : file.id = rid) : (enqueueDownload i file md5 rel).Only fun _ c => fetching rid c := by
  refine ⟨rfl, fun now => ⟨fun _ dl hdl => ?_, fun x => ?_⟩⟩
  · cases hdl
    exact hfile
  · exact Prog.Only.bind (Prog.only_ofExcept x) fun _ => trivial

lemma localVersion_unbinding {item : SyncItem} {md5 : String} :
    (localVersion env item md5).Only fun _ c => unbinding c = true := by
  refine Prog.Only.bind ⟨rfl, fun _ => trivial⟩ fun isFile => ?_
  split
  · split
    · trivial
    · refine Prog.Only.bind ⟨rfl, fun _ => trivial⟩ fun res => ?_
      split
      · trivial
      · split_ifs <;> trivial
  · trivial

lemma openConflict_unbinding {i : ItemId} {rel : RelPath} {now : ℕ} :
    (Conflict.openConflict i rel now).Only fun _ c => unbinding c = true := by
  refine Prog.Only.bind ?_ fun _ => Prog.Only.bind ⟨rfl, fun x => Prog.only_ofExcept x⟩
    fun _ => trivial
  refine Prog.Only.bind ⟨rfl, fun _ => trivial⟩ fun there => ?_
  split
  · refine Prog.Only.bind ⟨rfl, fun _ => trivial⟩ fun res => ?_
    split <;> trivial
  · trivial

lemma applyEdited_fetching {item : SyncItem} {file : FileResource} {md5 : String}
    (hfile : file.id = rid) :
    (applyEdited env item file md5).Only fun _ c => fetching rid c := by
  unfold applyEdited
  split
  · trivial
  · refine (fetching_of_unbindings localVersion_unbinding).bind fun version => ?_
    cases version with
    | agrees => trivial
    | behind => exact enqueueDownload_fetching hfile
    | edited =>
      refine Prog.Only.bind ⟨rfl, fun _ => trivial⟩ fun now => ?_
      exact (fetching_of_unbindings openConflict_unbinding).bind fun _ =>
        enqueueDownload_fetching hfile

lemma applyMoved_fetching {item : SyncItem} {file : FileResource} {md5 : String} {rel : RelPath}
    (hfile : file.id = rid) :
    (applyMoved item file md5 rel).Only fun _ c => fetching rid c := by
  refine (fetching_of_unbindings (still_unbinding (renamedDir_still _ _ _))).bind fun dir => ?_
  cases dir with
  | some dir => exact fetching_of_unbindings (enqueueOp_unbinding (by decide))
  | none =>
    refine (fetching_of_unbindings (enqueueOp_unbinding (by decide))).bind fun _ => ?_
    split
    · trivial
    · exact enqueueDownload_fetching hfile

/-- Recording an object that no row is bound to. -/
lemma safe_insert {α : Type} {new : NewSyncItem} {f : ItemId → Task α}
    (hnew : new.remoteId = some rid) (hrid : Minted w.remote.drive rid)
    (hnone : w.db.items.getByRemoteId rid = none)
    (hf : ∀ i, (f i).Only fun _ c => fetching rid c) :
    ((sqlTry (.insertItem new)).bind f).Safe (handle env) (.solo Bound) Prog.Any w := by
  refine safe_bind_sqlTry (fun rid' hrid' => ?_) (fun i _ => safe_fetching (hf i) hrid)
    fun _ => trivial
  obtain rfl := Option.some.inj (hnew.symm.trans hrid')
  exact ⟨hrid, fun r hr hbound => absurd hbound (ItemTable.getByRemoteId_eq_none.mp hnone r hr)⟩

lemma safe_applyFolder {file : FileResource} {rel : RelPath} (hfile : file.id = rid)
    (hrid : Minted w.remote.drive rid) :
    (applyFolder rid file rel).Safe (handle env) (.solo Bound) Prog.Any w := by
  simp only [applyFolder, Prog.bind_eq, Prog.safe_bind]
  refine (safe_sql _).mpr fun h => ⟨h, ?_⟩
  cases hrow : w.db.items.getByRemoteId rid with
  | some existing =>
    simp only [DbCall.run, hrow]
    split
    · exact safe_unbinding (enqueueOp_unbinding (by decide))
    · trivial
  | none =>
    simp only [DbCall.run, hrow, Prog.safe_bind]
    refine (safe_sql _).mpr fun h => ⟨h, ?_⟩
    cases hrel : w.db.items.getByRelativePath rel with
    | some occupant =>
      simp only [DbCall.run, hrel]
      trivial
    | none =>
      simp only [DbCall.run, hrel]
      exact safe_insert (congrArg some hfile) hrid hrow fun i =>
        fetching_of_unbindings (enqueueOp_unbinding (by decide))

lemma safe_applyNative {file : FileResource} {rel : RelPath} (hfile : file.id = rid)
    (hrid : Minted w.remote.drive rid) :
    (applyNative rid file rel).Safe (handle env) (.solo Bound) Prog.Any w := by
  simp only [applyNative, Prog.bind_eq, Prog.safe_bind]
  refine (safe_sql _).mpr fun h => ⟨h, ?_⟩
  cases hrow : w.db.items.getByRemoteId rid with
  | some existing =>
    simp only [DbCall.run, hrow]
    split
    · exact safe_unbinding (enqueueOp_unbinding (by decide))
    · split
      · exact safe_unbinding (Prog.Only.bind ⟨rfl, fun _ => trivial⟩ fun _ =>
          enqueueOp_unbinding (by decide))
      · trivial
  | none =>
    simp only [DbCall.run, hrow]
    exact safe_insert (congrArg some hfile) hrid hrow fun i =>
      fetching_of_unbindings (enqueueOp_unbinding (by decide))

lemma safe_applyFile {change : RemoteChange} {file : FileResource} {md5 : String}
    (hfile : file.id = change.fileId) (hrid : Minted w.remote.drive change.fileId) :
    (applyFile env change file md5).Safe (handle env) (.solo Bound) Prog.Any w := by
  simp only [applyFile, Prog.bind_eq, Prog.safe_bind]
  refine (safe_sql _).mpr fun h => ⟨h, ?_⟩
  cases hrow : w.db.items.getByRemoteId change.fileId with
  | some item =>
    simp only [DbCall.run, hrow]
    split
    · exact safe_fetching (Prog.Only.bind ⟨rfl, fun _ => trivial⟩ fun _ =>
        enqueueDownload_fetching hfile) hrid
    · split
      · split
        · exact safe_fetching (applyMoved_fetching hfile) hrid
        · exact safe_fetching (applyEdited_fetching hfile) hrid
      · exact safe_fetching (applyEdited_fetching hfile) hrid
  | none =>
    simp only [DbCall.run, hrow, applyNewFile, Prog.bind_eq, Prog.safe_bind]
    refine (safe_sql _).mpr fun h => ⟨h, ?_⟩
    cases hrel : w.db.items.getByRelativePath (change.path file) with
    | some occupant =>
      simp only [DbCall.run, hrel]
      trivial
    | none =>
      simp only [DbCall.run, hrel]
      exact safe_insert (congrArg some hfile) hrid hrow fun i => enqueueDownload_fetching hfile

/-- **A change** binds a row only when no row is bound to its object. -/
lemma safe_applyRemote {change : RemoteChange} (h : Genuine w.remote.drive change) :
    (applyRemote env change).Safe (handle env) (.solo Bound) Prog.Any w := by
  refine (Prog.safe_call_solo _ _).mpr fun hI => ⟨hI, ?_⟩
  show Prog.Safe _ _ _ (if w.inFlight.contains change.fileId = true then _ else _) w
  split
  · trivial
  · split
    · refine safe_unbinding (Prog.Only.bind ⟨rfl, fun _ => trivial⟩ fun row => ?_)
      cases row with
      | none => trivial
      | some item => exact enqueueOp_unbinding (by decide)
    · cases hfile : change.file with
      | none => trivial
      | some file =>
        obtain ⟨hid, hrid⟩ := h file hfile
        simp only [applyPresent]
        split
        · refine safe_unbinding (Prog.Only.bind ⟨rfl, fun _ => trivial⟩ fun row => ?_)
          cases row with
          | none => trivial
          | some item =>
            simp only
            split
            · exact enqueueOp_unbinding (by decide)
            · trivial
        · split
          · exact safe_applyFolder hid hrid
          · split
            · exact safe_applyNative hid hrid
            · split
              · trivial
              · exact safe_applyFile hid hrid

/-- **A batch** of changes. -/
lemma safe_applyBatch {b : RemoteBatch} (h : ∀ c ∈ b.changes, Genuine w.remote.drive c) :
    (Consumer.applyBatch env b).Safe (handle env) (.solo Bound) Prog.Any w := by
  refine Prog.Safe.bind (P := Prog.Any) (Prog.Safe.foldM
    (fun _ w' => w.remote.drive.files.next ≤ w'.remote.drive.files.next) (Nat.le_refl _)
    (fun c hc allApplied w₁ hnext => ?_) fun _ _ _ => trivial) (fun all w₁ _ => ?_)
    fun _ _ _ => trivial
  · have hgen : Genuine w₁.remote.drive c := fun file hfile =>
      ⟨(h c hc file hfile).1, (h c hc file hfile).2.mono hnext⟩
    refine Prog.Safe.bind (P := fun _ w₂ => w₁.remote.drive.files.next ≤ w₂.remote.drive.files.next)
      (Prog.safe_attempt.mpr ((safe_next (safe_applyRemote hgen)).mono fun _ _ => And.left))
      (fun res w₂ hnext₂ => ?_) fun _ _ _ => trivial
    cases res <;> exact hnext.trans hnext₂
  · split
    · exact safe_unbinding ⟨rfl, fun _ => trivial⟩
    · trivial

end Changes

/-! ## Remote folders -/

/-- The folder that `ensure_remote_folder` finds under a name in a folder. -/
def foundFolder (d : Drive) (parent : FileId) (name : String) : Option DriveFile :=
  (d.children (d.resolve parent)).find? fun f => f.mimeType = folderMime && f.name = name

/-- The folders that the walk of `ensure_remote_folder` finds, with their paths; below the first
one that is missing, all are new. -/
def foundFolders (d : Drive) : FileId → RelPath → List String → List (RelPath × ℕ)
  | _, _, [] => []
  | current, cumulative, seg :: rest =>
    match foundFolder d current seg with
    | some f =>
      (cumulative ++ [seg], f.num) :: foundFolders d (.id f.num) (cumulative ++ [seg]) rest
    | none => []

/-- The folders are found at one path each, and bound to the row at this path, if to any. -/
def Unclaimed (items : ItemTable) (found : List (RelPath × ℕ)) : Prop :=
  ∀ e ∈ found, (∀ r ∈ items, r.remoteId = some (.id e.2) → r.relativePath = e.1) ∧
    ∀ e' ∈ found, e'.2 = e.2 → e'.1 = e.1

section Folders

variable {env : Env} {w : World} {d : Drive} {root current : FileId} {p cumulative : RelPath}
  {rid : FileId}

lemma mem_of_found {parent : FileId} {name : String} {f : DriveFile}
    (h : foundFolder d parent name = some f) : f ∈ d.files :=
  (List.mem_filter.mp (List.mem_of_find?_eq_some h)).1

lemma send_listChildren_drive {md5 : Bytes → String} {r : Remote} {parent : FileId} :
    (r.send md5 (.listChildren parent)).2.drive = r.drive := by
  rcases @Remote.send_drive _ md5 (.listChildren parent) r with h | h <;> exact h

/-- The folder of a name among the answers of a listing. -/
lemma find_listed {md5 : Bytes → String} {r : Remote} {parent : FileId} {name : String}
    {children : List FileResource} (h : (r.send md5 (.listChildren parent)).1 = .ok children) :
    (children.find? fun c => c.isFolder && c.name = name) =
      (foundFolder r.drive parent name).map (Drive.resource md5) := by
  obtain rfl := Except.ok.inj (Remote.send_ok h)
  rw [List.find?_map]
  rfl

/-- A new folder is empty. -/
lemma foundFolder_new {f : DriveFile} {d' : Drive} {m : ℕ} (hmade : Drive.Made d m f d')
    (hg : d.Grounded) (name : String) : foundFolder d' (.id f.num) name = none := by
  rw [foundFolder, List.find?_eq_none]
  intro g hgc
  obtain ⟨hmem, hin⟩ := List.mem_filter.mp hgc
  have hpar : f.num ∈ g.parents := by
    simpa [Drive.resolve] using (Bool.and_eq_true_iff.mp hin).1
  exfalso
  rcases (hmade.mem g).mp hmem with hold | rfl
  · have := hg g hold _ hpar
    rw [hmade.num] at this
    omega
  · rw [hmade.parents, List.mem_singleton] at hpar
    have := hmade.folder
    rw [← hpar, hmade.num] at this
    omega

/-- What is known about a folder of a path before its row is bound to it, and about the folders that
the walk will find below it. -/
structure Ready (w : World) (p : RelPath) (id : FileId) (rest : List String) : Prop where
  grounded : w.remote.drive.Grounded
  minted : Minted w.remote.drive id
  row : ∀ r ∈ w.db.items, r.remoteId = some id → r.relativePath = p
  below : Unclaimed w.db.items (foundFolders w.remote.drive id p rest)
  apart : ∀ e ∈ foundFolders w.remote.drive id p rest, .id e.2 = id → e.1 = p

/-- The folder of a name: what is found is bound to the row at its path, and what is made is bound
to no row. -/
lemma safe_childFolder {seg : String} {rest : List String} (hg : w.remote.drive.Grounded)
    (hfree : Unclaimed w.db.items (foundFolders w.remote.drive current cumulative (seg :: rest))) :
    (childFolder current seg).Safe (handle env) (.solo Bound) (fun x w' => ∀ id, x = .ok id →
      Ready w' (cumulative ++ [seg]) id rest) w := by
  refine Prog.safe_bind.mpr ((safe_request _).mpr fun h => ⟨bound_drive h, ?_⟩)
  set w₁ : World := { w with remote := (w.remote.send env.md5 (.listChildren current)).2 } with hw₁
  have hdrive : w₁.remote.drive = w.remote.drive := send_listChildren_drive
  cases hlist : (w.remote.send env.md5 (.listChildren current)).1 with
  | error e => exact nofun
  | ok children =>
    simp only [find_listed hlist]
    cases hfound : foundFolder w.remote.drive current seg with
    | some f =>
      rintro id ⟨⟩
      simp only [foundFolders, hfound] at hfree
      have hhead := hfree _ List.mem_cons_self
      refine ⟨hdrive ▸ hg, hdrive ▸ minted_of_mem (mem_of_found hfound), hhead.1, ?_, ?_⟩
      · rw [hdrive]
        exact fun e he => ⟨(hfree e (List.mem_cons_of_mem _ he)).1, fun e' he' =>
          (hfree e (List.mem_cons_of_mem _ he)).2 e' (List.mem_cons_of_mem _ he')⟩
      · rw [hdrive]
        exact fun e he hid => hhead.2 e (List.mem_cons_of_mem _ he) (FileId.id.inj hid)
    | none =>
      refine Prog.safe_bind.mpr ((safe_request _).mpr fun h₁ => ⟨bound_drive h₁, ?_⟩)
      cases hmake : (w₁.remote.send env.md5 (.createFolder current seg)).1 with
      | error e => exact nofun
      | ok created =>
        rintro id ⟨⟩
        obtain ⟨f, hid, hmade, -⟩ := Drive.made_of_createFolder hmake
        have hg₁ : w₁.remote.drive.Grounded := hdrive ▸ hg
        have hempty : foundFolders (w₁.remote.send env.md5 (.createFolder current seg)).2.drive
            created.id (cumulative ++ [seg]) rest = [] := by
          cases rest with
          | nil => rfl
          | cons seg' rest' => rw [hid, foundFolders, foundFolder_new hmade hg₁]
        refine ⟨hmade.grounded hg₁, ?_, fun r hr hbound => ?_, ?_, ?_⟩
        · rw [hid]
          exact minted_of_mem ((hmade.mem f).mpr (.inr rfl))
        · -- no row has the id of the new folder
          have := h.minted r hr _ hbound f.num hid
          rw [hmade.num, hdrive] at this
          exact absurd this (lt_irrefl _)
        · rw [hempty]
          exact nofun
        · rw [hempty]
          exact nofun

/-- Binding the row of a path keeps what is known about the folders below it. -/
lemma safe_persistDir {rest : List String} (h : Ready w p rid rest) :
    (persistDir p rid).Safe (handle env) (.solo Bound) (fun x w' => x = .ok () →
      w'.remote.drive.Grounded ∧
        Unclaimed w'.db.items (foundFolders w'.remote.drive rid p rest)) w := by
  have hafter : ∀ db' : Db, (∀ r ∈ db'.items, ∀ y, r.remoteId = some y →
      (r.relativePath = p ∧ y = rid) ∨ ∃ s ∈ w.db.items, s.remoteId = some y ∧
        s.relativePath = r.relativePath) →
      Unclaimed db'.items (foundFolders w.remote.drive rid p rest) := by
    intro db' hrows e he
    refine ⟨fun r hr hbound => ?_, (h.below e he).2⟩
    rcases hrows r hr _ hbound with ⟨hpath, hid⟩ | ⟨s, hs, hsid, hpath⟩
    · rw [hpath, h.apart e he hid]
    · rw [← hpath]
      exact (h.below e he).1 s hs hsid
  refine Prog.safe_bind.mpr ((safe_sql _).mpr fun hI => ⟨hI, ?_⟩)
  simp only [DbCall.run]
  cases hrow : w.db.items.getByRelativePath p with
  | some existing =>
    obtain ⟨hmem, hpath⟩ := ItemTable.getByRelativePath_eq_some.mp hrow
    simp only
    split
    · refine (safe_sql _).mpr fun hI => ⟨bound_db hI ⟨h.minted, fun r hr hbound => ?_⟩, fun _ =>
        ⟨h.grounded, hafter _ fun r hr y hy => ?_⟩⟩
      · rw [ItemTable.path_inj hr hmem ((h.row r hr hbound).trans hpath.symm)]
      · simp only [DbCall.run, Db.items_withItems, ItemTable.mem_modify] at hr
        rcases hr with ⟨hr, -⟩ | ⟨s, hs, hid, rfl⟩
        · exact .inr ⟨r, hr, hy, rfl⟩
        · rw [ItemTable.id_inj hs hmem hid]
          exact .inl ⟨hpath, (Option.some.inj hy).symm⟩
    · exact fun _ => ⟨h.grounded, h.below⟩
  | none =>
    refine safe_bind_sqlTry (fun rid' hrid' => ?_) (fun i hi _ => ⟨h.grounded, ?_⟩)
      fun _ h => by cases h
    · obtain rfl := Option.some.inj hrid'
      exact ⟨h.minted, h.row⟩
    · refine hafter _ fun r hr y hy => ?_
      simp only [DbCall.run] at hr
      rcases ((Db.insertItem_of_free hrow).2 r).mp hr with hr | rfl
      · exact .inr ⟨r, hr, hy, rfl⟩
      · exact .inl ⟨rfl, (Option.some.inj hy).symm⟩

lemma safe_ensureSegments {segments : List String} (hg : w.remote.drive.Grounded)
    (hfree : Unclaimed w.db.items (foundFolders w.remote.drive current cumulative segments)) :
    (ensureSegments current cumulative segments).Safe (handle env) (.solo Bound) Prog.Any w := by
  induction segments generalizing current cumulative w with
  | nil => trivial
  | cons seg rest ih =>
    refine Prog.Safe.bind (safe_childFolder hg hfree) (fun next w₁ hready => ?_) fun _ _ _ => trivial
    refine Prog.Safe.bind (safe_persistDir (hready next rfl)) (fun _ w₂ h₂ => ?_)
      fun _ _ _ => trivial
    exact ih (h₂ rfl).1 (h₂ rfl).2

/-- **The remote folder of a path** is bound to the rows at its paths, when what is found there is
bound to no other row. -/
lemma safe_ensureRemoteFolder {rel : RelPath} (hg : w.remote.drive.Grounded)
    (hfree : Unclaimed w.db.items (foundFolders w.remote.drive root [] rel)) :
    (ensureRemoteFolder root rel).Safe (handle env) (.solo Bound) Prog.Any w :=
  safe_ensureSegments hg hfree

end Folders

/-! ## Operations -/

/-- What an operation binds is bound to no other row: the folders on the way to its path, and what
it fetches. -/
def Spares (w : World) (root : FileId) (op : PendingOperation) (item : SyncItem) : Prop :=
  match op.op with
  | .upload => w.fs.isFile item.relativePath = true → item.remoteId = none →
    Unclaimed w.db.items (foundFolders w.remote.drive root [] item.relativePath.splitParent.1)
  | .download => ∀ dl, op.payload = some (.download dl) →
    ∀ r ∈ w.db.items, r.remoteId = some dl.remoteId → r.id = item.id
  | .createDirRemote =>
    Unclaimed w.db.items (foundFolders w.remote.drive root [] item.relativePath)
  | .renameRemote => item.remoteId ≠ none → ∀ p, op.payload = some (.rename p) →
    Unclaimed w.db.items (foundFolders w.remote.drive root [] p.newRelativePath.splitParent.1)
  | _ => True

section Operations

variable {env : Env} {w : World} {root rid : FileId} {item : SyncItem} {i : ItemId}

/-- The only row that may be bound to the id is that of `i`. -/
def OnlyRow (rid : FileId) (i : ItemId) (w : World) : Prop :=
  Minted w.remote.drive rid ∧ ∀ r ∈ w.db.items, r.remoteId = some rid → r.id = i

/-- A call that binds no row leaves the ids to their rows. -/
lemma OnlyRow.call {β : Type} {c : Call β} (hc : unbinding c = true) (h : OnlyRow rid i w) :
    OnlyRow rid i (handle env β c w).2 := by
  refine ⟨h.1.mono (next_le_handle c), fun r hr hrid => ?_⟩
  cases c with
  | db c =>
    rcases remoteId_cases hr hrid with ⟨s, hs, hid, hsid⟩ | ⟨new, hnew, hnewid, -⟩ | hbinds
    · rw [← hid]
      exact h.2 s hs hsid
    · cases c with
      | insertItem new' =>
        obtain rfl := Option.some.inj hnew
        simp [unbinding, hnewid] at hc
      | _ => cases hnew
    · cases c with
      | setRemoteId id rid' => cases hc
      | _ => cases hbinds
  | _ => exact h.2 r hr hrid

lemma OnlyRow.safe {α : Type} {p : Task α} (hp : p.Only fun _ c => unbinding c = true)
    (h : OnlyRow rid i w) :
    p.Safe (handle env) (.solo Bound) (fun _ w' => OnlyRow rid i w') w :=
  hp.safe (fun _ _ _ hc hI hJ => ⟨bound_call hI (free_of_unbinding hc), hJ.call hc⟩) h

/-- Binding the row. -/
lemma safe_setRemoteId (h : OnlyRow rid i w) :
    (sql (.setRemoteId i rid)).Safe (handle env) (.solo Bound) Prog.Any w :=
  (safe_sql _).mpr fun hI => ⟨bound_db hI h, trivial⟩

lemma readFile_unbinding (rel : RelPath) :
    (ioTry (.readFile rel)).Only fun _ c => unbinding c = true :=
  ⟨rfl, fun x => Prog.only_ofExcept x⟩

/-- A first upload answers an id that no row has. -/
lemma safe_upload {rel : RelPath} {parent : FileId} {name : String} :
    (Engine.upload rel parent name).Safe (handle env) (.solo Bound)
      (fun x w' => ∀ rf, x = .ok rf → OnlyRow rf.id i w') w := by
  refine Prog.Safe.bind (safe_unbinding (readFile_unbinding rel)) (fun content w₁ _ => ?_)
    fun _ _ _ => nofun
  refine (safe_request _).mpr fun h => ⟨bound_drive h, fun rf hrf => ?_⟩
  obtain ⟨f, hid, hmade⟩ := Drive.made_of_upload hrf
  refine ⟨?_, fun r hr hbound => ?_⟩
  · rw [hid]
    exact minted_of_mem ((hmade.mem f).mpr (.inr rfl))
  · have := h.minted r hr _ hbound f.num hid
    rw [hmade.num] at this
    exact absurd this (lt_irrefl _)

lemma withMark_unbinding {α : Type} {id : FileId} {body : Task α}
    (h : body.Only fun _ c => unbinding c = true) :
    (withMark id body).Only fun _ c => unbinding c = true :=
  Prog.Only.bind ⟨rfl, fun _ => trivial⟩ fun _ => Prog.Only.bind h.attempt fun x =>
    Prog.Only.bind ⟨rfl, fun _ => trivial⟩ fun _ => Prog.only_ofExcept x

/-- **Upload.** -/
lemma safe_executeUpload (hg : w.remote.drive.Grounded)
    (hspares : w.fs.isFile item.relativePath = true → item.remoteId = none →
      Unclaimed w.db.items (foundFolders w.remote.drive root [] item.relativePath.splitParent.1)) :
    (executeUpload env root item).Safe (handle env) (.solo Bound) Prog.Any w := by
  refine Prog.Safe.bind (P := fun x w' => w' = w ∧ x = .ok (w.fs.isFile item.relativePath))
    ((safe_io _).mpr fun hI => ⟨hI, rfl, rfl⟩) (fun isFile w₀ ⟨hw₀, hx⟩ => ?_) fun _ _ _ => trivial
  subst hw₀
  obtain rfl := Except.ok.inj hx
  split
  · next hfile =>
    refine Prog.Safe.bind (P := fun _ w' => w'.db = w₀.db ∧ w'.remote = w₀.remote) ?_
      (fun ⟨size, md5⟩ w₁ ⟨hdb, hremote⟩ => ?_) fun _ _ _ => trivial
    · refine Prog.safe_bind.mpr ((safe_ioTry _).mpr fun hI => ⟨hI, ?_⟩)
      cases (FsCall.run (.readFile item.relativePath) w₀.fs).1 <;> exact ⟨rfl, rfl⟩
    simp only
    split
    · trivial
    · cases hid : item.remoteId with
      | some rid =>
        exact safe_unbinding (withMark_unbinding (Prog.Only.bind (Prog.Only.bind
          (readFile_unbinding _) fun _ => ⟨rfl, fun x => Prog.only_ofExcept x⟩)
            fun _ => ⟨rfl, fun _ => trivial⟩))
      | none =>
        have hfree := hspares hfile hid
        rw [← hdb, ← hremote] at hfree
        refine Prog.Safe.bind (safe_ensureRemoteFolder (hremote ▸ hg) hfree)
          (fun parent w₂ _ => ?_) fun _ _ _ => trivial
        refine Prog.Safe.bind (safe_upload (i := item.id)) (fun rf w₃ honly => ?_) fun _ _ _ => trivial
        refine safe_withMark.mpr fun hI => ⟨⟨hI.unshared, hI.minted, hI.fetched⟩, ?_⟩
        refine Prog.Safe.mono (Q := Prog.Any) ?_ fun x w' _ hI =>
          ⟨⟨hI.unshared, hI.minted, hI.fetched⟩, trivial⟩
        refine Prog.Safe.bind (P := Prog.Any) (safe_setRemoteId (honly rf rfl)) (fun _ w₄ _ => ?_)
          fun _ _ _ => trivial
        exact safe_unbinding ⟨rfl, fun _ => trivial⟩
  · trivial

/-- **Download.** -/
lemma safe_executeDownload {payload : Option Payload}
    (hspares : ∀ dl, payload = some (.download dl) → OnlyRow dl.remoteId item.id w) :
    (executeDownload env item payload).Safe (handle env) (.solo Bound) Prog.Any w := by
  refine Prog.Safe.bind (P := fun x w' => w' = w ∧ x = decodePayload Payload.asDownload payload)
    ((Prog.safe_ofExcept _).mpr ⟨rfl, rfl⟩) (fun dl w₁ ⟨hw₁, hdl⟩ => ?_) fun _ _ _ => trivial
  subst hw₁
  have hpayload : payload = some (.download dl) := by
    cases payload with
    | none => cases hdl
    | some p =>
      cases p with
      | download dl' => rw [Except.ok.inj hdl]
      | _ => cases hdl
  have honly := hspares dl hpayload
  have hdir : (ioTry (.createDirAll dl.relativePath.parentDir)).Only
      fun _ c => unbinding c = true := ⟨rfl, fun x => Prog.only_ofExcept x⟩
  have hfetch : (Engine.download dl.remoteId dl.relativePath).Only
      fun _ c => unbinding c = true :=
    Prog.Only.bind ⟨rfl, fun x => Prog.only_ofExcept x⟩ fun body =>
      Prog.Only.bind ⟨rfl, fun x => Prog.only_ofExcept x⟩ fun _ =>
        ⟨rfl, fun x => Prog.only_ofExcept x⟩
  refine Prog.Safe.bind (honly.safe hdir) (fun _ w₂ h₂ => ?_) fun _ _ _ => trivial
  refine Prog.Safe.bind (h₂.safe hfetch) (fun _ w₃ h₃ => ?_) fun _ _ _ => trivial
  refine Prog.Safe.bind (h₃.safe (still_unbinding (computeLocal_still _)))
    (fun ⟨size, md5⟩ w₄ h₄ => ?_) fun _ _ _ => trivial
  refine Prog.Safe.bind (h₄.safe (p := sql (.updateFingerprint item.id (some size) (some md5)))
    ⟨rfl, fun _ => trivial⟩) (fun _ w₅ h₅ => ?_) fun _ _ _ => trivial
  split
  · exact safe_setRemoteId h₅
  · trivial

/-- **RenameRemote.** -/
lemma safe_executeRenameRemote {payload : Option Payload} (hg : w.remote.drive.Grounded)
    (hspares : item.remoteId ≠ none → ∀ p, payload = some (.rename p) →
      Unclaimed w.db.items (foundFolders w.remote.drive root [] p.newRelativePath.splitParent.1)) :
    (executeRenameRemote root item payload).Safe (handle env) (.solo Bound) Prog.Any w := by
  refine Prog.Safe.bind (P := fun x w' => w' = w ∧ x = decodePayload Payload.asRename payload)
    ((Prog.safe_ofExcept _).mpr ⟨rfl, rfl⟩) (fun p w₁ ⟨hw₁, hp⟩ => ?_) fun _ _ _ => trivial
  subst hw₁
  have hpayload := asRename_ok hp.symm
  cases hremote : item.remoteId with
  | none => exact safe_unbinding ⟨rfl, fun _ => trivial⟩
  | some rid =>
    refine Prog.Safe.bind (safe_ensureRemoteFolder hg (hspares (by simp [hremote]) p hpayload))
      (fun parent w₂ _ => ?_) fun _ _ _ => trivial
    refine safe_unbinding (withMark_unbinding (Prog.Only.bind ?_ fun _ => ?_))
    · exact Prog.Only.bind ⟨rfl, fun x => Prog.only_ofExcept x⟩ fun _ =>
        ⟨rfl, fun x => Prog.only_ofExcept x⟩
    · split <;> exact ⟨rfl, fun _ => trivial⟩

lemma executeRenameLocal_unbinding {payload : Option Payload} :
    (executeRenameLocal item payload).Only fun _ c => unbinding c = true := by
  have hmove : ∀ old new, (moveLocal old new).Only fun _ c => unbinding c = true := by
    intro old new
    refine Prog.Only.bind ⟨rfl, fun _ => trivial⟩ fun res => ?_
    split
    · trivial
    · split
      · trivial
      · split
        · exact ⟨rfl, fun x => Prog.only_ofExcept x⟩
        · trivial
  exact (Prog.only_ofExcept _).bind fun p => Prog.Only.bind ⟨rfl, fun x => Prog.only_ofExcept x⟩
    fun _ => (hmove _ _).bind fun _ => ⟨rfl, fun _ => trivial⟩

lemma unbinding_of_only {α : Type} {p : Task α} (hp : p.Only fun _ c => settled c = true) :
    p.Only fun _ c => unbinding c = true :=
  hp.mono fun _ _ hc => unbinding_of_harmless (harmless_of_settled hc)

/-- **An operation** that binds only what no other row is bound to. -/
lemma safe_executeItem {op : PendingOperation} (hbound : Bound w) (hg : w.remote.drive.Grounded)
    (hop : op ∈ w.db.ops) (hspares : Spares w root op item) :
    (executeItem env root op item).Safe (handle env) (.solo Bound) Prog.Any w := by
  unfold executeItem
  simp only [Spares] at hspares
  split <;> rename_i hkind <;> simp only [hkind] at hspares
  · exact safe_executeUpload hg hspares
  · exact safe_executeDownload fun dl hdl =>
      ⟨hbound.fetched op hop hkind dl hdl, hspares dl hdl⟩
  · exact safe_unbinding (unbinding_of_only executeDeleteRemote_settled)
  · exact safe_unbinding (unbinding_of_only executeDeleteLocal_settled)
  · exact Prog.Safe.bind (safe_ensureRemoteFolder hg hspares) (fun _ _ _ => trivial)
      fun _ _ _ => trivial
  · exact safe_unbinding (Prog.Only.bind ⟨rfl, fun x => Prog.only_ofExcept x⟩ fun _ =>
      ⟨rfl, fun _ => trivial⟩)
  · exact safe_unbinding ((Prog.only_ofExcept _).bind fun p => Prog.Only.bind
      ⟨rfl, fun x => Prog.only_ofExcept x⟩ fun _ => ⟨rfl, fun x => Prog.only_ofExcept x⟩)
  · exact safe_executeRenameRemote hg hspares
  · exact safe_unbinding executeRenameLocal_unbinding
  · trivial

/-- **The drain loop**, when the operation that is executed binds only what no other row is bound
to. -/
lemma safe_drain (hg : w.remote.drive.Grounded)
    (hspares : ∀ op item, Executes w op item → Spares w root op item) :
    (drainOne env root).Safe (handle env) (.solo Bound) Prog.Any w := by
  refine safe_drainOne (fun _ _ _ hc hI => bound_call hI
    (free_of_unbinding (unbinding_of_harmless (harmless_of_settled (settled_of_booking hc))))) fun op item hexec hI => ?_
  exact safe_executeItem hI hg (OpTable.nextDue_mem hexec.next).1 (hspares op item hexec)

end Operations

end AirDrive.Binding
