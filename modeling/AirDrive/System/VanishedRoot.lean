import AirDrive.Reconcile.Applied
import AirDrive.System.Drain
import AirDrive.System.Footprint

set_option relaxedAutoImplicit false
set_option autoImplicit false

/-!
# A local root that vanished

The disk with the watched folder is not mounted, and `start` makes an empty folder in its place.
The catch-up scan then finds every synced file missing. This file says for which states the scan
takes one of them for a deletion by the user.

## Main definitions

* `AirDrive.VanishedRoot.Restart` — a start that finds the local root missing and makes it.
* `AirDrive.VanishedRoot.NewDeletion` — a `DeleteRemote` was enqueued.
* `AirDrive.VanishedRoot.Condemned` — one of the probes of the scan finds an unchanged object.

## Main results

* `AirDrive.VanishedRoot.ends_scanRow` — what the scan does for one row.
* `AirDrive.VanishedRoot.vanished_root_spares_drive_iff` — nothing is deleted exactly when no
  probe finds an unchanged object.
-/

namespace AirDrive.VanishedRoot

open Effect Continuous StartupScan

/-- A start that finds the local root missing, makes it, and gets to the catch-up scan in `w'`. -/
def Restart (env : Env) (fuel : ℕ) (answers : Start.Answers) (mayCreate : Bool) (w : World)
    (p : Start.Prepared) (w' : World) : Prop :=
  ∃ tree w₁, Start.ensureLocalRoot mayCreate .missing = .ok tree ∧
    runTask env (Start.prepare env fuel answers) { w with fs := tree } = (.ok (some p), w₁) ∧
      w' = (runTask env Start.housekeeping w₁).2

/-- There is a `DeleteRemote` in `w'` that was not queued in `w`. -/
def NewDeletion (w w' : World) : Prop :=
  ∃ o ∈ w'.db.ops, o.op = .deleteRemote ∧ w.db.ops.next ≤ o.id

/-- The rows that the scan of an empty tree asks Drive about, in the order of the scan. -/
def asked (env : Env) (rows : List SyncItem) : List SyncItem :=
  rows.filter fun r => vanished env [] r && r.remoteId.isSome

/-- The object of a row still has the recorded digest. -/
def Unchanged (env : Env) (d : Drive) (r : SyncItem) : Prop :=
  ∃ rid f, r.remoteId = some rid ∧ d.file rid = some f ∧ (Drive.resource env.md5 f).md5 = r.md5

/-- The probe of one of the rows, sent in this order, is answered and finds an unchanged object. -/
def Condemned (env : Env) (d : Drive) : List (Option Fault) → List SyncItem → Prop
  | _, [] => False
  | faults, r :: rows =>
    (faults.headD none = none ∧ Unchanged env d r) ∨ Condemned env d faults.tail rows

variable {env : Env} {w w' w'' : World} {r : SyncItem}

/-! ## Before and after the scan -/

/-- A program that enqueues no `DeleteRemote` makes no new one. -/
lemma ends_of_within {α : Type} {p : Task α} {S : Effort → Prop} (h : Within S p)
    (hS : ∀ op, S (.enqueue op) → op ≠ .deleteRemote) (hw : ¬NewDeletion w w') :
    Ends env (fun _ s => ¬NewDeletion w s) p w' := by
  refine (h.ops w').mono fun _ s hops => ?_
  rintro ⟨o, ho, hop, hid⟩
  rcases hops o ho with ⟨o', ho', hsame⟩ | ⟨-, hnew⟩
  · exact hw ⟨o', ho', hsame.2.2.1.trans hop, hsame.1 ▸ hid⟩
  · exact hS _ hnew hop

/-- Nothing is new at first. -/
lemma not_newDeletion_self (w : World) : ¬NewDeletion w w := by
  rintro ⟨o, ho, -, hid⟩
  exact absurd (w.db.ops.key_lt ho) (Nat.not_lt.mpr hid)

/-- A drain makes no new deletion. -/
lemma not_newDeletion_of_drains {root : FileId} (h : ¬NewDeletion w w')
    (hdrain : Drains env root w' w'') : ¬NewDeletion w w'' := by
  induction hdrain with
  | refl => exact h
  | tail _ hstep ih =>
    cases hstep with
    | drain =>
      exact (ends_of_within (S := fun e => e = .attempt) (within_drainOne rfl) (by simp) ih).run
    | wait now faults jitters later => exact ih

/-- The start up to the scan makes no new deletion, and the counter of the queue does not go
back. -/
lemma not_newDeletion_of_restart {fuel : ℕ} {answers : Start.Answers} {mayCreate : Bool}
    {p : Start.Prepared} (h : Restart env fuel answers mayCreate w p w') :
    ¬NewDeletion w w' ∧ w.db.ops.next ≤ w'.db.ops.next := by
  obtain ⟨tree, w₁, -, hprepare, rfl⟩ := h
  have hnext : w.db.ops.next ≤ w₁.db.ops.next := by
    have hrun := (ends_nextOp_le env (Start.prepare env fuel answers)
      { w with fs := tree }).run
    rw [hprepare] at hrun
    exact hrun
  refine ⟨?_, hnext.trans (ends_nextOp_le env _ w₁).run⟩
  have h₁ : ¬NewDeletion w w₁ := by
    have hends : Ends env (fun _ s => ¬NewDeletion w s) (Start.prepare env fuel answers)
        { w with fs := tree } :=
      ends_of_within (S := fun e => e = .cursor) (within_prepare rfl) (by simp)
        (not_newDeletion_self w)
    have hrun := hends.run
    rw [hprepare] at hrun
    exact hrun
  exact (ends_of_within (S := fun _ => False) within_housekeeping (by simp) h₁).run

/-! ## The scan of an empty tree -/

/-- The queue has only grown, and neither the rows nor the objects on Drive changed. -/
structure Grown (w w' : World) : Prop where
  items : w'.db.items = w.db.items
  drive : w'.remote.drive = w.remote.drive
  next : w.db.ops.next ≤ w'.db.ops.next
  kept : ∀ o ∈ w.db.ops, o ∈ w'.db.ops
  new : ∀ o ∈ w'.db.ops, o ∈ w.db.ops ∨ w.db.ops.next ≤ o.id

lemma Grown.refl (w : World) : Grown w w :=
  ⟨rfl, rfl, Nat.le_refl _, fun _ ho => ho, fun _ ho => .inl ho⟩

lemma Grown.trans (h : Grown w w') (h' : Grown w' w'') : Grown w w'' := by
  refine ⟨h'.items.trans h.items, h'.drive.trans h.drive, h.next.trans h'.next,
    fun o ho => h'.kept o (h.kept o ho), fun o ho => ?_⟩
  rcases h'.new o ho with ho | hid
  · exact h.new o ho
  · exact .inr (h.next.trans hid)

/-- A deletion is new over two stretches when it is new in one of them. -/
lemma Grown.newDeletion_iff (h : Grown w w') (h' : Grown w' w'') :
    NewDeletion w w'' ↔ NewDeletion w w' ∨ NewDeletion w' w'' := by
  constructor
  · rintro ⟨o, ho, hop, hid⟩
    rcases h'.new o ho with ho' | hid'
    · exact .inl ⟨o, ho', hop, hid⟩
    · exact .inr ⟨o, ho, hop, hid'⟩
  · rintro (⟨o, ho, hop, hid⟩ | ⟨o, ho, hop, hid⟩)
    · exact ⟨o, h'.kept o ho, hop, hid⟩
    · exact ⟨o, ho, hop, h.next.trans hid⟩

/-- Queueing an operation lets the queue grow. -/
lemma grown_of_nextOp {item : ItemId} {op : Operation} {payload : Option Payload}
    (h : Noted w w') (hops : ∀ o, o ∈ w'.db.ops ↔ o ∈ w.db.ops ∨ o = nextOp w item op payload) :
    Grown w w' := by
  have hnew := w'.db.ops.key_lt ((hops _).mpr (.inr rfl))
  refine ⟨h.items, by rw [h.remote], Nat.le_of_lt hnew, fun o ho => (hops o).mpr (.inl ho),
    fun o ho => ?_⟩
  rcases (hops o).mp ho with ho | rfl
  · exact .inl ho
  · exact .inr (Nat.le_refl _)

/-- **One row of the scan**: it is asked about when it is a live file with a Drive id, and its
deletion is queued exactly when the answer comes and has the recorded digest. -/
lemma ends_scanRow (hr : r ∈ w.db.items) :
    Ends env (fun x w' => x = .ok () ∧ Grown w w' ∧
      (if vanished env [] r && r.remoteId.isSome then
        w'.remote.faults = w.remote.faults.tail ∧ (NewDeletion w w' ↔
          w.remote.faults.headD none = none ∧ Unchanged env w.remote.drive r)
      else w'.remote.faults = w.remote.faults ∧ ¬NewDeletion w w')) (scanRow env [] r) w := by
  have hidle : Grown w w ∧ w.remote.faults = w.remote.faults ∧ ¬NewDeletion w w :=
    ⟨.refl w, rfl, not_newDeletion_self w⟩
  unfold scanRow
  cases hgone : vanished env [] r with
  | false =>
    simp only [Bool.false_and, Bool.false_eq_true, if_false]
    exact ⟨rfl, hidle⟩
  | true =>
    cases hremote : r.remoteId with
    | none =>
      simp only [if_true, remoteMatchesSynced, hremote, Option.isSome_none, Bool.and_false,
        Bool.false_eq_true, if_false, Prog.pure_eq, Prog.bind_eq, Prog.pure_bind]
      exact ⟨rfl, hidle⟩
    | some rid =>
      simp only [if_true, remoteMatchesSynced, hremote, Option.isSome_some, Bool.and_true,
        Prog.bind_eq, Ends, Prog.safe_bind, Prog.safe_attempt, safe_request, true_and, forall_const,
        Remote.send_getFile]
      have hasked : Grown w { w with remote := ⟨w.remote.drive, w.remote.faults.tail⟩ } :=
        ⟨rfl, rfl, Nat.le_refl _, fun _ ho => ho, fun _ ho => .inl ho⟩
      have hquiet : ¬NewDeletion w { w with remote := ⟨w.remote.drive, w.remote.faults.tail⟩ } :=
        not_newDeletion_self w
      cases hanswer : (w.remote.send env.md5 (.getFile rid)).1 with
      | error e =>
        simp only [Prog.pure_eq, Prog.safe_pure, Bool.false_eq_true, if_false]
        refine ⟨trivial, hasked, trivial, iff_of_false hquiet ?_⟩
        rintro ⟨hhead, rid', f, hrid, hfile, -⟩
        obtain rfl := Option.some.inj (hremote.symm.trans hrid)
        have hok := (@Remote.send_getFile_eq_ok env.md5 w.remote rid _).mpr ⟨hhead, f, hfile, rfl⟩
        rw [hanswer] at hok
        cases hok
      | ok v =>
        obtain ⟨hhead, f, hfile, rfl⟩ := Remote.send_getFile_eq_ok.mp hanswer
        have hunchanged : Unchanged env w.remote.drive r ↔
            (Drive.resource env.md5 f).md5 = r.md5 := by
          constructor
          · rintro ⟨rid', f', hrid, hfile', hsame⟩
            obtain rfl := Option.some.inj (hremote.symm.trans hrid)
            obtain rfl := Option.some.inj (hfile.symm.trans hfile')
            exact hsame
          · exact fun hsame => ⟨rid, f, hremote, hfile, hsame⟩
        simp only [Prog.pure_eq, Prog.safe_pure, decide_eq_true_eq]
        split_ifs with hsame
        · have hlive : r.trashedAt = none := by
            simp only [vanished, Bool.and_eq_true, decide_eq_true_eq] at hgone
            exact hgone.1.1.2
          have hrow := ItemTable.getByRelativePath_eq_some.mpr ⟨hr, rfl⟩
          refine (ends_applyDeleted (w := { w with
            remote := ⟨w.remote.drive, w.remote.faults.tail⟩ }) hrow hlive (by simp [hremote])).mono
            fun x w' h => ⟨h.1, hasked.trans (grown_of_nextOp h.2.1 h.2.2), ?_, ?_⟩
          · rw [h.2.1.remote]
          · refine iff_of_true ⟨_, (h.2.2 _).mpr (.inr rfl), rfl, Nat.le_refl _⟩ ⟨hhead, ?_⟩
            exact hunchanged.mpr hsame
        · exact ⟨rfl, hasked, rfl, iff_of_false hquiet fun h => hsame (hunchanged.mp h.2)⟩

/-- **The rows of the scan**: one of them is deleted on Drive exactly when its probe is answered
and finds an unchanged object.

**Proof sketch.** Induction on the rows: each of them uses up one entry of the connection's fate if
it is asked about, and leaves the rows and the objects as they are. -/
lemma ends_scanRows {rows : List SyncItem} (hrows : ∀ r ∈ rows, r ∈ w.db.items) :
    Ends env (fun _ w' => Grown w w' ∧ (NewDeletion w w' ↔
      Condemned env w.remote.drive w.remote.faults (asked env rows)))
      (Prog.forEach rows (scanRow env [])) w := by
  induction rows generalizing w with
  | nil => exact ⟨.refl w, iff_of_false (not_newDeletion_self w) id⟩
  | cons r rows ih =>
    refine Prog.Safe.bind (ends_scanRow (hrows r (by simp))) (fun _ w₁ ⟨_, hgrown, hr⟩ => ?_)
      fun e w₁ ⟨he, _⟩ => by cases he
    refine (ih fun s hs => ?_).mono fun x w' ⟨hgrown', hrest⟩ => ⟨hgrown.trans hgrown', ?_⟩
    · rw [hgrown.items]
      exact hrows s (by simp [hs])
    · rw [hgrown.newDeletion_iff hgrown', hrest, hgrown.drive]
      split_ifs at hr with hask
      · rw [hr.1, hr.2, show asked env (r :: rows) = r :: asked env rows from
          List.filter_cons_of_pos hask]
        rfl
      · rw [hr.1, show asked env (r :: rows) = asked env rows from List.filter_cons_of_neg hask]
        exact or_iff_right hr.2

/-- The scan of an empty tree. -/
lemma ends_startupLocalScan (env : Env) (hfs : w.fs = Fs.empty) :
    Ends env (fun _ w' => Grown w w' ∧ (NewDeletion w w' ↔
      Condemned env w.remote.drive w.remote.faults (asked env w.db.items.listForMapping)))
      (startupLocalScan env) w := by
  have hwalk : (FsCall.run (.walk []) w.fs).1 = [] := by
    rw [hfs]
    decide
  have hkeep : (FsCall.run (.walk []) w.fs).2 = w.fs := rfl
  simp only [startupLocalScan, Ends, Prog.bind_eq, Prog.safe_bind (p := io _), safe_io, hwalk, hkeep,
    true_and, forall_const, Prog.forEach_nil, Prog.pure_bind]
  rw [Prog.safe_bind, safe_sql]
  exact fun _ => ⟨trivial, ends_scanRows fun r hr => ItemTable.mem_listForMapping.mp hr⟩

/-! ## The start -/

/-- Calls that leave the local tree alone. -/
def Offline : ∀ β, Call β → Prop
  | _, .fs _ => False
  | _, _ => True

lemma offline_resolvePath {autoCreate : Bool} {segments : List String} :
    (resolvePath autoCreate (.path segments)).Only Offline := by
  show (resolveSegments autoCreate .rootAlias (belowMyDrive segments)).Only Offline
  generalize FileId.rootAlias = current
  generalize belowMyDrive segments = segments
  have hrequest : ∀ {α : Type} (c : DriveCall α), (request c).Only Offline := fun c =>
    ⟨trivial, fun _ => by simp⟩
  induction segments generalizing current with
  | nil => trivial
  | cons seg rest ih =>
    refine (hrequest _).bind fun children => ?_
    split
    · exact ih _
    · split
      · exact (hrequest _).bind fun _ => ih _
      · trivial

/-- The probe of the remote root leaves the local tree alone. -/
lemma offline_ensureRemoteRoot {mayCreate : Bool} {m : FolderMapping} :
    (Start.ensureRemoteRoot mayCreate m).Only Offline := by
  have hrecreate : (Start.recreateRoot mayCreate m).Only Offline := by
    unfold Start.recreateRoot
    split
    · trivial
    · trivial
    · split
      · exact offline_resolvePath.bind fun _ => ⟨trivial, fun _ => trivial⟩
      · trivial
  have hrequest : (request (.getFile m.remoteFolderId)).Only Offline := ⟨trivial, fun _ => by simp⟩
  refine hrequest.attempt.bind fun res => ?_
  split
  · split
    · exact hrecreate
    · trivial
  · exact hrecreate
  · trivial

/-- A start that does not run the initial reconciliation leaves the local tree alone. -/
lemma ends_prepare (env : Env) (fuel : ℕ) (answers : Start.Answers) (w : World) :
    Ends env (fun x w' => ∀ p, x = .ok (some p) → p.didInitial = false → w'.fs = w.fs)
      (Start.prepare env fuel answers) w := by
  simp only [Start.prepare, Ends, Prog.bind_eq]
  rw [Prog.safe_bind, safe_sql]
  refine fun _ => ⟨trivial, ?_⟩
  simp only [DbCall.run]
  cases w.db.mapping with
  | none => exact fun p hp => by cases hp
  | some m =>
    simp only
    rw [Prog.safe_bind, safe_sql]
    refine fun _ => ⟨trivial, ?_⟩
    simp only
    have hend : ∀ (root : FileId) (b : Bool) (w₁ : World), (b = false → w₁.fs = w.fs) → Ends env
        (fun x w' => ∀ p, x = .ok (some p) → p.didInitial = false → w'.fs = w.fs)
        ((sql .getCursor).bind fun after => if after = none then
          .fail (.mapping "drive_change_cursor missing after initial-sync")
        else .pure (some (⟨root, b⟩ : Start.Prepared))) w₁ := by
      intro root b w₁ hfs
      rw [Ends, Prog.safe_bind, safe_sql]
      refine fun _ => ⟨trivial, ?_⟩
      simp only
      split
      · exact fun p hp => by cases hp
      · intro p hp hfalse
        obtain rfl := Option.some.inj (Except.ok.inj hp)
        exact hfs hfalse
    split
    · exact fun p hp => by cases hp
    · refine Prog.Safe.bind (offline_ensureRemoteRoot.safe (J := fun s => s.fs = w.fs)
        (fun β c s hc _ hs => ⟨trivial, ?_⟩) rfl) (fun root w₁ hfs => ?_)
        fun e w₁ _ p hp => by cases hp
      · cases c with
        | fs c => exact hc.elim
        | _ => exact hs
      · split
        · next hnone =>
          refine (ends_any _ w₁).bind (fun _ w₂ _ => hend root _ w₂ fun hfalse => ?_)
            fun e w₂ _ p hp => by cases hp
          simp [hnone] at hfalse
        · exact hend root _ w₁ fun _ => hfs

/-- The scan of a restart sees the empty tree that was just made. -/
lemma fs_of_restart {fuel : ℕ} {answers : Start.Answers} {mayCreate : Bool} {p : Start.Prepared}
    (h : Restart env fuel answers mayCreate w p w') (hscan : p.didInitial = false) :
    w'.fs = Fs.empty := by
  obtain ⟨tree, w₁, htree, hprepare, rfl⟩ := h
  have hempty : tree = Fs.empty := by
    cases mayCreate with
    | false => cases htree
    | true => exact (Except.ok.inj htree).symm
  have hkeep := (ends_prepare env fuel answers { w with fs := tree }).run
  rw [hprepare] at hkeep
  exact (hkeep p rfl hscan).trans hempty

/-- **A vanished root leaves Drive alone** exactly when the start runs the initial reconciliation,
or none of the scan's probes is answered and finds an unchanged object.

**Proof sketch.** Neither the start up to the scan nor a drain makes a new deletion. The scan of the
empty tree asks about every live file row and queues a deletion for each confirmed one
(`ends_startupLocalScan`). -/
theorem vanished_root_spares_drive_iff {fuel : ℕ} {answers : Start.Answers} {mayCreate : Bool}
    {p : Start.Prepared} (h : Restart env fuel answers mayCreate w p w') :
    (∀ s, Drains env p.root (runTask env (Start.catchUp env p) w').2 s → ¬NewDeletion w s) ↔
      p.didInitial = true ∨ ¬Condemned env w'.remote.drive w'.remote.faults
        (asked env w'.db.items.listForMapping) := by
  obtain ⟨hbefore, hnext⟩ := not_newDeletion_of_restart h
  cases hscan : p.didInitial with
  | true =>
    have hcatch : (runTask env (Start.catchUp env p) w').2 = w' := by simp [Start.catchUp, hscan]
    rw [hcatch]
    exact iff_of_true (fun s hdrain => not_newDeletion_of_drains hbefore hdrain) (.inl rfl)
  | false =>
    have hcatch : (runTask env (Start.catchUp env p) w').2 =
        (runTask env (startupLocalScan env) w').2 := by
      simp [Start.catchUp, hscan, runTask, Prog.run_bind, Prog.run_attempt]
    obtain ⟨hgrown, hscanned⟩ := (ends_startupLocalScan env (fs_of_restart h hscan)).run
    rw [hcatch, ← hscanned, or_iff_right (by simp)]
    constructor
    · rintro hall ⟨o, ho, hop, hid⟩
      exact hall _ .refl ⟨o, ho, hop, hnext.trans hid⟩
    · refine fun hnew s hdrain => not_newDeletion_of_drains ?_ hdrain
      rintro ⟨o, ho, hop, hid⟩
      rcases hgrown.new o ho with ho' | hid'
      · exact hbefore ⟨o, ho', hop, hid⟩
      · exact hnew ⟨o, ho, hop, hid'⟩

/-! ## One file -/

/-- The folder is mapped, and the first start brings `a.txt`. -/
def firstStart : List Action :=
  [.job (.map false false "/home/user/Sync" (.path ["Sync"])) 100, .job (.initial 10 (.id 2)) 100]

/-- The state after it, with a connection on which some of the next requests fail. -/
def started (faults : List (Option Fault)) : World :=
  { performAll .plain firstStart (World.fresh (sampleDrive [65])) with
    remote := ⟨sampleDrive [65], faults⟩ }

/-- What the next start makes of the missing folder before its scan. -/
def remounted (faults : List (Option Fault)) : World :=
  (runTask .plain Start.housekeeping
    (runTask .plain (Start.prepare .plain 10 ⟨true, true⟩)
      { started faults with fs := Fs.empty }).2).2

/-- The start after the folder vanished takes the missing `a.txt` for a deletion, and its drain
trashes the file on Drive. -/
theorem vanished_root_trashes_file :
    Runs .plain (fun _ _ => True) (World.fresh (sampleDrive [65])) (started []) ∧
      (started []).db.items.rows.map (·.state) = [.synced] ∧
      Restart .plain 10 ⟨true, true⟩ true (started []) ⟨.id 2, false⟩ (remounted []) ∧
      NewDeletion (started [])
        (runTask .plain (Start.catchUp .plain ⟨.id 2, false⟩) (remounted [])).2 ∧
      ((runTask .plain (Dispatcher.drainOne .plain (.id 2))
        (runTask .plain (Start.catchUp .plain ⟨.id 2, false⟩) (remounted [])).2).2.remote.drive.files.get
          3).map (·.trashed) = some true := by
  have hfirst : Runs .plain (fun _ _ => True) (World.fresh (sampleDrive [65]))
      (performAll .plain firstStart (World.fresh (sampleDrive [65]))) :=
    Runs.start.performAll ⟨trivial, trivial, trivial⟩
  have hrun : Runs .plain (fun _ _ => True) (World.fresh (sampleDrive [65])) (started []) :=
    hfirst.step (a := .outside (started [])) trivial
  refine ⟨hrun, by decide, ⟨Fs.empty, _, rfl, Prod.ext (by decide) rfl, rfl⟩, ?_, by decide⟩
  refine ⟨⟨1, 1, .deleteRemote, none, 0, 0⟩, ?_, rfl, by decide⟩
  rw [Data.Serial.mem_def]
  decide

/-- When no request of the scan goes through, the file on Drive is spared. -/
theorem offline_restart_spares_file :
    asked .plain (remounted [none, some (.failed (.drive "offline"))]).db.items.listForMapping =
        [⟨1, ["a.txt"], .file, some (.id 3), some 1, some "A", .synced, none⟩] ∧
      ∀ s, Drains .plain (.id 2) (runTask .plain (Start.catchUp .plain ⟨.id 2, false⟩)
          (remounted [none, some (.failed (.drive "offline"))])).2 s →
        ¬NewDeletion (started [none, some (.failed (.drive "offline"))]) s := by
  have hasked : asked .plain
      (remounted [none, some (.failed (.drive "offline"))]).db.items.listForMapping =
        [⟨1, ["a.txt"], .file, some (.id 3), some 1, some "A", .synced, none⟩] := by decide
  have hrestart : Restart .plain 10 ⟨true, true⟩ true
      (started [none, some (.failed (.drive "offline"))]) ⟨.id 2, false⟩
      (remounted [none, some (.failed (.drive "offline"))]) :=
    ⟨Fs.empty, _, rfl, Prod.ext (by decide) rfl, rfl⟩
  refine ⟨hasked, (vanished_root_spares_drive_iff hrestart).mpr (.inr ?_)⟩
  rw [hasked]
  rintro (⟨hhead, -⟩ | hrest)
  · have hfault : (remounted [none, some (.failed (.drive "offline"))]).remote.faults.headD none =
        some (.failed (.drive "offline")) := by decide
    rw [hfault] at hhead
    cases hhead
  · exact hrest

end AirDrive.VanishedRoot
