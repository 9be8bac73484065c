import AirDrive.Drive.Distinct
import AirDrive.System.InitialPlaces

set_option relaxedAutoImplicit false
set_option autoImplicit false

/-!
# One row for each object

`get_by_remote_id` takes for granted that no two rows are bound to one object. The rows of remote
changes and of uploads keep to that. The folders on the way to a path and the objects of an initial
pass are bound by path instead: an object that was renamed on Drive since it got its row gets a
second one there.

## Main definitions

* `AirDrive.OneRow.Treelike` — every object on Drive lies at one path.
* `AirDrive.OneRow.Settled` — the rows are at the paths of their objects.
* `AirDrive.OneRow.Fits` — the actions that bind only what no other row is bound to.
* `AirDrive.OneRow.OneRowEach` — what is claimed of the runs from the first start on.

## Main results

* `AirDrive.OneRow.safe_initial` — the initial pass, on such a Drive with such rows.
* `AirDrive.OneRow.one_row` — the claim holds of the runs of such actions.
* `AirDrive.OneRow.renamed_folder_bound_twice` — it fails when a folder was renamed on Drive and
  a local directory takes its new name.
-/

namespace AirDrive.OneRow

open Effect Dispatcher Binding InitialPlaces Outcomes

/-! ## The initial pass -/

/-- Every object on Drive lies at one path below the mapped folder. -/
structure Treelike (d : Drive) (root : FileId) : Prop where
  /-- No object lies in a folder that is still to be made. -/
  grounded : d.Grounded
  /-- The mapped folder was made. -/
  known : d.resolve root < d.files.next
  /-- It does not lie below itself. -/
  top : ∀ p, FolderAt d root p (d.resolve root) → p = []
  /-- The objects below it lie at one path each. -/
  objects : ∀ p q f, Lies d root p f → Lies d root q f → p = q

/-- A row whose object lies below the mapped folder is at the path of its object. -/
def Settled (d : Drive) (root : FileId) (items : ItemTable) : Prop :=
  ∀ r ∈ items, ∀ p f, Lies d root p f → r.remoteId = some (.id f.num) →
    r.relativePath = ownPath p f

/-- What the initial pass keeps. -/
structure Inv (root : FileId) (w : World) : Prop where
  bound : Bound w
  treelike : Treelike w.remote.drive root
  settled : Settled w.remote.drive root w.db.items

section Pass

variable {env : Env} {root : FileId} {w : World} {d d' : Drive} {m n : ℕ} {f : DriveFile}
  {p q : RelPath}

/-- A folder lies at one path. -/
lemma Treelike.folder_inj (h : Treelike d root) (hp : FolderAt d root p n)
    (hq : FolderAt d root q n) : p = q := by
  by_cases hp0 : p = []
  · rw [Drive.folderAt_nil hp hp0] at hq
    rw [hp0, h.top q hq]
  · by_cases hq0 : q = []
    · rw [Drive.folderAt_nil hq hq0] at hp
      exact absurd (h.top p hp) hp0
    · obtain ⟨f, hf, hnum, -⟩ := lies_of_folderAt hp hp0
      obtain ⟨g, hg, hnum', -⟩ := lies_of_folderAt hq hq0
      have hfg : f = g := d.files.key_inj hf.object.mem hg.object.mem (hnum.trans hnum'.symm)
      exact h.objects p q f hf (hfg ▸ hg)

/-- What lies at a path after an object was made. -/
lemma lies_of_made (hmade : Drive.Made d m f d') (h : Treelike d root) {g : DriveFile}
    (hg : Lies d' root p g) :
    Lies d root p g ∨ g = f ∧ FolderAt d root p.dropLast m ∧ f.name = p.getLastD "" := by
  rcases hmade.objectAt h.grounded hg.object with hold | hnew
  · exact .inl ⟨hg.below, hold⟩
  · exact .inr hnew

/-- Making an object keeps the others at one path each. -/
lemma Treelike.made (h : Treelike d root) (hmade : Drive.Made d m f d') : Treelike d' root := by
  have hout : ∀ p, ¬Lies d root p f := by
    intro p hf
    have := d.files.key_lt hf.object.mem
    rw [hmade.num] at this
    exact lt_irrefl _ this
  refine ⟨hmade.grounded h.grounded, ?_, fun p hp => ?_, fun p q g hp hq => ?_⟩
  · rw [hmade.resolve, hmade.next]
    exact h.known.trans (Nat.lt_succ_self _)
  · rw [hmade.resolve] at hp
    rcases hmade.folderAt h.grounded hp with hold | ⟨-, hnum, -⟩
    · exact h.top p hold
    · have := h.known
      rw [hnum, hmade.num] at this
      exact absurd this (lt_irrefl _)
  · rcases lies_of_made hmade h hp with hpold | ⟨rfl, hpm, hpname⟩
    · rcases lies_of_made hmade h hq with hqold | ⟨rfl, -, -⟩
      · exact h.objects p q g hpold hqold
      · exact absurd hpold (hout p)
    · rcases lies_of_made hmade h hq with hqold | ⟨-, hqm, hqname⟩
      · exact absurd hqold (hout q)
      · rw [← dropLast_append_getLastD hp.below, ← dropLast_append_getLastD hq.below, ← hpname,
          ← hqname, h.folder_inj hpm hqm]

/-- The row of an object stays at its path when another is made. -/
lemma Settled.made {items : ItemTable} (hsettled : Settled d root items) (h : Treelike d root)
    (hmade : Drive.Made d m f d')
    (hminted : ∀ r ∈ items, ∀ rid, r.remoteId = some rid → Minted d rid) :
    Settled d' root items := by
  intro r hr p g hg hrid
  rcases lies_of_made hmade h hg with hold | ⟨rfl, -, -⟩
  · exact hsettled r hr p g hold hrid
  · have := hminted r hr _ hrid g.num rfl
    rw [hmade.num] at this
    exact absurd this (lt_irrefl _)

/-- A call of the pass keeps the invariant. -/
lemma Inv.call {β : Type} {c : Call β} (hc : passing c = true) (h : Inv root w) :
    Inv root (handle env β c w).2 := by
  have hfree : Free w c := by
    cases c with
    | db c =>
      cases c with
      | getByRelativePath rel => trivial
      | setCursor token => trivial
      | _ => cases hc
    | _ => trivial
  have hbound : Bound (handle env β c w).2 := bound_call h.bound hfree
  cases c with
  | db c =>
    cases c with
    | getByRelativePath rel => exact ⟨hbound, h.treelike, h.settled⟩
    | setCursor token => exact ⟨hbound, h.treelike, h.settled⟩
    | _ => cases hc
  | fs c => exact ⟨hbound, h.treelike, h.settled⟩
  | drive c =>
    have htouches : c.touches = none := Option.isNone_iff_eq_none.mp hc
    have hsame : (w.remote.send env.md5 c).2.drive = w.remote.drive →
        Inv root (handle env _ (.drive c) w).2 := by
      intro hdrive
      refine ⟨hbound, ?_, ?_⟩
      · simpa [hdrive] using h.treelike
      · simpa [hdrive] using h.settled
    rcases @Remote.send_drive _ env.md5 c w.remote with hdrive | hrun
    · exact hsame hdrive
    · have hrun' : (c.run env.md5 w.remote.drive).2 = w.remote.drive ∨
          ∃ m f, Drive.Made w.remote.drive m f (c.run env.md5 w.remote.drive).2 :=
        Drive.made_of_untouching htouches
      rcases hrun' with hid | ⟨m, f, hmade⟩
      · exact hsame (hrun.trans hid)
      · rw [← hrun] at hmade
        exact ⟨hbound, h.treelike.made hmade,
          h.settled.made h.treelike hmade h.bound.minted⟩
  | _ => cases hc

/-- A row at the own path of its object keeps the invariant. -/
lemma Inv.insert {new : NewSyncItem} (hlies : Lies w.remote.drive root p f)
    (hid : new.remoteId = some (.id f.num)) (hpath : new.relativePath = ownPath p f)
    (h : Inv root w) : Inv root { w with db := (DbCall.run (.insertItem new) w.db).2 } := by
  refine ⟨bound_db h.bound fun rid hrid => ?_, h.treelike, fun r hr q g hg hrid => ?_⟩
  · obtain rfl := Option.some.inj (hid.symm.trans hrid)
    refine ⟨minted_of_mem hlies.object.mem, fun r hr hbound => ?_⟩
    rw [hpath]
    exact h.settled r hr p f hlies hbound
  · rcases DbCall.mem_items_run hr with ⟨s, hs, -, hchange⟩ | ⟨new', hnew, rfl⟩
    · obtain rfl : r = s := hchange
      exact h.settled r hs q g hg hrid
    · obtain rfl := Option.some.inj hnew
      have hnum : f.num = g.num := FileId.id.inj (Option.some.inj (hid.symm.trans hrid))
      have hfg : f = g := w.remote.drive.files.key_inj hlies.object.mem hg.object.mem hnum
      subst hfg
      rw [h.treelike.objects q p f hg hlies]
      exact hpath

/-- **The initial pass**, on a Drive on which every object lies at one path, with rows that are at
the paths of their objects. -/
lemma safe_initial {fuel : ℕ} (hbound : Bound w) (htree : Treelike w.remote.drive root)
    (hsettled : Settled w.remote.drive root w.db.items) :
    (Initial.initial env fuel root).Safe (handle env) (.solo Bound) Prog.Any w := by
  have hkeeps : Keeps env root (fun _ => True) (Inv root) :=
    ⟨fun hc h => h.call hc, fun hlies hid hpath _ h => h.insert hlies hid hpath⟩
  exact ((InitialPlaces.safe_initial hkeeps (fun _ _ => trivial) fun _ _ _ => trivial).of_inv (fun _ => Inv.bound)
    ⟨hbound, htree, hsettled⟩).mono fun _ _ _ => trivial

end Pass

/-! ## Runs -/

/-- What Drive and the poller can do: changes describe the objects that they are about, no object
lies in a folder that is still to be made, and no id is given out twice. -/
def Possible (w : World) : Action → Prop
  | .job (.batch b) _ => ∀ c ∈ b.changes, Genuine w.remote.drive c
  | .job (.drain _) _ => w.remote.drive.Grounded
  | .job _ _ => True
  | .outside w' => w.remote.drive.files.next ≤ w'.remote.drive.files.next

/-- The actions that bind only what no other row is bound to. -/
structure Fits (w : World) (a : Action) : Prop where
  /-- The action can happen. -/
  possible : Possible w a
  /-- What an operation binds is bound to no other row. -/
  spares : ∀ root calls, a = .job (.drain root) calls →
    ∀ op item, Executes w op item → Spares w root op item
  /-- The initial pass finds every object at one path, and the rows at the paths of their
  objects. -/
  settled : ∀ fuel root calls, a = .job (.initial fuel root) calls →
    Treelike w.remote.drive root ∧ Settled w.remote.drive root w.db.items

/-- **One row for each object**, in every state that is reached from the first start on by actions
that meet a condition. -/
def OneRowEach (env : Env) (meets : World → Action → Prop) : Prop :=
  ∀ w₀ w : World, w₀.db = Db.empty → Runs env meets w₀ w → Unshared w.db.items

section Runs

variable {env : Env} {w : World}

/-- **Every job** of such an action keeps the invariant. -/
lemma safe_task {j : Job} {calls : ℕ} (hbound : Bound w) (h : Fits w (.job j calls)) :
    (j.task env).Safe (handle env) (.solo Bound) Prog.Any w := by
  have hvoid : ∀ {α : Type} {q : Task α}, (q.Only fun _ c => Kinds.settled c = true) →
      (void q).Only fun _ c => unbinding c = true := fun hq =>
    unbinding_of_only (hq.bind fun _ => trivial)
  cases j with
  | event ev => exact safe_unbinding (applyLocal_unbinding ev)
  | batch b => exact safe_applyBatch h.possible
  | drain root =>
    exact Prog.Safe.bind (safe_drain h.possible (h.spares root calls rfl)) (fun _ _ _ => trivial)
      fun _ _ _ => trivial
  | poll fuel root cache => exact safe_unbinding (hvoid (KindSafety.tick_settled _ _ _))
  | scan => exact safe_unbinding startupLocalScan_unbinding
  | initial fuel root =>
    obtain ⟨htree, hsettled⟩ := h.settled fuel root calls rfl
    exact safe_initial hbound htree hsettled
  | housekeeping =>
    exact safe_unbinding (Prog.Only.bind ⟨rfl, fun _ => trivial⟩ fun _ => ⟨rfl, fun _ => trivial⟩)
  | ensureRoot mayCreate m =>
    exact safe_unbinding (hvoid (KindSafety.ensureRemoteRoot_settled _ _))
  | map autoCreate confirmed localPath spec =>
    exact safe_unbinding (unbinding_of_only (KindSafety.map_settled _ _ _ _))

/-- **No id is in two rows** while the actions bind only what no other row is bound to. -/
theorem one_row (env : Env) : OneRowEach env Fits := by
  intro w₀ w hempty h
  have hstart : Bound w₀ := by
    refine ⟨fun r hr => ?_, fun r hr => ?_, fun o ho => ?_⟩
    · rw [hempty] at hr
      exact absurd hr (ItemTable.not_mem_empty r)
    · rw [hempty] at hr
      exact absurd hr (ItemTable.not_mem_empty r)
    · rw [hempty] at ho
      exact absurd ho (Data.Serial.not_mem_empty o)
  have hbound : Bound w := h.invariant hstart (fun w j calls hI hok => safe_task hI hok)
    fun w w' hI hok => ⟨hI.unshared, fun r hr rid hrid => (hI.minted r hr rid hrid).mono hok.possible,
      fun o ho hop dl hdl => (hI.fetched o ho hop dl hdl).mono hok.possible⟩
  exact hbound.unshared

/-- The user makes the directory `e`, and the event is handled. -/
def madeDir (w : World) : List Action :=
  [.outside (byUser (.createDirAll ["e"]) w), .job (.event (.created ["e"])) 100]

/-- Another client renames the folder `d` to `e`. -/
def renamedOnDrive (w : World) : World :=
  { w with remote := ⟨(DriveCall.run Env.plain.md5 (.patchFile (.id 3) "e" none) w.remote.drive).2,
                      w.remote.faults⟩ }

/-- The batch and the two operations that bring `d` and `d/a.txt`. -/
def arrivals : List Action :=
  [.job KindSafety.arrival 100, .job (.drain (.id 2)) 100, .job (.drain (.id 2)) 100]

lemma grounded_of_rows {d : Drive}
    (h : ∀ f ∈ d.files.table.rows, ∀ n ∈ f.parents, n < d.files.next) : d.Grounded := h

lemma possible_arrival : Possible (World.fresh sampleNested) (.job KindSafety.arrival 100) := by
  intro c hc file hfile
  rcases List.mem_cons.mp hc with rfl | hc
  · obtain rfl := Option.some.inj hfile
    exact ⟨rfl, fun n hn => FileId.id.inj hn ▸ (by decide : 3 < 5)⟩
  · obtain rfl := List.mem_singleton.mp hc
    obtain rfl := Option.some.inj hfile
    exact ⟨rfl, fun n hn => FileId.id.inj hn ▸ (by decide : 4 < 5)⟩

/-- A new directory gets a folder of its own. -/
theorem new_dir_bound_once :
    Unshared (performAll .plain (arrivals ++ (madeDir sampleArrived ++ [.job (.drain (.id 2)) 100]))
      (World.fresh sampleNested)).db.items := by
  refine one_row .plain (World.fresh sampleNested) _ rfl (Runs.performAll .start ?_)
  refine ⟨⟨possible_arrival, nofun, nofun⟩, ⟨grounded_of_rows (by decide +kernel), ?_, nofun⟩,
    ⟨grounded_of_rows (by decide +kernel), ?_, nofun⟩, ⟨?_, nofun, nofun⟩, ⟨trivial, nofun, nofun⟩,
    ⟨grounded_of_rows (by decide +kernel), ?_, nofun⟩, trivial⟩
  · rintro root calls ⟨⟩ op item hexec
    obtain rfl := Option.some.inj ((rfl : OpTable.nextDue _ _ =
      some ⟨1, 1, .createDirLocal, none, 0, 0⟩).symm.trans hexec.next)
    trivial
  · rintro root calls ⟨⟩ op item hexec
    obtain rfl := Option.some.inj ((rfl : OpTable.nextDue _ _ =
      some ⟨2, 2, .download, some (.download ⟨.id 4, 1, "A", ["d", "a.txt"]⟩), 0, 0⟩).symm.trans
        hexec.next)
    have hid : item.id = 2 := (ItemTable.getById_eq_some.mp hexec.row).2
    rintro dl ⟨⟩
    rw [hid]
    exact (by decide +kernel : ∀ r ∈ (performAll .plain [.job KindSafety.arrival 100,
      .job (.drain (.id 2)) 100] (World.fresh sampleNested)).db.items.rows,
        r.remoteId = some (.id 4) → r.id = 2)
  · show 5 ≤ _
    decide +kernel
  · rintro root calls ⟨⟩ op item hexec
    obtain rfl := Option.some.inj ((rfl : OpTable.nextDue _ _ =
      some ⟨3, 3, .createDirRemote, none, 0, 0⟩).symm.trans hexec.next)
    have hitem := (rfl : ItemTable.getById _ 3 = some _).symm.trans hexec.row
    obtain rfl := Option.some.inj hitem
    have hnone : foundFolders (performAll .plain (madeDir sampleArrived) sampleArrived).remote.drive
        (.id 2) [] ["e"] = [] := by decide +kernel
    show Unclaimed _ (foundFolders (performAll .plain (madeDir sampleArrived)
      sampleArrived).remote.drive (.id 2) [] ["e"])
    rw [hnone]
    exact nofun

/-- A folder that was renamed on Drive is bound to the row of a new local directory too. -/
theorem renamed_folder_bound_twice : ¬OneRowEach .plain Possible := by
  intro h
  have hruns : Runs .plain Possible (World.fresh sampleNested) (performAll .plain (arrivals ++
      (.outside (renamedOnDrive sampleArrived) :: madeDir (renamedOnDrive sampleArrived) ++
        [.job (.drain (.id 2)) 100])) (World.fresh sampleNested)) := by
    refine Runs.performAll .start ⟨possible_arrival, grounded_of_rows (by decide +kernel),
      grounded_of_rows (by decide +kernel), ?_, ?_, trivial, grounded_of_rows (by decide +kernel),
      trivial⟩
    · show 5 ≤ _
      decide +kernel
    · show 5 ≤ _
      decide +kernel
  have hunshared := h _ _ rfl hruns
  have htwice : (performAll .plain (arrivals ++
      (.outside (renamedOnDrive sampleArrived) :: madeDir (renamedOnDrive sampleArrived) ++
        [.job (.drain (.id 2)) 100])) (World.fresh sampleNested)).db.items.rows.map
          (fun r => (r.id, r.remoteId)) = [(1, some (.id 3)), (2, some (.id 4)), (3, some (.id 3))] := by
    decide +kernel
  obtain ⟨r, hr, hrpair⟩ := List.mem_map.mp (htwice ▸ List.mem_cons_self)
  obtain ⟨s, hs, hspair⟩ := List.mem_map.mp
    (htwice ▸ List.mem_cons_of_mem _ (List.mem_cons_of_mem _ List.mem_cons_self))
  obtain ⟨hrid, hrbound⟩ := Prod.mk.inj hrpair
  obtain ⟨hsid, hsbound⟩ := Prod.mk.inj hspair
  have hsame := hunshared r hr s hs _ hrbound hsbound
  rw [hsame, hsid] at hrid
  exact absurd hrid (by decide)

end Runs

end AirDrive.OneRow
