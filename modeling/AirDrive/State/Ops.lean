import AirDrive.Error
import AirDrive.State.Items

set_option relaxedAutoImplicit false
set_option autoImplicit false

/-!
# The `pending_operation` queue

The atomic operations waiting for the dispatcher. A payload is a JSON object in the source; here
it is the typed record it encodes, and decoding one as another type is the same error as there.

## Main definitions

* `AirDrive.Operation`, `AirDrive.Payload`, `AirDrive.PendingOperation` — the queue's rows.
* `AirDrive.OpTable.nextDue` — the operation the dispatcher takes next.

## Main results

* `AirDrive.nextDue_mem`, `AirDrive.nextDue_le` — the next operation is queued and due, before
  all others.
* `AirDrive.nextDue_eq_none` — there is none exactly when nothing is due.
-/

namespace AirDrive

open Data

/-- `pending_operation.op`. -/
inductive Operation
  | upload
  | download
  | deleteLocal
  | deleteRemote
  | renameLocal
  | renameRemote
  | createDirLocal
  | createDirRemote
  | writeShortcut
  | markConflict
deriving DecidableEq, Repr

/-- `RenamePayload`: the item's new path. -/
structure RenamePayload where
  /-- New relative path. -/
  newRelativePath : RelPath
deriving DecidableEq, Repr

/-- `DeleteLocalPayload`: whether the row is kept as a tombstone. -/
structure DeleteLocalPayload where
  /-- Keep the row for a possible restore. -/
  tombstone : Bool
deriving DecidableEq, Repr

/-- `DownloadPayload`: where to fetch from and where to write to. -/
structure DownloadPayload where
  /-- Drive file id to download. -/
  remoteId : FileId
  /-- Expected size in bytes. -/
  size : ℕ
  /-- Expected hex md5. -/
  md5 : String
  /-- Destination path. -/
  relativePath : RelPath
deriving DecidableEq, Repr

/-- `ShortcutPayload`: the body of the pointer file. -/
structure ShortcutPayload where
  /-- File body. -/
  content : String
deriving DecidableEq, Repr

/-- The `payload` column. -/
inductive Payload
  | rename (p : RenamePayload)
  | deleteLocal (p : DeleteLocalPayload)
  | download (p : DownloadPayload)
  | shortcut (p : ShortcutPayload)
deriving DecidableEq, Repr

/-- `decode_payload`, for the payload type that `read` recognises. -/
def decodePayload {α : Type} (read : Payload → Option α) : Option Payload → Except Error α
  | none => .error (.mapping "op is missing its payload")
  | some p =>
    match read p with
    | some a => .ok a
    | none => .error (.mapping "malformed op payload")

/-- Read a `RenamePayload`. -/
def Payload.asRename : Payload → Option RenamePayload
  | .rename p => some p
  | _ => none

/-- Read a `DeleteLocalPayload`. -/
def Payload.asDeleteLocal : Payload → Option DeleteLocalPayload
  | .deleteLocal p => some p
  | _ => none

/-- Read a `DownloadPayload`. -/
def Payload.asDownload : Payload → Option DownloadPayload
  | .download p => some p
  | _ => none

/-- Read a `ShortcutPayload`. -/
def Payload.asShortcut : Payload → Option ShortcutPayload
  | .shortcut p => some p
  | _ => none

/-- `pending_operation.id`. -/
abbrev OpId := ℕ

/-- A `pending_operation` row. -/
structure PendingOperation where
  /-- Primary key. -/
  id : OpId
  /-- Item this operation acts on. -/
  syncItemId : ItemId
  /-- What to do. -/
  op : Operation
  /-- Payload of the operation. -/
  payload : Option Payload
  /-- Number of attempts made so far. -/
  attempts : ℕ
  /-- Earliest second at which the dispatcher may try again. -/
  nextAttemptAt : ℕ
deriving DecidableEq, Repr

/-- The `pending_operation` table. -/
abbrev OpTable := Serial PendingOperation.id

namespace OpTable

/-- The rows, in id order. -/
def rows (t : OpTable) : List PendingOperation := t.table.rows

/-- The earlier of two operations in the order of `next_due`: by due time, then by id. -/
def earlier (a b : PendingOperation) : PendingOperation :=
  if b.nextAttemptAt < a.nextAttemptAt ∨ (b.nextAttemptAt = a.nextAttemptAt ∧ b.id < a.id) then b
  else a

/-- The first operation of a list in the order of `next_due`. -/
def first : List PendingOperation → Option PendingOperation
  | [] => none
  | a :: l =>
    match first l with
    | none => some a
    | some b => some (earlier a b)

/-- `next_due`: among the operations due at `now`, the first by due time and id. -/
def nextDue (t : OpTable) (now : ℕ) : Option PendingOperation :=
  first (OpTable.rows t |>.filter fun o => o.nextAttemptAt ≤ now)

lemma first_mem {l : List PendingOperation} {o : PendingOperation} (h : first l = some o) :
    o ∈ l := by
  induction l generalizing o with
  | nil => simp [first] at h
  | cons a l ih =>
    simp only [first] at h
    cases hl : first l with
    | none =>
      rw [hl] at h
      simp_all
    | some b =>
      rw [hl] at h
      simp only [Option.some.injEq, earlier] at h
      split_ifs at h with hc
      · exact h ▸ List.mem_cons_of_mem _ (ih hl)
      · exact h ▸ List.mem_cons_self

lemma first_eq_none {l : List PendingOperation} : first l = none ↔ l = [] := by
  cases l with
  | nil => simp [first]
  | cons a l =>
    simp only [first]
    cases first l <;> simp

/-- The next operation is queued and due. -/
lemma nextDue_mem {t : OpTable} {now : ℕ} {o : PendingOperation} (h : nextDue t now = some o) :
    o ∈ t ∧ o.nextAttemptAt ≤ now := by
  obtain ⟨hmem, hdue⟩ := List.mem_filter.mp (first_mem h)
  exact ⟨hmem, by simpa using hdue⟩

/-- The first operation is due before all others, or has the smaller id. -/
lemma first_le {l : List PendingOperation} {o : PendingOperation} (h : first l = some o) :
    ∀ a ∈ l, o.nextAttemptAt < a.nextAttemptAt ∨
      (o.nextAttemptAt = a.nextAttemptAt ∧ o.id ≤ a.id) := by
  induction l generalizing o with
  | nil => simp [first] at h
  | cons x l ih =>
    simp only [first] at h
    cases hl : first l with
    | none =>
      rw [hl] at h
      obtain rfl := first_eq_none.mp hl
      obtain rfl : x = o := Option.some.inj h
      simp
    | some b =>
      rw [hl] at h
      simp only [Option.some.injEq, earlier] at h
      intro a ha
      rcases List.mem_cons.mp ha with rfl | ha
      · split_ifs at h with hc <;> subst h
        · exact hc.imp id (And.imp_right le_of_lt)
        · exact .inr ⟨rfl, le_rfl⟩
      · have hb := ih hl a ha
        split_ifs at h with hc <;> subst h
        · exact hb
        · obtain ⟨hle, hid⟩ := not_or.mp hc
          have hle' := not_lt.mp hle
          rcases hb with hb | ⟨hb, hba⟩
          · exact .inl (lt_of_le_of_lt hle' hb)
          · rcases hle'.lt_or_eq with hlt | heq
            · exact .inl (hlt.trans_eq hb)
            · exact .inr ⟨heq.trans hb, (not_lt.mp fun h => hid ⟨heq.symm, h⟩).trans hba⟩

/-- The next operation is the first one due. -/
lemma nextDue_le {t : OpTable} {now : ℕ} {o a : PendingOperation} (h : nextDue t now = some o)
    (ha : a ∈ t) (hdue : a.nextAttemptAt ≤ now) : o.nextAttemptAt < a.nextAttemptAt ∨
      (o.nextAttemptAt = a.nextAttemptAt ∧ o.id ≤ a.id) :=
  first_le h a (List.mem_filter.mpr ⟨ha, by simpa using hdue⟩)

/-- There is no next operation exactly when none is due. -/
lemma nextDue_eq_none {t : OpTable} {now : ℕ} :
    nextDue t now = none ↔ ∀ o ∈ t, now < o.nextAttemptAt := by
  simp only [nextDue, first_eq_none, List.filter_eq_nil_iff, decide_eq_true_eq, not_le]
  rfl

end OpTable

end AirDrive
