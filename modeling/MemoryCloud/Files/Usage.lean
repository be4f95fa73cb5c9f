import Mathlib.Algebra.GroupWithZero.Nat
import Mathlib.Algebra.BigOperators.Group.List.Basic
import MemoryCloud.Files.Invariant
import MemoryCloud.Shared.Runs

set_option autoImplicit false

/-!
# The storage counter of a workspace

`workspace_storage_usage` beside the registry. Every transaction that adds or
removes uploaded rows upserts the counter in the same commit, by the rows as it
has read them; the upsert floors the counter at zero.
-/

namespace MemoryCloud.Files

section Model

structure Usage where
  usedBytes : Nat
  fileCount : Nat
  deriving DecidableEq, Repr

structure Delta where
  bytes : Int
  files : Int
  deriving DecidableEq, Repr

def upsertWorkspaceUsage (stored : Option Usage) (delta : Delta) : Usage :=
  match stored with
  | none => { usedBytes := (max delta.bytes 0).toNat, fileCount := (max delta.files 0).toNat }
  | some usage =>
    { usedBytes := (max 0 (usage.usedBytes + delta.bytes)).toNat
      fileCount := (max 0 (usage.fileCount + delta.files)).toNat }

inductive Charge
  | none
  | add (rows : List FileObject)
  | remove (rows : List FileObject)

def billed (rows : List FileObject) (workspaceId : WorkspaceId) : List FileObject :=
  rows.filter fun row => row.workspaceId = workspaceId ∧ row.status = .uploaded

def usageDelta (rows : List FileObject) (sign : Int) (workspaceId : WorkspaceId) : Option Delta :=
  let mine := billed rows workspaceId
  if mine = [] then none
  else some { bytes := sign * (mine.map FileObject.sizeBytes).sum, files := sign * mine.length }

def Charge.delta (charge : Charge) (workspaceId : WorkspaceId) : Option Delta :=
  match charge with
  | .none => Option.none
  | .add rows => usageDelta rows 1 workspaceId
  | .remove rows => usageDelta rows (-1) workspaceId

def settle (usage : WorkspaceId → Option Usage) (charge : Charge) :
    WorkspaceId → Option Usage := fun workspaceId =>
  match charge.delta workspaceId with
  | none => usage workspaceId
  | some delta => some (upsertWorkspaceUsage (usage workspaceId) delta)

-- What the statement of the session charges when it commits. The files of a restore are of one
-- workspace, the one of its context.
def sessionCharge (state : State) : Session → Charge
  | .confirming row (some size) => .add [confirmWrite row size state.now]
  -- By the row of the unlocked read; without a row to update the transaction fails.
  | .deleting row (some _) => if (state.row row.id).isSome then .remove [row] else .none
  | .restoring _ files =>
    if uniqueActive (updateRows state.rows files restoreWrite) then
      .add (state.rows.filter fun row => row.id ∈ files)
    else .none
  | _ => .none

def charge (state : State) : Action → Charge
  | .purge scope limit _ => .remove (purgeRows state scope limit)
  | .advance index _ =>
    match state.sessions[index]? with
    | some session => sessionCharge state session
    | none => .none
  | _ => .none

inductive MeteredAction
  | file (action : Action)
  | migrateAttachment (workspaceId : WorkspaceId) (contextId : Option ContextId) (key : Key)
      (sizeBytes : Nat)

-- The unique index and the twin check leave migrated rows out, so the row gets a hash of its own.
def migratedRow (state : State) (workspaceId : WorkspaceId) (contextId : Option ContextId)
    (key : Key) (sizeBytes : Nat) : FileObject :=
  { id := state.nextId
    workspaceId
    contextId
    sha256 := "migration:attachment:" ++ key
    sizeBytes
    storageKey := some key
    status := .uploaded
    expiresAt := none
    uploadedAt := some state.now
    deletedAt := none }

structure Metered where
  registry : State
  usage : WorkspaceId → Option Usage

-- `migrate_attachment`: the object is written before the row.
def migrateAttachment (metered : Metered) (workspaceId : WorkspaceId)
    (contextId : Option ContextId) (key : Key) (sizeBytes : Nat) : Option Metered :=
  let state := metered.registry
  if state.keyFree state.sessions.length key then
    if state.registered key then some metered
    else
      let row := migratedRow state workspaceId contextId key sizeBytes
      some
        { registry :=
            { state with
              rows := state.rows ++ [row]
              nextId := state.nextId + 1
              objects := Function.update state.objects key (some sizeBytes) }
          usage := settle metered.usage (.add [row]) }
  else none

def meteredStep (metered : Metered) : MeteredAction → Option Metered
  | .file action =>
    (step metered.registry action).map fun registry =>
      { registry, usage := settle metered.usage (charge metered.registry action) }
  | .migrateAttachment workspaceId contextId key sizeBytes =>
    migrateAttachment metered workspaceId contextId key sizeBytes

def FileObject.counted (row : FileObject) : Bool := row.status = .uploaded ∧ row.deletedAt = none

def liveRows (rows : List FileObject) (workspaceId : WorkspaceId) : List FileObject :=
  rows.filter fun row => row.workspaceId = workspaceId ∧ row.counted

structure UsageLaw (metered : Metered) (workspaceId : WorkspaceId) : Prop where
  usedBytes : ((metered.usage workspaceId).map Usage.usedBytes).getD 0 =
    ((liveRows metered.registry.rows workspaceId).map FileObject.sizeBytes).sum
  fileCount : ((metered.usage workspaceId).map Usage.fileCount).getD 0 =
    (liveRows metered.registry.rows workspaceId).length

def meteredCharge (metered : Metered) : MeteredAction → Charge
  | .file action => charge metered.registry action
  | .migrateAttachment workspaceId contextId key sizeBytes =>
    .add [migratedRow metered.registry workspaceId contextId key sizeBytes]

-- No upsert of the step takes more than the counter holds.
def WithinStored (metered : Metered) (action : MeteredAction) : Prop :=
  ∀ workspaceId delta, (meteredCharge metered action).delta workspaceId = some delta →
    0 ≤ (((metered.usage workspaceId).map Usage.usedBytes).getD 0 : Int) + delta.bytes ∧
      0 ≤ (((metered.usage workspaceId).map Usage.fileCount).getD 0 : Int) + delta.files

-- A row that `delete_file` or the orphan sweep read without a lock is counted when they write it
-- exactly if it was when they read it.
def Undisturbed (metered : Metered) : MeteredAction → Prop
  | .file (.advance index _) =>
    match metered.registry.sessions[index]? with
    | some (.deleting row (some _)) => ∀ current ∈ metered.registry.rows, current.id = row.id →
        current.counted = row.counted
    | some (.orphanSelected rows) => ∀ row ∈ rows, ∀ current ∈ metered.registry.rows,
        current.id = row.id → current.counted = row.counted
    | _ => True
  | _ => True

end Model

section Sums

variable {worth : Nat → Nat} {workspaceId : WorkspaceId}

def share (worth : Nat → Nat) (workspaceId : WorkspaceId) (row : FileObject) : Nat :=
  if row.workspaceId = workspaceId ∧ row.counted then worth row.sizeBytes else 0

theorem share_uncounted {row : FileObject} (uncounted : row.counted = false) :
    share worth workspaceId row = 0 := by
  simp [share, uncounted]

theorem sum_filter {α : Type} (weight : α → Nat) (keep : α → Bool) (rows : List α) :
    ((rows.filter keep).map weight).sum =
      (rows.map fun row => if keep row then weight row else 0).sum := by
  induction rows with
  | nil => rfl
  | cons row rows ih => cases kept : keep row <;> simp [kept, ih]

theorem sum_liveRows (worth : Nat → Nat) (workspaceId : WorkspaceId) (rows : List FileObject) :
    ((liveRows rows workspaceId).map fun row => worth row.sizeBytes).sum =
      (rows.map (share worth workspaceId)).sum := by
  rw [liveRows, sum_filter]
  simp only [decide_eq_true_eq]
  rfl

theorem length_eq_sum (rows : List FileObject) : rows.length = (rows.map fun _ => 1).sum := by
  simp

def bill (worth : Nat → Nat) (workspaceId : WorkspaceId) (rows : List FileObject) : Nat :=
  ((billed rows workspaceId).map fun row => worth row.sizeBytes).sum

def Charge.added (worth : Nat → Nat) (workspaceId : WorkspaceId) : Charge → Nat
  | .add rows => bill worth workspaceId rows
  | _ => 0

def Charge.removed (worth : Nat → Nat) (workspaceId : WorkspaceId) : Charge → Nat
  | .remove rows => bill worth workspaceId rows
  | _ => 0

theorem bill_live {rows : List FileObject} (live : ∀ row ∈ rows, row.deletedAt = none) :
    bill worth workspaceId rows = (rows.map (share worth workspaceId)).sum := by
  rw [bill, billed, sum_filter]
  refine congrArg List.sum (List.map_congr_left fun row listed => ?_)
  simp [share, FileObject.counted, live row listed]

theorem bill_restored (rows : List FileObject) :
    bill worth workspaceId rows =
      (rows.map fun row => share worth workspaceId (restoreWrite row)).sum := by
  rw [bill, billed, sum_filter]
  refine congrArg List.sum (List.map_congr_left fun row listed => ?_)
  simp [share, FileObject.counted, restoreWrite]

theorem sum_updateRows (value : FileObject → Nat) (rows : List FileObject) (ids : List FileId)
    (write : FileObject → FileObject) :
    ((updateRows rows ids write).map value).sum +
        ((rows.filter fun row => row.id ∈ ids).map value).sum =
      (rows.map value).sum +
        ((rows.filter fun row => row.id ∈ ids).map fun row => value (write row)).sum := by
  induction rows with
  | nil => rfl
  | cons row rows ih =>
    simp only [updateRows] at ih
    by_cases chosen : row.id ∈ ids
    next =>
      simp only [updateRows, List.map_cons, List.sum_cons, chosen, if_true, decide_true,
        List.filter_cons_of_pos]
      omega
    next =>
      simp only [updateRows, List.map_cons, List.sum_cons, chosen, if_false, decide_false,
        Bool.false_eq_true, not_false_eq_true, List.filter_cons_of_neg]
      omega

theorem sum_uncounted (worth : Nat → Nat) (workspaceId : WorkspaceId) {rows : List FileObject}
    (uncounted : ∀ row ∈ rows, row.counted = false) :
    (rows.map (share worth workspaceId)).sum = 0 := by
  rw [List.sum_eq_zero]
  intro value listed
  obtain ⟨row, here, rfl⟩ := List.mem_map.mp listed
  exact share_uncounted (uncounted row here)

end Sums

end MemoryCloud.Files
