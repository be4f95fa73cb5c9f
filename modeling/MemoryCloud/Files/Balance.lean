import Mathlib.Data.List.Perm.Subperm
import MemoryCloud.Files.Kept
import MemoryCloud.Files.Usage

set_option autoImplicit false

/-!
# The storage counter equals the rows

Each step is described once, by the rows it writes and by what it charges for
them. A step that charges for rows it read without a lock is right as long as
no other transaction has counted them in or out since.
-/

namespace MemoryCloud.Files

variable {index : Nat} {before after : State} {charge : Charge}

section Steps

structure Booked (index : Nat) (before after : State) (charge : Charge) : Prop where
  nextId : before.nextId ≤ after.nextId
  kept : ∀ row ∈ before.rows, row ∈ after.rows ∨ before.OwnsRow index row.id
  origin : ∀ row ∈ after.rows,
    (∃ old ∈ before.rows, old.id = row.id ∧ row.workspaceId = old.workspaceId ∧
      (old.status ≠ .reserved → row.status ≠ .reserved ∧ row.sizeBytes = old.sizeBytes)) ∨
    before.nextId ≤ row.id
  ids : (after.rows.map FileObject.id).Nodup
  below : ∀ row ∈ after.rows, row.id < after.nextId
  balance : ∀ worth workspaceId, (after.rows.map (share worth workspaceId)).sum +
      charge.removed worth workspaceId =
    (before.rows.map (share worth workspaceId)).sum + charge.added worth workspaceId

def Session.Steady (state : State) : Session → Prop
  | .confirming row _ => row ∈ state.rows ∧ row.status = .reserved ∧ row.deletedAt = none
  | .restoring locked files => ∀ id ∈ files, id ∈ locked ∧
      ∃ row ∈ state.rows, row.id = id ∧ row.counted = false
  -- The read row may be out of date; its workspace and, once it was uploaded, its size are not.
  | .deleting row _ => row.deletedAt = none ∧ row.id < state.nextId ∧
      ∀ current ∈ state.rows, current.id = row.id → current.workspaceId = row.workspaceId ∧
        (row.status = .uploaded → current.status ≠ .reserved ∧ current.sizeBytes = row.sizeBytes)
  | .orphanSelected rows => ∀ row ∈ rows, row.counted = false
  | _ => True

structure Steady (state : State) : Prop where
  ids : (state.rows.map FileObject.id).Nodup
  below : ∀ row ∈ state.rows, row.id < state.nextId
  sessions : ∀ (index : Nat) (session : Session), state.sessions[index]? = some session →
    session.Steady state
  rows : ∀ (index : Nat) (session : Session), state.sessions[index]? = some session →
    ∀ id ∈ session.rowsHeld, state.OwnsRow index id

theorem Steady.unique {state : State} (steady : Steady state) {first second : FileObject}
    (one : first ∈ state.rows) (two : second ∈ state.rows) (same : first.id = second.id) :
    first = second :=
  List.inj_on_of_nodup_map steady.ids one two same

theorem Booked.heldRow (booked : Booked index before after charge) {other : Nat} {session : Session}
    (different : other ≠ index) (found : before.sessions[other]? = some session) {row : FileObject}
    (listed : row ∈ before.rows) (held : row.id ∈ session.rowsHeld) : row ∈ after.rows := by
  rcases booked.kept row listed with kept | owned
  next => exact kept
  next => exact absurd held (owned other session different found)

theorem Booked.session (booked : Booked index before after charge) {other : Nat} {session : Session}
    (different : other ≠ index) (found : before.sessions[other]? = some session)
    (steady : session.Steady before) : session.Steady after := by
  cases session with
  | confirming row size =>
    obtain ⟨listed, reserved, live⟩ := steady
    exact ⟨booked.heldRow different found listed (List.mem_singleton_self _), reserved, live⟩
  | restoring locked files =>
    intro id chosen
    obtain ⟨held, row, listed, rfl, uncounted⟩ := steady id chosen
    exact ⟨held, row, booked.heldRow different found listed held, rfl, uncounted⟩
  | deleting row stamp =>
    obtain ⟨live, old, asRead⟩ := steady
    refine ⟨live, Nat.lt_of_lt_of_le old booked.nextId, fun current listed same => ?_⟩
    rcases booked.origin current listed with ⟨earlier, stored, sameId, workspace, size⟩ | fresh
    next =>
      obtain ⟨sameWorkspace, sameSize⟩ := asRead earlier stored (sameId.trans same)
      refine ⟨workspace.trans sameWorkspace, fun uploaded => ?_⟩
      obtain ⟨settled, asCharged⟩ := sameSize uploaded
      exact ⟨(size settled).1, (size settled).2.trans asCharged⟩
    next => exact absurd old (Nat.not_lt.mpr (same ▸ fresh))
  | orphanSelected rows => exact steady
  | _ => trivial

theorem Booked.steady (booked : Booked index before after charge) (steady : Steady before)
    (new : Session)
    (sessions : ∀ other session, after.sessions[other]? = some session →
      other = index ∧ session = new ∨ other ≠ index ∧ before.sessions[other]? = some session)
    (ok : new.Steady after) (rows : ∀ id ∈ new.rowsHeld, before.OwnsRow index id) :
    Steady after where
  ids := booked.ids
  below := booked.below
  sessions := by
    intro other session found
    rcases sessions other session found with ⟨rfl, rfl⟩ | ⟨different, old⟩
    next => exact ok
    next => exact booked.session different old (steady.sessions other session old)
  rows := by
    intro first session found id held second session' apart found'
    rcases sessions first session found with ⟨rfl, rfl⟩ | ⟨different, old⟩
    next =>
      rcases sessions second session' found' with ⟨rfl, _⟩ | ⟨_, old'⟩
      next => exact absurd rfl apart
      next => exact rows id held second session' apart old'
    next =>
      rcases sessions second session' found' with ⟨rfl, rfl⟩ | ⟨_, old'⟩
      next =>
        intro taken
        exact rows id taken first session different old held
      next => exact steady.rows first session old id held second session' apart old'

theorem Booked.same_rows (steady : Steady before) (rows : after.rows = before.rows)
    (nextId : after.nextId = before.nextId) : Booked index before after .none where
  nextId := Nat.le_of_eq nextId.symm
  kept := fun row listed => .inl (by rw [rows]; exact listed)
  origin := by
    rw [rows]
    exact fun row listed => .inl ⟨row, listed, rfl, rfl, fun settled => ⟨settled, rfl⟩⟩
  ids := by
    rw [rows]
    exact steady.ids
  below := by
    rw [rows, nextId]
    exact steady.below
  balance := by
    rw [rows]
    exact fun _ _ => rfl

structure Entry (index : Nat) (state : State) (ids : List FileId)
    (write : FileObject → FileObject) (charge : Charge) : Prop where
  sameId : ∀ row, (write row).id = row.id
  sameWorkspace : ∀ row, (write row).workspaceId = row.workspaceId
  owned : ∀ row ∈ state.rows, row.id ∈ ids → state.OwnsRow index row.id
  settled : ∀ row ∈ state.rows, row.id ∈ ids → row.status ≠ .reserved →
    (write row).status ≠ .reserved ∧ (write row).sizeBytes = row.sizeBytes
  worth : ∀ worth workspaceId,
    ((state.rows.filter fun row => row.id ∈ ids).map fun row => share worth workspaceId (write row)).sum +
        charge.removed worth workspaceId =
      ((state.rows.filter fun row => row.id ∈ ids).map (share worth workspaceId)).sum +
        charge.added worth workspaceId

theorem Booked.of_update {ids : List FileId} {write : FileObject → FileObject}
    (steady : Steady before) (entry : Entry index before ids write charge)
    (rows : after.rows = updateRows before.rows ids write)
    (nextId : after.nextId = before.nextId) : Booked index before after charge := by
  have origin : ∀ row ∈ after.rows, ∃ old ∈ before.rows,
      row = old ∨ old.id ∈ ids ∧ row = write old := by
    rw [rows]
    intro row listed
    obtain ⟨old, stored, rfl⟩ := List.mem_map.mp listed
    refine ⟨old, stored, ?_⟩
    split
    next chosen => exact .inr ⟨chosen, rfl⟩
    next => exact .inl rfl
  constructor
  next => exact Nat.le_of_eq nextId.symm
  next =>
    intro row listed
    by_cases chosen : row.id ∈ ids
    next => exact .inr (entry.owned row listed chosen)
    next =>
      rw [rows]
      exact .inl (List.mem_map.mpr ⟨row, listed, if_neg chosen⟩)
  next =>
    intro row listed
    refine .inl ?_
    obtain ⟨old, stored, rfl | ⟨chosen, rfl⟩⟩ := origin row listed
    next => exact ⟨row, stored, rfl, rfl, fun settled => ⟨settled, rfl⟩⟩
    next =>
      exact ⟨old, stored, (entry.sameId old).symm, entry.sameWorkspace old,
        entry.settled old stored chosen⟩
  next =>
    have same : after.rows.map FileObject.id = before.rows.map FileObject.id := by
      rw [rows, updateRows, List.map_map]
      refine List.map_congr_left fun row _ => ?_
      dsimp only [Function.comp_apply]
      split
      next => exact entry.sameId row
      next => rfl
    rw [same]
    exact steady.ids
  next =>
    intro row listed
    rw [nextId]
    obtain ⟨old, stored, rfl | ⟨_, rfl⟩⟩ := origin row listed
    next => exact steady.below row stored
    next =>
      rw [entry.sameId]
      exact steady.below old stored
  next =>
    intro worth workspaceId
    have moved := sum_updateRows (share worth workspaceId) before.rows ids write
    have charged := entry.worth worth workspaceId
    rw [rows]
    omega

theorem Booked.of_hardDelete {row : FileObject} (steady : Steady before)
    (owned : before.OwnsRow index row.id) :
    Booked index before (before.hardDelete row) .none := by
  have stays : ∀ other ∈ (before.hardDelete row).rows, other ∈ before.rows :=
    fun other listed => (List.mem_filter.mp listed).1
  constructor
  next => exact Nat.le_refl _
  next =>
    intro other listed
    by_cases same : other.id = row.id
    next =>
      rw [same]
      exact .inr owned
    next => exact .inl (List.mem_filter.mpr ⟨listed, by simp [same]⟩)
  next =>
    exact fun other listed =>
      .inl ⟨other, stays other listed, rfl, rfl, fun settled => ⟨settled, rfl⟩⟩
  next => exact steady.ids.sublist (List.filter_sublist.map _)
  next => exact fun other listed => steady.below other (stays other listed)
  next =>
    intro worth workspaceId
    show (((before.rows.filter _).map (share worth workspaceId)).sum) + 0 = _ + 0
    rw [sum_filter]
    refine congrArg (· + 0) (congrArg List.sum (List.map_congr_left fun other _ => ?_))
    split
    next => rfl
    next gone =>
      -- Only deleted rows go.
      have deleted : other.deletedAt.isSome = true := by
        simp only [decide_eq_true_eq, not_not] at gone
        exact gone.2
      refine (share_uncounted ?_).symm
      obtain ⟨stamp, at_⟩ := Option.isSome_iff_exists.mp deleted
      simp [FileObject.counted, at_]

theorem Booked.of_append {row : FileObject} (steady : Steady before)
    (rows : after.rows = before.rows ++ [row]) (fresh : row.id = before.nextId)
    (nextId : after.nextId = before.nextId + 1)
    (charged : ∀ worth workspaceId, share worth workspaceId row + charge.removed worth workspaceId =
      charge.added worth workspaceId) : Booked index before after charge := by
  constructor
  next =>
    rw [nextId]
    exact Nat.le_succ _
  next => exact fun other listed => .inl (by rw [rows]; exact List.mem_append_left _ listed)
  next =>
    rw [rows]
    intro other listed
    rcases List.mem_append.mp listed with stored | new
    next => exact .inl ⟨other, stored, rfl, rfl, fun settled => ⟨settled, rfl⟩⟩
    next =>
      rw [List.mem_singleton.mp new]
      exact .inr (Nat.le_of_eq fresh.symm)
  next =>
    rw [rows, List.map_append, List.nodup_append]
    refine ⟨steady.ids, List.nodup_singleton _, ?_⟩
    intro first earlier second new
    obtain ⟨other, stored, rfl⟩ := List.mem_map.mp earlier
    rw [List.mem_singleton.mp new, fresh]
    exact Nat.ne_of_lt (steady.below other stored)
  next =>
    rw [rows, nextId]
    intro other listed
    rcases List.mem_append.mp listed with stored | new
    next => exact Nat.lt_succ_of_lt (steady.below other stored)
    next =>
      rw [List.mem_singleton.mp new, fresh]
      exact Nat.lt_succ_self _
  next =>
    intro worth workspaceId
    have added := charged worth workspaceId
    rw [rows, List.map_append, List.sum_append, List.map_singleton, List.sum_singleton]
    omega

end Steps

section Advance

variable {session new : Session} {call : Call}

theorem filter_id_singleton {current : FileObject} (steady : Steady before)
    (listed : current ∈ before.rows) {id : FileId} (same : current.id = id) :
    before.rows.filter (fun row => row.id ∈ [id]) = [current] := by
  have only : ∀ row ∈ before.rows, row.id = id → row = current :=
    fun row stored sameId => steady.unique stored listed (sameId.trans same.symm)
  have nodup : (before.rows.filter fun row => row.id ∈ [id]).Nodup :=
    (List.Nodup.of_map _ steady.ids).sublist List.filter_sublist
  refine List.perm_singleton.mp ((List.perm_ext_iff_of_nodup nodup (List.nodup_singleton _)).mpr ?_)
  intro row
  rw [List.mem_filter, decide_eq_true_eq, List.mem_singleton, List.mem_singleton]
  constructor
  next => exact fun chosen => only row chosen.1 chosen.2
  next =>
    rintro rfl
    exact ⟨listed, same⟩

theorem Steady.move (steady : Steady before) (new : Session)
    (booked : Booked index before after charge)
    (same : after.sessions = before.sessions.set index new) (ok : new.Steady after)
    (rows : ∀ id ∈ new.rowsHeld, before.OwnsRow index id) :
    Booked index before after charge ∧ Steady after := by
  refine ⟨booked, booked.steady steady new ?_ ok rows⟩
  intro other session found
  rw [same, List.getElem?_set] at found
  split at found
  next here =>
    split at found
    next =>
      cases found
      exact .inl ⟨here.symm, rfl⟩
    next => cases found
  next elsewhere => exact .inr ⟨fun here => elsewhere here.symm, found⟩

theorem Booked.setSession (booked : Booked index before after charge) (session : Session) :
    Booked index before (after.setSession index session) charge :=
  ⟨booked.nextId, booked.kept, booked.origin, booked.ids, booked.below, booked.balance⟩

theorem Steady.turn (steady : Steady before) (rows : after.rows = before.rows)
    (nextId : after.nextId = before.nextId) (same : after.sessions = before.sessions.set index new)
    (ok : new.Steady before) (held : ∀ id ∈ new.rowsHeld, before.OwnsRow index id) :
    Booked index before after .none ∧ Steady after := by
  refine steady.move new (.same_rows steady rows nextId) same ?_ held
  cases new with
  | confirming | restoring =>
    simp only [Session.Steady, rows] at ok ⊢
    exact ok
  | deleting =>
    simp only [Session.Steady, rows, nextId] at ok ⊢
    exact ok
  | _ => exact ok

theorem Steady.finish (steady : Steady before) :
    Booked index before (before.setSession index .idle) .none ∧
      Steady (before.setSession index .idle) :=
  steady.turn rfl rfl rfl trivial (List.forall_mem_nil _)

theorem confirm_booked {row : FileObject} {size : Option Nat} (steady : Steady before)
    (found : before.sessions[index]? = some (.confirming row size))
    (taken : advance before index call (.confirming row size) = some after) :
    Booked index before after (sessionCharge before (.confirming row size)) ∧ Steady after := by
  obtain ⟨listed, reserved, live⟩ := steady.sessions index _ found
  have owned := steady.rows index _ found
  cases size with
  | none =>
    simp only [advance] at taken
    split at taken
    next =>
      split at taken
      next =>
        cases taken
        exact steady.turn rfl rfl rfl ⟨listed, reserved, live⟩ owned
      next =>
        cases taken
        exact steady.finish
    next =>
      cases taken
      exact steady.finish
  | some size =>
    simp only [advance] at taken
    split at taken
    next =>
      cases taken
      have uncounted : row.counted = false := by simp [FileObject.counted, reserved]
      have entry : Entry index before [row.id] (fun row => confirmWrite row size before.now)
          (sessionCharge before (.confirming row (some size))) :=
        { sameId := fun _ => rfl
          sameWorkspace := fun _ => rfl
          owned := fun other _ chosen => owned other.id chosen
          settled := fun other stored chosen settled => by
            rw [steady.unique stored listed (List.mem_singleton.mp chosen)] at settled
            exact absurd reserved settled
          worth := fun worth workspaceId => by
            rw [filter_id_singleton steady listed rfl]
            have added : bill worth workspaceId [confirmWrite row size before.now] =
                ([confirmWrite row size before.now].map (share worth workspaceId)).sum :=
              bill_live (by simp [confirmWrite, live])
            simp [sessionCharge, Charge.removed, Charge.added, added,
              share_uncounted uncounted] }
      exact steady.move _ (.of_update steady entry rfl rfl) rfl trivial (List.forall_mem_nil _)
    next => cases taken

theorem delete_booked {row : FileObject} {stamp : Option Time} (steady : Steady before)
    (found : before.sessions[index]? = some (.deleting row stamp))
    (undisturbed : stamp.isSome = true → ∀ current ∈ before.rows, current.id = row.id →
      current.counted = row.counted)
    (taken : advance before index call (.deleting row stamp) = some after) :
    Booked index before after (sessionCharge before (.deleting row stamp)) ∧ Steady after := by
  have asRead := steady.sessions index _ found
  cases stamp with
  | none =>
    cases taken
    exact steady.turn rfl rfl rfl asRead (List.forall_mem_nil _)
  | some stamp =>
    simp only [advance] at taken
    split at taken
    next missing =>
      cases taken
      simp only [sessionCharge, missing, Option.isSome_none, Bool.false_eq_true, if_false]
      exact steady.finish
    next current read =>
      split at taken
      next free =>
        cases taken
        have listed := List.mem_of_find?_eq_some read
        have sameId : current.id = row.id := by simpa using List.find?_some read
        obtain ⟨live, _, known⟩ := asRead
        obtain ⟨workspace, uploadedSize⟩ := known current listed sameId
        have still := undisturbed rfl current listed sameId
        have entry : Entry index before [row.id] (fun current => deleteWrite current row.status stamp)
            (sessionCharge before (.deleting row (some stamp))) :=
          { sameId := fun _ => rfl
            sameWorkspace := fun _ => rfl
            owned := fun other stored chosen => by
              rw [steady.unique stored listed ((List.mem_singleton.mp chosen).trans sameId.symm)]
              exact ownsRow_of_writable free
            settled := fun other _ _ settled => by
              refine ⟨?_, rfl⟩
              simp only [deleteWrite]
              split
              next => simp
              next => exact settled
            worth := fun worth workspaceId => by
              have gone : (deleteWrite current row.status stamp).counted = false := by
                simp [FileObject.counted, deleteWrite]
              have removed : bill worth workspaceId [row] = share worth workspaceId current := by
                have own : bill worth workspaceId [row] = share worth workspaceId row := by
                  rw [bill_live (by simp [live])]
                  simp
                rw [own, share, share, still, workspace]
                split
                next counted =>
                  have uploaded : row.status = .uploaded := by
                    simpa [FileObject.counted, live] using counted.2
                  rw [(uploadedSize uploaded).2]
                next => rfl
              rw [filter_id_singleton steady listed sameId]
              simp [sessionCharge, read, Charge.removed, Charge.added, removed,
                share_uncounted gone] }
        exact steady.move _ (.of_update steady entry rfl rfl) rfl trivial (List.forall_mem_nil _)
      next => cases taken

theorem restoreLock_booked {workspaceId : WorkspaceId} {contextId : ContextId}
    {deletedAt checkedAt : Time} (steady : Steady before)
    (taken : advance before index call (.restoreChecked workspaceId contextId deletedAt checkedAt) =
      some after) : Booked index before after .none ∧ Steady after := by
  simp only [advance] at taken
  split at taken
  next free =>
    cases taken
    refine steady.turn rfl rfl rfl (fun id chosen => ?_) fun id held => ?_
    next =>
      obtain ⟨row, kept, rfl⟩ := List.mem_map.mp chosen
      have restored := (List.mem_filter.mp kept).1
      refine ⟨List.mem_map_of_mem restored, row, (List.mem_filter.mp restored).1, rfl, ?_⟩
      have selected := (List.mem_filter.mp restored).2
      rw [decide_eq_true_eq] at selected
      simp [FileObject.counted, selected.2.2.1]
    next =>
      obtain ⟨row, listed, rfl⟩ := List.mem_map.mp held
      exact ownsRow_of_rowFree (List.all_eq_true.mp free row listed)
  next => cases taken

theorem restore_booked {locked files : List FileId} (steady : Steady before)
    (found : before.sessions[index]? = some (.restoring locked files))
    (taken : advance before index call (.restoring locked files) = some after) :
    Booked index before after (sessionCharge before (.restoring locked files)) ∧ Steady after := by
  have asLocked := steady.sessions index _ found
  have owned := steady.rows index _ found
  simp only [advance] at taken
  split at taken
  next =>
    split at taken
    next unique =>
      cases taken
      have entry : Entry index before files restoreWrite
          (sessionCharge before (.restoring locked files)) :=
        { sameId := fun _ => rfl
          sameWorkspace := fun _ => rfl
          owned := fun other _ chosen => owned other.id (asLocked other.id chosen).1
          settled := fun _ _ _ settled => ⟨settled, rfl⟩
          worth := fun worth workspaceId => by
            have before0 : ((before.rows.filter fun row => row.id ∈ files).map
                (share worth workspaceId)).sum = 0 := by
              refine sum_uncounted worth workspaceId fun row chosen => ?_
              obtain ⟨listed, inside⟩ := List.mem_filter.mp chosen
              rw [decide_eq_true_eq] at inside
              obtain ⟨_, same, stored, sameId, uncounted⟩ := asLocked row.id inside
              rwa [steady.unique listed stored sameId.symm]
            rw [before0, ← bill_restored]
            simp [sessionCharge, unique, Charge.removed, Charge.added] }
      exact steady.move _ (.of_update steady entry rfl rfl) rfl trivial (List.forall_mem_nil _)
    next clash =>
      cases taken
      simp only [sessionCharge, clash, if_false]
      exact steady.finish
  next => cases taken

theorem Entry.uncounted {ids : List FileId} {write : FileObject → FileObject}
    (sameId : ∀ row, (write row).id = row.id)
    (sameWorkspace : ∀ row, (write row).workspaceId = row.workspaceId)
    (owned : ∀ row ∈ before.rows, row.id ∈ ids → before.OwnsRow index row.id)
    (settled : ∀ row, row.status ≠ .reserved →
      (write row).status ≠ .reserved ∧ (write row).sizeBytes = row.sizeBytes)
    (unread : ∀ row ∈ before.rows, row.id ∈ ids → row.counted = false)
    (unwritten : ∀ row ∈ before.rows, row.id ∈ ids → (write row).counted = false) :
    Entry index before ids write .none where
  sameId := sameId
  sameWorkspace := sameWorkspace
  owned := owned
  settled := fun row _ _ => settled row
  worth := by
    intro worth workspaceId
    have chosen : ∀ row ∈ before.rows.filter (fun row => row.id ∈ ids),
        row ∈ before.rows ∧ row.id ∈ ids := by
      intro row kept
      obtain ⟨listed, inside⟩ := List.mem_filter.mp kept
      exact ⟨listed, by simpa using inside⟩
    have zero := sum_uncounted worth workspaceId fun row kept =>
      unread row (chosen row kept).1 (chosen row kept).2
    have none : ((before.rows.filter fun row => row.id ∈ ids).map fun row =>
        share worth workspaceId (write row)).sum = 0 := by
      rw [List.sum_eq_zero]
      intro value listed
      obtain ⟨row, kept, rfl⟩ := List.mem_map.mp listed
      exact share_uncounted (unwritten row (chosen row kept).1 (chosen row kept).2)
    rw [none, zero]
    rfl

theorem orphanMark_booked {rows : List FileObject} (steady : Steady before)
    (found : before.sessions[index]? = some (.orphanSelected rows))
    (undisturbed : ∀ row ∈ rows, ∀ current ∈ before.rows, current.id = row.id →
      current.counted = row.counted)
    (taken : advance before index call (.orphanSelected rows) = some after) :
    Booked index before after .none ∧ Steady after := by
  have selected := steady.sessions index _ found
  simp only [advance] at taken
  split at taken
  next =>
    split at taken
    next free =>
      cases taken
      have entry : Entry index before (rows.map FileObject.id) failWrite .none := by
        refine .uncounted (fun _ => rfl) (fun _ => rfl) ?_ (fun _ _ => ⟨by simp [failWrite], rfl⟩) ?_
          fun _ _ _ => by simp [FileObject.counted, failWrite]
        next =>
          intro row _ chosen
          obtain ⟨other, listed, same⟩ := List.mem_map.mp chosen
          rw [← same]
          exact ownsRow_of_writable (List.all_eq_true.mp free other listed)
        next =>
          intro row stored chosen
          obtain ⟨other, listed, same⟩ := List.mem_map.mp chosen
          exact (undisturbed other listed row stored same.symm).trans (selected other listed)
      exact steady.move _ (.of_update steady entry rfl rfl) rfl trivial (List.forall_mem_nil _)
    next => cases taken
  next =>
    cases taken
    exact steady.finish

theorem orphanRelease_booked {todo : List (FileId × Option Key)} (steady : Steady before)
    (taken : advance before index call (.orphanReleasing todo) = some after) :
    Booked index before after .none ∧ Steady after := by
  cases todo with
  | nil =>
    simp only [advance] at taken
    split at taken
    next free =>
      cases taken
      have lingers : ∀ row ∈ before.rows, row.id ∈ (before.rows.filter fun row =>
          row.status = .failed ∧ row.deletedAt = none).map FileObject.id →
          row ∈ before.rows.filter fun row => row.status = .failed ∧ row.deletedAt = none := by
        intro row stored chosen
        obtain ⟨other, listed, same⟩ := List.mem_map.mp chosen
        rwa [← steady.unique (List.mem_filter.mp listed).1 stored same]
      have entry : Entry index before ((before.rows.filter fun row =>
          row.status = .failed ∧ row.deletedAt = none).map FileObject.id)
          (fun row => stampWrite row before.now) .none := by
        refine .uncounted (fun _ => rfl) (fun _ => rfl) ?_ (fun _ settled => ⟨settled, rfl⟩) ?_
          fun _ _ _ => by simp [FileObject.counted, stampWrite]
        next =>
          intro row stored chosen
          exact ownsRow_of_writable (List.all_eq_true.mp free row (lingers row stored chosen))
        next =>
          intro row stored chosen
          have failed := (List.mem_filter.mp (lingers row stored chosen)).2
          rw [decide_eq_true_eq] at failed
          simp [FileObject.counted, failed.1]
      exact steady.move _ (.of_update steady entry rfl rfl) rfl trivial (List.forall_mem_nil _)
    next => cases taken
  | cons entry todo =>
    obtain ⟨id, key⟩ := entry
    cases key with
    | none =>
      cases taken
      exact steady.turn rfl rfl rfl trivial (List.forall_mem_nil _)
    | some key =>
      simp only [advance] at taken
      split at taken
      next =>
        cases taken
        exact steady.turn rfl rfl rfl trivial (List.forall_mem_nil _)
      next => cases taken

theorem gc_booked (steady : Steady before) (found : before.sessions[index]? = some session)
    (sweeping : (∃ started todo, session = .gcSelected started todo) ∨
      (∃ started row todo, session = .gcRow started row todo) ∨
      ∃ started row key phase todo, session = .gcKey started row key phase todo)
    (taken : advance before index call session = some after) :
    Booked index before after .none ∧ Steady after := by
  have owned := steady.rows index _ found
  rcases sweeping with ⟨started, todo, rfl⟩ | ⟨started, row, todo, rfl⟩ |
    ⟨started, row, key, phase, todo, rfl⟩
  next =>
    cases todo with
    | nil =>
      cases taken
      exact steady.finish
    | cons id todo =>
      simp only [advance] at taken
      split at taken
      next =>
        cases taken
        exact steady.turn rfl rfl rfl trivial (List.forall_mem_nil _)
      next row read =>
        split at taken
        next free =>
          cases taken
          refine steady.turn rfl rfl rfl trivial fun id held => ?_
          rw [List.mem_singleton.mp held]
          exact ownsRow_of_rowFree free
        next => cases taken
  next =>
    simp only [advance] at taken
    split at taken
    next =>
      cases taken
      have booked : Booked index before (before.hardDelete row) .none :=
        .of_hardDelete steady (owned row.id (List.mem_singleton_self _))
      exact steady.move _ (booked.setSession _) rfl trivial (List.forall_mem_nil _)
    next =>
      split at taken
      next =>
        cases taken
        exact steady.turn rfl rfl rfl trivial owned
      next => cases taken
  next =>
    cases phase with
    | locked =>
      simp only [advance] at taken
      split at taken
      all_goals
        cases taken
        exact steady.turn rfl rfl rfl trivial owned
    | free =>
      cases call with
      | done =>
        cases taken
        exact steady.turn rfl rfl rfl trivial owned
      | failed effect =>
        cases taken
        exact steady.turn rfl rfl rfl trivial (List.forall_mem_nil _)
    | done =>
      cases taken
      have booked : Booked index before (before.hardDelete row) .none :=
        .of_hardDelete steady (owned row.id (List.mem_singleton_self _))
      exact steady.move _ (booked.setSession _) rfl trivial (List.forall_mem_nil _)

theorem orphanKey_booked {id : FileId} {key : Key} {free : Bool} {todo : List (FileId × Option Key)}
    (steady : Steady before)
    (taken : advance before index call (.orphanKey id key free todo) = some after) :
    Booked index before after .none ∧ Steady after := by
  cases free with
  | false =>
    simp only [advance] at taken
    split at taken
    all_goals
      cases taken
      exact steady.turn rfl rfl rfl trivial (List.forall_mem_nil _)
  | true =>
    cases taken
    exact steady.turn rfl rfl rfl trivial (List.forall_mem_nil _)

theorem drain_booked (steady : Steady before)
    (draining : (∃ todo, session = .drainSelected todo) ∨
      ∃ key phase todo, session = .drainKey key phase todo)
    (taken : advance before index call session = some after) :
    Booked index before after .none ∧ Steady after := by
  rcases draining with ⟨todo, rfl⟩ | ⟨key, phase, todo, rfl⟩
  next =>
    cases todo with
    | nil =>
      cases taken
      exact steady.finish
    | cons key todo =>
      simp only [advance] at taken
      split at taken
      next =>
        split at taken
        all_goals
          cases taken
          exact steady.turn rfl rfl rfl trivial (List.forall_mem_nil _)
      next => cases taken
  next =>
    cases phase with
    | locked =>
      simp only [advance] at taken
      split at taken
      all_goals
        cases taken
        exact steady.turn rfl rfl rfl trivial (List.forall_mem_nil _)
    | free =>
      cases call with
      | done =>
        cases taken
        exact steady.turn rfl rfl rfl trivial (List.forall_mem_nil _)
      | failed effect =>
        cases taken
        exact steady.turn rfl rfl rfl trivial (List.forall_mem_nil _)
    | done =>
      cases taken
      exact steady.turn rfl rfl rfl trivial (List.forall_mem_nil _)

theorem advance_booked {usage : WorkspaceId → Option Usage} (steady : Steady before)
    (found : before.sessions[index]? = some session)
    (undisturbed : Undisturbed ⟨before, usage⟩ (.file (.advance index call)))
    (taken : advance before index call session = some after) :
    Booked index before after (sessionCharge before session) ∧ Steady after := by
  simp only [Undisturbed, found] at undisturbed
  cases session with
  | idle => cases taken
  | confirming row size => exact confirm_booked steady found taken
  | deleting row stamp =>
    refine delete_booked steady found (fun stamped => ?_) taken
    obtain ⟨at_, rfl⟩ := Option.isSome_iff_exists.mp stamped
    exact undisturbed
  | restoreChecked workspaceId contextId deletedAt checkedAt => exact restoreLock_booked steady taken
  | restoring locked files => exact restore_booked steady found taken
  | orphanSelected rows => exact orphanMark_booked steady found undisturbed taken
  | orphanReleasing todo => exact orphanRelease_booked steady taken
  | orphanKey id key free todo => exact orphanKey_booked steady taken
  | gcSelected started todo => exact gc_booked steady found (.inl ⟨started, todo, rfl⟩) taken
  | gcRow started row todo => exact gc_booked steady found (.inr (.inl ⟨started, row, todo, rfl⟩)) taken
  | gcKey started row key phase todo =>
    exact gc_booked steady found (.inr (.inr ⟨started, row, key, phase, todo, rfl⟩)) taken
  | drainSelected todo => exact drain_booked steady (.inl ⟨todo, rfl⟩) taken
  | drainKey key phase todo => exact drain_booked steady (.inr ⟨key, phase, todo, rfl⟩) taken

end Advance

section Outside

theorem Steady.outside (steady : Steady before)
    (booked : Booked before.sessions.length before after charge)
    (same : after.sessions = before.sessions) :
    Booked before.sessions.length before after charge ∧ Steady after := by
  refine ⟨booked, booked.steady steady .idle ?_ trivial (List.forall_mem_nil _)⟩
  intro other session found
  rw [same] at found
  have inside : other < before.sessions.length := (List.getElem?_eq_some_iff.mp found).1
  exact .inr ⟨Nat.ne_of_lt inside, found⟩

theorem Steady.start {session : Session} (steady : Steady before) (ok : session.Steady before)
    (rows : ∀ id ∈ session.rowsHeld, before.OwnsRow before.sessions.length id) :
    Booked before.sessions.length before (before.start session) .none ∧
      Steady (before.start session) := by
  have booked : Booked before.sessions.length before (before.start session) .none :=
    .same_rows steady rfl rfl
  refine ⟨booked, booked.steady steady session ?_ (by cases session <;> exact ok) rows⟩
  intro other found held
  rw [State.start, List.getElem?_append] at held
  split at held
  next inside => exact .inr ⟨Nat.ne_of_lt inside, held⟩
  next outside =>
    rw [List.getElem?_singleton] at held
    split at held
    next zero =>
      cases held
      exact .inl ⟨Nat.le_antisymm (Nat.sub_eq_zero_iff_le.mp zero) (Nat.not_lt.mp outside), rfl⟩
    next => cases held

theorem nodup_purgeRows {scope : PurgeScope} {limit : Option Nat} (nodup : before.rows.Nodup) :
    (purgeRows before scope limit).Nodup := by
  have sorted : ((before.rows.filter fun row =>
      scope.selects row ∧ row.deletedAt = none).insertionSort
        fun first second => first.id ≤ second.id).Nodup :=
    (List.perm_insertionSort _ _).nodup_iff.mpr (nodup.sublist List.filter_sublist)
  cases limit with
  | none => exact sorted
  | some limit => exact sorted.sublist (List.take_sublist _ _)

theorem purge_entry {scope : PurgeScope} {limit : Option Nat} {stamp : Time} (steady : Steady before)
    (free : (purgeRows before scope limit).all (before.writable before.sessions.length) = true) :
    Entry before.sessions.length before ((purgeRows before scope limit).map FileObject.id)
      (fun row => purgeWrite row stamp) (.remove (purgeRows before scope limit)) := by
  have chosen : ∀ row, row ∈ before.rows ∧ row.id ∈ (purgeRows before scope limit).map FileObject.id ↔
      row ∈ purgeRows before scope limit := by
    intro row
    constructor
    next =>
      rintro ⟨stored, inside⟩
      obtain ⟨other, listed, same⟩ := List.mem_map.mp inside
      rwa [← steady.unique (mem_purgeRows listed).1 stored same]
    next => exact fun listed => ⟨(mem_purgeRows listed).1, List.mem_map_of_mem listed⟩
  exact
    { sameId := fun _ => rfl
      sameWorkspace := fun _ => rfl
      owned := fun row stored inside =>
        ownsRow_of_writable (List.all_eq_true.mp free row ((chosen row).mp ⟨stored, inside⟩))
      settled := fun row _ _ settled => ⟨by simp [purgeWrite, settled], rfl⟩
      worth := fun worth workspaceId => by
        have rows : (before.rows.filter fun row =>
            row.id ∈ (purgeRows before scope limit).map FileObject.id).Perm
              (purgeRows before scope limit) := by
          have nodup : before.rows.Nodup := List.Nodup.of_map _ steady.ids
          refine (List.perm_ext_iff_of_nodup (nodup.sublist List.filter_sublist) ?_).mpr fun row => ?_
          next => exact nodup_purgeRows nodup
          next =>
            rw [List.mem_filter, decide_eq_true_eq]
            exact chosen row
        have gone : ((before.rows.filter fun row =>
            row.id ∈ (purgeRows before scope limit).map FileObject.id).map fun row =>
              share worth workspaceId (purgeWrite row stamp)).sum = 0 := by
          rw [List.sum_eq_zero]
          intro value listed
          obtain ⟨row, _, rfl⟩ := List.mem_map.mp listed
          exact share_uncounted (by simp [FileObject.counted, purgeWrite])
        rw [gone, (rows.map _).sum_eq, Nat.zero_add]
        exact bill_live fun row listed => (mem_purgeRows listed).2 }

theorem step_booked {usage : WorkspaceId → Option Usage} {action : Action} (steady : Steady before)
    (undisturbed : Undisturbed ⟨before, usage⟩ (.file action))
    (taken : step before action = some after) :
    ∃ index, Booked index before after (Files.charge before action) ∧ Steady after := by
  cases action with
  | tick seconds =>
    cases taken
    exact ⟨_, steady.outside (.same_rows steady rfl rfl) rfl⟩
  | put key size =>
    cases taken
    exact ⟨_, steady.outside (.same_rows steady rfl rfl) rfl⟩
  | reserveUpload workspaceId contextId sha256 sizeBytes ttl =>
    simp only [step] at taken
    split at taken
    next =>
      cases taken
      refine ⟨_, steady.outside (.of_append steady rfl rfl rfl fun worth workspaceId => ?_) rfl⟩
      exact share_uncounted (by simp [FileObject.counted])
    next => cases taken
  | purge scope limit deletedAt =>
    simp only [step] at taken
    split at taken
    next free =>
      cases taken
      exact ⟨_, steady.outside (.of_update steady (purge_entry steady free) rfl rfl) rfl⟩
    next => cases taken
  | confirmUpload workspaceId id sha256 =>
    simp only [step, Option.bind_eq_bind, Option.bind_eq_some_iff] at taken
    obtain ⟨row, read, taken⟩ := taken
    split at taken
    next checked =>
      obtain ⟨_, live, reserved, _, free⟩ := checked
      cases taken
      have sameId : row.id = id := by simpa using List.find?_some read
      refine ⟨_, steady.start ⟨List.mem_of_find?_eq_some read, reserved, live⟩ fun other held => ?_⟩
      rw [List.mem_singleton.mp held, sameId]
      exact ownsRow_of_rowFree free
    next => cases taken
  | deleteFile workspaceId id =>
    simp only [step, Option.bind_eq_bind, Option.bind_eq_some_iff] at taken
    obtain ⟨row, read, taken⟩ := taken
    split at taken
    next checked =>
      cases taken
      have listed := List.mem_of_find?_eq_some read
      refine ⟨_, steady.start ⟨checked.2, steady.below row listed, fun current stored same => ?_⟩
        (List.forall_mem_nil _)⟩
      rw [steady.unique stored listed same]
      exact ⟨rfl, fun uploaded => ⟨by simp [uploaded], rfl⟩⟩
    next => cases taken
  | restoreContextFiles workspaceId contextId deletedAt =>
    simp only [step] at taken
    split at taken
    next => cases taken
    next =>
      cases taken
      exact ⟨_, steady.start trivial (List.forall_mem_nil _)⟩
  | sweepOrphanFiles =>
    cases taken
    refine ⟨_, steady.start (fun row selected => ?_) (List.forall_mem_nil _)⟩
    have reserved := (List.mem_filter.mp selected).2
    rw [decide_eq_true_eq] at reserved
    simp [FileObject.counted, reserved.1]
  | sweepSoftDeletedFiles =>
    cases taken
    exact ⟨_, steady.start trivial (List.forall_mem_nil _)⟩
  | drainStorageDeletions =>
    cases taken
    exact ⟨_, steady.start trivial (List.forall_mem_nil _)⟩
  | advance index call =>
    obtain ⟨session, found, moved⟩ := Option.bind_eq_some_iff.mp taken
    have booked := advance_booked steady found undisturbed moved
    refine ⟨index, ?_⟩
    simp only [Files.charge, found]
    exact booked
  | abort index =>
    cases taken
    exact ⟨index, steady.finish⟩

end Outside

section Counter

variable {metered next : Metered} {workspaceId : WorkspaceId}

theorem bill_id (rows : List FileObject) :
    bill id workspaceId rows = ((billed rows workspaceId).map FileObject.sizeBytes).sum := rfl

theorem bill_one (rows : List FileObject) :
    bill (fun _ => 1) workspaceId rows = (billed rows workspaceId).length := by
  rw [bill, length_eq_sum]

theorem usageLaw_iff : UsageLaw metered workspaceId ↔
    ((metered.usage workspaceId).map Usage.usedBytes).getD 0 =
        (metered.registry.rows.map (share id workspaceId)).sum ∧
      ((metered.usage workspaceId).map Usage.fileCount).getD 0 =
        (metered.registry.rows.map (share (fun _ => 1) workspaceId)).sum := by
  rw [← sum_liveRows, ← sum_liveRows]
  constructor
  next =>
    intro law
    exact ⟨law.usedBytes, law.fileCount.trans (length_eq_sum _)⟩
  next =>
    rintro ⟨bytes, files⟩
    exact ⟨bytes, files.trans (length_eq_sum _).symm⟩

theorem delta_cases (charge : Charge) (workspaceId : WorkspaceId) :
    (charge.delta workspaceId = none ∧ (∀ worth, charge.added worth workspaceId = 0) ∧
      ∀ worth, charge.removed worth workspaceId = 0) ∨
    ∃ delta, charge.delta workspaceId = some delta ∧
      delta.bytes = charge.added id workspaceId - charge.removed id workspaceId ∧
      delta.files = charge.added (fun _ => 1) workspaceId - charge.removed (fun _ => 1) workspaceId := by
  cases charge with
  | none => exact .inl ⟨rfl, fun _ => rfl, fun _ => rfl⟩
  | add rows =>
    by_cases empty : billed rows workspaceId = []
    next =>
      refine .inl ⟨by simp [Charge.delta, usageDelta, empty], fun worth => ?_, fun _ => rfl⟩
      simp [Charge.added, bill, empty]
    next =>
      refine .inr ⟨_, if_neg empty, ?_, ?_⟩
      next => simp [Charge.added, Charge.removed, bill_id]
      next => simp [Charge.added, Charge.removed, bill_one]
  | remove rows =>
    by_cases empty : billed rows workspaceId = []
    next =>
      refine .inl ⟨by simp [Charge.delta, usageDelta, empty], fun _ => rfl, fun worth => ?_⟩
      simp [Charge.removed, bill, empty]
    next =>
      refine .inr ⟨_, if_neg empty, ?_, ?_⟩
      next => simp [Charge.added, Charge.removed, bill_id]
      next => simp [Charge.added, Charge.removed, bill_one]

-- A booked step keeps the law, and its upsert ends at the new sum without the floor.
theorem Booked.usageLaw {usage : WorkspaceId → Option Usage}
    (booked : Booked index before after charge) (law : UsageLaw ⟨before, usage⟩ workspaceId) :
    UsageLaw ⟨after, settle usage charge⟩ workspaceId ∧
      ∀ delta, charge.delta workspaceId = some delta →
        0 ≤ (((usage workspaceId).map Usage.usedBytes).getD 0 : Int) + delta.bytes ∧
          0 ≤ (((usage workspaceId).map Usage.fileCount).getD 0 : Int) + delta.files := by
  rw [usageLaw_iff] at law ⊢
  obtain ⟨bytes, files⟩ := law
  have byteSums := booked.balance id workspaceId
  have fileSums := booked.balance (fun _ => 1) workspaceId
  dsimp only at bytes files ⊢
  rcases delta_cases charge workspaceId with ⟨quiet, added, removed⟩ | ⟨delta, upsert, up, down⟩
  next =>
    rw [added, removed] at byteSums fileSums
    refine ⟨?_, fun delta some => by rw [quiet] at some; cases some⟩
    simp only [settle, quiet]
    omega
  next =>
    rw [bytes, files]
    constructor
    next =>
      simp only [settle, upsert, Option.map_some, Option.getD_some]
      cases stored : usage workspaceId with
      | none =>
        simp only [stored, Option.map_none, Option.getD_none] at bytes files
        simp only [upsertWorkspaceUsage]
        omega
      | some old =>
        simp only [stored, Option.map_some, Option.getD_some] at bytes files
        simp only [upsertWorkspaceUsage]
        omega
    next =>
      intro other same
      rw [upsert, Option.some.injEq] at same
      subst same
      omega

theorem migrated_booked {contextId : Option ContextId} {key : Key} {sizeBytes : Nat}
    (steady : Steady before)
    (rows : after.rows = before.rows ++
      [migratedRow before workspaceId contextId key sizeBytes])
    (nextId : after.nextId = before.nextId + 1) :
    Booked before.sessions.length before after
      (.add [migratedRow before workspaceId contextId key sizeBytes]) := by
  refine .of_append steady rows rfl nextId fun worth other => ?_
  have live : bill worth other [migratedRow before workspaceId contextId key sizeBytes] =
      ([migratedRow before workspaceId contextId key sizeBytes].map (share worth other)).sum :=
    bill_live (by simp [migratedRow])
  simpa [Charge.added, Charge.removed] using live.symm

theorem meteredStep_law {action : MeteredAction} (steady : Steady metered.registry)
    (law : ∀ workspaceId, UsageLaw metered workspaceId) (undisturbed : Undisturbed metered action)
    (taken : meteredStep metered action = some next) :
    (Steady next.registry ∧ ∀ workspaceId, UsageLaw next workspaceId) ∧
      WithinStored metered action := by
  obtain ⟨registry, usage⟩ := metered
  cases action with
  | file action =>
    obtain ⟨moved, stepped, rfl⟩ := Option.map_eq_some_iff.mp taken
    obtain ⟨index, booked, kept⟩ := step_booked steady undisturbed stepped
    exact ⟨⟨kept, fun workspaceId => (booked.usageLaw (law workspaceId)).1⟩,
      fun workspaceId => (booked.usageLaw (law workspaceId)).2⟩
  | migrateAttachment workspaceId contextId key sizeBytes =>
    simp only [meteredStep, migrateAttachment] at taken
    have new : Booked registry.sessions.length registry
        { registry with
          rows := registry.rows ++ [migratedRow registry workspaceId contextId key sizeBytes]
          nextId := registry.nextId + 1
          objects := Function.update registry.objects key (some sizeBytes) }
        (.add [migratedRow registry workspaceId contextId key sizeBytes]) :=
      migrated_booked steady rfl rfl
    have within : WithinStored ⟨registry, usage⟩
        (.migrateAttachment workspaceId contextId key sizeBytes) :=
      fun other => (new.usageLaw (law other)).2
    split at taken
    next =>
      split at taken
      next =>
        cases taken
        exact ⟨⟨steady, law⟩, within⟩
      next =>
        cases taken
        exact ⟨⟨(steady.outside new rfl).2, fun other => (new.usageLaw (law other)).1⟩, within⟩
    next => cases taken

end Counter

section Runs

variable {start metered : Metered}

-- In every run in which no row that `delete_file` or the orphan sweep read is counted in or out
-- before they write it, the counters equal the rows and no decrement meets the floor.
theorem storage_counter_equals_rows (noRows : start.registry.rows = [])
    (noSessions : start.registry.sessions = [])
    (unused : ∀ workspaceId, ((start.usage workspaceId).map Usage.usedBytes).getD 0 = 0 ∧
      ((start.usage workspaceId).map Usage.fileCount).getD 0 = 0)
    (reached : Runs.Reaches meteredStep Undisturbed start metered) :
    (∀ workspaceId, UsageLaw metered workspaceId) ∧
      ∀ action next, Undisturbed metered action → meteredStep metered action = some next →
        WithinStored metered action := by
  have kept : Steady metered.registry ∧ ∀ workspaceId, UsageLaw metered workspaceId := by
    refine reached.invariant (fun metered => Steady metered.registry ∧
      ∀ workspaceId, UsageLaw metered workspaceId) ⟨?_, fun workspaceId => ?_⟩
      fun before action after held undisturbed taken =>
        (meteredStep_law held.1 held.2 undisturbed taken).1
    next => constructor <;> simp [noRows, noSessions]
    next =>
      rw [usageLaw_iff]
      simp [noRows, unused]
  exact ⟨kept.2, fun action next undisturbed taken =>
    (meteredStep_law kept.1 kept.2 undisturbed taken).2⟩

def emptyMetered : Metered := { registry := emptyRegistry, usage := fun _ => none }

def uploadOne : List MeteredAction :=
  [.file (.reserveUpload 1 none "aa" 5 900), .file (.put oneKey 5), .file (.confirmUpload 1 0 "aa"),
    .file (.advance 0 .done), .file (.advance 0 .done)]

theorem storage_counter_equals_rows_after_delete :
    ∃ metered, Runs.Reaches meteredStep Undisturbed emptyMetered metered ∧
      metered.usage 1 = some ⟨0, 0⟩ ∧ UsageLaw metered 1 := by
  have allowed : Runs.Allowed meteredStep Undisturbed emptyMetered (uploadOne ++
      [.file (.deleteFile 1 0), .file (.advance 1 .done), .file (.advance 1 .done)]) := by
    iterate 7
      refine ⟨trivial, fun next taken => ?_⟩
      cases taken
    refine ⟨fun current listed _ => ?_, fun next taken => trivial⟩
    rw [List.mem_singleton.mp listed]
  obtain ⟨metered, reached, empty⟩ := Runs.Reaches.of_run (fun metered => metered.usage 1) allowed
    (by rfl)
  exact ⟨metered, reached, empty,
    (storage_counter_equals_rows rfl rfl (fun _ => ⟨rfl, rfl⟩) reached).1 1⟩

-- Two files of the workspace, and two deletes of one of them that both read it as uploaded.
def deleteTwice : List MeteredAction :=
  uploadOne ++ [.file (.reserveUpload 1 none "bb" 3 900), .file (.put (buildStorageKey 1 "bb") 3),
    .file (.confirmUpload 1 1 "bb"), .file (.advance 1 .done), .file (.advance 1 .done),
    .file (.deleteFile 1 0), .file (.deleteFile 1 0), .file (.advance 2 .done),
    .file (.advance 3 .done), .file (.advance 2 .done), .file (.advance 3 .done)]

theorem storage_counter_drifts :
    ∃ metered, Runs.Reaches meteredStep (fun _ _ => True) emptyMetered metered ∧
      ¬ UsageLaw metered 1 := by
  have seen : (Runs.run meteredStep emptyMetered deleteTwice).map (fun metered =>
      (metered.usage 1, (liveRows metered.registry.rows 1).map FileObject.sizeBytes)) =
        some (some ⟨0, 0⟩, [3]) := by
    rfl
  obtain ⟨metered, reached, seen⟩ := Runs.Reaches.of_run _
    (Runs.allowed_of_always (fun _ _ => trivial) emptyMetered deleteTwice) seen
  refine ⟨metered, reached, fun law => ?_⟩
  obtain ⟨usage, sizes⟩ := Prod.mk.inj seen
  have bytes := law.usedBytes
  rw [usage, sizes] at bytes
  cases bytes

end Runs

end MemoryCloud.Files
