import MemoryCloud.Files.Invariant
import MemoryCloud.Shared.Runs

set_option autoImplicit false

namespace MemoryCloud.Files

variable {index : Nat} {before after : State}

section Effects

theorem expired_mono {first second : Time} (later : first ≤ second) {row : FileObject}
    (old : expired first row = true) : expired second row = true := by
  obtain ⟨stamp, deleted, past⟩ := (Option.any_eq_true _ _).mp old
  rw [decide_eq_true_eq] at past
  exact (Option.any_eq_true _ _).mpr ⟨stamp, deleted, by simpa using Nat.le_trans past later⟩

theorem needed_mono {first second : Time} (later : first ≤ second) {row : FileObject}
    (needed : row.needed second) : row.needed first := by
  refine ⟨needed.1, ?_⟩
  by_contra old
  rw [Bool.not_eq_false] at old
  exact absurd (expired_mono later old) (by simp [needed.2])

theorem Effect.of_same_rows (sound : Sound before) (rows : after.rows = before.rows)
    (nextId : after.nextId = before.nextId) (now : before.now ≤ after.now)
    (objects : ∀ key, (before.objects key).isSome → (after.objects key).isSome) :
    Effect index before after where
  now := now
  nextId := Nat.le_of_eq nextId.symm
  kept := fun row listed => Or.inl (by rw [rows]; exact listed)
  origin := by
    rw [rows]
    exact fun row listed => Or.inl ⟨row, listed, rfl, rfl, id, id⟩
  objects := fun key present => Or.inl (objects key present)
  ids := by
    rw [rows]
    exact sound.ids
  below := by
    rw [rows, nextId]
    exact sound.below
  keyed := by
    rw [rows]
    exact sound.keyed
  backed := by
    rw [rows]
    intro row listed needed
    obtain ⟨key, under, present⟩ := sound.backed row listed (needed_mono now needed)
    exact ⟨key, under, objects key present⟩

structure Update (index : Nat) (state : State) (ids : List FileId)
    (write : FileObject → FileObject) : Prop where
  sameId : ∀ row, (write row).id = row.id
  sameKey : ∀ row, (write row).storageKey = row.storageKey
  owned : ∀ row ∈ state.rows, row.id ∈ ids → state.OwnsRow index row.id
  failed : ∀ row ∈ state.rows, row.id ∈ ids → row.status = .failed → (write row).status = .failed
  uploaded : ∀ row ∈ state.rows, row.id ∈ ids → row.status = .uploaded →
    (write row).status = .uploaded
  backed : ∀ row ∈ state.rows, row.id ∈ ids → (write row).needed state.now → Backed state row

theorem Effect.of_update {ids : List FileId} {write : FileObject → FileObject}
    (sound : Sound before) (update : Update index before ids write)
    (rows : after.rows = updateRows before.rows ids write)
    (nextId : after.nextId = before.nextId) (now : after.now = before.now)
    (objects : after.objects = before.objects) : Effect index before after := by
  have origin : ∀ row ∈ after.rows, ∃ old ∈ before.rows,
      row = old ∨ old.id ∈ ids ∧ row = write old := by
    rw [rows]
    intro row listed
    obtain ⟨old, stored, rfl⟩ := List.mem_map.mp listed
    refine ⟨old, stored, ?_⟩
    split
    next chosen => exact Or.inr ⟨chosen, rfl⟩
    next => exact Or.inl rfl
  refine ⟨Nat.le_of_eq now.symm, Nat.le_of_eq nextId.symm, fun row listed => ?_,
    fun row listed => ?_, fun key present => Or.inl (by rw [objects]; exact present), ?_,
    fun row listed => ?_, fun row listed => ?_, fun row listed needed => ?_⟩
  next =>
    by_cases chosen : row.id ∈ ids
    next => exact Or.inr (update.owned row listed chosen)
    next =>
      rw [rows]
      exact Or.inl (List.mem_map.mpr ⟨row, listed, if_neg chosen⟩)
  next =>
    refine Or.inl ?_
    obtain ⟨old, stored, rfl | ⟨chosen, rfl⟩⟩ := origin row listed
    next => exact ⟨row, stored, rfl, rfl, id, id⟩
    next =>
      exact ⟨old, stored, (update.sameId old).symm, (update.sameKey old).symm,
        update.failed old stored chosen, update.uploaded old stored chosen⟩
  next =>
    have same : after.rows.map FileObject.id = before.rows.map FileObject.id := by
      rw [rows, updateRows, List.map_map]
      refine List.map_congr_left fun row _ => ?_
      dsimp only [Function.comp_apply]
      split
      next => exact update.sameId row
      next => rfl
    rw [same]
    exact sound.ids
  next =>
    rw [nextId]
    obtain ⟨old, stored, rfl | ⟨_, rfl⟩⟩ := origin row listed
    next => exact sound.below row stored
    next =>
      rw [update.sameId]
      exact sound.below old stored
  next =>
    obtain ⟨old, stored, rfl | ⟨_, rfl⟩⟩ := origin row listed
    next => exact sound.keyed row stored
    next =>
      rw [update.sameKey]
      exact sound.keyed old stored
  next =>
    rw [now] at needed
    obtain ⟨old, stored, rfl | ⟨chosen, rfl⟩⟩ := origin row listed
    next =>
      obtain ⟨key, under, present⟩ := sound.backed row stored needed
      exact ⟨key, under, by rw [objects]; exact present⟩
    next =>
      obtain ⟨key, under, present⟩ := update.backed old stored chosen needed
      exact ⟨key, (update.sameKey old).trans under, by rw [objects]; exact present⟩

theorem Effect.of_hardDelete {row : FileObject} (sound : Sound before)
    (owned : before.OwnsRow index row.id) : Effect index before (before.hardDelete row) where
  now := Nat.le_refl _
  nextId := Nat.le_refl _
  kept := by
    intro other listed
    by_cases same : other.id = row.id
    next => exact Or.inr (by rw [same]; exact owned)
    next => exact Or.inl (List.mem_filter.mpr ⟨listed, by simp [same]⟩)
  origin := fun other listed =>
    Or.inl ⟨other, List.mem_of_mem_filter listed, rfl, rfl, id, id⟩
  objects := fun key present => Or.inl present
  ids := sound.ids.sublist (List.filter_sublist.map _)
  below := fun other listed => sound.below other (List.mem_of_mem_filter listed)
  keyed := fun other listed => sound.keyed other (List.mem_of_mem_filter listed)
  backed := fun other listed => sound.backed other (List.mem_of_mem_filter listed)

theorem Effect.of_deleteObject {key : Key} (call : Call) (sound : Sound before)
    (unneeded : ∀ row ∈ before.rows, row.storageKey = some key → row.status = .failed ∨
      expired before.now row = true ∧ before.OwnsRow index row.id) :
    Effect index before (before.deleteObject key call) := by
  have kept : ∀ other, other ≠ key → (before.objects other).isSome →
      ((before.deleteObject key call).objects other).isSome := by
    intro other different present
    simp only [State.deleteObject]
    split
    next => simpa [Function.update_of_ne different] using present
    next => exact present
  refine ⟨Nat.le_refl _, Nat.le_refl _, fun row listed => Or.inl listed,
    fun row listed => Or.inl ⟨row, listed, rfl, rfl, id, id⟩, fun other present => ?_, sound.ids,
    sound.below, sound.keyed, fun row listed needed => ?_⟩
  next =>
    by_cases same : other = key
    next =>
      rw [same]
      exact Or.inr unneeded
    next => exact Or.inl (kept other same present)
  next =>
    obtain ⟨other, under, present⟩ := sound.backed row listed needed
    refine ⟨other, under, ?_⟩
    by_cases same : other = key
    next =>
      rw [same] at under
      rcases unneeded row listed under with failed | ⟨old, _⟩
      next => exact absurd (failed.symm.trans needed.1) (by decide)
      next => exact absurd (old.symm.trans needed.2) (by decide)
    next => exact kept other same present

end Effects

-- The step acts on rows as it read them: the orphan sweep and `delete_file` write rows that are as
-- their unlocked reads saw them, and a restore locks its rows within a day of its window check.
def Careful (state : State) : Action → Prop
  | .advance index _ =>
    match state.sessions[index]? with
    | some (.orphanSelected rows) => ∀ row ∈ rows, ∀ current ∈ state.rows, current.id = row.id →
        current.status = .reserved
    | some (.deleting row (some _)) => ∀ current ∈ state.rows, current.id = row.id →
        current.status = row.status ∧ current.deletedAt = none
    | some (.restoreChecked _ _ _ checkedAt) => state.now ≤ checkedAt + 86400
    | _ => True
  | _ => True

section Advance

-- The equations of `advance` are made once for all its cases.
attribute [local simp] advance

variable {session new : Session} {call : Call}

theorem Sound.move (sound : Sound before) (new : Session) (effect : Effect index before after)
    (same : after.sessions = before.sessions.set index new) (ok : new.Ok after)
    (rows : ∀ id ∈ new.rowsHeld, before.OwnsRow index id)
    (keys : ∀ key ∈ new.keysHeld, before.OwnsKey index key) :
    Effect index before after ∧ Sound after := by
  refine ⟨effect, effect.sound sound new ?_ ok rows keys⟩
  intro other session found
  rw [same, List.getElem?_set] at found
  split at found
  next here =>
    split at found
    next =>
      cases found
      exact Or.inl ⟨here.symm, rfl⟩
    next => cases found
  next elsewhere => exact Or.inr ⟨fun here => elsewhere here.symm, found⟩

theorem Effect.setSession (effect : Effect index before after) (session : Session) :
    Effect index before (after.setSession index session) :=
  ⟨effect.now, effect.nextId, effect.kept, effect.origin, effect.objects, effect.ids, effect.below,
    effect.keyed, effect.backed⟩

theorem Sound.turn (sound : Sound before) (ok : new.Ok before)
    (rows : ∀ id ∈ new.rowsHeld, before.OwnsRow index id)
    (keys : ∀ key ∈ new.keysHeld, before.OwnsKey index key) :
    Effect index before (before.setSession index new) ∧ Sound (before.setSession index new) := by
  refine sound.move _ (.of_same_rows sound rfl rfl (Nat.le_refl _) fun _ present => present) rfl ?_
    rows keys
  cases new <;> exact ok

theorem Sound.finish (sound : Sound before) :
    Effect index before (before.setSession index .idle) ∧
      Sound (before.setSession index .idle) :=
  sound.turn trivial (List.forall_mem_nil _) (List.forall_mem_nil _)

theorem confirm_sound {row : FileObject} {size : Option Nat} (sound : Sound before)
    (found : before.sessions[index]? = some (.confirming row size))
    (taken : advance before index call (.confirming row size) = some after) :
    Effect index before after ∧ Sound after := by
  have ok := sound.sessions index _ found
  have owned := sound.rows index _ found
  cases size with
  | none =>
    simp only [advance] at taken
    split at taken
    next size present =>
      split at taken
      next =>
        cases taken
        refine sound.turn ⟨ok.1, ok.2.1, ok.2.2.1, fun _ key under => ?_⟩ owned (List.forall_mem_nil _)
        rw [under] at present
        simpa using congrArg Option.isSome present
      next =>
        cases taken
        exact sound.finish
    next =>
      cases taken
      exact sound.finish
  | some size =>
    simp only [advance] at taken
    split at taken
    next =>
      cases taken
      obtain ⟨listed, reserved, live, present⟩ := ok
      obtain ⟨key, under⟩ := Option.isSome_iff_exists.mp (sound.keyed row listed)
      have same : ∀ other ∈ before.rows, other.id ∈ [row.id] → other = row :=
        fun other stored chosen => sound.unique stored listed (List.mem_singleton.mp chosen)
      have update : Update index before [row.id] fun row => confirmWrite row size before.now :=
        { sameId := fun _ => rfl
          sameKey := fun _ => rfl
          owned := fun other stored chosen => by
            rw [same other stored chosen]
            exact owned row.id (List.mem_singleton_self _)
          failed := fun other stored chosen failed => by
            rw [same other stored chosen, reserved] at failed
            cases failed
          uploaded := fun _ _ _ _ => rfl
          backed := fun other stored chosen _ => by
            rw [same other stored chosen]
            exact ⟨key, under, present rfl key under⟩ }
      exact sound.move _ (.of_update sound update rfl rfl rfl rfl) rfl trivial
        (List.forall_mem_nil _) (List.forall_mem_nil _)
    next => cases taken

theorem delete_sound {row : FileObject} {stamp : Option Time} (sound : Sound before)
    (found : before.sessions[index]? = some (.deleting row stamp))
    (careful : Careful before (.advance index call))
    (taken : advance before index call (.deleting row stamp) = some after) :
    Effect index before after ∧ Sound after := by
  cases stamp with
  | none =>
    cases taken
    exact sound.turn trivial (List.forall_mem_nil _) (List.forall_mem_nil _)
  | some stamp =>
    simp only [advance] at taken
    simp only [Careful, found] at careful
    split at taken
    next =>
      cases taken
      exact sound.finish
    next current read =>
      split at taken
      next free =>
        cases taken
        have listed := List.mem_of_find?_eq_some read
        have sameId : current.id = row.id := by simpa using List.find?_some read
        have same : ∀ other ∈ before.rows, other.id ∈ [row.id] → other = current :=
          fun other stored chosen =>
            sound.unique stored listed ((List.mem_singleton.mp chosen).trans sameId.symm)
        obtain ⟨asRead, live⟩ := careful current listed sameId
        have update : Update index before [row.id] fun current =>
            deleteWrite current row.status stamp :=
          { sameId := fun _ => rfl
            sameKey := fun _ => rfl
            owned := fun other stored chosen => by
              rw [same other stored chosen]
              exact ownsRow_of_writable free
            failed := fun other stored chosen failed => by
              simp [deleteWrite, failed]
            uploaded := fun other stored chosen uploaded => by
              rw [same other stored chosen] at uploaded ⊢
              simp [deleteWrite, ← asRead, uploaded]
            backed := fun other stored chosen needed => by
              rw [same other stored chosen] at needed ⊢
              refine sound.backed current listed ⟨?_, by simp [expired, live]⟩
              have uploaded := needed.1
              rw [deleteWrite] at uploaded
              split at uploaded
              next => cases uploaded
              next => exact uploaded }
        exact sound.move _ (.of_update sound update rfl rfl rfl rfl) rfl trivial
          (List.forall_mem_nil _) (List.forall_mem_nil _)
      next => cases taken

-- A day lies between the end of the restore window and the first sweep of the row.
theorem restoreWindow_add_day : restoreWindow + 86400 = retention :=
  Nat.sub_add_cancel (Nat.le_mul_of_pos_left 86400 (by decide))

theorem before_retention {deletedAt checkedAt now : Time}
    (window : checkedAt < deletedAt + restoreWindow) (careful : now ≤ checkedAt + 86400) :
    now < deletedAt + retention := by
  calc now ≤ checkedAt + 86400 := careful
    _ < deletedAt + restoreWindow + 86400 := Nat.add_lt_add_right window _
    _ = deletedAt + retention := by rw [Nat.add_assoc, restoreWindow_add_day]

theorem not_expired {row : FileObject} {deletedAt now : Time} (deleted : row.deletedAt = some deletedAt)
    (early : now < deletedAt + retention) : expired now row = false := by
  rw [expired, deleted, Option.any_some]
  exact decide_eq_false (Nat.not_le.mpr early)

theorem restoreLock_sound {workspaceId : WorkspaceId} {contextId : ContextId}
    {deletedAt checkedAt : Time} (sound : Sound before)
    (found : before.sessions[index]? =
      some (.restoreChecked workspaceId contextId deletedAt checkedAt))
    (careful : Careful before (.advance index call))
    (taken : advance before index call (.restoreChecked workspaceId contextId deletedAt checkedAt) =
      some after) : Effect index before after ∧ Sound after := by
  have window : checkedAt < deletedAt + restoreWindow := sound.sessions index _ found
  simp only [Careful, found] at careful
  simp only [advance] at taken
  split at taken
  next free =>
    cases taken
    have chosen : ∀ row ∈ restorable before workspaceId contextId deletedAt,
        row ∈ before.rows ∧ row.deletedAt = some deletedAt ∧ row.status = .uploaded := by
      intro row listed
      rw [restorable, List.mem_filter, decide_eq_true_eq] at listed
      exact ⟨listed.1, listed.2.2.2.1, listed.2.2.2.2⟩
    refine sound.turn ?_ (fun id held => ?_) (List.forall_mem_nil _)
    next =>
      intro id listed
      obtain ⟨row, kept, rfl⟩ := List.mem_map.mp listed
      have inside := List.mem_of_mem_filter kept
      obtain ⟨stored, deleted, uploaded⟩ := chosen row inside
      refine ⟨List.mem_map_of_mem inside, row, stored, rfl, uploaded, ?_⟩
      exact sound.backed row stored
        ⟨uploaded, not_expired deleted (before_retention window careful)⟩
    next =>
      obtain ⟨row, inside, rfl⟩ := List.mem_map.mp held
      exact ownsRow_of_rowFree (List.all_eq_true.mp free row inside)
  next => cases taken

theorem restore_sound {locked files : List FileId} (sound : Sound before)
    (found : before.sessions[index]? = some (.restoring locked files))
    (taken : advance before index call (.restoring locked files) = some after) :
    Effect index before after ∧ Sound after := by
  have ok := sound.sessions index _ found
  simp only [advance] at taken
  split at taken
  next free =>
    split at taken
    next =>
      cases taken
      have update : Update index before files restoreWrite :=
        { sameId := fun _ => rfl
          sameKey := fun _ => rfl
          owned := fun row stored chosen =>
            sound.rows index _ found row.id (ok row.id chosen).1
          failed := fun _ _ _ failed => failed
          uploaded := fun _ _ _ uploaded => uploaded
          backed := fun row stored chosen _ => by
            obtain ⟨_, other, listed, sameId, _, backed⟩ := ok row.id chosen
            rw [← sound.unique listed stored sameId]
            exact backed }
      exact sound.move _ (.of_update sound update rfl rfl rfl rfl) rfl trivial
        (List.forall_mem_nil _) (List.forall_mem_nil _)
    next =>
      cases taken
      exact sound.finish
  next => cases taken

theorem orphanMark_sound {rows : List FileObject} (sound : Sound before)
    (found : before.sessions[index]? = some (.orphanSelected rows))
    (careful : Careful before (.advance index call))
    (taken : advance before index call (.orphanSelected rows) = some after) :
    Effect index before after ∧ Sound after := by
  simp only [Careful, found] at careful
  simp only [advance] at taken
  split at taken
  next present =>
    split at taken
    next free =>
      cases taken
      have reserved : ∀ row ∈ before.rows, row.id ∈ rows.map FileObject.id →
          row.status = .reserved := by
        intro row stored chosen
        obtain ⟨read, listed, same⟩ := List.mem_map.mp chosen
        exact careful read listed row stored same.symm
      have update : Update index before (rows.map FileObject.id) failWrite :=
        { sameId := fun _ => rfl
          sameKey := fun _ => rfl
          owned := fun row stored chosen => by
            obtain ⟨read, listed, same⟩ := List.mem_map.mp chosen
            rw [← same]
            exact ownsRow_of_writable (List.all_eq_true.mp free read listed)
          failed := fun _ _ _ _ => rfl
          uploaded := fun row stored chosen uploaded => by
            rw [reserved row stored chosen] at uploaded
            cases uploaded
          backed := fun _ _ _ needed => by cases needed.1 }
      refine sound.move _ (.of_update sound update rfl rfl rfl rfl) rfl ?_
        (List.forall_mem_nil _) (List.forall_mem_nil _)
      intro entry listed
      obtain ⟨read, chosen, rfl⟩ := List.mem_map.mp ((List.mem_insertionSort _).mp listed)
      refine ⟨?_, fun row stored same => ?_⟩
      next =>
        obtain ⟨current, read'⟩ := Option.isSome_iff_exists.mp (List.all_eq_true.mp present read chosen)
        have sameId : current.id = read.id := by simpa using List.find?_some read'
        exact sameId ▸ sound.below current (List.mem_of_find?_eq_some read')
      next =>
        obtain ⟨old, _, rfl⟩ := List.mem_map.mp stored
        split at same
        next inside => simp [inside, failWrite]
        next outside =>
          refine absurd ?_ outside
          rw [same]
          exact List.mem_map_of_mem chosen
    next => cases taken
  next =>
    cases taken
    exact sound.finish

theorem orphanRelease_sound {todo : List (FileId × Option Key)} (sound : Sound before)
    (found : before.sessions[index]? = some (.orphanReleasing todo))
    (taken : advance before index call (.orphanReleasing todo) = some after) :
    Effect index before after ∧ Sound after := by
  have ok : ∀ entry ∈ todo, Dead before entry.1 := sound.sessions index _ found
  cases todo with
  | nil =>
    simp only [advance] at taken
    split at taken
    next free =>
      cases taken
      have failed : ∀ row ∈ before.rows,
          row.id ∈ (before.rows.filter fun row => row.status = .failed ∧ row.deletedAt = none).map
            FileObject.id → row.status = .failed ∧ before.OwnsRow index row.id := by
        intro row stored chosen
        obtain ⟨other, listed, same⟩ := List.mem_map.mp chosen
        have kept := List.mem_filter.mp listed
        rw [decide_eq_true_eq] at kept
        rw [← sound.unique kept.1 stored same]
        exact ⟨kept.2.1, ownsRow_of_writable (List.all_eq_true.mp free other listed)⟩
      have update : Update index before
          ((before.rows.filter fun row => row.status = .failed ∧ row.deletedAt = none).map
            FileObject.id) fun row => stampWrite row before.now :=
        { sameId := fun _ => rfl
          sameKey := fun _ => rfl
          owned := fun row stored chosen => (failed row stored chosen).2
          failed := fun _ _ _ failed => failed
          uploaded := fun _ _ _ uploaded => uploaded
          backed := fun row stored chosen needed => by
            have uploaded : row.status = .uploaded := needed.1
            rw [(failed row stored chosen).1] at uploaded
            cases uploaded }
      exact sound.move _ (.of_update sound update rfl rfl rfl rfl) rfl trivial
        (List.forall_mem_nil _) (List.forall_mem_nil _)
    next => cases taken
  | cons entry todo =>
    have rest : ∀ other ∈ todo, Dead before other.1 :=
      fun other listed => ok other (List.mem_cons_of_mem _ listed)
    obtain ⟨id, key⟩ := entry
    cases key with
    | none =>
      cases taken
      exact sound.turn rest (List.forall_mem_nil _) (List.forall_mem_nil _)
    | some key =>
      simp only [advance] at taken
      split at taken
      next free =>
        cases taken
        refine sound.turn ⟨rest, ok _ List.mem_cons_self, fun looked => by cases looked⟩
          (List.forall_mem_nil _) fun other held => ?_
        rw [List.mem_singleton.mp held]
        exact ownsKey_of_keyFree free
      next => cases taken

theorem not_heldByAnother {key : Key} {id : FileId}
    (alone : ¬ before.heldByAnother key id = true) :
    ∀ row ∈ before.rows, row.storageKey = some key → row.id = id := by
  intro row listed under
  by_contra other
  exact alone (List.any_eq_true.mpr ⟨row, listed, by simp [under, other]⟩)

theorem orphanKey_sound {id : FileId} {key : Key} {free : Bool}
    {todo : List (FileId × Option Key)} (sound : Sound before)
    (found : before.sessions[index]? = some (.orphanKey id key free todo))
    (taken : advance before index call (.orphanKey id key free todo) = some after) :
    Effect index before after ∧ Sound after := by
  obtain ⟨rest, dead, alone⟩ := sound.sessions index _ found
  have keys := sound.keys index _ found
  cases free with
  | false =>
    simp only [advance] at taken
    split at taken
    next =>
      cases taken
      exact sound.turn rest (List.forall_mem_nil _) (List.forall_mem_nil _)
    next unheld =>
      cases taken
      exact sound.turn ⟨rest, dead, fun _ => not_heldByAnother unheld⟩
        (List.forall_mem_nil _) keys
  | true =>
    cases taken
    have effect : Effect index before (before.deleteObject key call) :=
      .of_deleteObject call sound fun row listed under =>
        Or.inl (dead.2 row listed (alone rfl row listed under))
    exact sound.move (.orphanReleasing todo) (effect.setSession _) rfl rest
      (List.forall_mem_nil _) (List.forall_mem_nil _)

theorem gcSelect_sound {started : Time} {todo : List FileId} (sound : Sound before)
    (found : before.sessions[index]? = some (.gcSelected started todo))
    (taken : advance before index call (.gcSelected started todo) = some after) :
    Effect index before after ∧ Sound after := by
  have begun : started ≤ before.now := sound.sessions index _ found
  cases todo with
  | nil =>
    cases taken
    exact sound.finish
  | cons id todo =>
    simp only [advance] at taken
    split at taken
    next =>
      cases taken
      exact sound.turn begun (List.forall_mem_nil _) (List.forall_mem_nil _)
    next row read =>
      split at taken
      next free =>
        cases taken
        have old : expired started row = true := by
          have chosen := List.find?_some read
          rw [decide_eq_true_eq] at chosen
          exact chosen.2
        refine sound.turn ⟨List.mem_of_find?_eq_some read, old, begun⟩ (fun other held => ?_)
          (List.forall_mem_nil _)
        rw [List.mem_singleton.mp held]
        exact ownsRow_of_rowFree free
      next => cases taken

theorem gcRow_sound {started : Time} {row : FileObject} {todo : List FileId} (sound : Sound before)
    (found : before.sessions[index]? = some (.gcRow started row todo))
    (taken : advance before index call (.gcRow started row todo) = some after) :
    Effect index before after ∧ Sound after := by
  obtain ⟨listed, old, begun⟩ := sound.sessions index _ found
  have owned := sound.rows index _ found
  simp only [advance] at taken
  split at taken
  next =>
    cases taken
    have effect : Effect index before (before.hardDelete row) :=
      .of_hardDelete sound (owned row.id (List.mem_singleton_self _))
    exact sound.move (.gcSelected started todo) (effect.setSession _) rfl begun
      (List.forall_mem_nil _) (List.forall_mem_nil _)
  next key under =>
    split at taken
    next free =>
      cases taken
      refine sound.turn ⟨listed, old, begun, under, fun looked => by cases looked⟩ owned
        fun other held => ?_
      rw [List.mem_singleton.mp held]
      exact ownsKey_of_keyFree free
    next => cases taken

theorem gcKey_sound {started : Time} {row : FileObject} {key : Key} {phase : Phase}
    {todo : List FileId} (sound : Sound before)
    (found : before.sessions[index]? = some (.gcKey started row key phase todo))
    (taken : advance before index call (.gcKey started row key phase todo) = some after) :
    Effect index before after ∧ Sound after := by
  obtain ⟨listed, old, begun, under, alone⟩ := sound.sessions index _ found
  have owned := sound.rows index _ found
  have keys := sound.keys index _ found
  cases phase with
  | locked =>
    simp only [advance] at taken
    split at taken
    next =>
      cases taken
      exact sound.turn ⟨listed, old, begun, under, fun looked => by cases looked⟩ owned keys
    next unheld =>
      cases taken
      exact sound.turn ⟨listed, old, begun, under, fun _ => not_heldByAnother unheld⟩ owned keys
  | free =>
    -- The only row under the key is the swept one, past its retention.
    have effect : Effect index before (before.deleteObject key call) := by
      refine .of_deleteObject call sound fun other stored same => Or.inr ?_
      rw [sound.unique stored listed (alone rfl other stored same)]
      exact ⟨expired_mono begun old, owned row.id (List.mem_singleton_self _)⟩
    cases call with
    | done =>
      cases taken
      exact sound.move (.gcKey started row key .done todo) (effect.setSession _) rfl
        ⟨listed, old, begun, under, fun looked => by cases looked⟩ owned keys
    | failed removed =>
      cases taken
      exact sound.move (.gcSelected started todo) (effect.setSession _) rfl begun
        (List.forall_mem_nil _) (List.forall_mem_nil _)
  | done =>
    cases taken
    have effect : Effect index before (before.hardDelete row) :=
      .of_hardDelete sound (owned row.id (List.mem_singleton_self _))
    exact sound.move (.gcSelected started todo) (effect.setSession _) rfl begun
      (List.forall_mem_nil _) (List.forall_mem_nil _)

theorem drainSelect_sound {todo : List Key} (sound : Sound before)
    (found : before.sessions[index]? = some (.drainSelected todo))
    (taken : advance before index call (.drainSelected todo) = some after) :
    Effect index before after ∧ Sound after := by
  cases todo with
  | nil =>
    cases taken
    exact sound.finish
  | cons key todo =>
    simp only [advance] at taken
    split at taken
    next free =>
      split at taken
      next =>
        cases taken
        refine sound.turn (fun looked => by cases looked) (List.forall_mem_nil _)
          fun other held => ?_
        rw [List.mem_singleton.mp held]
        exact ownsKey_of_keyFree free
      next =>
        cases taken
        exact sound.turn trivial (List.forall_mem_nil _) (List.forall_mem_nil _)
    next => cases taken

theorem drainKey_sound {key : Key} {phase : Phase} {todo : List Key} (sound : Sound before)
    (found : before.sessions[index]? = some (.drainKey key phase todo))
    (taken : advance before index call (.drainKey key phase todo) = some after) :
    Effect index before after ∧ Sound after := by
  have unregistered := sound.sessions index _ found
  have keys := sound.keys index _ found
  cases phase with
  | locked =>
    simp only [advance] at taken
    split at taken
    next =>
      cases taken
      exact sound.turn (fun looked => by cases looked) (List.forall_mem_nil _) keys
    next free =>
      cases taken
      refine sound.turn (fun _ row listed under => free ?_) (List.forall_mem_nil _) keys
      exact List.any_eq_true.mpr ⟨row, listed, by simp [under]⟩
  | free =>
    have effect : Effect index before (before.deleteObject key call) :=
      .of_deleteObject call sound fun row listed under => absurd under (unregistered rfl row listed)
    cases call with
    | done =>
      cases taken
      exact sound.move (.drainKey key .done todo) (effect.setSession _) rfl
        (fun looked => by cases looked) (List.forall_mem_nil _) keys
    | failed removed =>
      cases taken
      exact sound.move (.drainSelected todo) (effect.setSession _) rfl trivial
        (List.forall_mem_nil _) (List.forall_mem_nil _)
  | done =>
    cases taken
    exact sound.move (.drainSelected todo)
      (.of_same_rows sound rfl rfl (Nat.le_refl _) fun _ present => present) rfl trivial
      (List.forall_mem_nil _) (List.forall_mem_nil _)

theorem advance_sound (sound : Sound before) (found : before.sessions[index]? = some session)
    (careful : Careful before (.advance index call))
    (taken : advance before index call session = some after) :
    Effect index before after ∧ Sound after := by
  cases session with
  | idle => cases taken
  | confirming row size => exact confirm_sound sound found taken
  | deleting row stamp => exact delete_sound sound found careful taken
  | restoreChecked workspaceId contextId deletedAt checkedAt =>
    exact restoreLock_sound sound found careful taken
  | restoring locked files => exact restore_sound sound found taken
  | orphanSelected rows => exact orphanMark_sound sound found careful taken
  | orphanReleasing todo => exact orphanRelease_sound sound found taken
  | orphanKey id key free todo => exact orphanKey_sound sound found taken
  | gcSelected started todo => exact gcSelect_sound sound found taken
  | gcRow started row todo => exact gcRow_sound sound found taken
  | gcKey started row key phase todo => exact gcKey_sound sound found taken
  | drainSelected todo => exact drainSelect_sound sound found taken
  | drainKey key phase todo => exact drainKey_sound sound found taken

end Advance

end MemoryCloud.Files
