import MemoryCloud.Files.Bytes

set_option autoImplicit false

/-!
# A confirmed upload keeps its bytes

Every step that acts on the rows as it read them leaves the registry sound, so
an uploaded row stays uploaded and a live one has its object.
-/

namespace MemoryCloud.Files

variable {before after : State}

section Outside

theorem Sound.outside (sound : Sound before)
    (effect : Effect before.sessions.length before after)
    (same : after.sessions = before.sessions) :
    Effect before.sessions.length before after ∧ Sound after := by
  refine ⟨effect, effect.sound sound .idle ?_ trivial (List.forall_mem_nil _)
    (List.forall_mem_nil _)⟩
  intro other session found
  rw [same] at found
  have inside : other < before.sessions.length := (List.getElem?_eq_some_iff.mp found).1
  exact Or.inr ⟨Nat.ne_of_lt inside, found⟩

theorem Sound.start {session : Session} (sound : Sound before) (ok : session.Ok before)
    (rows : ∀ id ∈ session.rowsHeld, before.OwnsRow before.sessions.length id)
    (keys : ∀ key ∈ session.keysHeld, before.OwnsKey before.sessions.length key) :
    Effect before.sessions.length before (before.start session) ∧
      Sound (before.start session) := by
  have effect : Effect before.sessions.length before (before.start session) :=
    .of_same_rows sound rfl rfl (Nat.le_refl _) fun _ present => present
  refine ⟨effect, effect.sound sound session ?_ (by cases session <;> exact ok) rows keys⟩
  intro other found held
  rw [State.start, List.getElem?_append] at held
  split at held
  next inside => exact Or.inr ⟨Nat.ne_of_lt inside, held⟩
  next outside =>
    rw [List.getElem?_singleton] at held
    split at held
    next zero =>
      cases held
      exact Or.inl ⟨Nat.le_antisymm (Nat.sub_eq_zero_iff_le.mp zero) (Nat.not_lt.mp outside), rfl⟩
    next => cases held

theorem Effect.of_reserve {row : FileObject} (sound : Sound before)
    (rows : after.rows = before.rows ++ [row]) (fresh : row.id = before.nextId)
    (reserved : row.status = .reserved) (keyed : row.storageKey.isSome)
    (free : ∀ key, row.storageKey = some key → before.OwnsKey before.sessions.length key)
    (nextId : after.nextId = before.nextId + 1) (now : after.now = before.now)
    (objects : after.objects = before.objects) :
    Effect before.sessions.length before after where
  now := Nat.le_of_eq now.symm
  nextId := by
    rw [nextId]
    exact Nat.le_succ _
  kept := fun other listed => Or.inl (by rw [rows]; exact List.mem_append_left _ listed)
  origin := by
    rw [rows]
    intro other listed
    rcases List.mem_append.mp listed with stored | new
    next => exact Or.inl ⟨other, stored, rfl, rfl, id, id⟩
    next =>
      rw [List.mem_singleton.mp new]
      exact Or.inr ⟨Nat.le_of_eq fresh.symm, free⟩
  objects := fun key present => Or.inl (by rw [objects]; exact present)
  ids := by
    rw [rows, List.map_append, List.nodup_append]
    refine ⟨sound.ids, List.nodup_singleton _, ?_⟩
    intro first earlier second new
    obtain ⟨other, stored, rfl⟩ := List.mem_map.mp earlier
    rw [List.mem_singleton.mp new, fresh]
    exact Nat.ne_of_lt (sound.below other stored)
  below := by
    rw [rows, nextId]
    intro other listed
    rcases List.mem_append.mp listed with stored | new
    next => exact Nat.lt_succ_of_lt (sound.below other stored)
    next =>
      rw [List.mem_singleton.mp new, fresh]
      exact Nat.lt_succ_self _
  keyed := by
    rw [rows]
    intro other listed
    rcases List.mem_append.mp listed with stored | new
    next => exact sound.keyed other stored
    next =>
      rw [List.mem_singleton.mp new]
      exact keyed
  backed := by
    rw [rows, now]
    intro other listed needed
    rcases List.mem_append.mp listed with stored | new
    next =>
      obtain ⟨key, under, present⟩ := sound.backed other stored needed
      exact ⟨key, under, by rw [objects]; exact present⟩
    next =>
      have uploaded := needed.1
      rw [List.mem_singleton.mp new, reserved] at uploaded
      cases uploaded

theorem mem_purgeRows {scope : PurgeScope} {limit : Option Nat} {row : FileObject}
    (listed : row ∈ purgeRows before scope limit) : row ∈ before.rows ∧ row.deletedAt = none := by
  have chosen : row ∈ before.rows.filter fun row => scope.selects row ∧ row.deletedAt = none := by
    cases limit with
    | none => exact (List.mem_insertionSort _).mp listed
    | some limit => exact (List.mem_insertionSort _).mp (List.mem_of_mem_take listed)
  rw [List.mem_filter, decide_eq_true_eq] at chosen
  exact ⟨chosen.1, chosen.2.2⟩

theorem purge_update {scope : PurgeScope} {limit : Option Nat} {stamp : Time} (sound : Sound before)
    (free : (purgeRows before scope limit).all (before.writable before.sessions.length) = true) :
    Update before.sessions.length before ((purgeRows before scope limit).map FileObject.id) fun row =>
      purgeWrite row stamp := by
  have chosen : ∀ row ∈ before.rows, row.id ∈ (purgeRows before scope limit).map FileObject.id →
      row ∈ purgeRows before scope limit := by
    intro row stored inside
    obtain ⟨other, listed, same⟩ := List.mem_map.mp inside
    rw [← sound.unique (mem_purgeRows listed).1 stored same]
    exact listed
  exact
    { sameId := fun _ => rfl
      sameKey := fun _ => rfl
      owned := fun row stored inside =>
        ownsRow_of_writable (List.all_eq_true.mp free row (chosen row stored inside))
      failed := fun row _ _ failed => by simp [purgeWrite, failed]
      uploaded := fun row _ _ uploaded => by simp [purgeWrite, uploaded]
      backed := fun row stored inside needed => by
        have live := (mem_purgeRows (chosen row stored inside)).2
        refine sound.backed row stored ⟨?_, by simp [expired, live]⟩
        have uploaded := needed.1
        rw [purgeWrite] at uploaded
        split at uploaded
        next => cases uploaded
        next => exact uploaded }

end Outside

theorem step_sound {action : Action} (sound : Sound before) (careful : Careful before action)
    (taken : step before action = some after) :
    ∃ index, Effect index before after ∧ Sound after := by
  cases action with
  | tick seconds =>
    cases taken
    exact ⟨_, sound.outside (.of_same_rows sound rfl rfl (Nat.le_add_right _ _)
      fun _ present => present) rfl⟩
  | put key size =>
    cases taken
    refine ⟨_, sound.outside (.of_same_rows sound rfl rfl (Nat.le_refl _) fun other present => ?_)
      rfl⟩
    by_cases same : other = key
    next => simp [same]
    next => simpa [Function.update_of_ne same] using present
  | reserveUpload workspaceId contextId sha256 sizeBytes ttl =>
    simp only [step] at taken
    split at taken
    next free =>
      cases taken
      refine ⟨_, sound.outside (.of_reserve sound rfl rfl rfl rfl (fun key under => ?_) rfl rfl rfl)
        rfl⟩
      cases under
      exact ownsKey_of_keyFree free.1
    next => cases taken
  | purge scope limit deletedAt =>
    simp only [step] at taken
    split at taken
    next free =>
      cases taken
      exact ⟨_, sound.outside (.of_update sound (purge_update sound free) rfl rfl rfl rfl) rfl⟩
    next => cases taken
  | confirmUpload workspaceId id sha256 =>
    simp only [step, Option.bind_eq_bind, Option.bind_eq_some_iff] at taken
    obtain ⟨row, read, taken⟩ := taken
    split at taken
    next checked =>
      obtain ⟨_, live, reserved, _, free⟩ := checked
      cases taken
      have sameId : row.id = id := by simpa using List.find?_some read
      refine ⟨_, sound.start ⟨List.mem_of_find?_eq_some read, reserved, live,
        fun headed => by cases headed⟩ (fun other held => ?_) (List.forall_mem_nil _)⟩
      rw [List.mem_singleton.mp held, sameId]
      exact ownsRow_of_rowFree free
    next => cases taken
  | deleteFile workspaceId id =>
    simp only [step, Option.bind_eq_bind, Option.bind_eq_some_iff] at taken
    obtain ⟨row, read, taken⟩ := taken
    split at taken
    next =>
      cases taken
      exact ⟨_, sound.start trivial (List.forall_mem_nil _) (List.forall_mem_nil _)⟩
    next => cases taken
  | restoreContextFiles workspaceId contextId deletedAt =>
    simp only [step] at taken
    split at taken
    next => cases taken
    next window =>
      cases taken
      exact ⟨_, sound.start (Nat.not_le.mp window) (List.forall_mem_nil _) (List.forall_mem_nil _)⟩
  | sweepOrphanFiles =>
    cases taken
    exact ⟨_, sound.start trivial (List.forall_mem_nil _) (List.forall_mem_nil _)⟩
  | sweepSoftDeletedFiles =>
    cases taken
    exact ⟨_, sound.start (Nat.le_refl _) (List.forall_mem_nil _) (List.forall_mem_nil _)⟩
  | drainStorageDeletions =>
    cases taken
    exact ⟨_, sound.start trivial (List.forall_mem_nil _) (List.forall_mem_nil _)⟩
  | advance index call =>
    obtain ⟨session, found, moved⟩ := Option.bind_eq_some_iff.mp taken
    exact ⟨index, advance_sound sound found careful moved⟩
  | abort index =>
    cases taken
    exact ⟨index, sound.finish⟩

section Runs

variable {start state later : State}

theorem sound_of_reaches (noRows : start.rows = []) (noSessions : start.sessions = [])
    (reached : Runs.Reaches step Careful start state) : Sound state := by
  refine reached.invariant Sound ?_ fun before action after sound careful taken => ?_
  next => constructor <;> simp [noRows, noSessions]
  next =>
    obtain ⟨_, _, kept⟩ := step_sound sound careful taken
    exact kept

def StaysUploaded (id : FileId) (state : State) : Prop :=
  id < state.nextId ∧ ∀ row ∈ state.rows, row.id = id → row.status = .uploaded

theorem Effect.staysUploaded {index : Nat} {id : FileId} (effect : Effect index before after)
    (stays : StaysUploaded id before) : StaysUploaded id after := by
  refine ⟨Nat.lt_of_lt_of_le stays.1 effect.nextId, fun row listed same => ?_⟩
  rcases effect.origin row listed with ⟨old, stored, sameId, _, _, uploaded⟩ | ⟨fresh, _⟩
  next => exact uploaded (stays.2 old stored (sameId.trans same))
  next => exact absurd stays.1 (Nat.not_lt.mpr (same ▸ fresh))

-- In every run whose steps act on rows as they were read, a row that has been uploaded stays
-- uploaded as long as it exists, and every uploaded row that is not deleted has its object.
theorem uploaded_rows_keep_their_bytes (noRows : start.rows = []) (noSessions : start.sessions = [])
    (reached : Runs.Reaches step Careful start state)
    (onwards : Runs.Reaches step Careful state later) :
    (∀ row ∈ state.rows, row.status = .uploaded → row.deletedAt = none →
      ∃ key, row.storageKey = some key ∧ (state.objects key).isSome) ∧
    ∀ row ∈ state.rows, row.status = .uploaded →
      ∀ current ∈ later.rows, current.id = row.id → current.status = .uploaded := by
  have sound := sound_of_reaches noRows noSessions reached
  constructor
  next =>
    intro row listed uploaded live
    exact sound.backed row listed ⟨uploaded, by simp [expired, live]⟩
  next =>
    intro row listed uploaded
    have initial : StaysUploaded row.id state := by
      refine ⟨sound.below row listed, fun other stored same => ?_⟩
      rw [sound.unique stored listed same]
      exact uploaded
    have kept := onwards.invariant (fun state => Sound state ∧ StaysUploaded row.id state)
      ⟨sound, initial⟩ fun before action after both careful taken => by
        obtain ⟨_, effect, next⟩ := step_sound both.1 careful taken
        exact ⟨next, effect.staysUploaded both.2⟩
    exact kept.2.2

def emptyRegistry : State :=
  { rows := []
    objects := fun _ => none
    deletions := []
    now := 0
    nextId := 0
    sessions := [] }

def oneKey : Key := buildStorageKey 1 "aa"

theorem uploaded_rows_keep_their_bytes_swept :
    ∃ state later, Runs.run step emptyRegistry
        [.reserveUpload 1 none "aa" 5 900, .put oneKey 5, .confirmUpload 1 0 "aa",
          .advance 0 .done, .advance 0 .done] = some state ∧
      Runs.run step state [.tick 5000, .sweepOrphanFiles, .advance 1 .done] = some later ∧
      (∃ row ∈ state.rows, row.status = .uploaded ∧
        ∃ key, row.storageKey = some key ∧ (state.objects key).isSome) ∧
      ∀ row ∈ later.rows, row.status = .uploaded := by
  obtain ⟨state, confirm⟩ : ∃ state, Runs.run step emptyRegistry
      [.reserveUpload 1 none "aa" 5 900, .put oneKey 5, .confirmUpload 1 0 "aa",
        .advance 0 .done, .advance 0 .done] = some state := ⟨_, rfl⟩
  obtain ⟨later, sweep⟩ : ∃ later, Runs.run step state
      [.tick 5000, .sweepOrphanFiles, .advance 1 .done] = some later := by
    cases confirm
    exact ⟨_, rfl⟩
  have reached : Runs.Reaches step Careful emptyRegistry state := by
    refine Runs.Reaches.start.append ?_ confirm
    refine ⟨trivial, fun _ taken => ?_⟩
    cases taken
    refine ⟨trivial, fun _ taken => ?_⟩
    cases taken
    refine ⟨trivial, fun _ taken => ?_⟩
    cases taken
    refine ⟨trivial, fun _ taken => ?_⟩
    cases taken
    exact ⟨trivial, fun _ _ => trivial⟩
  have onwards : Runs.Reaches step Careful state later := by
    refine Runs.Reaches.start.append ?_ sweep
    cases confirm
    refine ⟨trivial, fun _ taken => ?_⟩
    cases taken
    refine ⟨trivial, fun _ taken => ?_⟩
    cases taken
    -- No row is reserved any more, so the sweep has selected none.
    exact ⟨fun _ selected => (by cases selected), fun _ _ => trivial⟩
  have kept := uploaded_rows_keep_their_bytes rfl rfl reached onwards
  obtain ⟨row, listed, uploaded, live, first⟩ : ∃ row ∈ state.rows, row.status = .uploaded ∧
      row.deletedAt = none ∧ ∀ current ∈ later.rows, current.id = row.id := by
    cases confirm
    cases sweep
    refine ⟨_, List.mem_singleton_self _, rfl, rfl, fun current stored => ?_⟩
    rw [List.mem_singleton.mp stored]
    rfl
  exact ⟨state, later, confirm, sweep, ⟨row, listed, uploaded, kept.1 row listed uploaded live⟩,
    fun current stored => kept.2 row listed uploaded current stored (first current stored)⟩

-- The orphan sweep selected the row before `confirm_upload` committed it, and marks it after.
theorem orphan_sweep_fails_a_confirmed_row :
    ∃ state later, Runs.run step emptyRegistry
        [.reserveUpload 1 none "aa" 5 900, .put oneKey 5, .tick 4500, .sweepOrphanFiles,
          .confirmUpload 1 0 "aa", .advance 1 .done, .advance 1 .done] = some state ∧
      Runs.run step state [.advance 0 .done, .advance 0 .done, .advance 0 .done, .advance 0 .done] =
        some later ∧
      state.rows.map (fun row => (row.id, row.status, row.deletedAt)) = [(0, .uploaded, none)] ∧
      (state.objects oneKey).isSome ∧
      later.rows.map (fun row => (row.id, row.status)) = [(0, .failed)] ∧
      later.objects oneKey = none :=
  ⟨_, _, rfl, rfl, rfl, rfl, rfl, rfl⟩

end Runs

end MemoryCloud.Files
