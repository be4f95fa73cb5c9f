import MemoryCloud.Files.Model

set_option autoImplicit false

/-!
# What an open session relies on

A session relies on the rows and keys it has locked, and every other session's
step leaves those alone. So each step is described once, by its effect on the
rows and objects, and what the other sessions rely on follows.
-/

namespace MemoryCloud.Files

section Locks

def State.OwnsRow (state : State) (index : Nat) (id : FileId) : Prop :=
  ∀ other session, other ≠ index → state.sessions[other]? = some session → id ∉ session.rowsHeld

def State.OwnsKey (state : State) (index : Nat) (key : Key) : Prop :=
  ∀ other session, other ≠ index → state.sessions[other]? = some session → key ∉ session.keysHeld

variable {state : State} {index : Nat}

theorem ownsRow_of_rowFree {id : FileId} (free : state.rowFree index id = true) :
    state.OwnsRow index id := by
  intro other session different found
  simp only [State.rowFree, List.all_eq_true, decide_eq_true_eq] at free
  rcases free (session, other) (List.mk_mem_zipIdx_iff_getElem?.mpr found) with same | clear
  next => exact absurd same different
  next => exact clear

theorem ownsKey_of_keyFree {key : Key} (free : state.keyFree index key = true) :
    state.OwnsKey index key := by
  intro other session different found
  simp only [State.keyFree, List.all_eq_true, decide_eq_true_eq] at free
  rcases free (session, other) (List.mk_mem_zipIdx_iff_getElem?.mpr found) with same | clear
  next => exact absurd same different
  next => exact clear

theorem ownsRow_of_writable {row : FileObject} (free : state.writable index row = true) :
    state.OwnsRow index row.id := by
  rw [State.writable, Bool.and_eq_true] at free
  exact ownsRow_of_rowFree free.1

end Locks

def Backed (state : State) (row : FileObject) : Prop :=
  ∃ key, row.storageKey = some key ∧ (state.objects key).isSome

-- The row's object must be there: it is uploaded and not soft-deleted past the retention.
def FileObject.needed (row : FileObject) (now : Time) : Prop :=
  row.status = .uploaded ∧ expired now row = false

def Dead (state : State) (id : FileId) : Prop :=
  id < state.nextId ∧ ∀ row ∈ state.rows, row.id = id → row.status = .failed

def Session.Ok (state : State) : Session → Prop
  | .confirming row size => row ∈ state.rows ∧ row.status = .reserved ∧ row.deletedAt = none ∧
      (size.isSome → ∀ key, row.storageKey = some key → (state.objects key).isSome)
  | .restoreChecked _ _ deletedAt checkedAt => checkedAt < deletedAt + restoreWindow
  | .restoring locked files => ∀ id ∈ files, id ∈ locked ∧
      ∃ row ∈ state.rows, row.id = id ∧ row.status = .uploaded ∧ Backed state row
  | .orphanReleasing todo => ∀ entry ∈ todo, Dead state entry.1
  | .orphanKey id key free todo => (∀ entry ∈ todo, Dead state entry.1) ∧ Dead state id ∧
      (free = true → ∀ row ∈ state.rows, row.storageKey = some key → row.id = id)
  | .gcSelected started _ => started ≤ state.now
  | .gcRow started row _ => row ∈ state.rows ∧ expired started row = true ∧ started ≤ state.now
  | .gcKey started row key phase _ => row ∈ state.rows ∧ expired started row = true ∧
      started ≤ state.now ∧ row.storageKey = some key ∧
        (phase = .free → ∀ other ∈ state.rows, other.storageKey = some key → other.id = row.id)
  | .drainKey key phase _ => phase = .free → ∀ row ∈ state.rows, row.storageKey ≠ some key
  | _ => True

structure Sound (state : State) : Prop where
  ids : (state.rows.map FileObject.id).Nodup
  below : ∀ row ∈ state.rows, row.id < state.nextId
  keyed : ∀ row ∈ state.rows, row.storageKey.isSome
  backed : ∀ row ∈ state.rows, row.needed state.now → Backed state row
  sessions : ∀ (index : Nat) (session : Session), state.sessions[index]? = some session →
    session.Ok state
  rows : ∀ (index : Nat) (session : Session), state.sessions[index]? = some session →
    ∀ id ∈ session.rowsHeld, state.OwnsRow index id
  keys : ∀ (index : Nat) (session : Session), state.sessions[index]? = some session →
    ∀ key ∈ session.keysHeld, state.OwnsKey index key

theorem Sound.unique {state : State} (sound : Sound state) {first second : FileObject}
    (one : first ∈ state.rows) (two : second ∈ state.rows) (same : first.id = second.id) :
    first = second :=
  List.inj_on_of_nodup_map sound.ids one two same

structure Effect (index : Nat) (before after : State) : Prop where
  now : before.now ≤ after.now
  nextId : before.nextId ≤ after.nextId
  kept : ∀ row ∈ before.rows, row ∈ after.rows ∨ before.OwnsRow index row.id
  origin : ∀ row ∈ after.rows,
    (∃ old ∈ before.rows, old.id = row.id ∧ old.storageKey = row.storageKey ∧
      (old.status = .failed → row.status = .failed) ∧
        (old.status = .uploaded → row.status = .uploaded)) ∨
    before.nextId ≤ row.id ∧ ∀ key, row.storageKey = some key → before.OwnsKey index key
  objects : ∀ key, (before.objects key).isSome → (after.objects key).isSome ∨
    ∀ row ∈ before.rows, row.storageKey = some key → row.status = .failed ∨
      expired before.now row = true ∧ before.OwnsRow index row.id
  ids : (after.rows.map FileObject.id).Nodup
  below : ∀ row ∈ after.rows, row.id < after.nextId
  keyed : ∀ row ∈ after.rows, row.storageKey.isSome
  backed : ∀ row ∈ after.rows, row.needed after.now → Backed after row

section Frame

variable {index : Nat} {before after : State} {session : Session} {other : Nat}

theorem Effect.dead (effect : Effect index before after) {id : FileId} (dead : Dead before id) :
    Dead after id := by
  refine ⟨Nat.lt_of_lt_of_le dead.1 effect.nextId, fun row listed same => ?_⟩
  rcases effect.origin row listed with ⟨old, stored, sameId, _, failed, _⟩ | ⟨fresh, _⟩
  next => exact failed (dead.2 old stored (sameId.trans same))
  next => exact absurd dead.1 (Nat.not_lt.mpr (same ▸ fresh))

theorem Effect.underKey (effect : Effect index before after) (different : other ≠ index)
    (found : before.sessions[other]? = some session) {key : Key} (held : key ∈ session.keysHeld)
    {row : FileObject} (listed : row ∈ after.rows) (under : row.storageKey = some key) :
    ∃ old ∈ before.rows, old.id = row.id ∧ old.storageKey = some key := by
  rcases effect.origin row listed with ⟨old, stored, sameId, sameKey, _⟩ | ⟨_, owned⟩
  next => exact ⟨old, stored, sameId, sameKey.trans under⟩
  next => exact absurd held (owned key under other session different found)

theorem Effect.heldRow (effect : Effect index before after) (different : other ≠ index)
    (found : before.sessions[other]? = some session) {row : FileObject}
    (listed : row ∈ before.rows) (held : row.id ∈ session.rowsHeld) : row ∈ after.rows := by
  rcases effect.kept row listed with kept | owned
  next => exact kept
  next => exact absurd held (owned other session different found)

theorem Effect.heldObject (effect : Effect index before after) (different : other ≠ index)
    (found : before.sessions[other]? = some session) {row : FileObject} {key : Key}
    (listed : row ∈ before.rows) (held : row.id ∈ session.rowsHeld)
    (alive : row.status ≠ .failed) (under : row.storageKey = some key)
    (present : (before.objects key).isSome) : (after.objects key).isSome := by
  rcases effect.objects key present with kept | gone
  next => exact kept
  next =>
    rcases gone row listed under with failed | ⟨_, owned⟩
    next => exact absurd failed alive
    next => exact absurd held (owned other session different found)

theorem Effect.ok (effect : Effect index before after) (different : other ≠ index)
    (found : before.sessions[other]? = some session) (ok : session.Ok before) :
    session.Ok after := by
  cases session with
  | confirming row size =>
    obtain ⟨listed, reserved, live, present⟩ := ok
    have held : row.id ∈ Session.rowsHeld (.confirming row size) := List.mem_singleton_self _
    refine ⟨effect.heldRow different found listed held, reserved, live, fun headed key under => ?_⟩
    exact effect.heldObject different found listed held (by simp [reserved]) under
      (present headed key under)
  | restoring locked files =>
    intro id chosen
    obtain ⟨held, row, listed, rfl, uploaded, key, under, present⟩ := ok id chosen
    refine ⟨held, row, effect.heldRow different found listed held, rfl, uploaded, key, under, ?_⟩
    exact effect.heldObject different found listed held (by simp [uploaded]) under present
  | orphanReleasing todo => exact fun entry listed => effect.dead (ok entry listed)
  | orphanKey id key free todo =>
    obtain ⟨others, dead, alone⟩ := ok
    refine ⟨fun entry listed => effect.dead (others entry listed), effect.dead dead, ?_⟩
    intro looked row listed under
    obtain ⟨old, stored, sameId, sameKey⟩ := effect.underKey different found
      (List.mem_singleton_self key) listed under
    rw [← sameId]
    exact alone looked old stored sameKey
  | gcSelected started todo => exact Nat.le_trans ok effect.now
  | gcRow started row todo =>
    obtain ⟨listed, old, begun⟩ := ok
    exact ⟨effect.heldRow different found listed (List.mem_singleton_self _), old,
      Nat.le_trans begun effect.now⟩
  | gcKey started row key phase todo =>
    obtain ⟨listed, old, begun, under, alone⟩ := ok
    refine ⟨effect.heldRow different found listed (List.mem_singleton_self _), old,
      Nat.le_trans begun effect.now, under, ?_⟩
    intro looked holder present same
    obtain ⟨earlier, stored, sameId, sameKey⟩ := effect.underKey different found
      (List.mem_singleton_self key) present same
    rw [← sameId]
    exact alone looked earlier stored sameKey
  | drainKey key phase todo =>
    intro looked row listed under
    obtain ⟨old, stored, _, sameKey⟩ := effect.underKey different found
      (List.mem_singleton_self key) listed under
    exact ok looked old stored sameKey
  | idle => trivial
  | deleting row stamp => trivial
  | restoreChecked workspaceId contextId deletedAt checkedAt => exact ok
  | orphanSelected rows => trivial
  | drainSelected todo => trivial

theorem Effect.sound (effect : Effect index before after) (sound : Sound before) (new : Session)
    (sessions : ∀ other session, after.sessions[other]? = some session →
      other = index ∧ session = new ∨ other ≠ index ∧ before.sessions[other]? = some session)
    (ok : new.Ok after) (rows : ∀ id ∈ new.rowsHeld, before.OwnsRow index id)
    (keys : ∀ key ∈ new.keysHeld, before.OwnsKey index key) : Sound after where
  ids := effect.ids
  below := effect.below
  keyed := effect.keyed
  backed := effect.backed
  sessions := by
    intro other session found
    rcases sessions other session found with ⟨rfl, rfl⟩ | ⟨different, old⟩
    next => exact ok
    next => exact effect.ok different old (sound.sessions other session old)
  rows := by
    intro first session found id held second session' apart found'
    rcases sessions first session found with ⟨rfl, rfl⟩ | ⟨different, old⟩
    next =>
      rcases sessions second session' found' with ⟨rfl, _⟩ | ⟨_, old'⟩
      next => exact absurd rfl apart
      next => exact rows id held second session' apart old'
    next =>
      rcases sessions second session' found' with ⟨rfl, rfl⟩ | ⟨_, old'⟩
      next =>
        intro taken
        exact rows id taken first session different old held
      next => exact sound.rows first session old id held second session' apart old'
  keys := by
    intro first session found key held second session' apart found'
    rcases sessions first session found with ⟨rfl, rfl⟩ | ⟨different, old⟩
    next =>
      rcases sessions second session' found' with ⟨rfl, _⟩ | ⟨_, old'⟩
      next => exact absurd rfl apart
      next => exact keys key held second session' apart old'
    next =>
      rcases sessions second session' found' with ⟨rfl, rfl⟩ | ⟨_, old'⟩
      next =>
        intro taken
        exact keys key taken first session different old held
      next => exact sound.keys first session old key held second session' apart old'

end Frame

end MemoryCloud.Files
