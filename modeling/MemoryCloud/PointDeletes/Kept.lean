import MemoryCloud.PointDeletes.Dropped

set_option autoImplicit false

/-!
# The queue covers what forget left to delete

A queue row is removed only at the version its deleter read, after a look made
later than that read. So a delete queued by a forget stays queued until the
point is gone, unless a live row named it or a writer wrote it again.
-/

namespace MemoryCloud.PointDeletes

section Stamps

structure WellStamped (table : List QueueRow × Nat) : Prop where
  ids : (table.1.map QueueRow.id).Nodup
  below : ∀ row ∈ table.1, row.id < table.2 ∧ row.queuedAt < table.2

structure Later (old new : List QueueRow × Nat) : Prop where
  clock : old.2 ≤ new.2
  origin : ∀ row ∈ new.1,
    (∃ before ∈ old.1, before.id = row.id ∧ before.entry = row.entry ∧
      (before.queuedAt = row.queuedAt ∨ old.2 ≤ row.queuedAt)) ∨
    old.2 ≤ row.id ∧ old.2 ≤ row.queuedAt
  kept : ∀ row ∈ old.1, ∃ after ∈ new.1, after.entry = row.entry

variable {old middle new : List QueueRow × Nat}

theorem Later.refl (table : List QueueRow × Nat) : Later table table where
  clock := Nat.le_refl _
  origin := fun row listed => Or.inl ⟨row, listed, rfl, rfl, Or.inl rfl⟩
  kept := fun row listed => ⟨row, listed, rfl⟩

theorem Later.trans (first : Later old middle) (second : Later middle new) : Later old new where
  clock := first.clock.trans second.clock
  origin := by
    intro row listed
    rcases second.origin row listed with ⟨between, present, sameId, sameEntry, stamp⟩ | ⟨id, stamp⟩
    next =>
      rcases first.origin between present with ⟨before, stored, olderId, olderEntry, older⟩ | ⟨id, fresh⟩
      next =>
        refine Or.inl ⟨before, stored, olderId.trans sameId, olderEntry.trans sameEntry, ?_⟩
        rcases stamp with same | late
        next =>
          rw [← same]
          exact older
        next => exact Or.inr (first.clock.trans late)
      next =>
        refine Or.inr ⟨sameId ▸ id, ?_⟩
        rcases stamp with same | late
        next => exact same ▸ fresh
        next => exact first.clock.trans late
    next => exact Or.inr ⟨first.clock.trans id, first.clock.trans stamp⟩
  kept := by
    intro row listed
    obtain ⟨between, present, same⟩ := first.kept row listed
    obtain ⟨after, stored, sameEntry⟩ := second.kept between present
    exact ⟨after, stored, sameEntry.trans same⟩

theorem queueEntry_later (table : List QueueRow × Nat) (entry : PointDelete) :
    Later table (queueEntry table entry) := by
  obtain ⟨queue, clock⟩ := table
  unfold queueEntry
  dsimp only
  split
  next =>
    refine ⟨Nat.le_succ _, fun row listed => ?_, fun row listed => ?_⟩
    next =>
      obtain ⟨before, stored, rfl⟩ := List.mem_map.mp listed
      refine Or.inl ⟨before, stored, ?_⟩
      split
      next => exact ⟨rfl, rfl, Or.inr (Nat.le_refl _)⟩
      next => exact ⟨rfl, rfl, Or.inl rfl⟩
    next =>
      refine ⟨_, List.mem_map_of_mem listed, ?_⟩
      split <;> rfl
  next =>
    refine ⟨Nat.le_succ _, fun row listed => ?_, fun row listed => ?_⟩
    next =>
      rcases List.mem_append.mp listed with stored | fresh
      next => exact Or.inl ⟨row, stored, rfl, rfl, Or.inl rfl⟩
      next =>
        rw [List.mem_singleton.mp fresh]
        exact Or.inr ⟨Nat.le_refl _, Nat.le_refl _⟩
    next => exact ⟨row, List.mem_append_left _ listed, rfl⟩

theorem queueEntry_wellStamped {table : List QueueRow × Nat} (stamped : WellStamped table)
    (entry : PointDelete) : WellStamped (queueEntry table entry) := by
  obtain ⟨queue, clock⟩ := table
  unfold queueEntry
  dsimp only
  split
  next =>
    refine ⟨?_, fun row listed => ?_⟩
    next =>
      have same : ((queue.map fun row => if row.entry = entry then
          { row with queuedAt := clock, attempts := 0 } else row).map QueueRow.id) =
            queue.map QueueRow.id := by
        rw [List.map_map]
        refine List.map_congr_left fun row _ => ?_
        dsimp only [Function.comp_apply]
        split <;> rfl
      rw [same]
      exact stamped.ids
    next =>
      obtain ⟨before, stored, rfl⟩ := List.mem_map.mp listed
      obtain ⟨id, stamp⟩ := stamped.below before stored
      split
      next => exact ⟨Nat.lt_succ_of_lt id, Nat.lt_succ_self _⟩
      next => exact ⟨Nat.lt_succ_of_lt id, Nat.lt_succ_of_lt stamp⟩
  next =>
    refine ⟨?_, fun row listed => ?_⟩
    next =>
      rw [List.map_append, List.nodup_append]
      refine ⟨stamped.ids, by simp, ?_⟩
      intro id listed last drawn same
      obtain ⟨row, stored, rfl⟩ := List.mem_map.mp listed
      have below := (stamped.below row stored).1
      rw [same, List.mem_singleton.mp drawn] at below
      exact Nat.lt_irrefl _ below
    next =>
      rcases List.mem_append.mp listed with stored | fresh
      next =>
        obtain ⟨id, stamp⟩ := stamped.below row stored
        exact ⟨Nat.lt_succ_of_lt id, Nat.lt_succ_of_lt stamp⟩
      next =>
        rw [List.mem_singleton.mp fresh]
        exact ⟨Nat.lt_succ_self _, Nat.lt_succ_self _⟩

theorem queueEntry_fresh (table : List QueueRow × Nat) (entry : PointDelete) :
    (∃ row ∈ (queueEntry table entry).1, row.entry = entry) ∧
      ∀ row ∈ (queueEntry table entry).1, row.entry = entry → table.2 ≤ row.queuedAt := by
  obtain ⟨queue, clock⟩ := table
  unfold queueEntry
  dsimp only
  split
  next present =>
    obtain ⟨row, stored, rfl⟩ := List.mem_map.mp present
    refine ⟨⟨_, List.mem_map_of_mem stored, by simp⟩, fun other listed same => ?_⟩
    obtain ⟨before, _, rfl⟩ := List.mem_map.mp listed
    split at same
    next here => simp [here]
    next elsewhere => exact absurd same elsewhere
  next absent =>
    refine ⟨⟨_, List.mem_append_right _ (List.mem_singleton_self _), rfl⟩, fun row listed same => ?_⟩
    rcases List.mem_append.mp listed with stored | fresh
    next => exact absurd (List.mem_map.mpr ⟨row, stored, same⟩) absent
    next =>
      rw [List.mem_singleton.mp fresh]

theorem foldl_queueEntry (entries : List PointDelete) (table : List QueueRow × Nat) :
    Later table (entries.foldl queueEntry table) ∧
      (WellStamped table → WellStamped (entries.foldl queueEntry table)) ∧
      ∀ entry ∈ entries, (∃ row ∈ (entries.foldl queueEntry table).1, row.entry = entry) ∧
        ∀ row ∈ (entries.foldl queueEntry table).1, row.entry = entry →
          table.2 ≤ row.queuedAt := by
  induction entries generalizing table with
  | nil => exact ⟨.refl table, id, fun entry listed => by cases listed⟩
  | cons entry rest ih =>
    rw [List.foldl_cons]
    have one := queueEntry_later table entry
    obtain ⟨later, stamped, fresh⟩ := ih (queueEntry table entry)
    refine ⟨one.trans later, fun before => stamped (queueEntry_wellStamped before entry),
      fun other listed => ?_⟩
    rcases List.mem_cons.mp listed with rfl | deeper
    next =>
      obtain ⟨⟨row, stored, same⟩, new⟩ := queueEntry_fresh table other
      obtain ⟨after, present, sameEntry⟩ := later.kept row stored
      refine ⟨⟨after, present, sameEntry.trans same⟩, fun last found entered => ?_⟩
      rcases later.origin last found with ⟨before, held, _, origin, stamp | late⟩ | ⟨_, late⟩
      next => exact stamp ▸ new before held (origin.trans entered)
      next => exact one.clock.trans late
      next => exact one.clock.trans late
    next =>
      obtain ⟨present, new⟩ := fresh other deeper
      exact ⟨present, fun row found same => one.clock.trans (new row found same)⟩

theorem bumpAttempts_later (queue : List QueueRow) (clock : Nat) (failed : List Id) :
    Later (queue, clock) (bumpAttempts queue failed, clock) := by
  refine ⟨Nat.le_refl _, fun row listed => ?_, fun row listed => ?_⟩
  next =>
    obtain ⟨before, stored, rfl⟩ := List.mem_map.mp listed
    refine Or.inl ⟨before, stored, ?_⟩
    split <;> exact ⟨rfl, rfl, Or.inl rfl⟩
  next =>
    refine ⟨_, List.mem_map_of_mem listed, ?_⟩
    split <;> rfl

theorem bumpAttempts_wellStamped {queue : List QueueRow} {clock : Nat} (failed : List Id)
    (stamped : WellStamped (queue, clock)) : WellStamped (bumpAttempts queue failed, clock) := by
  refine ⟨?_, fun row listed => ?_⟩
  next =>
    have same : (bumpAttempts queue failed).map QueueRow.id = queue.map QueueRow.id := by
      unfold bumpAttempts
      rw [List.map_map]
      refine List.map_congr_left fun row _ => ?_
      dsimp only [Function.comp_apply]
      split <;> rfl
    rw [same]
    exact stamped.ids
  next =>
    obtain ⟨before, stored, rfl⟩ := List.mem_map.mp listed
    split <;> exact stamped.below before stored

theorem Quiet.later {state next : State} {action : Action} (quiet : Quiet state action next) :
    Later (state.queue, state.clock) (next.queue, next.clock) ∧
      (WellStamped (state.queue, state.clock) → WellStamped (next.queue, next.clock)) := by
  rcases quiet.queue with ⟨entries, same⟩ | ⟨failed, same, clock⟩
  next =>
    rw [same]
    obtain ⟨later, stamped, _⟩ := foldl_queueEntry entries.eraseDups (state.queue, state.clock)
    exact ⟨later, stamped⟩
  next =>
    rw [same, clock]
    exact ⟨bumpAttempts_later _ _ _, bumpAttempts_wellStamped failed⟩

end Stamps

def Deleter.rows : Deleter → List QueueRow
  | .fastLocked _ => []
  | .fastRead _ queued => queued
  | .fastDeleting _ queued => queued
  | .drainLocked _ => []
  | .drainRead rows => rows
  | .drainLooked rows _ => rows
  | .draining groups _ _ handled _ => handled ++ groups.flatMap Prod.snd

variable {route : ContextId → Collection} {state next : State} {action : Action}

structure Stamped (state : State) : Prop where
  table : WellStamped (state.queue, state.clock)
  read : ∀ deleter, state.deleter = some deleter → ∀ row ∈ deleter.rows,
    row.id < state.clock ∧ row.queuedAt < state.clock ∧
      ∀ other ∈ state.queue, other.id = row.id → other.entry = row.entry

section Advance

variable {call : Call}

end Advance

theorem rows_of_starting {deleter : Deleter} (starting : deleter.starting = true) :
    deleter.rows = [] := by
  cases deleter <;> first | rfl | cases starting

theorem Quiet.stamped (quiet : Quiet state action next) (before : Stamped state) :
    Stamped next := by
  obtain ⟨later, stamped⟩ := quiet.later
  refine ⟨stamped before.table, fun deleter found row listed => ?_⟩
  rcases quiet.deleter with same | none | ⟨_, _, other, held, starting⟩
  next =>
    rw [same] at found
    obtain ⟨id, stamp, sameEntry⟩ := before.read deleter found row listed
    refine ⟨Nat.lt_of_lt_of_le id later.clock, Nat.lt_of_lt_of_le stamp later.clock, ?_⟩
    intro other present sameId
    rcases later.origin other present with ⟨old, stored, oldId, oldEntry, _⟩ | ⟨late, _⟩
    next => exact oldEntry ▸ sameEntry old stored (oldId.trans sameId)
    next => exact absurd id (Nat.not_lt.mpr (sameId ▸ late))
  next =>
    rw [none] at found
    cases found
  next =>
    rw [held] at found
    cases found
    rw [rows_of_starting starting] at listed
    cases listed

section Coverage

variable {entry : PointDelete}

def Current (queue : List QueueRow) (entry : PointDelete) (row : QueueRow) : Prop :=
  ∃ other ∈ queue, other.id = row.id ∧ other.queuedAt = row.queuedAt ∧ other.entry = entry

def Deleter.Serves (entry : PointDelete) (points : List Point) (row : QueueRow) : Deleter → Prop
  | .fastRead entries _ => entry ∈ entries
  | .fastDeleting calls _ => entry.point ∈ points → ∃ call ∈ calls, entry ∈ call.2
  | .drainLooked _ owned => entry.pointId ∉ owned
  | .draining groups owned existing handled _ => entry.pointId ∉ owned ∧
      (entry.point ∈ points → row ∉ handled ∧ existing.all (entry.collection ∈ ·)) ∧
        ∀ group ∈ groups, row ∈ group.2 → group.1 = entry.collection
  | _ => True

structure Covered (entry : PointDelete) (state : State) : Prop where
  kept : entry.point ∈ state.store.points → ∃ row ∈ state.queue, row.entry = entry
  served : ∀ deleter, state.deleter = some deleter → ∀ row ∈ deleter.rows,
    Current state.queue entry row → deleter.Serves entry state.store.points row

-- No deleter runs while a live row names the point, and no writer writes the point once its queue
-- row has been handled.
def Untouched (entry : PointDelete) (state : State) (action : Action) : Prop :=
  (∀ call, action = .advance call → ¬ Named state.memories entry.pointId) ∧
    ∀ index, action = .upsert index entry.point → ∃ row ∈ state.queue, row.entry = entry

theorem Later.current {old new : List QueueRow × Nat} {row : QueueRow} (later : Later old new)
    (id : row.id < old.2) (stamp : row.queuedAt < old.2) (current : Current new.1 entry row) :
    Current old.1 entry row := by
  obtain ⟨other, stored, sameId, sameStamp, sameEntry⟩ := current
  rcases later.origin other stored with ⟨before, listed, oldId, oldEntry, same | late⟩ | ⟨late, _⟩
  next => exact ⟨before, listed, oldId.trans sameId, same.trans sameStamp, oldEntry.trans sameEntry⟩
  next => exact absurd stamp (Nat.not_lt.mpr (sameStamp ▸ late))
  next => exact absurd id (Nat.not_lt.mpr (sameId ▸ late))

theorem Deleter.Serves.mono {points fewer : List Point} {row : QueueRow} {deleter : Deleter}
    (included : entry.point ∈ fewer → entry.point ∈ points)
    (serves : deleter.Serves entry points row) : deleter.Serves entry fewer row := by
  cases deleter with
  | fastDeleting calls queued => exact fun present => serves (included present)
  | draining groups owned existing handled failed =>
    exact ⟨serves.1, fun present => serves.2.1 (included present), serves.2.2⟩
  | _ => exact serves

theorem Quiet.covered (quiet : Quiet state action next) (stamped : Stamped state)
    (excluding : Excluding state) (untouched : Untouched entry state action)
    (before : Covered entry state) : Covered entry next := by
  obtain ⟨later, _⟩ := quiet.later
  refine ⟨fun present => ?_, fun deleter found row listed current => ?_⟩
  next =>
    have queued : ∃ row ∈ state.queue, row.entry = entry := by
      rcases quiet.added _ present with old | ⟨_, index, same⟩
      next => exact before.kept old
      next => exact untouched.2 index same
    obtain ⟨row, stored, rfl⟩ := queued
    exact later.kept row stored
  next =>
    rcases quiet.deleter with same | none | ⟨_, _, other, held, starting⟩
    next =>
      rw [same] at found
      have included : entry.point ∈ next.store.points → entry.point ∈ state.store.points := by
        intro present
        rcases quiet.added _ present with old | ⟨writing, _⟩
        next => exact old
        next =>
          rcases excluding.exclusive with free | alone
          next => simp [found] at free
          next => exact absurd alone writing
      obtain ⟨id, stamp, _⟩ := stamped.read deleter found row listed
      exact (before.served deleter found row listed (later.current id stamp current)).mono included
    next =>
      rw [none] at found
      cases found
    next =>
      rw [held] at found
      cases found
      rw [rows_of_starting starting] at listed
      cases listed

variable {call : Call}

end Coverage

def State.start (memories : List Memory) (store : VectorStore) : State :=
  { memories
    store
    queue := []
    clock := 0
    writers := []
    forgets := []
    pending := []
    deleter := none
    bumps := [] }

end MemoryCloud.PointDeletes
