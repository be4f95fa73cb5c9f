import MemoryCloud.PointDeletes.Model

set_option autoImplicit false

/-!
# What the exclusive lock keeps out

A deleter looks for live rows and deletes under one lock. No writer commits in
between, so a point that was free at the look is free at the delete.
-/

namespace MemoryCloud.PointDeletes

def Named (memories : List Memory) (pointId : Id) : Prop :=
  ∃ memory ∈ memories, memory.deletedAt = none ∧ memory.pointId = pointId

section Reads

variable {memories : List Memory}

theorem named_of_tombstone {dropped : List (Id × Nat)} {pointId : Id}
    (named : Named (tombstone memories dropped) pointId) : Named memories pointId := by
  obtain ⟨memory, listed, live, rfl⟩ := named
  obtain ⟨old, stored, rfl⟩ := List.mem_map.mp listed
  split at live
  next => cases live
  next => exact ⟨old, stored, live, rfl⟩

end Reads

def Deleter.starting : Deleter → Bool
  | .fastLocked _ => true
  | .drainLocked _ => true
  | _ => false

def Deleter.targets : Deleter → List PointDelete
  | .fastDeleting calls _ => calls.flatMap Prod.snd
  | .drainLooked rows owned => freeRows owned rows
  | .draining groups owned _ _ _ => groups.flatMap fun group => freeRows owned group.2
  | _ => []

theorem targets_of_starting {deleter : Deleter} (starting : deleter.starting = true) :
    deleter.targets = [] := by
  cases deleter <;> first | rfl | cases starting

structure Quiet (state : State) (action : Action) (next : State) : Prop where
  points : ∀ point ∈ state.store.points, point ∈ next.store.points
  added : ∀ point ∈ next.store.points, point ∈ state.store.points ∨
    state.writers ≠ [] ∧ ∃ index, action = .upsert index point
  deleter : next.deleter = state.deleter ∨ next.deleter = none ∨
    state.lockFree ∧ next.writers = state.writers ∧
      ∃ deleter, next.deleter = some deleter ∧ deleter.starting = true
  shared : state.writers = [] → state.deleter.isSome → next.writers = []
  named : state.writers = [] → ∀ pointId, Named next.memories pointId →
    Named state.memories pointId
  queue : (∃ entries, (next.queue, next.clock) =
      queuePointDeletes state.queue state.clock entries) ∨
    ∃ failed, next.queue = bumpAttempts state.queue failed ∧ next.clock = state.clock

theorem Quiet.of_same {state next : State} {action : Action} (store : next.store = state.store)
    (memories : next.memories = state.memories) (queue : next.queue = state.queue)
    (clock : next.clock = state.clock)
    (deleter : next.deleter = state.deleter ∨ next.deleter = none ∨
      state.lockFree ∧ next.writers = state.writers ∧
        ∃ deleter, next.deleter = some deleter ∧ deleter.starting = true)
    (shared : state.writers = [] → state.deleter.isSome → next.writers = []) :
    Quiet state action next where
  points := fun point listed => by rw [store]; exact listed
  added := fun point listed => Or.inl (by rw [← store]; exact listed)
  deleter := deleter
  shared := shared
  named := fun _ pointId named => by rw [← memories]; exact named
  queue := Or.inl ⟨[], by rw [queue, clock]; rfl⟩

variable {route : ContextId → Collection} {state next : State} {action : Action}

section Steps

-- The equations of `step` are made once for all its cases.
attribute [local simp] step

variable {index : Nat}

theorem beginWriter_quiet (taken : step route state .beginWriter = some next) :
    Quiet state .beginWriter next := by
  simp only [step] at taken
  split at taken
  next free =>
    cases taken
    refine .of_same rfl rfl rfl rfl (Or.inl rfl) fun _ held => ?_
    rw [Option.isNone_iff_eq_none.mp free] at held
    cases held
  next => cases taken

theorem upsert_quiet {point : Point} (taken : step route state (.upsert index point) = some next) :
    Quiet state (.upsert index point) next := by
  simp only [step, Option.bind_eq_bind, Option.bind_eq_some_iff] at taken
  obtain ⟨writer, found, same⟩ := taken
  cases same
  refine ⟨?_, ?_, Or.inl rfl, ?_, fun _ _ named => named, Or.inl ⟨[], rfl⟩⟩
  next => exact fun other listed => List.mem_cons_of_mem _ listed
  next =>
    intro other listed
    rcases List.mem_cons.mp listed with rfl | old
    next =>
      refine Or.inr ⟨fun none => ?_, index, rfl⟩
      rw [none] at found
      cases found
    next => exact Or.inl old
  next =>
    intro none
    rw [none] at found
    cases found

theorem stage_quiet {row : Memory} (taken : step route state (.stage index row) = some next) :
    Quiet state (.stage index row) next := by
  simp only [step, Option.bind_eq_bind, Option.bind_eq_some_iff] at taken
  obtain ⟨writer, found, same⟩ := taken
  split at same
  next => cases same
  next =>
    cases same
    refine .of_same rfl rfl rfl rfl (Or.inl rfl) fun none _ => ?_
    rw [none] at found
    cases found

theorem commitWriter_quiet (taken : step route state (.commitWriter index) = some next) :
    Quiet state (.commitWriter index) next := by
  simp only [step, Option.bind_eq_bind, Option.bind_eq_some_iff] at taken
  obtain ⟨writer, found, same⟩ := taken
  cases same
  have writing : state.writers ≠ [] := by
    intro none
    rw [none] at found
    cases found
  exact ⟨fun _ listed => listed, fun _ listed => Or.inl listed, Or.inl rfl,
    fun none => absurd none writing, fun none => absurd none writing, Or.inl ⟨[], rfl⟩⟩

theorem abortWriter_quiet (taken : step route state (.abortWriter index) = some next) :
    Quiet state (.abortWriter index) next := by
  cases taken
  refine .of_same rfl rfl rfl rfl (Or.inl rfl) fun none _ => ?_
  simp [none]

theorem softDelete_quiet {memoryId : Id} {now : Nat}
    (taken : step route state (.softDelete index memoryId now) = some next) :
    Quiet state (.softDelete index memoryId now) next := by
  simp only [step, Option.bind_eq_bind, Option.bind_eq_some_iff] at taken
  obtain ⟨forget, _, memory, _, same⟩ := taken
  split at same
  next => cases same
  next =>
    cases same
    exact .of_same rfl rfl rfl rfl (Or.inl rfl) fun none _ => none

theorem commitForget_quiet (taken : step route state (.commitForget index) = some next) :
    Quiet state (.commitForget index) next := by
  simp only [step, Option.bind_eq_bind, Option.bind_eq_some_iff] at taken
  obtain ⟨forget, _, same⟩ := taken
  cases same
  exact ⟨fun _ listed => listed, fun _ listed => Or.inl listed, Or.inl rfl, fun none _ => none,
    fun _ _ named => named_of_tombstone named, Or.inl ⟨forget.entries, rfl⟩⟩

theorem fastPath_quiet (taken : step route state (.fastPath index) = some next) :
    Quiet state (.fastPath index) next := by
  simp only [step, Option.bind_eq_bind, Option.bind_eq_some_iff] at taken
  obtain ⟨entries, _, same⟩ := taken
  split at same
  next free =>
    cases same
    exact .of_same rfl rfl rfl rfl (Or.inr (Or.inr ⟨free, rfl, _, rfl, rfl⟩)) fun none _ => none
  next =>
    cases same
    exact .of_same rfl rfl rfl rfl (Or.inl rfl) fun none _ => none

theorem drain_quiet {limit : Nat} (taken : step route state (.drain limit) = some next) :
    Quiet state (.drain limit) next := by
  simp only [step] at taken
  split at taken
  next free =>
    cases taken
    exact .of_same rfl rfl rfl rfl (Or.inr (Or.inr ⟨free.2, rfl, _, rfl, rfl⟩)) fun none _ => none
  next => cases taken

theorem bump_quiet (taken : step route state (.bump index) = some next) :
    Quiet state (.bump index) next := by
  simp only [step, Option.bind_eq_bind, Option.bind_eq_some_iff] at taken
  obtain ⟨failed, _, same⟩ := taken
  cases same
  exact ⟨fun _ listed => listed, fun _ listed => Or.inl listed, Or.inl rfl, fun none _ => none,
    fun _ _ named => named, Or.inr ⟨failed, rfl, rfl⟩⟩

theorem step_cases (taken : step route state action = some next) :
    (∃ call deleter, action = .advance call ∧ state.deleter = some deleter ∧
      next = advance state call deleter) ∨ Quiet state action next := by
  cases action with
  | beginWriter => exact Or.inr (beginWriter_quiet taken)
  | upsert => exact Or.inr (upsert_quiet taken)
  | stage => exact Or.inr (stage_quiet taken)
  | commitWriter => exact Or.inr (commitWriter_quiet taken)
  | abortWriter => exact Or.inr (abortWriter_quiet taken)
  | beginForget | abortForget =>
    cases taken
    exact Or.inr (.of_same rfl rfl rfl rfl (Or.inl rfl) fun none _ => none)
  | softDelete => exact Or.inr (softDelete_quiet taken)
  | commitForget => exact Or.inr (commitForget_quiet taken)
  | fastPath => exact Or.inr (fastPath_quiet taken)
  | drain => exact Or.inr (drain_quiet taken)
  | advance call =>
    obtain ⟨deleter, held, rfl⟩ := Option.map_eq_some_iff.mp taken
    exact Or.inl ⟨call, deleter, rfl, held, rfl⟩
  | abandon =>
    cases taken
    exact Or.inr (.of_same rfl rfl rfl rfl (Or.inr (Or.inl rfl)) fun none _ => none)
  | bump => exact Or.inr (bump_quiet taken)

end Steps

-- While a deleter holds the lock no writer is open, and what it has found free is free.
structure Excluding (state : State) : Prop where
  exclusive : state.deleter = none ∨ state.writers = []
  unowned : ∀ deleter, state.deleter = some deleter → ∀ entry ∈ deleter.targets,
    ¬ Named state.memories entry.pointId

theorem Quiet.excluding (quiet : Quiet state action next) (before : Excluding state) :
    Excluding next := by
  rcases quiet.deleter with same | none | ⟨free, sameWriters, deleter, held, starting⟩
  next =>
    cases held : state.deleter with
    | none => exact ⟨Or.inl (same.trans held), fun deleter found => by simp [same, held] at found⟩
    | some deleter =>
      have alone : state.writers = [] := by
        rcases before.exclusive with absent | alone
        next => simp [held] at absent
        next => exact alone
      refine ⟨Or.inr (quiet.shared alone (by simp [held])), fun other found entry target named => ?_⟩
      rw [same] at found
      exact before.unowned other found entry target (quiet.named alone _ named)
  next => exact ⟨Or.inl none, fun deleter found => by simp [none] at found⟩
  next =>
    refine ⟨Or.inr ?_, fun other found entry target => ?_⟩
    next => rw [sameWriters, List.isEmpty_iff.mp free.1]
    next =>
      rw [held] at found
      cases found
      rw [targets_of_starting starting] at target
      cases target

section Advance

variable {call : Call}

end Advance

end MemoryCloud.PointDeletes
