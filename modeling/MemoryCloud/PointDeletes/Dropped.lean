import MemoryCloud.PointDeletes.Lock
import MemoryCloud.Shared.Runs

set_option autoImplicit false

/-!
# What an open forget will queue

A forget locks the rows that it drops, so the row that its commit tombstones is the row that it asked
about.
-/

namespace MemoryCloud.PointDeletes

def Forget.ids (forget : Forget) : List Id := forget.dropped.map Prod.fst

section Rows

variable {memories : List Memory} {memory : Memory}

def Shared (memories : List Memory) (dropped : List Id) (memory : Memory) : Prop :=
  memory.pointId ≠ memory.id ∧ ∃ other ∈ memories, other.summaryEmbeddingId = some memory.pointId ∧
    other.id ≠ memory.id ∧ other.deletedAt = none ∧ other.id ∉ dropped

theorem unsharedPointId_cases (memories : List Memory) (memory : Memory) (dropped : List Id) :
    unsharedPointId memories dropped memory.id memory.pointId = some memory.pointId ∨
      Shared memories dropped memory := by
  unfold unsharedPointId
  split
  next => exact .inl rfl
  next derived =>
    split
    next named =>
      obtain ⟨other, listed, live⟩ := List.any_eq_true.mp named
      exact .inr ⟨derived, other, listed, by simpa using live⟩
    next => exact .inl rfl

end Rows

-- The rows that open forgets drop: no other open transaction writes them.
structure Locks (state : State) : Prop where
  staged : ∀ forget ∈ state.forgets, ∀ id ∈ forget.ids, ∀ writer ∈ state.writers,
    id ∉ writer.staged.map Memory.id
  apart : ∀ (i j : Nat) (first second : Forget) (id : Id), state.forgets[i]? = some first →
    state.forgets[j]? = some second → id ∈ first.ids → id ∈ second.ids → i = j

variable {route : ContextId → Collection} {start state next : State} {action : Action}

theorem rowLocked_false {id : Id} (free : state.rowLocked id = false) :
    (∀ forget ∈ state.forgets, id ∉ forget.ids) ∧
      ∀ writer ∈ state.writers, id ∉ writer.staged.map Memory.id := by
  simpa [State.rowLocked, Forget.ids] using free

section Locks

theorem Locks.writers (locks : Locks state) (forgets : next.forgets = state.forgets)
    (writers : ∀ writer ∈ next.writers, ∀ id ∈ writer.staged.map Memory.id,
      (∃ old ∈ state.writers, id ∈ old.staged.map Memory.id) ∨ state.rowLocked id = false) :
    Locks next := by
  refine ⟨?_, ?_⟩
  next =>
    rw [forgets]
    intro forget listed id dropped writer open_ written
    rcases writers writer open_ id written with ⟨old, there, before⟩ | free
    next => exact locks.staged forget listed id dropped old there before
    next => exact (rowLocked_false free).1 forget listed dropped
  next =>
    rw [forgets]
    exact locks.apart

end Locks

section Settled

def FoundShared (route : ContextId → Collection) (start state : State) (dropped : List Id)
    (memory : Memory) : Prop :=
  ∃ asked, Runs.Reaches (step route) (fun _ _ => True) start asked ∧
    Runs.Reaches (step route) (fun _ _ => True) asked state ∧ memory ∈ asked.memories ∧
      Shared asked.memories dropped memory

-- Each row that the forget will tombstone: its delete is among the entries, unless the lookup found
-- the point shared, the rows left out that were dropped before.
def Settled (route : ContextId → Collection) (start state : State) (forget : Forget) : Prop :=
  ∀ (place : Nat) (drop : Id × Nat), forget.dropped[place]? = some drop →
    ∃ memory ∈ state.memories, memory.id = drop.1 ∧
      (⟨memory.id, memory.pointId, route memory.contextId⟩ ∈ forget.entries ∨
        FoundShared route start state ((forget.dropped.take place).map Prod.fst) memory)

variable {forget : Forget}

theorem FoundShared.later {dropped : List Id} {memory : Memory}
    (found : FoundShared route start state dropped memory)
    (taken : step route state action = some next) : FoundShared route start next dropped memory := by
  obtain ⟨asked, first, since, listed, shared⟩ := found
  exact ⟨asked, first, .step since trivial taken, listed, shared⟩

theorem Settled.later (settled : Settled route start state forget)
    (kept : ∀ memory ∈ state.memories, memory.id ∈ forget.ids → memory ∈ next.memories)
    (taken : step route state action = some next) : Settled route start next forget := by
  intro place drop there
  obtain ⟨memory, listed, named, dealt⟩ := settled place drop there
  have dropped : memory.id ∈ forget.ids :=
    named ▸ List.mem_map_of_mem (List.mem_of_getElem? there)
  exact ⟨memory, kept memory listed dropped, named, dealt.imp id fun found => found.later taken⟩

theorem Settled.drop (settled : Settled route start state forget)
    (reached : Runs.Reaches (step route) (fun _ _ => True) start state) {memory : Memory}
    (listed : memory ∈ state.memories) (now : Nat) (entries : List PointDelete)
    (queued : unsharedPointId state.memories forget.ids memory.id memory.pointId =
      some memory.pointId → ⟨memory.id, memory.pointId, route memory.contextId⟩ ∈ entries)
    (grown : ∀ entry ∈ forget.entries, entry ∈ entries) :
    Settled route start state ⟨forget.dropped ++ [(memory.id, now)], entries⟩ := by
  intro place drop there
  rw [List.getElem?_append] at there
  split at there
  next old =>
    obtain ⟨row, stored, named, dealt⟩ := settled place drop there
    refine ⟨row, stored, named, dealt.imp (grown _) fun found => ?_⟩
    rw [List.take_append_of_le_length (Nat.le_of_lt old)]
    exact found
  next new =>
    obtain ⟨inside, same⟩ := List.getElem?_eq_some_iff.mp there
    have last : place = forget.dropped.length := by
      rw [List.length_singleton] at inside
      omega
    subst last
    simp only [Nat.sub_self, List.getElem_cons_zero] at same
    subst same
    refine ⟨memory, listed, rfl, ?_⟩
    rcases unsharedPointId_cases state.memories memory forget.ids with alone | shared
    next => exact .inl (queued alone)
    next =>
      refine .inr ⟨state, reached, .start, listed, ?_⟩
      rw [List.take_left]
      exact shared

end Settled

end MemoryCloud.PointDeletes
