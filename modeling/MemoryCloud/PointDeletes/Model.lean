import Mathlib.Data.List.Sort
import Mathlib.Data.List.Nodup

set_option autoImplicit false

/-!
# Deferred point deletes

The tables, the vector store and the point-writer lock as the transactions of
`forget`, of the point writers and of the two deleters see them. The lock is
exclusive for a deleter, so the state holds at most one; a writer holds it
shared from its begin to its end. Reads see committed rows, and the rows a
transaction has locked wait for its end.
-/

namespace MemoryCloud.PointDeletes

abbrev Id := Nat
abbrev ContextId := Nat
abbrev Collection := String
abbrev Point := Id × Collection

structure Memory where
  id : Id
  summaryEmbeddingId : Option Id
  contextId : ContextId
  deletedAt : Option Nat
  deriving DecidableEq, Repr

def Memory.pointId (memory : Memory) : Id := memory.summaryEmbeddingId.getD memory.id

-- `(memory id, point id, collection)`.
structure PointDelete where
  memoryId : Id
  pointId : Id
  collection : Collection
  deriving DecidableEq, Repr

def PointDelete.point (entry : PointDelete) : Point := (entry.pointId, entry.collection)

structure QueueRow where
  id : Id
  entry : PointDelete
  queuedAt : Nat
  attempts : Nat
  deriving DecidableEq, Repr

section Queue

-- A stamp is drawn from the clock for each row written: a new id and a new `queued_at`.
def queueEntry (table : List QueueRow × Nat) (entry : PointDelete) : List QueueRow × Nat :=
  let (queue, clock) := table
  if entry ∈ queue.map QueueRow.entry then
    (queue.map fun row =>
      if row.entry = entry then { row with queuedAt := clock, attempts := 0 } else row, clock + 1)
  else (queue ++ [{ id := clock, entry, queuedAt := clock, attempts := 0 }], clock + 1)

def queuePointDeletes (queue : List QueueRow) (clock : Nat) (entries : List PointDelete) :
    List QueueRow × Nat :=
  entries.eraseDups.foldl queueEntry (queue, clock)

def queuedRowsFor (queue : List QueueRow) (entries : List PointDelete) : List QueueRow :=
  queue.filter fun row => row.entry ∈ entries

-- `dequeue`: the handled rows still at the version read leave the queue.
def dequeue (queue : List QueueRow) (rows : List QueueRow) : List QueueRow :=
  queue.filter fun row => (row.id, row.queuedAt) ∉ rows.map fun row => (row.id, row.queuedAt)

-- Fewest attempts first, then oldest.
def drainOrder (first second : QueueRow) : Prop :=
  first.attempts < second.attempts ∨ first.attempts = second.attempts ∧
    (first.queuedAt < second.queuedAt ∨ first.queuedAt = second.queuedAt ∧ first.id ≤ second.id)

instance (first second : QueueRow) : Decidable (drainOrder first second) :=
  inferInstanceAs (Decidable (_ ∨ _))

def drainRows (queue : List QueueRow) (limit : Nat) : List QueueRow :=
  (queue.insertionSort drainOrder).take limit

def bumpAttempts (queue : List QueueRow) (failed : List Id) : List QueueRow :=
  queue.map fun row => if row.id ∈ failed then { row with attempts := row.attempts + 1 } else row

end Queue

section Rows

def liveOwnedPoints (memories : List Memory) (points : List Id) : List Id :=
  (memories.filter fun memory => memory.deletedAt = none ∧
    (memory.id ∈ points ∨ memory.summaryEmbeddingId.any (· ∈ points))).map Memory.pointId

-- `unshared_point_id`; the transaction's own tombstones are seen by its lookup.
def unsharedPointId (memories : List Memory) (dropped : List Id) (memoryId pointId : Id) :
    Option Id :=
  if pointId = memoryId then some pointId
  else if memories.any fun memory => memory.summaryEmbeddingId = some pointId ∧
      memory.id ≠ memoryId ∧ memory.deletedAt = none ∧ memory.id ∉ dropped then none
  else some pointId

def tombstone (memories : List Memory) (dropped : List (Id × Nat)) : List Memory :=
  memories.map fun memory =>
    match dropped.find? fun drop => drop.1 = memory.id with
    | some drop => { memory with deletedAt := some drop.2 }
    | none => memory

def writeRow (memories : List Memory) (row : Memory) : List Memory :=
  if memories.any fun memory => memory.id = row.id then
    memories.map fun memory => if memory.id = row.id then row else memory
  else memories ++ [row]

def writeRows (memories : List Memory) (rows : List Memory) : List Memory :=
  rows.foldl writeRow memories

end Rows

structure VectorStore where
  collections : List Collection
  points : List Point
  -- A collection that does not exist holds no point.
  held : ∀ point ∈ points, point.2 ∈ collections

def VectorStore.upsert (store : VectorStore) (point : Point) : VectorStore where
  collections := point.2 :: store.collections
  points := point :: store.points
  held := by
    intro other listed
    rcases List.mem_cons.mp listed with rfl | old
    next => exact List.mem_cons_self
    next => exact List.mem_cons_of_mem _ (store.held other old)

def VectorStore.delete (store : VectorStore) (gone : List Point) : VectorStore where
  collections := store.collections
  points := store.points.filter fun point => point ∉ gone
  held := fun point listed => store.held point (List.mem_of_mem_filter listed)

-- What a vector-store call did: a call that raised or was cut off by the timeout has removed any
-- part of its points by then.
inductive Call
  | done
  | failed (removed : List Point)
  | timedOut (removed : List Point)

def Call.removed (call : Call) (entries : List PointDelete) : List Point :=
  match call with
  | .done => entries.map PointDelete.point
  | .failed removed => (entries.map PointDelete.point).filter (· ∈ removed)
  | .timedOut removed => (entries.map PointDelete.point).filter (· ∈ removed)

-- The groups of a dict by collection, in first-seen order.
def byCollection {A : Type} (collection : A → Collection) (items : List A) :
    List (Collection × List A) :=
  (items.map collection).eraseDups.map fun name =>
    (name, items.filter fun item => collection item = name)

-- The holder of the exclusive lock: a fast path or a drain run, at its next statement.
inductive Deleter
  | fastLocked (entries : List PointDelete)
  | fastRead (entries : List PointDelete) (queued : List QueueRow)
  | fastDeleting (calls : List (Collection × List PointDelete)) (queued : List QueueRow)
  | drainLocked (limit : Nat)
  | drainRead (rows : List QueueRow)
  | drainLooked (rows : List QueueRow) (owned : List Id)
  | draining (groups : List (Collection × List QueueRow)) (owned : List Id)
      (existing : Option (List Collection)) (handled failed : List QueueRow)

structure Writer where
  upserted : List Point
  staged : List Memory

structure Forget where
  dropped : List (Id × Nat)
  entries : List PointDelete

structure State where
  memories : List Memory
  store : VectorStore
  queue : List QueueRow
  clock : Nat
  writers : List Writer
  forgets : List Forget
  -- Fast paths whose forget has committed.
  pending : List (List PointDelete)
  deleter : Option Deleter
  -- Failed rows of drain runs whose attempts are still to be counted.
  bumps : List (List Id)

def State.lockFree (state : State) : Prop := state.writers.isEmpty ∧ state.deleter.isNone

instance (state : State) : Decidable state.lockFree := inferInstanceAs (Decidable (_ ∧ _))

def State.rowLocked (state : State) (id : Id) : Bool :=
  (state.forgets.any fun forget => id ∈ forget.dropped.map Prod.fst) ||
    state.writers.any fun writer => id ∈ writer.staged.map Memory.id

inductive Action
  | beginWriter
  | upsert (index : Nat) (point : Point)
  | stage (index : Nat) (row : Memory)
  | commitWriter (index : Nat)
  | abortWriter (index : Nat)
  | beginForget
  | softDelete (index : Nat) (memoryId : Id) (now : Nat)
  | commitForget (index : Nat)
  | abortForget (index : Nat)
  | fastPath (index : Nat)
  | drain (limit : Nat)
  | advance (call : Call)
  | abandon
  | bump (index : Nat)

def freeEntries (owned : List Id) (entries : List PointDelete) : List PointDelete :=
  entries.filter fun entry => entry.pointId ∉ owned

def freeRows (owned : List Id) (group : List QueueRow) : List PointDelete :=
  freeEntries owned (group.map QueueRow.entry)

def drainGroup (state : State) (name : Collection) (group : List QueueRow)
    (rest : List (Collection × List QueueRow)) (owned : List Id)
    (existing : Option (List Collection)) (handled failed : List QueueRow) (call : Call) : State :=
  let free := freeRows owned group
  if free ≠ [] ∧ existing.all (name ∈ ·) then
    let store := state.store.delete (call.removed free)
    match call with
    | .done =>
      { state with store, deleter := some (.draining rest owned existing (handled ++ group) failed) }
    | .failed _ =>
      { state with store, deleter := some (.draining rest owned existing handled (failed ++ group)) }
    -- The groups not started are left as they are.
    | .timedOut _ =>
      { state with store, deleter := some (.draining [] owned existing handled (failed ++ group)) }
  else { state with deleter := some (.draining rest owned existing (handled ++ group) failed) }

def advance (state : State) (call : Call) : Deleter → State
  | .fastLocked entries =>
    { state with deleter := some (.fastRead entries (queuedRowsFor state.queue entries)) }
  | .fastRead entries queued =>
    let owned := liveOwnedPoints state.memories (entries.map PointDelete.pointId)
    { state with
      deleter := some (.fastDeleting
        (byCollection PointDelete.collection (freeEntries owned entries)) queued) }
  | .fastDeleting ((_, group) :: rest) queued =>
    let store := state.store.delete (call.removed group)
    match call with
    | .done => { state with store, deleter := some (.fastDeleting rest queued) }
    | _ => { state with store, deleter := none }
  | .fastDeleting [] queued =>
    { state with queue := dequeue state.queue queued, deleter := none }
  | .drainLocked limit =>
    { state with deleter := some (.drainRead (drainRows state.queue limit)) }
  | .drainRead rows =>
    { state with
      deleter := some (.drainLooked rows
        (liveOwnedPoints state.memories (rows.map fun row => row.entry.pointId))) }
  | .drainLooked rows owned =>
    let groups := byCollection (fun row => row.entry.collection) rows
    match call with
    | .done =>
      { state with deleter := some (.draining groups owned (some state.store.collections) [] []) }
    | .failed _ => { state with deleter := some (.draining groups owned none [] []) }
    | .timedOut _ => { state with deleter := some (.draining [] owned none [] []) }
  | .draining ((name, group) :: rest) owned existing handled failed =>
    drainGroup state name group rest owned existing handled failed call
  | .draining [] _ _ handled failed =>
    { state with
      queue := dequeue state.queue handled
      deleter := none
      bumps := if failed = [] then state.bumps else state.bumps ++ [failed.map QueueRow.id] }

-- `route` is the collection of a context.
def step (route : ContextId → Collection) (state : State) : Action → Option State
  | .beginWriter =>
    if state.deleter.isNone then some { state with writers := state.writers ++ [⟨[], []⟩] }
    else none
  | .upsert index point => do
    let writer ← state.writers[index]?
    let writers := state.writers.set index { writer with upserted := point :: writer.upserted }
    some { state with writers, store := state.store.upsert point }
  | .stage index row => do
    let writer ← state.writers[index]?
    if state.rowLocked row.id then none
    else
      let writers := state.writers.set index { writer with staged := writer.staged ++ [row] }
      some { state with writers }
  | .commitWriter index => do
    let writer ← state.writers[index]?
    some { state with
      memories := writeRows state.memories writer.staged
      writers := state.writers.eraseIdx index }
  | .abortWriter index => some { state with writers := state.writers.eraseIdx index }
  | .beginForget => some { state with forgets := state.forgets ++ [⟨[], []⟩] }
  | .softDelete index memoryId now => do
    let forget ← state.forgets[index]?
    let memory ← state.memories.find? fun memory => memory.id = memoryId
    if state.rowLocked memoryId then none
    else
      let unshared := unsharedPointId state.memories (forget.dropped.map Prod.fst) memoryId
        memory.pointId
      let entry := unshared.map fun pointId => ⟨memoryId, pointId, route memory.contextId⟩
      let forgets := state.forgets.set index
        { dropped := forget.dropped ++ [(memoryId, now)]
          entries := forget.entries ++ entry.toList }
      some { state with forgets }
  -- The queue statement is the last before the commit.
  | .commitForget index => do
    let forget ← state.forgets[index]?
    let (queue, clock) := queuePointDeletes state.queue state.clock forget.entries
    some { state with
      memories := tombstone state.memories forget.dropped
      queue, clock
      forgets := state.forgets.eraseIdx index
      pending := if forget.entries = [] then state.pending else state.pending ++ [forget.entries] }
  | .abortForget index => some { state with forgets := state.forgets.eraseIdx index }
  | .fastPath index => do
    let entries ← state.pending[index]?
    let pending := state.pending.eraseIdx index
    if state.lockFree then some { state with pending, deleter := some (.fastLocked entries) }
    else some { state with pending }
  | .drain limit =>
    if state.queue ≠ [] ∧ state.lockFree then
      some { state with deleter := some (.drainLocked limit) }
    else none
  | .advance call => state.deleter.map (advance state call)
  -- A statement or the commit failed, or the request's own timeout fired.
  | .abandon => some { state with deleter := none }
  | .bump index => do
    let failed ← state.bumps[index]?
    some { state with
      queue := bumpAttempts state.queue failed
      bumps := state.bumps.eraseIdx index }

end MemoryCloud.PointDeletes
