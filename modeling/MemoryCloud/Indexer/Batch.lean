import Mathlib.Logic.Function.Basic
import Mathlib.Data.List.Sort

set_option autoImplicit false

/-!
# The rows and points of an indexer batch

`process_incremental` from its first event to its return. Points change at
once; rows change in the batch's transaction, inside one savepoint for each
event and another for the clean-up of old versions. Every place where a call,
a flush, a savepoint or the commit can fail is a field of the outcome.
-/

namespace MemoryCloud.Indexer.Points

abbrev MemoryId := Nat

-- A row's own id, or `uuid5` of a document's natural key. Resource ids hold no colon, so the key
-- can be read back from what is hashed.
inductive PointId
  | own (id : MemoryId)
  | document (resourceId docId : String) (version : Option Nat)
  deriving DecidableEq, Repr

structure Memory where
  id : MemoryId
  userId : Nat
  workspaceId : Nat
  contextId : Nat
  createdAt : Nat
  resourceId : Option String
  resourceDocId : Option String
  resourceVersion : Option Nat
  summaryEmbeddingId : Option PointId
  deletedAt : Option Nat
  -- Writers store the row's own id or a document's point, never another row's id.
  attributed : ∀ other, summaryEmbeddingId = some (.own other) → other = id

def Memory.pointId (memory : Memory) : PointId := memory.summaryEmbeddingId.getD (.own memory.id)

def Memory.live (memory : Memory) : Prop := memory.deletedAt = none

instance (memory : Memory) : Decidable memory.live := inferInstanceAs (Decidable (_ = _))

structure Payload where
  workspaceId : Nat
  contextId : Nat
  resourceId : Option String
  docId : Option String
  deriving DecidableEq, Repr

abbrev Store := PointId → Option Payload

structure Context where
  id : Nat
  workspaceId : Nat
  createdBy : Nat

inductive Op
  | upsert
  | delete
  deriving DecidableEq, Repr

structure Event where
  op : Op
  resourceId : String
  docId : String
  version : Option Nat
  -- Whether the payload is truthy.
  payload : Bool
  deriving DecidableEq, Repr

def Event.pointId (event : Event) : PointId := .document event.resourceId event.docId event.version

-- What a vector-store call did; a call that raised may have done any part of its work.
inductive Call
  | done
  | failed (part : List PointId)

structure Outcome where
  -- The context row is still live.
  contextLive : Bool
  -- The lock, the lookups and the embedding before the vector-store call.
  prepared : Bool
  call : Call
  flushed : Bool
  -- The clean-up of old versions and its savepoint.
  cleaned : Bool
  released : Bool
  newId : MemoryId
  now : Nat

structure Batch where
  memories : List Memory
  store : Store
  repointed : List (MemoryId × Option PointId)
  retired : List PointId

section Rows

variable (context : Context) (event : Event)

def Memory.sameDoc (memory : Memory) : Prop :=
  memory.workspaceId = context.workspaceId ∧ memory.contextId = context.id ∧
    memory.resourceId = some event.resourceId ∧ memory.resourceDocId = some event.docId

instance (memory : Memory) : Decidable (memory.sameDoc context event) :=
  inferInstanceAs (Decidable (_ ∧ _))

-- `resource_version != event.version`, NULLs as in SQL.
def otherVersion (memory : Memory) : Bool :=
  match event.version with
  | some version => memory.resourceVersion.any (· ≠ version)
  | none => memory.resourceVersion.isSome

-- The creator's copy first, then the oldest.
def lookupOrder (first second : Memory) : Prop :=
  let rank := fun memory : Memory => if memory.userId = context.createdBy then 0 else 1
  rank first < rank second ∨ rank first = rank second ∧
    (first.createdAt < second.createdAt ∨
      first.createdAt = second.createdAt ∧ first.id ≤ second.id)

instance (first second : Memory) : Decidable (lookupOrder context first second) :=
  inferInstanceAs (Decidable (_ ∨ _))

def existingMemory (memories : List Memory) : Option Memory :=
  ((memories.filter fun memory => memory.sameDoc context event ∧
    memory.resourceVersion = event.version ∧ memory.live).insertionSort
      (lookupOrder context)).head?

-- The update branch: the row named by the event's point.
def repoint (memory : Memory) : Memory :=
  { memory with
    resourceId := some event.resourceId
    resourceDocId := some event.docId
    resourceVersion := event.version
    summaryEmbeddingId := some event.pointId
    attributed := by simp [Event.pointId] }

def createdMemory (outcome : Outcome) : Memory where
  id := outcome.newId
  userId := context.createdBy
  workspaceId := context.workspaceId
  contextId := context.id
  createdAt := outcome.now
  resourceId := some event.resourceId
  resourceDocId := some event.docId
  resourceVersion := event.version
  summaryEmbeddingId := some event.pointId
  deletedAt := none
  attributed := by simp [Event.pointId]

def resourcePoint : Payload where
  workspaceId := context.workspaceId
  contextId := context.id
  resourceId := some event.resourceId
  docId := some event.docId

def carries (payload : Payload) : Prop :=
  payload.workspaceId = context.workspaceId ∧ payload.contextId = context.id ∧
    payload.docId = some event.docId ∧ payload.resourceId = some event.resourceId

instance (payload : Payload) : Decidable (carries context event payload) :=
  inferInstanceAs (Decidable (_ ∧ _))

def deleteRows (memories gone : List Memory) : List Memory :=
  memories.filter fun memory => memory.id ∉ gone.map Memory.id

end Rows

def removePoints (store : Store) (gone : PointId → Bool) : Store :=
  fun point => if gone point then none else store point

section Events

variable (context : Context) (event : Event) (outcome : Outcome) (batch : Batch)

-- Step 5: the row is written and a stray previous point is noted.
def writeMemory : Batch :=
  match existingMemory context event batch.memories with
  | some existing =>
    { batch with
      memories := batch.memories.map fun memory =>
        if memory.id = existing.id then repoint event memory else memory
      repointed :=
        if existing.summaryEmbeddingId ≠ some event.pointId then
          batch.repointed ++ [(existing.id, existing.summaryEmbeddingId)]
        else batch.repointed }
  | none => { batch with memories := batch.memories ++ [createdMemory context event outcome] }

def versionPoint (memory : Memory) : PointId :=
  .document event.resourceId event.docId memory.resourceVersion

-- Step 6: the rows of the document's other versions.
def cleanOldVersions : Batch :=
  let old := batch.memories.filter fun memory =>
    memory.sameDoc context event ∧ otherVersion event memory
  { batch with
    memories := deleteRows batch.memories old
    retired := batch.retired ++ old.map (versionPoint event)
    repointed := batch.repointed ++ (old.filter fun memory =>
      memory.summaryEmbeddingId ≠ some (versionPoint event memory)).map fun memory =>
        (memory.id, memory.summaryEmbeddingId) }

-- `_apply_upsert`; `none` with the store it leaves when it raises.
def applyUpsert : Store × Option Batch :=
  if ¬ outcome.contextLive ∨ ¬ event.payload then (batch.store, some batch)
  else if ¬ outcome.prepared then (batch.store, none)
  else
    let written := Function.update batch.store event.pointId (some (resourcePoint context event))
    match outcome.call with
    | .failed part => (if event.pointId ∈ part then written else batch.store, none)
    | .done =>
      if ¬ outcome.flushed then (written, none)
      else
        let stored := writeMemory context event outcome { batch with store := written }
        (written, some (if outcome.cleaned then cleanOldVersions context event stored else stored))

def applyDelete : Store × Option Batch :=
  match event.version with
  | none =>
    let matched := fun point => (batch.store point).any (carries context event ·)
    match outcome.call with
    | .failed part => (removePoints batch.store fun point => matched point ∧ point ∈ part, none)
    | .done =>
      let store := removePoints batch.store matched
      if ¬ outcome.flushed then (store, none)
      else
        (store, some { batch with
          store
          memories := deleteRows batch.memories
            (batch.memories.filter fun memory => memory.sameDoc context event) })
  | some version =>
    let gone := batch.memories.filter fun memory =>
      memory.sameDoc context event ∧ memory.resourceVersion = some version
    if gone = [] then (batch.store, some batch)
    else if ¬ outcome.flushed then (batch.store, none)
    else
      (batch.store, some { batch with
        memories := deleteRows batch.memories gone
        retired := batch.retired ++ [event.pointId] })

-- The end of an event's savepoint: an event that fails leaves only its points.
def endSavepoint (applied : Store × Option Batch) : Batch :=
  match applied with
  | (store, none) => { batch with store }
  | (store, some next) => if outcome.released then next else { batch with store }

def applyEvent : Batch :=
  match event.op with
  | .upsert => endSavepoint outcome batch (applyUpsert context event outcome batch)
  | .delete => endSavepoint outcome batch (applyDelete context event outcome batch)

end Events

structure Drains where
  -- The calls of `_drop_repointed_points`, one an entry.
  repointed : Nat → Call
  -- The lock was free and the lookup of `_drop_retired_points` returned.
  looked : Bool
  retired : Call

def Call.removed (call : Call) (points : List PointId) : List PointId :=
  match call with
  | .done => points
  | .failed part => points.filter (· ∈ part)

def dropRepointed (calls : Nat → Call) (repointed : List (MemoryId × Option PointId)) :
    List PointId :=
  repointed.zipIdx.flatMap fun ((memoryId, previous), index) =>
    if previous = none ∨ previous = some (.own memoryId) then
      (calls index).removed [.own memoryId]
    else []

-- The points `_drop_retired_points` deletes: those no live row names.
def dropRetired (drains : Drains) (memories : List Memory) (retired : List PointId) :
    List PointId :=
  if drains.looked then
    let shared := (memories.filter fun memory => memory.live).filterMap Memory.summaryEmbeddingId
    drains.retired.removed (retired.filter fun point => point ∉ shared)
  else []

def applyAll (context : Context) (batch : Batch) (script : List (Event × Outcome)) : Batch :=
  script.foldl (fun batch (event, outcome) => applyEvent context event outcome batch) batch

structure Final where
  memories : List Memory
  store : Store
  dropped : List PointId

def processIncremental (context : Context) (memories : List Memory) (store : Store)
    (script : List (Event × Outcome)) (committed : Bool) (drains : Drains) : Final :=
  let batch := applyAll context { memories, store, repointed := [], retired := [] } script
  if committed then
    let dropped := dropRepointed drains.repointed batch.repointed ++
      dropRetired drains batch.memories batch.retired
    { memories := batch.memories
      store := removePoints batch.store (· ∈ dropped)
      dropped }
  else { memories, store := batch.store, dropped := [] }

end MemoryCloud.Indexer.Points
