import Mathlib.Data.List.Sort
import Mathlib.Data.List.Nodup

set_option autoImplicit false

/-!
# The edge table

The rows of `neural_memory_edges` and the writers that share them: the upsert
of `create_or_update_edge`, the deletes, `transfer_edges`, the declared edges
of the graph API and the two merges of the dedup phase. Weights are any type
with a comparison; nothing here depends on their arithmetic.
-/

namespace MemoryCloud.Edges

abbrev UserId := Nat
abbrev MemoryId := Nat
abbrev WorkspaceId := Nat
abbrev ContextId := Nat

inductive EdgeType
  | neuralAssociation
  | relatedTo
  | dependsOn
  | learnedFrom
  | continuesFrom
  | referencesFile
  | supersedes
  | contradicts
  deriving DecidableEq, Repr

inductive Origin
  | hebbian
  | semantic
  | declared
  deriving DecidableEq, Repr

structure Memory where
  id : MemoryId
  userId : UserId
  workspaceId : WorkspaceId
  contextId : ContextId
  createdAt : Nat
  deletedAt : Option Nat
  deriving DecidableEq, Repr

structure Edge (W : Type) where
  id : Nat
  userId : UserId
  srcId : MemoryId
  dstId : MemoryId
  workspaceId : WorkspaceId
  contextId : ContextId
  edgeType : EdgeType
  weight : W
  confidence : W
  origin : Origin
  edgeMetadata : Option (List (String × String))
  createdAt : Nat
  lastUpdated : Nat
  deriving DecidableEq, Repr

structure Scope where
  workspaceId : WorkspaceId
  contextId : ContextId
  deriving DecidableEq, Repr

variable {W : Type}

def Edge.inScope (edge : Edge W) (scope : Scope) : Prop :=
  edge.workspaceId = scope.workspaceId ∧ edge.contextId = scope.contextId

instance (edge : Edge W) (scope : Scope) : Decidable (edge.inScope scope) :=
  inferInstanceAs (Decidable (_ ∧ _))

def alive (memories : List Memory) (id : MemoryId) : Bool :=
  memories.any fun memory => memory.id = id ∧ memory.deletedAt = none

-- `_validate_edge_context_invariant` for one endpoint.
def endpointValid (memories : List Memory) (scope : Scope) (id : MemoryId) : Bool :=
  memories.any fun memory => memory.id = id ∧ memory.deletedAt = none ∧
    memory.workspaceId = scope.workspaceId ∧ memory.contextId = scope.contextId

def Edge.pair (edge : Edge W) : UserId × MemoryId × MemoryId :=
  (edge.userId, edge.srcId, edge.dstId)

structure Table (W : Type) where
  rows : List (Edge W)
  nextId : Nat
  numbered : (rows.map Edge.id).Nodup
  below : ∀ edge ∈ rows, edge.id < nextId
  uniqueEdge : (rows.map Edge.pair).Nodup

def Table.empty : Table W :=
  { rows := [], nextId := 1, numbered := .nil, below := by simp, uniqueEdge := .nil }

def Table.keep (table : Table W) (keeps : Edge W → Bool) : Table W where
  rows := table.rows.filter keeps
  nextId := table.nextId
  numbered := table.numbered.sublist (List.filter_sublist.map _)
  below := fun edge kept => table.below edge (List.mem_of_mem_filter kept)
  uniqueEdge := table.uniqueEdge.sublist (List.filter_sublist.map _)

def Table.update (table : Table W) (write : Edge W → Edge W)
    (sameId : ∀ edge, (write edge).id = edge.id)
    (samePair : ∀ edge, (write edge).pair = edge.pair) : Table W where
  rows := table.rows.map write
  nextId := table.nextId
  numbered := by simpa [Function.comp_def, sameId] using table.numbered
  below := by
    intro edge written
    obtain ⟨old, listed, rfl⟩ := List.mem_map.mp written
    rw [sameId]
    exact table.below old listed
  uniqueEdge := by simpa [Function.comp_def, samePair] using table.uniqueEdge

def Table.insert (table : Table W) (edge : Edge W) (numbered : edge.id = table.nextId)
    (absent : edge.pair ∉ table.rows.map Edge.pair) : Table W where
  rows := table.rows ++ [edge]
  nextId := table.nextId + 1
  numbered := by
    rw [List.map_append, List.nodup_append]
    refine ⟨table.numbered, by simp, ?_⟩
    intro id listed last drawn
    obtain ⟨old, stored, rfl⟩ := List.mem_map.mp listed
    simp only [List.map_cons, List.map_nil, List.mem_singleton] at drawn
    rw [drawn, numbered]
    exact Nat.ne_of_lt (table.below old stored)
  below := by
    intro other listed
    rcases List.mem_append.mp listed with old | new
    next => exact Nat.lt_succ_of_lt (table.below other old)
    next =>
      rw [List.mem_singleton.mp new, numbered]
      exact Nat.lt_succ_self _
  uniqueEdge := by
    rw [List.map_append, List.nodup_append]
    refine ⟨table.uniqueEdge, by simp, ?_⟩
    intro pair listed last drawn same
    simp only [List.map_cons, List.map_nil, List.mem_singleton] at drawn
    rw [same, drawn] at listed
    exact absent listed

structure Upsert (W : Type) where
  userId : UserId
  srcId : MemoryId
  dstId : MemoryId
  edgeType : EdgeType
  weight : W
  confidence : W
  edgeMetadata : Option (List (String × String))
  scope : Scope
  protectDeclaredLink : Bool
  origin : Origin
  now : Nat

def Upsert.row (upsert : Upsert W) (id : Nat) : Edge W :=
  { id
    userId := upsert.userId
    srcId := upsert.srcId
    dstId := upsert.dstId
    workspaceId := upsert.scope.workspaceId
    contextId := upsert.scope.contextId
    edgeType := upsert.edgeType
    weight := upsert.weight
    confidence := upsert.confidence
    origin := upsert.origin
    edgeMetadata := upsert.edgeMetadata
    createdAt := upsert.now
    lastUpdated := upsert.now }

def typeSet (upsert : Upsert W) (edge : Edge W) : EdgeType :=
  if upsert.protectDeclaredLink = true ∧ edge.origin = .declared then edge.edgeType
  else upsert.edgeType

def originSet (upsert : Upsert W) (edge : Edge W) : Origin :=
  if upsert.origin = .declared then upsert.origin
  else if edge.origin ≠ .hebbian then edge.origin
  else upsert.origin

-- The SET list of the ON CONFLICT arm.
def onConflict (upsert : Upsert W) (edge : Edge W) : Edge W :=
  { edge with
    edgeType := typeSet upsert edge
    weight := upsert.weight
    confidence := upsert.confidence
    edgeMetadata := upsert.edgeMetadata
    origin := originSet upsert edge
    lastUpdated := upsert.now
    createdAt := if typeSet upsert edge ≠ edge.edgeType then upsert.now else edge.createdAt }

def Upsert.pair (upsert : Upsert W) : UserId × MemoryId × MemoryId :=
  (upsert.userId, upsert.srcId, upsert.dstId)

def writeConflict (upsert : Upsert W) (edge : Edge W) : Edge W :=
  if edge.pair = upsert.pair then onConflict upsert edge else edge

@[simp]
theorem writeConflict_id (upsert : Upsert W) (edge : Edge W) :
    (writeConflict upsert edge).id = edge.id := by
  unfold writeConflict
  split <;> rfl

@[simp]
theorem writeConflict_pair (upsert : Upsert W) (edge : Edge W) :
    (writeConflict upsert edge).pair = edge.pair := by
  unfold writeConflict
  split <;> rfl

-- `INSERT ... ON CONFLICT ON CONSTRAINT unique_edge DO UPDATE`.
def upsertRow (table : Table W) (upsert : Upsert W) : Table W :=
  if absent : upsert.pair ∉ table.rows.map Edge.pair then
    table.insert (upsert.row table.nextId) rfl absent
  else
    table.update (writeConflict upsert) (writeConflict_id upsert) (writeConflict_pair upsert)

-- `create_or_update_edge`; `none` for the ValueError on an endpoint.
def createOrUpdateEdge (memories : List Memory) (table : Table W) (upsert : Upsert W) :
    Option (Table W) :=
  if endpointValid memories upsert.scope upsert.srcId ∧
      endpointValid memories upsert.scope upsert.dstId then
    some (upsertRow table upsert)
  else none

def deleteEdge (table : Table W) (userId : UserId) (srcId dstId : MemoryId) : Table W :=
  table.keep fun edge => edge.pair ≠ (userId, srcId, dstId)

def deleteNodeEdges (table : Table W) (userId : UserId) (nodeId : MemoryId) (scope : Scope) :
    Table W :=
  table.keep fun edge =>
    ¬ (edge.userId = userId ∧ (edge.srcId = nodeId ∨ edge.dstId = nodeId) ∧ edge.inScope scope)

def repointRow (id : Nat) (srcId dstId : MemoryId) (now : Nat) (edge : Edge W) : Edge W :=
  if edge.id = id then { edge with srcId, dstId, lastUpdated := now } else edge

theorem repointRow_id (id : Nat) (srcId dstId : MemoryId) (now : Nat) (edge : Edge W) :
    (repointRow id srcId dstId now edge).id = edge.id := by
  unfold repointRow
  split <;> rfl

-- An UPDATE of the row's endpoints; `none` when `unique_edge` refuses it.
def Table.repoint (table : Table W) (id : Nat) (srcId dstId : MemoryId) (now : Nat) :
    Option (Table W) :=
  if unique : ((table.rows.map (repointRow id srcId dstId now)).map Edge.pair).Nodup then
    some
      { rows := table.rows.map (repointRow id srcId dstId now)
        nextId := table.nextId
        numbered := by simpa [Function.comp_def, repointRow_id] using table.numbered
        below := by
          intro edge written
          obtain ⟨old, listed, rfl⟩ := List.mem_map.mp written
          rw [repointRow_id]
          exact table.below old listed
        uniqueEdge := unique }
  else none

section Transfer

variable [LT W] [DecidableLT W]

def keepIncoming (existing incoming : Edge W) : Bool :=
  if existing.origin = .hebbian ∧ incoming.origin ≠ .hebbian then true
  else if existing.origin ≠ .hebbian ∧ incoming.origin = .hebbian then false
  else existing.weight < incoming.weight

def moveNode (fromNode toNode node : MemoryId) : MemoryId :=
  if node = fromNode then toNode else node

def transferEdge (userId : UserId) (scope : Scope) (fromNode toNode : MemoryId) (now : Nat)
    (table : Table W) (edge : Edge W) : Option (Table W) :=
  let newSrc := moveNode fromNode toNode edge.srcId
  let newDst := moveNode fromNode toNode edge.dstId
  if newSrc = newDst then some (table.keep fun other => other.id ≠ edge.id)
  else
    match table.rows.find? fun other =>
        other.pair = (userId, newSrc, newDst) ∧ other.inScope scope ∧ other.id ≠ edge.id with
    | some existing =>
      if keepIncoming existing edge then
        (table.keep fun other => other.id ≠ existing.id).repoint edge.id newSrc newDst now
      else some (table.keep fun other => other.id ≠ edge.id)
    | none => table.repoint edge.id newSrc newDst now

def transferEdges (table : Table W) (fromNode toNode : MemoryId) (userId : UserId) (scope : Scope)
    (now : Nat) : Option (Table W) :=
  (table.rows.filter fun edge =>
    edge.userId = userId ∧ (edge.srcId = fromNode ∨ edge.dstId = fromNode) ∧
      edge.inScope scope).foldlM (transferEdge userId scope fromNode toNode now) table

end Transfer

inductive EdgeOperation
  | created
  | updated
  | unchanged
  | conflict
  deriving DecidableEq, Repr

structure DeclaredEdge (W : Type) where
  userId : UserId
  sourceId : MemoryId
  targetId : MemoryId
  edgeType : EdgeType
  weight : W
  confidence : W
  scope : Scope
  overwrite : Bool
  now : Nat

-- `own userId contextId` is the predicate of `own_memory_predicate`.
def supersedesOwned (own : UserId → ContextId → Memory → Bool) (memories : List Memory)
    (userId : UserId) (scope : Scope) (id : MemoryId) : Bool :=
  memories.any fun memory => memory.id = id ∧ memory.contextId = scope.contextId ∧
    memory.workspaceId = scope.workspaceId ∧ memory.deletedAt = none ∧
      own userId scope.contextId memory

def scopedEdge (table : Table W) (userId : UserId) (srcId dstId : MemoryId) (scope : Scope) :
    Option (Edge W) :=
  table.rows.find? fun edge => edge.pair = (userId, srcId, dstId) ∧ edge.inScope scope

-- `create_declared_edge`: the operation, the pre-image and the table; `none` when it raises.
def createDeclaredEdge [DecidableEq W] (own : UserId → ContextId → Memory → Bool)
    (memories : List Memory) (table : Table W) (input : DeclaredEdge W) :
    Option (EdgeOperation × Option (Edge W) × Table W) :=
  if input.edgeType = .supersedes ∧
      ¬ (supersedesOwned own memories input.userId input.scope input.sourceId ∧
        supersedesOwned own memories input.userId input.scope input.targetId) then none
  else
    let existing := scopedEdge table input.userId input.sourceId input.targetId input.scope
    let write := (createOrUpdateEdge memories table
      { userId := input.userId
        srcId := input.sourceId
        dstId := input.targetId
        edgeType := input.edgeType
        weight := input.weight
        confidence := input.confidence
        edgeMetadata := none
        scope := input.scope
        protectDeclaredLink := !input.overwrite
        origin := .declared
        now := input.now })
    match existing with
    | some edge =>
      if edge.origin = .declared ∧ input.overwrite = false then
        if edge.edgeType = input.edgeType ∧ edge.weight = input.weight ∧
            edge.confidence = input.confidence then
          some (.unchanged, some edge, table)
        else some (.conflict, some edge, table)
      else write.map fun written => (.updated, some edge, written)
    | none => write.map fun written => (.created, none, written)

structure Merge where
  winner : MemoryId
  loser : MemoryId
  userId : UserId
  scope : Scope
  -- One of the rows is pinned, carries a tool trigger or is a time memory.
  held : Bool
  now : Nat

def pinnedOrGone (memories : List Memory) (merge : Merge) : Bool :=
  merge.held || !alive memories merge.winner || !alive memories merge.loser

-- `_execute_shadow_merge`; `none` when it refuses the pair or raises.
def executeShadowMerge [One W] (memories : List Memory) (table : Table W) (merge : Merge) :
    Option (Table W) :=
  if pinnedOrGone memories merge then none
  else
    createOrUpdateEdge memories table
      { userId := merge.userId
        srcId := merge.winner
        dstId := merge.loser
        edgeType := .supersedes
        weight := 1
        confidence := 1
        edgeMetadata := none
        scope := merge.scope
        protectDeclaredLink := false
        origin := .semantic
        now := merge.now }

def softDelete (memories : List Memory) (id : MemoryId) (now : Nat) : List Memory :=
  memories.map fun memory => if memory.id = id then { memory with deletedAt := some now } else memory

def executeMerge [LT W] [DecidableLT W] (memories : List Memory) (table : Table W)
    (merge : Merge) : Option (List Memory × Table W) :=
  if pinnedOrGone memories merge then none
  else
    (transferEdges table merge.loser merge.winner merge.userId merge.scope merge.now).map
      fun moved => (softDelete memories merge.loser merge.now, moved)

end MemoryCloud.Edges
