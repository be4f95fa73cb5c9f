import Mathlib.Data.Finset.Basic
import Mathlib.Data.Prod.Lex
import Mathlib.Order.WithBot
import MemoryCloud.Shared.Ranking

set_option autoImplicit false

/-!
# Which contexts have active content chunks

`services/content_chunk_policy.py`: the plan's cap on contexts with content
chunk vectors, as one context's status, as the filter of a recall over many
contexts, and as the report of a plan change.
-/

namespace MemoryCloud.Chunks

abbrev ContextId := Nat
abbrev WorkspaceId := Nat
abbrev Time := Nat

structure PlanTier where
  features : List String
  maxContentChunkContexts : Int

def contentChunksFeature : String := "content_chunks"

def freePlan : String := "free"

-- `planTiers` is `PLAN_TIERS`, `gated` the setting `CONTENT_CHUNKS_REQUIRE_PLAN`, and
-- `chunkPointsSupported` is false where the vector store is LanceDB.
structure Deployment where
  planTiers : String → Option PlanTier
  gated : Bool
  chunkPointsSupported : Bool

-- `plan_name or PlanName.FREE`: the empty string reads as free, too.
def planOrFree : Option String → String
  | none => freePlan
  | some "" => freePlan
  | some planName => planName

namespace Deployment

def hasFeature (deployment : Deployment) (planName feature : String) : Bool :=
  match deployment.planTiers planName with
  | none => false
  | some tier => tier.features.contains feature

def planAllowsContentChunks (deployment : Deployment) (planName : Option String) : Bool :=
  deployment.hasFeature (planOrFree planName) contentChunksFeature

def contentChunkContextLimit (deployment : Deployment) (planName : Option String) : Nat :=
  if deployment.planAllowsContentChunks planName then
    match deployment.planTiers (planOrFree planName) with
    | none => 0
    | some tier => tier.maxContentChunkContexts.toNat
  else
    0

end Deployment

structure Workspace where
  id : WorkspaceId
  planName : Option String

structure Context where
  id : ContextId
  workspaceId : WorkspaceId
  deletedAt : Option Time

structure ContextSearchConfig where
  contextId : ContextId
  contentChunksEnabled : Bool
  contentChunksEnabledAt : Option Time

structure Database where
  workspaces : List Workspace
  contexts : List Context
  configs : List ContextSearchConfig
  workspaceIds : (workspaces.map (·.id)).Nodup
  contextIds : (contexts.map (·.id)).Nodup
  configIds : (configs.map (·.contextId)).Nodup

abbrev RankKey := WithTop Time ×ₗ ContextId

-- A row on without a stamp ranks at infinity.
def rankKey (config : ContextSearchConfig) : RankKey :=
  toLex ((match config.contentChunksEnabledAt with
    | none => ⊤
    | some enabledAt => WithTop.some enabledAt), config.contextId)

namespace Database

def workspace? (db : Database) (id : WorkspaceId) : Option Workspace :=
  db.workspaces.find? (fun workspace => workspace.id == id)

def context? (db : Database) (id : ContextId) : Option Context :=
  db.contexts.find? (fun context => context.id == id)

def config? (db : Database) (id : ContextId) : Option ContextSearchConfig :=
  db.configs.find? (fun config => config.contextId == id)

def enabledLive (db : Database) (workspaceId : WorkspaceId) : List ContextSearchConfig :=
  db.configs.filter (fun config => config.contentChunksEnabled &&
    (db.context? config.contextId).any (fun context =>
      context.workspaceId == workspaceId && context.deletedAt.isNone))

end Database

structure Status where
  stored : Bool
  supported : Bool
  gated : Bool
  planName : Option String
  planHasFeature : Bool
  limit : Option Nat
  inUse : Option Nat
  earlier : Option Nat

namespace Status

def hasPoints (status : Status) : Bool :=
  status.stored && status.supported

def effective (status : Status) : Bool :=
  if !status.hasPoints then
    false
  else if !status.gated then
    true
  else
    match status.limit, status.earlier with
    | some limit, some earlier => status.planHasFeature && decide (earlier < limit)
    | _, _ => false

end Status

def storedFlag (db : Database) (contextId : ContextId) : Bool :=
  match db.config? contextId with
  | none => false
  | some config => config.contentChunksEnabled

structure Usage where
  workspaceId : WorkspaceId
  planName : Option String
  inUse : Nat
  earlier : Nat

-- The counts of the outer joins: a live context without a config that is on adds nothing.
def usageQuery (db : Database) (contextId : ContextId) : Option Usage :=
  match db.config? contextId with
  | none => none
  | some mine =>
    match db.context? mine.contextId with
    | none => none
    | some context =>
      match db.workspace? context.workspaceId with
      | none => none
      | some workspace =>
        some {
          workspaceId := context.workspaceId
          planName := workspace.planName
          inUse := (db.enabledLive context.workspaceId).length
          earlier := Ranking.earlier rankKey (db.enabledLive context.workspaceId) mine }

def contentChunksStatus (deployment : Deployment) (db : Database) (contextId : ContextId)
    (stored : Option Bool) (includeUsage : Bool) : Status :=
  let flag := stored.getD (storedFlag db contextId)
  if !includeUsage && !(deployment.gated && flag) then
    { stored := flag, supported := deployment.chunkPointsSupported, gated := deployment.gated,
      planName := none, planHasFeature := true, limit := none, inUse := none, earlier := none }
  else
    let row := usageQuery db contextId
    let planName := row.bind (·.planName)
    { stored := flag
      supported := deployment.chunkPointsSupported
      gated := deployment.gated
      planName := planName
      planHasFeature :=
        if deployment.gated then deployment.planAllowsContentChunks planName else true
      limit := if deployment.gated then some (deployment.contentChunkContextLimit planName) else none
      inUse := some ((row.map (·.inUse)).getD 0)
      earlier := row.map (·.earlier) }

structure RankedRow where
  contextId : ContextId
  planName : Option String
  rank : Nat

-- One partition of the window: `row_number()` counts from 1.
def rankedRows (db : Database) (workspaceId : WorkspaceId) : List RankedRow :=
  match db.workspace? workspaceId with
  | none => []
  | some workspace =>
    ((Ranking.ranked rankKey (db.enabledLive workspaceId)).zipIdx 1).map (fun entry =>
      { contextId := entry.1.contextId, planName := workspace.planName, rank := entry.2 })

def contentChunksEffectiveIds (deployment : Deployment) (db : Database)
    (wanted : List ContextId) : Finset ContextId :=
  if wanted.isEmpty || !deployment.chunkPointsSupported then
    ∅
  else if !deployment.gated then
    ((db.configs.filter (fun config =>
      wanted.contains config.contextId && config.contentChunksEnabled)).map (·.contextId)).toFinset
  else
    let workspaceIds :=
      ((db.contexts.filter (fun context => wanted.contains context.id)).map (·.workspaceId)).dedup
    let rows := (workspaceIds.flatMap (rankedRows db)).filter (fun row =>
      wanted.contains row.contextId)
    ((rows.filter (fun row =>
      decide (row.rank ≤ deployment.contentChunkContextLimit row.planName))).map
        (·.contextId)).toFinset

def contextsLosingContentChunks (deployment : Deployment) (db : Database)
    (workspaceId : WorkspaceId) (oldPlan newPlan : Option String) : List ContextId :=
  if !deployment.gated then
    []
  else
    let oldLimit := deployment.contentChunkContextLimit oldPlan
    let newLimit := deployment.contentChunkContextLimit newPlan
    if newLimit ≥ oldLimit then
      []
    else
      (((Ranking.ranked rankKey (db.enabledLive workspaceId)).drop newLimit).take
        (oldLimit - newLimit)).map (·.contextId)

end MemoryCloud.Chunks
