import MemoryCloud.Shared.SqlLogic

set_option autoImplicit false

/-!
# Agent context bindings

The read lanes of `services/agent_binding_service.py`: the SQL predicate, the
filter over fetched rows and the access decision for one row.
-/

namespace MemoryCloud.Bindings

open SqlLogic

abbrev AgentId := Nat
abbrev ContextId := Nat
abbrev MemoryId := Nat

inductive EnforcementMode where
  | shadow
  | enforce
  deriving DecidableEq, Repr

inductive WritePolicy where
  | deny
  | direct
  deriving DecidableEq, Repr

inductive Access where
  | read
  | write
  deriving DecidableEq, Repr

inductive Decision where
  | allowed
  | bindingDenied
  | wouldDeny
  deriving DecidableEq, Repr

structure AgentScope where
  agentId : AgentId
  enforcementMode : EnforcementMode
  deriving DecidableEq, Repr

structure AgentContextBinding where
  agentId : AgentId
  contextId : ContextId
  canRead : Bool
  writePolicy : WritePolicy
  allowedMemoryTypes : Option (List String)
  allowedSourceTypes : Option (List String)
  deriving DecidableEq, Repr

-- `uq_agent_ctx_binding`: one row for an agent and a context.
structure BindingTable where
  rows : List AgentContextBinding
  unique : rows.Pairwise fun a b => a.agentId = b.agentId → a.contextId ≠ b.contextId

structure MemoryRow where
  id : MemoryId
  contextId : Option ContextId
  type : Option String
  sourceType : Option String
  deriving DecidableEq, Repr

structure BindingRowFilter where
  allowedMemoryTypes : Option (List String)
  allowedSourceTypes : Option (List String)
  deriving DecidableEq, Repr

def BindingRowFilter.fromBinding (binding : AgentContextBinding) : Option BindingRowFilter :=
  if binding.allowedMemoryTypes = none ∧ binding.allowedSourceTypes = none then none
  else some
    { allowedMemoryTypes := binding.allowedMemoryTypes
      allowedSourceTypes := binding.allowedSourceTypes }

-- A missing value is in no list, so it is denied in a restricted dimension.
def dimensionPermits (allowed : Option (List String)) (value : Option String) : Bool :=
  match allowed with
  | none => true
  | some values =>
      match value with
      | none => false
      | some found => decide (found ∈ values)

def BindingRowFilter.permits (filter : BindingRowFilter) (memoryType sourceType : Option String) :
    Bool :=
  if !dimensionPermits filter.allowedMemoryTypes memoryType then false
  else dimensionPermits filter.allowedSourceTypes sourceType

def BindingTable.forAgent (table : BindingTable) (agent : AgentId) : List AgentContextBinding :=
  table.rows.filter fun binding => decide (binding.agentId = agent)

def BindingTable.getBindingForContext (table : BindingTable) (agent : AgentId)
    (context : Option ContextId) : Option AgentContextBinding :=
  table.rows.find? fun binding =>
    decide (binding.agentId = agent) && decide (context = some binding.contextId)

-- An empty list is spelled `false()`: `IN ()` is no SQL.
def allowedClause (column : Option String) (allowed : List String) : Tri :=
  if allowed = [] then some false else Tri.isIn column allowed

def rowFilterDims (filter : BindingRowFilter) (row : MemoryRow) : List Tri :=
  (match filter.allowedMemoryTypes with
    | none => []
    | some types => [allowedClause row.type types]) ++
  (match filter.allowedSourceTypes with
    | none => []
    | some sources => [allowedClause row.sourceType sources])

def deniedClause (row : MemoryRow) (binding : AgentContextBinding) : Option Tri :=
  if !binding.canRead then none
  else
    match BindingRowFilter.fromBinding binding with
    | none => none
    | some filter =>
        some ((Tri.eq row.contextId binding.contextId).and (Tri.all (rowFilterDims filter row)).not)

def membershipGate (bindings : List AgentContextBinding) (row : MemoryRow) : Tri :=
  let readableIds := (bindings.filter (·.canRead)).map (·.contextId)
  if readableIds = [] then some false else Tri.isIn row.contextId readableIds

def bindingMemorySqlPredicate (table : BindingTable) (scope : Option AgentScope) :
    Option (MemoryRow → Tri) :=
  match scope with
  | none => none
  | some scope =>
      if scope.enforcementMode = .shadow then none
      else
        let bindings := table.forAgent scope.agentId
        some fun row =>
          let deniedClauses := bindings.filterMap (deniedClause row)
          if deniedClauses = [] then membershipGate bindings row
          else (membershipGate bindings row).and (Tri.any deniedClauses).not

def sqlKeeps (table : BindingTable) (scope : Option AgentScope) (row : MemoryRow) : Prop :=
  match bindingMemorySqlPredicate table scope with
  | none => True
  | some predicate => (predicate row).Keeps

def bindingRowFiltersForContexts (table : BindingTable) (scope : AgentScope)
    (contexts : List (Option ContextId)) : List (ContextId × BindingRowFilter) :=
  (table.forAgent scope.agentId).filterMap fun binding =>
    if some binding.contextId ∈ contexts then
      (BindingRowFilter.fromBinding binding).map fun filter => (binding.contextId, filter)
    else none

def lookupFilter (filters : List (ContextId × BindingRowFilter)) (context : Option ContextId) :
    Option BindingRowFilter :=
  (filters.find? fun entry => decide (context = some entry.1)).map (·.2)

def rowPermitted (filters : List (ContextId × BindingRowFilter)) (row : MemoryRow) : Bool :=
  match lookupFilter filters row.contextId with
  | none => true
  | some filter => filter.permits row.type row.sourceType

def filterMemoryRowsByBinding (table : BindingTable) (scope : Option AgentScope)
    (rows : List MemoryRow) : List MemoryRow × Nat :=
  match scope with
  | none => (rows, 0)
  | some scope =>
      if rows = [] then (rows, 0)
      else
        let filters := bindingRowFiltersForContexts table scope (rows.map (·.contextId))
        if filters = [] then (rows, 0)
        else
          let kept := rows.filter (rowPermitted filters)
          let denied := rows.filter fun row => !rowPermitted filters row
          if denied = [] then (kept, 0)
          else if scope.enforcementMode = .shadow then (rows, 0)
          else (kept, denied.length)

def bindingGrants (binding : Option AgentContextBinding) (access : Access) : Bool :=
  match binding with
  | none => false
  | some binding =>
      match access with
      | .read => binding.canRead
      | .write => decide (binding.writePolicy = .direct)

def evaluateContextAccess (table : BindingTable) (scope : AgentScope) (context : Option ContextId)
    (access : Access) (memoryType memorySourceType : Option String) : Bool × Decision :=
  let binding := table.getBindingForContext scope.agentId context
  let granted := bindingGrants binding access
  let permitted :=
    match binding with
    | none => granted
    | some binding =>
        if granted && (memoryType.isSome || memorySourceType.isSome) then
          match BindingRowFilter.fromBinding binding with
          | none => granted
          | some filter => filter.permits memoryType memorySourceType
        else granted
  if permitted then (true, .allowed)
  else if scope.enforcementMode = .shadow then (true, .wouldDeny)
  else (false, .bindingDenied)

end MemoryCloud.Bindings
