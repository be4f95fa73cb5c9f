import MemoryCloud.Bindings.Model

set_option autoImplicit false

/-!
# Access gates

The tenancy rule of `services/permission_service.py` as its gates spell it: the
listing of a workspace, the two context resolvers and the gate of one memory,
with the seats of `services/plan_seats.py`, the reach rule of
`auth/workspace_roles.py` and the owners of `services/identity_link_service.py`.
-/

namespace MemoryCloud.Access

open SqlLogic
open Bindings (ContextId AgentScope BindingTable evaluateContextAccess)

abbrev UserId := Nat
abbrev WorkspaceId := Nat
abbrev Time := Nat

inductive WorkspaceRole where
  | owner
  | admin
  | member
  | viewer
  deriving DecidableEq, Repr

inductive ContextRole where
  | owner
  | editor
  | viewer
  deriving DecidableEq, Repr

def WorkspaceRole.weight : WorkspaceRole → Nat
  | .owner => 4
  | .admin => 3
  | .member => 2
  | .viewer => 1

def ContextRole.weight : ContextRole → Nat
  | .owner => 3
  | .editor => 2
  | .viewer => 1

def accessForWorkspaceRole (role : WorkspaceRole) : Bindings.Access :=
  if role = .viewer then .read else .write

def accessForContextRole (role : ContextRole) : Bindings.Access :=
  if role = .viewer then .read else .write

inductive CapacityPolicy where
  | blocked
  | allowed
  deriving DecidableEq, Repr

inductive ExceptionClass where
  | notFound
  | authorization
  | featureNotAvailable
  | capacityLocked
  deriving DecidableEq, Repr

structure MemoryCloudException where
  cls : ExceptionClass
  message : String
  statusCode : Nat
  errorCode : String
  details : List (String × String)
  deriving DecidableEq, Repr

def notFoundException (resource : String) (resourceId : Option String) : MemoryCloudException :=
  { cls := .notFound
    message :=
      match resourceId with
      | none => resource ++ " not found"
      | some id => resource ++ " not found" ++ ": " ++ id
    statusCode := 404, errorCode := "RES-001", details := [] }

def authorizationError : MemoryCloudException :=
  { cls := .authorization, message := "Insufficient permissions", statusCode := 403
    errorCode := "AUTH-101", details := [] }

structure Workspace where
  id : WorkspaceId
  ownerUserId : UserId
  planName : String
  effectiveMaxMembers : Int
  effectiveMaxContexts : Int
  deletedAt : Option Time
  deriving DecidableEq, Repr

structure WorkspaceMember where
  id : Nat
  workspaceId : WorkspaceId
  userId : UserId
  role : WorkspaceRole
  allowedContextIds : Option (List ContextId)
  invitedAt : Option Time
  joinedAt : Option Time
  deriving DecidableEq, Repr

structure Context where
  id : ContextId
  workspaceId : WorkspaceId
  createdBy : Option UserId
  isPrivate : Bool
  createdAt : Time
  deletedAt : Option Time
  deriving DecidableEq, Repr

structure ContextMember where
  contextId : ContextId
  userId : UserId
  role : ContextRole
  deriving DecidableEq, Repr

structure IdentityLink where
  groupId : Nat
  userId : UserId
  deriving DecidableEq, Repr

structure Db where
  workspaces : List Workspace
  members : List WorkspaceMember
  contexts : List Context
  contextMembers : List ContextMember
  identityLinks : List IdentityLink
  bindings : BindingTable
  workspaceIds : (workspaces.map (·.id)).Nodup
  memberKeys : (members.map fun member => (member.workspaceId, member.userId)).Nodup
  contextIds : (contexts.map (·.id)).Nodup
  contextMemberKeys : (contextMembers.map fun member => (member.contextId, member.userId)).Nodup
  linkedUsers : (identityLinks.map (·.userId)).Nodup

-- The texts of a plan refusal come from the tier registry; the capacity lock counts the workspace's
-- rows. Both answer after the caller is known to be a member.
structure Deployment where
  pausedMessage : (planName feature limitAttr : String) → (above : Int) → String
  pausedDetails : (planName feature limitAttr : String) → (above limit current : Int) →
    List (String × String)
  capacityLock : Db → WorkspaceId → Option UserId → Option MemoryCloudException

structure Caller where
  userId : UserId
  keyWorkspaceId : Option WorkspaceId
  scope : Option AgentScope

abbrev Answer := Except MemoryCloudException

section Reach

def reachableContextIds (role : WorkspaceRole) (allowed : Option (List ContextId)) :
    Option (List ContextId) :=
  match role with
  | .owner => none
  | .admin => none
  | .member =>
      match allowed with
      | none => some []
      | some ids => some ids
  | .viewer =>
      match allowed with
      | none => none
      | some ids => some ids

def reachesContext (role : WorkspaceRole) (allowed : Option (List ContextId))
    (context : ContextId) : Bool :=
  match reachableContextIds role allowed with
  | none => true
  | some ids => decide (context ∈ ids)

-- `None` is no filter; an empty list is spelled `false()`.
def reachFilter (member : WorkspaceMember) : Option (Context → Tri) :=
  match reachableContextIds member.role member.allowedContextIds with
  | none => none
  | some [] => some fun _ => some false
  | some (first :: rest) => some fun context => Tri.isIn (some context.id) (first :: rest)

def belowMember (member : WorkspaceMember) : Bool :=
  decide (member.role.weight < WorkspaceRole.member.weight)

end Reach

section Owners

variable (db : Db)

def linkedIdsSubquery (user : UserId) : List UserId :=
  let mine := (db.identityLinks.filter fun link => decide (link.userId = user)).map (·.groupId)
  (db.identityLinks.filter fun other => decide (other.groupId ∈ mine)).map (·.userId)

def ownedBy (column : Option UserId) (user : UserId) : Tri :=
  (Tri.eq column user).or (Tri.isIn column (linkedIdsSubquery db user))

def isSameOwner (user : UserId) (other : Option UserId) : Bool :=
  match other with
  | none => false
  | some other =>
      if user = other then true
      else
        (db.identityLinks.find? fun link =>
          decide (link.userId = other) && decide (link.userId ∈ linkedIdsSubquery db user)).isSome

end Owners

section Seats

variable (db : Db)

def getWorkspace (id : WorkspaceId) : Option Workspace :=
  db.workspaces.find? fun workspace => decide (workspace.id = id)

def getMember (workspace : WorkspaceId) (user : UserId) : Option WorkspaceMember :=
  db.members.find? fun member =>
    decide (member.workspaceId = workspace) && decide (member.userId = user)

def ranksFirst (member : WorkspaceMember) : Bool :=
  decide (member.role = .owner) ||
    decide ((getWorkspace db member.workspaceId).map (·.ownerUserId) = some member.userId)

-- `seat_order`: owners, then the join or invitation time with NULLs last, then the id.
def seatOrder (a b : WorkspaceMember) : Bool :=
  if ranksFirst db a != ranksFirst db b then ranksFirst db a
  else
    match a.joinedAt.or a.invitedAt, b.joinedAt.or b.invitedAt with
    | some left, some right => if left = right then decide (a.id ≤ b.id) else decide (left < right)
    | some _, none => true
    | none, some _ => false
    | none, none => decide (a.id ≤ b.id)

def seatLimit (workspace : Workspace) : Int := max workspace.effectiveMaxMembers 1

def memberSeatSuspended (workspace : Workspace) (member : WorkspaceMember) : Bool :=
  if member.role = .owner ∨ member.userId = workspace.ownerUserId then false
  else
    let ordered := (db.members.filter fun other =>
      decide (other.workspaceId = workspace.id)).mergeSort (seatOrder db)
    let seated := ordered.take (seatLimit workspace).toNat
    !decide (member.id ∈ seated.map (·.id))

variable (texts : Deployment)

def seatRefusal (workspace : Workspace) : MemoryCloudException :=
  let count : Int := (db.members.filter fun member =>
    decide (member.workspaceId = workspace.id)).length
  { cls := .featureNotAvailable, statusCode := 403, errorCode := "FEAT-001"
    message := texts.pausedMessage workspace.planName "members" "max_members_per_workspace"
      (count - 1)
    details := texts.pausedDetails workspace.planName "members" "max_members_per_workspace"
      (count - 1) (seatLimit workspace) count }

def ensureSeatedIn (workspace : Workspace) (member : WorkspaceMember) : Answer Unit :=
  if member.role = .owner then .ok ()
  else if memberSeatSuspended db workspace member then .error (seatRefusal db texts workspace)
  else .ok ()

-- The id form of `ensure_member_seated`: a workspace row that is gone seats everyone.
def ensureMemberSeated (workspace : WorkspaceId) (member : WorkspaceMember) : Answer Unit :=
  if member.role = .owner then .ok ()
  else
    match getWorkspace db workspace with
    | none => .ok ()
    | some loaded => ensureSeatedIn db texts loaded member

def seatedMember (workspace : WorkspaceId) (user : UserId) : Answer (Option WorkspaceMember) :=
  match getMember db workspace user with
  | none => .ok none
  | some member => do
      ensureMemberSeated db texts workspace member
      .ok (some member)

def liveContexts (workspace : WorkspaceId) : List Context :=
  db.contexts.filter fun context =>
    decide (context.workspaceId = workspace) && decide (context.deletedAt = none)

def slotLimit (workspace : Workspace) : Int := max workspace.effectiveMaxContexts 0

def contextWritesSuspended (workspace : Workspace) (context : Context) : Bool :=
  if slotLimit workspace ≤ 0 then true
  else
    let older := (liveContexts db workspace.id).filter fun other =>
      decide (other.createdAt < context.createdAt) ||
        (decide (other.createdAt = context.createdAt) && decide (other.id < context.id))
    decide (slotLimit workspace ≤ older.length)

def ensureContextWritable (context : Context) : Answer Unit :=
  match getWorkspace db context.workspaceId with
  | none => .ok ()
  | some workspace =>
      if contextWritesSuspended db workspace context then
        let count : Int := (liveContexts db workspace.id).length
        .error
          { cls := .featureNotAvailable, statusCode := 403, errorCode := "FEAT-001"
            message := texts.pausedMessage workspace.planName "contexts"
              "max_contexts_per_workspace" (count - 1)
            details := texts.pausedDetails workspace.planName "contexts"
              "max_contexts_per_workspace" (count - 1) (slotLimit workspace) count }
      else .ok ()

def ensureNotCapacityLocked (workspace : WorkspaceId) (user : Option UserId) : Answer Unit :=
  match getWorkspace db workspace with
  | none => .ok ()
  | some _ =>
      match texts.capacityLock db workspace user with
      | none => .ok ()
      | some refusal => .error refusal

end Seats

section Gates

variable (db : Db) (texts : Deployment)

def checkWorkspaceAccess (user : UserId) (workspaceId : WorkspaceId) (required : WorkspaceRole) :
    Answer WorkspaceMember :=
  match db.workspaces.find? fun workspace =>
      decide (workspace.id = workspaceId) && decide (workspace.deletedAt = none) with
  | none => .error authorizationError
  | some workspace =>
      match getMember db workspaceId user with
      | none => .error authorizationError
      | some member =>
          if member.role.weight < required.weight then .error authorizationError
          else do
            ensureSeatedIn db texts workspace member
            .ok member

def liveContext (id : ContextId) : Option Context :=
  db.contexts.find? fun context => decide (context.id = id) && decide (context.deletedAt = none)

def applyAgentBindingFilter (caller : Caller) (context : ContextId) (access : Bindings.Access)
    (missing : MemoryCloudException) : Answer Unit :=
  match caller.scope with
  | none => .ok ()
  | some scope =>
      if (evaluateContextAccess db.bindings scope (some context) access none none).1 then .ok ()
      else .error missing

def keyMismatch (key : Option WorkspaceId) (workspace : WorkspaceId) : Bool :=
  match key with
  | none => false
  | some key => decide (workspace ≠ key)

-- The lock and the slot answer after every authorization step.
def capacityChecks (context : Context) (policy : CapacityPolicy) (access : Bindings.Access)
    (user : Option UserId) : Answer Unit :=
  if policy = .allowed then .ok ()
  else do
    ensureNotCapacityLocked db texts context.workspaceId user
    if access = .write then ensureContextWritable db texts context else .ok ()

def contextNotFound (id : ContextId) : MemoryCloudException :=
  notFoundException "Context" (some (toString id))

def resolveContextForWorkspaceRead (caller : Caller) (id : ContextId) (policy : CapacityPolicy)
    (required : WorkspaceRole) : Answer Context :=
  match liveContext db id with
  | none => .error (contextNotFound id)
  | some context =>
      if keyMismatch caller.keyWorkspaceId context.workspaceId then .error (contextNotFound id)
      else if context.isPrivate && !isSameOwner db caller.userId context.createdBy then
        .error (contextNotFound id)
      else
        match checkWorkspaceAccess db texts caller.userId context.workspaceId required with
        | .error refusal =>
            -- `except AuthorizationError`; a missing seat goes through.
            if refusal.cls = .authorization then .error (contextNotFound id) else .error refusal
        | .ok member =>
            if !reachesContext member.role member.allowedContextIds context.id then
              .error (contextNotFound id)
            else do
              let access := accessForWorkspaceRole required
              applyAgentBindingFilter db caller id access (contextNotFound id)
              capacityChecks db texts context policy access none
              .ok context

-- The creator's arm of `_check_context_access_rbac`: a missing membership row is made up for by the
-- workspace's `owner_user_id`.
def privateCreatorRole (context : Context) (user : UserId) (required : ContextRole) :
    Answer ContextRole := do
  match ← seatedMember db texts context.workspaceId user with
  | none =>
      match getWorkspace db context.workspaceId with
      | none => .error (notFoundException "Context" none)
      | some workspace =>
          if workspace.ownerUserId ≠ user then .error (notFoundException "Context" none)
          else .ok .owner
  | some member =>
      if !reachesContext member.role member.allowedContextIds context.id then
        .error (notFoundException "Context" none)
      else if belowMember member then
        if required ≠ .viewer then .error authorizationError else .ok .viewer
      else .ok .owner

def getContextMember (context : ContextId) (user : UserId) : Option ContextMember :=
  db.contextMembers.find? fun member =>
    decide (member.contextId = context) && decide (member.userId = user)

def memberRole (context : Context) (user : UserId) (required : ContextRole) (linkedOwner : Bool) :
    Answer ContextRole := do
  match ← seatedMember db texts context.workspaceId user with
  | none => .error (notFoundException "Context" none)
  | some member =>
      if member.role = .owner ∨ member.role = .admin then .ok .owner
      else if !reachesContext member.role member.allowedContextIds context.id then
        .error (notFoundException "Context" none)
      else if member.role = .viewer then
        if required ≠ .viewer then .error authorizationError else .ok .viewer
      else if linkedOwner then .ok .owner
      else
        match getContextMember db context.id user with
        | none => .error authorizationError
        | some contextMember =>
            if contextMember.role.weight < required.weight then .error authorizationError
            else .ok contextMember.role

def checkContextAccessRbac (user : UserId) (id : ContextId) (required : ContextRole)
    (key : Option WorkspaceId) : Answer (Context × ContextRole) :=
  match liveContext db id with
  | none => .error (notFoundException "Context" none)
  | some context =>
      if keyMismatch key context.workspaceId then .error (notFoundException "Context" none)
      else if context.isPrivate then
        if context.createdBy = some user then do
          let role ← privateCreatorRole db texts context user required
          .ok (context, role)
        else if !isSameOwner db user context.createdBy then
          .error (notFoundException "Context" none)
        else do
          let role ← memberRole db texts context user required true
          .ok (context, role)
      else do
        let role ← memberRole db texts context user required false
        .ok (context, role)

-- The binding filter names the context in its refusal, the core does not.
def checkContextAccess (caller : Caller) (id : ContextId) (required : ContextRole)
    (policy : CapacityPolicy) : Answer (Context × ContextRole) := do
  let (context, role) ← checkContextAccessRbac db texts caller.userId id required
    caller.keyWorkspaceId
  let access := accessForContextRole required
  applyAgentBindingFilter db caller id access (contextNotFound id)
  capacityChecks db texts context policy access (some caller.userId)
  .ok (context, role)

def listingKeeps (user : UserId) (workspace : WorkspaceId) (member : WorkspaceMember)
    (context : Context) : Bool :=
  decide (context.workspaceId = workspace) && decide (context.deletedAt = none) &&
    decide (Tri.or (some (!context.isPrivate)) (ownedBy db context.createdBy user)).Keeps &&
    (match reachFilter member with
      | none => true
      | some clause => decide (clause context).Keeps)

def getAccessibleContextsRbac (user : UserId) (workspace : WorkspaceId) : Answer (List Context) := do
  let member ← checkWorkspaceAccess db texts user workspace .viewer
  let rows := db.contexts.filter (listingKeeps db user workspace member)
  .ok (rows.mergeSort fun a b => decide (b.createdAt ≤ a.createdAt))

def readableContextIds (agent : Bindings.AgentId) : List ContextId :=
  (db.bindings.rows.filter fun binding =>
    decide (binding.agentId = agent) && binding.canRead).map (·.contextId)

def getAccessibleContexts (caller : Caller) (workspace : WorkspaceId) : Answer (List Context) := do
  let contexts ← getAccessibleContextsRbac db texts caller.userId workspace
  match caller.scope with
  | none => .ok contexts
  | some scope =>
      if scope.enforcementMode = .shadow then .ok contexts
      else .ok (contexts.filter fun context =>
        decide (context.id ∈ readableContextIds db scope.agentId))

def isContextShared (id : ContextId) : Bool :=
  match liveContext db id with
  | none => false
  | some context => !context.isPrivate

structure MemoryAddress where
  authorId : UserId
  workspaceId : WorkspaceId
  contextId : ContextId
  type : Option String
  sourceType : Option String
  deriving DecidableEq, Repr

def agentBindingPermits (caller : Caller) (memory : MemoryAddress) (access : Bindings.Access) :
    Bool :=
  match caller.scope with
  | none => true
  | some scope =>
      (evaluateContextAccess db.bindings scope (some memory.contextId) access memory.type
        memory.sourceType).1

def readOnly (member : Option WorkspaceMember) (access : Bindings.Access) : Bool :=
  match member with
  | none => false
  | some member => decide (access = .write) && belowMember member

def reaches (member : Option WorkspaceMember) (context : ContextId) : Bool :=
  match member with
  | none => false
  | some member => reachesContext member.role member.allowedContextIds context

def canAccessMemory (caller : Caller) (memory : MemoryAddress) (access : Bindings.Access) :
    Answer Bool :=
  if keyMismatch caller.keyWorkspaceId memory.workspaceId then .ok false
  else if caller.userId = memory.authorId then do
    let member ← seatedMember db texts memory.workspaceId caller.userId
    if member = none ∧
        (getWorkspace db memory.workspaceId).map (·.ownerUserId) = some caller.userId then
      .ok (agentBindingPermits db caller memory access)
    else if !reaches member memory.contextId || readOnly member access then .ok false
    else .ok (agentBindingPermits db caller memory access)
  else if !isContextShared db memory.contextId then
    if isSameOwner db caller.userId (some memory.authorId) then
      let needed : ContextRole := if access = .write then .editor else .viewer
      match checkContextAccessRbac db texts caller.userId memory.contextId needed none with
      | .error refusal =>
          if refusal.cls = .authorization ∨ refusal.cls = .notFound then .ok false
          else .error refusal
      | .ok _ => .ok (agentBindingPermits db caller memory access)
    else .ok false
  else do
    let member ← seatedMember db texts memory.workspaceId caller.userId
    if !reaches member memory.contextId || readOnly member access then .ok false
    else .ok (agentBindingPermits db caller memory access)

end Gates

end MemoryCloud.Access
