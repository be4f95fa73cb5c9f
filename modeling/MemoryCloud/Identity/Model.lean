import Mathlib.Data.Finset.Basic
import Mathlib.Data.List.Sort
import Mathlib.Data.Prod.Lex
import MemoryCloud.Access.Model

set_option autoImplicit false

/-!
# Identity links

`services/identity_link_service.py`: the link sets of the accounts, the calls
that rewrite them with the audit rows they leave, and the hand-over of private
contexts when an account goes. `lock_identity_links` runs the calls one at a
time, so each is one step.
-/

namespace MemoryCloud.Identity

open Access
open Bindings (ContextId)

def maxLinkedIdentities : Nat := 4

structure User where
  userId : UserId
  email : Option String
  deriving DecidableEq, Repr

structure Memory where
  id : Nat
  contextId : Option ContextId
  userId : UserId
  deletedAt : Option Time
  deriving DecidableEq, Repr

inductive AuditAction where
  | identityLinked
  | identityUnlinked
  deriving DecidableEq, Repr

structure AuditLog where
  userEmail : Option String
  userId : UserId
  action : AuditAction
  newValueHash : String
  ipAddress : Option String
  userAgent : Option String
  deriving DecidableEq, Repr

-- `linkedBy` is the `linked_by` column of the account's row; a set has a group id of its own,
-- drawn from `nextGroup`.
structure State where
  db : Db
  linkedBy : UserId → Option UserId
  users : List User
  memories : List Memory
  -- `workspace_connectors.context_id`.
  connectorContexts : List (Option ContextId)
  auditLogs : List AuditLog
  nextGroup : Nat

inductive LinkError where
  | validation (message : String)
  | notFound (resource : String)
  | conflict (message : String)
  deriving DecidableEq, Repr

structure Request where
  digest : UserId → String
  ipAddress : Option String
  userAgent : Option String

section Rows

variable (db : Db)

def linkedUserIds (user : UserId) : Finset UserId :=
  insert user ((db.identityLinks.filter fun link =>
    decide ((ownedBy db (some link.userId) user).Keeps)).map (·.userId)).toFinset

def groupOf (user : UserId) : Option Nat :=
  (db.identityLinks.find? fun link => link.userId == user).map (·.groupId)

def membersOf (group : Nat) : List UserId :=
  (db.identityLinks.filter fun link => link.groupId = group).map (·.userId)

-- The unique constraint on `user_id`.
def withLinks (links : List IdentityLink) : Option Db :=
  if unique : (links.map (·.userId)).Nodup then
    some { db with identityLinks := links, linkedUsers := unique }
  else none

end Rows

def exists? (state : State) (user : UserId) : Option User :=
  state.users.find? fun row => row.userId == user

section Audit

variable (state : State) (request : Request) (action : AuditAction)

def auditRow (user : User) (target : UserId) : AuditLog :=
  { userEmail := user.email, userId := user.userId, action
    newValueHash := request.digest target
    ipAddress := request.ipAddress, userAgent := request.userAgent }

-- An account that is gone has no trail to write to.
def audit (actor target : UserId) : List AuditLog :=
  match exists? state actor with
  | none => []
  | some user => [auditRow request action user target]

def auditBoth (a b : UserId) : List AuditLog :=
  audit state request action a b ++ audit state request action b a

end Audit

-- `sorted` of a set of accounts.
def inOrder (accounts : List UserId) : List UserId :=
  accounts.insertionSort (· ≤ ·)

def side (state : State) (user : UserId) : List UserId :=
  match groupOf state.db user with
  | none => [user]
  | some group => membersOf state.db group

def mergedLinks (state : State) (userId otherUserId : UserId) (group : Nat) : List IdentityLink :=
  let links :=
    match groupOf state.db userId, groupOf state.db otherUserId with
    | some _, some theirs => state.db.identityLinks.map fun link =>
        if link.groupId = theirs then { link with groupId := group } else link
    | _, _ => state.db.identityLinks
  links ++ ([userId, otherUserId].filter fun member => (groupOf state.db member).isNone).map
    fun member => { groupId := group, userId := member }

def link (state : State) (request : Request) (userId otherUserId : UserId) :
    Except LinkError (State × Finset UserId) :=
  if userId = otherUserId then
    .error (.validation "An account cannot be linked to itself")
  else if (exists? state userId).isNone ∨ (exists? state otherUserId).isNone then
    .error (.notFound "Account")
  else
    let mine := groupOf state.db userId
    let theirs := groupOf state.db otherUserId
    if mine.isSome ∧ mine = theirs then .ok (state, ∅)
    else
      let mySide := side state userId
      let theirSide := side state otherUserId
      if mySide.length + theirSide.length > maxLinkedIdentities then
        .error (.conflict "At most 4 accounts can be linked together")
      else
        let group := (mine.or theirs).getD state.nextGroup
        match withLinks state.db (mergedLinks state userId otherUserId group) with
        | none => .error (.conflict "identity_links_user_id_key")
        | some db =>
          .ok ({ state with
            db
            linkedBy := fun member =>
              if member ∈ [userId, otherUserId] ∧ (groupOf state.db member).isNone then some userId
              else state.linkedBy member
            auditLogs := state.auditLogs ++ (inOrder mySide).flatMap fun a =>
              (inOrder theirSide).flatMap fun b => auditBoth state request .identityLinked a b
            nextGroup := state.nextGroup + 1 }, (mySide ++ theirSide).toFinset)

-- `_locked_set_rows` and the rows of `_link_set`.
def setRows (db : Db) (user : UserId) : List IdentityLink :=
  db.identityLinks.filter fun link => decide (link.userId ∈ linkedIdsSubquery db user)

def removeFromSet (state : State) (user : UserId) (members : List IdentityLink) :
    Option (State × Nat) :=
  let kept := state.db.identityLinks.filter fun link => decide (link.userId ≠ user)
  let remaining := members.filter fun row => decide (row.userId ≠ user)
  if remaining.length ≤ 1 then
    (withLinks state.db (kept.filter fun link => decide (link.userId ∉ remaining.map (·.userId)))).map
      fun db => ({ state with db }, 1 + remaining.length)
  else
    (withLinks state.db kept).map fun db =>
      ({ state with
        db
        linkedBy := fun member =>
          if member ∈ remaining.map (·.userId) ∧ state.linkedBy member = some user then none
          else state.linkedBy member }, 1)

def takeOut (state : State) (request : Request) (departing : UserId) (rows : List IdentityLink) :
    Except LinkError (State × Finset UserId) :=
  let former := (rows.map (·.userId)).filter fun user => decide (user ≠ departing)
  match removeFromSet state departing rows with
  | none => .error (.conflict "identity_links_user_id_key")
  | some (after, _) =>
    .ok ({ after with
      auditLogs := state.auditLogs ++ (inOrder former).flatMap fun other =>
        auditBoth state request .identityUnlinked departing other }, former.toFinset)

def unlink (state : State) (request : Request) (userId otherUserId : UserId) :
    Except LinkError (State × Finset UserId) :=
  if userId = otherUserId ∨ isSameOwner state.db userId (some otherUserId) = false then
    .error (.notFound "Linked account")
  else
    let rows := setRows state.db userId
    if otherUserId ∉ rows.map (·.userId) ∨ userId ∉ rows.map (·.userId) then
      .error (.notFound "Linked account")
    else takeOut state request otherUserId rows

def leave (state : State) (request : Request) (userId : UserId) :
    Except LinkError (State × Finset UserId) :=
  if linkedUserIds state.db userId = {userId} then .error (.notFound "Identity link")
  else
    let rows := setRows state.db userId
    if userId ∉ rows.map (·.userId) then .error (.notFound "Identity link")
    else takeOut state request userId rows

section HandOver

variable (state : State)

def linkSet (user : UserId) : List UserId :=
  inOrder (((setRows state.db user).map (·.userId)).filter fun other => decide (other ≠ user))

def takeoverRank (context : Context) (member : WorkspaceMember) : Option Nat :=
  if member.role = .owner ∨ member.role = .admin then some 0
  else if member.role = .member ∧ reachesContext member.role member.allowedContextIds context.id then
    some 1
  else none

-- Who takes the context over, if it is not a connector's write target.
def takeover (others : List UserId) (context : Context) : Option UserId :=
  if state.connectorContexts.contains (some context.id) then none
  else
    let authors := ((state.memories.filter fun memory =>
      memory.contextId = some context.id ∧ memory.userId ∈ others ∧ memory.deletedAt = none).map
        (·.userId)).dedup
    if authors = [] then none
    else
      let members := state.db.members.filter fun member =>
        member.workspaceId = context.workspaceId ∧ member.userId ∈ authors
      let eligible := (members.filterMap fun member =>
        (takeoverRank context member).map fun rank => toLex (rank, member.userId)).insertionSort
          (· ≤ ·)
      eligible.head?.map fun first => (ofLex first).2

def privateContextTakeovers (contexts : List Context) (others : List UserId) :
    List (ContextId × UserId) :=
  if others = [] then []
  else
    (contexts.filter fun context => context.isPrivate ∧ context.deletedAt = none).filterMap
      fun context => (takeover state others context).map fun account => (context.id, account)

def predictPrivateContextTakeovers (user : UserId) (contexts : List Context) :
    List (ContextId × UserId) :=
  privateContextTakeovers state contexts (linkSet state user)

def newCreator (takeovers : List (ContextId × UserId)) (user : UserId) (context : Context) :
    Context :=
  if context.createdBy = some user then
    match takeovers.lookup context.id with
    | none => context
    | some account => { context with createdBy := some account }
  else context

structure HandOver where
  contextsHandedOver : Nat
  identityLinksRemoved : Nat
  deriving DecidableEq, Repr

theorem newCreator_id (takeovers : List (ContextId × UserId)) (user : UserId) (context : Context) :
    (newCreator takeovers user context).id = context.id := by
  unfold newCreator
  split
  next => split <;> rfl
  next => rfl

def withCreators (db : Db) (takeovers : List (ContextId × UserId)) (user : UserId) : Db :=
  { db with
    contexts := db.contexts.map (newCreator takeovers user)
    contextIds := by
      have same : (Context.id ∘ newCreator takeovers user) = Context.id :=
        funext fun context => newCreator_id takeovers user context
      rw [List.map_map, same]
      exact db.contextIds }

def handOverPrivateContexts (user : UserId) : Option (State × HandOver) :=
  let rows := setRows state.db user
  let others := linkSet state user
  let created := (state.db.contexts.filter fun context => context.createdBy = some user).insertionSort
    fun first second => first.id ≤ second.id
  let takeovers := privateContextTakeovers state created others
  let handedOver := (created.filter fun context => (takeovers.lookup context.id).isSome).map (·.id)
  let moved : State :=
    { state with
      db := withCreators state.db takeovers user
      memories := state.memories.filter fun memory =>
        ¬ (memory.contextId.any (· ∈ handedOver) ∧ memory.userId = user) }
  if rows = [] then
    some (moved, { contextsHandedOver := handedOver.length, identityLinksRemoved := 0 })
  else
    (removeFromSet moved user rows).map fun (after, removed) =>
      (after, { contextsHandedOver := handedOver.length, identityLinksRemoved := removed })

end HandOver

inductive Action where
  | link (request : Request) (userId otherUserId : UserId)
  | unlink (request : Request) (userId otherUserId : UserId)
  | leave (request : Request) (userId : UserId)
  | handOverPrivateContexts (userId : UserId)
  -- Everything else the deployment does. No other code writes `identity_links`; an account is
  -- deleted after its hand-over, so the foreign keys only clear `linked_by`.
  | others (db : Db) (linkedBy : UserId → Option UserId) (users : List User)
      (memories : List Memory) (connectorContexts : List (Option ContextId))

def step (state : State) : Action → Option State
  | .link request userId otherUserId =>
    (link state request userId otherUserId).toOption.map (·.1)
  | .unlink request userId otherUserId =>
    (unlink state request userId otherUserId).toOption.map (·.1)
  | .leave request userId => (leave state request userId).toOption.map (·.1)
  | .handOverPrivateContexts userId => (handOverPrivateContexts state userId).map (·.1)
  | .others db linkedBy users memories connectorContexts =>
    if db.identityLinks = state.db.identityLinks then
      some { state with db, linkedBy, users, memories, connectorContexts }
    else none

end MemoryCloud.Identity
