import Mathlib.Data.List.MinMax
import MemoryCloud.Access.Model
import MemoryCloud.Shared.Dict
import MemoryCloud.Shared.Runs

set_option autoImplicit false

/-!
# The owner of a workspace

One workspace with its members, the requests to take it over and the calls that move its owner:
the transfers of `services/workspace_ownership_service.py`, the member changes of
`services/workspace_service.py` and the deletions of an account. What runs under the lock of the
workspace row is one step; what a call reads before it is a step of its own. A refused call changes
nothing.
-/

namespace MemoryCloud.Ownership

open Access (WorkspaceRole)
open Bindings (ContextId)

structure Member where
  role : WorkspaceRole
  allowedContextIds : Option (List ContextId)

structure Workspace (User : Type) where
  ownerUserId : User
  ownershipEpoch : Nat
  deleted : Bool := false

inductive RequestStatus where
  | pending
  | approved
  | cancelled
  | superseded
  deriving DecidableEq

structure TransferRequest (User : Type) where
  targetUserId : User
  reason : String
  epochAtInitiation : Nat
  initiatedBy : User
  status : RequestStatus := .pending
  decidedBy : Option User := none

structure Approval (User : Type) where
  request : Nat
  initiatedBy : User
  approvedBy : User

structure BreakGlass (User : Type) where
  reason : String
  targetWasMember : Bool
  selfTransfer : Bool
  approval : Option (Approval User)

structure AuditLog (User : Type) where
  userId : User
  previousOwner : User
  newOwner : User
  epoch : Nat
  breakGlass : Option (BreakGlass User)

structure HandoffToken (User : Type) where
  userId : User
  epoch : Nat

inductive Call (User : Type) where
  | transfer (caller target : User) (owner : Option User)
  | force (admin target : User) (reason : String) (owner : Option User)
  | approve (request : Nat) (approver target : User) (owner : Option User)
  | cancel (request : Nat) (admin : User)
  | mint (user : User)

structure State (User : Type) where
  users : List User
  workspace : Option (Workspace User)
  members : Dict User Member
  requests : List (TransferRequest User) := []
  audits : List (AuditLog User) := []
  calls : List (Call User) := []
  tokens : List (HandoffToken User) := []

section Rows

variable {User : Type} [LinearOrder User] (state : State User)

def State.hasUser (user : User) : Bool := state.users.any (· = user)

-- `lock_workspace_for_update` finds a live row only.
def State.live : Option (Workspace User) :=
  state.workspace.filter fun workspace => !workspace.deleted

def roleIn (members : Dict User Member) (user : User) : Option WorkspaceRole :=
  (members.get? user).map Member.role

def State.roleOf (user : User) : Option WorkspaceRole := roleIn state.members user

-- `check_workspace_owner`; an owner's seat is never paused.
def ownerGate (user : User) : Bool :=
  state.live.isSome && state.roleOf user = some .owner

def Workspace.handedTo (workspace : Workspace User) (target : User) : Workspace User :=
  { workspace with ownerUserId := target, ownershipEpoch := workspace.ownershipEpoch + 1 }

def withRole (members : Dict User Member) (user : User) (role : WorkspaceRole) : Dict User Member :=
  match members.get? user with
  | some member => members.set user { member with role }
  | none => members

-- The previous owner becomes an admin, if there is such a row; a missing target is added.
def swapOwner (members : Dict User Member) (previous target : User) : Dict User Member :=
  let row := (members.get? target).getD ⟨.owner, none⟩
  (withRole members previous .admin).set target { row with role := .owner }

def State.handOver (workspace : Workspace User) (target performedBy : User)
    (breakGlass : Option (BreakGlass User)) : State User :=
  { state with
    workspace := some (workspace.handedTo target)
    members := swapOwner state.members workspace.ownerUserId target
    audits := state.audits ++ [{
      userId := performedBy
      previousOwner := workspace.ownerUserId
      newOwner := target
      epoch := workspace.ownershipEpoch + 1
      breakGlass }] }

-- `_lock_transfer_workspace`: the owner read before the locks is the owner still.
def lockTransferWorkspace (owner : Option User) (target : User) : Option (Workspace User) :=
  if state.hasUser target then
    state.live.filter fun workspace => owner = some workspace.ownerUserId
  else none

def transferOwnership (workspace : Workspace User) (currentOwner target performedBy : User) :
    Option (State User) :=
  if workspace.ownerUserId ≠ currentOwner then none
  else if workspace.ownerUserId = target then some state
  else if (state.members.get? target).isSome then
    some (state.handOver workspace target performedBy none)
  else none

def applyForceTransfer (workspace : Workspace User) (target performedBy : User) (reason : String)
    (approval : Option (Approval User)) : Option (State User) :=
  if workspace.ownerUserId = target then some state
  else if state.hasUser target then
    some (state.handOver workspace target performedBy (some {
      reason
      targetWasMember := (state.members.get? target).isSome
      selfTransfer := performedBy = target
      approval }))
  else none

def decided (status : RequestStatus) (admin : User) (request : TransferRequest User) :
    TransferRequest User :=
  { request with status, decidedBy := some admin }

-- `initiate_force_transfer`: a pending request is superseded by the new one.
def initiateForceTransfer (admin target : User) (reason : String) : Option (State User) :=
  match state.live with
  | none => none
  | some workspace =>
    if state.hasUser target then
      some { state with requests := (state.requests.map fun request =>
        if request.status = .pending then decided .superseded admin request else request) ++ [{
          targetUserId := target
          reason
          epochAtInitiation := workspace.ownershipEpoch
          initiatedBy := admin }] }
    else none

def pendingRequest (request : Nat) : Option (TransferRequest User) :=
  (state.requests[request]?).filter fun row => row.status = .pending

-- `approve_force_transfer` from the locks on.
def approveForceTransfer (request : Nat) (approver target : User) (owner : Option User) :
    Option (State User) :=
  match lockTransferWorkspace state owner target, pendingRequest state request with
  | some workspace, some row =>
    if workspace.ownershipEpoch = row.epochAtInitiation then
      (applyForceTransfer state workspace target approver row.reason
        (some ⟨request, row.initiatedBy, approver⟩)).map fun after =>
          { after with requests := after.requests.set request (decided .approved approver row) }
    else none
  | _, _ => none

def cancelForceTransfer (request : Nat) (admin : User) : Option (State User) :=
  match state.live, pendingRequest state request with
  | some _, some row =>
    some { state with requests := state.requests.set request (decided .cancelled admin row) }
  | _, _ => none

-- The epoch read of `mint_billing_handoff`, after the owner gate.
def mintHandoff (user : User) : Option (State User) :=
  state.live.map fun workspace =>
    { state with tokens := state.tokens ++ [⟨user, workspace.ownershipEpoch⟩] }

-- `verify_handoff_token` refuses an older epoch only.
def verifies (token : HandoffToken User) (currentEpoch : Nat) : Bool :=
  !(token.epoch < currentEpoch)

end Rows

section Members

variable {User : Type} [LinearOrder User] (state : State User)

def State.putMember (user : User) (member : Member) : State User :=
  { state with members := state.members.set user member }

-- `add_member`; the plan and the seats may refuse.
def addMember (user : User) (member : Member) : Option (State User) :=
  if state.live.isSome && (state.members.get? user).isNone then some (state.putMember user member)
  else none

-- `accept_invitation`: the owner role is never granted.
def acceptInvitation (user : User) (member : Member) : Option (State User) :=
  if member.role ≠ .owner ∧ state.hasUser user then addMember state user member else none

-- A member without a list who becomes a viewer gets an empty one.
def keptList (member : Member) (newRole : WorkspaceRole) : Option (List ContextId) :=
  if member.role = .member ∧ newRole = .viewer ∧ member.allowedContextIds = none then some []
  else member.allowedContextIds

def hasOwnerRow : Bool := state.members.values.any fun member => member.role = .owner

def updateMemberRole (user : User) (newRole : WorkspaceRole) : Option (State User) :=
  match state.live, state.members.get? user with
  | some workspace, some member =>
    if newRole ≠ .owner ∧ workspace.ownerUserId = user then none
    else if newRole = .owner ∧ member.role ≠ .owner ∧ hasOwnerRow state then none
    else some (state.putMember user ⟨newRole, keptList member newRole⟩)
  | _, _ => none

def updateMemberContextAccess (user : User) (allowed : Option (List ContextId)) :
    Option (State User) :=
  (state.members.get? user).map fun member =>
    state.putMember user { member with allowedContextIds := allowed }

def removeMember (user : User) : Option (State User) :=
  match state.members.get? user with
  | none => none
  | some member =>
    if member.role ≠ .owner ∧ hasOwnerRow state then
      some { state with members := state.members.erase user }
    else none

def deleteWorkspace : Option (State User) :=
  state.live.map fun workspace =>
    { state with workspace := some { workspace with deleted := true } }

def State.purge : State User := { state with workspace := none, members := .empty }

def State.dropUser (user : User) : State User :=
  { state with users := state.users.filter (· ≠ user), members := state.members.erase user }

def others (user : User) : List (User × Member) :=
  state.members.entries.filter fun entry => entry.1 ≠ user

-- The admin or owner with the lowest id, apart from the user.
def successorOf (user : User) : Option User :=
  (((others state user).filter fun entry =>
    entry.2.role = .owner ∨ entry.2.role = .admin).map Prod.fst).argmin id

def handleOwnedWorkspace (user : User) (workspace : Workspace User) : Option (State User) :=
  if workspace.deleted || (others state user).isEmpty then some state.purge
  else (successorOf state user).map fun successor => { state with
    workspace := some (workspace.handedTo successor)
    members := withRole state.members successor .owner }

-- An account's erasure: its workspace is handed on or goes with it.
def eraseAccount (user : User) : Option (State User) :=
  match state.workspace with
  | none => some (state.dropUser user)
  | some workspace =>
    if workspace.ownerUserId = user then
      (handleOwnedWorkspace state user workspace).map fun after => after.dropUser user
    else some (state.dropUser user)

-- `transfer_user_ownership` and `delete_user_rows` in one transaction.
def deleteUser (user : User) (successor : Option User) (actor : User) : Option (State User) :=
  match state.workspace with
  | none => some (state.dropUser user)
  | some workspace =>
    if workspace.ownerUserId ≠ user then some (state.dropUser user)
    else if workspace.deleted then some (state.purge.dropUser user)
    else match successor with
      | none =>
        if (others state user).isEmpty then some (state.purge.dropUser user) else none
      | some target =>
        if state.hasUser target ∧ target ≠ user then
          (transferOwnership state workspace user target actor).map fun after => after.dropUser user
        else none

end Members

inductive Action (User : Type) where
  | signUp (user : User)
  | addMember (user : User) (role : WorkspaceRole) (allowed : Option (List ContextId))
  | acceptInvitation (user : User) (role : WorkspaceRole) (allowed : Option (List ContextId))
  | updateMemberRole (user : User) (role : WorkspaceRole)
  | updateMemberContextAccess (user : User) (allowed : Option (List ContextId))
  | removeMember (user : User)
  | deleteWorkspace
  | eraseAccount (user : User)
  | deleteUser (user : User) (successor : Option User) (actor : User)
  | startTransfer (caller target : User)
  -- The operator's `delete_admin` transfers for the owner it has read.
  | startOperatorTransfer (target : User)
  | forceTransfer (admin target : User) (reason : String)
  | startApprove (request : Nat) (approver : User)
  | startCancel (request : Nat) (admin : User)
  | startMint (user : User)
  -- The read of the owner ahead of the locks.
  | readOwner (index : Nat)
  | finish (index : Nat)

section Steps

variable {User : Type} [LinearOrder User] (dualControl : Bool) (state : State User)

def State.start (call : Call User) : State User := { state with calls := state.calls ++ [call] }

def ownerRead (owner : Option User) : Call User → Option (Call User)
  | .transfer caller target _ => some (.transfer caller target owner)
  | .force admin target reason _ => some (.force admin target reason owner)
  | .approve request approver target _ => some (.approve request approver target owner)
  | .cancel _ _ | .mint _ => none

def finishCall : Call User → Option (State User)
  | .transfer caller target owner =>
    (lockTransferWorkspace state owner target).bind fun workspace =>
      transferOwnership state workspace caller target caller
  | .force admin target reason owner =>
    (lockTransferWorkspace state owner target).bind fun workspace =>
      applyForceTransfer state workspace target admin reason none
  | .approve request approver target owner =>
    approveForceTransfer state request approver target owner
  | .cancel request admin => cancelForceTransfer state request admin
  | .mint user => mintHandoff state user

-- `force_transfer_workspace_ownership`: under dual control a request is filed.
def forceTransferRoute (admin target : User) (reason : String) : Option (State User) :=
  if dualControl then initiateForceTransfer state admin target reason
  else some (state.start (.force admin target reason none))

-- `approve_force_transfer` up to the locks: nobody approves a request of one's own.
def startApprove (request : Nat) (approver : User) : Option (State User) :=
  (pendingRequest state request).bind fun row =>
    if approver = row.initiatedBy then none
    else some (state.start (.approve request approver row.targetUserId none))

def step : Action User → Option (State User)
  | .signUp user =>
    if state.hasUser user then none else some { state with users := user :: state.users }
  | .addMember user role allowed => addMember state user ⟨role, allowed⟩
  | .acceptInvitation user role allowed => acceptInvitation state user ⟨role, allowed⟩
  | .updateMemberRole user role => updateMemberRole state user role
  | .updateMemberContextAccess user allowed => updateMemberContextAccess state user allowed
  | .removeMember user => removeMember state user
  | .deleteWorkspace => deleteWorkspace state
  | .eraseAccount user => if state.hasUser user then eraseAccount state user else none
  | .deleteUser user successor actor =>
    if state.hasUser user then deleteUser state user successor actor else none
  | .startTransfer caller target =>
    if ownerGate state caller then some (state.start (.transfer caller target none)) else none
  | .startOperatorTransfer target =>
    state.live.map fun workspace =>
      state.start (.transfer workspace.ownerUserId target none)
  | .forceTransfer admin target reason => forceTransferRoute dualControl state admin target reason
  | .startApprove request approver => startApprove state request approver
  | .startCancel request admin =>
    (pendingRequest state request).map fun _ => state.start (.cancel request admin)
  | .startMint user => if ownerGate state user then some (state.start (.mint user)) else none
  | .readOwner index =>
    (state.calls[index]?).bind fun call =>
      (ownerRead (state.workspace.map Workspace.ownerUserId) call).map fun read =>
        { state with calls := state.calls.set index read }
  -- A call that is refused rolls back and is over.
  | .finish index =>
    (state.calls[index]?).map fun call =>
      (finishCall { state with calls := state.calls.eraseIdx index } call).getD
        { state with calls := state.calls.eraseIdx index }

end Steps

end MemoryCloud.Ownership
