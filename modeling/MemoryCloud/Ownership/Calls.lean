import MemoryCloud.Ownership.Owner

set_option autoImplicit false

/-!
# Calls, requests and audit rows

What one step can do to the calls under way, to the requests for a takeover, to the audit rows and
to the tokens.
-/

namespace MemoryCloud.Ownership

open Access (WorkspaceRole)
open Bindings (ContextId)

section Still

variable {User : Type}

structure Still (state next : State User) : Prop where
  calls : next.calls = state.calls
  tokens : next.tokens = state.tokens
  requests : next.requests = state.requests
  audits : ∀ audit ∈ next.audits, audit ∈ state.audits ∨ audit.breakGlass = none

variable [LinearOrder User] {state next : State User} {user : User}

theorem transferOwnership_still {workspace : Workspace User}
    {currentOwner target performedBy : User}
    (taken : transferOwnership state workspace currentOwner target performedBy = some next) :
    Still state next := by
  unfold transferOwnership at taken
  split at taken
  next => cases taken
  next =>
    split at taken
    next =>
      cases taken
      exact ⟨rfl, rfl, rfl, fun _ => .inl⟩
    next =>
      split at taken <;> cases taken
      refine ⟨rfl, rfl, rfl, ?_⟩
      intro audit listed
      rcases List.mem_append.mp listed with old | new
      next => exact .inl old
      next =>
        cases List.mem_singleton.mp new
        exact .inr rfl

theorem applyForceTransfer_some {workspace : Workspace User} {target performedBy : User}
    {reason : String} {approval : Option (Approval User)}
    (taken : applyForceTransfer state workspace target performedBy reason approval = some next) :
    next = state ∨ next = state.handOver workspace target performedBy (some {
      reason
      targetWasMember := (state.members.get? target).isSome
      selfTransfer := performedBy = target
      approval }) := by
  unfold applyForceTransfer at taken
  split at taken
  next =>
    cases taken
    exact .inl rfl
  next =>
    split at taken <;> cases taken
    exact .inr rfl

theorem applyForceTransfer_kept {workspace : Workspace User} {target performedBy : User}
    {reason : String} {approval : Option (Approval User)}
    (taken : applyForceTransfer state workspace target performedBy reason approval = some next) :
    next.calls = state.calls ∧ next.tokens = state.tokens ∧ next.requests = state.requests := by
  rcases applyForceTransfer_some taken with rfl | rfl
  next => exact ⟨rfl, rfl, rfl⟩
  next => exact ⟨rfl, rfl, rfl⟩

theorem addMember_still {member : Member} (taken : addMember state user member = some next) :
    Still state next := by
  unfold addMember at taken
  split at taken <;> cases taken
  exact ⟨rfl, rfl, rfl, fun _ => .inl⟩

theorem acceptInvitation_still {member : Member}
    (taken : acceptInvitation state user member = some next) :
    Still state next := by
  unfold acceptInvitation at taken
  split at taken
  next => exact addMember_still taken
  next => cases taken

theorem updateMemberRole_still {newRole : WorkspaceRole}
    (taken : updateMemberRole state user newRole = some next) : Still state next := by
  unfold updateMemberRole at taken
  split at taken
  next =>
    split at taken
    next => cases taken
    next =>
      split at taken <;> cases taken
      exact ⟨rfl, rfl, rfl, fun _ => .inl⟩
  next => cases taken

theorem removeMember_still (taken : removeMember state user = some next) : Still state next := by
  unfold removeMember at taken
  split at taken
  next => cases taken
  next =>
    split at taken <;> cases taken
    exact ⟨rfl, rfl, rfl, fun _ => .inl⟩

theorem eraseAccount_still (taken : eraseAccount state user = some next) : Still state next := by
  unfold eraseAccount at taken
  split at taken
  next =>
    cases taken
    exact ⟨rfl, rfl, rfl, fun _ => .inl⟩
  next =>
    split at taken
    next =>
      obtain ⟨after, handled, rfl⟩ := Option.map_eq_some_iff.mp taken
      unfold handleOwnedWorkspace at handled
      split at handled
      next =>
        cases handled
        exact ⟨rfl, rfl, rfl, fun _ => .inl⟩
      next =>
        obtain ⟨_, _, rfl⟩ := Option.map_eq_some_iff.mp handled
        exact ⟨rfl, rfl, rfl, fun _ => .inl⟩
    next =>
      cases taken
      exact ⟨rfl, rfl, rfl, fun _ => .inl⟩

theorem deleteUser_still {successor : Option User} {actor : User}
    (taken : deleteUser state user successor actor = some next) : Still state next := by
  unfold deleteUser at taken
  split at taken
  next =>
    cases taken
    exact ⟨rfl, rfl, rfl, fun _ => .inl⟩
  next =>
    split at taken
    next =>
      cases taken
      exact ⟨rfl, rfl, rfl, fun _ => .inl⟩
    next =>
      split at taken
      next =>
        cases taken
        exact ⟨rfl, rfl, rfl, fun _ => .inl⟩
      next =>
        split at taken
        next =>
          split at taken <;> cases taken
          exact ⟨rfl, rfl, rfl, fun _ => .inl⟩
        next =>
          split at taken
          next =>
            obtain ⟨after, moved, rfl⟩ := Option.map_eq_some_iff.mp taken
            have still := transferOwnership_still moved
            exact ⟨still.calls, still.tokens, still.requests, still.audits⟩
          next => cases taken

end Still

section Requests

variable {User : Type}

structure SameRequest (row later : TransferRequest User) : Prop where
  target : later.targetUserId = row.targetUserId
  reason : later.reason = row.reason
  epoch : later.epochAtInitiation = row.epochAtInitiation
  initiatedBy : later.initiatedBy = row.initiatedBy
  settled : row.status ≠ .pending → later = row

variable {row later : TransferRequest User} {state next : State User}

theorem SameRequest.refl (row : TransferRequest User) : SameRequest row row :=
  ⟨rfl, rfl, rfl, rfl, fun _ => rfl⟩

theorem SameRequest.of_decided (pending : row.status = .pending) (status : RequestStatus)
    (admin : User) :
    SameRequest row (decided status admin row) :=
  ⟨rfl, rfl, rfl, rfl, fun other => absurd pending other⟩

theorem pendingRequest_some {request : Nat} (found : pendingRequest state request = some row) :
    state.requests[request]? = some row ∧ row.status = .pending := by
  obtain ⟨here, pending⟩ := Option.filter_eq_some_iff.mp found
  exact ⟨here, of_decide_eq_true pending⟩

structure Files (state next : State User) (action : Action User) : Prop where
  kept : ∀ (index : Nat) row, state.requests[index]? = some row →
    ∃ later, next.requests[index]? = some later ∧ SameRequest row later
  filed : ∀ (index : Nat) later, next.requests[index]? = some later →
    (∃ row, state.requests[index]? = some row ∧ SameRequest row later) ∨
      action = .forceTransfer later.initiatedBy later.targetUserId later.reason ∧
        ∃ owner, state.ownership = some (owner, later.epochAtInitiation)

theorem Files.of_same {action : Action User} (same : next.requests = state.requests) :
    Files state next action where
  kept _ row found := ⟨row, same ▸ found, .refl row⟩
  filed _ later found := .inl ⟨later, same ▸ found, .refl later⟩

theorem Files.of_decided {action : Action User} {request : Nat}
    (found : pendingRequest state request = some row) {status : RequestStatus} {admin : User}
    (requests : next.requests = state.requests.set request (decided status admin row)) :
    Files state next action := by
  obtain ⟨here, pending⟩ := pendingRequest_some found
  obtain ⟨bound, _⟩ := List.getElem?_eq_some_iff.mp here
  constructor
  next =>
    intro index other there
    rw [requests, List.getElem?_set]
    split
    next same =>
      subst same
      cases here.symm.trans there
      exact ⟨_, rfl, .of_decided pending status admin⟩
    next => exact ⟨other, there, .refl other⟩
  next =>
    intro index later there
    rw [requests, List.getElem?_set] at there
    split at there
    next same =>
      subst same
      cases there
      exact .inl ⟨row, here, .of_decided pending status admin⟩
    next => exact .inl ⟨later, there, .refl later⟩

theorem initiateForceTransfer_some [LinearOrder User] {admin target : User} {reason : String}
    (taken : initiateForceTransfer state admin target reason = some next) :
    next.calls = state.calls ∧ next.tokens = state.tokens ∧ next.audits = state.audits ∧
      Files state next (.forceTransfer admin target reason) := by
  unfold initiateForceTransfer at taken
  split at taken
  next => cases taken
  next workspace live =>
    split at taken <;> cases taken
    refine ⟨rfl, rfl, rfl, ?_⟩
    have superseded : ∀ row : TransferRequest User, SameRequest row
        (if row.status = .pending then decided .superseded admin row else row) := by
      intro row
      split
      next pending => exact .of_decided pending .superseded admin
      next => exact .refl row
    constructor
    next =>
      intro index row found
      obtain ⟨bound, _⟩ := List.getElem?_eq_some_iff.mp found
      refine ⟨_, ?_, superseded row⟩
      rw [List.getElem?_append_left (by simpa using bound), List.getElem?_map, found,
        Option.map_some]
    next =>
      intro index later found
      rw [List.getElem?_append] at found
      split at found
      next =>
        obtain ⟨row, here, rfl⟩ := Option.map_eq_some_iff.mp (List.getElem?_map .. ▸ found)
        exact .inl ⟨row, here, superseded row⟩
      next =>
        cases List.mem_singleton.mp (List.mem_of_getElem? found)
        exact .inr ⟨rfl, _, ownership_of (workspace_of_live live)⟩

end Requests

section Effects

variable {User : Type}

structure ApprovedBy (state next : State User) (audit : AuditLog User) (request : Nat)
    (row : TransferRequest User) : Prop where
  call : ∃ owner, .approve request audit.userId audit.newOwner owner ∈ state.calls
  pending : state.requests[request]? = some row ∧ row.status = .pending
  ownership : state.ownership = some (audit.previousOwner, row.epochAtInitiation)
  epoch : audit.epoch = row.epochAtInitiation + 1
  breakGlass : ∃ glass, audit.breakGlass = some glass ∧
    glass.approval = some ⟨request, row.initiatedBy, audit.userId⟩
  settled : next.requests[request]? = some (decided .approved audit.userId row)

variable [LinearOrder User]

structure Effect (dualControl : Bool) (state next : State User) (action : Action User) : Prop where
  mints : ∀ user, .mint user ∈ next.calls →
    .mint user ∈ state.calls ∨ ownerGate state user = true
  approvals : ∀ request approver target owner, .approve request approver target owner ∈ next.calls →
    (∃ earlier, .approve request approver target earlier ∈ state.calls) ∨
      ∃ row, state.requests[request]? = some row ∧ row.targetUserId = target ∧
        approver ≠ row.initiatedBy
  forces : ∀ admin target reason owner, .force admin target reason owner ∈ next.calls →
    (∃ earlier, .force admin target reason earlier ∈ state.calls) ∨ dualControl = false
  tokens : ∀ token ∈ next.tokens, token ∈ state.tokens ∨
    .mint token.userId ∈ state.calls ∧ ∃ reader, state.ownership = some (reader, token.epoch)
  files : Files state next action
  audits : ∀ audit ∈ next.audits, audit ∈ state.audits ∨ audit.breakGlass = none ∨
    (∃ reason owner, .force audit.userId audit.newOwner reason owner ∈ state.calls) ∨
      ∃ request row, ApprovedBy state next audit request row

variable {dualControl : Bool} {state next : State User} {action : Action User}

theorem Effect.of_calls (calls : next.calls ⊆ state.calls)
    (tokens : ∀ token ∈ next.tokens, token ∈ state.tokens ∨
      .mint token.userId ∈ state.calls ∧ ∃ reader, state.ownership = some (reader, token.epoch))
    (files : Files state next action)
    (audits : ∀ audit ∈ next.audits, audit ∈ state.audits ∨ audit.breakGlass = none ∨
      (∃ reason owner, .force audit.userId audit.newOwner reason owner ∈ state.calls) ∨
        ∃ request row, ApprovedBy state next audit request row) :
    Effect dualControl state next action where
  mints _ listed := .inl (calls listed)
  approvals _ _ _ owner listed := .inl ⟨owner, calls listed⟩
  forces _ _ _ owner listed := .inl ⟨owner, calls listed⟩
  tokens := tokens
  files := files
  audits := audits

theorem Still.effect (still : Still state next) : Effect dualControl state next action := by
  refine .of_calls ?_ ?_ (.of_same still.requests) ?_
  next => exact still.calls ▸ List.Subset.refl _
  next => exact fun _ listed => .inl (still.tokens ▸ listed)
  next => exact fun audit listed => (still.audits audit listed).imp id .inl

theorem start_effect {call : Call User}
    (mints : ∀ user, call = .mint user → ownerGate state user = true)
    (approvals : ∀ request approver target owner, call = .approve request approver target owner →
      ∃ row, state.requests[request]? = some row ∧ row.targetUserId = target ∧
        approver ≠ row.initiatedBy)
    (forces : ∀ admin target reason owner, call = .force admin target reason owner →
      dualControl = false) :
    Effect dualControl state (state.start call) action := by
  have begun : ∀ other, other ∈ (state.start call).calls → other ∈ state.calls ∨ call = other := by
    intro other listed
    rcases List.mem_append.mp listed with old | new
    next => exact .inl old
    next => exact .inr (List.mem_singleton.mp new).symm
  refine ⟨?_, ?_, ?_, fun _ => .inl, .of_same rfl, fun _ => .inl⟩
  next =>
    intro user listed
    exact (begun _ listed).imp id (mints user)
  next =>
    intro request approver target owner listed
    exact (begun _ listed).imp (fun old => ⟨owner, old⟩) (approvals request approver target owner)
  next =>
    intro admin target reason owner listed
    exact (begun _ listed).imp (fun old => ⟨owner, old⟩) (forces admin target reason owner)

theorem readOwner_effect {index : Nat} {call read : Call User} {owner : Option User}
    (found : state.calls[index]? = some call) (taken : ownerRead owner call = some read) :
    Effect dualControl state { state with calls := state.calls.set index read } action := by
  have listed := List.mem_of_getElem? found
  refine ⟨?_, ?_, ?_, fun _ => .inl, .of_same rfl, fun _ => .inl⟩
  next =>
    intro user there
    rcases List.mem_or_eq_of_mem_set there with old | rfl
    next => exact .inl old
    next => cases call <;> cases taken
  next =>
    intro request approver target seen there
    rcases List.mem_or_eq_of_mem_set there with old | rfl
    next => exact .inl ⟨seen, old⟩
    next =>
      cases call <;> cases taken
      exact .inl ⟨_, listed⟩
  next =>
    intro admin target reason seen there
    rcases List.mem_or_eq_of_mem_set there with old | rfl
    next => exact .inl ⟨seen, old⟩
    next =>
      cases call <;> cases taken
      exact .inl ⟨_, listed⟩

theorem finishCall_effect {call : Call User} {calls : List (Call User)}
    (listed : call ∈ state.calls) (fewer : calls ⊆ state.calls)
    (taken : finishCall { state with calls } call = some next) :
    Effect dualControl state next action := by
  have ended : next.calls = calls → next.tokens = state.tokens → Files state next action →
      (∀ audit ∈ next.audits, audit ∈ state.audits ∨ audit.breakGlass = none ∨
        (∃ reason owner, .force audit.userId audit.newOwner reason owner ∈ state.calls) ∨
          ∃ request row, ApprovedBy state next audit request row) →
      Effect dualControl state next action := by
    intro left tokens files audits
    exact .of_calls (left ▸ fewer) (fun _ there => .inl (tokens ▸ there)) files audits
  cases call with
  | transfer caller target owner =>
    obtain ⟨_, _, moved⟩ := Option.bind_eq_some_iff.mp taken
    have still := transferOwnership_still moved
    exact ended still.calls still.tokens (.of_same still.requests)
      fun audit there => (still.audits audit there).imp id .inl
  | force admin target reason owner =>
    obtain ⟨workspace, _, moved⟩ := Option.bind_eq_some_iff.mp taken
    obtain ⟨left, tokens, requests⟩ := applyForceTransfer_kept moved
    refine ended left tokens (.of_same requests) ?_
    intro audit there
    rcases applyForceTransfer_some moved with rfl | rfl
    next => exact .inl there
    next =>
      rcases List.mem_append.mp there with old | new
      next => exact .inl old
      next =>
        cases List.mem_singleton.mp new
        exact .inr (.inr (.inl ⟨reason, owner, listed⟩))
  | approve request approver target owner =>
    simp only [finishCall, approveForceTransfer] at taken
    split at taken
    next workspace row locked pending =>
      split at taken
      next current =>
        obtain ⟨after, moved, rfl⟩ := Option.map_eq_some_iff.mp taken
        obtain ⟨left, tokens, requests⟩ := applyForceTransfer_kept moved
        obtain ⟨here, waiting⟩ := pendingRequest_some pending
        have found := ownership_of (workspace_of_locked locked)
        refine ended left tokens (.of_decided pending (congrArg (List.set · _ _) requests)) ?_
        intro audit there
        rcases applyForceTransfer_some moved with rfl | rfl
        next => exact .inl there
        next =>
          rcases List.mem_append.mp there with old | new
          next => exact .inl old
          next =>
            cases List.mem_singleton.mp new
            refine .inr (.inr (.inr
              ⟨request, row, ⟨owner, listed⟩, ⟨here, waiting⟩, ?_, ?_, ?_, ?_⟩))
            next => exact current ▸ found
            next => exact congrArg (· + 1) current
            next => exact ⟨_, rfl, rfl⟩
            next =>
              obtain ⟨bound, _⟩ := List.getElem?_eq_some_iff.mp here
              exact List.getElem?_set_self bound
      next => cases taken
    next => cases taken
  | cancel request admin =>
    simp only [finishCall, cancelForceTransfer] at taken
    split at taken <;> cases taken
    next pending => exact ended rfl rfl (.of_decided pending rfl) fun _ => .inl
  | mint user =>
    obtain ⟨workspace, live, rfl⟩ := Option.map_eq_some_iff.mp taken
    refine .of_calls fewer ?_ (.of_same rfl) fun _ => .inl
    intro token there
    rcases List.mem_append.mp there with old | new
    next => exact .inl old
    next =>
      cases List.mem_singleton.mp new
      exact .inr ⟨listed, _, ownership_of (workspace_of_live live)⟩

theorem step_effect (taken : step dualControl state action = some next) :
    Effect dualControl state next action := by
  cases action with
  | signUp =>
    simp only [step] at taken
    split at taken <;> cases taken
    exact Still.effect ⟨rfl, rfl, rfl, fun _ => .inl⟩
  | addMember => exact (addMember_still taken).effect
  | acceptInvitation => exact (acceptInvitation_still taken).effect
  | updateMemberRole => exact (updateMemberRole_still taken).effect
  | removeMember => exact (removeMember_still taken).effect
  | updateMemberContextAccess | deleteWorkspace =>
    obtain ⟨_, _, rfl⟩ := Option.map_eq_some_iff.mp taken
    exact Still.effect ⟨rfl, rfl, rfl, fun _ => .inl⟩
  | eraseAccount =>
    simp only [step] at taken
    split at taken
    next => exact (eraseAccount_still taken).effect
    next => cases taken
  | deleteUser =>
    simp only [step] at taken
    split at taken
    next => exact (deleteUser_still taken).effect
    next => cases taken
  | startTransfer =>
    simp only [step] at taken
    split at taken <;> cases taken
    exact start_effect (by simp) (by simp) (by simp)
  | startOperatorTransfer | startCancel =>
    obtain ⟨_, _, rfl⟩ := Option.map_eq_some_iff.mp taken
    exact start_effect (by simp) (by simp) (by simp)
  | forceTransfer admin target reason =>
    simp only [step, forceTransferRoute] at taken
    split at taken
    next =>
      obtain ⟨calls, tokens, audits, files⟩ := initiateForceTransfer_some taken
      refine .of_calls ?_ ?_ files ?_
      next => exact calls ▸ List.Subset.refl _
      next => exact fun _ there => .inl (tokens ▸ there)
      next => exact fun _ there => .inl (audits ▸ there)
    next single =>
      cases taken
      exact start_effect (by simp) (by simp) fun _ _ _ _ _ => by simpa using single
  | startApprove request approver =>
    obtain ⟨row, pending, started⟩ := Option.bind_eq_some_iff.mp taken
    split at started <;> cases started
    next other =>
      refine start_effect (by simp) ?_ (by simp)
      intro _ _ _ _ same
      cases same
      exact ⟨row, (pendingRequest_some pending).1, rfl, other⟩
  | startMint user =>
    simp only [step] at taken
    split at taken <;> cases taken
    next passed =>
      refine start_effect ?_ (by simp) (by simp)
      intro _ same
      cases same
      exact passed
  | readOwner index =>
    obtain ⟨call, found, read⟩ := Option.bind_eq_some_iff.mp taken
    obtain ⟨after, again, rfl⟩ := Option.map_eq_some_iff.mp read
    exact readOwner_effect found again
  | finish index =>
    obtain ⟨call, found, rfl⟩ := Option.map_eq_some_iff.mp taken
    have fewer : state.calls.eraseIdx index ⊆ state.calls := fun _ => List.mem_of_mem_eraseIdx
    cases finished : finishCall { state with calls := state.calls.eraseIdx index } call with
    | none => exact .of_calls fewer (fun _ => .inl) (.of_same rfl) fun _ => .inl
    | some after => exact finishCall_effect (List.mem_of_getElem? found) fewer finished

end Effects

end MemoryCloud.Ownership
