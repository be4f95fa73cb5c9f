import MemoryCloud.Ownership.Model

set_option autoImplicit false

/-!
# One owner

What a step can do to the owner: it stays, it is handed on at the next epoch, or the workspace is
gone. The member row of the owner has the owner role throughout, and no other row gets it but by a
direct add that asks for it.
-/

namespace MemoryCloud.Ownership

open Access (WorkspaceRole)
open Bindings (ContextId)

section Roles

variable {User : Type} [LinearOrder User] {members : Dict User Member} {user other : User}

theorem roleIn_set {member : Member} :
    roleIn (members.set user member) other = if other = user then some member.role
      else roleIn members other := by
  unfold roleIn
  rw [Dict.get?_set]
  split <;> rfl

theorem roleIn_erase (differs : other ≠ user) :
    roleIn (members.erase user) other = roleIn members other := by
  unfold roleIn
  rw [Dict.get?_erase differs]

theorem roleIn_erase_some {role : WorkspaceRole}
    (found : roleIn (members.erase user) other = some role) :
    other ≠ user ∧ roleIn members other = some role := by
  have differs : other ≠ user := by
    rintro rfl
    obtain ⟨member, here, _⟩ := Option.map_eq_some_iff.mp found
    have listed := Dict.get?_eq_some.mp here
    exact absurd rfl (of_decide_eq_true (List.mem_filter.mp listed).2)
  exact ⟨differs, roleIn_erase differs ▸ found⟩

theorem roleIn_withRole {role : WorkspaceRole} :
    roleIn (withRole members user role) other =
      if other = user then (roleIn members user).map fun _ => role else roleIn members other := by
  unfold withRole
  split
  next member found =>
    rw [roleIn_set]
    split
    next => simp [roleIn, found]
    next => rfl
  next missing =>
    split
    next same =>
      subst same
      simp [roleIn, missing]
    next => rfl

theorem roleIn_swapOwner {previous target : User} :
    roleIn (swapOwner members previous target) other =
      if other = target then some .owner
      else if other = previous then (roleIn members previous).map fun _ => .admin
      else roleIn members other := by
  unfold swapOwner
  rw [roleIn_set, roleIn_withRole]

theorem hasOwnerRow_of {state : State User} (found : state.roleOf user = some .owner) :
    hasOwnerRow state = true := by
  obtain ⟨member, here, role⟩ := Option.map_eq_some_iff.mp found
  have listed := List.mem_map_of_mem (f := Prod.snd) (Dict.get?_eq_some.mp here)
  exact List.any_eq_true.mpr ⟨member, listed, decide_eq_true role⟩

end Roles

section Moves

variable {User : Type} [LinearOrder User]

def State.ownership (state : State User) : Option (User × Nat) :=
  state.workspace.map fun workspace => (workspace.ownerUserId, workspace.ownershipEpoch)

structure Owned (direct : User → Prop) (state : State User) : Prop where
  owner : ∀ owner epoch, state.ownership = some (owner, epoch) → state.roleOf owner = some .owner
  others : ∀ owner epoch, state.ownership = some (owner, epoch) → ∀ user,
    state.roleOf user = some .owner → user = owner ∨ direct user

inductive Moves (direct : User → Prop) (state next : State User) : Prop where
  | kept (same : next.ownership = state.ownership)
      (owner : ∀ owner epoch, state.ownership = some (owner, epoch) →
        next.roleOf owner = some .owner)
      (owners : ∀ user, next.roleOf user = some .owner →
        state.roleOf user = some .owner ∨ direct user)
  | handed (owner target : User) (epoch : Nat) (before : state.ownership = some (owner, epoch))
      (after : next.ownership = some (target, epoch + 1))
      (role : next.roleOf target = some .owner) (dropped : next.roleOf owner ≠ some .owner)
      (owners : ∀ user, user ≠ target → next.roleOf user = some .owner →
        state.roleOf user = some .owner)
  | gone (none_ : next.ownership = none)

variable {direct : User → Prop} {state next : State User}

theorem Moves.owned (moves : Moves direct state next) (owned : Owned direct state) :
    Owned direct next := by
  cases moves with
  | kept same owner owners =>
    constructor
    next =>
      intro holder epoch found
      exact owner holder epoch (same ▸ found)
    next =>
      intro holder epoch found user role
      rcases owners user role with old | asked
      next => exact owned.others holder epoch (same ▸ found) user old
      next => exact .inr asked
  | handed owner target epoch before after role dropped owners =>
    constructor
    next =>
      intro holder later found
      cases after.symm.trans found
      exact role
    next =>
      intro holder later found user holds
      cases after.symm.trans found
      by_cases same : user = target
      next => exact .inl same
      next =>
        rcases owned.others owner epoch before user (owners user same holds) with own | asked
        next => exact absurd (own ▸ holds) dropped
        next => exact .inr asked
  | gone none_ =>
    constructor
    next =>
      intro holder epoch found
      cases none_.symm.trans found
    next =>
      intro holder epoch found
      cases none_.symm.trans found

theorem Moves.of_same (owned : Owned direct state) (same : next.ownership = state.ownership)
    (members : next.members = state.members) : Moves direct state next := by
  have roles : next.roleOf = state.roleOf := by
    funext user
    rw [State.roleOf, members, State.roleOf]
  refine .kept same ?_ ?_
  next =>
    intro owner epoch found
    rw [roles]
    exact owned.owner owner epoch found
  next =>
    intro user holds
    exact .inl (roles ▸ holds)

-- Later fields of a state do not bear on its owner.
theorem Moves.congr {later : State User} (moves : Moves direct state next)
    (workspace : later.workspace = next.workspace) (members : later.members = next.members) :
    Moves direct state later := by
  have same : later.ownership = next.ownership := by
    rw [State.ownership, workspace, State.ownership]
  have roles : later.roleOf = next.roleOf := by
    funext user
    rw [State.roleOf, members, State.roleOf]
  cases moves with
  | kept still owner owners => exact .kept (same.trans still) (roles ▸ owner) (roles ▸ owners)
  | handed owner target epoch before after role dropped owners =>
    exact .handed owner target epoch before (same.trans after) (roles ▸ role) (roles ▸ dropped)
      (roles ▸ owners)
  | gone none_ => exact .gone (same.trans none_)

omit [LinearOrder User] in
theorem workspace_of_live {workspace : Workspace User} (found : state.live = some workspace) :
    state.workspace = some workspace :=
  (Option.filter_eq_some_iff.mp found).1

omit [LinearOrder User] in
theorem ownership_of {workspace : Workspace User} (found : state.workspace = some workspace) :
    state.ownership = some (workspace.ownerUserId, workspace.ownershipEpoch) := by
  rw [State.ownership, found, Option.map_some]

theorem handOver_moves {workspace : Workspace User} (found : state.workspace = some workspace)
    {target performedBy : User} {breakGlass : Option (BreakGlass User)}
    (other : workspace.ownerUserId ≠ target) :
    Moves direct state (state.handOver workspace target performedBy breakGlass) := by
  have roles : ∀ user, (state.handOver workspace target performedBy breakGlass).roleOf user =
      if user = target then some .owner
      else if user = workspace.ownerUserId then
        (state.roleOf workspace.ownerUserId).map fun _ => .admin
      else state.roleOf user := fun user => roleIn_swapOwner
  refine .handed workspace.ownerUserId target workspace.ownershipEpoch (ownership_of found) rfl
    ?_ ?_ ?_
  next => rw [roles, if_pos rfl]
  next =>
    rw [roles, if_neg other, if_pos rfl]
    simp
  next =>
    intro user differs holds
    rw [roles, if_neg differs] at holds
    split at holds
    next => simp at holds
    next => exact holds

theorem transferOwnership_moves (owned : Owned direct state) {workspace : Workspace User}
    (found : state.workspace = some workspace) {currentOwner target performedBy : User}
    (taken : transferOwnership state workspace currentOwner target performedBy = some next) :
    Moves direct state next := by
  unfold transferOwnership at taken
  split at taken
  next => cases taken
  next =>
    split at taken
    next =>
      cases taken
      exact .of_same owned rfl rfl
    next other =>
      split at taken <;> cases taken
      exact handOver_moves found other

theorem transferOwnership_owner {workspace : Workspace User}
    (found : state.workspace = some workspace) {currentOwner target performedBy : User}
    (taken : transferOwnership state workspace currentOwner target performedBy = some next)
    {owner : User} {epoch : Nat} (there : next.ownership = some (owner, epoch)) :
    owner = target := by
  unfold transferOwnership at taken
  split at taken
  next => cases taken
  next =>
    split at taken
    next same =>
      cases taken
      cases (ownership_of found).symm.trans there
      exact same
    next =>
      split at taken <;> cases taken
      cases there
      rfl

theorem applyForceTransfer_moves (owned : Owned direct state) {workspace : Workspace User}
    (found : state.workspace = some workspace) {target performedBy : User} {reason : String}
    {approval : Option (Approval User)}
    (taken : applyForceTransfer state workspace target performedBy reason approval = some next) :
    Moves direct state next := by
  unfold applyForceTransfer at taken
  split at taken
  next =>
    cases taken
    exact .of_same owned rfl rfl
  next other =>
    split at taken <;> cases taken
    exact handOver_moves found other

theorem workspace_of_locked {owner : Option User} {target : User} {workspace : Workspace User}
    (locked : lockTransferWorkspace state owner target = some workspace) :
    state.workspace = some workspace := by
  unfold lockTransferWorkspace at locked
  split at locked
  next => exact workspace_of_live (Option.filter_eq_some_iff.mp locked).1
  next => cases locked

theorem finishCall_moves (owned : Owned direct state) {call : Call User}
    (taken : finishCall state call = some next) : Moves direct state next := by
  cases call with
  | transfer caller target owner =>
    obtain ⟨workspace, locked, moved⟩ := Option.bind_eq_some_iff.mp taken
    have found := workspace_of_locked locked
    exact transferOwnership_moves owned found moved
  | force admin target reason owner =>
    obtain ⟨workspace, locked, moved⟩ := Option.bind_eq_some_iff.mp taken
    have found := workspace_of_locked locked
    exact applyForceTransfer_moves owned found moved
  | approve request approver target owner =>
    simp only [finishCall, approveForceTransfer] at taken
    split at taken
    next workspace row locked pending =>
      split at taken
      next =>
        obtain ⟨after, moved, rfl⟩ := Option.map_eq_some_iff.mp taken
        have found := workspace_of_locked locked
        exact (applyForceTransfer_moves owned found moved).congr rfl rfl
      next => cases taken
    next => cases taken
  | cancel request admin =>
    simp only [finishCall, cancelForceTransfer] at taken
    split at taken <;> cases taken
    exact .of_same owned rfl rfl
  | mint user =>
    obtain ⟨workspace, _, rfl⟩ := Option.map_eq_some_iff.mp taken
    exact .of_same owned rfl rfl

theorem putMember_moves (owned : Owned direct state) {user : User} {member : Member}
    (own : ∀ owner epoch, state.ownership = some (owner, epoch) → owner = user →
      member.role = .owner)
    (asked : member.role = .owner → state.roleOf user = some .owner ∨ direct user) :
    Moves direct state (state.putMember user member) := by
  refine .kept rfl ?_ ?_
  next =>
    intro owner epoch found
    rw [State.roleOf, State.putMember, roleIn_set]
    split
    next same => rw [own owner epoch found same]
    next => exact owned.owner owner epoch found
  next =>
    intro other holds
    rw [State.roleOf, State.putMember, roleIn_set] at holds
    split at holds
    next same => exact same ▸ asked (Option.some.inj holds)
    next => exact .inl holds

theorem roleOf_of_get? {user : User} {member : Member}
    (found : state.members.get? user = some member) :
    state.roleOf user = some member.role := by
  rw [State.roleOf, roleIn, found, Option.map_some]

theorem addMember_moves (owned : Owned direct state) {user : User} {member : Member}
    (asked : member.role = .owner → direct user) (taken : addMember state user member = some next) :
    Moves direct state next := by
  unfold addMember at taken
  split at taken
  next fresh =>
    cases taken
    refine putMember_moves owned ?_ fun role => .inr (asked role)
    rintro owner epoch found rfl
    have missing := Option.isNone_iff_eq_none.mp (Bool.and_eq_true_iff.mp fresh).2
    have role := owned.owner owner epoch found
    rw [State.roleOf, roleIn, missing] at role
    cases role
  next => cases taken

theorem updateMemberRole_moves (owned : Owned direct state) {user : User} {newRole : WorkspaceRole}
    (taken : updateMemberRole state user newRole = some next) : Moves direct state next := by
  unfold updateMemberRole at taken
  split at taken
  next workspace member live found =>
    have owner := ownership_of (workspace_of_live live)
    split at taken
    next => cases taken
    next kept =>
      split at taken <;> cases taken
      next single =>
        refine putMember_moves owned ?_ ?_
        next =>
          intro holder epoch there same
          cases owner.symm.trans there
          by_contra lowered
          exact kept ⟨lowered, same⟩
        next =>
          rintro rfl
          have some_ := hasOwnerRow_of (owned.owner _ _ owner)
          have role : member.role = .owner := by
            by_contra other
            exact single ⟨rfl, other, some_⟩
          exact .inl (role ▸ roleOf_of_get? found)
  next => cases taken

theorem updateMemberContextAccess_moves (owned : Owned direct state) {user : User}
    {allowed : Option (List ContextId)}
    (taken : updateMemberContextAccess state user allowed = some next) :
    Moves direct state next := by
  obtain ⟨member, found, rfl⟩ := Option.map_eq_some_iff.mp taken
  refine putMember_moves owned ?_ ?_
  next =>
    rintro owner epoch there rfl
    exact Option.some.inj ((roleOf_of_get? found).symm.trans (owned.owner owner epoch there))
  next =>
    intro role
    exact .inl ((roleOf_of_get? found).trans (congrArg some role))

-- The row of someone who is not the owner afterwards is deleted.
theorem Moves.erase (moves : Moves direct state next) {later : State User} {user : User}
    (apart : ∀ owner epoch, next.ownership = some (owner, epoch) → owner ≠ user)
    (workspace : later.workspace = next.workspace)
    (members : later.members = next.members.erase user) :
    Moves direct state later := by
  have same : later.ownership = next.ownership := by
    rw [State.ownership, workspace, State.ownership]
  have stays : ∀ other, other ≠ user → later.roleOf other = next.roleOf other := by
    intro other differs
    rw [State.roleOf, members, roleIn_erase differs, State.roleOf]
  have held : ∀ other, later.roleOf other = some .owner → next.roleOf other = some .owner := by
    intro other holds
    rw [State.roleOf, members] at holds
    exact (roleIn_erase_some holds).2
  cases moves with
  | kept still owner owners =>
    refine .kept (same.trans still) ?_ fun other holds => owners other (held other holds)
    intro holder epoch found
    rw [stays holder (apart holder epoch (still.trans found))]
    exact owner holder epoch found
  | handed owner target epoch before after role dropped owners =>
    refine .handed owner target epoch before (same.trans after) ?_ ?_ ?_
    next =>
      rw [stays target (apart target _ after)]
      exact role
    next => exact fun holds => dropped (held owner holds)
    next => exact fun other differs holds => owners other differs (held other holds)
  | gone none_ => exact .gone (same.trans none_)

theorem removeMember_moves (owned : Owned direct state) {user : User}
    (taken : removeMember state user = some next) : Moves direct state next := by
  unfold removeMember at taken
  split at taken
  next => cases taken
  next member found =>
    split at taken <;> cases taken
    next low =>
      have apart : ∀ owner epoch, state.ownership = some (owner, epoch) → owner ≠ user := by
        rintro owner epoch there rfl
        have role := (roleOf_of_get? found).symm.trans (owned.owner owner epoch there)
        exact low.1 (Option.some.inj role)
      exact (Moves.of_same owned rfl rfl).erase apart rfl rfl

theorem dropUser_moves (owned : Owned direct state) {user : User}
    (apart : ∀ owner epoch, state.ownership = some (owner, epoch) → owner ≠ user) :
    Moves direct state (state.dropUser user) :=
  (Moves.of_same owned rfl rfl).erase apart rfl rfl

theorem dropUser_moves_of_other (owned : Owned direct state) {workspace : Workspace User}
    (found : state.workspace = some workspace) {user : User}
    (other : workspace.ownerUserId ≠ user) :
    Moves direct state (state.dropUser user) := by
  refine dropUser_moves owned ?_
  intro owner epoch there same
  cases (ownership_of found).symm.trans there
  exact other same

theorem dropUser_moves_of_none (missing : state.workspace = none) {user : User} :
    Moves direct state (state.dropUser user) := by
  refine .gone ?_
  rw [State.ownership, State.dropUser, missing, Option.map_none]

theorem successorOf_some {user successor : User} (found : successorOf state user = some successor) :
    successor ≠ user ∧ (state.members.get? successor).isSome := by
  obtain ⟨entry, listed, rfl⟩ := List.mem_map.mp (List.argmin_mem found)
  obtain ⟨here, other⟩ := List.mem_filter.mp (List.mem_of_mem_filter listed)
  exact ⟨of_decide_eq_true other, Option.isSome_iff_exists.mpr ⟨_, Dict.get?_eq_some.mpr here⟩⟩

theorem handleOwnedWorkspace_moves {user : User} {workspace : Workspace User}
    (found : state.workspace = some workspace) (own : workspace.ownerUserId = user)
    (taken : handleOwnedWorkspace state user workspace = some next) :
    Moves direct state (next.dropUser user) := by
  unfold handleOwnedWorkspace at taken
  split at taken
  next =>
    cases taken
    exact .gone rfl
  next =>
    obtain ⟨successor, chosen, rfl⟩ := Option.map_eq_some_iff.mp taken
    obtain ⟨other, listed⟩ := successorOf_some chosen
    obtain ⟨member, here⟩ := Option.isSome_iff_exists.mp listed
    refine .handed workspace.ownerUserId successor _ (ownership_of found) rfl ?_ ?_ ?_
    next =>
      rw [State.roleOf, State.dropUser, roleIn_erase other, roleIn_withRole, if_pos rfl]
      simp [roleIn, here]
    next =>
      intro holds
      exact (roleIn_erase_some holds).1 own
    next =>
      intro holder differs holds
      have kept := (roleIn_erase_some holds).2
      rwa [roleIn_withRole, if_neg differs] at kept

theorem eraseAccount_moves (owned : Owned direct state) {user : User}
    (taken : eraseAccount state user = some next) : Moves direct state next := by
  unfold eraseAccount at taken
  split at taken
  next missing =>
    cases taken
    exact dropUser_moves_of_none missing
  next workspace found =>
    split at taken
    next own =>
      obtain ⟨after, handled, rfl⟩ := Option.map_eq_some_iff.mp taken
      exact handleOwnedWorkspace_moves found own handled
    next other =>
      cases taken
      exact dropUser_moves_of_other owned found other

theorem deleteUser_moves (owned : Owned direct state) {user actor : User} {successor : Option User}
    (taken : deleteUser state user successor actor = some next) : Moves direct state next := by
  unfold deleteUser at taken
  split at taken
  next missing =>
    cases taken
    exact dropUser_moves_of_none missing
  next workspace found =>
    split at taken
    next other =>
      cases taken
      exact dropUser_moves_of_other owned found other
    next own =>
      split at taken
      next =>
        cases taken
        exact .gone rfl
      next =>
        split at taken
        next =>
          split at taken <;> cases taken
          exact .gone rfl
        next target =>
          split at taken
          next valid =>
            obtain ⟨after, moved, rfl⟩ := Option.map_eq_some_iff.mp taken
            have apart : ∀ owner epoch, after.ownership = some (owner, epoch) → owner ≠ user := by
              intro owner epoch there same
              exact valid.2 ((transferOwnership_owner found moved there).symm.trans same)
            exact (transferOwnership_moves owned found moved).erase apart rfl rfl
          next => cases taken

def Grants (direct : User → Prop) (_ : State User) (action : Action User) : Prop :=
  ∀ user allowed, action = .addMember user .owner allowed → direct user

theorem step_moves {dualControl : Bool} {action : Action User} (owned : Owned direct state)
    (granted : Grants direct state action) (taken : step dualControl state action = some next) :
    Moves direct state next := by
  cases action with
  | signUp | startTransfer | startMint =>
    simp only [step] at taken
    split at taken <;> cases taken
    exact .of_same owned rfl rfl
  | addMember user role allowed =>
    refine addMember_moves owned ?_ taken
    rintro rfl
    exact granted user allowed rfl
  | acceptInvitation user role allowed =>
    simp only [step, acceptInvitation] at taken
    split at taken
    next invited => exact addMember_moves owned (fun asked => absurd asked invited.1) taken
    next => cases taken
  | updateMemberRole => exact updateMemberRole_moves owned taken
  | updateMemberContextAccess => exact updateMemberContextAccess_moves owned taken
  | removeMember => exact removeMember_moves owned taken
  | deleteWorkspace =>
    obtain ⟨workspace, live, rfl⟩ := Option.map_eq_some_iff.mp taken
    exact .of_same owned (ownership_of (workspace_of_live live)).symm rfl
  | eraseAccount =>
    simp only [step] at taken
    split at taken
    next => exact eraseAccount_moves owned taken
    next => cases taken
  | deleteUser =>
    simp only [step] at taken
    split at taken
    next => exact deleteUser_moves owned taken
    next => cases taken
  | startOperatorTransfer | startCancel =>
    obtain ⟨_, _, rfl⟩ := Option.map_eq_some_iff.mp taken
    exact .of_same owned rfl rfl
  | forceTransfer =>
    simp only [step, forceTransferRoute] at taken
    split at taken
    next =>
      unfold initiateForceTransfer at taken
      split at taken
      next => cases taken
      next =>
        split at taken <;> cases taken
        exact .of_same owned rfl rfl
    next =>
      cases taken
      exact .of_same owned rfl rfl
  | startApprove =>
    obtain ⟨row, _, started⟩ := Option.bind_eq_some_iff.mp taken
    split at started <;> cases started
    exact .of_same owned rfl rfl
  | readOwner index =>
    obtain ⟨call, _, read⟩ := Option.bind_eq_some_iff.mp taken
    obtain ⟨_, _, rfl⟩ := Option.map_eq_some_iff.mp read
    exact .of_same owned rfl rfl
  | finish index =>
    obtain ⟨call, _, rfl⟩ := Option.map_eq_some_iff.mp taken
    have ended : Owned direct { state with calls := state.calls.eraseIdx index } :=
      ⟨owned.owner, owned.others⟩
    cases finished : finishCall { state with calls := state.calls.eraseIdx index } call with
    | none => exact .of_same owned rfl rfl
    | some after =>
      have moves := finishCall_moves ended finished
      cases moves with
      | kept same owner owners => exact .kept same owner owners
      | handed owner target epoch before after role dropped owners =>
        exact .handed owner target epoch before after role dropped owners
      | gone none_ => exact .gone none_

theorem reached_owned {dualControl : Bool} {begin_ : State User} (owned : Owned direct begin_)
    (reached : Runs.Reaches (step dualControl) (Grants direct) begin_ state) : Owned direct state :=
  reached.invariant _ owned fun _ _ _ owned granted taken =>
    (step_moves owned granted taken).owned owned

-- Whatever overlaps, `owner_user_id` names a member with the owner role, and it is the only one but
-- for those whom a direct add made owners.
theorem owner_row_kept (dualControl : Bool) (direct : User → Prop) (begin_ state : State User)
    (owned : Owned direct begin_)
    (reached : Runs.Reaches (step dualControl) (Grants direct) begin_ state)
    (workspace : Workspace User) (found : state.workspace = some workspace) :
    state.roleOf workspace.ownerUserId = some .owner ∧
      ∀ user, state.roleOf user = some .owner → user = workspace.ownerUserId ∨ direct user :=
  have kept := reached_owned owned reached
  ⟨kept.owner _ _ (ownership_of found), kept.others _ _ (ownership_of found)⟩

end Moves

section Founded

def founded : State Nat where
  users := [1, 2, 3, 4, 8, 9]
  workspace := some { ownerUserId := 1, ownershipEpoch := 0 }
  members := ((Dict.empty.set 1 ⟨.owner, none⟩).set 2 ⟨.admin, none⟩).set 3 ⟨.member, none⟩

theorem founded_owned (direct : Nat → Prop) : Owned direct founded := by
  constructor
  next =>
    intro owner epoch found
    cases found
    decide
  next =>
    intro owner epoch found user holds
    cases found
    simp only [State.roleOf, founded, roleIn_set] at holds
    split at holds
    next => cases holds
    next =>
      split at holds
      next => cases holds
      next =>
        split at holds
        next first => exact .inl first
        next => cases holds

-- The owner starts two transfers at once, and later an admin adds a second owner.
def raced : List (Action Nat) :=
  [.startTransfer 1 2, .startTransfer 1 3, .readOwner 0, .readOwner 1, .finish 0, .finish 0,
    .addMember 4 .owner none]

theorem owner_row_kept_raced :
    ∃ (state : State Nat) (workspace : Workspace Nat), state.workspace = some workspace ∧
      workspace.ownerUserId = 2 ∧ state.roleOf 2 = some .owner ∧
        ∀ user, state.roleOf user = some .owner → user = 2 ∨ user = 4 := by
  have allowed : Runs.Allowed (step false) (Grants (· = 4)) founded raced := by
    simp [raced, Runs.Allowed, Grants, eq_comm]
  have seen : (Runs.run (step false) founded raced).map State.ownership = some (some (2, 1)) := by
    decide +kernel
  obtain ⟨state, reached, view⟩ := Runs.Reaches.of_run _ allowed seen
  obtain ⟨workspace, found, same⟩ := Option.map_eq_some_iff.mp view
  obtain ⟨owner, _⟩ := Prod.mk.inj same
  have kept := owner_row_kept false (· = 4) founded state (founded_owned _) reached workspace found
  rw [owner] at kept
  exact ⟨state, workspace, found, owner, kept⟩

end Founded

end MemoryCloud.Ownership
