import Mathlib.Data.List.Nodup
import MemoryCloud.Access.Model

set_option autoImplicit false

namespace MemoryCloud.Access

open SqlLogic
open Bindings (ContextId)

variable (db : Db) (texts : Deployment)

def liveWorkspace (id : WorkspaceId) : Option Workspace :=
  db.workspaces.find? fun workspace =>
    decide (workspace.id = id) && decide (workspace.deletedAt = none)

def Seated (workspace : Workspace) (member : WorkspaceMember) : Prop :=
  member.role = .owner ∨ memberSeatSuspended db workspace member = false

-- The tenancy rule the gates spell: a seated member of the live workspace whose role and access
-- list reach the context, which is shared or the account's own.
structure Admits (user : UserId) (context : Context) (workspace : Workspace)
    (member : WorkspaceMember) : Prop where
  live : liveWorkspace db context.workspaceId = some workspace
  joined : getMember db context.workspaceId user = some member
  seated : Seated db workspace member
  owned : context.isPrivate = true → isSameOwner db user context.createdBy = true
  reached : reachesContext member.role member.allowedContextIds context.id = true

def Opens (user : UserId) (context : Context) : Prop :=
  ∃ workspace member, Admits db user context workspace member

def OwnerWithoutRow (user : UserId) (context : Context) : Prop :=
  context.isPrivate = true ∧ context.createdBy = some user ∧
    getMember db context.workspaceId user = none ∧
    (getWorkspace db context.workspaceId).map (·.ownerUserId) = some user

section Rules

variable {db}

theorem getWorkspace_of_live {id : WorkspaceId} {workspace : Workspace}
    (live : liveWorkspace db id = some workspace) : getWorkspace db id = some workspace := by
  have found := List.find?_some live
  have listed := List.mem_of_find?_eq_some live
  simp only [Bool.and_eq_true, decide_eq_true_eq] at found
  unfold getWorkspace
  cases loaded : db.workspaces.find? fun other => decide (other.id = id) with
  | none =>
    have missing := List.find?_eq_none.mp loaded workspace listed
    simp [found.1] at missing
  | some other =>
    have same := List.find?_some loaded
    have also := List.mem_of_find?_eq_some loaded
    simp only [decide_eq_true_eq] at same
    have equal := List.inj_on_of_nodup_map db.workspaceIds listed also (found.1.trans same.symm)
    rw [equal]

theorem liveContext_self {context : Context} (listed : context ∈ db.contexts)
    (live : context.deletedAt = none) : liveContext db context.id = some context := by
  unfold liveContext
  cases found : db.contexts.find? fun other =>
      decide (other.id = context.id) && decide (other.deletedAt = none) with
  | none =>
    have missing := List.find?_eq_none.mp found context listed
    simp [live] at missing
  | some other =>
    have same := List.find?_some found
    have also := List.mem_of_find?_eq_some found
    simp only [Bool.and_eq_true, decide_eq_true_eq] at same
    rw [List.inj_on_of_nodup_map db.contextIds also listed same.1]

theorem liveContext_some {id : ContextId} {context : Context}
    (found : liveContext db id = some context) :
    context ∈ db.contexts ∧ context.id = id ∧ context.deletedAt = none := by
  have same := List.find?_some found
  simp only [Bool.and_eq_true, decide_eq_true_eq] at same
  exact ⟨List.mem_of_find?_eq_some found, same⟩

theorem ownedBy_keeps (column : Option UserId) (user : UserId) :
    (ownedBy db column user).Keeps ↔ isSameOwner db user column = true := by
  rw [ownedBy, or_keeps, eq_keeps, isIn_keeps]
  cases column with
  | none => simp [isSameOwner]
  | some other =>
    by_cases same : user = other
    next => simp [isSameOwner, same]
    next =>
      simp only [isSameOwner, if_neg same, List.find?_isSome, Bool.and_eq_true, decide_eq_true_eq,
        Option.some.injEq, exists_eq_left']
      constructor
      · rintro (equal | linked)
        · exact absurd equal.symm same
        · have subquery := linked
          simp only [linkedIdsSubquery, List.mem_map, List.mem_filter] at subquery
          obtain ⟨link, inside, named⟩ := subquery
          exact ⟨link, inside.1, named, named ▸ linked⟩
      · rintro ⟨link, -, named, linked⟩
        exact Or.inr (named ▸ linked)

theorem listingKeeps_iff (user : UserId) (workspaceId : WorkspaceId) (member : WorkspaceMember)
    (context : Context) :
    listingKeeps db user workspaceId member context = true ↔
      context.workspaceId = workspaceId ∧ context.deletedAt = none ∧
        (context.isPrivate = true → isSameOwner db user context.createdBy = true) ∧
        reachesContext member.role member.allowedContextIds context.id = true := by
  unfold listingKeeps reachFilter reachesContext
  cases reachable : reachableContextIds member.role member.allowedContextIds with
  | none => cases context.isPrivate <;> simp [ownedBy_keeps, and_assoc]
  | some ids =>
    cases ids with
    | nil => simp
    | cons first rest =>
      cases context.isPrivate <;> simp [ownedBy_keeps, isIn_keeps, and_assoc]

theorem ensureSeatedIn_ok (workspace : Workspace) (member : WorkspaceMember) :
    ensureSeatedIn db texts workspace member = .ok () ↔ Seated db workspace member := by
  unfold ensureSeatedIn Seated
  by_cases owner : member.role = .owner
  next => simp [owner]
  next =>
    cases suspended : memberSeatSuspended db workspace member <;> simp [owner]

theorem ensureMemberSeated_live {id : WorkspaceId} {workspace : Workspace}
    (live : getWorkspace db id = some workspace) (member : WorkspaceMember) :
    ensureMemberSeated db texts id member = ensureSeatedIn db texts workspace member := by
  unfold ensureMemberSeated
  by_cases owner : member.role = .owner
  next => simp [owner, ensureSeatedIn]
  next => simp [owner, live]

theorem seatedMember_ok {id : WorkspaceId} {user : UserId} {found : Option WorkspaceMember}
    (answered : seatedMember db texts id user = .ok found) :
    found = getMember db id user ∧
      ∀ member, found = some member → ensureMemberSeated db texts id member = .ok () := by
  unfold seatedMember at answered
  cases joined : getMember db id user with
  | none =>
    rw [joined] at answered
    cases answered
    simp
  | some member =>
    rw [joined] at answered
    cases seat : ensureMemberSeated db texts id member with
    | error refusal =>
      simp only [seat] at answered
      cases answered
    | ok _ =>
      simp only [seat] at answered
      cases answered
      refine ⟨rfl, ?_⟩
      rintro _ ⟨⟩
      exact seat

theorem checkWorkspaceAccess_ok (user : UserId) (id : WorkspaceId) (member : WorkspaceMember) :
    checkWorkspaceAccess db texts user id .viewer = .ok member ↔
      ∃ workspace, liveWorkspace db id = some workspace ∧ getMember db id user = some member ∧
        Seated db workspace member := by
  unfold checkWorkspaceAccess
  have stored : (db.workspaces.find? fun workspace =>
      decide (workspace.id = id) && decide (workspace.deletedAt = none)) = liveWorkspace db id := rfl
  rw [stored]
  cases live : liveWorkspace db id with
  | none => simp
  | some workspace =>
    cases joined : getMember db id user with
    | none => simp
    | some row =>
      have high : ¬ row.role.weight < WorkspaceRole.viewer.weight := by
        cases row.role <;> decide
      cases seat : ensureSeatedIn db texts workspace row with
      | error refusal =>
        have unseated : ¬ Seated db workspace row := fun seated => by
          rw [(ensureSeatedIn_ok texts workspace row).mpr seated] at seat
          cases seat
        simp only [high, if_false, seat]
        constructor
        · intro answered
          cases answered
        · rintro ⟨_, ⟨⟩, ⟨⟩, seated⟩
          exact absurd seated unseated
      | ok _ =>
        have seated := (ensureSeatedIn_ok texts workspace row).mp seat
        simp only [high, if_false, seat]
        constructor
        · intro answered
          cases answered
          exact ⟨workspace, rfl, rfl, seated⟩
        · rintro ⟨_, _, ⟨⟩, _⟩
          rfl

end Rules

def plainCaller (user : UserId) : Caller := { userId := user, keyWorkspaceId := none, scope := none }

def Listed (user : UserId) (workspaceId : WorkspaceId) (context : Context) : Prop :=
  ∃ contexts, getAccessibleContexts db texts (plainCaller user) workspaceId = .ok contexts ∧
    context ∈ contexts

section Gates

variable {db}

theorem listed_iff (user : UserId) (workspaceId : WorkspaceId) (context : Context) :
    Listed db texts user workspaceId context ↔
      context.workspaceId = workspaceId ∧ context ∈ db.contexts ∧ context.deletedAt = none ∧
        Opens db user context := by
  constructor
  · rintro ⟨contexts, answered, inside⟩
    cases access : checkWorkspaceAccess db texts user workspaceId .viewer with
    | error refusal =>
      simp only [getAccessibleContexts, plainCaller, getAccessibleContextsRbac, access] at answered
      cases answered
    | ok member =>
      simp only [getAccessibleContexts, plainCaller, getAccessibleContextsRbac, access] at answered
      cases answered
      rw [List.mem_mergeSort, List.mem_filter, listingKeeps_iff] at inside
      obtain ⟨listed, here, live, owned, reached⟩ := inside
      subst here
      obtain ⟨workspace, found, joined, seated⟩ :=
        (checkWorkspaceAccess_ok texts user context.workspaceId member).mp access
      exact ⟨rfl, listed, live, workspace, member, found, joined, seated, owned, reached⟩
  · rintro ⟨rfl, listed, live, workspace, member, admits⟩
    have access := (checkWorkspaceAccess_ok texts user context.workspaceId member).mpr
      ⟨workspace, admits.live, admits.joined, admits.seated⟩
    refine ⟨(db.contexts.filter (listingKeeps db user context.workspaceId member)).mergeSort
      fun a b => decide (b.createdAt ≤ a.createdAt), ?_, ?_⟩
    · simp only [getAccessibleContexts, plainCaller, getAccessibleContextsRbac, access]
      rfl
    · rw [List.mem_mergeSort, List.mem_filter, listingKeeps_iff]
      exact ⟨listed, rfl, live, admits.owned, admits.reached⟩

theorem resolved_row {caller : Caller} {id : ContextId} {policy : CapacityPolicy}
    {required : WorkspaceRole} {context : Context}
    (answered : resolveContextForWorkspaceRead db texts caller id policy required = .ok context) :
    liveContext db id = some context := by
  unfold resolveContextForWorkspaceRead at answered
  cases found : liveContext db id with
  | none =>
    rw [found] at answered
    cases answered
  | some row =>
    simp only [found] at answered
    split at answered
    next => cases answered
    next =>
      split at answered
      next => cases answered
      next =>
        split at answered
        next => split at answered <;> cases answered
        next =>
          split at answered
          next => cases answered
          next =>
            simp only [bind, Except.bind] at answered
            split at answered
            next => cases answered
            next =>
              split at answered <;> cases answered
              rfl

theorem resolved_iff {caller : Caller} (noKey : caller.keyWorkspaceId = none)
    (noAgent : caller.scope = none) {context : Context} (listed : context ∈ db.contexts)
    (live : context.deletedAt = none) :
    resolveContextForWorkspaceRead db texts caller context.id .allowed .viewer =
      .ok context ↔ Opens db caller.userId context := by
  unfold resolveContextForWorkspaceRead
  rw [liveContext_self listed live, noKey]
  by_cases hidden : (context.isPrivate && !isSameOwner db caller.userId context.createdBy) = true
  next =>
    simp only [keyMismatch, hidden, Bool.false_eq_true, if_false, if_true]
    simp only [Bool.and_eq_true, Bool.not_eq_true'] at hidden
    constructor
    · intro answered
      cases answered
    · rintro ⟨_, _, admits⟩
      have owned := admits.owned hidden.1
      rw [hidden.2] at owned
      cases owned
  next =>
    simp only [keyMismatch, hidden, Bool.false_eq_true, if_false]
    have owned : context.isPrivate = true →
        isSameOwner db caller.userId context.createdBy = true := by
      simpa using hidden
    cases access : checkWorkspaceAccess db texts caller.userId context.workspaceId .viewer with
    | error refusal =>
      have shut : ¬ Opens db caller.userId context := by
        rintro ⟨workspace, member, admits⟩
        have opened := (checkWorkspaceAccess_ok texts caller.userId
          context.workspaceId member).mpr ⟨workspace, admits.live, admits.joined, admits.seated⟩
        rw [opened] at access
        cases access
      simp only [shut, iff_false]
      split <;> intro answered <;> cases answered
    | ok member =>
      obtain ⟨workspace, found, joined, seated⟩ :=
        (checkWorkspaceAccess_ok texts caller.userId context.workspaceId member).mp access
      cases reached : reachesContext member.role member.allowedContextIds context.id with
      | false =>
        simp only [reached, Bool.not_false, if_true]
        constructor
        · intro answered
          cases answered
        · rintro ⟨_, other, admits⟩
          have same := admits.joined
          rw [joined] at same
          cases same
          rw [admits.reached] at reached
          cases reached
      | true =>
        simp only [reached, Bool.not_true, Bool.false_eq_true, if_false, applyAgentBindingFilter,
          noAgent, capacityChecks, if_true]
        exact ⟨fun _ => ⟨workspace, member, found, joined, seated, owned, reached⟩, fun _ => rfl⟩

theorem isSameOwner_self (user : UserId) : isSameOwner db user (some user) = true := by
  simp [isSameOwner]

section Core

variable {texts} {context : Context} {workspace : Workspace} {user : UserId}

theorem admits_of_seated (live : liveWorkspace db context.workspaceId = some workspace)
    {member : WorkspaceMember}
    (answered : seatedMember db texts context.workspaceId user = .ok (some member))
    (owned : context.isPrivate = true → isSameOwner db user context.createdBy = true)
    (reached : reachesContext member.role member.allowedContextIds context.id = true) :
    Opens db user context := by
  obtain ⟨joined, seat⟩ := seatedMember_ok texts answered
  have seated := seat member rfl
  rw [ensureMemberSeated_live texts (getWorkspace_of_live live)] at seated
  exact ⟨workspace, member, live, joined.symm, (ensureSeatedIn_ok texts workspace member).mp seated,
    owned, reached⟩

theorem memberRole_opens (live : liveWorkspace db context.workspaceId = some workspace)
    {required role : ContextRole} {linkedOwner : Bool}
    (answered : memberRole db texts context user required linkedOwner = .ok role)
    (owned : context.isPrivate = true → isSameOwner db user context.createdBy = true) :
    Opens db user context := by
  unfold memberRole at answered
  cases seat : seatedMember db texts context.workspaceId user with
  | error refusal =>
    simp only [seat] at answered
    cases answered
  | ok found =>
    cases found with
    | none =>
      simp only [seat] at answered
      cases answered
    | some member =>
      refine admits_of_seated live seat owned ?_
      -- owner and admin reach every context; the others are asked.
      by_cases high : member.role = .owner ∨ member.role = .admin
      next =>
        rcases high with role | role <;> simp [reachesContext, reachableContextIds, role]
      next =>
        by_contra unreached
        simp only [Bool.not_eq_true] at unreached
        simp [seat, bind, Except.bind, high, unreached] at answered

theorem privateCreatorRole_opens (live : liveWorkspace db context.workspaceId = some workspace)
    (hidden : context.isPrivate = true) (mine : context.createdBy = some user)
    {required role : ContextRole}
    (answered : privateCreatorRole db texts context user required = .ok role) :
    Opens db user context ∨ OwnerWithoutRow db user context := by
  unfold privateCreatorRole at answered
  cases seat : seatedMember db texts context.workspaceId user with
  | error refusal =>
    simp only [seat] at answered
    cases answered
  | ok found =>
    cases found with
    | none =>
      refine Or.inr ⟨hidden, mine, (seatedMember_ok texts seat).1.symm, ?_⟩
      by_contra other
      simp only [getWorkspace_of_live live, Option.map_some, Option.some.injEq] at other
      simp [seat, bind, Except.bind, getWorkspace_of_live live, other] at answered
    | some member =>
      refine Or.inl (admits_of_seated live seat (fun _ => mine ▸ isSameOwner_self user) ?_)
      by_contra unreached
      simp only [Bool.not_eq_true] at unreached
      simp [seat, bind, Except.bind, unreached] at answered

theorem rbac_opens (listed : context ∈ db.contexts)
    (live : liveWorkspace db context.workspaceId = some workspace) {required : ContextRole}
    {key : Option WorkspaceId} {answer : Context × ContextRole}
    (answered : checkContextAccessRbac db texts user context.id required key = .ok answer) :
    context.deletedAt = none ∧ (Opens db user context ∨ OwnerWithoutRow db user context) := by
  unfold checkContextAccessRbac at answered
  cases found : liveContext db context.id with
  | none =>
    simp only [found] at answered
    cases answered
  | some row =>
    obtain ⟨also, named, present⟩ := liveContext_some found
    have same : row = context := List.inj_on_of_nodup_map db.contextIds also listed named
    subst same
    refine ⟨present, ?_⟩
    simp only [found] at answered
    split at answered
    next => cases answered
    next =>
      split at answered
      next hidden =>
        split at answered
        next mine =>
          cases arm : privateCreatorRole db texts row user required with
          | error refusal =>
            simp only [arm] at answered
            cases answered
          | ok role => exact privateCreatorRole_opens live hidden mine arm
        next =>
          split at answered
          next => cases answered
          next linked =>
            cases arm : memberRole db texts row user required true with
            | error refusal =>
              simp only [arm] at answered
              cases answered
            | ok role => exact Or.inl (memberRole_opens live arm fun _ => by simpa using linked)
      next shared =>
        cases arm : memberRole db texts row user required false with
        | error refusal =>
          simp only [arm] at answered
          cases answered
        | ok role => exact Or.inl (memberRole_opens live arm fun hidden => absurd hidden shared)

theorem checkContextAccess_rbac {caller : Caller} {id : ContextId} {required : ContextRole}
    {policy : CapacityPolicy} {answer : Context × ContextRole}
    (answered : checkContextAccess db texts caller id required policy = .ok answer) :
    ∃ decided, checkContextAccessRbac db texts caller.userId id required caller.keyWorkspaceId =
      .ok decided := by
  unfold checkContextAccess at answered
  cases core : checkContextAccessRbac db texts caller.userId id required caller.keyWorkspaceId with
  | error refusal =>
    simp only [core] at answered
    cases answered
  | ok decided => exact ⟨decided, rfl⟩

theorem canAccessMemory_opens (listed : context ∈ db.contexts)
    (live : liveWorkspace db context.workspaceId = some workspace) {caller : Caller}
    {memory : MemoryAddress} (home : memory.workspaceId = context.workspaceId)
    (place : memory.contextId = context.id) (others : caller.userId ≠ memory.authorId)
    {access : Bindings.Access}
    (answered : canAccessMemory db texts caller memory access = .ok true) :
    context.deletedAt = none ∧
      (Opens db caller.userId context ∨ OwnerWithoutRow db caller.userId context) := by
  unfold canAccessMemory at answered
  rw [if_neg others, home, place] at answered
  split at answered
  next => cases answered
  next =>
    split at answered
    next =>
      split at answered
      next =>
        cases core : checkContextAccessRbac db texts caller.userId context.id
            (if access = .write then .editor else .viewer) none with
        | error refusal =>
          simp only [core] at answered
          split at answered <;> cases answered
        | ok decided => exact rbac_opens listed live core
      next => cases answered
    next shared =>
      cases found : liveContext db context.id with
      | none => simp [isContextShared, found] at shared
      | some row =>
        obtain ⟨also, named, present⟩ := liveContext_some found
        have same : row = context := List.inj_on_of_nodup_map db.contextIds also listed named
        subst same
        have open_ : row.isPrivate = false := by simpa [isContextShared, found] using shared
        refine ⟨present, Or.inl ?_⟩
        cases seat : seatedMember db texts row.workspaceId caller.userId with
        | error refusal =>
          simp only [seat] at answered
          cases answered
        | ok member =>
          cases member with
          | none => simp [seat, bind, Except.bind, reaches] at answered
          | some member =>
            refine admits_of_seated live seat (fun hidden => by simp [open_] at hidden) ?_
            by_contra unreached
            simp only [Bool.not_eq_true] at unreached
            simp [seat, bind, Except.bind, reaches, unreached] at answered

end Core

end Gates

-- The account opens the context through the resolver of a role or through a memory that another
-- account wrote there.
def OpensElsewhere (user : UserId) (context : Context) : Prop :=
  (∃ required policy answer,
    checkContextAccess db texts (plainCaller user) context.id required policy = .ok answer) ∨
  ∃ author access type sourceType, user ≠ author ∧
    canAccessMemory db texts (plainCaller user)
      ⟨author, context.workspaceId, context.id, type, sourceType⟩ access = .ok true

theorem gates_agree (user : UserId) (workspaceId : WorkspaceId) (context : Context) :
    (Listed db texts user workspaceId context ↔
      context.workspaceId = workspaceId ∧
        resolveContextForWorkspaceRead db texts (plainCaller user) context.id .allowed .viewer =
          .ok context) ∧
    (Listed db texts user workspaceId context → (liveWorkspace db workspaceId).isSome) ∧
    (context ∈ db.contexts → (liveWorkspace db context.workspaceId).isSome →
      OpensElsewhere db texts user context →
        Listed db texts user context.workspaceId context ∨ OwnerWithoutRow db user context) := by
  refine ⟨?_, ?_, ?_⟩
  · rw [listed_iff]
    refine and_congr_right fun _ => ?_
    constructor
    · rintro ⟨listed, live, opens⟩
      exact (resolved_iff texts rfl rfl listed live).mpr opens
    · intro resolved
      obtain ⟨listed, _, live⟩ := liveContext_some (resolved_row texts resolved)
      exact ⟨listed, live, (resolved_iff texts rfl rfl listed live).mp resolved⟩
  · rw [listed_iff]
    rintro ⟨rfl, _, _, workspace, member, admits⟩
    simp [admits.live]
  · intro listed present opened
    obtain ⟨workspace, live⟩ := Option.isSome_iff_exists.mp present
    have decided : context.deletedAt = none ∧
        (Opens db user context ∨ OwnerWithoutRow db user context) := by
      rcases opened with ⟨required, policy, answer, answered⟩ |
        ⟨author, access, type, sourceType, others, answered⟩
      · obtain ⟨_, core⟩ := checkContextAccess_rbac answered
        exact rbac_opens listed live core
      · exact canAccessMemory_opens listed live rfl rfl others answered
    rw [listed_iff]
    exact decided.2.imp_left fun opens => ⟨rfl, listed, decided.1, opens⟩

def sampleWorkspace : Workspace :=
  { id := 1, ownerUserId := 1, planName := "free", effectiveMaxMembers := 3
    effectiveMaxContexts := 3, deletedAt := none }

def sampleMember : WorkspaceMember :=
  { id := 1, workspaceId := 1, userId := 1, role := .owner, allowedContextIds := none
    invitedAt := none, joinedAt := some 0 }

def sampleContext : Context :=
  { id := 1, workspaceId := 1, createdBy := some 1, isPrivate := false, createdAt := 0
    deletedAt := none }

def emptyDb : Db :=
  { workspaces := [], members := [], contexts := [], contextMembers := [], identityLinks := []
    bindings := ⟨[], .nil⟩
    workspaceIds := .nil, memberKeys := .nil, contextIds := .nil, contextMemberKeys := .nil
    linkedUsers := .nil }

def sampleDb : Db :=
  { emptyDb with
    workspaces := [sampleWorkspace], members := [sampleMember], contexts := [sampleContext]
    workspaceIds := by simp, memberKeys := by simp, contextIds := by simp }

def plainTexts : Deployment :=
  { pausedMessage := fun _ _ _ _ => "", pausedDetails := fun _ _ _ _ _ _ => []
    capacityLock := fun _ _ _ => none }

theorem gates_agree_sample :
    OpensElsewhere sampleDb plainTexts 1 sampleContext ∧
      (Listed sampleDb plainTexts 1 1 sampleContext ∨ OwnerWithoutRow sampleDb 1 sampleContext) := by
  have opened : OpensElsewhere sampleDb plainTexts 1 sampleContext :=
    Or.inl ⟨.owner, .allowed, (sampleContext, .owner), rfl⟩
  have listed : sampleContext ∈ sampleDb.contexts := by simp [sampleDb]
  exact ⟨opened, (gates_agree sampleDb plainTexts 1 1 sampleContext).2.2 listed rfl opened⟩

-- The owner's private context without a membership row, and a deleted workspace.
def ownerlessDb : Db :=
  { sampleDb with
    members := [], memberKeys := by simp
    contexts := [{ sampleContext with isPrivate := true }], contextIds := by simp }

def deletedDb : Db :=
  { sampleDb with
    workspaces := [{ sampleWorkspace with deletedAt := some 5 }], workspaceIds := by simp }

theorem gates_disagree :
    (OpensElsewhere ownerlessDb plainTexts 1 { sampleContext with isPrivate := true } ∧
      ¬ Listed ownerlessDb plainTexts 1 1 { sampleContext with isPrivate := true }) ∧
    OpensElsewhere deletedDb plainTexts 1 sampleContext ∧
      ¬ Listed deletedDb plainTexts 1 1 sampleContext := by
  refine ⟨⟨Or.inl ⟨.owner, .allowed, (_, .owner), rfl⟩, ?_⟩,
    Or.inr ⟨2, .write, none, none, by decide, rfl⟩, ?_⟩
  · rintro ⟨contexts, answered, -⟩
    have refused : getAccessibleContexts ownerlessDb plainTexts (plainCaller 1) 1 =
        .error authorizationError := rfl
    cases answered.symm.trans refused
  · rintro ⟨contexts, answered, -⟩
    have refused : getAccessibleContexts deletedDb plainTexts (plainCaller 1) 1 =
        .error authorizationError := rfl
    cases answered.symm.trans refused

end MemoryCloud.Access
