import MemoryCloud.Access.Gates

set_option autoImplicit false

namespace MemoryCloud.Access

open Bindings (ContextId)

def Db.without (db : Db) (id : ContextId) : Db :=
  { db with
    contexts := db.contexts.filter fun context => decide (context.id ≠ id)
    contextIds := db.contextIds.sublist (List.filter_sublist.map _) }

variable (db : Db) (texts : Deployment) (caller : Caller) (context : Context)

-- Another workspace's key, another account's private context, or a seated member whose role and
-- access list do not reach the context.
inductive Shut : Prop
  | key (elsewhere : keyMismatch caller.keyWorkspaceId context.workspaceId = true)
  | owned (hidden : context.isPrivate = true)
      (others : isSameOwner db caller.userId context.createdBy = false)
  | reach (member : WorkspaceMember)
      (joined : getMember db context.workspaceId caller.userId = some member)
      (seated : ensureMemberSeated db texts context.workspaceId member = .ok ())
      (unreached : reachesContext member.role member.allowedContextIds context.id = false)

def Outsider : Prop := getMember db context.workspaceId caller.userId = none

def BindingDenies (access : Bindings.Access) : Prop :=
  ∃ scope, caller.scope = some scope ∧ scope.enforcementMode = .enforce ∧
    Bindings.bindingGrants
      (db.bindings.getBindingForContext scope.agentId (some context.id)) access = false

def SeatRefusal (refusal : MemoryCloudException) : Prop :=
  ∃ workspace member, getWorkspace db context.workspaceId = some workspace ∧
    getMember db context.workspaceId caller.userId = some member ∧
      ¬ Seated db workspace member ∧ refusal = seatRefusal db texts workspace

-- The call raises in both states, and the same exception, unless a missing seat answers.
def LooksMissing {α : Type} (here gone : Answer α) : Prop :=
  ∃ refusal, here = .error refusal ∧
    (gone = .error refusal ∨ SeatRefusal db texts caller context refusal)

section Refusals

variable {db texts caller context}

theorem liveContext_without (id : ContextId) : liveContext (db.without id) id = none := by
  rw [liveContext, List.find?_eq_none]
  intro other listed
  simp only [Db.without, List.mem_filter, decide_eq_true_eq] at listed
  simp [listed.2]

theorem resolve_without (id : ContextId) (policy : CapacityPolicy) (required : WorkspaceRole) :
    resolveContextForWorkspaceRead (db.without id) texts caller id policy required =
      .error (contextNotFound id) := by
  simp [resolveContextForWorkspaceRead, liveContext_without]

theorem check_without (id : ContextId) (required : ContextRole) (policy : CapacityPolicy) :
    checkContextAccess (db.without id) texts caller id required policy =
      .error (notFoundException "Context" none) := by
  simp [checkContextAccess, checkContextAccessRbac, liveContext_without, bind, Except.bind]

theorem ensureSeatedIn_error {workspace : Workspace} {member : WorkspaceMember}
    {refusal : MemoryCloudException}
    (refused : ensureSeatedIn db texts workspace member = .error refusal) :
    ¬ Seated db workspace member ∧ refusal = seatRefusal db texts workspace := by
  constructor
  · intro seated
    rw [(ensureSeatedIn_ok texts workspace member).mpr seated] at refused
    cases refused
  · unfold ensureSeatedIn at refused
    split at refused
    next => cases refused
    next =>
      split at refused
      next =>
        cases refused
        rfl
      next => cases refused

theorem checkWorkspaceAccess_error {required : WorkspaceRole} {refusal : MemoryCloudException}
    (refused : checkWorkspaceAccess db texts caller.userId context.workspaceId required =
      .error refusal) :
    refusal = authorizationError ∨ SeatRefusal db texts caller context refusal := by
  unfold checkWorkspaceAccess at refused
  split at refused
  next =>
    cases refused
    exact Or.inl rfl
  next workspace live =>
    split at refused
    next =>
      cases refused
      exact Or.inl rfl
    next member joined =>
      split at refused
      next =>
        cases refused
        exact Or.inl rfl
      next =>
        cases seat : ensureSeatedIn db texts workspace member with
        | ok _ =>
          simp only [seat] at refused
          cases refused
        | error answer =>
          simp only [seat] at refused
          cases refused
          obtain ⟨unseated, named⟩ := ensureSeatedIn_error seat
          exact Or.inr ⟨workspace, member, getWorkspace_of_live live, joined, unseated, named⟩

theorem checkWorkspaceAccess_member {required : WorkspaceRole} {member : WorkspaceMember}
    (answered : checkWorkspaceAccess db texts caller.userId context.workspaceId required =
      .ok member) :
    getMember db context.workspaceId caller.userId = some member := by
  unfold checkWorkspaceAccess at answered
  split at answered
  next => cases answered
  next workspace _ =>
    split at answered
    next => cases answered
    next row joined =>
      split at answered
      next => cases answered
      next =>
        cases seat : ensureSeatedIn db texts workspace row with
        | error refusal =>
          simp only [seat] at answered
          cases answered
        | ok _ =>
          simp only [seat] at answered
          cases answered
          exact joined

theorem seatedMember_error {refusal : MemoryCloudException}
    (refused : seatedMember db texts context.workspaceId caller.userId = .error refusal) :
    SeatRefusal db texts caller context refusal := by
  unfold seatedMember at refused
  cases joined : getMember db context.workspaceId caller.userId with
  | none =>
    rw [joined] at refused
    cases refused
  | some member =>
    cases found : getWorkspace db context.workspaceId with
    | none =>
      simp [joined, ensureMemberSeated, found, bind, Except.bind] at refused
    | some workspace =>
      cases seat : ensureSeatedIn db texts workspace member with
      | ok _ =>
        simp [joined, ensureMemberSeated_live texts found, seat, bind, Except.bind] at refused
      | error answer =>
        simp only [joined, ensureMemberSeated_live texts found, seat] at refused
        cases refused
        obtain ⟨unseated, named⟩ := ensureSeatedIn_error seat
        exact ⟨workspace, member, found, joined, unseated, named⟩

theorem binding_refuses {access : Bindings.Access}
    (denies : BindingDenies db caller context access) (missing : MemoryCloudException) :
    applyAgentBindingFilter db caller context.id access missing = .error missing := by
  obtain ⟨scope, bound, enforced, ungranted⟩ := denies
  have denied : (Bindings.evaluateContextAccess db.bindings scope (some context.id) access
      none none).1 = false := by
    simp only [Bindings.evaluateContextAccess]
    cases found : db.bindings.getBindingForContext scope.agentId (some context.id) with
    | none => simp [Bindings.bindingGrants, enforced]
    | some binding =>
      rw [found] at ungranted
      simp [ungranted, enforced]
  simp [applyAgentBindingFilter, bound, denied]

theorem resolve_unreachable (listed : context ∈ db.contexts) {policy : CapacityPolicy}
    {required : WorkspaceRole}
    (unreachable : Shut db texts caller context ∨ Outsider db caller context ∨
      BindingDenies db caller context (accessForWorkspaceRole required)) :
    LooksMissing db texts caller context
      (resolveContextForWorkspaceRead db texts caller context.id policy required)
      (resolveContextForWorkspaceRead (db.without context.id) texts caller context.id policy
        required) := by
  rw [resolve_without]
  unfold resolveContextForWorkspaceRead
  cases found : liveContext db context.id with
  | none => exact ⟨_, rfl, Or.inl rfl⟩
  | some row =>
    have same : row = context := by
      obtain ⟨also, named, -⟩ := liveContext_some found
      exact List.inj_on_of_nodup_map db.contextIds also listed named
    subst same
    simp only
    split
    next => exact ⟨_, rfl, Or.inl rfl⟩
    next here =>
      split
      next => exact ⟨_, rfl, Or.inl rfl⟩
      next mine =>
        cases access : checkWorkspaceAccess db texts caller.userId row.workspaceId required with
        | error refusal =>
          rcases checkWorkspaceAccess_error access with plain | seat
          · exact ⟨contextNotFound row.id, by simp [plain, authorizationError], Or.inl rfl⟩
          · refine ⟨refusal, ?_, Or.inr seat⟩
            obtain ⟨workspace, _, _, _, _, named⟩ := seat
            simp [named, seatRefusal]
        | ok member =>
          have joined := checkWorkspaceAccess_member access
          cases reached : reachesContext member.role member.allowedContextIds row.id with
          | false => exact ⟨contextNotFound row.id, by simp [reached], Or.inl rfl⟩
          | true =>
            rcases unreachable with shut | outside | denies
            · cases shut with
              | key elsewhere => exact absurd elsewhere here
              | owned hidden others => simp [hidden, others] at mine
              | reach other also _ unreached =>
                rw [joined] at also
                cases also
                rw [reached] at unreached
                cases unreached
            · rw [Outsider, joined] at outside
              cases outside
            · have refused := binding_refuses denies (contextNotFound row.id)
              exact ⟨contextNotFound row.id, by simp [reached, refused, bind, Except.bind],
                Or.inl rfl⟩

theorem memberRole_unreachable (required : ContextRole) (linkedOwner : Bool)
    (unreachable : Shut db texts caller context ∨ Outsider db caller context)
    (here : keyMismatch caller.keyWorkspaceId context.workspaceId = false)
    (mine : context.isPrivate = true → isSameOwner db caller.userId context.createdBy = true) :
    ∃ refusal, memberRole db texts context caller.userId required linkedOwner = .error refusal ∧
      (refusal = notFoundException "Context" none ∨
        SeatRefusal db texts caller context refusal) := by
  unfold memberRole
  cases seat : seatedMember db texts context.workspaceId caller.userId with
  | error refusal => exact ⟨refusal, rfl, Or.inr (seatedMember_error seat)⟩
  | ok found =>
    have joined := (seatedMember_ok texts seat).1
    rcases unreachable with shut | outside
    · cases shut with
      | key elsewhere => simp [here] at elsewhere
      | owned hidden others => simp [mine hidden] at others
      | reach member also _ unreached =>
        have low : ¬ (member.role = .owner ∨ member.role = .admin) := by
          rintro (role | role) <;> simp [reachesContext, reachableContextIds, role] at unreached
        exact ⟨notFoundException "Context" none,
          by simp [joined, also, bind, Except.bind, low, unreached], Or.inl rfl⟩
    · rw [Outsider] at outside
      exact ⟨notFoundException "Context" none, by simp [joined, outside, bind, Except.bind],
        Or.inl rfl⟩

theorem privateCreatorRole_unreachable (required : ContextRole)
    (unreachable : Shut db texts caller context ∨
      Outsider db caller context ∧ ¬ OwnerWithoutRow db caller.userId context)
    (here : keyMismatch caller.keyWorkspaceId context.workspaceId = false)
    (hidden : context.isPrivate = true) (mine : context.createdBy = some caller.userId) :
    ∃ refusal, privateCreatorRole db texts context caller.userId required = .error refusal ∧
      (refusal = notFoundException "Context" none ∨
        SeatRefusal db texts caller context refusal) := by
  unfold privateCreatorRole
  cases seat : seatedMember db texts context.workspaceId caller.userId with
  | error refusal => exact ⟨refusal, rfl, Or.inr (seatedMember_error seat)⟩
  | ok found =>
    have joined := (seatedMember_ok texts seat).1
    refine ⟨notFoundException "Context" none, ?_, Or.inl rfl⟩
    rcases unreachable with shut | ⟨outside, unowned⟩
    · cases shut with
      | key elsewhere => simp [here] at elsewhere
      | owned _ others => simp [mine, isSameOwner_self] at others
      | reach member also _ unreached => simp [joined, also, bind, Except.bind, unreached]
    · rw [Outsider] at outside
      cases found : getWorkspace db context.workspaceId with
      | none => simp [joined, outside, bind, Except.bind]
      | some workspace =>
        have other : workspace.ownerUserId ≠ caller.userId := fun same =>
          unowned ⟨hidden, mine, outside, by simp [found, same]⟩
        simp [joined, outside, bind, Except.bind, other]

theorem check_unreachable (listed : context ∈ db.contexts) {policy : CapacityPolicy}
    {required : ContextRole}
    (unreachable : Shut db texts caller context ∨
      Outsider db caller context ∧ ¬ OwnerWithoutRow db caller.userId context) :
    LooksMissing db texts caller context
      (checkContextAccess db texts caller context.id required policy)
      (checkContextAccess (db.without context.id) texts caller context.id required policy) := by
  rw [check_without]
  have core : ∃ refusal,
      checkContextAccessRbac db texts caller.userId context.id required caller.keyWorkspaceId =
        .error refusal ∧ (refusal = notFoundException "Context" none ∨
          SeatRefusal db texts caller context refusal) := by
    unfold checkContextAccessRbac
    cases found : liveContext db context.id with
    | none => exact ⟨_, rfl, Or.inl rfl⟩
    | some row =>
      have same : row = context := by
        obtain ⟨also, named, -⟩ := liveContext_some found
        exact List.inj_on_of_nodup_map db.contextIds also listed named
      subst same
      have outside : Shut db texts caller row ∨ Outsider db caller row :=
        unreachable.imp_right And.left
      simp only
      split
      next => exact ⟨_, rfl, Or.inl rfl⟩
      next here =>
        have own : keyMismatch caller.keyWorkspaceId row.workspaceId = false := by simpa using here
        split
        next hidden =>
          split
          next mine =>
            obtain ⟨refusal, refused, kind⟩ :=
              privateCreatorRole_unreachable required unreachable own hidden mine
            exact ⟨refusal, by simp [refused, bind, Except.bind], kind⟩
          next =>
            split
            next => exact ⟨_, rfl, Or.inl rfl⟩
            next linked =>
              obtain ⟨refusal, refused, kind⟩ :=
                memberRole_unreachable required true outside own
                  (fun _ => by simpa using linked)
              exact ⟨refusal, by simp [refused, bind, Except.bind], kind⟩
        next shared =>
          obtain ⟨refusal, refused, kind⟩ :=
            memberRole_unreachable required false outside own
              (fun hidden => absurd hidden shared)
          exact ⟨refusal, by simp [refused, bind, Except.bind], kind⟩
  obtain ⟨refusal, refused, kind⟩ := core
  refine ⟨refusal, by simp [checkContextAccess, refused, bind, Except.bind], ?_⟩
  rcases kind with missing | seat
  · exact Or.inl (by rw [missing])
  · exact Or.inr seat

end Refusals

theorem unreachable_looks_missing (listed : context ∈ db.contexts) (policy : CapacityPolicy) :
    (∀ required : WorkspaceRole,
      (Shut db texts caller context ∨ Outsider db caller context ∨
        BindingDenies db caller context (accessForWorkspaceRole required)) →
      LooksMissing db texts caller context
        (resolveContextForWorkspaceRead db texts caller context.id policy required)
        (resolveContextForWorkspaceRead (db.without context.id) texts caller context.id policy
          required)) ∧
    ∀ required : ContextRole,
      (Shut db texts caller context ∨
        Outsider db caller context ∧ ¬ OwnerWithoutRow db caller.userId context) →
      LooksMissing db texts caller context
        (checkContextAccess db texts caller context.id required policy)
        (checkContextAccess (db.without context.id) texts caller context.id required policy) :=
  ⟨fun _ unreachable => resolve_unreachable listed unreachable,
    fun _ unreachable => check_unreachable listed unreachable⟩

theorem unreachable_looks_missing_outsider :
    Outsider sampleDb (plainCaller 2) sampleContext ∧
      LooksMissing sampleDb plainTexts (plainCaller 2) sampleContext
        (checkContextAccess sampleDb plainTexts (plainCaller 2) 1 .editor .blocked)
        (checkContextAccess (sampleDb.without 1) plainTexts (plainCaller 2) 1 .editor .blocked) := by
  have outside : Outsider sampleDb (plainCaller 2) sampleContext := rfl
  have listed : sampleContext ∈ sampleDb.contexts := by simp [sampleDb]
  refine ⟨outside, (unreachable_looks_missing sampleDb plainTexts (plainCaller 2) sampleContext
    listed .blocked).2 .editor (Or.inr ⟨outside, ?_⟩)⟩
  rintro ⟨hidden, -⟩
  cases hidden

def agentCaller : Caller :=
  { userId := 1, keyWorkspaceId := none, scope := some ⟨1, .enforce⟩ }

theorem unreachable_looks_present :
    (Outsider ownerlessDb (plainCaller 1) { sampleContext with isPrivate := true } ∧
      checkContextAccess ownerlessDb plainTexts (plainCaller 1) 1 .owner .allowed =
        .ok ({ sampleContext with isPrivate := true }, .owner)) ∧
    BindingDenies sampleDb agentCaller sampleContext .read ∧
      checkContextAccess sampleDb plainTexts agentCaller 1 .viewer .allowed =
        .error (notFoundException "Context" (some "1")) ∧
      checkContextAccess (sampleDb.without 1) plainTexts agentCaller 1 .viewer .allowed =
        .error (notFoundException "Context" none) :=
  ⟨⟨rfl, rfl⟩, ⟨_, rfl, rfl, rfl⟩, rfl, rfl⟩

end MemoryCloud.Access
