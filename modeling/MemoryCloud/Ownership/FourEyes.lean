import MemoryCloud.Ownership.Handoff

set_option autoImplicit false

/-!
# Four eyes

Under dual control a break-glass transfer takes two admins: one files the request, another one
approves it. Whatever happens in between, the owner who is displaced is the owner at the time of the
filing.
-/

namespace MemoryCloud.Ownership

section FourEyes

variable {User : Type} [LinearOrder User]

structure Filed (direct : User → Prop) (begin_ filed state : State User)
    (row : TransferRequest User) (owner : User) : Prop where
  reached : Runs.Reaches (step true) (Grants direct) begin_ filed
  ownership : filed.ownership = some (owner, row.epochAtInitiation)
  action : (step true filed (.forceTransfer row.initiatedBy row.targetUserId row.reason)).isSome
  since : Runs.Reaches (step true) (Grants direct) filed state

structure Backed (direct : User → Prop) (begin_ state : State User) (audit : AuditLog User)
    (row : TransferRequest User) : Prop where
  status : row.status = .approved
  approver : row.decidedBy = some audit.userId
  other : row.initiatedBy ≠ audit.userId
  target : row.targetUserId = audit.newOwner
  epoch : row.epochAtInitiation + 1 = audit.epoch
  filed : ∃ filed, Filed direct begin_ filed state row audit.previousOwner

structure FourEyesSound (direct : User → Prop) (begin_ state : State User) : Prop where
  owned : Owned direct state
  reached : Runs.Reaches (step true) (Grants direct) begin_ state
  forces : ∀ admin target reason owner, .force admin target reason owner ∉ state.calls
  approvals : ∀ request approver target owner,
    .approve request approver target owner ∈ state.calls →
      ∃ row, state.requests[request]? = some row ∧ row.targetUserId = target ∧
        approver ≠ row.initiatedBy
  requests : ∀ (index : Nat) row, state.requests[index]? = some row →
    ∃ filed owner, Filed direct begin_ filed state row owner
  audits : ∀ audit ∈ state.audits, ∀ glass, audit.breakGlass = some glass →
    ∃ approval row, glass.approval = some approval ∧ state.requests[approval.request]? = some row ∧
      approval.initiatedBy = row.initiatedBy ∧ approval.approvedBy = audit.userId ∧
        Backed direct begin_ state audit row

variable {direct : User → Prop} {begin_ filed state next : State User} {action : Action User}
  {row later : TransferRequest User} {owner : User}

theorem Filed.same (filing : Filed direct begin_ filed state row owner)
    (same : SameRequest row later) :
    Filed direct begin_ filed state later owner where
  reached := filing.reached
  ownership := by
    rw [same.epoch]
    exact filing.ownership
  action := by
    rw [same.initiatedBy, same.target, same.reason]
    exact filing.action
  since := filing.since

theorem Filed.onward (filing : Filed direct begin_ filed state row owner)
    (granted : Grants direct state action) (taken : step true state action = some next) :
    Filed direct begin_ filed next row owner :=
  { filing with since := .step filing.since granted taken }

theorem Backed.onward {audit : AuditLog User} (backed : Backed direct begin_ state audit row)
    (granted : Grants direct state action) (taken : step true state action = some next) :
    Backed direct begin_ next audit row := by
  obtain ⟨filed, filing⟩ := backed.filed
  exact { backed with filed := ⟨filed, filing.onward granted taken⟩ }

-- At the epoch of its filing a request finds the owner it was filed against.
theorem Filed.owner_eq (owned : Owned direct begin_)
    (filing : Filed direct begin_ filed state row owner) {now : User}
    (current : state.ownership = some (now, row.epochAtInitiation)) : now = owner := by
  have ownedThere := reached_owned owned filing.reached
  exact (later_ownership ownedThere filing.ownership filing.since current).2 rfl

theorem step_requests (sound : FourEyesSound direct begin_ state)
    (granted : Grants direct state action) (taken : step true state action = some next)
    {index : Nat} (found : next.requests[index]? = some row) :
    ∃ filed owner, Filed direct begin_ filed next row owner := by
  rcases (step_effect taken).files.filed index row found with ⟨old, there, same⟩ |
    ⟨filing, owner, ownership⟩
  next =>
    obtain ⟨filed, owner, earlier⟩ := sound.requests index old there
    exact ⟨filed, owner, (earlier.same same).onward granted taken⟩
  next =>
    refine ⟨state, owner, sound.reached, ownership, ?_, .step .start granted taken⟩
    rw [← filing, taken]
    rfl

theorem ApprovedBy.backed (begun : Owned direct begin_) (sound : FourEyesSound direct begin_ state)
    (granted : Grants direct state action) (taken : step true state action = some next)
    {audit : AuditLog User} {request : Nat} (approved : ApprovedBy state next audit request row) :
    Backed direct begin_ next audit (decided .approved audit.userId row) := by
  obtain ⟨seen, call⟩ := approved.call
  obtain ⟨asked, there, target, other⟩ := sound.approvals _ _ _ _ call
  cases approved.pending.1.symm.trans there
  obtain ⟨filed, owner, filing⟩ := sound.requests request row there
  have displaced := filing.owner_eq begun approved.ownership
  have settled : SameRequest row (decided .approved audit.userId row) :=
    .of_decided approved.pending.2 .approved audit.userId
  refine ⟨rfl, rfl, Ne.symm other, target, approved.epoch.symm, filed, ?_⟩
  rw [displaced]
  exact (filing.same settled).onward granted taken

theorem step_fourEyes (begun : Owned direct begin_) (sound : FourEyesSound direct begin_ state)
    (granted : Grants direct state action) (taken : step true state action = some next) :
    FourEyesSound direct begin_ next := by
  have effect := step_effect taken
  refine ⟨(step_moves sound.owned granted taken).owned sound.owned,
    .step sound.reached granted taken, ?_, ?_, fun _ _ => step_requests sound granted taken, ?_⟩
  next =>
    intro admin target reason owner listed
    rcases effect.forces admin target reason owner listed with ⟨earlier, old⟩ | single
    next => exact sound.forces _ _ _ _ old
    next => cases single
  next =>
    intro request approver target owner listed
    have asked : ∃ row, state.requests[request]? = some row ∧ row.targetUserId = target ∧
        approver ≠ row.initiatedBy := by
      rcases effect.approvals request approver target owner listed with ⟨earlier, old⟩ | new
      next => exact sound.approvals _ _ _ _ old
      next => exact new
    obtain ⟨row, there, aimed, other⟩ := asked
    obtain ⟨later, here, same⟩ := effect.files.kept request row there
    refine ⟨later, here, same.target.trans aimed, ?_⟩
    rw [same.initiatedBy]
    exact other
  next =>
    intro audit listed glass broken
    rcases effect.audits audit listed with old | plain | ⟨reason, owner, call⟩ |
      ⟨request, row, approved⟩
    next =>
      obtain ⟨approval, row, given, there, initiator, approver, backed⟩ :=
        sound.audits audit old glass broken
      obtain ⟨later, here, same⟩ := effect.files.kept _ row there
      have decided_ : row.status ≠ .pending := by simp [backed.status]
      cases same.settled decided_
      exact ⟨approval, row, given, here, initiator, approver, backed.onward granted taken⟩
    next => cases plain.symm.trans broken
    next => exact absurd call (sound.forces _ _ _ _)
    next =>
      obtain ⟨same, given, approval⟩ := approved.breakGlass
      cases given.symm.trans broken
      exact ⟨_, _, approval, approved.settled, rfl, rfl, approved.backed begun sound granted taken⟩

-- Under dual control every break-glass transfer was filed by one admin and approved by another one,
-- and the owner it displaced is the owner it was filed against.
theorem seizure_takes_two (direct : User → Prop) (begin_ state : State User)
    (owned : Owned direct begin_) (calls : begin_.calls = [])
    (requests : begin_.requests = []) (audits : begin_.audits = [])
    (reached : Runs.Reaches (step true) (Grants direct) begin_ state) (audit : AuditLog User)
    (listed : audit ∈ state.audits) (glass : BreakGlass User)
    (broken : audit.breakGlass = some glass) :
    ∃ approval row, glass.approval = some approval ∧ state.requests[approval.request]? = some row ∧
      approval.initiatedBy = row.initiatedBy ∧ approval.approvedBy = audit.userId ∧
        Backed direct begin_ state audit row := by
  have start : FourEyesSound direct begin_ begin_ := by
    refine ⟨owned, .start, ?_, ?_, ?_, ?_⟩
    next => simp [calls]
    next => simp [calls]
    next => simp [requests]
    next => simp [audits]
  have sound : FourEyesSound direct begin_ state := by
    refine reached.invariant _ start ?_
    intro _ _ _ sound granted taken
    exact step_fourEyes owned sound granted taken
  exact sound.audits audit listed glass broken

-- One admin files the request and takes it back too late: another one has approved it.
def approved : List (Action Nat) :=
  [.forceTransfer 8 3 "gone", .startApprove 0 9, .startCancel 0 8, .readOwner 0, .finish 0,
    .finish 0]

theorem seizure_takes_two_approved :
    ∃ (state : State Nat) (audit : AuditLog Nat) (row : TransferRequest Nat),
      state.ownership = some (3, 1) ∧ audit ∈ state.audits ∧
        Backed (fun _ => False) founded state audit row := by
  have allowed : Runs.Allowed (step true) (Grants fun _ => False) founded approved := by
    simp [approved, Runs.Allowed, Grants]
  have seen : (Runs.run (step true) founded approved).map (fun state =>
      (state.ownership, state.audits.map fun audit => audit.breakGlass.isSome)) =
        some (some (3, 1), [true]) := by
    decide +kernel
  obtain ⟨state, reached, view⟩ := Runs.Reaches.of_run _ allowed seen
  obtain ⟨current, marked⟩ := Prod.mk.inj view
  obtain ⟨audit, rest, same, forced, _⟩ := List.map_eq_cons_iff.mp marked
  have listed : audit ∈ state.audits := same ▸ .head _
  obtain ⟨glass, broken⟩ := Option.isSome_iff_exists.mp forced
  obtain ⟨_, row, _, _, _, _, backed⟩ :=
    seizure_takes_two (fun _ => False) founded state (founded_owned _) rfl rfl rfl reached audit
      listed glass broken
  exact ⟨state, audit, row, current, listed, backed⟩

end FourEyes

end MemoryCloud.Ownership
