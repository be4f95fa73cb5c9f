import MemoryCloud.Embedding.Model

set_option autoImplicit false

/-!
# How often a row is embedded

A claim takes the row out of the queue or spends one retry. What puts the row back in the queue allows one
more claim, and what clears the count allows as many as there are retries.
-/

namespace MemoryCloud.Embedding

section Budget

variable {T : Type} [DecidableEq T]

def isClaim : Action T → Bool
  | .claim _ => true
  | _ => false

def queues : Action T → Bool
  | .settle _ | .edit _ | .requeue _ | .switch | .retry _ | .restore => true
  | _ => false

def clears : Action T → Bool
  | .succeed _ | .fail _ .configuration _ | .switch | .retry _ | .restore => true
  | _ => false

-- The claims that the row has left.
def left (memory : Memory T) : Nat :=
  maxEmbeddingRetries - memory.retryCount + if memory.status = .pending then 1 else 0

def allowed (action : Action T) : Nat :=
  (if queues action then 1 else 0) + if clears action then maxEmbeddingRetries else 0

omit [DecidableEq T] in
theorem left_queued (memory : Memory T) {queued : Memory T}
    (same : queued.retryCount = memory.retryCount) : left queued ≤ left memory + 1 := by
  unfold left
  rw [same]
  split <;> split <;> omega

omit [DecidableEq T] in
theorem left_cleared (memory : Memory T) : left memory ≤ 1 + maxEmbeddingRetries := by
  unfold left
  split <;> omega

omit [DecidableEq T] in
-- A row in the queue gives up its place, any other a retry.
theorem left_claimed {memory : Memory T} {now : Time} (free : claimable memory now = true) :
    1 + left (claimed memory now) ≤ left memory := by
  simp only [claimable, reclaimEligible, retryEligible, staleProcessing, Bool.and_eq_true,
    Bool.or_eq_true, decide_eq_true_eq] at free
  obtain ⟨_, (pending | ⟨⟨⟨processing, _⟩, _⟩, small⟩) | ⟨⟨⟨failed, _⟩, small⟩, _⟩⟩ := free
  next => simp [left, claimed, pending]; omega
  next => simp [left, claimed, processing]; omega
  next => simp [left, claimed, failed]; omega

omit [DecidableEq T] in
theorem left_failed (memory : Memory T) (failure : Failure) (now : Time)
    (spent : failure ≠ .configuration) : left (failed memory failure now) ≤ left memory := by
  unfold left failed
  cases failure with
  | configuration => exact absurd rfl spent
  | unrebuildable => simp
  | other =>
    simp only [reduceCtorEq, if_false]
    split <;> omega

omit [DecidableEq T] in
theorem left_finish {state : State T} {index bound : Nat} {run : Run T} {outcome : Memory T}
    {phase : Phase}
    (within : left outcome ≤ left state.memory + bound) :
    left (finish state index run outcome phase).memory ≤ left state.memory + bound := by
  unfold finish
  split
  next => exact within
  next => exact Nat.le_add_right _ _

omit [DecidableEq T] in
theorem left_requeued (memory : Memory T) (includeProcessing : Bool) :
    left (requeueEmbedding memory includeProcessing) ≤ left memory + 1 := by
  unfold requeueEmbedding
  split
  next => exact left_queued memory rfl
  next => exact Nat.le_add_right _ _

omit [DecidableEq T] in
theorem budget_of_within {state next : State T} {action : Action T} (bound : Nat)
    (quiet : isClaim action = false) (within : left next.memory ≤ left state.memory + bound)
    (paid : bound ≤ allowed action) :
    (if isClaim action then 1 else 0) + left next.memory ≤ left state.memory + allowed action := by
  rw [quiet]
  simp only [Bool.false_eq_true, if_false, Nat.zero_add]
  omega

omit [DecidableEq T] in
theorem budget_of_same {state next : State T} {action : Action T} (quiet : isClaim action = false)
    (same : next.memory = state.memory) :
    (if isClaim action then 1 else 0) + left next.memory ≤ left state.memory + allowed action :=
  budget_of_within 0 quiet (Nat.le_of_eq (congrArg left same)) (Nat.zero_le _)

omit [DecidableEq T] in
theorem left_any (memory queued : Memory T) :
    left queued ≤ left memory + (1 + maxEmbeddingRetries) :=
  Nat.le_trans (left_cleared queued) (Nat.le_add_left _ _)

theorem left_edit {memory edited : Memory T} {text : T} (taken : edit memory text = some edited) :
    left edited ≤ left memory + 1 := by
  unfold edit at taken
  split at taken
  next => cases taken
  next =>
    split at taken <;> cases taken
    next => exact Nat.le_add_right _ _
    next => exact left_queued memory rfl

theorem step_budget {state next : State T} {action : Action T} (taken : step state action = some next) :
    (if isClaim action then 1 else 0) + left next.memory ≤ left state.memory + allowed action := by
  cases action with
  | claim now =>
    simp only [step] at taken
    split at taken <;> cases taken
    next free => exact left_claimed free
  | load index =>
    obtain ⟨run, _, taken⟩ := runStep_some taken
    unfold load at taken
    split at taken
    next => cases taken
    next => split at taken <;> cases taken <;> exact budget_of_same rfl rfl
  | renew index now heard =>
    obtain ⟨run, _, taken⟩ := runStep_some taken
    unfold renew at taken
    split at taken <;> cases taken
    exact budget_of_within 0 rfl (Nat.le_refl _) (Nat.zero_le _)
  | write index sent =>
    obtain ⟨run, _, taken⟩ := runStep_some taken
    unfold write at taken
    split at taken
    next => cases taken
    next => split at taken <;> cases taken <;> exact budget_of_same rfl rfl
  | raise index | seeded index =>
    obtain ⟨run, _, taken⟩ := runStep_some taken
    split at taken <;> cases taken
    exact budget_of_same rfl rfl
  | crash index =>
    obtain ⟨run, _, taken⟩ := runStep_some taken
    split at taken <;> cases taken
    exact budget_of_same rfl rfl
  | succeed index =>
    obtain ⟨run, _, taken⟩ := runStep_some taken
    unfold succeed at taken
    split at taken <;> cases taken
    refine budget_of_within maxEmbeddingRetries rfl (left_finish ?_) (Nat.le_add_left _ _)
    simp [left]
  | fail index failure now =>
    obtain ⟨run, _, taken⟩ := runStep_some taken
    unfold fail at taken
    split at taken <;> cases taken
    by_cases spent : failure = .configuration
    next =>
      subst spent
      refine budget_of_within maxEmbeddingRetries rfl (left_finish ?_) (Nat.le_add_left _ _)
      simp [left, failed]
    next =>
      exact budget_of_within 0 rfl (left_finish (left_failed state.memory failure now spent))
        (Nat.zero_le _)
  | settle index =>
    obtain ⟨run, _, taken⟩ := runStep_some taken
    unfold settle at taken
    split at taken <;> cases taken
    refine budget_of_within 1 rfl ?_ (Nat.le_refl _)
    dsimp only
    split
    next => exact left_requeued state.memory false
    next => exact Nat.le_add_right _ _
  | edit text =>
    obtain ⟨memory, edited, rfl⟩ := Option.map_eq_some_iff.mp taken
    exact budget_of_within 1 rfl (left_edit edited) (Nat.le_refl _)
  | requeue includeProcessing =>
    cases taken
    exact budget_of_within 1 rfl (left_requeued state.memory includeProcessing) (Nat.le_refl _)
  | switch | retry | restore =>
    simp only [step] at taken
    split at taken <;> cases taken
    exact budget_of_within (1 + maxEmbeddingRetries) rfl (left_any state.memory _) (Nat.le_refl _)
  | expire now =>
    simp only [step] at taken
    split at taken <;> cases taken
    refine budget_of_within 0 rfl ?_ (Nat.zero_le _)
    simp [left, State.withMemory]
  | forget =>
    simp only [step] at taken
    split at taken <;> cases taken
    exact budget_of_within 0 rfl (Nat.le_refl _) (Nat.zero_le _)
  | dropPoint =>
    simp only [step] at taken
    split at taken <;> cases taken
    exact budget_of_same rfl rfl

-- Each claim of a run is paid by the row's budget or by an action that puts it back.
theorem claims_within_budget {start final : State T} {actions : List (Action T)}
    (taken : Runs.run step start actions = some final) :
    actions.countP isClaim + left final.memory ≤
      left start.memory + actions.countP queues + maxEmbeddingRetries * actions.countP clears := by
  induction actions generalizing start with
  | nil =>
    cases taken
    simp
  | cons action rest ih =>
    obtain ⟨next, one, others⟩ := Option.bind_eq_some_iff.mp taken
    have first := step_budget one
    have later := ih others
    have cleared : maxEmbeddingRetries * (if clears action then 1 else 0) =
        if clears action then maxEmbeddingRetries else 0 := by
      split <;> simp
    rw [allowed] at first
    rw [List.countP_cons, List.countP_cons, List.countP_cons, Nat.mul_add, cleared]
    omega

-- Nothing but an administrator's retry or a new text takes the row up again.
def Spent (memory : Memory T) : Prop :=
  memory.status = .failed ∧ maxEmbeddingRetries ≤ memory.retryCount

omit [DecidableEq T] in
theorem clockBefore_late (memory : Memory T) (age : Time) :
    ∃ since, ∀ now, since < now → clockBefore memory age now = true := by
  cases stamped : memory.attemptedAt with
  | none => exact ⟨0, fun now _ => by simp [clockBefore, stamped]⟩
  | some stamp => exact ⟨stamp + age, fun now late => by simpa [clockBefore, stamped] using late⟩

omit [DecidableEq T] in
theorem due_of_unsearchable {memory : Memory T} (live : memory.deleted = false)
    (unsuppressed : memory.suppressed = false) (missing : memory.status ≠ .success)
    (unspent : ¬Spent memory) :
    ∃ since, ∀ now, since < now →
      claimable memory now = true ∨ reclaimExhausted memory now = true := by
  cases status : memory.status with
  | success => exact absurd status missing
  | pending => exact ⟨0, fun now _ => .inl (by simp [claimable, live, unsuppressed, status])⟩
  | processing =>
    obtain ⟨since, stale⟩ := clockBefore_late memory staleClaim
    refine ⟨since, fun now late => ?_⟩
    have stale := stale now late
    by_cases small : memory.retryCount < maxEmbeddingRetries
    next =>
      exact .inl (by simp [claimable, reclaimEligible, staleProcessing, live, unsuppressed, status,
        small, stale])
    next =>
      exact .inr (by simp [reclaimExhausted, staleProcessing, unsuppressed, status, stale,
        Nat.le_of_not_lt small])
  | failed =>
    obtain ⟨since, waited⟩ := clockBefore_late memory retryBackoff
    have small : memory.retryCount < maxEmbeddingRetries :=
      Nat.lt_of_not_le fun large => unspent ⟨status, large⟩
    exact ⟨since, fun now late => .inl (by simp [claimable, retryEligible, live, unsuppressed, status,
      small, waited now late])⟩

-- The claims are bounded, and a row that is neither searchable nor suppressed is taken up again
-- unless it is spent.
theorem claims_bounded_and_due (start final : State T) (actions : List (Action T))
    (taken : Runs.run step start actions = some final) :
    actions.countP isClaim + left final.memory ≤
        left start.memory + actions.countP queues + maxEmbeddingRetries * actions.countP clears ∧
      (final.memory.deleted = false → final.memory.suppressed = false →
        final.memory.status ≠ .success → ¬Spent final.memory →
        ∃ since, ∀ now, since < now →
          claimable final.memory now = true ∨ reclaimExhausted final.memory now = true) :=
  ⟨claims_within_budget taken, due_of_unsearchable⟩

end Budget

-- A failure, a run that dies, and an edit that comes between the third claim and its outcome.
def troubled : List (Action Nat) :=
  [.claim 1, .load 0, .raise 0, .fail 0 .other 2, .claim (100 * second), .crash 1,
    .claim (200 * second), .load 2, .edit 8, .write 2 .answered, .succeed 2, .settle 2]

theorem claims_bounded_and_due_troubled :
    ∃ final : State Nat, Runs.run step { memory := { text := 7 } } troubled = some final ∧
      3 + left final.memory ≤ 4 + 2 + maxEmbeddingRetries * 1 ∧
        ∃ since, ∀ now, since < now →
          claimable final.memory now = true ∨ reclaimExhausted final.memory now = true := by
  obtain ⟨final, taken, view⟩ : ∃ final : State Nat,
      Runs.run step { memory := { text := 7 } } troubled = some final ∧ final.memory =
        { status := .pending, attemptedAt := some (200 * second), retryCount := 2, text := 8 } :=
    Option.map_eq_some_iff.mp (by decide +kernel)
  obtain ⟨bounded, due⟩ := claims_bounded_and_due _ final troubled taken
  refine ⟨final, taken, bounded, due ?_ ?_ ?_ ?_⟩ <;> rw [view] <;> simp [Spent]

end MemoryCloud.Embedding
