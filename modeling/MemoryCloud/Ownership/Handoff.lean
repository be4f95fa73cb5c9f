import MemoryCloud.Ownership.Calls

set_option autoImplicit false

/-!
# Billing handoffs

A handoff token is minted for a user who passed the owner gate, at an epoch that is read after it.
It is accepted as long as the workspace has not been handed on since that read. A hand-over between
the gate and the read is not noticed: the token names the owner of the gate at the epoch of the next
one.
-/

namespace MemoryCloud.Ownership

section Epochs

variable {User : Type} [LinearOrder User] {dualControl : Bool} {direct : User → Prop}
  {state next begin_ : State User}

theorem later_ownership (owned : Owned direct begin_) {owner : User} {epoch : Nat}
    (before : begin_.ownership = some (owner, epoch))
    (reached : Runs.Reaches (step dualControl) (Grants direct) begin_ state) {now : User}
    {later : Nat} (after : state.ownership = some (now, later)) :
    epoch ≤ later ∧ (later = epoch → now = owner) := by
  have kept : Owned direct state ∧ ∀ now later, state.ownership = some (now, later) →
      epoch ≤ later ∧ (later = epoch → now = owner) := by
    refine reached.invariant (fun state => Owned direct state ∧ ∀ now later,
      state.ownership = some (now, later) → epoch ≤ later ∧ (later = epoch → now = owner)) ?_ ?_
    next =>
      refine ⟨owned, ?_⟩
      intro now later here
      cases before.symm.trans here
      exact ⟨Nat.le_refl _, fun _ => rfl⟩
    next =>
      rintro state action next ⟨owned, past⟩ granted taken
      have moves := step_moves owned granted taken
      refine ⟨moves.owned owned, ?_⟩
      intro now later here
      cases moves with
      | kept same => exact past now later (same ▸ here)
      | handed _ _ old was_ is_ =>
        cases is_.symm.trans here
        have bound := (past _ _ was_).1
        exact ⟨by omega, fun same => by omega⟩
      | gone none_ => cases none_.symm.trans here
  exact kept.2 now later after

end Epochs

section Tokens

variable {User : Type} [LinearOrder User]

variable {dualControl : Bool} {direct : User → Prop} {state next begin_ : State User}

-- The owner's workspace is transferred between the gate and the read of a mint.
def displaced : List (Action Nat) :=
  [.startMint 1, .startTransfer 1 2, .readOwner 1, .finish 1, .finish 0]

end Tokens

end MemoryCloud.Ownership
