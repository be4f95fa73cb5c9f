import MemoryCloud.Provenance.Walk

set_option autoImplicit false

/-!
# The walk of a revert goes down

Whatever rows a log holds, replay names only states at or below the one it attributes, so each
turn of `_revert`'s loop goes strictly lower and reads states and edits that there are.
-/

namespace MemoryCloud.Provenance

open Versions

variable {K J G : Type} [LinearOrder K] [DecidableEq J] [DecidableEq G]

section Origins

variable {digest : K → G} {edits : List (DetailsEdit K J G)} {states : List (State K J)}
  {author : UserId} {origins : Nat → K → Option Origin}

-- Every lookup of `replay` goes to a state that is attributed already.
theorem Traced.low (traced : Traced digest edits states author origins) {i : Nat}
    (known : i ≤ edits.length) {key : K} {origin : Origin} (held : origins i key = some origin) :
    origin.state ≤ i ∧ (origin.state = 0 → origin.actor = some author) := by
  induction i using Nat.strong_induction_on generalizing origin with
  | _ i ih =>
    cases i with
    | zero =>
      rw [traced.zero] at held
      obtain ⟨value, _, rfl⟩ := Option.map_eq_some_iff.mp held
      exact ⟨Nat.le_refl _, fun _ => rfl⟩
    | succ i =>
      have listed : edits[i]? = some edits[i] := List.getElem?_eq_getElem (by omega)
      rw [traced.succ i _ listed] at held
      obtain ⟨value, _, rfl⟩ := Option.map_eq_some_iff.mp held
      have lastBound : ∀ j ∈ lastKnown states i, j ≤ i := fun j at_ => lastKnown_le at_
      have preBound : ∀ j ∈ preOf digest edits edits[i] i key, j ≤ i := fun j at_ => preOf_le at_
      rcases attributeKey_from (lookIn states origins key value) edits[i]
          (carriesFirst states edits[i] i) lastBound preBound with
        ⟨j, below, looked⟩ | ⟨_, is⟩ | ⟨_, is⟩
      next =>
        rw [lookIn] at looked
        split at looked
        next =>
          have older := ih j (by omega) (by omega) looked
          exact ⟨by omega, older.2⟩
        next => cases looked
      next =>
        rw [is]
        exact ⟨Nat.le_refl _, fun created => absurd created (Nat.succ_ne_zero i)⟩
      next =>
        rw [is]
        exact ⟨Nat.le_refl _, fun created => absurd created (Nat.succ_ne_zero i)⟩

variable (digest edits) in
theorem replay_low (live : Details K J) (author subject : UserId) (erased : List UserId) {j : Nat}
    {key : K} {origin : Origin}
    (held : originIn (replay digest edits live author subject erased).writers j key = some origin) :
    origin.state ≤ j ∧ (origin.state = 0 → origin.actor = some author) := by
  have traced : Traced digest edits (replay digest edits live author subject erased).states author _ :=
    replayUpTo_traced subject erased (Nat.le_refl edits.length)
  have inside : j ≤ edits.length := by
    by_contra beyond
    have outside : writersAt (replay digest edits live author subject erased).writers j = none := by
      rw [writersAt, List.getElem?_eq_none_iff.mpr]
      · rfl
      · rw [replay, replayUpTo_length]
        omega
    rw [originIn, outside] at held
    cases held
  have plainly := congrArg (Option.map Origin.plain) held
  have lower := traced.low inside plainly
  exact lower

end Origins

section Loop

variable (run : Replay K J G) (erased : List UserId) (key : K) (keyDigest : G)

def revertTurn (j : Nat) : (KeyRevert K J × Nat) ⊕ Nat :=
  match stateAt run.states j with
  | none =>
      if erasedWrote run erased j then .inr (j - 1)
      else .inl (⟨key, none, true, versionAt run.edits j⟩, j)
  | some _ =>
      let value := (keysOf (stateAt run.states j)).get? key
      match originIn run.writers j key with
      | some below =>
          if wroteErased below erased then
            if below.state = 0 then .inl (⟨key, none, false, versionAt run.edits j⟩, j)
            else .inr (below.state - 1)
          else .inl (⟨key, value, false, versionAt run.edits j⟩, j)
      | none =>
          if decide (j ≥ 1) && decide (keyDigest ∈ strippedAt run j) then
            .inr (belowStripped run j key keyDigest)
          else .inl (⟨key, value, false, versionAt run.edits j⟩, j)

omit [DecidableEq J] in
theorem revertFrom_succ (turns j : Nat) :
    revertFrom run erased key keyDigest (turns + 1) j =
      match revertTurn run erased key keyDigest j with
      | .inl found => some found
      | .inr next => revertFrom run erased key keyDigest turns next := by
  simp only [revertFrom, revertTurn, originIn]
  cases stateAt run.states j with
  | none => simp only; split <;> rfl
  | some details =>
    simp only
    cases (writersAt run.writers j).bind fun mapping => mapping.get? key with
    | none => simp only; split <;> rfl
    | some below =>
      simp only
      split
      next => split <;> rfl
      next => rfl

def Visits : Nat → Nat → Prop :=
  Relation.ReflTransGen fun j next => revertTurn run erased key keyDigest j = .inr next

variable {run erased key keyDigest}

omit [DecidableEq J] [DecidableEq G] in
theorem erasedWrote_pos {j : Nat} (wrote : erasedWrote run erased j = true) : 1 ≤ j := by
  cases j with
  | zero => cases wrote
  | succ j => exact Nat.succ_pos j

omit [DecidableEq J] in
-- The three ways to go on: past an unknown state, below an origin, below a stripped value.
theorem revertTurn_lower (low : ∀ j origin, originIn run.writers j key = some origin →
    origin.state ≤ j) {j next : Nat} (goes : revertTurn run erased key keyDigest j = .inr next) :
    next < j := by
  unfold revertTurn at goes
  split at goes
  next =>
    split at goes
    next wrote =>
      cases goes
      exact Nat.pred_lt_self (erasedWrote_pos wrote)
    next => cases goes
  next =>
    dsimp only at goes
    split at goes
    next below held =>
      split at goes
      next =>
        split at goes
        next => cases goes
        next written =>
          cases goes
          have under := low j below held
          omega
      next => cases goes
    next =>
      split at goes
      next marked =>
        cases goes
        simp only [ge_iff_le, Bool.and_eq_true, decide_eq_true_eq] at marked
        exact Nat.lt_of_le_of_lt (belowStripped_le run j keyDigest) (by omega)
      next => cases goes

omit [DecidableEq J] in
theorem revertTurn_stops {j : Nat} {found : KeyRevert K J × Nat}
    (stops : revertTurn run erased key keyDigest j = .inl found) : found.2 = j := by
  unfold revertTurn at stops
  split at stops
  next =>
    split at stops
    next => cases stops
    next =>
      cases stops
      rfl
  next =>
    dsimp only at stops
    split at stops
    next =>
      split at stops
      next =>
        split at stops
        next =>
          cases stops
          rfl
        next => cases stops
      next =>
        cases stops
        rfl
    next =>
      split at stops
      next => cases stops
      next =>
        cases stops
        rfl

omit [DecidableEq J] in
theorem visits_le (low : ∀ j origin, originIn run.writers j key = some origin → origin.state ≤ j)
    {start j : Nat} (visits : Visits run erased key keyDigest start j) : j ≤ start := by
  induction visits with
  | refl => exact Nat.le_refl _
  | tail _ goes ih => exact (Nat.le_of_lt (revertTurn_lower low goes)).trans ih

omit [DecidableEq J] in
-- Each turn goes lower, so there are at most as many as states below the start.
theorem revertFrom_ends (low : ∀ j origin, originIn run.writers j key = some origin →
    origin.state ≤ j) {turns j : Nat} (enough : j < turns) :
    ∃ found, revertFrom run erased key keyDigest turns j = some found ∧
      Visits run erased key keyDigest j found.2 := by
  induction turns generalizing j with
  | zero => cases enough
  | succ turns ih =>
    rw [revertFrom_succ]
    cases turn : revertTurn run erased key keyDigest j with
    | inl found =>
      refine ⟨found, rfl, ?_⟩
      rw [revertTurn_stops turn]
      exact .refl
    | inr next =>
      have lower := revertTurn_lower low turn
      obtain ⟨found, ends, visits⟩ := ih (show next < turns by omega)
      exact ⟨found, ends, .head turn visits⟩

end Loop

-- The revert walk is well defined: the writers of a state name states at or below it, a turn that
-- goes on goes strictly lower, and the walk below the edit that wrote a live key stays within the
-- states and the edits and ends. The subject of an erasure is not the author, so an edit wrote each
-- live key of the subject's.
theorem revert_walk_terminates (digest : K → G) (edits : List (DetailsEdit K J G))
    (live : Details K J) (author subject : UserId) (erased : List UserId) :
    let run := replay digest edits live author subject erased
    (∀ j key origin, originIn run.writers j key = some origin → origin.state ≤ j) ∧
      (∀ key j next, revertTurn run erased key (digest key) j = .inr next → next < j) ∧
      (∀ key origin, originIn run.writers edits.length key = some origin →
        (author ≠ subject → origin.actor = some subject → origin.state ≠ 0) ∧
        (origin.state ≠ 0 →
          (∀ j, Visits run erased key (digest key) (origin.state - 1) j →
            j < run.edits.length ∧ j < run.states.length) ∧
          ∃ found, revert run erased key (digest key) origin = some found ∧
            Visits run erased key (digest key) (origin.state - 1) found.2)) := by
  intro run
  have low : ∀ j key origin, originIn run.writers j key = some origin → origin.state ≤ j :=
    fun j key origin held => (replay_low digest edits live author subject erased held).1
  refine ⟨low, fun key j next goes => revertTurn_lower (fun j => low j key) goes, ?_⟩
  intro key origin held
  obtain ⟨below, created⟩ := replay_low digest edits live author subject erased held
  constructor
  · intro other mine first
    rw [created first] at mine
    exact other (Option.some.inj mine)
  · intro written
    constructor
    · intro j visits
      have under := visits_le (fun j => low j key) visits
      have size : run.states.length = edits.length + 1 := by simp [run, replay]
      refine ⟨?_, by omega⟩
      change j < edits.length
      omega
    · exact revertFrom_ends (fun j => low j key) (by omega)

end MemoryCloud.Provenance
