import Mathlib.Logic.Relation
import MemoryCloud.Provenance.Strip

set_option autoImplicit false

/-!
# The walk below an erased value

`_revert` goes down from state to state until it meets a value no erased member wrote, or a
state without the key. One turn is `Descends`; where the walk ends is `Stops`.
-/

namespace MemoryCloud.Provenance

open Versions

variable {K J G : Type} [LinearOrder K] [DecidableEq J] [DecidableEq G]

def DetailsLog.run (digest : K → G) (log : DetailsLog K J G) (subject : UserId)
    (erased : List UserId) : Replay K J G :=
  replay digest log.edits log.live log.author subject erased

section Run

variable (digest : K → G) (log : DetailsLog K J G) (subject : UserId) (erased : List UserId)

@[simp] theorem run_edits : (log.run digest subject erased).edits = log.edits := rfl

@[simp] theorem run_states : (log.run digest subject erased).states = log.states := rfl

@[simp] theorem run_versions :
    (log.run digest subject erased).versions = log.edits.map (·.version) := rfl

@[simp] theorem run_stripped :
    (log.run digest subject erased).stripped = log.edits.map (·.erasedKeys) ++ [[]] := rfl

end Run

def DetailsLog.marks (log : DetailsLog K J G) (j : Nat) : List G :=
  ((log.edits[j]?).map (·.erasedKeys)).getD []

section Walking

variable (digest : K → G) (log : DetailsLog K J G) (erased : List UserId) (key : K)

def DetailsLog.belowMark (j : Nat) : Nat :=
  belowStripped (log.run digest log.author []) j key (digest key)

inductive Descends : Nat → Nat → Prop
  | unknown {j : Nat} (lost : stateAt log.states (j + 1) = none) : Descends (j + 1) j
  | past {j below : Nat} {origin : Origin} (held : log.origins digest j key = some origin)
      (wrote : wroteErased origin erased = true) (state : origin.state = below + 1) :
      Descends j below
  | stripped {j : Nat} (known : (stateAt log.states (j + 1)).isSome = true)
      (absent : log.valueAt (j + 1) key = none) (marked : digest key ∈ log.marks (j + 1)) :
      Descends (j + 1) (log.belowMark digest key (j + 1))

structure Stops (j : Nat) (revert : KeyRevert K J) : Prop where
  named : revert.key = key
  version : revert.fromVersion = versionAt log.edits j
  found : ∀ value, revert.target = some value → log.valueAt j key = some value ∧
    ∀ origin, log.origins digest j key = some origin → wroteErased origin erased = false
  absent : revert.target = none →
    stateAt log.states j = none ∨
    (∃ origin, log.origins digest j key = some origin ∧ wroteErased origin erased = true ∧
      origin.state = 0) ∨
    (log.valueAt j key = none ∧ ¬ (1 ≤ j ∧ digest key ∈ log.marks j))

end Walking

section Totality

variable {digest : K → G} {log : DetailsLog K J G} {erased : List UserId} {key : K}

theorem strippedAt_run (subject : UserId) (j : Nat) :
    strippedAt (log.run digest subject erased) j = log.marks j := by
  rw [strippedAt, run_stripped, DetailsLog.marks]
  by_cases inside : j < log.edits.length
  next => rw [List.getElem?_append_left (by simpa using inside), List.getElem?_map]
  next =>
    have outside : log.edits.length ≤ j := by omega
    rw [List.getElem?_append_right (by simpa using outside),
      List.getElem?_eq_none_iff.mpr outside]
    cases at_ : j - (log.edits.map (·.erasedKeys)).length with
    | zero => rfl
    | succ n => rfl

omit [DecidableEq J] in
theorem belowStripped_congr {run run' : Replay K J G} (edits : run.edits = run'.edits)
    (states : run.states = run'.states) (stripped : run.stripped = run'.stripped)
    (versions : run.versions = run'.versions) (j : Nat) (keyDigest : G) :
    belowStripped run j key keyDigest = belowStripped run' j key keyDigest := by
  cases run
  cases run'
  simp only at edits states stripped versions
  subst edits states stripped versions
  rfl

theorem belowStripped_run (subject : UserId) (j : Nat) :
    belowStripped (log.run digest subject erased) j key (digest key) =
      log.belowMark digest key j :=
  belowStripped_congr (by simp) (by simp) (by simp) (by simp) j (digest key)

theorem belowMark_row {j : Nat} {producer : DetailsEdit K J G}
    (listed : log.edits[j]? = some producer) (scalar : producer.restoredFromByKey = none)
    (writer : producer.writer ≠ .erasure) :
    log.belowMark digest key (j + 1) =
      match producer.restoredFrom with
      | none => j
      | some version =>
          if !producer.putBack then j else pre (log.edits.map (·.version)) version j := by
  have from_ : restoredFrom producer (digest key) = producer.restoredFrom := by
    rw [restoredFrom, scalar]
  simp only [DetailsLog.belowMark, belowStripped, run_edits, run_versions, Nat.add_sub_cancel,
    listed, from_, writer, decide_false, Bool.false_and]
  rfl

omit [DecidableEq J] in
theorem belowStripped_le (run : Replay K J G) (j : Nat) (keyDigest : G) :
    belowStripped run j key keyDigest ≤ j - 1 := by
  unfold belowStripped
  split
  next => exact Nat.le_refl _
  next =>
    split
    next => exact Nat.le_refl _
    next =>
      split
      next => exact Nat.le_refl _
      next =>
        split
        next => exact Nat.le_refl _
        next => exact Nat.min_le_right _ _

theorem Descends.lower {j i : Nat} (known : j ≤ log.edits.length)
    (step : Descends digest log erased key j i) : i < j := by
  cases step with
  | unknown lost => exact Nat.lt_succ_self _
  | past held wrote state =>
    have low := (origin_names known held).low
    omega
  | stripped known' absent marked => exact Nat.lt_succ_of_le (belowStripped_le _ _ _)

theorem descends_le {j i : Nat} (known : j ≤ log.edits.length)
    (walk : Relation.ReflTransGen (Descends digest log erased key) j i) : i ≤ j := by
  induction walk with
  | refl => exact Nat.le_refl _
  | tail _ step ih => exact Nat.le_trans (Nat.le_of_lt (step.lower (Nat.le_trans ih known))) ih

variable (digest erased key) in
-- One turn of the loop, over the origins without the `ambiguous` mark.
theorem revertFrom_turn (subject : UserId) (turns : Nat) {j : Nat}
    (known : j ≤ log.edits.length) :
    (∃ i, Descends digest log erased key j i ∧
      revertFrom (log.run digest subject erased) erased key (digest key) (turns + 1) j =
        revertFrom (log.run digest subject erased) erased key (digest key) turns i) ∨
    (∃ revert, Stops digest log erased key j revert ∧
      revertFrom (log.run digest subject erased) erased key (digest key) (turns + 1) j =
        some (revert, j)) := by
  have plain : (originIn (log.run digest subject erased).writers j key).map Origin.plain =
      log.origins digest j key :=
    origin_plain subject erased known key
  have exists_ : (log.origins digest j key).isSome = (log.valueAt j key).isSome :=
    origin_exists known key
  simp only [revertFrom, run_states, run_edits, strippedAt_run, belowStripped_run]
  cases state : stateAt log.states j with
  | none =>
    simp only
    split
    next wrote =>
      cases j with
      | zero => simp [erasedWrote] at wrote
      | succ j => exact .inl ⟨j, .unknown state, rfl⟩
    next =>
      refine .inr ⟨_, ⟨rfl, rfl, ?_, fun _ => .inl state⟩, rfl⟩
      intro value is
      cases is
  | some details =>
    simp only
    have value : (keysOf (some details)).get? key = log.valueAt j key := by
      rw [DetailsLog.valueAt, state]
    rw [value]
    rw [originIn] at plain
    cases origin : (writersAt (log.run digest subject erased).writers j).bind
        fun mapping => mapping.get? key with
    | some below =>
      rw [origin, Option.map_some] at plain
      simp only
      split
      next wrote =>
        split
        next created =>
          refine .inr ⟨_, ⟨rfl, rfl, ?_, fun _ => .inr (.inl ⟨_, plain.symm, wrote, created⟩)⟩, rfl⟩
          intro value is
          cases is
        next later =>
          exact .inl ⟨below.state - 1, .past plain.symm wrote (by simp [Origin.plain]; omega), rfl⟩
      next kept =>
        have keeps : wroteErased below.plain erased = false := Bool.eq_false_iff.mpr kept
        refine .inr ⟨_, ⟨rfl, rfl, ?_, ?_⟩, rfl⟩
        · intro value is
          refine ⟨is, ?_⟩
          intro origin held
          rw [← plain] at held
          cases held
          exact keeps
        · intro missing
          have gone : log.valueAt j key = none := missing
          rw [← plain, gone] at exists_
          cases exists_
    | none =>
      rw [origin, Option.map_none] at plain
      have gone : log.valueAt j key = none := by
        rw [← plain, Option.isSome_none, eq_comm, Option.isSome_eq_false_iff,
          Option.isNone_iff_eq_none] at exists_
        exact exists_
      simp only
      split
      next marked =>
        simp only [Bool.and_eq_true, decide_eq_true_eq] at marked
        cases j with
        | zero => exact absurd marked.1 (by omega)
        | succ j => exact .inl ⟨_, .stripped (by rw [state]; rfl) gone marked.2, rfl⟩
      next unmarked =>
        simp only [Bool.and_eq_true, decide_eq_true_eq] at unmarked
        refine .inr ⟨_, ⟨rfl, rfl, ?_, fun _ => .inr (.inr ⟨gone, unmarked⟩)⟩, rfl⟩
        intro value is
        rw [gone] at is
        cases is

variable (digest erased key) in
-- Each turn goes lower, so the walk ends.
theorem revertFrom_stops (subject : UserId) {turns j : Nat} (known : j ≤ log.edits.length)
    (enough : j < turns) :
    ∃ revert i, revertFrom (log.run digest subject erased) erased key (digest key) turns j =
      some (revert, i) ∧ Relation.ReflTransGen (Descends digest log erased key) j i ∧
      Stops digest log erased key i revert := by
  induction turns generalizing j with
  | zero => omega
  | succ turns ih =>
    rcases revertFrom_turn digest erased key subject turns known with
      ⟨i, step, goes⟩ | ⟨revert, stops, ends⟩
    next =>
      have lower := step.lower known
      obtain ⟨revert, last, found, walk, stops⟩ := ih (show i ≤ _ by omega) (by omega)
      exact ⟨revert, last, goes.trans found, .head step walk, stops⟩
    next => exact ⟨revert, j, ends, .refl, stops⟩

end Totality

end MemoryCloud.Provenance
