import Mathlib.Logic.Function.Basic
import Mathlib.Data.List.Basic

set_option autoImplicit false

/-!
# Runs of a step function

A step function answers `none` to an action that the state does not allow. A
run under a guard takes only steps that meet the guard. What holds at the
start and is kept by every guarded step holds in every state reached.
-/

namespace MemoryCloud.Runs

variable {S A : Type}

def run (step : S → A → Option S) : S → List A → Option S
  | state, [] => some state
  | state, action :: rest => (step state action).bind fun next => run step next rest

inductive Reaches (step : S → A → Option S) (guard : S → A → Prop) (start : S) : S → Prop
  | start : Reaches step guard start start
  | step {state next : S} {action : A} (reached : Reaches step guard start state)
      (allowed : guard state action) (taken : step state action = some next) :
      Reaches step guard start next

variable {step : S → A → Option S} {guard : S → A → Prop} {start : S}

theorem Reaches.invariant {state : S} (holds : S → Prop) (initial : holds start)
    (kept : ∀ before action after, holds before → guard before action →
      step before action = some after → holds after)
    (reached : Reaches step guard start state) : holds state := by
  induction reached with
  | start => exact initial
  | step _ allowed taken ih => exact kept _ _ _ ih allowed taken

def Allowed (step : S → A → Option S) (guard : S → A → Prop) : S → List A → Prop
  | _, [] => True
  | state, action :: rest =>
    guard state action ∧ ∀ next, step state action = some next → Allowed step guard next rest

theorem Reaches.append {state final : S} {actions : List A}
    (reached : Reaches step guard start state) (allowed : Allowed step guard state actions)
    (taken : run step state actions = some final) : Reaches step guard start final := by
  induction actions generalizing state with
  | nil =>
    cases taken
    exact reached
  | cons action rest ih =>
    simp only [run, Option.bind_eq_some_iff] at taken
    obtain ⟨next, one, others⟩ := taken
    exact ih (.step reached allowed.1 one) (allowed.2 next one) others

theorem Reaches.of_run {V : Type} {actions : List A} {value : V} (view : S → V)
    (allowed : Allowed step guard start actions)
    (seen : (run step start actions).map view = some value) :
    ∃ state, Reaches step guard start state ∧ view state = value := by
  obtain ⟨state, taken, same⟩ := Option.map_eq_some_iff.mp seen
  exact ⟨state, .append .start allowed taken, same⟩

-- A guard met by a check that evaluates: the checked run is a run under the guard.
def checked (step : S → A → Option S) (check : S → A → Bool) (state : S) (action : A) : Option S :=
  if check state action then step state action else none

theorem Reaches.of_checked {check : S → A → Bool} {state : S}
    (sound : ∀ state action, check state action = true → guard state action)
    (reached : Reaches (checked step check) (fun _ _ => True) start state) :
    Reaches step guard start state := by
  induction reached with
  | start => exact .start
  | step _ _ taken ih =>
    unfold checked at taken
    split at taken
    next passed => exact .step ih (sound _ _ passed) taken
    next => cases taken

theorem allowed_of_always (always : ∀ state action, guard state action) (state : S)
    (actions : List A) : Allowed step guard state actions := by
  induction actions generalizing state with
  | nil => trivial
  | cons action rest ih => exact ⟨always state action, fun next _ => ih next⟩

end MemoryCloud.Runs
