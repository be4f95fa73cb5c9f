import Mathlib.Algebra.Ring.Int.Defs
import Mathlib.Algebra.BigOperators.Group.List.Basic
import Mathlib.Algebra.Order.BigOperators.Group.List
import Mathlib.Data.List.MinMax

set_option autoImplicit false

/-!
# Holds on a counter

A counter that is raised first and read in the same step: an entry sees the
sum of all the entries that hold it. Entries that came before can only let go,
so what is still held up to an entry stays below what that entry saw.
-/

namespace MemoryCloud.Holds

variable {E : Type}

theorem sum_set {M : Type} [AddCommMonoid M] (value : E → M) {entries : List E} {index : Nat}
    {old : E} (new : E) (found : entries[index]? = some old) :
    ((entries.set index new).map value).sum + value old = (entries.map value).sum + value new := by
  induction entries generalizing index with
  | nil => cases found
  | cons entry rest ih =>
    cases index with
    | zero =>
      cases found
      simp only [List.set_cons_zero, List.map_cons, List.sum_cons]
      rw [add_right_comm, add_comm (value new), add_right_comm]
    | succ index =>
      simp only [List.set_cons_succ, List.map_cons, List.sum_cons, add_assoc]
      rw [ih found]

theorem sum_set_same (value : E → Int) {entries : List E} {index : Nat} {old new : E}
    (found : entries[index]? = some old) (same : value new = value old) :
    ((entries.set index new).map value).sum = (entries.map value).sum := by
  have moved := sum_set value new found
  rw [same] at moved
  exact add_right_cancel moved

section Order

variable (weight : E → Int) (stamp : E → Nat)

def upTo (last : Nat) (entry : E) : Int :=
  if stamp entry ≤ last then weight entry else 0

variable {weight stamp} {entries : List E}

theorem sum_upTo_le (held : ∀ entry ∈ entries, 0 ≤ weight entry) (last : Nat) :
    (entries.map (upTo weight stamp last)).sum ≤ (entries.map weight).sum := by
  refine List.sum_le_sum fun entry listed => ?_
  unfold upTo
  split
  next => exact Int.le_refl _
  next => exact held entry listed

theorem sum_chosen_le (stamp : E → Nat) (total : E → Int) {bound : Int} (chosen : E → Bool)
    (held : ∀ entry ∈ entries, 0 ≤ weight entry)
    (seen : ∀ entry ∈ entries, chosen entry = true →
      (entries.map (upTo weight stamp (stamp entry))).sum ≤ total entry)
    (bounded : ∀ entry ∈ entries, chosen entry = true → total entry ≤ bound)
    (nonneg : 0 ≤ bound) :
    (entries.map fun entry => if chosen entry then weight entry else 0).sum ≤ bound := by
  cases latest : (entries.filter chosen).argmax stamp with
  | none =>
    have nobody : entries.filter chosen = [] := List.argmax_eq_none.mp latest
    have zero : (entries.map fun entry => if chosen entry then weight entry else 0) =
        entries.map fun _ => 0 := by
      refine List.map_congr_left fun entry listed => if_neg fun yes => ?_
      have member : entry ∈ entries.filter chosen := List.mem_filter.mpr ⟨listed, yes⟩
      rw [nobody] at member
      cases member
    rw [zero]
    simpa using nonneg
  | some last =>
    obtain ⟨listed, yes⟩ := List.mem_filter.mp (List.argmax_mem latest)
    refine Int.le_trans (List.sum_le_sum fun entry inside => ?_)
      (Int.le_trans (seen last listed yes) (bounded last listed yes))
    unfold upTo
    split
    next picked =>
      have before : stamp entry ≤ stamp last :=
        List.le_of_mem_argmax (List.mem_filter.mpr ⟨inside, picked⟩) latest
      rw [if_pos before]
    next =>
      split
      next => exact held entry inside
      next => exact Int.le_refl _

end Order

end MemoryCloud.Holds
