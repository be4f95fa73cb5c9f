import Mathlib.Data.Finset.Powerset
import Mathlib.MeasureTheory.Measure.Lebesgue.Basic
import Mathlib.MeasureTheory.Measure.Real

set_option autoImplicit false

/-!
# Chances over a uniform number and a uniform subset

A draw is a real number of the unit interval and, independently of it, a subset of the first `n`
ranks of one size. A coin that the number decides mixes an event of the subset with a fixed one.
-/

namespace MemoryCloud.Chances

open MeasureTheory

noncomputable def unitDraw : Measure ℝ := volume.restrict (Set.Ico 0 1)

noncomputable def chance (n count : ℕ) (event : ℝ → Finset ℕ → Prop) : ℝ :=
  (∑ chosen ∈ (Finset.range n).powersetCard count, unitDraw.real {u | event u chosen}) /
    ((Finset.range n).powersetCard count).card

section Unit

variable {p : ℝ} (lower : 0 ≤ p) (upper : p ≤ 1)

theorem unitDraw_univ : unitDraw.real Set.univ = 1 := by
  rw [unitDraw, measureReal_restrict_apply MeasurableSet.univ, Set.univ_inter,
    Real.volume_real_Ico_of_le zero_le_one, sub_zero]

include lower upper

theorem unitDraw_below : unitDraw.real {u | u < p} = p := by
  have cut : Set.Iio p ∩ Set.Ico 0 1 = Set.Ico 0 p := by
    ext u
    simp only [Set.mem_inter_iff, Set.mem_Iio, Set.mem_Ico]
    constructor
    next => exact fun both => ⟨both.2.1, both.1⟩
    next => exact fun both => ⟨both.2, both.1, both.2.trans_le upper⟩
  change unitDraw.real (Set.Iio p) = p
  rw [unitDraw, measureReal_restrict_apply measurableSet_Iio, cut, Real.volume_real_Ico_of_le lower,
    sub_zero]

theorem unitDraw_above : unitDraw.real {u | ¬ u < p} = 1 - p := by
  have cut : Set.Ici p ∩ Set.Ico 0 1 = Set.Ico p 1 := by
    ext u
    simp only [Set.mem_inter_iff, Set.mem_Ici, Set.mem_Ico]
    constructor
    next => exact fun both => ⟨both.1, both.2.2⟩
    next => exact fun both => ⟨both.1, lower.trans both.1, both.2⟩
  have same : {u : ℝ | ¬ u < p} = Set.Ici p := by
    ext u
    exact not_lt
  rw [same, unitDraw, measureReal_restrict_apply measurableSet_Ici, cut,
    Real.volume_real_Ico_of_le upper]

theorem unitDraw_coin (heads tails : Prop) [Decidable heads] [Decidable tails] :
    unitDraw.real {u | if u < p then heads else tails} =
      p * (if heads then 1 else 0) + (1 - p) * (if tails then 1 else 0) := by
  by_cases first : heads
  next =>
    by_cases second : tails
    next => simp [first, second, unitDraw_univ]
    next => simp [first, second, unitDraw_below lower upper]
  next =>
    by_cases second : tails
    next =>
      have above := unitDraw_above lower upper
      simpa [first, second] using above
    next => simp [first, second, measureReal_def]

end Unit

section Subsets

variable {n count i : ℕ}

theorem card_subsets_with (fits : count ≤ n) (listed : i < n) :
    (((Finset.range n).powersetCard count).filter fun chosen => i ∈ chosen).card * n =
      count * ((Finset.range n).powersetCard count).card := by
  cases count with
  | zero =>
    have none : (((Finset.range n).powersetCard 0).filter fun chosen => i ∈ chosen) = ∅ := by
      simp [Finset.filter_singleton]
    rw [none, Finset.card_empty, Nat.zero_mul, Nat.zero_mul]
  | succ count =>
    obtain ⟨below, rfl⟩ : ∃ below, n = below + 1 := ⟨n - 1, by omega⟩
    have single := Finset.card_filter_powersetCard_subset {i} (Finset.range (below + 1)) (count + 1)
      (by simpa using listed) (by simp)
    simp only [Finset.singleton_subset_iff, Finset.card_range, Finset.card_singleton,
      Nat.add_sub_cancel] at single
    rw [single, Finset.card_powersetCard, Finset.card_range, Nat.mul_comm,
      Nat.add_one_mul_choose_eq, Nat.mul_comm]

theorem subsets_card_pos (fits : count ≤ n) :
    (0 : ℝ) < ((Finset.range n).powersetCard count).card := by
  have some_ : ((Finset.range n).powersetCard count).Nonempty :=
    Finset.powersetCard_nonempty.mpr (by rwa [Finset.card_range])
  exact_mod_cast Finset.card_pos.mpr some_

theorem chance_congr {event other : ℝ → Finset ℕ → Prop}
    (same : ∀ u, ∀ chosen ∈ (Finset.range n).powersetCard count, event u chosen ↔ other u chosen) :
    chance n count event = chance n count other := by
  rw [chance, chance, Finset.sum_congr rfl fun chosen listed => ?_]
  simp only [same _ chosen listed]

theorem chance_fixed (fits : count ≤ n) (fixed : Prop) [Decidable fixed] :
    chance n count (fun _ _ => fixed) = if fixed then 1 else 0 := by
  have positive := subsets_card_pos fits
  by_cases holds : fixed
  next =>
    simp only [chance, holds, if_true, Set.ofPred_true, unitDraw_univ, Finset.sum_const, nsmul_eq_mul,
      mul_one]
    exact div_self positive.ne'
  next => simp [chance, holds, measureReal_def]

-- The chance that a coin of bias `p` takes the subset and `i` is in it, or leaves it and the other
-- event holds.
theorem chance_mixture {p : ℝ} (lower : 0 ≤ p) (upper : p ≤ 1) (fits : count ≤ n) (listed : i < n)
    (other : Prop) [Decidable other] :
    chance n count (fun u chosen => if u < p then i ∈ chosen else other) =
      p * (count / n) + (1 - p) * (if other then 1 else 0) := by
  have positive := subsets_card_pos fits
  have nonzero : (0 : ℝ) < n := by exact_mod_cast Nat.lt_of_le_of_lt (Nat.zero_le i) listed
  have counted : ((((Finset.range n).powersetCard count).filter fun chosen => i ∈ chosen).card : ℝ) *
      n = count * ((Finset.range n).powersetCard count).card := by
    exact_mod_cast card_subsets_with fits listed
  simp only [chance, unitDraw_coin lower upper]
  rw [Finset.sum_add_distrib, ← Finset.mul_sum, Finset.sum_boole, Finset.sum_const, nsmul_eq_mul]
  field_simp
  linear_combination p * counted

end Subsets

end MemoryCloud.Chances
