import Mathlib.Data.List.Perm.Subperm
import Mathlib.Tactic.Linarith
import MemoryCloud.RecallSelection.Model
import MemoryCloud.Shared.Chances
import MemoryCloud.Shared.Distinct

set_option autoImplicit false

/-!
# The reported inclusion chances are true

The chance that a row is in the page, over the generator's draws, is the chance that the plan
reports for it. A draw is a uniform number and a uniform sample of ranks.
-/

namespace MemoryCloud.RecallSelection

open Chances Distinct

variable {Id : Type} [DecidableEq Id]

section Pages

variable {ranked : List Id} {chosen : List Nat} {count : Nat}

omit [DecidableEq Id] in
theorem pickRanks_sublist (ranked : List Id) (chosen : List Nat) :
    (pickRanks ranked chosen).Sublist ranked := by
  have kept := (List.filter_sublist (p := fun entry : Id × Nat => decide (entry.2 ∈ chosen))
    (l := ranked.zipIdx)).map Prod.fst
  rwa [List.zipIdx_map_fst] at kept

omit [DecidableEq Id] in
theorem pickRanks_length (distinct : chosen.Nodup) (known : ∀ i ∈ chosen, i < ranked.length) :
    (pickRanks ranked chosen).length = chosen.length := by
  have ranks : ((List.range ranked.length).filter fun i => decide (i ∈ chosen)).Perm chosen := by
    refine (List.perm_ext_iff_of_nodup (List.nodup_range.filter _) distinct).mpr fun i => ?_
    simp only [List.mem_filter, List.mem_range, decide_eq_true_eq]
    exact ⟨fun both => both.2, fun listed => ⟨known i listed, listed⟩⟩
  have indices : ranked.zipIdx.map Prod.snd = List.range ranked.length := by
    rw [List.zipIdx_map_snd, List.range_eq_range']
  rw [← ranks.length_eq, ← indices, List.filter_map, List.length_map, pickRanks, List.length_map]
  rfl

omit [DecidableEq Id] in
theorem mem_pickRanks (distinct : ranked.Nodup) {i : Nat} (inside : i < ranked.length) :
    ranked[i] ∈ pickRanks ranked chosen ↔ i ∈ chosen := by
  simp only [pickRanks, List.mem_map, List.mem_filter, decide_eq_true_eq, Prod.exists,
    List.mem_zipIdx_iff_getElem?]
  constructor
  next =>
    rintro ⟨id, j, ⟨found, listed⟩, rfl⟩
    obtain ⟨within, same⟩ := List.getElem?_eq_some_iff.mp found
    rwa [(distinct.getElem_inj_iff).mp same] at listed
  next => exact fun listed => ⟨_, i, ⟨List.getElem?_eq_getElem inside, listed⟩, rfl⟩

omit [DecidableEq Id] in
theorem mem_take (distinct : ranked.Nodup) {i : Nat} (inside : i < ranked.length) :
    ranked[i] ∈ ranked.take count ↔ i < count := by
  rw [List.mem_take_iff_getElem]
  constructor
  next =>
    rintro ⟨j, within, same⟩
    rw [(distinct.getElem_inj_iff).mp same] at within
    omega
  next => exact fun before => ⟨i, by omega, rfl⟩

theorem sum_take (distinct : ranked.Nodup) (fits : count ≤ ranked.length) (first other : ℚ) :
    (ranked.map fun id => if id ∈ ranked.take count then first else other).sum =
      count * first + (ranked.length - count) * other := by
  have inside : ∀ id ∈ ranked.take count,
      (if id ∈ ranked.take count then first else other) = first := fun id listed => if_pos listed
  have outside : ∀ id ∈ ranked.drop count,
      (if id ∈ ranked.take count then first else other) = other := by
    intro id listed
    refine if_neg fun taken => ?_
    rw [← List.take_append_drop count ranked] at distinct
    exact List.disjoint_of_nodup_append distinct taken listed
  conv_lhs => rw [← List.take_append_drop count ranked, List.map_append, List.sum_append]
  rw [List.take_append_drop, List.map_congr_left inside, List.map_congr_left outside,
    List.map_const', List.map_const', List.sum_replicate, List.sum_replicate, List.length_take,
    List.length_drop, Nat.min_eq_left fits, nsmul_eq_mul, nsmul_eq_mul, Nat.cast_sub fits]

omit [DecidableEq Id] in
theorem selectRows_page (rng : Rng) (ranked : List Id) (floor : ℚ) (fits : count ≤ ranked.length) :
    (selectRows rng ranked floor count).Sublist ranked ∧
      (selectRows rng ranked floor count).length = count := by
  have first : (ranked.take count).Sublist ranked ∧ (ranked.take count).length = count :=
    ⟨List.take_sublist _ _, by rw [List.length_take, Nat.min_eq_left fits]⟩
  unfold selectRows
  split
  next =>
    split
    next =>
      obtain ⟨distinct, size, known⟩ := rng.sampled ranked.length count fits
      exact ⟨pickRanks_sublist _ _, by rw [pickRanks_length distinct known, size]⟩
    next => exact first
  next => exact first

end Pages

section Chances

structure Feasible (floor : ℚ) (n count : Nat) : Prop where
  lower : 0 ≤ floor
  upper : floor ≤ 1
  fits : count ≤ n
  filled : 0 < n → 0 < count
  feasible : floor * n ≤ count

variable {floor : ℚ} {n count : Nat}

theorem Feasible.mixture (feasible : Feasible floor n count) (positive : 0 < floor) (partly : count < n) :
    mixtureProbability floor n count * count = floor * n ∧ 0 ≤ mixtureProbability floor n count ∧
      mixtureProbability floor n count ≤ 1 := by
  have page : (0 : ℚ) < count := by exact_mod_cast feasible.filled (by omega)
  have whole : floor * n / count ≤ 1 := (div_le_one page).mpr feasible.feasible
  have mass : 0 ≤ floor * n / count :=
    div_nonneg (mul_nonneg feasible.lower (Nat.cast_nonneg n)) page.le
  rw [mixtureProbability, if_pos ⟨positive, partly⟩, min_eq_right whole]
  exact ⟨div_mul_cancel₀ _ page.ne', mass, whole⟩

variable {ranked : List Id}

theorem selectionProbability_bounds (feasible : Feasible floor ranked.length count) (id : Id) :
    0 ≤ selectionProbability ranked floor count id ∧
      selectionProbability ranked floor count id ≤ 1 ∧
      floor ≤ selectionProbability ranked floor count id := by
  unfold selectionProbability
  split
  next => exact ⟨zero_le_one, le_rfl, feasible.upper⟩
  next short =>
    have partly : count < ranked.length := Nat.lt_of_not_le short
    split
    next unmixed =>
      split
      next => exact ⟨zero_le_one, le_rfl, feasible.upper⟩
      next => exact ⟨le_rfl, zero_le_one, unmixed.le⟩
    next other =>
      have positive : 0 < floor := lt_of_le_of_ne feasible.lower (Ne.symm other)
      obtain ⟨mass, _, whole⟩ := feasible.mixture positive partly
      split
      next =>
        have page : (0 : ℚ) < count := by exact_mod_cast feasible.filled (by omega)
        have larger : (count : ℚ) ≤ ranked.length := by exact_mod_cast partly.le
        -- The coin is thrown for at least the floor.
        have covers : floor ≤ mixtureProbability floor ranked.length count := by
          by_contra less
          nlinarith
        exact ⟨by linarith, by linarith, by linarith⟩
      next => exact ⟨feasible.lower, feasible.upper, le_rfl⟩

theorem selectionProbability_sum (distinct : ranked.Nodup)
    (feasible : Feasible floor ranked.length count) :
    (ranked.map (selectionProbability ranked floor count)).sum = count := by
  have split : ∀ first other : ℚ, (∀ id ∈ ranked, selectionProbability ranked floor count id =
      if id ∈ ranked.take count then first else other) →
        (ranked.map (selectionProbability ranked floor count)).sum =
          count * first + (ranked.length - count) * other := by
    intro first other same
    rw [List.map_congr_left same, sum_take distinct feasible.fits]
  by_cases whole : ranked.length ≤ count
  next =>
    have same : ranked.length = count := Nat.le_antisymm whole feasible.fits
    rw [split 1 1 fun id _ => by rw [selectionProbability, if_pos whole, ite_self], same]
    ring
  next =>
    by_cases unmixed : floor = 0
    next =>
      rw [split 1 0 fun id _ => by rw [selectionProbability, if_neg whole, if_pos unmixed]]
      ring
    next =>
      have positive : 0 < floor := lt_of_le_of_ne feasible.lower (Ne.symm unmixed)
      obtain ⟨mass, _⟩ := feasible.mixture positive (Nat.lt_of_not_le whole)
      rw [split _ _ fun id _ => by rw [selectionProbability, if_neg whole, if_neg unmixed]]
      linear_combination -mass

open scoped Classical in
noncomputable def drawn (u : ℝ) (chosen : Finset ℕ) : Rng where
  below p := decide (u < (p : ℝ))
  sample n count :=
    if chosen ∈ (Finset.range n).powersetCard count then chosen.sort (· ≤ ·) else List.range count
  sampled n count fits := by
    split
    next listed =>
      obtain ⟨inside, size⟩ := Finset.mem_powersetCard.mp listed
      refine ⟨Finset.sort_nodup _ _, by rw [Finset.length_sort, size], fun i sampled => ?_⟩
      exact Finset.mem_range.mp (inside ((Finset.mem_sort _).mp sampled))
    next =>
      refine ⟨List.nodup_range, List.length_range, fun i sampled => ?_⟩
      exact Nat.lt_of_lt_of_le (List.mem_range.mp sampled) fits

omit [DecidableEq Id] in
theorem mem_selectRows_drawn (distinct : ranked.Nodup) {i : Nat} (inside : i < ranked.length)
    (positive : 0 < floor) (partly : count < ranked.length) (u : ℝ) {chosen : Finset ℕ}
    (listed : chosen ∈ (Finset.range ranked.length).powersetCard count) :
    ranked[i] ∈ selectRows (drawn u chosen) ranked floor count ↔
      if u < (mixtureProbability floor ranked.length count : ℝ) then i ∈ chosen else i < count := by
  rw [selectRows, if_pos ⟨positive, partly⟩]
  simp only [drawn, if_pos listed, decide_eq_true_eq]
  split
  next => rw [mem_pickRanks distinct inside, Finset.mem_sort]
  next => rw [mem_take distinct inside]

theorem chance_selectRows (distinct : ranked.Nodup) (feasible : Feasible floor ranked.length count)
    {i : Nat} (inside : i < ranked.length) :
    chance ranked.length count
        (fun u chosen => ranked[i] ∈ selectRows (drawn u chosen) ranked floor count) =
      (selectionProbability ranked floor count ranked[i] : ℝ) := by
  have top : ranked[i] ∈ ranked.take count ↔ i < count := mem_take distinct inside
  by_cases mixed : 0 < floor ∧ count < ranked.length
  next =>
    obtain ⟨positive, partly⟩ := mixed
    obtain ⟨mass, lower, upper⟩ := feasible.mixture positive partly
    have page : (0 : ℝ) < ranked.length := by
      exact_mod_cast Nat.lt_of_le_of_lt (Nat.zero_le i) inside
    have massReal : (mixtureProbability floor ranked.length count : ℝ) * (count / ranked.length) =
        floor := by
      have cast : (mixtureProbability floor ranked.length count : ℝ) * count = floor * ranked.length := by
        exact_mod_cast mass
      rw [← mul_div_assoc, cast, mul_div_assoc, div_self page.ne', mul_one]
    rw [chance_congr fun u chosen listed =>
        mem_selectRows_drawn distinct inside positive partly u listed,
      chance_mixture (by exact_mod_cast lower) (by exact_mod_cast upper) feasible.fits inside, massReal,
      selectionProbability, if_neg (Nat.not_le.mpr partly), if_neg positive.ne']
    simp only [top]
    split
    next =>
      push_cast
      ring
    next => ring
  next =>
    have plain : ∀ rng : Rng, selectRows rng ranked floor count = ranked.take count :=
      fun rng => if_neg mixed
    simp only [plain, top, chance_fixed feasible.fits]
    by_cases whole : ranked.length ≤ count
    next => rw [selectionProbability, if_pos whole, if_pos (by omega), Rat.cast_one]
    next =>
      have zero : floor = 0 := by
        by_contra other
        exact mixed ⟨lt_of_le_of_ne feasible.lower (Ne.symm other), Nat.lt_of_not_le whole⟩
      rw [selectionProbability, if_neg whole, if_pos zero]
      simp only [top]
      split <;> simp

end Chances

section Plans

variable {eligibleIds : List Id} {topK : Int} {config : RecallSelectionConfig}

-- A plan that is made is one of a feasible floor, whatever the generator.
theorem planRecallSelection_feasible {rng : Int → Rng} {plan : RecallSelectionPlan Id}
    (planned : planRecallSelection rng eligibleIds topK config = .ok plan) :
    ∃ floor, Feasible floor eligibleIds.eraseDups.length
        (min topK eligibleIds.eraseDups.length).toNat ∧
      ∀ other : Int → Rng, planRecallSelection other eligibleIds topK config =
        .ok (planWith (other config.seed) eligibleIds.eraseDups config floor
          (min topK eligibleIds.eraseDups.length).toNat) := by
  unfold planRecallSelection at planned ⊢
  split at planned
  next => cases planned
  next positive =>
    split at planned
    next => cases planned
    next pool =>
      split at planned
      next => cases planned
      next range =>
        obtain ⟨lower, upper⟩ := not_not.mp range
        simp only [if_neg positive, if_neg pool, if_neg range] at planned ⊢
        generalize eligibleIds.eraseDups = ranked at planned ⊢
        have fits : (min topK ranked.length).toNat ≤ ranked.length := by omega
        have filled : 0 < ranked.length → 0 < (min topK ranked.length).toNat := by omega
        split at planned
        next empty =>
          have none : ranked.length = 0 := by omega
          refine ⟨config.explorationFloor, ⟨lower, upper, fits, filled, ?_⟩, fun _ => if_pos empty⟩
          simp [none]
        next listed =>
          simp only [if_neg listed]
          split at planned
          next => cases planned
          next feasible =>
            have page : (0 : ℚ) < ranked.length := by
              have present : 0 < ranked.length := by omega
              exact_mod_cast present
            refine ⟨min config.explorationFloor _, ⟨?_, ?_, fits, filled, ?_⟩, fun _ => if_neg feasible⟩
            · exact le_min lower (div_nonneg (Nat.cast_nonneg _) page.le)
            · exact (min_le_left _ _).trans upper
            · exact (le_div_iff₀ page).mp (min_le_right _ _)

noncomputable def inclusionChance (eligibleIds : List Id) (topK : Int)
    (config : RecallSelectionConfig) (id : Id) : ℝ :=
  chance eligibleIds.eraseDups.length (min topK eligibleIds.eraseDups.length).toNat fun u chosen =>
    ∃ plan, planRecallSelection (fun _ => drawn u chosen) eligibleIds topK config = .ok plan ∧
      id ∈ plan.selectedIds

theorem inclusion_probabilities_are_true {rng : Int → Rng} {plan : RecallSelectionPlan Id}
    (planned : planRecallSelection rng eligibleIds topK config = .ok plan) :
    plan.selectionProbabilities.map Prod.fst = eligibleIds.eraseDups ∧
      (∀ entry ∈ plan.selectionProbabilities,
        0 ≤ entry.2 ∧ entry.2 ≤ 1 ∧ plan.policy.explorationFloor ≤ entry.2 ∧
          inclusionChance eligibleIds topK config entry.1 = (entry.2 : ℝ)) ∧
      (plan.selectionProbabilities.map Prod.snd).sum = plan.selectedIds.length ∧
      plan.selectedIds.Sublist eligibleIds ∧
      (plan.selectedIds.length : Int) = min topK eligibleIds.eraseDups.length := by
  obtain ⟨floor, feasible, plans⟩ := planRecallSelection_feasible planned
  have positive : 0 < topK := by
    unfold planRecallSelection at planned
    split at planned
    next => cases planned
    next least => omega
  rw [plans rng, Except.ok.injEq] at planned
  subst planned
  obtain ⟨kept, size⟩ := selectRows_page (rng config.seed) eligibleIds.eraseDups floor feasible.fits
  refine ⟨?_, ?_, ?_, kept.trans (eraseDups_sublist eligibleIds), ?_⟩
  next => simp [planWith, Function.comp_def]
  next =>
    simp only [planWith, List.forall_mem_map]
    intro id listed
    obtain ⟨lower, upper, above⟩ := selectionProbability_bounds feasible id
    obtain ⟨i, inside, rfl⟩ := List.getElem_of_mem listed
    refine ⟨lower, upper, above, ?_⟩
    rw [inclusionChance, ← chance_selectRows (nodup_eraseDups eligibleIds) feasible inside]
    simp only [plans, Except.ok.injEq, exists_eq_left', planWith]
  next =>
    have sum := selectionProbability_sum (nodup_eraseDups eligibleIds) feasible
    simpa [planWith, Function.comp_def, size] using sum
  next =>
    change ((selectRows (rng config.seed) eligibleIds.eraseDups floor _).length : Int) = _
    rw [size, Int.toNat_of_nonneg (by omega)]

-- A generator whose first number is `1 / 2` and whose samples are the first ranks.
def firstRanks : Rng where
  below p := decide (1 / 2 < p)
  sample _ count := List.range count
  sampled _ _ fits :=
    ⟨List.nodup_range, List.length_range, fun _ sampled =>
      Nat.lt_of_lt_of_le (List.mem_range.mp sampled) fits⟩

theorem inclusion_probabilities_are_true_mixed :
    ∃ plan, planRecallSelection (fun _ => firstRanks) [3, 1, 3, 2] 2 ⟨7, 1 / 3, 2⟩ = .ok plan ∧
      plan.selectionProbabilities.map Prod.fst = [3, 1, 2] ∧
      (∀ entry ∈ plan.selectionProbabilities,
        inclusionChance [3, 1, 3, 2] 2 ⟨7, 1 / 3, 2⟩ entry.1 = (entry.2 : ℝ)) ∧
      plan.selectedIds.length = 2 := by
  have planned : planRecallSelection (fun _ => firstRanks) [3, 1, 3, 2] 2 ⟨7, 1 / 3, 2⟩ =
      .ok (planWith firstRanks [3, 1, 2] ⟨7, 1 / 3, 2⟩ (1 / 3) 2) := by decide +kernel
  obtain ⟨ids, chances, _, _, size⟩ := inclusion_probabilities_are_true planned
  refine ⟨_, planned, ids, fun entry listed => (chances entry listed).2.2.2, ?_⟩
  exact_mod_cast size

end Plans

end MemoryCloud.RecallSelection
