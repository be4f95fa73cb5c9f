import Mathlib.Algebra.Order.Field.Rat
import Mathlib.Data.Finset.Sort

set_option autoImplicit false

/-!
# Choosing the returned rows of an evaluation recall

`services/recall_selection.py` over exact rational numbers. The pseudo-random generator is a
parameter: what it is asked is whether `random()` lies below a number, and for a sample of indices.
-/

namespace MemoryCloud.RecallSelection

structure RecallSelectionConfig where
  seed : Int
  explorationFloor : ℚ
  candidatePoolK : Int
  deriving DecidableEq

structure SelectionPolicy where
  name : String
  version : Nat
  evaluationSeed : Int
  replayIdentity : String
  explorationFloor : ℚ
  uniformMixtureProbability : ℚ
  candidatePoolK : Int
  eligibleCount : Nat
  selectedCount : Nat
  minimumSelectionProbability : Option ℚ
  deriving DecidableEq

structure RecallSelectionPlan (Id : Type) where
  selectedIds : List Id
  selectionProbabilities : List (Id × ℚ)
  policy : SelectionPolicy
  deriving DecidableEq

inductive SelectionError
  | topKNotPositive
  | poolBelowTopK
  | floorOutOfRange
  | floorInfeasible (maximumFeasibleFloor : ℚ) (topK : Int) (eligibleCount : Nat)
  deriving DecidableEq

-- A seeded generator: `random() < p`, and `sample(range(n), count)`.
structure Rng where
  below : ℚ → Bool
  sample : Nat → Nat → List Nat
  sampled : ∀ n count, count ≤ n →
    (sample n count).Nodup ∧ (sample n count).length = count ∧ ∀ i ∈ sample n count, i < n

variable {Id : Type} [DecidableEq Id]

-- The band above the maximum feasible floor that the guard lets through.
def floorTolerance : ℚ := 1 / 10 ^ 12

def pickRanks (ranked : List Id) (chosen : List Nat) : List Id :=
  (ranked.zipIdx.filter fun entry => decide (entry.2 ∈ chosen)).map Prod.fst

def mixtureProbability (effectiveFloor : ℚ) (n selectedCount : Nat) : ℚ :=
  if 0 < effectiveFloor ∧ selectedCount < n then min 1 (effectiveFloor * n / selectedCount) else 0

def selectRows (rng : Rng) (ranked : List Id) (effectiveFloor : ℚ) (selectedCount : Nat) : List Id :=
  if 0 < effectiveFloor ∧ selectedCount < ranked.length then
    if rng.below (mixtureProbability effectiveFloor ranked.length selectedCount) then
      pickRanks ranked (rng.sample ranked.length selectedCount)
    else ranked.take selectedCount
  else ranked.take selectedCount

def selectionProbability (ranked : List Id) (effectiveFloor : ℚ) (selectedCount : Nat) (id : Id) : ℚ :=
  if ranked.length ≤ selectedCount then 1
  else if effectiveFloor = 0 then if id ∈ ranked.take selectedCount then 1 else 0
  else if id ∈ ranked.take selectedCount then
    1 - mixtureProbability effectiveFloor ranked.length selectedCount + effectiveFloor
  else effectiveFloor

def policyName (effectiveFloor : ℚ) (n selectedCount : Nat) : String :=
  if 0 < effectiveFloor ∧ selectedCount < n then "deterministic_uniform_mixture_v1"
  else "deterministic_top_k_v1"

def planWith (rng : Rng) (ranked : List Id) (config : RecallSelectionConfig) (effectiveFloor : ℚ)
    (selectedCount : Nat) : RecallSelectionPlan Id :=
  let probabilities := ranked.map fun id =>
    (id, selectionProbability ranked effectiveFloor selectedCount id)
  { selectedIds := selectRows rng ranked effectiveFloor selectedCount
    selectionProbabilities := probabilities
    policy :=
      { name := policyName effectiveFloor ranked.length selectedCount
        version := 1
        evaluationSeed := config.seed
        replayIdentity := "bootstrap-recall-v1:" ++ toString config.seed
        explorationFloor := effectiveFloor
        uniformMixtureProbability := mixtureProbability effectiveFloor ranked.length selectedCount
        candidatePoolK := config.candidatePoolK
        eligibleCount := ranked.length
        selectedCount := selectedCount
        minimumSelectionProbability := (probabilities.map Prod.snd).min? } }

-- `rng seed` is `random.Random(seed)`; `dict.fromkeys` keeps the first of equal ids.
def planRecallSelection (rng : Int → Rng) (eligibleIds : List Id) (topK : Int)
    (config : RecallSelectionConfig) : Except SelectionError (RecallSelectionPlan Id) :=
  if topK < 1 then .error .topKNotPositive
  else if config.candidatePoolK < topK then .error .poolBelowTopK
  else if ¬ (0 ≤ config.explorationFloor ∧ config.explorationFloor ≤ 1) then
    .error .floorOutOfRange
  else
    let ranked := eligibleIds.eraseDups
    let selectedCount := (min topK ranked.length).toNat
    if ranked.length = 0 ∨ selectedCount = 0 then
      .ok (planWith (rng config.seed) ranked config config.explorationFloor selectedCount)
    else
      let maximumFeasibleFloor : ℚ := selectedCount / ranked.length
      if config.explorationFloor > maximumFeasibleFloor + floorTolerance then
        .error (.floorInfeasible maximumFeasibleFloor topK ranked.length)
      else
        .ok (planWith (rng config.seed) ranked config
          (min config.explorationFloor maximumFeasibleFloor) selectedCount)

end MemoryCloud.RecallSelection
