import Mathlib.Algebra.Order.Field.Rat
import Mathlib.Tactic.NormNum
import MemoryCloud.HybridSearch.Raise

set_option autoImplicit false

/-!
# What a hybrid ranking keeps of its arms

The ranking respects both arms exactly when each of them fits what the other one gives.
-/

namespace MemoryCloud.HybridSearch

open StableSort

variable {I F P : Type} [DecidableEq I] [Field F] [LinearOrder F]

def rankedIds (semantic keyword : List (Hit I F P)) (semanticWeight keywordWeight : F) : List I :=
  (mergeResults semantic keyword semanticWeight keywordWeight).map MergedHit.id

structure Respects (semantic keyword : List (Hit I F P)) (semanticWeight keywordWeight : F) : Prop where
  distinct : (rankedIds semantic keyword semanticWeight keywordWeight).Nodup
  complete : ∀ id, id ∈ rankedIds semantic keyword semanticWeight keywordWeight ↔
    id ∈ ids semantic ∨ id ∈ ids keyword
  sorted : (mergeResults semantic keyword semanticWeight keywordWeight).Pairwise
    fun first second => second.hybridScore ≤ first.hybridScore
  bounded : ∀ entry ∈ mergeResults semantic keyword semanticWeight keywordWeight,
    entry.hybridScore ≤ semanticWeight + keywordWeight
  semanticOrder : ∀ low ∈ semantic, ∀ high ∈ semantic, low.score < high.score →
    ∀ lower ∈ mergeResults semantic keyword semanticWeight keywordWeight,
    ∀ higher ∈ mergeResults semantic keyword semanticWeight keywordWeight,
    lower.id = low.id → higher.id = high.id → lower.semanticScore ≤ higher.semanticScore
  keywordOrder : ∀ low ∈ keyword, ∀ high ∈ keyword, low.score < high.score →
    ∀ lower ∈ mergeResults semantic keyword semanticWeight keywordWeight,
    ∀ higher ∈ mergeResults semantic keyword semanticWeight keywordWeight,
    lower.id = low.id → higher.id = high.id → lower.keywordScore ≤ higher.keywordScore
  semanticRaise : ∀ raised ∈ semantic, ∀ score, raised.score < score → ∀ id, id ≠ raised.id →
    Before (rankedIds semantic keyword semanticWeight keywordWeight) raised.id id →
    Before (rankedIds (raise semantic raised.id score) keyword semanticWeight keywordWeight)
      raised.id id
  keywordRaise : ∀ raised ∈ keyword, ∀ score, raised.score < score → ∀ id, id ≠ raised.id →
    Before (rankedIds semantic keyword semanticWeight keywordWeight) raised.id id →
    Before (rankedIds semantic (raise keyword raised.id score) semanticWeight keywordWeight)
      raised.id id

def given (results : List (Hit I F P)) (weight : F) (id : I) : F := share results id * weight

section Ranked

variable {semantic keyword : List (Hit I F P)} {semanticWeight keywordWeight : F}

theorem ranking_keeps {results : List (Hit I F P)} {weight : F} {base : I → F} {order now : List I}
    (after : I → F → List I) (nodup : order.Nodup) (within : ∀ result ∈ results, result.id ∈ order)
    (ranked : now = ranking order (total results weight base))
    (reranked : ∀ raised ∈ results, ∀ score,
      after raised.id score = ranking order (total (raise results raised.id score) weight base)) :
    (∀ raised ∈ results, ∀ score, raised.score < score → ∀ id, id ≠ raised.id →
      Before now raised.id id → Before (after raised.id score) raised.id id) ↔
    Keeps results weight base order := by
  have step : ∀ raised ∈ results, ∀ score, ∀ id ∈ order, id ≠ raised.id →
      (Before now raised.id id ↔ Leads order (total results weight base) raised.id id) ∧
      (Before (after raised.id score) raised.id id ↔
        Leads order (total (raise results raised.id score) weight base) raised.id id) := by
    intro raised listed score id known apart
    have mine := within raised listed
    rw [ranked, reranked raised listed score]
    exact ⟨before_ranking nodup mine known (Ne.symm apart),
      before_ranking nodup mine known (Ne.symm apart)⟩
  constructor
  next =>
    intro respects raised listed score higher id known apart leads
    obtain ⟨before, later⟩ := step raised listed score id known apart
    exact later.mp (respects raised listed score higher id apart (before.mpr leads))
  next =>
    intro keeps raised listed score higher id apart leads
    have known : id ∈ order := by
      have there := leads.mem.2
      rw [ranked, ranking, List.mem_insertionSort] at there
      exact there
    obtain ⟨before, later⟩ := step raised listed score id known apart
    exact later.mpr (keeps raised listed score higher id known apart (before.mp leads))

omit [Field F] [LinearOrder F] in
theorem arrival_congr {semantic' keyword' : List (Hit I F P)} (same : ids semantic' = ids semantic)
    (same' : ids keyword' = ids keyword) : arrival semantic' keyword' = arrival semantic keyword := by
  rw [arrival, arrival, same, same']

theorem rankedIds_semantic (distinct : (ids semantic).Nodup) (distinct' : (ids keyword).Nodup) :
    rankedIds semantic keyword semanticWeight keywordWeight = ranking (arrival semantic keyword)
      (total semantic semanticWeight (given keyword keywordWeight)) :=
  ids_mergeResults distinct distinct'

theorem rankedIds_keyword (distinct : (ids semantic).Nodup) (distinct' : (ids keyword).Nodup) :
    rankedIds semantic keyword semanticWeight keywordWeight = ranking (arrival semantic keyword)
      (total keyword keywordWeight (given semantic semanticWeight)) := by
  rw [rankedIds_semantic distinct distinct']
  exact congrArg (ranking _) (funext fun id => add_comm _ _)

theorem semantic_keeps (distinct : (ids semantic).Nodup) (distinct' : (ids keyword).Nodup) :
    (∀ raised ∈ semantic, ∀ score, raised.score < score → ∀ id, id ≠ raised.id →
      Before (rankedIds semantic keyword semanticWeight keywordWeight) raised.id id →
      Before (rankedIds (raise semantic raised.id score) keyword semanticWeight keywordWeight)
        raised.id id) ↔
    Keeps semantic semanticWeight (given keyword keywordWeight) (arrival semantic keyword) := by
  refine ranking_keeps (fun id score => rankedIds (raise semantic id score) keyword _ _)
    (arrival_nodup distinct distinct')
    (fun result listed => mem_arrival.mpr (Or.inl (List.mem_map_of_mem listed)))
    (rankedIds_semantic distinct distinct') fun raised _ score => ?_
  have distinctRaised : (ids (raise semantic raised.id score)).Nodup := by
    rw [ids_raise]
    exact distinct
  rw [rankedIds_semantic distinctRaised distinct', arrival_congr (ids_raise _ _) rfl]

theorem keyword_keeps (distinct : (ids semantic).Nodup) (distinct' : (ids keyword).Nodup) :
    (∀ raised ∈ keyword, ∀ score, raised.score < score → ∀ id, id ≠ raised.id →
      Before (rankedIds semantic keyword semanticWeight keywordWeight) raised.id id →
      Before (rankedIds semantic (raise keyword raised.id score) semanticWeight keywordWeight)
        raised.id id) ↔
    Keeps keyword keywordWeight (given semantic semanticWeight) (arrival semantic keyword) := by
  refine ranking_keeps (fun id score => rankedIds semantic (raise keyword id score) _ _)
    (arrival_nodup distinct distinct')
    (fun result listed => mem_arrival.mpr (Or.inr (List.mem_map_of_mem listed)))
    (rankedIds_keyword distinct distinct') fun raised _ score => ?_
  have distinctRaised : (ids (raise keyword raised.id score)).Nodup := by
    rw [ids_raise]
    exact distinct'
  rw [rankedIds_keyword distinct distinctRaised, arrival_congr rfl (ids_raise _ _)]

variable (semanticWeight keywordWeight) in
theorem exists_entry (distinct : (ids semantic).Nodup) (distinct' : (ids keyword).Nodup) {id : I}
    (known : id ∈ ids semantic ∨ id ∈ ids keyword) :
    ∃ entry ∈ mergeResults semantic keyword semanticWeight keywordWeight, entry.id = id := by
  have listed : id ∈ rankedIds semantic keyword semanticWeight keywordWeight := by
    rw [rankedIds_semantic distinct distinct', ranking, List.mem_insertionSort]
    exact mem_arrival.mpr known
  exact List.mem_map.mp listed

theorem ordered_entries {results : List (Hit I F P)} {entries : List (MergedHit I F P)}
    {scoreIn : MergedHit I F P → F} (shares : ∀ entry ∈ entries, scoreIn entry = share results entry.id)
    (there : ∀ result ∈ results, ∃ entry ∈ entries, entry.id = result.id) :
    (∀ low ∈ results, ∀ high ∈ results, low.score < high.score → ∀ lower ∈ entries,
      ∀ higher ∈ entries, lower.id = low.id → higher.id = high.id →
      scoreIn lower ≤ scoreIn higher) ↔ Ordered results := by
  constructor
  next =>
    intro kept low listed high listed' less
    obtain ⟨lower, within, same⟩ := there low listed
    obtain ⟨higher, within', same'⟩ := there high listed'
    have scores := kept low listed high listed' less lower within higher within' same same'
    rw [shares lower within, shares higher within', same, same'] at scores
    exact scores
  next =>
    intro ordered low listed high listed' less lower within higher within' same same'
    rw [shares lower within, shares higher within', same, same']
    exact ordered low listed high listed' less

theorem merged_sorted : (mergeResults semantic keyword semanticWeight keywordWeight).Pairwise
    fun first second => second.hybridScore ≤ first.hybridScore := by
  have total : Std.Total fun first second : MergedHit I F P => second.hybridScore ≤ first.hybridScore :=
    ⟨fun first second => le_total _ _⟩
  have trans : IsTrans (MergedHit I F P) fun first second => second.hybridScore ≤ first.hybridScore :=
    ⟨fun _ _ _ one two => two.trans one⟩
  exact List.pairwise_insertionSort _ _

end Ranked

-- The ranking respects both arms exactly when each arm fits what the other gives.
theorem respects_iff [IsStrictOrderedRing F] {semantic keyword : List (Hit I F P)}
    {semanticWeight keywordWeight : F} (distinct : (ids semantic).Nodup)
    (distinct' : (ids keyword).Nodup) (positive : 0 ≤ semanticWeight) (positive' : 0 ≤ keywordWeight) :
    Respects semantic keyword semanticWeight keywordWeight ↔
      ArmFits semantic semanticWeight (given keyword keywordWeight) (arrival semantic keyword) ∧
        ArmFits keyword keywordWeight (given semantic semanticWeight) (arrival semantic keyword) := by
  rw [← arm_fits_iff distinct positive fun id known => mem_arrival.mpr (.inl known),
    ← arm_fits_iff distinct' positive' fun id known => mem_arrival.mpr (.inr known)]
  have orders := ordered_entries (fun entry listed => (hybrid_blended distinct distinct' listed).1)
    fun result listed => exists_entry semanticWeight keywordWeight distinct distinct'
      (.inl (List.mem_map_of_mem listed))
  have orders' := ordered_entries (fun entry listed => (hybrid_blended distinct distinct' listed).2.1)
    fun result listed => exists_entry semanticWeight keywordWeight distinct distinct'
      (.inr (List.mem_map_of_mem listed))
  constructor
  next =>
    intro respects
    exact ⟨⟨orders.mp respects.semanticOrder,
        (semantic_keeps distinct distinct').mp respects.semanticRaise⟩,
      orders'.mp respects.keywordOrder, (keyword_keeps distinct distinct').mp respects.keywordRaise⟩
  next =>
    rintro ⟨⟨ordered, keeps⟩, ordered', keeps'⟩
    refine ⟨?_, ?_, merged_sorted, ?_, orders.mpr ordered, orders'.mpr ordered',
      (semantic_keeps distinct distinct').mpr keeps, (keyword_keeps distinct distinct').mpr keeps'⟩
    next =>
      rw [rankedIds_semantic distinct distinct', ranking]
      exact (List.perm_insertionSort _ _).nodup_iff.mpr (arrival_nodup distinct distinct')
    next =>
      intro id
      rw [rankedIds_semantic distinct distinct', ranking, List.mem_insertionSort, mem_arrival]
    next =>
      intro entry listed
      obtain ⟨_, _, is⟩ := hybrid_blended distinct distinct' listed
      rw [is, blended]
      exact add_le_add (mul_le_of_le_one_left positive (ordered.share_le distinct entry.id))
        (mul_le_of_le_one_left positive' (ordered'.share_le distinct' entry.id))

section Examples

def hit (id : Nat) (score : ℚ) : Hit Nat ℚ Unit := ⟨id, score, ()⟩

theorem respects_iff_twoArms :
    Respects [hit 1 (9 / 10), hit 2 (1 / 2)] [hit 2 8] (3 / 5 : ℚ) (2 / 5) := by
  refine (respects_iff (by decide) (by decide) (by norm_num) (by norm_num)).mpr ⟨?_, ?_⟩
  next =>
    rw [ArmFits, if_neg (by simp [hit])]
    norm_num [hit]
  next =>
    rw [ArmFits, if_neg (by simp [hit])]
    simp [hit]

-- Two negative cosines: the lower one gets the higher score, past both weights.
theorem negative_arm_turns_round :
    (mergeResults [hit 1 (-1 / 10), hit 2 (-1 / 2)] [] (3 / 5 : ℚ) (2 / 5)).map
        (fun entry => (entry.id, entry.semanticScore, entry.hybridScore)) =
      [(2, 5, 3), (1, 1, 3 / 5)] ∧
    ¬ Respects [hit 1 (-1 / 10), hit 2 (-1 / 2)] [] (3 / 5 : ℚ) (2 / 5) := by
  have ranked : mergeResults [hit 1 (-1 / 10), hit 2 (-1 / 2)] [] (3 / 5 : ℚ) (2 / 5) =
      [⟨hit 2 5, 5, 0, 3, some (-1 / 2)⟩, ⟨hit 1 1, 1, 0, 3 / 5, some (-1 / 10)⟩] := by
    decide +kernel
  constructor
  next => rw [ranked]; rfl
  next =>
    intro respects
    have bound := respects.bounded _ (ranked ▸ List.mem_cons_self)
    norm_num at bound

end Examples

end MemoryCloud.HybridSearch
