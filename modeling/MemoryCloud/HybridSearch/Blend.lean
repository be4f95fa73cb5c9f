import MemoryCloud.HybridSearch.Model
import MemoryCloud.Shared.StableSort

set_option autoImplicit false

/-!
# The blended ranking

Every id of the two arms gets one entry, with the weighted sum of its shares of the two arms. The
ranking is a stable sort of the ids by that sum.
-/

namespace MemoryCloud.HybridSearch

variable {I F P : Type} [DecidableEq I] [Field F] [LinearOrder F]

def ids (results : List (Hit I F P)) : List I := results.map Hit.id

def scale : List (Hit I F P) → F
  | [] => 1
  | first :: rest => if maxScore first rest = 0 then 1 else maxScore first rest

def scoreOf (results : List (Hit I F P)) (id : I) : Option F :=
  (results.find? fun result => result.id = id).map Hit.score

def share (results : List (Hit I F P)) (id : I) : F :=
  (scoreOf results id).getD 0 / scale results

def blended (semanticResults keywordResults : List (Hit I F P)) (semanticWeight keywordWeight : F)
    (id : I) : F :=
  share semanticResults id * semanticWeight + share keywordResults id * keywordWeight

def arrival (semanticResults keywordResults : List (Hit I F P)) : List I :=
  ids semanticResults ++ (ids keywordResults).filter fun id => id ∉ ids semanticResults

def ranking (order : List I) (score : I → F) : List I :=
  order.insertionSort fun first second => score second ≤ score first

section Scores

omit [Field F] [LinearOrder F] in
theorem scoreOf_eq_some {results : List (Hit I F P)} (distinct : (ids results).Nodup)
    {result : Hit I F P} (listed : result ∈ results) :
    scoreOf results result.id = some result.score := by
  rw [scoreOf, Option.map_eq_some_iff]
  cases found : results.find? fun other => other.id = result.id with
  | none =>
    have absent := List.find?_eq_none.mp found result listed
    simp at absent
  | some other =>
    have same : other.id = result.id := by simpa using List.find?_some found
    exact ⟨other, rfl, congrArg Hit.score
      (List.inj_on_of_nodup_map distinct (List.mem_of_find?_eq_some found) listed same)⟩

omit [Field F] [LinearOrder F] in
theorem scoreOf_eq_none {results : List (Hit I F P)} {id : I} :
    scoreOf results id = none ↔ id ∉ ids results := by
  rw [scoreOf, Option.map_eq_none_iff, List.find?_eq_none, ids, List.mem_map]
  simp

omit [DecidableEq I] in
theorem normalize_eq (results : List (Hit I F P)) :
    normalize results =
      results.map fun result => { result with score := result.score / scale results } := by
  cases results with
  | nil => rfl
  | cons first rest =>
    by_cases zero : maxScore first rest = 0
    next => simp [normalize, scale, zero]
    next => simp [normalize, scale, zero]

omit [DecidableEq I] in
theorem ids_normalize (results : List (Hit I F P)) : ids (normalize results) = ids results := by
  rw [normalize_eq, ids, ids, List.map_map]
  rfl

theorem scoreOf_normalize (results : List (Hit I F P)) (id : I) :
    (scoreOf (normalize results) id).getD 0 = share results id := by
  rw [normalize_eq, scoreOf, share, scoreOf, List.find?_map, Option.map_map]
  cases found : results.find? fun result => result.id = id with
  | none => simp [Function.comp_def, found]
  | some result => simp [Function.comp_def, found]

end Scores

section Merging

omit [Field F] [LinearOrder F] in
theorem setEntry_fresh {entry : MergedHit I F P} {merged : List (MergedHit I F P)}
    (fresh : entry.id ∉ merged.map MergedHit.id) : setEntry entry merged = merged ++ [entry] := by
  induction merged with
  | nil => rfl
  | cons first rest ih =>
    rw [List.map_cons, List.mem_cons, not_or] at fresh
    rw [setEntry, if_neg (Ne.symm fresh.1), ih fresh.2, List.cons_append]

structure Blends (semantic done : List (Hit I F P)) (semanticWeight keywordWeight : F)
    (merged : List (MergedHit I F P)) : Prop where
  keys : merged.map MergedHit.id =
    ids semantic ++ (ids done).filter fun id => id ∉ ids semantic
  semanticScore : ∀ entry ∈ merged, entry.semanticScore = (scoreOf semantic entry.id).getD 0
  keywordScore : ∀ entry ∈ merged, entry.keywordScore = (scoreOf done entry.id).getD 0
  hybridScore : ∀ entry ∈ merged, entry.hybridScore =
    entry.semanticScore * semanticWeight + entry.keywordScore * keywordWeight

variable {semantic done : List (Hit I F P)} {semanticWeight keywordWeight : F}

omit [Field F] [LinearOrder F] in
theorem scoreOf_append {done : List (Hit I F P)} {result : Hit I F P} {id : I} :
    scoreOf (done ++ [result]) id =
      ((scoreOf done id).orElse fun _ => if result.id = id then some result.score else none) := by
  rw [scoreOf, scoreOf, List.find?_append]
  cases found : done.find? fun result => result.id = id with
  | some other => simp
  | none =>
    by_cases same : result.id = id
    next => simp [same]
    next => simp [same]

omit [LinearOrder F] in
theorem semantic_blends (raw : I → Option F) (distinct : (ids semantic).Nodup) :
    Blends semantic [] semanticWeight keywordWeight
      (semantic.foldl (addSemantic raw semanticWeight) []) := by
  have run : ∀ (rest done : List (Hit I F P)) (merged : List (MergedHit I F P)),
      (ids (done ++ rest)).Nodup → Blends done [] semanticWeight keywordWeight merged →
      Blends (done ++ rest) [] semanticWeight keywordWeight
        (rest.foldl (addSemantic raw semanticWeight) merged) := by
    intro rest
    induction rest with
    | nil =>
      intro done merged _ blends
      rw [List.append_nil]
      exact blends
    | cons result rest ih =>
      intro done merged distinct blends
      have fresh : result.id ∉ ids done := by
        rw [ids, List.map_append, List.map_cons, List.nodup_append] at distinct
        exact fun before => distinct.2.2 _ before _ List.mem_cons_self rfl
      have keys := blends.keys
      rw [show ids ([] : List (Hit I F P)) = [] from rfl, List.filter_nil, List.append_nil] at keys
      rw [List.foldl_cons, addSemantic, setEntry_fresh (by rw [keys]; exact fresh)]
      rw [← List.singleton_append, ← List.append_assoc] at distinct ⊢
      refine ih (done ++ [result]) _ distinct ?_
      have older : ∀ entry ∈ merged, scoreOf (done ++ [result]) entry.id = scoreOf done entry.id := by
        intro entry listed
        have known : entry.id ∈ ids done := keys ▸ List.mem_map_of_mem listed
        have apart : result.id ≠ entry.id := fun same => fresh (same ▸ known)
        rw [scoreOf_append, if_neg apart]
        cases scoreOf done entry.id <;> rfl
      constructor
      next =>
        rw [List.map_append, keys, ids, ids, List.map_append]
        simp [ids, MergedHit.id]
      next =>
        intro entry listed
        rcases List.mem_append.mp listed with old | new
        next => rw [older entry old, blends.semanticScore entry old]
        next =>
          rw [List.mem_singleton.mp new, MergedHit.id, scoreOf_append, scoreOf_eq_none.mpr fresh,
            if_pos rfl]
          rfl
      next =>
        intro entry listed
        rcases List.mem_append.mp listed with old | new
        next => exact blends.keywordScore entry old
        next => rw [List.mem_singleton.mp new]; rfl
      next =>
        intro entry listed
        rcases List.mem_append.mp listed with old | new
        next => exact blends.hybridScore entry old
        next =>
          rw [List.mem_singleton.mp new]
          simp
  exact run semantic [] [] distinct ⟨rfl, by simp, by simp, by simp⟩

omit [LinearOrder F] in
theorem keyword_blends {merged : List (MergedHit I F P)}
    (blends : Blends semantic done semanticWeight keywordWeight merged) {result : Hit I F P}
    (fresh : result.id ∉ ids done) :
    Blends semantic (done ++ [result]) semanticWeight keywordWeight
      (addKeyword keywordWeight merged result) := by
  have mine : (scoreOf (done ++ [result]) result.id).getD 0 = result.score := by
    rw [scoreOf_append, scoreOf_eq_none.mpr fresh, if_pos rfl]
    rfl
  have others : ∀ id, id ≠ result.id → scoreOf (done ++ [result]) id = scoreOf done id := by
    intro id apart
    rw [scoreOf_append, if_neg (Ne.symm apart)]
    cases scoreOf done id <;> rfl
  unfold addKeyword
  split
  next present =>
    obtain ⟨entry, listed, same⟩ := List.any_eq_true.mp present
    rw [decide_eq_true_eq] at same
    have inArm : result.id ∈ ids semantic := by
      have key : result.id ∈ merged.map MergedHit.id := same ▸ List.mem_map_of_mem listed
      rw [blends.keys, List.mem_append, List.mem_filter] at key
      exact key.resolve_right fun other => fresh other.1
    constructor
    next =>
      have kept : (fun entry : MergedHit I F P => MergedHit.id (if entry.id = result.id then
          { entry with
            keywordScore := result.score
            hybridScore := entry.hybridScore + result.score * keywordWeight }
          else entry)) = MergedHit.id := by
        funext entry
        split <;> rfl
      have longer : ids (done ++ [result]) = ids done ++ [result.id] := by simp [ids]
      rw [List.map_map, Function.comp_def, kept, blends.keys, longer, List.filter_append]
      simp [inArm]
    next =>
      intro entry' listed'
      obtain ⟨old, before, rfl⟩ := List.mem_map.mp listed'
      split
      next => exact blends.semanticScore old before
      next => exact blends.semanticScore old before
    next =>
      intro entry' listed'
      obtain ⟨old, before, rfl⟩ := List.mem_map.mp listed'
      split
      next same => exact (same ▸ mine).symm
      next apart => rw [others _ apart, blends.keywordScore old before]
    next =>
      intro entry' listed'
      obtain ⟨old, before, rfl⟩ := List.mem_map.mp listed'
      split
      next same =>
        have missing : old.keywordScore = 0 := by
          rw [blends.keywordScore old before, same, scoreOf_eq_none.mpr fresh]
          rfl
        dsimp only
        rw [blends.hybridScore old before, missing, zero_mul, add_zero]
      next => exact blends.hybridScore old before
  next missing =>
    have absent : result.id ∉ merged.map MergedHit.id := by
      intro listed
      obtain ⟨entry, within, same⟩ := List.mem_map.mp listed
      exact missing (List.any_eq_true.mpr ⟨entry, within, decide_eq_true same⟩)
    have notInArm : result.id ∉ ids semantic := by
      rw [blends.keys] at absent
      exact fun listed => absent (List.mem_append_left _ listed)
    have older : ∀ entry ∈ merged, entry.id ≠ result.id :=
      fun entry listed same => absent (same ▸ List.mem_map_of_mem listed)
    rw [setEntry_fresh absent]
    constructor
    next =>
      have longer : ids (done ++ [result]) = ids done ++ [result.id] := by simp [ids]
      rw [List.map_append, blends.keys, longer, List.filter_append, List.append_assoc]
      simp [notInArm, MergedHit.id]
    next =>
      intro entry listed
      rcases List.mem_append.mp listed with old | new
      next => exact blends.semanticScore entry old
      next =>
        rw [List.mem_singleton.mp new, MergedHit.id, scoreOf_eq_none.mpr notInArm]
        rfl
    next =>
      intro entry listed
      rcases List.mem_append.mp listed with old | new
      next => rw [others _ (older entry old), blends.keywordScore entry old]
      next =>
        rw [List.mem_singleton.mp new]
        exact mine.symm
    next =>
      intro entry listed
      rcases List.mem_append.mp listed with old | new
      next => exact blends.hybridScore entry old
      next =>
        rw [List.mem_singleton.mp new]
        simp

omit [LinearOrder F] in
theorem merged_blends (raw : I → Option F) {keyword : List (Hit I F P)}
    (distinct : (ids semantic).Nodup) (distinct' : (ids keyword).Nodup) :
    Blends semantic keyword semanticWeight keywordWeight
      (keyword.foldl (addKeyword keywordWeight)
        (semantic.foldl (addSemantic raw semanticWeight) [])) := by
  have run : ∀ (rest done : List (Hit I F P)) (merged : List (MergedHit I F P)),
      (ids (done ++ rest)).Nodup → Blends semantic done semanticWeight keywordWeight merged →
      Blends semantic (done ++ rest) semanticWeight keywordWeight
        (rest.foldl (addKeyword keywordWeight) merged) := by
    intro rest
    induction rest with
    | nil =>
      intro done merged _ blends
      rw [List.append_nil]
      exact blends
    | cons result rest ih =>
      intro done merged distinct blends
      have fresh : result.id ∉ ids done := by
        rw [ids, List.map_append, List.map_cons, List.nodup_append] at distinct
        exact fun before => distinct.2.2 _ before _ List.mem_cons_self rfl
      rw [← List.singleton_append, ← List.append_assoc] at distinct ⊢
      exact ih (done ++ [result]) _ distinct (keyword_blends blends fresh)
  exact run keyword [] _ distinct' (semantic_blends raw distinct)

end Merging

section Ranking

variable {semantic keyword : List (Hit I F P)} {semanticWeight keywordWeight : F}

theorem normalized_blends (distinct : (ids semantic).Nodup) (distinct' : (ids keyword).Nodup) :
    Blends (normalize semantic) (normalize keyword) semanticWeight keywordWeight
      ((normalize keyword).foldl (addKeyword keywordWeight) ((normalize semantic).foldl
        (addSemantic (rawSemantic semantic) semanticWeight) [])) := by
  rw [← ids_normalize] at distinct distinct'
  exact merged_blends _ distinct distinct'

theorem hybrid_blended (distinct : (ids semantic).Nodup) (distinct' : (ids keyword).Nodup)
    {entry : MergedHit I F P}
    (listed : entry ∈ mergeResults semantic keyword semanticWeight keywordWeight) :
    entry.semanticScore = share semantic entry.id ∧ entry.keywordScore = share keyword entry.id ∧
      entry.hybridScore = blended semantic keyword semanticWeight keywordWeight entry.id := by
  rw [mergeResults, List.mem_insertionSort] at listed
  have blends : Blends (normalize semantic) (normalize keyword) semanticWeight keywordWeight _ :=
    normalized_blends distinct distinct'
  have one := blends.semanticScore entry listed
  have two := blends.keywordScore entry listed
  rw [scoreOf_normalize] at one two
  refine ⟨one, two, ?_⟩
  rw [blends.hybridScore entry listed, one, two, blended]

theorem ids_mergeResults (distinct : (ids semantic).Nodup) (distinct' : (ids keyword).Nodup) :
    (mergeResults semantic keyword semanticWeight keywordWeight).map MergedHit.id =
      ranking (arrival semantic keyword) (blended semantic keyword semanticWeight keywordWeight) := by
  have blends : Blends (normalize semantic) (normalize keyword) semanticWeight keywordWeight _ :=
    normalized_blends distinct distinct'
  have keys := blends.keys
  rw [ids_normalize, ids_normalize] at keys
  rw [mergeResults, ranking, arrival, ← keys]
  refine List.map_insertionSort _ _ _ _ fun first listed second listed' => ?_
  have inMerge := (List.mem_insertionSort fun first second : MergedHit I F P =>
    second.hybridScore ≤ first.hybridScore).mpr listed
  have inMerge' := (List.mem_insertionSort fun first second : MergedHit I F P =>
    second.hybridScore ≤ first.hybridScore).mpr listed'
  rw [(hybrid_blended distinct distinct' inMerge).2.2, (hybrid_blended distinct distinct' inMerge').2.2]

omit [Field F] [LinearOrder F] in
theorem mem_arrival {id : I} : id ∈ arrival semantic keyword ↔ id ∈ ids semantic ∨ id ∈ ids keyword := by
  rw [arrival, List.mem_append, List.mem_filter, decide_eq_true_eq]
  tauto

omit [Field F] [LinearOrder F] in
theorem arrival_nodup (distinct : (ids semantic).Nodup) (distinct' : (ids keyword).Nodup) :
    (arrival semantic keyword).Nodup := by
  refine List.nodup_append.mpr ⟨distinct, distinct'.filter _, fun first one second two => ?_⟩
  rw [List.mem_filter, decide_eq_true_eq] at two
  exact fun same => two.2 (same ▸ one)

end Ranking

end MemoryCloud.HybridSearch
