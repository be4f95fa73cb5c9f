import MemoryCloud.Edges.Hebbian

set_option autoImplicit false

/-!
# One entry of a Hebbian pass

What an entry of `apply_updates` can do to the edge table and to the co-activation records, what
it leaves alone, and the order in which a pass comes to the two directions of a pair.
-/

namespace MemoryCloud.Edges

variable {W : Type}

section Records

variable (records : Records W) (srcId dstId : MemoryId) (weight : W)

theorem record_swap : record records dstId srcId = record records srcId dstId := by
  unfold record
  rcases Nat.lt_trichotomy srcId dstId with before | rfl | after
  next => simp [before, Nat.lt_asymm before]
  next => rfl
  next => simp [after, Nat.lt_asymm after]

theorem setPending_swap :
    setPending records dstId srcId weight = setPending records srcId dstId weight := by
  unfold setPending
  rcases Nat.lt_trichotomy srcId dstId with before | rfl | after
  next => simp [before, Nat.lt_asymm before]
  next => rfl
  next => simp [after, Nat.lt_asymm after]

theorem record_setPending : record (setPending records srcId dstId weight) srcId dstId =
    (record records srcId dstId).map fun _ => weight := by
  unfold record setPending
  by_cases after : dstId < srcId
  next => simp [after]
  next => simp [after]

theorem record_setPending_other {key : MemoryId × MemoryId} (other : (srcId, dstId) ≠ key)
    (reverse : (srcId, dstId) ≠ key.swap) :
    record (setPending records srcId dstId weight) key.1 key.2 = record records key.1 key.2 := by
  obtain ⟨first, second⟩ := key
  simp only [ne_eq, Prod.mk.injEq, Prod.swap_prod_mk] at other reverse
  unfold record setPending
  have different : ∀ low high, (low, high) = (if dstId < srcId then (dstId, srcId) else (srcId, dstId)) →
      (low, high) = (first, second) ∨ (low, high) = (second, first) → False := by
    intro low high written same
    split at written <;> simp only [Prod.mk.injEq] at written same <;> grind
  dsimp only
  split
  next =>
    rw [if_neg]
    exact fun written => different _ _ written (Or.inr rfl)
  next =>
    rw [if_neg]
    exact fun written => different _ _ written (Or.inl rfl)

end Records

section Deltas

variable [Zero W] [One W] [Add W] [Neg W] [Mul W] [Div W] [LT W] [DecidableLT W]

def clippedDelta (config : NeuralMemoryConfig W) (updates : List (HebbianUpdate W))
    (key : MemoryId × MemoryId) : Option W :=
  ((passDeltas config updates).find? fun entry => entry.1 = key).map Prod.snd

omit [One W] [Neg W] [Mul W] [Div W] [LT W] [DecidableLT W] in
theorem mem_addDelta_keys {key other : MemoryId × MemoryId} {delta : W}
    {deltas : List ((MemoryId × MemoryId) × W)} :
    other ∈ (addDelta key delta deltas).map Prod.fst ↔
      other = key ∨ other ∈ deltas.map Prod.fst := by
  induction deltas with
  | nil => simp [addDelta]
  | cons entry rest ih =>
    obtain ⟨first, total⟩ := entry
    unfold addDelta
    split
    next same => simp [same]
    next =>
      simp only [List.map_cons, List.mem_cons, ih]
      tauto

omit [One W] [Neg W] [Mul W] [Div W] [LT W] [DecidableLT W] in
theorem addDelta_nodup {key : MemoryId × MemoryId} {delta : W}
    {deltas : List ((MemoryId × MemoryId) × W)} (unique : (deltas.map Prod.fst).Nodup) :
    ((addDelta key delta deltas).map Prod.fst).Nodup := by
  induction deltas with
  | nil => simp [addDelta]
  | cons entry rest ih =>
    obtain ⟨first, total⟩ := entry
    simp only [List.map_cons, List.nodup_cons] at unique
    unfold addDelta
    split
    next => simpa using unique
    next different =>
      simp only [List.map_cons, List.nodup_cons, mem_addDelta_keys, not_or]
      exact ⟨⟨different, unique.1⟩, ih unique.2⟩

omit [One W] [Neg W] [Mul W] [Div W] [LT W] [DecidableLT W] in
theorem edgeDeltas_nodup (updates : List (HebbianUpdate W)) :
    ((edgeDeltas updates).map Prod.fst).Nodup := by
  have unique : ∀ (deltas : List ((MemoryId × MemoryId) × W)), (deltas.map Prod.fst).Nodup →
      ((updates.foldl (fun deltas update =>
        addDelta (update.srcId, update.dstId) update.deltaWeight deltas) deltas).map
          Prod.fst).Nodup := by
    induction updates with
    | nil => exact fun _ unique => unique
    | cons update rest ih => exact fun deltas unique => ih _ (addDelta_nodup unique)
  exact unique [] .nil

omit [Zero W] [One W] [Add W] [Neg W] [Mul W] [Div W] [LT W] [DecidableLT W] in
theorem keyBefore_total (first second : (MemoryId × MemoryId) × W) :
    keyBefore first second ∨ keyBefore second first := by
  unfold keyBefore
  grind

omit [Zero W] [One W] [Add W] [Neg W] [Mul W] [Div W] [LT W] [DecidableLT W] in
theorem keyBefore_trans {first second third : (MemoryId × MemoryId) × W}
    (one : keyBefore first second) (two : keyBefore second third) : keyBefore first third := by
  unfold keyBefore at *
  grind

omit [One W] in
theorem passDeltas_nodup (config : NeuralMemoryConfig W) (updates : List (HebbianUpdate W)) :
    ((passDeltas config updates).map Prod.fst).Nodup := by
  unfold passDeltas
  dsimp only
  rw [((List.perm_insertionSort _ _).map _).nodup_iff]
  split
  next =>
    have sameKeys : (clipGradients config (edgeDeltas updates)).map Prod.fst =
        (edgeDeltas updates).map Prod.fst := by
      unfold clipGradients
      rw [List.map_map]
      refine List.map_congr_left fun entry _ => ?_
      dsimp only [Function.comp_apply]
      split <;> rfl
    rw [sameKeys]
    exact edgeDeltas_nodup updates
  next => exact edgeDeltas_nodup updates

omit [One W] in
theorem passDeltas_sorted (config : NeuralMemoryConfig W) (updates : List (HebbianUpdate W)) :
    (passDeltas config updates).Pairwise keyBefore := by
  have : Std.Total (keyBefore (W := W)) := ⟨keyBefore_total⟩
  have : IsTrans _ (keyBefore (W := W)) := ⟨fun _ _ _ => keyBefore_trans⟩
  exact List.pairwise_insertionSort _ _

omit [Zero W] [One W] [Add W] [Neg W] [Mul W] [Div W] [LT W] [DecidableLT W] in
theorem split_at_key (key : MemoryId × MemoryId) (entries : List ((MemoryId × MemoryId) × W))
    (unique : (entries.map Prod.fst).Nodup) :
    ∃ before after, entries =
        before ++ (entries.find? fun entry => entry.1 = key).toList ++ after ∧
      (∀ entry ∈ before, entry.1 ≠ key) ∧ ∀ entry ∈ after, entry.1 ≠ key := by
  cases found : entries.find? fun entry => entry.1 = key with
  | none =>
    refine ⟨entries, [], by simp, fun entry listed same => ?_, by simp⟩
    exact List.find?_eq_none.mp found entry listed (by simpa using same)
  | some entry =>
    obtain ⟨same, before, after, rfl, earlier⟩ := List.find?_eq_some_iff_append.mp found
    refine ⟨before, after, by simp, fun other listed => by simpa using earlier other listed, ?_⟩
    intro other listed again
    rw [List.map_append, List.map_cons, List.nodup_append] at unique
    refine (List.nodup_cons.mp unique.2.1).1 ?_
    rw [show entry.1 = other.1 from (by simpa using same : entry.1 = key).trans again.symm]
    exact List.mem_map_of_mem listed

omit [One W] in
-- Of the two directions of a pair the one with the smaller source comes first.
theorem passDeltas_split (config : NeuralMemoryConfig W) (updates : List (HebbianUpdate W))
    {first : MemoryId × MemoryId} (ordered : first.1 < first.2) :
    ∃ before between after, passDeltas config updates =
        before ++ ((passDeltas config updates).find? fun entry => entry.1 = first).toList ++
          between ++ ((passDeltas config updates).find? fun entry => entry.1 = first.swap).toList ++
            after ∧
      ∀ entry ∈ before ++ between ++ after, entry.1 ≠ first ∧ entry.1 ≠ first.swap := by
  have unique := passDeltas_nodup config updates
  have sorted := passDeltas_sorted config updates
  generalize passDeltas config updates = entries at unique sorted ⊢
  obtain ⟨before, after, split, earlier, later⟩ := split_at_key first entries unique
  cases found : entries.find? fun entry => entry.1 = first with
  | none =>
    obtain ⟨before, after, split, earlier, later⟩ := split_at_key first.swap entries unique
    refine ⟨[], before, after, by simpa using split, fun entry listed => ?_⟩
    have missing : ∀ entry ∈ entries, entry.1 ≠ first := fun entry listed same =>
      List.find?_eq_none.mp found entry listed (by simpa using same)
    rw [List.nil_append, List.mem_append] at listed
    rcases listed with early | late
    next => exact ⟨missing entry (by rw [split]; simp [early]), earlier entry early⟩
    next => exact ⟨missing entry (by rw [split]; simp [late]), later entry late⟩
  | some own =>
    have same : own.1 = first := by simpa using List.find?_some found
    rw [found, Option.toList_some] at split
    have swapLater : ∀ entry ∈ before, entry.1 ≠ first.swap := by
      intro entry listed reverse
      rw [split, List.append_assoc, List.pairwise_append] at sorted
      have order := sorted.2.2 entry listed own (by simp)
      rw [keyBefore, reverse, same, Prod.fst_swap, Prod.snd_swap] at order
      grind
    have rest : (entries.find? fun entry => entry.1 = first.swap) =
        after.find? fun entry => entry.1 = first.swap := by
      have none : (before ++ [own]).find? (fun entry => decide (entry.1 = first.swap)) = none := by
        refine List.find?_eq_none.mpr fun entry listed => ?_
        rw [decide_eq_true_eq]
        rcases List.mem_append.mp listed with early | own
        next => exact swapLater entry early
        next =>
          rw [List.mem_singleton.mp own, same]
          intro equal
          have equal := congrArg Prod.fst equal
          rw [Prod.fst_swap] at equal
          exact absurd ordered (by rw [equal]; exact Nat.lt_irrefl _)
      rw [split, List.find?_append, none, Option.none_or]
    have uniqueAfter : (after.map Prod.fst).Nodup := by
      rw [split, List.map_append, List.nodup_append] at unique
      exact unique.2.1
    obtain ⟨between, final, splitAfter, earlierSwap, laterSwap⟩ :=
      split_at_key first.swap after uniqueAfter
    refine ⟨before, between, final, ?_, fun entry listed => ?_⟩
    next =>
      rw [rest, Option.toList_some]
      nth_rewrite 1 [split]
      nth_rewrite 1 [splitAfter]
      simp only [List.append_assoc]
    next =>
      rw [List.mem_append, List.mem_append] at listed
      rcases listed with (early | middle) | late
      next => exact ⟨earlier entry early, swapLater entry early⟩
      next => exact ⟨later entry (by rw [splitAfter]; simp [middle]), earlierSwap entry middle⟩
      next => exact ⟨later entry (by rw [splitAfter]; simp [late]), laterSwap entry late⟩

end Deltas

section Step

variable [Zero W] [One W] [Add W] [Neg W] [Mul W] [Div W] [LT W] [DecidableLT W]
variable {config : NeuralMemoryConfig W} {pass : Pass W} {learner : Learner W}
variable {entry : (MemoryId × MemoryId) × W} {key : MemoryId × MemoryId}

def endpointsValid (memories : List Memory) (scope : Scope) (key : MemoryId × MemoryId) : Prop :=
  endpointValid memories scope key.1 = true ∧ endpointValid memories scope key.2 = true

instance (memories : List Memory) (scope : Scope) (key : MemoryId × MemoryId) :
    Decidable (endpointsValid memories scope key) :=
  inferInstanceAs (Decidable (_ ∧ _))

theorem endpointsValid_swap {memories : List Memory} {scope : Scope} :
    endpointsValid memories scope key.swap ↔ endpointsValid memories scope key :=
  And.comm

omit [Zero W] [Add W] [Neg W] [Mul W] [Div W] [LT W] [DecidableLT W] in
theorem createOrUpdateEdge_hebbian {memories : List Memory} {table : Table W}
    {graph : GraphService} {weight : W} {metadata : Option (List (String × String))} {now : Nat} :
    createOrUpdateEdge memories table (hebbianUpsert graph key weight metadata now) =
      if endpointsValid memories graph.scope key then
        some (upsertRow table (hebbianUpsert graph key weight metadata now))
      else none :=
  rfl

def entryWeight (config : NeuralMemoryConfig W) (pass : Pass W) (table : Table W)
    (entry : (MemoryId × MemoryId) × W) : W :=
  newWeight config pass.graph table entry.1 ((record pass.records entry.1.1 entry.1.2).getD 0)
    entry.2

inductive Outcome (config : NeuralMemoryConfig W) (pass : Pass W) (learner : Learner W)
    (entry : (MemoryId × MemoryId) × W) : Learner W → Prop
  | pruned (below : entryWeight config pass learner.table entry < config.pruneThreshold)
      (found : getEdge learner.table pass.graph.readOwner entry.1.1 entry.1.2 ≠ none) :
      Outcome config pass learner entry
        { table := deleteEdge learner.table pass.graph.userId entry.1.1 entry.1.2
          records := setPending learner.records entry.1.1 entry.1.2 0 }
  | stashed (below : entryWeight config pass learner.table entry < config.pruneThreshold)
      (missing : getEdge learner.table pass.graph.readOwner entry.1.1 entry.1.2 = none)
      (positive : 0 < entryWeight config pass learner.table entry) :
      Outcome config pass learner entry
        { learner with
          records := setPending learner.records entry.1.1 entry.1.2
            (entryWeight config pass learner.table entry) }
  | dropped (below : entryWeight config pass learner.table entry < config.pruneThreshold)
      (missing : getEdge learner.table pass.graph.readOwner entry.1.1 entry.1.2 = none)
      (nothing : ¬ 0 < entryWeight config pass learner.table entry) :
      Outcome config pass learner entry learner
  | written (metadata : Option (List (String × String)))
      (reached : ¬ entryWeight config pass learner.table entry < config.pruneThreshold)
      (valid : endpointsValid pass.memories pass.graph.scope entry.1) :
      Outcome config pass learner entry
        { table := upsertRow learner.table (hebbianUpsert pass.graph entry.1
            (entryWeight config pass learner.table entry) metadata pass.now)
          records := setPending learner.records entry.1.1 entry.1.2 0 }
  | refused (reached : ¬ entryWeight config pass learner.table entry < config.pruneThreshold)
      (invalid : ¬ endpointsValid pass.memories pass.graph.scope entry.1) :
      Outcome config pass learner entry learner

omit [Neg W] [Mul W] [Div W] in
theorem applyOne_outcome (config : NeuralMemoryConfig W) (pass : Pass W) (learner : Learner W)
    (entry : (MemoryId × MemoryId) × W) :
    Outcome config pass learner entry (applyOne config pass learner entry) := by
  unfold applyOne applyUpdateToEdge
  dsimp only
  split
  next below =>
    cases found : getEdge learner.table pass.graph.readOwner entry.1.1 entry.1.2 with
    | some edge => exact .pruned below (by simp [found])
    | none =>
      simp only [Option.isSome_none, Bool.false_eq_true, if_false]
      split
      next positive => exact .stashed below found positive
      next nothing => exact .dropped below found nothing
  next reached =>
    rw [createOrUpdateEdge_hebbian]
    by_cases valid : endpointsValid pass.memories pass.graph.scope entry.1
    next =>
      rw [if_pos valid]
      exact .written _ reached valid
    next =>
      rw [if_neg valid]
      exact .refused reached valid

omit [One W] [Add W] [Neg W] [Mul W] [Div W] [Zero W] in
theorem getEdge_eq_of_filter {table other : Table W} {owners : List UserId}
    (same : (other.rows.filter fun edge =>
        edge.userId ∈ owners ∧ edge.srcId = key.1 ∧ edge.dstId = key.2) =
      table.rows.filter fun edge =>
        edge.userId ∈ owners ∧ edge.srcId = key.1 ∧ edge.dstId = key.2) :
    getEdge other owners key.1 key.2 = getEdge table owners key.1 key.2 := by
  unfold getEdge
  rw [same]

omit [One W] [Add W] [Neg W] [Mul W] [Div W] [Zero W] in
theorem getEdge_deleteEdge_other {table : Table W} {owners : List UserId} {userId : UserId}
    {removed : MemoryId × MemoryId} (other : removed ≠ key) :
    getEdge (deleteEdge table userId removed.1 removed.2) owners key.1 key.2 =
      getEdge table owners key.1 key.2 := by
  refine getEdge_eq_of_filter ?_
  unfold deleteEdge Table.keep
  rw [List.filter_filter]
  refine List.filter_congr fun edge _ => ?_
  rw [Bool.eq_iff_iff]
  simp only [Bool.and_eq_true, decide_eq_true_iff]
  refine and_iff_left_of_imp fun matched same => other ?_
  simp only [Edge.pair, Prod.mk.injEq] at same
  exact Prod.ext (same.2.1.symm.trans matched.2.1) (same.2.2.symm.trans matched.2.2)

omit [One W] [Add W] [Neg W] [Mul W] [Div W] [Zero W] in
theorem getEdge_upsertRow_other {table : Table W} {owners : List UserId} {upsert : Upsert W}
    (other : (upsert.srcId, upsert.dstId) ≠ key) :
    getEdge (upsertRow table upsert) owners key.1 key.2 = getEdge table owners key.1 key.2 := by
  refine getEdge_eq_of_filter ?_
  have different : ∀ edge : Edge W, edge.pair = upsert.pair →
      ¬ (edge.userId ∈ owners ∧ edge.srcId = key.1 ∧ edge.dstId = key.2) := by
    intro edge same matched
    simp only [Edge.pair, Upsert.pair, Prod.mk.injEq] at same
    exact other (Prod.ext (same.2.1.symm.trans matched.2.1) (same.2.2.symm.trans matched.2.2))
  unfold upsertRow
  split
  next =>
    simp only [Table.insert, List.filter_append]
    have dropped := different (upsert.row table.nextId) rfl
    simp [dropped]
  next =>
    have kept : ∀ edge : Edge W, (edge.userId ∈ owners ∧ edge.srcId = key.1 ∧ edge.dstId = key.2) →
        writeConflict upsert edge = edge := by
      intro edge matched
      unfold writeConflict
      rw [if_neg]
      exact fun same => different edge same matched
    have sameTest : ∀ edge : Edge W,
        ((writeConflict upsert edge).userId ∈ owners ∧ (writeConflict upsert edge).srcId = key.1 ∧
          (writeConflict upsert edge).dstId = key.2) ↔
        (edge.userId ∈ owners ∧ edge.srcId = key.1 ∧ edge.dstId = key.2) := by
      intro edge
      have same := writeConflict_pair upsert edge
      simp only [Edge.pair, Prod.mk.injEq] at same
      rw [same.1, same.2.1, same.2.2]
    simp only [Table.update, List.filter_map, Function.comp_def, sameTest]
    conv_rhs => rw [← List.map_id (List.filter _ _)]
    refine List.map_congr_left fun edge listed => kept edge ?_
    simpa using (List.mem_filter.mp listed).2

omit [One W] [Add W] [Neg W] [Mul W] [Div W] [Zero W] in
theorem getEdge_eq_none_iff {table : Table W} {owners : List UserId} {srcId dstId : MemoryId} :
    getEdge table owners srcId dstId = none ↔
      ∀ edge ∈ table.rows, ¬ (edge.userId ∈ owners ∧ edge.srcId = srcId ∧ edge.dstId = dstId) := by
  rw [getEdge, List.head?_eq_none_iff, ← List.length_eq_zero_iff, List.length_insertionSort,
    List.length_eq_zero_iff, List.filter_eq_nil_iff]
  simp only [decide_eq_true_eq]

omit [One W] [Add W] [Neg W] [Mul W] [Div W] [Zero W] in
theorem getEdge_upsertRow_missing {table : Table W} {owners : List UserId} (upsert : Upsert W)
    (reads : upsert.userId ∈ owners)
    (missing : getEdge table owners upsert.srcId upsert.dstId = none) :
    getEdge (upsertRow table upsert) owners upsert.srcId upsert.dstId =
      some (upsert.row table.nextId) := by
  have none := getEdge_eq_none_iff.mp missing
  have absent : upsert.pair ∉ table.rows.map Edge.pair := by
    rintro listed
    obtain ⟨edge, stored, same⟩ := List.mem_map.mp listed
    simp only [Edge.pair, Upsert.pair, Prod.mk.injEq] at same
    exact none edge stored ⟨same.1 ▸ reads, same.2⟩
  have others : (table.rows.filter fun edge =>
      edge.userId ∈ owners ∧ edge.srcId = upsert.srcId ∧ edge.dstId = upsert.dstId) = [] := by
    refine List.filter_eq_nil_iff.mpr fun edge stored => ?_
    simpa using none edge stored
  have own : (upsert.row table.nextId).userId ∈ owners ∧
      (upsert.row table.nextId).srcId = upsert.srcId ∧
        (upsert.row table.nextId).dstId = upsert.dstId := ⟨reads, rfl, rfl⟩
  rw [upsertRow, dif_pos absent, getEdge]
  simp only [Table.insert, List.filter_append, others, List.nil_append]
  simp [own]

omit [Neg W] [Mul W] [Div W] in
theorem applyOne_edge_other (other : entry.1 ≠ key) (owners : List UserId) :
    getEdge (applyOne config pass learner entry).table owners key.1 key.2 =
      getEdge learner.table owners key.1 key.2 := by
  have outcome := applyOne_outcome config pass learner entry
  generalize applyOne config pass learner entry = after at outcome ⊢
  cases outcome with
  | pruned => exact getEdge_deleteEdge_other other
  | stashed | dropped | refused => rfl
  | written => exact getEdge_upsertRow_other other

omit [Neg W] [Mul W] [Div W] in
theorem applyOne_record_other (other : entry.1 ≠ key) (reverse : entry.1 ≠ key.swap) :
    record (applyOne config pass learner entry).records key.1 key.2 =
      record learner.records key.1 key.2 := by
  have outcome := applyOne_outcome config pass learner entry
  generalize applyOne config pass learner entry = after at outcome ⊢
  cases outcome with
  | pruned | stashed | written => exact record_setPending_other _ _ _ _ other reverse
  | dropped | refused => rfl

structure Agrees (owners : List UserId) (key : MemoryId × MemoryId) (before after : Learner W) :
    Prop where
  sameRecord : record after.records key.1 key.2 = record before.records key.1 key.2
  sameEdge : getEdge after.table owners key.1 key.2 = getEdge before.table owners key.1 key.2
  sameReverse : getEdge after.table owners key.2 key.1 = getEdge before.table owners key.2 key.1

omit [Neg W] [Mul W] [Div W] in
theorem entries_agree (config : NeuralMemoryConfig W) (pass : Pass W) (owners : List UserId)
    (entries : List ((MemoryId × MemoryId) × W)) (learner : Learner W)
    (foreign : ∀ entry ∈ entries, entry.1 ≠ key ∧ entry.1 ≠ key.swap) :
    Agrees owners key learner (entries.foldl (applyOne config pass) learner) := by
  induction entries generalizing learner with
  | nil => exact ⟨rfl, rfl, rfl⟩
  | cons entry rest ih =>
    obtain ⟨other, reverse⟩ := foreign entry (List.mem_cons_self ..)
    have later := ih (applyOne config pass learner entry) fun entry listed =>
      foreign entry (List.mem_cons_of_mem _ listed)
    exact ⟨later.sameRecord.trans (applyOne_record_other other reverse),
      later.sameEdge.trans (applyOne_edge_other other owners),
      later.sameReverse.trans (applyOne_edge_other reverse owners)⟩

end Step

end MemoryCloud.Edges
