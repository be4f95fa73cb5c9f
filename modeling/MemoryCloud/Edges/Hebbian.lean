import Mathlib.Algebra.Field.Rat
import Mathlib.Data.List.Dedup
import Mathlib.Data.List.Nodup
import MemoryCloud.Edges.Model

set_option autoImplicit false

/-!
# Hebbian learning on the edge table

`HebbianLearner.apply_updates`: the queued deltas are summed for each edge and
clipped, each edge is updated or pruned, and every updated node keeps its
strongest `top_m_edges` co-activation edges.
-/

namespace MemoryCloud.Edges

variable {W : Type}

structure HebbianUpdate (W : Type) where
  srcId : MemoryId
  dstId : MemoryId
  deltaWeight : W

structure NeuralMemoryConfig (W : Type) where
  weightMax : W
  topMEdges : Nat
  pruneThreshold : W
  gradientClipping : W

structure GraphService where
  userId : UserId
  readOwner : List UserId
  scope : Scope

-- `pending_weight` by the ordered pair of a co-activation record.
abbrev Records (W : Type) := MemoryId → MemoryId → Option W

def record (records : Records W) (srcId dstId : MemoryId) : Option W :=
  if dstId < srcId then records dstId srcId else records srcId dstId

def setPending (records : Records W) (srcId dstId : MemoryId) (weight : W) : Records W :=
  fun first second =>
    if (first, second) = (if dstId < srcId then (dstId, srcId) else (srcId, dstId)) then
      (records first second).map fun _ => weight
    else records first second

-- The row after co-activation: the same edge, a declared one with its type and date, a semantic one
-- with its type or retyped to a co-activation.
structure Kept (edge after : Edge W) : Prop where
  sameId : after.id = edge.id
  samePair : after.pair = edge.pair
  sameScope : (after.workspaceId, after.contextId) = (edge.workspaceId, edge.contextId)
  sameOrigin : after.origin = edge.origin
  sameType : (after.edgeType, after.createdAt) = (edge.edgeType, edge.createdAt) ∨
    edge.origin ≠ .declared ∧ after.edgeType = .neuralAssociation

theorem Kept.refl (edge : Edge W) : Kept edge edge := ⟨rfl, rfl, rfl, rfl, Or.inl rfl⟩

theorem Kept.trans {edge middle after : Edge W} (first : Kept edge middle)
    (second : Kept middle after) : Kept edge after where
  sameId := second.sameId.trans first.sameId
  samePair := second.samePair.trans first.samePair
  sameScope := second.sameScope.trans first.sameScope
  sameOrigin := second.sameOrigin.trans first.sameOrigin
  sameType := by
    rcases second.sameType with same | ⟨undeclared, retyped⟩
    next =>
      rcases first.sameType with also | ⟨undeclared, retyped⟩
      next => exact Or.inl (same.trans also)
      next => exact Or.inr ⟨undeclared, (Prod.mk.inj same).1.trans retyped⟩
    next =>
      rw [first.sameOrigin] at undeclared
      exact Or.inr ⟨undeclared, retyped⟩

def Survives (edge : Edge W) (table : Table W) : Prop := ∃ after ∈ table.rows, Kept edge after

theorem deleteEdge_survives {edge : Edge W} {table : Table W} {userId : UserId}
    {srcId dstId : MemoryId} (survives : Survives edge table)
    (other : edge.pair ≠ (userId, srcId, dstId)) :
    Survives edge (deleteEdge table userId srcId dstId) := by
  obtain ⟨after, listed, kept⟩ := survives
  refine ⟨after, List.mem_filter.mpr ⟨listed, ?_⟩, kept⟩
  simp [kept.samePair, other]

theorem deletes_survive {edge : Edge W} {graph : GraphService} {nodeId : MemoryId}
    (weak : List (Edge W)) (table : Table W) (survives : Survives edge table)
    (different : ∀ other ∈ weak, edge.pair ≠ (graph.userId, nodeId, other.dstId)) :
    Survives edge
      (weak.foldl (fun table edge => deleteEdge table graph.userId nodeId edge.dstId) table) := by
  induction weak generalizing table with
  | nil => exact survives
  | cons first rest ih =>
    refine ih _ (deleteEdge_survives survives (different first (by simp))) ?_
    exact fun other listed => different other (List.mem_cons_of_mem _ listed)

section Pass

variable [Zero W] [One W] [Add W] [Neg W] [Mul W] [Div W] [LT W] [DecidableLT W]

def pyMax (first second : W) : W := if first < second then second else first
def pyMin (first second : W) : W := if second < first then second else first
def pyAbs (value : W) : W := if value < 0 then -value else value

-- `edge_deltas[(src, dst)] += delta`, in the order the keys came.
def addDelta (key : MemoryId × MemoryId) (delta : W) :
    List ((MemoryId × MemoryId) × W) → List ((MemoryId × MemoryId) × W)
  | [] => [(key, 0 + delta)]
  | (other, total) :: rest =>
    if other = key then (other, total + delta) :: rest else (other, total) :: addDelta key delta rest

def edgeDeltas (updates : List (HebbianUpdate W)) : List ((MemoryId × MemoryId) × W) :=
  updates.foldl (fun deltas update => addDelta (update.srcId, update.dstId) update.deltaWeight deltas)
    []

def nodeTotal (deltas : List ((MemoryId × MemoryId) × W)) (srcId : MemoryId) : W :=
  (deltas.filter fun entry => entry.1.1 = srcId).foldl (fun total entry => total + pyAbs entry.2) 0

def clipGradients (config : NeuralMemoryConfig W) (deltas : List ((MemoryId × MemoryId) × W)) :
    List ((MemoryId × MemoryId) × W) :=
  deltas.map fun entry =>
    let total := nodeTotal deltas entry.1.1
    if config.gradientClipping < total then
      (entry.1, entry.2 * (config.gradientClipping / total))
    else entry

def strongestFirst (first second : Edge W) : Prop :=
  second.weight < first.weight ∨ ¬ first.weight < second.weight ∧
    (second.lastUpdated < first.lastUpdated ∨
      first.lastUpdated = second.lastUpdated ∧ first.id ≤ second.id)

instance (first second : Edge W) : Decidable (strongestFirst first second) :=
  inferInstanceAs (Decidable (_ ∨ _ ∧ (_ ∨ _ ∧ _)))

def getEdge (table : Table W) (owners : List UserId) (srcId dstId : MemoryId) : Option (Edge W) :=
  ((table.rows.filter fun edge =>
    edge.userId ∈ owners ∧ edge.srcId = srcId ∧ edge.dstId = dstId).insertionSort
      strongestFirst).head?

structure Learner (W : Type) where
  table : Table W
  records : Records W

def currentWeight (graph : GraphService) (table : Table W) (key : MemoryId × MemoryId) : W :=
  match getEdge table graph.readOwner key.1 key.2 with
  | some edge => edge.weight
  | none => 0

def newWeight (config : NeuralMemoryConfig W) (graph : GraphService) (table : Table W)
    (key : MemoryId × MemoryId) (pending delta : W) : W :=
  pyMax 0 (pyMin (currentWeight graph table key + pending + delta) config.weightMax)

def hebbianUpsert (graph : GraphService) (key : MemoryId × MemoryId) (weight : W)
    (edgeMetadata : Option (List (String × String))) (now : Nat) : Upsert W :=
  { userId := graph.userId
    srcId := key.1
    dstId := key.2
    edgeType := .neuralAssociation
    weight
    confidence := 1
    edgeMetadata
    scope := graph.scope
    protectDeclaredLink := true
    origin := .hebbian
    now }

-- `_apply_update_to_edge`, with the weight it returns.
def applyUpdateToEdge (config : NeuralMemoryConfig W) (memories : List Memory)
    (graph : GraphService) (now : Nat) (learner : Learner W) (key : MemoryId × MemoryId)
    (delta pending : W) : Learner W × Option W :=
  let weight := newWeight config graph learner.table key pending delta
  let existing := getEdge learner.table graph.readOwner key.1 key.2
  if weight < config.pruneThreshold then
    if existing.isSome then
      ({ table := deleteEdge learner.table graph.userId key.1 key.2
         records := setPending learner.records key.1 key.2 0 }, some 0)
    else if 0 < weight then
      ({ learner with records := setPending learner.records key.1 key.2 weight }, some 0)
    else (learner, some 0)
  else
    let metadata :=
      if existing.isSome then none else some [("created_by", "hebbian_learning")]
    match createOrUpdateEdge memories learner.table (hebbianUpsert graph key weight metadata now) with
    | some table =>
      ({ table, records := setPending learner.records key.1 key.2 0 }, some weight)
    | none => (learner, none)

def outgoingEdges (graph : GraphService) (table : Table W) (nodeId : MemoryId) : List (Edge W) :=
  (table.rows.filter fun edge =>
    edge.srcId = nodeId ∧ ¬ edge.weight < 0 ∧ edge.userId = graph.userId ∧
      edge.inScope graph.scope ∧ edge.origin = .hebbian).insertionSort
        fun first second => ¬ first.weight < second.weight

def removedBefore (first second : Edge W) : Prop :=
  first.dstId < second.dstId ∨ first.dstId = second.dstId ∧ ¬ second.weight < first.weight

instance (first second : Edge W) : Decidable (removedBefore first second) :=
  inferInstanceAs (Decidable (_ ∨ _ ∧ _))

def pruneWeakEdges (config : NeuralMemoryConfig W) (graph : GraphService) (table : Table W)
    (nodeId : MemoryId) : Table W :=
  let outgoing := outgoingEdges graph table nodeId
  if outgoing.length ≤ config.topMEdges then table
  else
    ((outgoing.drop config.topMEdges).insertionSort removedBefore).foldl
      (fun table edge => deleteEdge table graph.userId nodeId edge.dstId) table

def keyBefore (first second : (MemoryId × MemoryId) × W) : Prop :=
  first.1.1 < second.1.1 ∨ first.1.1 = second.1.1 ∧ first.1.2 ≤ second.1.2

instance (first second : (MemoryId × MemoryId) × W) : Decidable (keyBefore first second) :=
  inferInstanceAs (Decidable (_ ∨ _ ∧ _))

def passDeltas (config : NeuralMemoryConfig W) (updates : List (HebbianUpdate W)) :
    List ((MemoryId × MemoryId) × W) :=
  let deltas := edgeDeltas updates
  (if 0 < config.gradientClipping then clipGradients config deltas else deltas).insertionSort
    keyBefore

structure Pass (W : Type) where
  memories : List Memory
  graph : GraphService
  records : Records W
  updates : List (HebbianUpdate W)
  now : Nat

def applyOne (config : NeuralMemoryConfig W) (pass : Pass W) (learner : Learner W)
    (entry : (MemoryId × MemoryId) × W) : Learner W :=
  (applyUpdateToEdge config pass.memories pass.graph pass.now learner entry.1 entry.2
    ((record pass.records entry.1.1 entry.1.2).getD 0)).1

def applyUpdates (config : NeuralMemoryConfig W) (pass : Pass W) (table : Table W) : Learner W :=
  let deltas := passDeltas config pass.updates
  let learner := deltas.foldl (applyOne config pass) { table, records := pass.records }
  let nodes := (deltas.map fun entry => entry.1.1).dedup.insertionSort (· ≤ ·)
  { learner with table := nodes.foldl (pruneWeakEdges config pass.graph) learner.table }

def applyPasses (config : NeuralMemoryConfig W) (table : Table W) (passes : List (Pass W)) :
    Table W :=
  passes.foldl (fun table pass => (applyUpdates config pass table).table) table

def Sinks (config : NeuralMemoryConfig W) (pass : Pass W) (edge : Edge W) :
    Learner W → List ((MemoryId × MemoryId) × W) → Prop
  | _, [] => False
  | learner, entry :: rest =>
    edge.pair = (pass.graph.userId, entry.1) ∧
        newWeight config pass.graph learner.table entry.1
          ((record pass.records entry.1.1 entry.1.2).getD 0) entry.2 < config.pruneThreshold ∨
      Sinks config pass edge (applyOne config pass learner entry) rest

instance Sinks.decidable (config : NeuralMemoryConfig W) (pass : Pass W) (edge : Edge W) :
    (learner : Learner W) → (entries : List ((MemoryId × MemoryId) × W)) →
      Decidable (Sinks config pass edge learner entries)
  | _, [] => inferInstanceAs (Decidable False)
  | learner, entry :: rest =>
    haveI := Sinks.decidable config pass edge (applyOne config pass learner entry) rest
    inferInstanceAs (Decidable (_ ∧ _ ∨ Sinks config pass edge _ rest))

def SinksIn (config : NeuralMemoryConfig W) (edge : Edge W) : Table W → List (Pass W) → Prop
  | _, [] => False
  | table, pass :: rest =>
    Sinks config pass edge { table, records := pass.records } (passDeltas config pass.updates) ∨
      SinksIn config edge (applyUpdates config pass table).table rest

instance SinksIn.decidable (config : NeuralMemoryConfig W) (edge : Edge W) :
    (table : Table W) → (passes : List (Pass W)) → Decidable (SinksIn config edge table passes)
  | _, [] => inferInstanceAs (Decidable False)
  | table, pass :: rest =>
    haveI := SinksIn.decidable config edge (applyUpdates config pass table).table rest
    inferInstanceAs (Decidable (_ ∨ SinksIn config edge _ rest))

omit [Zero W] [Add W] [Neg W] [Mul W] [Div W] [LT W] [DecidableLT W] in
theorem upsert_survives {edge : Edge W} {table written : Table W} {memories : List Memory}
    {graph : GraphService} {key : MemoryId × MemoryId} {weight : W}
    {metadata : Option (List (String × String))} {now : Nat} (asserted : edge.origin ≠ .hebbian)
    (survives : Survives edge table)
    (upserted : createOrUpdateEdge memories table (hebbianUpsert graph key weight metadata now) =
      some written) : Survives edge written := by
  obtain ⟨after, listed, kept⟩ := survives
  unfold createOrUpdateEdge at upserted
  split at upserted
  next =>
    cases upserted
    unfold upsertRow
    split
    next => exact ⟨after, List.mem_append_left _ listed, kept⟩
    next =>
      refine ⟨writeConflict (hebbianUpsert graph key weight metadata now) after,
        List.mem_map_of_mem listed, kept.trans ?_⟩
      have origin : after.origin ≠ .hebbian := by
        rw [kept.sameOrigin]
        exact asserted
      unfold writeConflict
      split
      next =>
        refine ⟨rfl, rfl, rfl, by simp [onConflict, originSet, hebbianUpsert, origin], ?_⟩
        by_cases declared : after.origin = .declared
        next => exact Or.inl (by simp [onConflict, typeSet, hebbianUpsert, declared])
        next => exact Or.inr ⟨declared, by simp [onConflict, typeSet, hebbianUpsert, declared]⟩
      next => exact Kept.refl after
  next => cases upserted

omit [Neg W] [Mul W] [Div W] in
theorem applyOne_survives {config : NeuralMemoryConfig W} {pass : Pass W} {learner : Learner W}
    {entry : (MemoryId × MemoryId) × W} {edge : Edge W} (asserted : edge.origin ≠ .hebbian)
    (survives : Survives edge learner.table)
    (floats : edge.pair = (pass.graph.userId, entry.1) →
      ¬ newWeight config pass.graph learner.table entry.1
        ((record pass.records entry.1.1 entry.1.2).getD 0) entry.2 < config.pruneThreshold) :
    Survives edge (applyOne config pass learner entry).table := by
  unfold applyOne applyUpdateToEdge
  dsimp only
  split
  next below =>
    have other : edge.pair ≠ (pass.graph.userId, entry.1.1, entry.1.2) := fun same =>
      floats same below
    split
    next => exact deleteEdge_survives survives other
    next =>
      split
      next => exact survives
      next => exact survives
  next =>
    split
    next table upserted => exact upsert_survives asserted survives upserted
    next => exact survives

omit [Neg W] [Mul W] [Div W] in
theorem updates_survive {config : NeuralMemoryConfig W} {pass : Pass W} {edge : Edge W}
    (asserted : edge.origin ≠ .hebbian) (entries : List ((MemoryId × MemoryId) × W))
    (learner : Learner W) (survives : Survives edge learner.table)
    (floats : ¬ Sinks config pass edge learner entries) :
    Survives edge (entries.foldl (applyOne config pass) learner).table := by
  induction entries generalizing learner with
  | nil => exact survives
  | cons entry rest ih =>
    simp only [Sinks, not_or] at floats
    refine ih (applyOne config pass learner entry) ?_ floats.2
    exact applyOne_survives asserted survives fun own below => floats.1 ⟨own, below⟩

omit [One W] [Add W] [Neg W] [Mul W] [Div W] in
theorem prune_survives {config : NeuralMemoryConfig W} {graph : GraphService} {table : Table W}
    {nodeId : MemoryId} {edge : Edge W} (asserted : edge.origin ≠ .hebbian)
    (survives : Survives edge table) : Survives edge (pruneWeakEdges config graph table nodeId) := by
  unfold pruneWeakEdges
  dsimp only
  split
  next => exact survives
  next =>
    have different : ∀ weak ∈ ((outgoingEdges graph table nodeId).drop config.topMEdges).insertionSort
        removedBefore, edge.pair ≠ (graph.userId, nodeId, weak.dstId) := by
      intro weak listed same
      have outgoing := List.mem_of_mem_drop ((List.mem_insertionSort _).mp listed)
      rw [outgoingEdges, List.mem_insertionSort, List.mem_filter] at outgoing
      obtain ⟨stored, found⟩ := outgoing
      simp only [decide_eq_true_eq] at found
      obtain ⟨source, _, owner, _, origin⟩ := found
      obtain ⟨after, present, kept⟩ := survives
      have pair : after.pair = weak.pair := by
        rw [kept.samePair, same, Edge.pair, source, owner]
      have one := List.inj_on_of_nodup_map table.uniqueEdge present stored pair
      rw [one] at kept
      exact asserted (kept.sameOrigin.symm.trans origin)
    exact deletes_survive _ _ survives different

omit [One W] [Add W] [Neg W] [Mul W] [Div W] in
theorem prunes_survive {config : NeuralMemoryConfig W} {graph : GraphService} {edge : Edge W}
    (asserted : edge.origin ≠ .hebbian) (nodes : List MemoryId) (table : Table W)
    (survives : Survives edge table) :
    Survives edge (nodes.foldl (pruneWeakEdges config graph) table) := by
  induction nodes generalizing table with
  | nil => exact survives
  | cons node rest ih => exact ih _ (prune_survives asserted survives)

theorem applyUpdates_survives {config : NeuralMemoryConfig W} {pass : Pass W} {table : Table W}
    {edge : Edge W} (asserted : edge.origin ≠ .hebbian) (survives : Survives edge table)
    (floats : ¬ Sinks config pass edge { table, records := pass.records }
      (passDeltas config pass.updates)) :
    Survives edge (applyUpdates config pass table).table :=
  prunes_survive asserted _ _ (updates_survive asserted _ _ survives floats)

end Pass

theorem asserted_edge_survives {W : Type} [Zero W] [One W] [Add W] [Neg W] [Mul W] [Div W] [LT W]
    [DecidableLT W] (config : NeuralMemoryConfig W) (table : Table W) (passes : List (Pass W))
    (edge : Edge W) (listed : edge ∈ table.rows) (asserted : edge.origin ≠ .hebbian)
    (floats : ¬ SinksIn config edge table passes) :
    ∃ after ∈ (applyPasses config table passes).rows, Kept edge after := by
  have survives : Survives edge table := ⟨edge, listed, Kept.refl edge⟩
  clear listed
  induction passes generalizing table with
  | nil => exact survives
  | cons pass rest ih =>
    simp only [SinksIn, not_or] at floats
    exact ih _ floats.2 (applyUpdates_survives asserted survives floats.1)

def defaultConfig : NeuralMemoryConfig Rat :=
  { weightMax := 3, topMEdges := 8, pruneThreshold := 1 / 100, gradientClipping := 1 / 2 }

def sampleMemories : List Memory :=
  [{ id := 1, userId := 5, workspaceId := 1, contextId := 1, createdAt := 0, deletedAt := none },
    { id := 2, userId := 5, workspaceId := 1, contextId := 1, createdAt := 1, deletedAt := none }]

def sampleEdge (edgeType : EdgeType) (origin : Origin) (weight : Rat) : Edge Rat :=
  { id := 1
    userId := 5
    srcId := 1
    dstId := 2
    workspaceId := 1
    contextId := 1
    edgeType
    weight
    confidence := 1
    origin
    edgeMetadata := none
    createdAt := 2
    lastUpdated := 2 }

def sampleTable (edge : Edge Rat) (first : edge.id = 1) : Table Rat :=
  Table.empty.insert edge first (by simp [Table.empty])

def samplePass (delta : Rat) : Pass Rat :=
  { memories := sampleMemories
    graph := { userId := 5, readOwner := [5], scope := ⟨1, 1⟩ }
    records := fun _ _ => none
    updates := [⟨1, 2, delta⟩, ⟨2, 1, delta⟩]
    now := 3 }

theorem asserted_edge_survives_recall :
    ∃ after ∈ (applyPasses defaultConfig (sampleTable (sampleEdge .supersedes .declared 1) rfl)
      [samplePass (1 / 10), samplePass (-1 / 10)]).rows,
        Kept (sampleEdge .supersedes .declared 1) after := by
  have listed : sampleEdge .supersedes .declared 1 ∈
      (sampleTable (sampleEdge .supersedes .declared 1) rfl).rows := by
    simp [sampleTable, Table.insert]
  exact asserted_edge_survives defaultConfig _ _ _ listed (by decide) (by decide +kernel)

theorem asserted_edge_changes :
    ((applyPasses defaultConfig (sampleTable (sampleEdge .relatedTo .semantic 1) rfl)
      [samplePass (1 / 10)]).rows.map fun edge => (edge.pair, edge.edgeType, edge.origin)) =
        [((5, 1, 2), .neuralAssociation, .semantic), ((5, 2, 1), .neuralAssociation, .hebbian)] ∧
    (applyPasses defaultConfig (sampleTable (sampleEdge .supersedes .declared (1 / 100)) rfl)
      [samplePass (-1 / 1000)]).rows = [] := by
  constructor <;> decide +kernel

end MemoryCloud.Edges
