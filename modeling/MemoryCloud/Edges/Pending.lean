import Mathlib.Algebra.Field.Rat
import Mathlib.Algebra.Order.Field.Basic
import Mathlib.Algebra.Order.Ring.Unbundled.Rat
import MemoryCloud.Edges.Outcome
import MemoryCloud.Shared.Runs

set_option autoImplicit false

/-!
# The pending weight of an edge

A delta too small to create its edge waits in the `pending_weight` of the pair's co-activation
record until later passes bring it to `prune_threshold`. The two directions of a pair share the
record: each pass reads it once for both and writes it once for each, and the later write stands.
-/

namespace MemoryCloud.Edges

variable {W : Type}

section Accrual

variable [Field W] [LinearOrder W]

structure Recall (W : Type) where
  memories : List Memory
  updates : List (HebbianUpdate W)
  now : Nat

def Recall.pass (queued : Recall W) (graph : GraphService) (records : Records W) : Pass W :=
  { memories := queued.memories
    graph
    records
    updates := queued.updates
    now := queued.now }

-- The edge table and the co-activation records, with a ledger of one edge.
structure Accrual (W : Type) where
  table : Table W
  records : Records W
  -- The clipped deltas of the edge since it last came not to exist.
  owed : W
  -- The weight of each creation of the edge, beside the deltas owed to it.
  created : List (W × W)

inductive Event (W : Type)
  | recall (queued : Recall W)
  -- The table as other writers leave it.
  | others (table : Table W)

def missing (graph : GraphService) (table : Table W) (key : MemoryId × MemoryId) : Prop :=
  getEdge table graph.readOwner key.1 key.2 = none

instance (graph : GraphService) (table : Table W) (key : MemoryId × MemoryId) :
    Decidable (missing graph table key) :=
  decidable_of_iff ((getEdge table graph.readOwner key.1 key.2).isNone = true) (by simp [missing])

-- The learner after the entries of a pass, before the top-M prune.
def applyEntries (config : NeuralMemoryConfig W) (pass : Pass W) (table : Table W) : Learner W :=
  (passDeltas config pass.updates).foldl (applyOne config pass) { table, records := pass.records }

def accrue (config : NeuralMemoryConfig W) (graph : GraphService) (key : MemoryId × MemoryId)
    (state : Accrual W) : Event W → Option (Accrual W)
  | .recall queued =>
    let pass := queued.pass graph state.records
    let final := applyUpdates config pass state.table
    let owed := state.owed + (clippedDelta config queued.updates key).getD 0
    if missing graph state.table key then
      match getEdge (applyEntries config pass state.table).table graph.readOwner key.1 key.2 with
      | some edge =>
        some { table := final.table, records := final.records, owed := 0,
               created := state.created ++ [(edge.weight, owed)] }
      | none => some { state with table := final.table, records := final.records, owed }
    else some { state with table := final.table, records := final.records, owed := 0 }
  | .others table =>
    some { state with table, owed := if missing graph table key then state.owed else 0 }

def creates (config : NeuralMemoryConfig W) (pending : W) : Option W → Option W
  | some delta => if config.pruneThreshold ≤ pending + delta then some (pending + delta) else none
  | none => none

def settled (config : NeuralMemoryConfig W) (absent : Prop) [Decidable absent] (pending : W)
    (own : Option W) : W :=
  if absent ∧ creates config pending own = none then pending + own.getD 0 else 0

-- The delta of a missing edge keeps its total positive and within `weight_max`, and finds both
-- memories when it creates the edge.
def OwnFits (config : NeuralMemoryConfig W) (graph : GraphService) (memories : List Memory)
    (key : MemoryId × MemoryId) (pending : W) : Option W → Prop
  | some delta =>
    (delta = 0 ∨ 0 < pending + delta) ∧ pending + delta ≤ config.weightMax ∧
      (config.pruneThreshold ≤ pending + delta → endpointsValid memories graph.scope key)
  | none => True

-- The update of the edge comes after the one of its reverse, and writes the record.
def OwnLast (graph : GraphService) (memories : List Memory) (absent : Prop)
    (key : MemoryId × MemoryId) (pending : W) : Option W → Prop
  | some delta =>
    key.2 < key.1 ∧
      (absent ∧ 0 < pending + delta ∨ ¬ absent ∧ endpointsValid memories graph.scope key)
  | none => False

-- The delta of the reverse direction leaves the record alone, or with what the edge is owed.
def ReverseFits (config : NeuralMemoryConfig W) (graph : GraphService) (memories : List Memory)
    (table : Table W) (key : MemoryId × MemoryId) (pending : W) (own : Option W) :
    Option W → Prop
  | some delta =>
    let weight := newWeight config graph table key.swap pending delta
    let due := settled config (missing graph table key) pending own
    OwnLast graph memories (missing graph table key) key pending own ∨
      config.pruneThreshold ≤ weight ∧
        (due = 0 ∨ ¬ endpointsValid memories graph.scope key) ∨
      weight < config.pruneThreshold ∧
        (if missing graph table key.swap then weight = due ∨ weight = 0 else due = 0)
  | none => True

instance OwnFits.decidable (config : NeuralMemoryConfig W) (graph : GraphService)
    (memories : List Memory) (key : MemoryId × MemoryId) (pending : W) :
    (own : Option W) → Decidable (OwnFits config graph memories key pending own)
  | some _ => inferInstanceAs (Decidable ((_ ∨ _) ∧ _ ∧ (_ → _)))
  | none => .isTrue trivial

instance OwnLast.decidable (graph : GraphService) (memories : List Memory) (absent : Prop)
    [Decidable absent] (key : MemoryId × MemoryId) (pending : W) :
    (own : Option W) → Decidable (OwnLast graph memories absent key pending own)
  | some _ => inferInstanceAs (Decidable (_ ∧ (_ ∧ _ ∨ _ ∧ _)))
  | none => .isFalse id

instance ReverseFits.decidable (config : NeuralMemoryConfig W) (graph : GraphService)
    (memories : List Memory) (table : Table W) (key : MemoryId × MemoryId) (pending : W)
    (own : Option W) : (reverse : Option W) →
      Decidable (ReverseFits config graph memories table key pending own reverse)
  | some _ => inferInstanceAs (Decidable (_ ∨ _ ∧ (_ ∨ _) ∨ _ ∧ ite _ (_ ∨ _) _))
  | none => .isTrue trivial

def Accrues (config : NeuralMemoryConfig W) (graph : GraphService) (key : MemoryId × MemoryId)
    (state : Accrual W) : Event W → Prop
  | .recall queued =>
    let pending := (record state.records key.1 key.2).getD 0
    let own := clippedDelta config queued.updates key
    (missing graph state.table key →
      OwnFits config graph queued.memories key pending own) ∧
    ReverseFits config graph queued.memories state.table key pending own
      (clippedDelta config queued.updates key.swap)
  | .others table => (record state.records key.1 key.2).getD 0 = 0 ∨ missing graph table key

instance Accrues.decidable (config : NeuralMemoryConfig W) (graph : GraphService)
    (key : MemoryId × MemoryId) (state : Accrual W) :
    (event : Event W) → Decidable (Accrues config graph key state event)
  | .recall _ => inferInstanceAs (Decidable ((_ → _) ∧ _))
  | .others _ => inferInstanceAs (Decidable (_ ∨ _))

variable {config : NeuralMemoryConfig W} {graph : GraphService} {pass : Pass W}
variable {learner : Learner W} {key : MemoryId × MemoryId} {pending value : W} {own : Option W}

def applyDelta (config : NeuralMemoryConfig W) (pass : Pass W) (key : MemoryId × MemoryId)
    (learner : Learner W) : Option W → Learner W
  | some delta => applyOne config pass learner (key, delta)
  | none => learner

theorem foldl_find (updates : List (HebbianUpdate W)) :
    ((passDeltas config updates).find? fun entry => entry.1 = key).toList.foldl
        (applyOne config pass) learner =
      applyDelta config pass key learner (clippedDelta config updates key) := by
  unfold clippedDelta
  cases found : (passDeltas config updates).find? fun entry => entry.1 = key with
  | none => rfl
  | some entry =>
    have same : entry.1 = key := by simpa using List.find?_some found
    simp [applyDelta, ← same]

theorem clipped_eq {weight bound : W} (lower : 0 ≤ weight) (upper : weight ≤ bound) :
    pyMax 0 (pyMin weight bound) = weight := by
  unfold pyMin
  rw [if_neg (not_lt.mpr upper), pyMax]
  split
  next => rfl
  next zero => exact le_antisymm lower (not_lt.mp zero)

theorem entryWeight_missing {delta : W} (snapshot : record pass.records key.1 key.2 = some pending)
    (absent : missing pass.graph learner.table key) (lower : 0 ≤ pending + delta)
    (upper : pending + delta ≤ config.weightMax) :
    entryWeight config pass learner.table (key, delta) = pending + delta := by
  have current : currentWeight pass.graph learner.table key = 0 := by
    rw [currentWeight, show getEdge _ _ _ _ = none from absent]
  rw [entryWeight, newWeight, snapshot, current, Option.getD_some, zero_add]
  exact clipped_eq lower upper

theorem OwnFits.nonneg {memories : List Memory} {delta : W}
    (fits : OwnFits config graph memories key pending (some delta)) (nonneg : 0 ≤ pending) :
    0 ≤ pending + delta := by
  rcases fits.1 with rfl | positive
  next => rwa [add_zero]
  next => exact positive.le

theorem applyDelta_creates (reads : pass.graph.userId ∈ pass.graph.readOwner) (nonneg : 0 ≤ pending)
    (snapshot : record pass.records key.1 key.2 = some pending)
    (absent : missing pass.graph learner.table key)
    (fits : OwnFits config pass.graph pass.memories key pending own) :
    (getEdge (applyDelta config pass key learner own).table pass.graph.readOwner key.1 key.2).map
      Edge.weight = creates config pending own := by
  have none : getEdge learner.table pass.graph.readOwner key.1 key.2 = none := absent
  cases own with
  | none => rw [applyDelta, none, creates, Option.map_none]
  | some delta =>
    have weight := entryWeight_missing snapshot absent (fits.nonneg nonneg) fits.2.1
    have outcome := applyOne_outcome config pass learner (key, delta)
    rw [applyDelta]
    generalize applyOne config pass learner (key, delta) = after at outcome ⊢
    cases outcome with
    | pruned below found => exact absurd absent found
    | stashed below | dropped below =>
      rw [weight] at below
      rw [none, creates, if_neg (not_le.mpr below), Option.map_none]
    | written metadata reached valid =>
      rw [weight] at reached ⊢
      have row := getEdge_upsertRow_missing
        (hebbianUpsert pass.graph key (pending + delta) metadata pass.now) reads absent
      rw [creates, if_pos (not_lt.mp reached)]
      exact congrArg (Option.map Edge.weight) row
    | refused reached invalid =>
      rw [weight] at reached
      exact absurd (fits.2.2 (not_lt.mp reached)) invalid

theorem OwnLast.order {memories : List Memory} {absent : Prop}
    (last : OwnLast graph memories absent key pending own) : key.2 < key.1 := by
  cases own with
  | none => cases last
  | some delta => exact last.1

theorem settled_present {absent : Prop} [Decidable absent] (present : ¬ absent) :
    settled config absent pending own = 0 :=
  if_neg fun both => present both.1

theorem settled_below {absent : Prop} [Decidable absent] {delta : W} (gone : absent)
    (below : pending + delta < config.pruneThreshold) :
    settled config absent pending (some delta) = pending + delta :=
  if_pos ⟨gone, if_neg (not_le.mpr below)⟩

theorem settled_reached {absent : Prop} [Decidable absent] {delta : W}
    (reached : config.pruneThreshold ≤ pending + delta) :
    settled config absent pending (some delta) = 0 := by
  rw [settled, creates, if_pos reached, if_neg]
  simp

-- The update of a missing edge leaves what it is owed, whatever it finds in the record: the
-- snapshot, the same value already, or a value that it overwrites.
theorem applyDelta_settles_missing {table : Table W} (nonneg : 0 ≤ pending)
    (snapshot : record pass.records key.1 key.2 = some pending)
    (same : getEdge learner.table pass.graph.readOwner key.1 key.2 =
      getEdge table pass.graph.readOwner key.1 key.2)
    (absent : missing pass.graph table key)
    (fits : OwnFits config pass.graph pass.memories key pending own)
    (live : record learner.records key.1 key.2 = some value)
    (known : value = pending ∨ value = settled config (missing pass.graph table key) pending own ∨
      OwnLast pass.graph pass.memories (missing pass.graph table key) key pending own) :
    record (applyDelta config pass key learner own).records key.1 key.2 =
      some (settled config (missing pass.graph table key) pending own) := by
  cases own with
  | none =>
    rw [applyDelta, live]
    rcases known with same | same | impossible
    next => simp [same, settled, absent, creates]
    next => rw [same]
    next => cases impossible
  | some delta =>
    have weight := entryWeight_missing snapshot (same.trans absent) (fits.nonneg nonneg) fits.2.1
    have outcome := applyOne_outcome config pass learner (key, delta)
    rw [applyDelta]
    generalize applyOne config pass learner (key, delta) = after at outcome ⊢
    cases outcome with
    | pruned below found => exact absurd (same.trans absent) found
    | stashed below =>
      rw [weight] at below ⊢
      rw [record_setPending, live, settled_below absent below, Option.map_some]
    | dropped below gone nothing =>
      rw [weight] at below nothing
      rw [live]
      rcases known with same | same | ⟨_, ⟨_, positive⟩ | ⟨present, _⟩⟩
      next =>
        rcases fits.1 with zero | positive
        next => rw [settled_below absent below, same, zero, add_zero]
        next => exact absurd positive nothing
      next => rw [same]
      next => exact absurd positive nothing
      next => exact absurd absent present
    | written metadata reached valid =>
      rw [weight] at reached
      rw [record_setPending, live, settled_reached (not_lt.mp reached), Option.map_some]
    | refused reached invalid =>
      rw [weight] at reached
      exact absurd (fits.2.2 (not_lt.mp reached)) invalid

theorem applyDelta_settles_present {table : Table W}
    (same : getEdge learner.table pass.graph.readOwner key.1 key.2 =
      getEdge table pass.graph.readOwner key.1 key.2)
    (present : ¬ missing pass.graph table key)
    (live : record learner.records key.1 key.2 = some value)
    (known : value = 0 ∨
      OwnLast pass.graph pass.memories (missing pass.graph table key) key pending own) :
    record (applyDelta config pass key learner own).records key.1 key.2 = some 0 := by
  cases own with
  | none =>
    rcases known with rfl | impossible
    next => exact live
    next => cases impossible
  | some delta =>
    have outcome := applyOne_outcome config pass learner (key, delta)
    rw [applyDelta]
    generalize applyOne config pass learner (key, delta) = after at outcome ⊢
    cases outcome with
    | pruned | written => rw [record_setPending, live, Option.map_some]
    | stashed _ gone | dropped _ gone => exact absurd (same.symm.trans gone) present
    | refused _ invalid =>
      rcases known with rfl | ⟨_, ⟨gone, _⟩ | ⟨_, valid⟩⟩
      next => exact live
      next => exact absurd gone present
      next => exact absurd valid invalid

theorem applyDelta_settles {table : Table W} (nonneg : 0 ≤ pending)
    (snapshot : record pass.records key.1 key.2 = some pending)
    (same : getEdge learner.table pass.graph.readOwner key.1 key.2 =
      getEdge table pass.graph.readOwner key.1 key.2)
    (fits : missing pass.graph table key →
      OwnFits config pass.graph pass.memories key pending own)
    (held : ¬ missing pass.graph table key → pending = 0)
    (live : record learner.records key.1 key.2 = some value)
    (known : value = pending ∨ value = settled config (missing pass.graph table key) pending own ∨
      OwnLast pass.graph pass.memories (missing pass.graph table key) key pending own) :
    record (applyDelta config pass key learner own).records key.1 key.2 =
      some (settled config (missing pass.graph table key) pending own) := by
  by_cases absent : missing pass.graph table key
  next => exact applyDelta_settles_missing nonneg snapshot same absent (fits absent) live known
  next =>
    rw [settled_present absent, held absent] at known
    rw [settled_present absent]
    exact applyDelta_settles_present same absent live (known.elim Or.inl id)

theorem applyDelta_reverse {table : Table W} {reverse : Option W}
    (snapshot : record pass.records key.1 key.2 = some pending)
    (fits : ReverseFits config pass.graph pass.memories table key pending own reverse)
    (same : getEdge learner.table pass.graph.readOwner key.2 key.1 =
      getEdge table pass.graph.readOwner key.2 key.1)
    (live : record learner.records key.1 key.2 = some value) :
    ∃ after, record (applyDelta config pass key.swap learner reverse).records key.1 key.2 =
        some after ∧
      (after = value ∨ after = settled config (missing pass.graph table key) pending own ∨
        OwnLast pass.graph pass.memories (missing pass.graph table key) key pending own) := by
  cases reverse with
  | none => exact ⟨value, live, Or.inl rfl⟩
  | some delta =>
    have weight : entryWeight config pass learner.table (key.swap, delta) =
        newWeight config pass.graph table key.swap pending delta := by
      unfold entryWeight newWeight currentWeight
      dsimp only [Prod.fst_swap, Prod.snd_swap]
      rw [same, record_swap, snapshot, Option.getD_some]
    have written : ∀ weight, record (setPending learner.records key.2 key.1 weight) key.1 key.2 =
        some weight := by
      intro weight
      rw [setPending_swap, record_setPending, live]
      rfl
    have outcome := applyOne_outcome config pass learner (key.swap, delta)
    rw [applyDelta]
    generalize applyOne config pass learner (key.swap, delta) = after at outcome ⊢
    rcases fits with last | ⟨reached, due⟩ | ⟨below, due⟩
    next =>
      cases outcome with
      | pruned | stashed | written => exact ⟨_, written _, Or.inr (Or.inr last)⟩
      | dropped | refused => exact ⟨value, live, Or.inl rfl⟩
    next =>
      cases outcome with
      | pruned below | stashed below | dropped below =>
        rw [weight] at below
        exact absurd below (not_lt.mpr reached)
      | written _ _ valid =>
        rcases due with zero | invalid
        next => exact ⟨0, written 0, Or.inr (Or.inl zero.symm)⟩
        next => exact absurd (endpointsValid_swap.mp valid) invalid
      | refused => exact ⟨value, live, Or.inl rfl⟩
    next =>
      cases outcome with
      | pruned _ found =>
        have present : ¬ missing pass.graph table key.swap := fun gone => found (same.trans gone)
        rw [if_neg present] at due
        exact ⟨0, written 0, Or.inr (Or.inl due.symm)⟩
      | stashed _ gone positive =>
        have absent : missing pass.graph table key.swap := same.symm.trans gone
        rw [if_pos absent] at due
        rw [weight] at positive ⊢
        rcases due with owed | zero
        next => exact ⟨_, written _, Or.inr (Or.inl owed)⟩
        next => exact absurd positive (by rw [zero]; exact lt_irrefl 0)
      | dropped => exact ⟨value, live, Or.inl rfl⟩
      | written _ reached | refused reached =>
        rw [weight] at reached
        exact absurd below reached

theorem applyEntries_split (config : NeuralMemoryConfig W) (pass : Pass W) (table : Table W)
    {key : MemoryId × MemoryId} (ordered : key.1 < key.2) :
    ∃ first middle, Agrees pass.graph.readOwner key { table, records := pass.records } first ∧
      Agrees pass.graph.readOwner key
        (applyDelta config pass key first (clippedDelta config pass.updates key)) middle ∧
      Agrees pass.graph.readOwner key
        (applyDelta config pass key.swap middle (clippedDelta config pass.updates key.swap))
          (applyEntries config pass table) := by
  obtain ⟨before, between, after, split, foreign⟩ :=
    passDeltas_split config pass.updates ordered
  have final : applyEntries config pass table = after.foldl (applyOne config pass)
      (applyDelta config pass key.swap (between.foldl (applyOne config pass)
        (applyDelta config pass key (before.foldl (applyOne config pass)
          { table, records := pass.records }) (clippedDelta config pass.updates key)))
            (clippedDelta config pass.updates key.swap)) := by
    rw [applyEntries, split]
    simp only [List.foldl_append, foldl_find]
  refine ⟨_, _, entries_agree config pass _ before _ ?_, entries_agree config pass _ between _ ?_, ?_⟩
  next => exact fun entry listed => foreign entry (by simp [listed])
  next => exact fun entry listed => foreign entry (by simp [listed])
  next =>
    rw [final]
    exact entries_agree config pass _ after _ fun entry listed => foreign entry (by simp [listed])

theorem applyDelta_edge_other {other : MemoryId × MemoryId} (different : key ≠ other)
    (owners : List UserId) :
    getEdge (applyDelta config pass key learner own).table owners other.1 other.2 =
      getEdge learner.table owners other.1 other.2 := by
  cases own with
  | none => rfl
  | some delta => exact applyOne_edge_other different owners

omit [Field W] in
theorem Agrees.swap {owners : List UserId} {before after : Learner W}
    (agrees : Agrees owners key.swap before after) : Agrees owners key before after where
  sameRecord := by
    rw [← record_swap after.records, ← record_swap before.records]
    exact agrees.sameRecord
  sameEdge := agrees.sameReverse
  sameReverse := agrees.sameEdge

section Entries

variable (pass) {table : Table W} (distinct : key.1 ≠ key.2)
  (snapshot : record pass.records key.1 key.2 = some pending) (nonneg : 0 ≤ pending)
include distinct snapshot nonneg

theorem applyEntries_creates (reads : pass.graph.userId ∈ pass.graph.readOwner)
    (absent : missing pass.graph table key)
    (fits : OwnFits config pass.graph pass.memories key pending
      (clippedDelta config pass.updates key)) :
    (getEdge (applyEntries config pass table).table pass.graph.readOwner key.1 key.2).map
      Edge.weight = creates config pending (clippedDelta config pass.updates key) := by
  have apart : key.swap ≠ key := fun same => distinct (congrArg Prod.snd same)
  rcases Nat.lt_or_gt_of_ne distinct with ordered | ordered
  next =>
    obtain ⟨first, middle, before, between, after⟩ := applyEntries_split config pass table ordered
    rw [after.sameEdge, applyDelta_edge_other apart, between.sameEdge]
    exact applyDelta_creates reads nonneg snapshot (before.sameEdge.trans absent) fits
  next =>
    obtain ⟨first, middle, before, between, after⟩ :=
      applyEntries_split config pass table (show key.swap.1 < key.swap.2 from ordered)
    rw [after.swap.sameEdge]
    refine applyDelta_creates reads nonneg snapshot ?_ fits
    exact between.swap.sameEdge.trans ((applyDelta_edge_other apart _).trans
      (before.swap.sameEdge.trans absent))

theorem applyEntries_settles
    (ownFits : missing pass.graph table key → OwnFits config pass.graph pass.memories key pending
      (clippedDelta config pass.updates key))
    (held : ¬ missing pass.graph table key → pending = 0)
    (reverseFits : ReverseFits config pass.graph pass.memories table key pending
      (clippedDelta config pass.updates key) (clippedDelta config pass.updates key.swap)) :
    record (applyEntries config pass table).records key.1 key.2 =
      some (settled config (missing pass.graph table key) pending
        (clippedDelta config pass.updates key)) := by
  have apart : key.swap ≠ key := fun same => distinct (congrArg Prod.snd same)
  rcases Nat.lt_or_gt_of_ne distinct with ordered | ordered
  next =>
    obtain ⟨first, middle, before, between, after⟩ := applyEntries_split config pass table ordered
    have own := applyDelta_settles nonneg snapshot before.sameEdge ownFits held
      (before.sameRecord.trans snapshot) (Or.inl rfl)
    have reverse : getEdge middle.table pass.graph.readOwner key.2 key.1 =
        getEdge table pass.graph.readOwner key.2 key.1 :=
      between.sameReverse.trans ((applyDelta_edge_other apart.symm _).trans before.sameReverse)
    obtain ⟨value, live, known⟩ := applyDelta_reverse snapshot reverseFits reverse
      (between.sameRecord.trans own)
    rw [after.sameRecord, live]
    rcases known with same | same | last
    next => rw [same]
    next => rw [same]
    next => exact absurd last.order (Nat.lt_asymm ordered)
  next =>
    obtain ⟨first, middle, before, between, after⟩ :=
      applyEntries_split config pass table (show key.swap.1 < key.swap.2 from ordered)
    obtain ⟨value, live, known⟩ := applyDelta_reverse snapshot reverseFits before.sameEdge
      (before.swap.sameRecord.trans snapshot)
    have sameEdge : getEdge middle.table pass.graph.readOwner key.1 key.2 =
        getEdge table pass.graph.readOwner key.1 key.2 :=
      between.swap.sameEdge.trans ((applyDelta_edge_other apart _).trans before.swap.sameEdge)
    rw [after.swap.sameRecord]
    exact applyDelta_settles nonneg snapshot sameEdge ownFits held
      (between.swap.sameRecord.trans live) known

end Entries

omit [Field W] in
theorem deletes_missing (weak : List (Edge W)) (nodeId : MemoryId) {table : Table W}
    (absent : missing graph table key) :
    missing graph (weak.foldl (fun table edge =>
      deleteEdge table graph.userId nodeId edge.dstId) table) key := by
  induction weak generalizing table with
  | nil => exact absent
  | cons edge rest ih =>
    refine ih (getEdge_eq_none_iff.mpr fun stored kept => ?_)
    exact getEdge_eq_none_iff.mp absent stored (List.mem_of_mem_filter kept)

theorem prunes_missing (nodes : List MemoryId) {table : Table W} (absent : missing graph table key) :
    missing graph (nodes.foldl (pruneWeakEdges config graph) table) key := by
  induction nodes generalizing table with
  | nil => exact absent
  | cons node rest ih =>
    refine ih ?_
    unfold pruneWeakEdges
    dsimp only
    split
    next => exact absent
    next => exact deletes_missing _ node absent

-- The record holds what is owed to the edge, and every creation got it.
structure Balanced (graph : GraphService) (key : MemoryId × MemoryId) (state : Accrual W) : Prop where
  recorded : record state.records key.1 key.2 = some state.owed
  nonneg : 0 ≤ state.owed
  idle : ¬ missing graph state.table key → state.owed = 0
  exact : ∀ entry ∈ state.created, entry.1 = entry.2

theorem OwnFits.total_nonneg {memories : List Memory}
    (fits : OwnFits config graph memories key pending own) (nonneg : 0 ≤ pending) :
    0 ≤ pending + own.getD 0 := by
  cases own with
  | none => rwa [Option.getD_none, add_zero]
  | some delta => exact fits.nonneg nonneg

theorem creates_some {weight : W} (created : creates config pending own = some weight) :
    weight = pending + own.getD 0 := by
  cases own with
  | none => cases created
  | some delta =>
    rw [creates] at created
    split at created
    next => exact (Option.some.inj created).symm
    next => cases created

theorem Balanced.recalled {state after : Accrual W} {queued : Recall W}
    (reads : graph.userId ∈ graph.readOwner) (distinct : key.1 ≠ key.2)
    (balanced : Balanced graph key state)
    (allowed : Accrues config graph key state (.recall queued))
    (taken : accrue config graph key state (.recall queued) = some after) :
    Balanced graph key after := by
  obtain ⟨ownFits, reverseFits⟩ := allowed
  simp only [balanced.recorded, Option.getD_some] at ownFits reverseFits
  have settles : record (applyUpdates config (queued.pass graph state.records)
      state.table).records key.1 key.2 = some (settled config (missing graph state.table key)
        state.owed (clippedDelta config queued.updates key)) :=
    applyEntries_settles (queued.pass graph state.records) distinct balanced.recorded
      balanced.nonneg ownFits balanced.idle reverseFits
  unfold accrue at taken
  dsimp only at taken
  split at taken
  next absent =>
    have weight : (getEdge (applyEntries config (queued.pass graph state.records)
        state.table).table graph.readOwner key.1 key.2).map Edge.weight =
          creates config state.owed (clippedDelta config queued.updates key) :=
      applyEntries_creates (queued.pass graph state.records) distinct balanced.recorded
        balanced.nonneg reads absent (ownFits absent)
    split at taken
    next edge found =>
      cases taken
      rw [found, Option.map_some] at weight
      rw [settled, if_neg (by simp [← weight])] at settles
      refine ⟨settles, le_rfl, fun _ => rfl, fun entry listed => ?_⟩
      rcases List.mem_append.mp listed with old | new
      next => exact balanced.exact entry old
      next =>
        rw [List.mem_singleton.mp new]
        exact creates_some weight.symm
    next gone =>
      cases taken
      rw [gone, Option.map_none] at weight
      rw [settled, if_pos ⟨absent, weight.symm⟩] at settles
      refine ⟨settles, (ownFits absent).total_nonneg balanced.nonneg, ?_, balanced.exact⟩
      exact fun present => absurd (prunes_missing _ gone) present
  next present =>
    cases taken
    rw [settled_present present] at settles
    exact ⟨settles, le_rfl, fun _ => rfl, balanced.exact⟩

theorem Balanced.others {state after : Accrual W} {table : Table W}
    (balanced : Balanced graph key state)
    (allowed : Accrues config graph key state (.others table))
    (taken : accrue config graph key state (.others table) = some after) :
    Balanced graph key after := by
  have held : state.owed = 0 ∨ missing graph table key := by
    simpa only [Accrues, balanced.recorded, Option.getD_some] using allowed
  have same : (if missing graph table key then state.owed else 0) = state.owed := by
    split
    next => rfl
    next present => exact (held.resolve_right present).symm
  rw [accrue, same] at taken
  cases taken
  exact ⟨balanced.recorded, balanced.nonneg, held.resolve_right, balanced.exact⟩

end Accrual

theorem pending_weight_conserved {W : Type} [Field W] [LinearOrder W] (config : NeuralMemoryConfig W)
    (graph : GraphService) (key : MemoryId × MemoryId) (reads : graph.userId ∈ graph.readOwner)
    (distinct : key.1 ≠ key.2) (table : Table W) (records : Records W)
    (fresh : record records key.1 key.2 = some 0) (state : Accrual W)
    (reached : Runs.Reaches (accrue config graph key) (Accrues config graph key)
      { table, records, owed := 0, created := [] } state) :
    (∀ entry ∈ state.created, entry.1 = entry.2) ∧
      record state.records key.1 key.2 = some state.owed := by
  have initial : Balanced graph key { table, records, owed := (0 : W), created := [] } :=
    ⟨fresh, le_rfl, fun _ => rfl, by simp⟩
  have balanced : Balanced graph key state := by
    refine reached.invariant (Balanced graph key) initial fun before event after holds allowed taken => ?_
    cases event with
    | «recall» queued => exact holds.recalled reads distinct allowed taken
    | others table => exact holds.others allowed taken
  exact ⟨balanced.exact, balanced.recorded⟩

def sampleGraph : GraphService := { userId := 5, readOwner := [5], scope := ⟨1, 1⟩ }

def sampleAccrual : Accrual Rat :=
  { table := Table.empty, records := fun _ _ => some 0, owed := 0, created := [] }

def sampleRecall (pairs : List (MemoryId × MemoryId × Rat)) : Recall Rat :=
  { memories :=
      { id := 3, userId := 5, workspaceId := 1, contextId := 1, createdAt := 2, deletedAt := none } ::
        sampleMemories
    updates := pairs.flatMap fun pair => [⟨pair.1, pair.2.1, pair.2.2⟩, ⟨pair.2.1, pair.1, pair.2.2⟩]
    now := 3 }

theorem pending_weight_conserved_two_recalls :
    ∃ state : Accrual Rat, state.created = [(13 / 1000, 13 / 1000)] ∧
      (∀ entry ∈ state.created, entry.1 = entry.2) ∧
        record state.records 1 2 = some state.owed := by
  have seen : (Runs.run (Runs.checked (accrue defaultConfig sampleGraph (1, 2))
      fun state event => decide (Accrues defaultConfig sampleGraph (1, 2) state event)) sampleAccrual
        [.recall (sampleRecall [(1, 2, 4 / 1000)]), .recall (sampleRecall [(1, 2, 9 / 1000)])]).map
          Accrual.created = some [(13 / 1000, 13 / 1000)] := by
    decide +kernel
  obtain ⟨state, reached, created⟩ := Runs.Reaches.of_run _
    (Runs.allowed_of_always (fun _ _ => trivial) _ _) seen
  refine ⟨state, created, ?_⟩
  refine pending_weight_conserved defaultConfig sampleGraph (1, 2) (by decide) (by decide) Table.empty
    (fun _ _ => some 0) rfl state (reached.of_checked ?_)
  exact fun _ _ passed => of_decide_eq_true passed

-- The clipping of a node with other updates scales one direction alone. The direction with the
-- larger source writes the record last, so the edge is created without a part of its own deltas,
-- or with deltas of its reverse.
theorem pending_weight_of_reverse :
    (∃ state, Runs.Reaches (accrue defaultConfig sampleGraph (1, 2)) (fun _ _ => True)
      sampleAccrual state ∧ state.created = [(11 / 1000, 13 / 1000)]) ∧
    ∃ state, Runs.Reaches (accrue defaultConfig sampleGraph (1, 2)) (fun _ _ => True)
      sampleAccrual state ∧ state.created = [(13 / 1000, 11 / 1000)] := by
  have lost : (Runs.run (accrue defaultConfig sampleGraph (1, 2)) sampleAccrual
      [.recall (sampleRecall [(1, 2, 4 / 1000), (2, 3, 996 / 1000)]),
        .recall (sampleRecall [(1, 2, 9 / 1000)])]).map Accrual.created =
          some [(11 / 1000, 13 / 1000)] := by
    decide +kernel
  have gained : (Runs.run (accrue defaultConfig sampleGraph (1, 2)) sampleAccrual
      [.recall (sampleRecall [(1, 2, 4 / 1000), (1, 3, 996 / 1000)]),
        .recall (sampleRecall [(1, 2, 9 / 1000)])]).map Accrual.created =
          some [(13 / 1000, 11 / 1000)] := by
    decide +kernel
  exact ⟨Runs.Reaches.of_run _ (Runs.allowed_of_always (fun _ _ => trivial) _ _) lost,
    Runs.Reaches.of_run _ (Runs.allowed_of_always (fun _ _ => trivial) _ _) gained⟩

end MemoryCloud.Edges
