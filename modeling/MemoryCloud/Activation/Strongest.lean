import Mathlib.Algebra.Field.Rat
import Mathlib.Algebra.Order.Ring.Rat
import MemoryCloud.Activation.Model

set_option autoImplicit false

/-!
# Every node keeps its strongest offer

Spreading as it is meant: a seed offers itself its activation, and at each hop every node of the layer
offers its share to the ends of its edges. The next layer sums the offers of a hop, and the result keeps
for each node the first of the strongest.
-/

namespace MemoryCloud.Activation

variable {N K : Type} [DecidableEq N] [Field K] [LinearOrder K]

section Offers

variable (config : Config K) (edges : Edges N K)

def EdgeRead.outgoing : EdgeRead N K → List (N × K)
  | .edges outgoing => outgoing
  | .failed | .valueError => []

def EdgeRead.raises : EdgeRead N K → Bool
  | .valueError => true
  | .edges _ | .failed => false

def offersOf (hop : Nat) (source : N) (activation : K) : List (N × Activated N K) :=
  (edges hop source).outgoing.filterMap fun edge =>
    let propagated := clamp01 (activation * config.spreadDecay * edge.2)
    if propagated < config.spreadThreshold then none
    else some (edge.1, { activation := propagated, hop, source := some source })

def offers (hop : Nat) (layer : Dict N K) : List (N × Activated N K) :=
  layer.entries.flatMap fun entry => offersOf config edges hop entry.1 entry.2

def tally (offered : List (N × Activated N K)) : Dict N K :=
  (offered.map fun offer => (offer.1, offer.2.activation)).foldl accumulate .empty

def layer (seedActivations : Dict N K) : Nat → Dict N K
  | 0 => clampSeeds seedActivations
  | hop + 1 => tally (offers config edges (hop + 1) (layer seedActivations hop))

def raisesAt (seedActivations : Dict N K) (hop : Nat) : Bool :=
  (layer config edges seedActivations hop).entries.any fun entry => (edges (hop + 1) entry.1).raises

def stream (seedActivations : Dict N K) (maxHops : Nat) : List (N × Activated N K) :=
  (seeded seedActivations).entries ++ (List.range maxHops).flatMap fun hop =>
    offers config edges (hop + 1) (layer config edges seedActivations hop)

end Offers

section Hops

variable {config : Config K} {edges : Edges N K}

def take (layers : Dict N K × Dict N (Activated N K)) (offer : N × Activated N K) :
    Dict N K × Dict N (Activated N K) :=
  (accumulate layers.1 (offer.1, offer.2.activation), keepLargest Activated.activation layers.2 offer)

theorem followEdge_eq (hop : Nat) (source : N) (activation : K)
    (layers : Dict N K × Dict N (Activated N K)) (edge : N × K) :
    followEdge config hop source activation layers edge =
      if clamp01 (activation * config.spreadDecay * edge.2) < config.spreadThreshold then layers
      else take layers (edge.1,
        { activation := clamp01 (activation * config.spreadDecay * edge.2)
          hop
          source := some source }) := by
  by_cases weak : clamp01 (activation * config.spreadDecay * edge.2) < config.spreadThreshold
  next => rw [followEdge, if_pos weak, if_pos weak]
  next =>
    rw [followEdge, if_neg weak, if_neg weak]
    dsimp only [take, keepLargest, accumulate]
    cases layers.2.get? edge.1 with
    | none => rfl
    | some found => dsimp only; split <;> rfl

theorem foldl_followEdge (hop : Nat) (source : N) (activation : K)
    (outgoing : List (N × K)) (layers : Dict N K × Dict N (Activated N K)) :
    outgoing.foldl (followEdge config hop source activation) layers =
      (offersOf config (fun _ _ => .edges outgoing) hop source activation).foldl take layers := by
  induction outgoing generalizing layers with
  | nil => rfl
  | cons edge rest ih =>
    rw [List.foldl_cons, ih, followEdge_eq, offersOf, offersOf, EdgeRead.outgoing, EdgeRead.outgoing,
      List.filterMap_cons]
    by_cases weak : clamp01 (activation * config.spreadDecay * edge.2) < config.spreadThreshold
    next => simp only [if_pos weak]
    next => simp only [if_neg weak, List.foldl_cons]

theorem foldlM_raises {A B : Type} (raises : A → Bool) (act : B → A → B) (entries : List A)
    (start : B) :
    entries.foldlM (fun state entry => if raises entry then none else some (act state entry)) start =
      if entries.any raises then none else some (entries.foldl act start) := by
  induction entries generalizing start with
  | nil => rfl
  | cons entry rest ih =>
    rw [List.foldlM_cons, List.any_cons, List.foldl_cons]
    cases raises entry with
    | true => rfl
    | false => exact ih (act start entry)

theorem propagateOneHop_foldl (currentLayer : Dict N K) (allActivations : Dict N (Activated N K))
    (hop : Nat) :
    propagateOneHop config edges currentLayer allActivations hop =
      if currentLayer.entries.any fun entry => (edges hop entry.1).raises then none
      else some ((offers config edges hop currentLayer).foldl take (.empty, allActivations)) := by
  rw [propagateOneHop, offers, List.foldl_flatMap, ← foldlM_raises]
  congr 1
  funext layers entry
  rw [offersOf]
  cases edges hop entry.1 with
  | edges outgoing =>
    dsimp only
    rw [foldl_followEdge]
    rfl
  | failed | valueError => rfl

theorem foldl_take (offered : List (N × Activated N K)) (layers : Dict N K × Dict N (Activated N K)) :
    offered.foldl take layers =
      ((offered.map fun offer => (offer.1, offer.2.activation)).foldl accumulate layers.1,
        offered.foldl (keepLargest Activated.activation) layers.2) := by
  induction offered generalizing layers with
  | nil => rfl
  | cons offer rest ih => rw [List.foldl_cons, ih]; rfl

theorem propagateOneHop_eq (currentLayer : Dict N K) (allActivations : Dict N (Activated N K))
    (hop : Nat) :
    propagateOneHop config edges currentLayer allActivations hop =
      if currentLayer.entries.any fun entry => (edges hop entry.1).raises then none
      else some (tally (offers config edges hop currentLayer),
        (offers config edges hop currentLayer).foldl (keepLargest Activated.activation)
          allActivations) := by
  rw [propagateOneHop_foldl, foldl_take, tally]

omit [DecidableEq N] in
theorem offers_empty {currentLayer : Dict N K} (none : currentLayer.entries = []) (hop : Nat) :
    offers config edges hop currentLayer = [] := by
  rw [offers, none]
  rfl

-- Once a layer is empty no later hop has anything to offer, so to stop there loses nothing.
theorem layer_stays_empty {seedActivations : Dict N K} {hop : Nat}
    (none : (layer config edges seedActivations hop).entries = []) (more : Nat) :
    (layer config edges seedActivations (hop + more)).entries = [] := by
  induction more with
  | zero => exact none
  | succ more ih =>
    rw [← Nat.add_assoc, layer, offers_empty ih]
    rfl

theorem spreadHops_eq (seedActivations : Dict N K) (remaining hop : Nat)
    (allActivations : Dict N (Activated N K)) :
    spreadHops config edges remaining (hop + 1) (layer config edges seedActivations hop)
        allActivations =
      if (List.range' hop remaining).any (raisesAt config edges seedActivations) then none
      else some (((List.range' hop remaining).flatMap fun hop =>
        offers config edges (hop + 1) (layer config edges seedActivations hop)).foldl
          (keepLargest Activated.activation) allActivations) := by
  induction remaining generalizing hop allActivations with
  | zero => rfl
  | succ remaining ih =>
    rw [spreadHops, propagateOneHop_eq, List.range'_succ, List.flatMap_cons, List.foldl_append,
      List.any_cons]
    change ((if raisesAt config edges seedActivations hop = true then none else some _) >>= _) = _
    cases raisesAt config edges seedActivations hop with
    | true => rfl
    | false =>
      change (if (layer config edges seedActivations (hop + 1)).entries.isEmpty then _ else _) =
        if (List.range' (hop + 1) remaining).any (raisesAt config edges seedActivations) then none
        else _
      split
      next none =>
        have nobody : ∀ other ∈ List.range' (hop + 1) remaining,
            (layer config edges seedActivations other).entries = [] := by
          intro other listed
          obtain ⟨more, _, rfl⟩ := List.mem_range'.mp listed
          rw [Nat.one_mul]
          exact layer_stays_empty (List.isEmpty_iff.mp none) more
        have quiet : ¬(List.range' (hop + 1) remaining).any
            (raisesAt config edges seedActivations) = true := by
          rw [List.any_eq_true]
          rintro ⟨other, listed, raises⟩
          rw [raisesAt, nobody other listed] at raises
          cases raises
        have later : ((List.range' (hop + 1) remaining).flatMap fun hop =>
            offers config edges (hop + 1) (layer config edges seedActivations hop)) = [] :=
          List.flatMap_eq_nil_iff.mpr fun other listed => offers_empty (nobody other listed) _
        rw [if_neg quiet, later]
        rfl
      next => exact ih (hop + 1) _

end Hops

section Spread

variable {config : Config K} {edges : Edges N K} {seedActivations : Dict N K} {maxHops : Nat}
  {states : List (ActivationState N K)}

omit [DecidableEq N] in
theorem valuesAt_keys {V : Type} [DecidableEq N] (dict : Dict N V) (node : N) :
    valuesAt node dict.entries = (dict.get? node).toList := by
  obtain ⟨entries, nodup⟩ := dict
  change valuesAt node entries = (entries.lookup node).toList
  induction entries with
  | nil => rfl
  | cons entry rest ih =>
    rw [List.map_cons, List.nodup_cons] at nodup
    rw [valuesAt_cons, lookup_entry, ih nodup.2]
    by_cases same : entry.1 = node
    next =>
      have absent : rest.lookup node = none := by
        refine List.lookup_eq_none_iff.mpr fun other listed => ?_
        refine bne_iff_ne.mpr fun again => nodup.1 ?_
        rw [same, again]
        exact List.mem_map_of_mem listed
      rw [if_pos same, if_pos same.symm, absent]
      rfl
    next => rw [if_neg same, if_neg (Ne.symm same)]

def settled (config : Config K) (edges : Edges N K) (seedActivations : Dict N K) (maxHops : Nat) :
    Dict N (Activated N K) :=
  ((List.range maxHops).flatMap fun hop =>
    offers config edges (hop + 1) (layer config edges seedActivations hop)).foldl
      (keepLargest Activated.activation) (seeded seedActivations)

theorem settled_get? (node : N) :
    (settled config edges seedActivations maxHops).get? node =
      (valuesAt node (stream config edges seedActivations maxHops)).argmax Activated.activation := by
  rw [settled, get?_foldl_keepLargest, stream, valuesAt_append, valuesAt_keys, List.argmax,
    List.foldl_append]
  cases (seeded seedActivations).get? node <;> rfl

theorem spreadHops_settled :
    spreadHops config edges maxHops 1 (clampSeeds seedActivations) (seeded seedActivations) =
      if (List.range maxHops).any (raisesAt config edges seedActivations) then none
      else some (settled config edges seedActivations maxHops) := by
  rw [settled, List.range_eq_range']
  exact spreadHops_eq seedActivations maxHops 0 (seeded seedActivations)

theorem spread_eq_none :
    spread config edges seedActivations maxHops = none ↔
      ∃ hop < maxHops, raisesAt config edges seedActivations hop = true := by
  have any : (List.range maxHops).any (raisesAt config edges seedActivations) = true ↔
      ∃ hop < maxHops, raisesAt config edges seedActivations hop = true := by
    simp [List.any_eq_true]
  rw [← any, spread]
  split
  next zero =>
    subst zero
    simp
  next =>
    rw [spreadHops_settled]
    split <;> simp_all

theorem spread_perm (found : spread config edges seedActivations maxHops = some states) :
    states.Perm ((settled config edges seedActivations maxHops).entries.map toState) := by
  unfold spread at found
  split at found
  next zero =>
    cases found
    subst zero
    rfl
  next =>
    rw [spreadHops_settled] at found
    split at found <;> cases found
    exact List.perm_insertionSort _ _

theorem mem_spread (found : spread config edges seedActivations maxHops = some states)
    {state : ActivationState N K} :
    state ∈ states ↔
      ∃ activated, (settled config edges seedActivations maxHops).get? state.nodeId = some activated ∧
        toState (state.nodeId, activated) = state := by
  rw [(spread_perm found).mem_iff, List.mem_map]
  constructor
  next =>
    rintro ⟨entry, there, rfl⟩
    exact ⟨entry.2, Dict.get?_eq_some.mpr there, rfl⟩
  next =>
    rintro ⟨activated, found, same⟩
    exact ⟨_, Dict.get?_eq_some.mp found, same⟩

theorem spread_nodup (found : spread config edges seedActivations maxHops = some states) :
    (states.map (·.nodeId)).Nodup := by
  refine ((spread_perm found).map _).nodup_iff.mpr ?_
  rw [List.map_map]
  exact (settled config edges seedActivations maxHops).nodup

theorem spread_sorted (found : spread config edges seedActivations maxHops = some states)
    (positive : 0 < maxHops) :
    states.Pairwise fun first second => second.activation ≤ first.activation := by
  have total : Std.Total fun first second : ActivationState N K =>
      second.activation ≤ first.activation := ⟨fun first second => le_total _ _⟩
  have trans : IsTrans (ActivationState N K) fun first second =>
      second.activation ≤ first.activation := ⟨fun _ _ _ first second => le_trans second first⟩
  rw [spread, if_neg (Nat.ne_of_gt positive)] at found
  obtain ⟨allActivations, _, sorted⟩ := Option.bind_eq_some_iff.mp found
  cases sorted
  exact List.pairwise_insertionSort _ _

variable [IsStrictOrderedRing K]

omit [DecidableEq N] in
theorem clamp01_range (value : K) : 0 ≤ clamp01 value ∧ clamp01 value ≤ 1 :=
  ⟨le_max_left _ _, max_le zero_le_one (min_le_left _ _)⟩

theorem stream_range {offer : N × Activated N K}
    (listed : offer ∈ stream config edges seedActivations maxHops) :
    0 ≤ offer.2.activation ∧ offer.2.activation ≤ 1 := by
  rcases List.mem_append.mp listed with seed | later
  next =>
    obtain ⟨entry, there, rfl⟩ := List.mem_map.mp seed
    obtain ⟨raw, _, rfl⟩ := List.mem_map.mp there
    exact clamp01_range raw.2
  next =>
    obtain ⟨hop, _, offered⟩ := List.mem_flatMap.mp later
    obtain ⟨entry, _, own⟩ := List.mem_flatMap.mp offered
    obtain ⟨edge, _, made⟩ := List.mem_filterMap.mp own
    dsimp only at made
    split at made <;> cases made
    exact clamp01_range _

-- Spreading fails where a read of a node of a layer raises a `ValueError`, and only there. Else,
-- whatever the reads of each hop give, the result names every node that a seed or an offer reaches,
-- once, with the first of its strongest offers, which lies between 0 and 1; and what a node passes
-- on is the sum of the offers of the hop before.
theorem spread_keeps_strongest (config : Config K) (edges : Edges N K) (seedActivations : Dict N K)
    (maxHops : Nat) :
    (spread config edges seedActivations maxHops = none ↔
      ∃ hop < maxHops, ∃ entry ∈ (layer config edges seedActivations hop).entries,
        edges (hop + 1) entry.1 = .valueError) ∧
    (∀ states, spread config edges seedActivations maxHops = some states →
      (∀ state, state ∈ states ↔
        ∃ activated, activated ∈
          (valuesAt state.nodeId (stream config edges seedActivations maxHops)).argmax
            Activated.activation ∧ toState (state.nodeId, activated) = state) ∧
      (states.map (·.nodeId)).Nodup ∧
      (∀ state ∈ states, 0 ≤ state.activation ∧ state.activation ≤ 1) ∧
      (0 < maxHops → states.Pairwise fun first second => second.activation ≤ first.activation)) ∧
    ∀ hop node, (layer config edges seedActivations (hop + 1)).get? node =
      let offered := (valuesAt node (offers config edges (hop + 1)
        (layer config edges seedActivations hop))).map Activated.activation
      if offered = [] then none else some offered.sum := by
  refine ⟨?_, ?_, ?_⟩
  next =>
    have raises : ∀ read : EdgeRead N K, read.raises = true ↔ read = .valueError := by
      intro read
      cases read <;> simp [EdgeRead.raises]
    simp only [spread_eq_none, raisesAt, List.any_eq_true, raises]
  next =>
    intro states found
    refine ⟨?_, spread_nodup found, ?_, spread_sorted found⟩
    next =>
      intro state
      simp only [mem_spread found, settled_get?, Option.mem_def]
    next =>
      intro state listed
      obtain ⟨activated, strongest, same⟩ := (mem_spread found).mp listed
      rw [settled_get?] at strongest
      obtain ⟨offer, there, own⟩ := List.mem_map.mp (List.argmax_mem strongest)
      have range := stream_range (List.mem_of_mem_filter there)
      rw [own] at range
      rw [← same]
      exact range
  next =>
    intro hop node
    have at_ : ∀ offered : List (N × Activated N K),
        valuesAt node (offered.map fun offer => (offer.1, offer.2.activation)) =
          (valuesAt node offered).map Activated.activation := by
      intro offered
      induction offered with
      | nil => rfl
      | cons offer rest ih =>
        rw [List.map_cons, valuesAt_cons, valuesAt_cons, ih]
        split <;> rfl
    rw [layer, tally, get?_foldl_accumulate, at_, Dict.get?_empty, Option.getD_none, zero_add]

-- An edge stronger than 1, two ways to node 3, a node whose edges could not be read, and one whose
-- id is malformed.
def diamond : Edges Nat ℚ := fun _ node =>
  match node with
  | 0 => .edges [(1, 5 / 2), (2, 1 / 2), (4, 1 / 100)]
  | 1 => .edges [(3, 1 / 4)]
  | 2 => .edges [(3, 1)]
  | 9 => .valueError
  | _ => .failed

theorem spread_keeps_strongest_diamond :
    (spread ⟨3 / 5, 1 / 100⟩ diamond (Dict.empty.set 0 1) 3).map
        (List.map fun state => (state.nodeId, state.activation)) =
          some [(0, 1), (1, 1), (2, 3 / 10), (3, 9 / 50)] ∧
      (∀ states, spread ⟨3 / 5, 1 / 100⟩ diamond (Dict.empty.set 0 1) 3 = some states →
        ∀ state ∈ states, 0 ≤ state.activation ∧ state.activation ≤ 1) ∧
      spread ⟨3 / 5, 1 / 100⟩ diamond ((Dict.empty.set 0 1).set 9 1) 3 = none := by
  obtain ⟨_, kept, _⟩ := spread_keeps_strongest ⟨3 / 5, 1 / 100⟩ diamond (Dict.empty.set 0 1) 3
  obtain ⟨raised, _⟩ :=
    spread_keeps_strongest ⟨3 / 5, 1 / 100⟩ diamond ((Dict.empty.set 0 1).set 9 1) 3
  refine ⟨by decide +kernel, fun states found => (kept states found).2.2.1, raised.mpr ?_⟩
  exact ⟨0, by decide, (9, 1), by decide +kernel, rfl⟩

end Spread

end MemoryCloud.Activation
