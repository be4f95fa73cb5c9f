import Mathlib.Algebra.Order.Field.Basic
import Mathlib.Data.List.Sort
import MemoryCloud.Shared.Tally

set_option autoImplicit false

/-!
# Activation spreading

`ActivationSpreader` of `neural/activation.py`, over any ordered field. The edges of a node are read anew at
each hop, and a read may fail.
-/

namespace MemoryCloud.Activation

variable {N K : Type} [DecidableEq N] [Field K] [LinearOrder K]

structure Config (K : Type) where
  spreadDecay : K
  spreadThreshold : K

structure Activated (N K : Type) where
  activation : K
  hop : Nat := 0
  source : Option N := none
  deriving DecidableEq

structure ActivationState (N K : Type) where
  nodeId : N
  activation : K
  hop : Nat
  sourceNodeId : Option N
  deriving DecidableEq

def clamp01 (value : K) : K := max 0 (min 1 value)

-- What `get_outgoing_edges` gives for a node: a `ValueError`, for a scope that is missing or an id
-- that is malformed, is raised again, and any other failure skips the node.
inductive EdgeRead (N K : Type) where
  | edges (outgoing : List (N × K))
  | failed
  | valueError

abbrev Edges (N K : Type) := Nat → N → EdgeRead N K

def followEdge (config : Config K) (hop : Nat) (source : N) (sourceActivation : K)
    (layers : Dict N K × Dict N (Activated N K)) (edge : N × K) :
    Dict N K × Dict N (Activated N K) :=
  let propagated := clamp01 (sourceActivation * config.spreadDecay * edge.2)
  if propagated < config.spreadThreshold then layers
  else
    let next := layers.1.set edge.1 ((layers.1.get? edge.1).getD 0 + propagated)
    let activated : Activated N K := { activation := propagated, hop, source := some source }
    match layers.2.get? edge.1 with
    | some found =>
      if found.activation < propagated then (next, layers.2.set edge.1 activated)
      else (next, layers.2)
    | none => (next, layers.2.set edge.1 activated)

def propagateOneHop (config : Config K) (edges : Edges N K) (currentLayer : Dict N K)
    (allActivations : Dict N (Activated N K)) (hop : Nat) :
    Option (Dict N K × Dict N (Activated N K)) :=
  currentLayer.entries.foldlM (fun layers entry =>
    match edges hop entry.1 with
    | .edges outgoing => some (outgoing.foldl (followEdge config hop entry.1 entry.2) layers)
    | .failed => some layers
    | .valueError => none)
    (.empty, allActivations)

def spreadHops (config : Config K) (edges : Edges N K) :
    Nat → Nat → Dict N K → Dict N (Activated N K) → Option (Dict N (Activated N K))
  | 0, _, _, allActivations => some allActivations
  | remaining + 1, hop, currentLayer, allActivations => do
    let (nextLayer, activations) ← propagateOneHop config edges currentLayer allActivations hop
    if nextLayer.entries.isEmpty then some activations
    else spreadHops config edges remaining (hop + 1) nextLayer activations

def clampSeeds (seedActivations : Dict N K) : Dict N K where
  entries := seedActivations.entries.map fun entry => (entry.1, clamp01 entry.2)
  nodup := by
    rw [List.map_map]
    exact seedActivations.nodup

def seeded (seedActivations : Dict N K) : Dict N (Activated N K) where
  entries := (clampSeeds seedActivations).entries.map fun entry =>
    (entry.1, { activation := entry.2 })
  nodup := by
    rw [List.map_map]
    exact (clampSeeds seedActivations).nodup

def toState (entry : N × Activated N K) : ActivationState N K where
  nodeId := entry.1
  activation := entry.2.activation
  hop := entry.2.hop
  sourceNodeId := entry.2.source

-- `none` where a `ValueError` is raised.
def spread (config : Config K) (edges : Edges N K) (seedActivations : Dict N K) (maxHops : Nat) :
    Option (List (ActivationState N K)) :=
  if maxHops = 0 then some ((seeded seedActivations).entries.map toState)
  else do
    let allActivations ← spreadHops config edges maxHops 1 (clampSeeds seedActivations)
      (seeded seedActivations)
    some ((allActivations.entries.map toState).insertionSort
      fun first second => second.activation ≤ first.activation)

end MemoryCloud.Activation
