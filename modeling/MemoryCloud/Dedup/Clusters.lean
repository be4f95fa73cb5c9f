import Mathlib.Data.List.Sort
import Mathlib.Data.Prod.Lex
import Mathlib.Data.String.Basic
import Mathlib.Logic.Function.Basic
import MemoryCloud.Shared.SetDict

set_option autoImplicit false

/-!
# Clusters of similar memories

`UnionFind` and `_split_oversize_cluster` of `services/sleep/dedup_merge.py`. A search up the
parents that takes more steps than there are nodes has no answer.
-/

namespace MemoryCloud.Dedup

open SetDict

variable {N Q : Type} [DecidableEq N]

section UnionFind

-- `nodes` are the keys of `parent`, which is the identity on all others.
structure UnionFind (N : Type) where
  nodes : List N
  parent : N → N
  rank : N → Nat

def UnionFind.empty : UnionFind N where
  nodes := []
  parent := id
  rank := fun _ => 0

def UnionFind.ensure (uf : UnionFind N) (x : N) : UnionFind N :=
  if x ∈ uf.nodes then uf
  else
    { nodes := uf.nodes ++ [x]
      parent := Function.update uf.parent x x
      rank := Function.update uf.rank x 0 }

def UnionFind.findUp : Nat → UnionFind N → N → Option (N × UnionFind N)
  | 0, _, _ => none
  | fuel + 1, uf, x =>
      let uf := uf.ensure x
      if uf.parent x = x then some (x, uf)
      else
        (findUp fuel uf (uf.parent x)).map fun (root, found) =>
          (root, { found with parent := Function.update found.parent x root })

def UnionFind.find (uf : UnionFind N) (x : N) : Option (N × UnionFind N) :=
  findUp (uf.nodes.length + 1) uf x

def UnionFind.union (uf : UnionFind N) (x y : N) : Option (UnionFind N) := do
  let (rx, uf) ← uf.find x
  let (ry, uf) ← uf.find y
  if rx = ry then some uf
  else
    let (winner, loser) := if uf.rank rx < uf.rank ry then (ry, rx) else (rx, ry)
    some
      { nodes := uf.nodes
        parent := Function.update uf.parent loser winner
        rank :=
          if uf.rank winner = uf.rank loser then Function.update uf.rank winner (uf.rank winner + 1)
          else uf.rank }

-- The groups by root, with a search that may change the parents on its way.
def groupBy {S : Type} (find : S → N → Option (N × S)) :
    List N → S → List (N × List N) → Option (List (N × List N))
  | [], _, groups => some groups
  | x :: rest, state, groups =>
      (find state x).bind fun (root, state) => groupBy find rest state (add root x groups)

def UnionFind.clusters (uf : UnionFind N) : Option (List (List N)) :=
  (groupBy UnionFind.find uf.nodes uf []).map fun groups => groups.map Prod.snd

end UnionFind

section Pairs

structure ScoredPair (N Q : Type) where
  first : N
  second : N
  score : Q
  deriving DecidableEq

def ScoredPair.ends (pair : ScoredPair N Q) : N × N :=
  (pair.first, pair.second)

def unionPairs (pairs : List (ScoredPair N Q)) : Option (UnionFind N) :=
  pairs.foldlM (fun uf pair => uf.union pair.first pair.second) UnionFind.empty

def clustersOf (pairs : List (ScoredPair N Q)) : Option (List (List N)) :=
  (unionPairs pairs).bind UnionFind.clusters

-- The text of an identifier; different identifiers have different texts.
structure Naming (N : Type) where
  str : N → String
  distinct : Function.Injective str

variable [LinearOrder Q] (naming : Naming N)

def orderedPair (pair : ScoredPair N Q) : ScoredPair N Q :=
  if naming.str pair.second < naming.str pair.first then
    { first := pair.second, second := pair.first, score := pair.score }
  else pair

def pairSortKey (pair : ScoredPair N Q) : Lex (Qᵒᵈ × Lex (String × String)) :=
  toLex (OrderDual.toDual pair.score, toLex (naming.str pair.first, naming.str pair.second))

def internalPairs (cluster : List N) (pairs : List (ScoredPair N Q)) : List (ScoredPair N Q) :=
  ((pairs.filter fun pair => decide (pair.first ∈ cluster ∧ pair.second ∈ cluster)).map
    (orderedPair naming)).insertionSort fun left right => pairSortKey naming left ≤ pairSortKey naming right

end Pairs

section Splitting

structure Components (N : Type) where
  parent : N → N
  compSize : N → Nat
  skippedPairs : Nat

def findHalving : Nat → (N → N) → N → Option (N × (N → N))
  | 0, _, _ => none
  | fuel + 1, parent, x =>
      if parent x = x then some (x, parent)
      else
        let halved := Function.update parent x (parent (parent x))
        findHalving fuel halved (halved x)

def mergePair (cluster : List N) (maxSize : Int) (state : Components N) (pair : ScoredPair N Q) :
    Option (Components N) := do
  let (rootA, parent) ← findHalving (cluster.length + 1) state.parent pair.first
  let (rootB, parent) ← findHalving (cluster.length + 1) parent pair.second
  if rootA = rootB then some { state with parent }
  else if (state.compSize rootA + state.compSize rootB : Int) > maxSize then
    some { state with parent, skippedPairs := state.skippedPairs + 1 }
  else
    some
      { parent := Function.update parent rootB rootA
        compSize := Function.update state.compSize rootA (state.compSize rootA + state.compSize rootB)
        skippedPairs := state.skippedPairs }

def mergePairs (cluster : List N) (maxSize : Int) (pairs : List (ScoredPair N Q)) :
    Option (Components N) :=
  pairs.foldlM (mergePair cluster maxSize) { parent := id, compSize := fun _ => 1, skippedPairs := 0 }

def splitOversizeCluster [LinearOrder Q] (naming : Naming N) (cluster : List N)
    (pairs : List (ScoredPair N Q)) (maxSize : Int) : Option (List (List N) × Nat) := do
  let state ← mergePairs cluster maxSize (internalPairs naming cluster pairs)
  let groups ← groupBy (findHalving (cluster.length + 1)) cluster state.parent []
  some ((groups.map Prod.snd).filter fun group => decide (2 ≤ group.length), state.skippedPairs)

end Splitting

end MemoryCloud.Dedup
