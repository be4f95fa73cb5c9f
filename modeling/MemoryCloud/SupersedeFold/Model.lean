import Mathlib.Data.List.MinMax
import Mathlib.Data.List.Sort
import Mathlib.Data.Prod.Lex
import Mathlib.Data.String.Basic
import Mathlib.Order.WithBot
import MemoryCloud.Shared.Collapse
import MemoryCloud.Shared.Search

set_option autoImplicit false

/-!
# Folding older versions under the newer one

`services/supersede_fold.py`: which rows of the recall pool are folded, and the pool without them.
-/

namespace MemoryCloud.SupersedeFold

open Search Collapse SetDict

structure Memory (Id Time : Type) where
  id : Id
  createdAt : Option Time

-- The keys of `FOLD_RANK_KEYS` that a row has.
structure Ranks (V : Type) where
  score : Option V
  hybridScore : Option V
  rerankScore : Option V
  rerankUnscored : Option V
  deriving DecidableEq

inductive RawScore (Q : Type)
  | missing
  | notNumber
  | number (value : Q)
  deriving DecidableEq

-- A row of the pool: `fields` is what a fold neither reads nor changes.
structure Row (V Q F : Type) where
  id : String
  ranks : Ranks V
  semanticScoreRaw : RawScore Q
  fields : F
  deriving DecidableEq

section Nodes

variable {Id Time V Q F : Type} [DecidableEq Id] (memories : String → Option (Memory Id Time))

-- `setdefault`: the first row of a memory decides its entry.
def addNode (pool : List (Memory Id Time)) (memory : Memory Id Time) : List (Memory Id Time) :=
  if memory.id ∈ pool.map Memory.id then pool else pool ++ [memory]

def poolOf (searchResults : List (Row V Q F)) : List (Memory Id Time) :=
  (searchResults.filterMap fun row => memories row.id).foldl addNode []

-- The hydrated versions that shadowing removed; `hydrated` is `memories.values()`.
def bridgesOf (hydrated pool : List (Memory Id Time)) (shadowMap : List (Id × Id)) :
    List (Memory Id Time) :=
  (hydrated.filter fun memory =>
    decide (memory.id ∈ shadowMap.map Prod.fst ∧ memory.id ∉ pool.map Memory.id)).foldl addNode []

structure Candidate (Id : Type) where
  memoryId : Id
  verified : Option Bool

def foldLinks (bridges nodes : List Id) (candidates : List (Id × Candidate Id))
    (shadowMap : List (Id × Id)) : List (Id × List Id) :=
  let shadowing := shadowMap.foldl (fun links edge =>
    if edge.1 ∈ bridges ∧ edge.2 ∈ nodes then add edge.2 edge.1 links else links) []
  candidates.foldl (fun links entry =>
    if entry.2.verified = some true ∧ entry.2.memoryId ∈ nodes ∧ entry.2.memoryId ≠ entry.1 then
      add entry.1 entry.2.memoryId links
    else links) shadowing

end Nodes

section Heads

variable {Id Time : Type} [DecidableEq Id] (links : List (Id × List Id))

def reaches (source target : Id) : Bool :=
  decide (target ∈ visit links [] (members links source) ∧ target ≠ source)

variable (pool : List (Memory Id Time))

def isHead (id : Id) : Bool :=
  pool.all fun source => !reaches links source.id id

variable [LinearOrder Time] (str : Id → String)

def newestKey (memory : Memory Id Time) : Lex (WithBot Time × String) :=
  toLex (memory.createdAt, str memory.id)

-- The first newest one of the heads that reach a memory of the pool.
def foldedUnder (id : Id) : Option Id :=
  if id ∈ pool.map Memory.id then
    ((pool.filter fun source => reaches links source.id id && isHead links pool source.id).argmax
      (newestKey str)).map Memory.id
  else none

def membersOf (head : Id) : List Id :=
  ((pool.filter fun memory => decide (foldedUnder links pool str memory.id = some head)).insertionSort
    fun left right => newestKey str right ≤ newestKey str left).map Memory.id

-- The order of the heads stands for no order: the result is a dictionary.
def foldMap : List (Id × List Id) :=
  ((pool.map Memory.id).map fun head => (head, membersOf links pool str head)).filter
    fun entry => decide (entry.2 ≠ [])

def headOf (id : Id) : Option Id :=
  if membersOf links pool str id = [] then foldedUnder links pool str id else some id

end Heads

section Rows

variable {Id Time V Q F : Type} [DecidableEq Id] [LinearOrder Q]
  (memories : String → Option (Memory Id Time))

def Row.isOf (row : Row V Q F) (id : Id) : Bool :=
  (memories row.id).any fun memory => decide (memory.id = id)

def Row.number? (row : Row V Q F) : Option Q :=
  match row.semanticScoreRaw with
  | .number value => some value
  | _ => none

def headRow (rows : List (Row V Q F)) (head : Id) (searchResult : Row V Q F) :
    Option (Row V Q F) :=
  (rows.find? fun row => row.isOf memories head).map fun found =>
    { found with
      ranks := searchResult.ranks
      semanticScoreRaw :=
        match (rows.filterMap Row.number?).max? with
        | some value => .number value
        | none => found.semanticScoreRaw }

variable [LinearOrder Time]

-- The new pool and the fold map; `none` is the `StopIteration` of a head without a row.
def foldLinkedVersions (str : Id → String) (searchResults : List (Row V Q F))
    (pool : List (Memory Id Time)) (links : List (Id × List Id)) :
    Option (List (Row V Q F) × List (Id × List Id)) :=
  let folds := foldMap links pool str
  if folds = [] then some (searchResults, [])
  else
    let group (row : Row V Q F) : Option Id :=
      (memories row.id).bind fun memory => headOf links pool str memory.id
    let rowsOf (head : Id) := searchResults.filter fun row => decide (group row = some head)
    (collapse group (fun head row => headRow memories (rowsOf head) head row) []
      searchResults).map fun folded => (folded, folds)

end Rows

end MemoryCloud.SupersedeFold
