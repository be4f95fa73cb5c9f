import Mathlib.Algebra.Order.Field.Basic
import Mathlib.Data.List.Sort

set_option autoImplicit false

/-!
# Merging the arms of a hybrid search

`SearchService._merge_results` of `services/search_service.py` over the numbers of an ordered
field. Each arm is normalised by its own maximum.
-/

namespace MemoryCloud.HybridSearch

variable {I F P : Type} [DecidableEq I] [Field F] [LinearOrder F]

structure Hit (I F P : Type) where
  id : I
  score : F
  payload : P
  deriving DecidableEq

structure MergedHit (I F P : Type) where
  result : Hit I F P
  semanticScore : F
  keywordScore : F
  hybridScore : F
  semanticScoreRaw : Option F
  deriving DecidableEq

def MergedHit.id (entry : MergedHit I F P) : I := entry.result.id

def maxScore (first : Hit I F P) (rest : List (Hit I F P)) : F :=
  (rest.map Hit.score).foldl max first.score

def normalize (results : List (Hit I F P)) : List (Hit I F P) :=
  match results with
  | [] => []
  | first :: rest =>
      if maxScore first rest = 0 then results
      else results.map fun result => { result with score := result.score / maxScore first rest }

-- `raw_semantic`: the last of equal ids wins.
def rawSemantic (semanticResults : List (Hit I F P)) (id : I) : Option F :=
  (semanticResults.reverse.find? fun result => result.id = id).map Hit.score

-- `merged[memory_id] = entry`.
def setEntry (entry : MergedHit I F P) : List (MergedHit I F P) → List (MergedHit I F P)
  | [] => [entry]
  | first :: rest =>
      if first.id = entry.id then entry :: rest else first :: setEntry entry rest

def addSemantic (raw : I → Option F) (semanticWeight : F) (merged : List (MergedHit I F P))
    (result : Hit I F P) : List (MergedHit I F P) :=
  setEntry
    { result, semanticScore := result.score, keywordScore := 0
      hybridScore := result.score * semanticWeight, semanticScoreRaw := raw result.id } merged

def addKeyword (keywordWeight : F) (merged : List (MergedHit I F P)) (result : Hit I F P) :
    List (MergedHit I F P) :=
  if merged.any fun entry => entry.id = result.id then
    merged.map fun entry =>
      if entry.id = result.id then
        { entry with
          keywordScore := result.score
          hybridScore := entry.hybridScore + result.score * keywordWeight }
      else entry
  else
    setEntry
      { result, semanticScore := 0, keywordScore := result.score
        hybridScore := result.score * keywordWeight, semanticScoreRaw := none } merged

-- `_merge_results`; `sorted` is stable, also in reverse.
def mergeResults (semanticResults keywordResults : List (Hit I F P))
    (semanticWeight keywordWeight : F) : List (MergedHit I F P) :=
  let semantic := (normalize semanticResults).foldl
    (addSemantic (rawSemantic semanticResults) semanticWeight) []
  let merged := (normalize keywordResults).foldl (addKeyword keywordWeight) semantic
  merged.insertionSort fun first second => second.hybridScore ≤ first.hybridScore

end MemoryCloud.HybridSearch
