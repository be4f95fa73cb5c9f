import Mathlib.Algebra.Field.Rat
import Mathlib.Data.List.Sort
import MemoryCloud.Shared.Dict

set_option autoImplicit false

/-!
# Sparse vectors for the keyword search

`utils/sparse_vector.py`. Texts are sequences of code points. The weights are halves and the
counts are far below the precision of a float, so the values are exact.
-/

namespace MemoryCloud.SparseVector

abbrev Text := List Nat
abbrev Token := Text

structure Host where
  hashToken : Token → UInt32
  isSpace : Nat → Bool
  tokenizeForSearch : Text → Text

def counter (tokens : List Token) : Dict Token Nat :=
  tokens.foldl (fun counts token => counts.set token ((counts.get? token).getD 0 + 1)) Dict.empty

variable (host : Host)

def split (text : Text) : List Token := (text.splitOnP host.isSpace).filter (· ≠ [])

def tokensToSparseVector (tokensStr : Text) (weight : Rat) : Dict UInt32 Rat :=
  if tokensStr = [] then Dict.empty
  else
    let counts := counter (split host tokensStr)
    Dict.ofEntries (counts.entries.map fun entry =>
      (host.hashToken entry.1, (entry.2 : Rat) * weight))

def mergeInto (merged vector : Dict UInt32 Rat) : Dict UInt32 Rat :=
  vector.entries.foldl (fun merged entry =>
    merged.set entry.1 ((merged.get? entry.1).getD 0 + entry.2)) merged

structure Document where
  summaryTokens : Text
  contextSummaryTokens : Text
  contentTokens : Text
  summaryReading : Text

def buildDocumentSparseVector (document : Document) : List UInt32 × List Rat :=
  let merged := Dict.empty
  let merged := mergeInto merged (tokensToSparseVector host document.summaryTokens 2)
  let merged := mergeInto merged (tokensToSparseVector host document.contextSummaryTokens 2)
  let merged := mergeInto merged (tokensToSparseVector host document.contentTokens 1)
  let merged :=
    if document.summaryReading = [] then merged
    else mergeInto merged (tokensToSparseVector host document.summaryReading (1 / 2))
  if merged.entries = [] then ([], []) else (merged.keys, merged.values)

def buildResourceSparseVector (fulltextContent : Text) : List UInt32 × List Rat :=
  let tokens := host.tokenizeForSearch fulltextContent
  if tokens = [] then ([], [])
  else
    let merged := tokensToSparseVector host tokens 1
    if merged.entries = [] then ([], []) else (merged.keys, merged.values)

def noLater (first second : Token) : Bool :=
  !second.lex first fun one other => decide (one < other)

def buildQuerySparseVector (queryTokens : Text) : List UInt32 × List Rat :=
  if queryTokens = [] then ([], [])
  else
    let uniqueTokens := (split host queryTokens).eraseDups.insertionSort fun a b => noLater a b
    let indices := uniqueTokens.map host.hashToken
    (indices, List.replicate indices.length 1)

end MemoryCloud.SparseVector
