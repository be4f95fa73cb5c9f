import Mathlib.Data.List.Dedup
import Mathlib.Data.List.Sort
import MemoryCloud.Shared.Json
import MemoryCloud.Shared.Spans

set_option autoImplicit false

/-!
# The recall selector

`services/recall_selector.py`: the content of the rows of a page is cut into numbered segments,
the answer of a model is read as rows to keep and segments to show, and each row that is kept
shows slices of its stored content. Texts are lists of code points.
-/

namespace MemoryCloud.Selector

open Spans

abbrev MemoryId := Nat

structure MemoryResponse (F : Type) where
  memoryId : MemoryId
  content : Option (List Char)
  spans : Option (List Span)
  -- The fields that the selector neither reads nor writes.
  fields : F
  deriving DecidableEq, Repr

def separator : List Char := [' ', '…', ' ']

def maxSegments : Nat := 40
def minSegmentChars : Nat := 40

section Segments

def spaceCodes : List Nat := [0x85, 0xA0, 0x1680, 0x2028, 0x2029, 0x202F, 0x205F, 0x3000]

-- `str.isspace` of one character, which is also what `\s` matches and `strip` removes.
def isspace (character : Char) : Bool :=
  let code := character.toNat
  9 ≤ code ∧ code ≤ 13 ∨ 28 ≤ code ∧ code ≤ 32 ∨ 0x2000 ≤ code ∧ code ≤ 0x200A ∨
    code ∈ spaceCodes

def strip (text : List Char) : List Char :=
  ((text.dropWhile isspace).reverse.dropWhile isspace).reverse

def blankLen (text : List Char) (span : Span) : Nat := (strip (slice text span)).length

-- `_BOUNDARY_RE` at a position: each match is one character.
def boundary (text : List Char) (position : Nat) : Bool :=
  match text[position]? with
  | some character =>
    character ∈ ['.', '!', '?'] ∧ text[position + 1]?.all isspace ∨
      character ∈ ['。', '！', '？'] ∨ character = '\n'
  | none => false

def cuts (text : List Char) : List Nat :=
  (((List.range text.length).filter (boundary text)).map (· + 1)).filter (· < text.length)

def pieces (stop : Nat) : Nat → List Nat → List Span
  | start, [] => [(start, stop)]
  | start, cut :: rest => (start, cut) :: pieces stop cut rest

-- `spans[-1] = (spans[-1][0], stop)`.
def extendLast (spans : List Span) (last : Span) (stop : Nat) : List Span :=
  spans.dropLast ++ [(last.1, stop)]

def mergePiece (text : List Char) (merged : List Span) (piece : Span) : List Span :=
  match merged.getLast? with
  | some last =>
    if blankLen text piece < minSegmentChars ∨ blankLen text last < minSegmentChars then
      extendLast merged last piece.2
    else merged ++ [piece]
  | none => merged ++ [piece]

def capSegments (stop : Nat) (merged : List Span) : List Span :=
  match merged[maxSegments - 1]? with
  | some last =>
    if maxSegments < merged.length then merged.take (maxSegments - 1) ++ [(last.1, stop)]
    else merged
  | none => merged

def segmentContent (text : List Char) : List Span :=
  if text.length = 0 then []
  else
    capSegments text.length ((pieces text.length 0 (cuts text)).foldl (mergePiece text) [])

end Segments

structure SelectorRow where
  i : Nat
  content : Option (List Char)
  segments : List Span
  deriving DecidableEq, Repr

-- `response.content or None`.
def shownContent {F : Type} (response : MemoryResponse F) : Option (List Char) :=
  response.content.filter fun text => !text.isEmpty

def rowsFor {F : Type} (responses : List (MemoryResponse F)) (maxRows : Nat) : List SelectorRow :=
  (responses.take maxRows).zipIdx.map fun entry =>
    { i := entry.2
      content := shownContent entry.1
      segments := ((shownContent entry.1).map segmentContent).getD [] }

section Answer

structure RowDecision where
  relevant : Bool
  segments : List Nat
  deriving DecidableEq, Repr

-- `sorted(set(values))`.
def sortedSet (values : List Nat) : List Nat := values.dedup.insertionSort (· ≤ ·)

-- `_is_int(value) and 0 <= value < bound`. A bool of JSON is not an int of it.
def index (bound : Nat) : Json → Option Nat
  | .int value => if 0 ≤ value ∧ value < bound then some value.toNat else none
  | _ => none

def parseRelevant : Option Json → Option Bool
  | some (.bool value) => some value
  | _ => none

def rawSegments : Option Json → Option (List Json)
  | none => some []
  | some .null => some []
  | some (.array items) => some items
  | some _ => none

def parseItem (segmentsPerRow : List Nat) : Json → Option (Nat × RowDecision)
  | .object members => do
    let i ← (members.lookup "i").bind (index segmentsPerRow.length)
    let relevant ← parseRelevant (members.lookup "relevant")
    let raw ← rawSegments (members.lookup "segments")
    let count ← segmentsPerRow[i]?
    let chosen ← raw.mapM (index count)
    some (i, { relevant, segments := sortedSet chosen })
  | _ => none

abbrev Decisions := List (Nat × RowDecision)

def addDecision (segmentsPerRow : List Nat) (decisions : Decisions) (item : Json) : Decisions :=
  match parseItem segmentsPerRow item with
  | some (i, decision) =>
    if (decisions.lookup i).isNone then decisions ++ [(i, decision)] else decisions
  | none => decisions

def parseSelection (segmentsPerRow : List Nat) : Json → Option Decisions
  | .object members =>
    match members.lookup "rows" with
    | some (.array items) =>
      let decisions := items.foldl (addDecision segmentsPerRow) []
      if decisions.isEmpty then none else some decisions
    | _ => none
  | _ => none

end Answer

section Apply

-- `while start < end and text[start].isspace()`, with the characters that are left.
def trimStart (text : List Char) (start : Nat) : Nat → Nat
  | 0 => start
  | left + 1 =>
    if text[start]?.any isspace then trimStart text (start + 1) left else start

def trimEnd (text : List Char) (start : Nat) : Nat → Nat
  | 0 => 0
  | stop + 1 =>
    if start < stop + 1 ∧ text[stop]?.any isspace then trimEnd text start stop else stop + 1

def trimSpan (text : List Char) (span : Span) : Option Span :=
  let start := trimStart text span.1 (span.2 - span.1)
  let stop := trimEnd text start span.2
  if start < stop then some (start, stop) else none

-- One turn of the first loop of `spans_for`; `none` for the IndexError.
def addSpan (segments : List Span) (state : List Span × Option Nat) (index : Nat) :
    Option (List Span × Option Nat) :=
  segments[index]?.map fun segment =>
    match state.1.getLast?, state.2 with
    | some last, some previous =>
      if index = previous + 1 then (extendLast state.1 last segment.2, some index)
      else (state.1 ++ [segment], some index)
    | _, _ => (state.1 ++ [segment], some index)

def spansFor (text : List Char) (segments : List Span) (chosen : List Nat) : Option (List Span) :=
  ((sortedSet chosen).foldlM (addSpan segments) ([], none)).map fun state =>
    state.1.filterMap (trimSpan text)

variable {F : Type}

-- The row shown for one of the page, or `none` for a dropped one; it raises with `spans_for`.
def selectRow (row : Option SelectorRow) (decision : Option RowDecision)
    (response : MemoryResponse F) : Option (Option (MemoryResponse F)) :=
  match decision, row with
  | some decision, some row =>
    if decision.relevant = false then some none
    else
      match row.content with
      | some text =>
        if decision.segments.isEmpty then some (some response)
        else
          (spansFor text row.segments decision.segments).map fun spans =>
            if spans.isEmpty then some response
            else
              some { response with
                content := some (separator.intercalate (spans.map (slice text)))
                spans := some spans }
      | none => some (some response)
  | _, _ => some (some response)

def applyFrom (rows : List SelectorRow) (decisions : Decisions) :
    Nat → List (MemoryResponse F) → Option (List (MemoryResponse F) × List MemoryId)
  | _, [] => some ([], [])
  | i, response :: rest => do
    let selected ← selectRow (rows.find? fun row => row.i = i) (decisions.lookup i) response
    let (page, dropped) ← applyFrom rows decisions (i + 1) rest
    match selected with
    | some shown => some (shown :: page, dropped)
    | none => some (page, response.memoryId :: dropped)

def applySelection (responses : List (MemoryResponse F)) (rows : List SelectorRow)
    (decisions : Decisions) : Option (List (MemoryResponse F) × List MemoryId) :=
  applyFrom rows decisions 0 responses

def segmentsPerRow (responses : List (MemoryResponse F)) (maxRows : Nat) : List Nat :=
  (rowsFor responses maxRows).map fun row => row.segments.length

-- The end of `run_selector`: an answer that does not parse leaves the page as it was.
def selectPage (responses : List (MemoryResponse F)) (maxRows : Nat) (answer : Json) :
    Option (List (MemoryResponse F) × List MemoryId) :=
  match parseSelection (segmentsPerRow responses maxRows) answer with
  | some decisions => applySelection responses (rowsFor responses maxRows) decisions
  | none => some (responses, [])

end Apply

end MemoryCloud.Selector
