import Mathlib.Data.List.Nodup
import Mathlib.Data.List.Sort
import MemoryCloud.Shared.Json

set_option autoImplicit false

/-!
# Pages of agent state

`services/agent_state_service.py`: the live entries of a context in key order, and the bounded
page that is shaped from them.
-/

namespace MemoryCloud.AgentState

section Sizes

-- `ensure_ascii=False` escapes only quotes, backslashes and control characters.
def plainChar (character : Char) : List Char :=
  if character.toNat < 32 ∨ character = '"' ∨ character = '\\' then Json.escape character.toNat
  else [character]

def plainQuote (text : String) : List Char :=
  '"' :: text.toList.flatMap plainChar ++ ['"']

mutual
def compact : Json → List Char
  | .null => "null".toList
  | .bool true => "true".toList
  | .bool false => "false".toList
  | .int value => Json.intText value
  | .float value => value.text
  | .string value => plainQuote value
  | .array [] => ['[', ']']
  | .array (item :: rest) => '[' :: compact item ++ compactItems rest
  | .object [] => ['{', '}']
  | .object ((key, value) :: rest) =>
      '{' :: plainQuote key ++ ':' :: compact value ++ compactMembers rest
def compactItems : List Json → List Char
  | [] => [']']
  | item :: rest => ',' :: compact item ++ compactItems rest
def compactMembers : List (String × Json) → List Char
  | [] => ['}']
  | (key, value) :: rest => ',' :: plainQuote key ++ ':' :: compact value ++ compactMembers rest
end

def jsonChars (value : Json) : Nat :=
  (compact value).length

end Sizes

section Pages

structure Page where
  states : List (String × Json)
  omitted : List String
  used : Nat
  lastKey : Option String
  stoppedEarly : Bool

structure StatePage where
  states : List (String × Json)
  count : Nat
  hasMore : Bool
  nextCursor : Option String
  omittedKeys : Option (List String)

-- `"key":value` with a comma, and a key named in `omitted_keys` with one.
def entryChars (key : String) (value : Json) : Nat :=
  jsonChars (.string key) + jsonChars value + 2

def markerChars (key : String) : Nat :=
  jsonChars (.string key) + 1

def placeEntries (budget : Nat) : List (String × Json) → Page → Page
  | [], page => page
  | (key, value) :: rest, page =>
      if entryChars key value > budget then
        if page.used + markerChars key > budget then { page with stoppedEarly := true }
        else
          placeEntries budget rest
            { page with
              omitted := page.omitted ++ [key]
              used := page.used + markerChars key
              lastKey := some key }
      else if page.used + entryChars key value > budget then { page with stoppedEarly := true }
      else
        placeEntries budget rest
          { page with
            states := page.states ++ [(key, value)]
            used := page.used + entryChars key value
            lastKey := some key }

def boundStatePage (rows : List (String × Json)) (limit budget : Nat) : StatePage :=
  let page := placeEntries budget (rows.take limit)
    { states := [], omitted := [], used := 0, lastKey := none, stoppedEarly := false }
  let hasMore := page.stoppedEarly || decide (limit < rows.length)
  { states := page.states
    count := page.states.length
    hasMore
    nextCursor := if hasMore then page.lastKey else none
    omittedKeys := if page.omitted = [] then none else some page.omitted }

end Pages

section Tables

variable {Context Time : Type} [DecidableEq Context] [LinearOrder Time]

structure Row (Context Time : Type) where
  contextId : Context
  key : String
  value : Json
  expiresAt : Option Time

structure StateTable (Context Time : Type) where
  rows : List (Row Context Time)
  unique : (rows.map fun row => (row.contextId, row.key)).Nodup

def Row.expired (row : Row Context Time) (now : Time) : Bool :=
  row.expiresAt.any fun expiry => decide (expiry ≤ now)

def Row.live (row : Row Context Time) (now : Time) : Bool :=
  row.expiresAt.all fun expiry => decide (now < expiry)

def reapExpiredContext (table : StateTable Context Time) (contextId : Context) (now : Time) :
    StateTable Context Time where
  rows := table.rows.filter fun row => !(decide (row.contextId = contextId) && row.expired now)
  unique := table.unique.sublist (List.filter_sublist.map _)

-- A collation compares texts by their sort keys and keeps different texts apart.
structure Collation (K : Type) where
  sortKey : String → K
  deterministic : Function.Injective sortKey

variable {K : Type} [LinearOrder K]

def afterKey (collation : Collation K) (key : String) : Option String → Bool
  | none => true
  | some cursor => decide (collation.sortKey cursor < collation.sortKey key)

def liveEntries (table : StateTable Context Time) (contextId : Context) (now : Time) :
    List (String × Json) :=
  (table.rows.filter fun row => decide (row.contextId = contextId) && row.live now).map
    fun row => (row.key, row.value)

structure Request (Context Time : Type) [LinearOrder Time] where
  table : StateTable Context Time
  sweptAt : Time
  now : Time
  forward : sweptAt ≤ now

def listStatePage (collation : Collation K) (request : Request Context Time) (contextId : Context)
    (cursor : Option String) (limit : Nat) : List (String × Json) :=
  let swept := reapExpiredContext request.table contextId request.sweptAt
  let found := swept.rows.filter fun row =>
    decide (row.contextId = contextId) && row.live request.now && afterKey collation row.key cursor
  ((found.insertionSort fun left right => collation.sortKey left.key ≤ collation.sortKey right.key).map
    fun row => (row.key, row.value)).take limit

end Tables

end MemoryCloud.AgentState
