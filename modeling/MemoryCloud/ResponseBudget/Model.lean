import MemoryCloud.Shared.Compact
import MemoryCloud.Shared.Dict

set_option autoImplicit false

/-!
# Response-size budgets

The unit is the characters of the compact JSON that the model reads. A list of
items is cut to a prefix, several lists share one budget, and a field can be
left out of the last items with markers in its place.
-/

namespace MemoryCloud.ResponseBudget

open MemoryCloud.Compact (Value)

abbrev Item := Dict String Value

def Item.json (item : Item) : Value := .object item.entries

def jsonChars (obj : Value) : Nat := (Compact.dumps obj).length

def fitFrom (budget : Int) (index : Nat) (used : Int) : List Value → Nat
  | [] => index
  | item :: rest =>
    let used := used + (jsonChars item + 1)
    if used > budget then index else fitFrom budget (index + 1) used rest

def fitItems (items : List Value) (budget : Int) : Nat := fitFrom budget 0 0 items

def dropKey (items : List Item) (key : String) : List Item := items.map fun item => item.erase key

def itemsChars (items : List Item) : Nat := (items.map fun item => jsonChars item.json + 1).sum

structure Fitted where
  lanes : List (List Item)
  cut : List Bool
  dropped : Bool

def fitEach (remaining : Int) : List (List Item) → List (List Item × Bool)
  | [] => []
  | lane :: rest =>
    let kept := fitItems (lane.map Item.json) remaining
    (lane.take kept, decide (kept < lane.length)) ::
      fitEach (remaining - itemsChars (lane.take kept)) rest

def carries (key : String) (lanes : List (List Item)) : Prop :=
  ∃ lane ∈ lanes, ∃ item ∈ lane, key ∈ item.keys

instance (key : String) (lanes : List (List Item)) : Decidable (carries key lanes) :=
  inferInstanceAs (Decidable (∃ _ ∈ _, _))

-- The lanes that are cut, and whether the droppable field was left out of them.
def leaveOut (droppable : Option String) (lanes : List (List Item)) : List (List Item) × Bool :=
  match droppable with
  | some key =>
    if carries key lanes then (lanes.map fun lane => dropKey lane key, true) else (lanes, false)
  | none => (lanes, false)

def fitLanes (lanes : List (List Item)) (budget : Int) (droppable : Option String) : Fitted :=
  if (lanes.map itemsChars).sum ≤ budget then
    { lanes, cut := List.replicate lanes.length false, dropped := false }
  else
    let (source, dropped) := leaveOut droppable lanes
    let fitted := fitEach budget source
    { lanes := fitted.map Prod.fst, cut := fitted.map Prod.snd, dropped }

section Omitting

variable (field : String) (budget : Int)

def replaced (item : Item) (value : Value) : Item :=
  ((item.erase field).set (field ++ "_omitted") (.bool true)).set (field ++ "_total_chars")
    (.int (jsonChars value))

structure Reply where
  out : List Item
  total : Int

-- One index of the loop. After the `break` every later index finds the total within the budget as
-- well.
def omitAt (reply : Reply) (index : Nat) : Reply :=
  if reply.total ≤ budget then reply
  else
    match reply.out[index]? with
    | none => reply
    | some item =>
      match item.get? field with
      | none => reply
      | some value =>
        let short := replaced field item value
        { out := reply.out.set index short
          total := reply.total + (jsonChars short.json - jsonChars item.json) }

def listChars (items : List Item) : Nat := jsonChars (.array (items.map Item.json))

def omitAll (items : List Item) (indices : List Nat) : Reply :=
  indices.foldl (omitAt field budget) { out := items, total := listChars items }

-- `range(len(out) - 1, -1, -1)`.
def backwards (items : List Item) : List Nat := (List.range items.length).reverse

end Omitting

def omitFieldToFit (items : List Item) (field : String) (budget : Int) : List Item :=
  (omitAll field budget items (backwards items)).out

end MemoryCloud.ResponseBudget
