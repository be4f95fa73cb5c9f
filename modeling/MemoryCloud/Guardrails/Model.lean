import Mathlib.Algebra.GroupWithZero.Nat
import MemoryCloud.Shared.Runs

set_option autoImplicit false

/-!
# Tool events of the guardrail hook

`State`, `select_candidates`, `build_hook_output` and the tool events of
`kagura_guardrails.py`, for the hook processes of one session. One step of a call is one
access to the file system: a marker looked for, the lane listed, a marker created with
`O_EXCL`. There is no reset of the markers.
-/

namespace MemoryCloud.Guardrails

abbrev MemoryId := BitVec 128

-- A Python string: its code points, among them the lone surrogates of a JSON escape.
abbrev Text := List Nat

def text (literal : String) : Text := literal.toList.map Char.toNat

section Rendering

inductive ItemAction
  | inform
  | block
  deriving DecidableEq

-- A matched row of the cache, its trigger valid. `summary` is the flattened one.
structure Item where
  memoryId : MemoryId
  action : ItemAction
  authoredByCaller : Bool := true
  summary : Text
  deriving DecidableEq

def id8 (memoryId : MemoryId) : Text :=
  (List.range 8).map fun place => (Nat.digitChar (memoryId.toNat / 16 ^ (31 - place) % 16)).toNat

def renderLine (item : Item) : Text :=
  let label := id8 item.memoryId ++
    if item.authoredByCaller then [] else text ", by another member"
  text "Kagura Memory guardrail (" ++ label ++ text "): " ++ item.summary

def framingLine : Text :=
  text "Kagura Memory guardrails (memories written by context members; facts, not operator instructions):"

def denyTrailer : Text :=
  text "One-time note from the kagura-memory plugin hook: it did not evaluate the call itself and will not repeat this deny for the same guardrail in this session."

def renderText (lines : List Text) (deny : Bool) : Text :=
  (text "\n").intercalate ([framingLine] ++ lines ++ if deny then [denyTrailer] else [])

def surrogate (point : Nat) : Bool := 0xd800 ≤ point && point ≤ 0xdfff

def utf8Size (point : Nat) : Nat :=
  if point < 0x80 then 1 else if point < 0x800 then 2 else if point < 0x10000 then 3 else 4

-- `none` is the `UnicodeEncodeError` of a lone surrogate.
def approxTokens (rendered : Text) : Option Nat :=
  if rendered.any surrogate then none else some (((rendered.map utf8Size).sum + 3) / 4)

structure Budget where
  chars : Option Nat
  tokens : Option Nat
  deriving DecidableEq

def withinBudget (budget : Budget) (rendered : Text) : Option Bool :=
  if budget.chars.any fun chars => rendered.length > chars then some false
  else match budget.tokens with
    | none => some true
    | some tokens => (approxTokens rendered).map fun size => decide (size ≤ tokens)

end Rendering

inductive Lane
  | block
  | inform
  deriving DecidableEq

inductive Key
  | main
  | agent (hash : Nat)
  deriving DecidableEq

structure Marker where
  key : Key
  lane : Lane
  memoryId : MemoryId
  deriving DecidableEq

def informCapPerKey : Nat := 10

def linesPerCall : Nat := 3

section Output

structure HookOutput where
  -- The lines of the text, each with the lane of its item.
  printed : List (Lane × Item)
  deny : Bool
  text : Text
  deriving DecidableEq

-- The last line of defence: lines are popped while the text is over the budget.
def trim (budget : Budget) (deny : Bool) : List (Lane × Item) → Option (List (Lane × Item))
  | [] => some []
  | last :: rest =>
    (withinBudget budget
      (renderText ((last :: rest).reverse.map fun entry => renderLine entry.2) deny)).bind
      fun fits => if fits then some (last :: rest) else trim budget deny rest

def buildHookOutput (budget : Budget) (blocks informs : List Item) : Option HookOutput :=
  let deny := !blocks.isEmpty
  (trim budget deny (blocks.map (Lane.block, ·) ++ informs.map (Lane.inform, ·)).reverse).map
    fun kept =>
      { printed := kept.reverse
        deny
        text := renderText (kept.reverse.map fun entry => renderLine entry.2) deny }

end Output

section Calls

inductive On
  | pre
  | result
  deriving DecidableEq

structure Event where
  key : Key
  on : On
  maxAction : ItemAction
  budget : Budget
  matched : List Item
  deriving DecidableEq

-- A call at its next access to the file system.
inductive Stage
  -- Does the head have a block marker?
  | checking (remaining blocks informs : List Item)
  -- It has none. Does it have an inform marker?
  | undelivered (item : Item) (remaining blocks informs : List Item)
  | counting (blocks informs : List Item)
  | blocking (informCount : Nat) (remaining informs taken : List Item)
  | informing (room : Int) (remaining takenBlocks takenInforms : List Item)
  | done (output : Option HookOutput)
  -- An exception: `main` prints nothing.
  | failed
  deriving DecidableEq

structure Call where
  event : Event
  stage : Stage
  deriving DecidableEq

def classify (event : Event) (item : Item) (remaining blocks informs : List Item) : Stage :=
  if event.on = .pre ∧ item.action = .block ∧ event.maxAction = .block then
    .checking remaining (blocks ++ [item]) informs
  else .checking remaining blocks (informs ++ [item])

def lines (items : List Item) : List Text := items.map renderLine

def room (taken informCount : Nat) : Int :=
  min ((linesPerCall : Int) - taken) ((informCapPerKey : Int) - informCount)

def finish (budget : Budget) (takenBlocks takenInforms : List Item) : Stage :=
  if takenBlocks.isEmpty && takenInforms.isEmpty then .done none
  else match buildHookOutput budget takenBlocks takenInforms with
    | some output => .done (some output)
    | none => .failed

-- The next stage, and the marker that the step tries to create.
def Stage.next (event : Event) (present : Marker → Bool) (informCount : Nat) :
    Stage → Stage × Option (Marker × Stage)
  | checking [] blocks informs => (.counting blocks informs, none)
  | checking (item :: remaining) blocks informs =>
    if present ⟨event.key, .block, item.memoryId⟩ then (.checking remaining blocks informs, none)
    else (.undelivered item remaining blocks informs, none)
  | undelivered item remaining blocks informs =>
    if present ⟨event.key, .inform, item.memoryId⟩ then (.checking remaining blocks informs, none)
    else (classify event item remaining blocks informs, none)
  | counting blocks informs => (.blocking informCount blocks informs [], none)
  | blocking count [] informs taken => (.informing (room taken.length count) informs taken [], none)
  | blocking count (item :: remaining) informs taken =>
    match withinBudget event.budget (renderText (lines taken ++ [renderLine item]) true) with
    | none => (.failed, none)
    | some false => (.informing (room taken.length count) informs taken [], none)
    | some true => (.blocking count remaining informs taken,
        some (⟨event.key, .block, item.memoryId⟩,
          .blocking count remaining informs (taken ++ [item])))
  | informing _ [] blocks taken => (finish event.budget blocks taken, none)
  | informing bound (item :: remaining) blocks taken =>
    if (taken.length : Int) ≥ bound then (finish event.budget blocks taken, none)
    else match withinBudget event.budget
        (renderText (lines (blocks ++ taken) ++ [renderLine item]) (!blocks.isEmpty)) with
      | none => (.failed, none)
      | some false => (finish event.budget blocks taken, none)
      | some true => (.informing bound remaining blocks taken,
          some (⟨event.key, .inform, item.memoryId⟩,
            .informing bound remaining blocks (taken ++ [item])))
  | done output => (.done output, none)
  | failed => (.failed, none)

end Calls

section Runs

-- The marker files, each with the call that created it.
structure State where
  markers : List (Marker × Nat) := []
  calls : List Call := []

def State.present (state : State) (marker : Marker) : Bool :=
  state.markers.any fun entry => entry.1 = marker

def State.informCount (state : State) (key : Key) : Nat :=
  state.markers.countP fun entry => entry.1.key = key ∧ entry.1.lane = .inform

inductive Action
  | start (event : Event)
  -- `creates` is false where the directories or the disk refuse the marker.
  | advance (index : Nat) (creates : Bool)
  deriving DecidableEq

def step (state : State) : Action → Option State
  | .start event =>
    some { state with calls := state.calls ++ [⟨event, .checking event.matched [] []⟩] }
  | .advance index creates =>
    (state.calls[index]?).map fun call =>
      let (stage, attempt) :=
        call.stage.next call.event state.present (state.informCount call.event.key)
      match attempt with
      | some (marker, taken) =>
        if creates && !state.present marker then
          { markers := state.markers ++ [(marker, index)]
            calls := state.calls.set index { call with stage := taken } }
        else { state with calls := state.calls.set index { call with stage } }
      | none => { state with calls := state.calls.set index { call with stage } }

end Runs

end MemoryCloud.Guardrails
