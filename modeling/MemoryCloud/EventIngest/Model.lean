import Mathlib.Algebra.GroupWithZero.Nat
import Mathlib.Data.Rat.Defs

set_option autoImplicit false

/-!
# Validation of resource events

`validate_events` of `services/resource_ingest_service.py` on the values that Python's `json` reads,
with a NaN and infinities among its floats.
-/

namespace MemoryCloud.EventIngest

inductive Float where
  | nan
  | infinite (negative : Bool)
  | finite (value : ℚ)
  deriving DecidableEq

namespace Float

def below (number : Float) (bound : ℚ) : Bool :=
  match number with
  | nan => false
  | infinite negative => negative
  | finite value => value < bound

def above (number : Float) (bound : ℚ) : Bool :=
  match number with
  | nan => false
  | infinite negative => !negative
  | finite value => bound < value

end Float

inductive Value where
  | null
  | bool (value : Bool)
  | int (value : Int)
  | float (value : Float)
  | string (value : String)
  | array (items : List Value)
  | object (members : List (String × Value))

def Value.truthy : Value → Bool
  | null => false
  | bool value => value
  | int value => value ≠ 0
  | float value => value ≠ .finite 0
  | string value => value ≠ ""
  | array items => !items.isEmpty
  | object members => !members.isEmpty

-- `event_data.get(key)`
def get (members : List (String × Value)) (key : String) : Value := (members.lookup key).getD .null

section Conversions

-- What the texts of the values come to: `int` and `float` of a string, which refuse with
-- `ValueError`, and the bytes of `json.dumps`.
structure Texts where
  parseInt : String → Option Int
  parseFloat : String → Option Float
  dumpedBytes : Value → Nat

variable (texts : Texts)

inductive Stop (E : Type) where
  -- An exception that nothing catches: `OverflowError`.
  | raised
  | error (error : E)

-- A conversion with the `ValueError` and `TypeError` that its caller catches.
abbrev Converted (A : Type) := Except (Stop Unit) A

-- Integers from here on have no double: the next one is out of range.
def floatLimit : Nat := 2 ^ 1024 - 2 ^ 970

def toInt : Value → Converted Int
  | .bool value => .ok (if value then 1 else 0)
  | .int value => .ok value
  | .float (.finite value) => .ok (value.num.tdiv value.den)
  | .float (.infinite _) => .error .raised
  | .string value =>
    match texts.parseInt value with
    | some number => .ok number
    | none => .error (.error ())
  | _ => .error (.error ())

-- `float(value)`. A large integer is rounded; it stays on its side of zero and one.
def toFloat : Value → Converted Float
  | .bool value => .ok (.finite (if value then 1 else 0))
  | .int value => if value.natAbs < floatLimit then .ok (.finite value) else .error .raised
  | .float value => .ok value
  | .string value =>
    match texts.parseFloat value with
    | some number => .ok number
    | none => .error (.error ())
  | _ => .error (.error ())

end Conversions

inductive Kind where
  | notAnObject
  | invalidOp
  | missingDocId
  | payloadRequired
  | versionNotInt
  | versionTooSmallUpsert
  | payloadTooLarge
  | importanceNotNumber
  | importanceOutOfRange
  | payloadNotNullDelete
  | versionTooSmall
  deriving DecidableEq, Repr

structure IngestItemError where
  index : Nat
  kind : Kind
  docId : Option Value
  detail : List (String × Value)

structure IngestEventInput where
  index : Nat
  op : Value
  docId : Value
  version : Option Int
  payload : Option Value
  idempotencyKey : Value
  eventMetadata : Value
  importance : Float

def maxPayloadSizeBytes : Nat := 100000

def defaultImportance : ℚ := 3 / 5

section Validation

variable (texts : Texts)

-- Inside `try`: the error of the item stands for what the conversion refuses.
def caught {A : Type} (error : IngestItemError) (converted : Converted A) :
    Except (Stop IngestItemError) A :=
  converted.mapError fun stop =>
    match stop with
    | .raised => .raised
    | .error _ => .error error

def isOp (op : Value) : Bool :=
  match op with
  | .string name => name = "upsert" || name = "delete"
  | _ => false

def isUpsert (op : Value) : Bool :=
  match op with
  | .string name => name = "upsert"
  | _ => false

def isNull (value : Value) : Bool :=
  match value with
  | .null => true
  | _ => false

def isEmptyObject (value : Value) : Bool :=
  match value with
  | .object [] => true
  | _ => false

def upsertVersion (error : Kind → IngestItemError) (payload version : Value) :
    Except (Stop IngestItemError) Int := do
  if !payload.truthy then throw (.error (error .payloadRequired))
  if isNull version then throw (.error (error .versionTooSmallUpsert))
  let number ← caught (error .versionNotInt) (toInt texts version)
  if number < 1 then throw (.error (error .versionTooSmallUpsert))
  return number

def checkPayloadSize (error : Kind → IngestItemError) (payload : Value) :
    Except (Stop IngestItemError) Unit := do
  if payload.truthy then
    let payloadSize := texts.dumpedBytes payload
    if maxPayloadSizeBytes < payloadSize then
      throw (.error { error .payloadTooLarge with
        detail := [("payload_size", .int payloadSize), ("max", .int maxPayloadSizeBytes)] })

def readImportance (error : Kind → IngestItemError) (raw : Value) :
    Except (Stop IngestItemError) Float := do
  if isNull raw then return .finite defaultImportance
  let importance ← caught (error .importanceNotNumber) (toFloat texts raw)
  if importance.below 0 || importance.above 1 then throw (.error (error .importanceOutOfRange))
  return importance

def deleteVersion (error : Kind → IngestItemError) (payload version : Value) :
    Except (Stop IngestItemError) (Option Int) := do
  if !isNull payload && !isEmptyObject payload then throw (.error (error .payloadNotNullDelete))
  if isNull version then return none
  let number ← caught (error .versionNotInt) (toInt texts version)
  if number < 1 then throw (.error (error .versionTooSmall))
  return some number

def validateEvent (index : Nat) (eventData : Value) :
    Except (Stop IngestItemError) IngestEventInput := do
  match eventData with
  | .object members =>
    let op := get members "op"
    let docId := get members "doc_id"
    if !isOp op then
      throw (.error { index, kind := .invalidOp, docId := none, detail := [("op", op)] })
    if !docId.truthy then
      throw (.error { index, kind := .missingDocId, docId := none, detail := [] })
    let error : Kind → IngestItemError := fun kind =>
      { index, kind, docId := some docId, detail := [] }
    let payload := get members "payload"
    let upserted ←
      if isUpsert op then some <$> upsertVersion texts error payload (get members "version")
      else pure none
    checkPayloadSize texts error payload
    let importance ← readImportance texts error (get members "importance")
    let version ←
      if isUpsert op then pure upserted
      else deleteVersion texts error payload (get members "version")
    return {
      index, op, docId, version, importance
      payload := if isUpsert op then some payload else none
      idempotencyKey := get members "idempotency_key"
      eventMetadata := (members.lookup "event_metadata").getD (.object []) }
  | _ => throw (.error { index, kind := .notAnObject, docId := none, detail := [] })

-- The loop from an index on; `none` where an exception leaves it.
def validateFrom : Nat → List Value → Option (List IngestEventInput × List IngestItemError)
  | _, [] => some ([], [])
  | index, eventData :: rest =>
    match validateEvent texts index eventData with
    | .error .raised => none
    | .error (.error error) =>
      (validateFrom (index + 1) rest).map fun (valid, errors) => (valid, error :: errors)
    | .ok input =>
      (validateFrom (index + 1) rest).map fun (valid, errors) => (input :: valid, errors)

def validateEvents (rawEvents : List Value) :
    Option (List IngestEventInput × List IngestItemError) :=
  validateFrom texts 0 rawEvents

end Validation

end MemoryCloud.EventIngest
