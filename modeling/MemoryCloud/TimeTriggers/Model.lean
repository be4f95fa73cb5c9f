import MemoryCloud.Shared.Dict
import MemoryCloud.Shared.Json
import MemoryCloud.TimeTriggers.Calendar

set_option autoImplicit false

/-!
# Time triggers

`utils/time_trigger.py`: the window that the components of a trigger derive,
and the bounds of a query, as texts of one width that are compared as texts.
-/

namespace MemoryCloud.TimeTriggers

open Changes

-- `_iso`: to the second, without a zone.
def iso (at_ : DateTime) : String :=
  String.ofList (digits 10 4 at_.year ++ '-' :: (digits 10 2 at_.month ++ '-' ::
    (digits 10 2 at_.day ++ 'T' :: (digits 10 2 at_.hour ++ ':' :: (digits 10 2 at_.minute ++
      ':' :: digits 10 2 at_.second)))))

inductive Raised
  | triggerValidationError (message : String)
  -- `datetime(...)` on fields that are none.
  | valueError
  | overflowError
  deriving DecidableEq

abbrev Trigger := Dict String Json

inductive TriggerValue
  | object (trigger : Trigger)
  | other

section Components

structure Components where
  year : Nat
  month : Option Nat
  day : Option Nat
  hour : Option Nat
  minute : Option Nat

-- `trigger.get(key)`.
def component (trigger : Trigger) (key : String) : Option Json :=
  match trigger.get? key with
  | some .null => none
  | found => found

def requireInt (value : Json) (name : String) : Except Raised Int :=
  match value with
  | .int value => .ok value
  | _ => .error (.triggerValidationError ("trigger." ++ name ++ " must be an integer"))

def inRange (value : Json) (name : String) (least most : Nat) (message : String) :
    Except Raised Nat := do
  let value ← requireInt value name
  if least ≤ value ∧ value ≤ most then .ok value.toNat
  else .error (.triggerValidationError message)

def optionally (value : Option Json) (name : String) (least most : Nat) (message : String) :
    Except Raised (Option Nat) :=
  match value with
  | none => .ok none
  | some value => (inRange value name least most message).map some

def skippedLevel (month day hour minute : Option Json) : Option String :=
  if month.isNone ∧ (day.isSome ∨ hour.isSome ∨ minute.isSome) then
    some "trigger.month required when day/hour/minute set"
  else if day.isNone ∧ (hour.isSome ∨ minute.isSome) then
    some "trigger.day required when hour/minute set"
  else if minute.isSome ∧ hour.isNone then some "trigger.hour required when minute set"
  else none

-- The checks on the components, in their order. A day is checked against a month, which the levels
-- require.
def components (trigger : Trigger) : Except Raised Components :=
  match component trigger "year" with
  | none => .error (.triggerValidationError "trigger.year is required")
  | some year => do
    let year ← inRange year "year" 1 9999 "trigger.year out of range (1-9999)"
    let month := component trigger "month"
    let day := component trigger "day"
    let hour := component trigger "hour"
    let minute := component trigger "minute"
    match skippedLevel month day hour minute with
    | some message => .error (.triggerValidationError message)
    | none =>
      let month ← optionally month "month" 1 12 "trigger.month out of range (1-12)"
      let day ← optionally day "day" 1 (daysInMonth year (month.getD 1))
        "trigger.day out of range for the given month"
      let hour ← optionally hour "hour" 0 23 "trigger.hour out of range (0-23)"
      let minute ← optionally minute "minute" 0 59 "trigger.minute out of range (0-59)"
      .ok { year, month, day, hour, minute }

end Components

section Windows

def datetime (year month day hour minute second : Nat) : Except Raised DateTime :=
  match DateTime.make? year month day hour minute second 0 with
  | some at_ => .ok at_
  | none => .error .valueError

structure Window where
  frm : DateTime
  until_ : DateTime

-- The deepest component that is given decides the width.
def window (parts : Components) : Except Raised Window :=
  match parts.month, parts.day, parts.hour, parts.minute with
  | none, _, _, _ => do
    let frm ← datetime parts.year 1 1 0 0 0
    let until_ ← datetime parts.year 12 31 23 59 59
    .ok { frm, until_ }
  | some month, none, _, _ => do
    let frm ← datetime parts.year month 1 0 0 0
    let until_ ← datetime parts.year month (daysInMonth parts.year month) 23 59 59
    .ok { frm, until_ }
  | some month, some day, none, _ => do
    let frm ← datetime parts.year month day 0 0 0
    let until_ ← datetime parts.year month day 23 59 59
    .ok { frm, until_ }
  | some month, some day, some hour, none => do
    let frm ← datetime parts.year month day hour 0 0
    let until_ ← datetime parts.year month day hour 59 59
    .ok { frm, until_ }
  | some month, some day, some hour, some minute => do
    let frm ← datetime parts.year month day hour minute 0
    let until_ ← datetime parts.year month day hour minute 59
    .ok { frm, until_ }

def echoed : Option Nat → Json
  | none => .null
  | some value => .int value

def written (trigger : Trigger) (parts : Components) (window : Window) : Trigger :=
  ((((((trigger.set "year" (.int parts.year)).set "month" (echoed parts.month)).set "day"
    (echoed parts.day)).set "hour" (echoed parts.hour)).set "minute" (echoed parts.minute)).set
      "from" (.string (iso window.frm))).set "until" (.string (iso window.until_))

def normalizeObject (trigger : Trigger) : Except Raised Trigger := do
  let parts ← components trigger
  let window ← window parts
  .ok (written trigger parts window)

def normalizeTrigger : TriggerValue → Except Raised Trigger
  | .object trigger => normalizeObject trigger
  | .other => .error (.triggerValidationError "trigger must be an object")

end Windows

section Bounds

-- A `datetime` and, when it is aware, its `utcoffset()` in microseconds.
structure Moment where
  at_ : DateTime
  offset : Option Int
  offsetWithin : ∀ micros ∈ offset, -dayLength < micros ∧ micros < dayLength

-- The clock, and `datetime.fromisoformat`; `none` where it raises `ValueError`.
structure Host where
  utcnow : DateTime
  fromisoformat : String → Option Moment
  repr : String → String

def isspace (character : Char) : Bool :=
  character.toNat ∈ [9, 10, 11, 12, 13, 28, 29, 30, 31, 32, 0x85, 0xA0, 0x1680, 0x2000, 0x2001,
    0x2002, 0x2003, 0x2004, 0x2005, 0x2006, 0x2007, 0x2008, 0x2009, 0x200A, 0x2028, 0x2029, 0x202F,
    0x205F, 0x3000]

-- `value.strip().lower() == "now"`: no character outside ASCII has one of these as its lower case.
def isNow (value : String) : Bool :=
  ((value.toList.dropWhile isspace).reverse.dropWhile isspace).reverse.map Char.toLower =
    "now".toList

inductive BoundValue
  | none
  | text (value : String)
  | other

-- `dt.astimezone(UTC).replace(tzinfo=None)` for an aware value.
def naiveUtc (moment : Moment) : Except Raised DateTime :=
  match moment.offset with
  | none => .ok moment.at_
  | some offset =>
    match minus moment.at_ offset with
    | some at_ => .ok at_
    | none => .error .overflowError

def parseQueryBound (host : Host) : BoundValue → Except Raised (Option String)
  | .none => .ok none
  | .text value =>
    if isNow value then .ok (some (iso host.utcnow))
    else
      match host.fromisoformat value with
      | none => .error (.triggerValidationError ("invalid time bound " ++ host.repr value ++
          ": expected a zero-padded ISO datetime (e.g. 2026-07-01T00:00:00) or 'now'"))
      | some moment => (naiveUtc moment).map fun at_ => some (iso at_)
  | .other =>
    .error (.triggerValidationError "time bound must be an ISO datetime string or 'now'")

end Bounds

end MemoryCloud.TimeTriggers
