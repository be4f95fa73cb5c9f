import Mathlib.Logic.Function.Basic

set_option autoImplicit false

/-!
# The daily memory quota

`check_memories_per_day`, `reserve_memories_per_day` and
`release_memories_per_day` of `services/quota_service.py` for one workspace. A
call is cut at its awaits: an action lets one call, one background task or the
clock take one step, and Redis answers each `INCRBY` at once.
-/

namespace MemoryCloud.Quota

def memoriesPerDayTtl : Nat := 86400

def secondsPerDay : Nat := 86400

-- The UTC date in `_memories_per_day_key`.
abbrev Day := Nat

structure Workspace where
  planName : String
  effectiveMemoriesPerDay : Nat
  deriving DecidableEq, Repr

structure DailyReservation where
  key : Day
  count : Int
  deriving DecidableEq, Repr

structure Refusal where
  planName : String
  limit : Nat
  usedToday : Int
  requested : Int
  today : Day
  deriving DecidableEq, Repr

inductive Answer where
  | notFound
  | allowed
  | refused (refusal : Refusal)
  | cancelled
  deriving DecidableEq, Repr

-- What one `INCRBY` put on the counter of `day`, with the value it returned. `stamp` numbers the
-- increments in the order Redis took them.
structure Hold where
  workspace : Workspace
  day : Day
  newTotal : Int
  stamp : Nat
  deriving DecidableEq, Repr

inductive Stage where
  -- The shielded increment has landed; the caller has not resumed.
  | waiting
  | refunding
  -- The caller was cancelled: `_undo_when_settled`.
  | undoing
  | granted
  | releasing
  -- A release whose caller was cancelled before its command left.
  | notReleased
  deriving DecidableEq, Repr

def Stage.isGranted : Stage → Bool
  | .granted => true
  | .releasing => true
  | .notReleased => true
  | _ => false

inductive Phase where
  | reading
  | incrementing (workspace : Workspace) (day : Day) (cancelled : Bool)
  | landed (hold : Hold) (stage : Stage)
  | answered (answer : Answer)
  | released (reservation : DailyReservation)
  deriving DecidableEq, Repr

-- `reserve` tells `reserve_memories_per_day` from `check_memories_per_day`, which hands out
-- nothing to release.
structure Call where
  reserve : Bool
  count : Int
  phase : Phase
  deriving DecidableEq, Repr

-- `createdAt` is the time of the increment that made the key; `expired` records the keys whose
-- counter is gone.
structure State where
  now : Nat
  counters : Day → Int
  createdAt : Day → Option Nat
  expired : Day → Bool
  calls : List Call
  increments : Nat

def State.today (state : State) : Day := state.now / secondsPerDay

def incrbyCounter (state : State) (day : Day) (amount : Int) : State :=
  { state with
    counters := Function.update state.counters day (state.counters day + amount)
    createdAt := Function.update state.createdAt day ((state.createdAt day).or (some state.now)) }

def setPhase (state : State) (id : Nat) (call : Call) (phase : Phase) : State :=
  { state with calls := state.calls.set id { call with phase } }

def refuse (workspace : Workspace) (today : Day) (count usedToday : Int) : Answer :=
  .refused
    { planName := workspace.planName, limit := workspace.effectiveMemoriesPerDay
      usedToday, requested := count, today }

-- Up to the increment: the workspace row, the count, the zero floor.
def afterRead (today : Day) (count : Int) : Option Workspace → Phase
  | none => .answered .notFound
  | some workspace =>
    if count ≤ 0 then .answered .allowed
    else if workspace.effectiveMemoriesPerDay = 0 then .answered (refuse workspace today count 0)
    else .incrementing workspace today false

def afterIncrement (hold : Hold) : Phase :=
  if hold.newTotal > hold.workspace.effectiveMemoriesPerDay then .landed hold .refunding
  else .landed hold .granted

inductive Action where
  | begin (reserve : Bool) (count : Int)
  | read (id : Nat) (workspace : Option Workspace)
  -- Redis takes the call's `INCRBY`.
  | increment (id : Nat)
  | resume (id : Nat)
  -- Redis takes the decrement of a refund, an undo or a release.
  | decrement (id : Nat)
  | release (id : Nat)
  -- `sent` tells whether the command in flight had left.
  | cancel (id : Nat) (sent : Bool)
  | tick (seconds : Nat)
  | expire (day : Day)
  deriving DecidableEq, Repr

def read (state : State) (id : Nat) (workspace : Option Workspace) : Option State :=
  match state.calls[id]? with
  | none => none
  | some call =>
    match call.phase with
    | .reading => some (setPhase state id call (afterRead state.today call.count workspace))
    | _ => none

def increment (state : State) (id : Nat) : Option State :=
  match state.calls[id]? with
  | none => none
  | some call =>
    match call.phase with
    | .incrementing workspace day cancelled =>
      let after := incrbyCounter state day call.count
      let hold : Hold :=
        { workspace, day, newTotal := after.counters day, stamp := state.increments }
      some { setPhase after id call (.landed hold (if cancelled then .undoing else .waiting)) with
        increments := state.increments + 1 }
    | _ => none

def resume (state : State) (id : Nat) : Option State :=
  match state.calls[id]? with
  | none => none
  | some call =>
    match call.phase with
    | .landed hold .waiting => some (setPhase state id call (afterIncrement hold))
    | _ => none

-- Who gets the answer of a refund may be gone; the counter is lowered all the same.
def decrement (state : State) (id : Nat) : Option State :=
  match state.calls[id]? with
  | none => none
  | some call =>
    match call.phase with
    | .landed hold .refunding =>
      some (setPhase (incrbyCounter state hold.day (-call.count)) id call (.answered
        (refuse hold.workspace hold.day call.count (hold.newTotal - call.count))))
    | .landed hold .undoing =>
      some (setPhase (incrbyCounter state hold.day (-call.count)) id call (.answered .cancelled))
    | .landed hold .releasing =>
      let reservation : DailyReservation := { key := hold.day, count := call.count }
      some (setPhase (incrbyCounter state reservation.key (-reservation.count)) id call
        (.released reservation))
    | _ => none

def release (state : State) (id : Nat) : Option State :=
  match state.calls[id]? with
  | none => none
  | some call =>
    match call.phase with
    | .landed hold .granted =>
      if call.reserve then some (setPhase state id call (.landed hold .releasing)) else none
    | _ => none

-- A cancellation at the await the call is at. Between the grant and the answer there is none.
def cancel (state : State) (id : Nat) (sent : Bool) : Option State :=
  match state.calls[id]? with
  | none => none
  | some call =>
    match call.phase with
    | .reading => some (setPhase state id call (.answered .cancelled))
    | .incrementing workspace day false =>
      some (setPhase state id call (.incrementing workspace day true))
    | .landed hold .waiting => some (setPhase state id call (.landed hold .undoing))
    | .landed _ .refunding => some state
    | .landed hold .releasing =>
      if sent then some state else some (setPhase state id call (.landed hold .notReleased))
    | _ => none

def step (state : State) : Action → Option State
  | .begin reserve count =>
    some { state with calls := state.calls ++ [{ reserve, count, phase := .reading }] }
  | .read id workspace => read state id workspace
  | .increment id => increment state id
  | .resume id => resume state id
  | .decrement id => decrement state id
  | .release id => release state id
  | .cancel id sent => cancel state id sent
  | .tick seconds => some { state with now := state.now + seconds }
  | .expire day =>
    match state.createdAt day with
    | none => none
    | some created =>
      if created + memoriesPerDayTtl ≤ state.now then
        some { state with
          counters := Function.update state.counters day 0
          createdAt := Function.update state.createdAt day none
          expired := Function.update state.expired day true }
      else none

def initial (now : Nat) : State where
  now := now
  counters := fun _ => 0
  createdAt := fun _ => none
  expired := fun _ => false
  calls := []
  increments := 0

end MemoryCloud.Quota
