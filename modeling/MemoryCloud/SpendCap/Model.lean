import Mathlib.Logic.Function.Basic
import MemoryCloud.Shared.Decimals

set_option autoImplicit false

/-!
# The embedding spend cap

`check_cap_or_raise` and `record_spend` of `services/embedding_spend_cap_service.py` on the counters
that Redis holds. Every command reaches Redis, and one clock counts its times to live and names the
period. A call is at one instant.
-/

namespace MemoryCloud.SpendCap

open Decimals

def dailyTtlSeconds : Int := 25 * 3600

def monthlyTtlSeconds : Int := 32 * 24 * 3600

def microUsd : Nat := 1000000

inductive Period where
  | daily
  | monthly
  deriving DecidableEq, Repr

def Period.ttl : Period → Int
  | .daily => dailyTtlSeconds
  | .monthly => monthlyTtlSeconds

-- A time in UTC, its months counted on.
structure Instant where
  month : Nat
  day : Fin 31
  second : Fin 86400
  deriving DecidableEq, Repr

def Instant.clock (monthStart : Nat → Int) (now : Instant) : Int :=
  monthStart now.month + 86400 * now.day.val + now.second.val

-- `%Y-%m-%d` or `%Y-%m`.
def Period.bucket (period : Period) (now : Instant) : Nat × Option (Fin 31) :=
  match period with
  | .daily => (now.month, some now.day)
  | .monthly => (now.month, none)

section Counters

variable {W : Type} [DecidableEq W]

structure Key (W : Type) where
  workspaceId : W
  period : Period
  bucket : Nat × Option (Fin 31)
  deriving DecidableEq

def counterKey (period : Period) (workspaceId : W) (now : Instant) : Key W :=
  { workspaceId, period, bucket := period.bucket now }

structure Counter where
  count : Int
  expires : Option Int
  deriving DecidableEq, Repr

abbrev Store (W : Type) := Key W → Option Counter

def Store.live (store : Store W) (key : Key W) (now : Int) : Option Counter :=
  (store key).filter fun counter => counter.expires.all (now < ·)

def maxCount : Int := 2 ^ 63 - 1

-- `INCRBY`, then a time to live for a key that has none. Redis refuses an amount or a sum that 64
-- bits do not hold.
def incrbyCounter (store : Store W) (now : Int) (key : Key W) (amount ttl : Int) :
    Option (Int × Store W) :=
  let held := store.live key now
  let count := (held.map Counter.count).getD 0 + amount
  if maxCount < amount ∨ maxCount < count then none
  else
    let expires := (held.bind Counter.expires).getD (now + ttl)
    some (count, Function.update store key (some { count, expires := some expires }))

end Counters

section Service

variable {W : Type} [DecidableEq W] (monthStart : Nat → Int)

structure Workspace (W : Type) where
  id : W
  effectiveEmbeddingDailyCapUsd : Option ℚ
  effectiveEmbeddingMonthlyCapUsd : Option ℚ

def Workspace.cap (workspace : Workspace W) : Period → Option ℚ
  | .daily => workspace.effectiveEmbeddingDailyCapUsd
  | .monthly => workspace.effectiveEmbeddingMonthlyCapUsd

-- A count of 64 bits has fewer digits than a `Decimal` keeps, so the quotient is exact.
def readSpend (store : Store W) (period : Period) (workspaceId : W) (now : Instant) : ℚ :=
  match store.live (counterKey period workspaceId now) (now.clock monthStart) with
  | none => 0
  | some counter => counter.count / microUsd

-- The period whose cap is reached, where `EmbeddingSpendCapExceeded` is raised.
def checkCapOrRaise (store : Store W) (workspace : Workspace W) (now : Instant) :
    Except Period Unit := do
  if let some dailyCap := workspace.effectiveEmbeddingDailyCapUsd then
    if dailyCap ≤ readSpend monthStart store .daily workspace.id now then throw .daily
  if let some monthlyCap := workspace.effectiveEmbeddingMonthlyCapUsd then
    if monthlyCap ≤ readSpend monthStart store .monthly workspace.id now then throw .monthly

def increment (store : Store W) (workspaceId : W) (now : Instant) (amount : Int) (period : Period) :
    Store W :=
  let key := counterKey period workspaceId now
  match incrbyCounter store (now.clock monthStart) key amount period.ttl with
  | some (_, store) => store
  | none => store

-- The counters after a call; `none` where the product overflows. The alerts change no counter.
def recordSpend (store : Store W) (workspaceId : W) (now : Instant) (costUsd : Decimal) :
    Option (Store W) :=
  if costUsd.value ≤ 0 then some store
  else do
    let micro ← costUsd.mul (.ofNat microUsd)
    let deltaMicro := micro.toInt
    if deltaMicro ≤ 0 then return store
    return [Period.daily, .monthly].foldl
      (fun store period => increment monthStart store workspaceId now deltaMicro period) store

structure Call (W : Type) where
  workspaceId : W
  now : Instant
  costUsd : Decimal

-- A call that raises leaves the counters as they are.
def step (store : Store W) (call : Call W) : Store W :=
  (recordSpend monthStart store call.workspaceId call.now call.costUsd).getD store

def run (calls : List (Call W)) : Store W := calls.foldl (step monthStart) fun _ => none

end Service

end MemoryCloud.SpendCap
