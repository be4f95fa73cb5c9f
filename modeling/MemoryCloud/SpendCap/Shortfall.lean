import Mathlib.Algebra.BigOperators.Group.List.Basic
import Mathlib.Algebra.Order.BigOperators.Group.List
import MemoryCloud.SpendCap.Model

set_option autoImplicit false

/-!
# What a counter falls short of

Each call is cut to whole micro-USD, so a counter is off by less than one micro-USD for each call.
-/

namespace MemoryCloud.SpendCap

open Decimals

section Counters

variable {W : Type} [DecidableEq W] {monthStart : Nat → Int} {store : Store W} {key : Key W}
  {period : Period} {workspaceId : W} {now earlier : Instant} {amount total : Int}

theorem clock_lt_expiry (same : period.bucket now = period.bucket earlier) :
    now.clock monthStart < earlier.clock monthStart + period.ttl := by
  have second := now.second.isLt
  have day := now.day.isLt
  cases period with
  | daily =>
    obtain ⟨month, sameDay⟩ := Prod.mk.inj same
    rw [Instant.clock, Instant.clock, month, Option.some.inj sameDay, Period.ttl, dailyTtlSeconds]
    omega
  | monthly =>
    obtain ⟨month, _⟩ := Prod.mk.inj same
    rw [Instant.clock, Instant.clock, month, Period.ttl, monthlyTtlSeconds]
    omega

def Tracks (monthStart : Nat → Int) (store : Store W) (key : Key W) (total : Int) : Prop :=
  match store key with
  | none => total = 0
  | some counter => counter.count = total ∧ ∃ earlier, key.period.bucket earlier = key.bucket ∧
      counter.expires = some (earlier.clock monthStart + key.period.ttl)

omit [DecidableEq W] in
theorem Tracks.live (tracks : Tracks monthStart store key total)
    (here : key.period.bucket now = key.bucket) :
    store.live key (now.clock monthStart) = store key := by
  rw [Tracks] at tracks
  rw [Store.live]
  cases found : store key with
  | none => rfl
  | some counter =>
    rw [found] at tracks
    obtain ⟨_, earlier, started, expires⟩ := tracks
    refine Option.filter_eq_some_iff.mpr ⟨rfl, ?_⟩
    rw [expires]
    exact decide_eq_true (clock_lt_expiry (here.trans started.symm))

omit [DecidableEq W] in
theorem Tracks.of_same {other : Store W} (tracks : Tracks monthStart store key total)
    (same : other key = store key) : Tracks monthStart other key total := by
  rw [Tracks] at tracks ⊢
  rwa [same]

theorem increment_other (other : counterKey period workspaceId now ≠ key) :
    increment monthStart store workspaceId now amount period key = store key := by
  rw [increment, incrbyCounter]
  dsimp only
  split_ifs
  next => rfl
  next => exact Function.update_of_ne (Ne.symm other) _ _

theorem increment_tracks (tracks : Tracks monthStart store (counterKey period workspaceId now) total)
    (nonneg : 0 ≤ total) (fits : total + amount ≤ maxCount) :
    Tracks monthStart (increment monthStart store workspaceId now amount period)
      (counterKey period workspaceId now) (total + amount) := by
  have live := @Tracks.live _ monthStart store _ now total tracks rfl
  rw [increment, incrbyCounter, live]
  rw [Tracks] at tracks
  cases found : store (counterKey period workspaceId now) with
  | none =>
    rw [found] at tracks
    cases tracks
    have within : ¬(maxCount < amount ∨ maxCount < 0 + amount) := by omega
    dsimp only [Option.map_none, Option.getD_none]
    rw [if_neg within, Tracks]
    dsimp only
    rw [Function.update_self]
    exact ⟨rfl, now, rfl, rfl⟩
  | some counter =>
    rw [found] at tracks
    obtain ⟨count, earlier, started, expires⟩ := tracks
    have within : ¬(maxCount < amount ∨ maxCount < counter.count + amount) := by omega
    dsimp only [Option.map_some, Option.getD_some]
    rw [if_neg within, Tracks]
    dsimp only
    rw [Function.update_self]
    refine ⟨by rw [count], earlier, started, ?_⟩
    rw [Option.bind_some, expires]
    rfl

end Counters

section Runs

variable {W : Type} [DecidableEq W] {monthStart : Nat → Int} {store : Store W} {key : Key W}
  {calls : List (Call W)} {call : Call W} {total : Int}

def amount (costUsd : Decimal) : Int :=
  ((costUsd.mul (.ofNat microUsd)).map Decimal.toInt).getD 0

def hits (key : Key W) (call : Call W) : Bool :=
  counterKey key.period call.workspaceId call.now = key

theorem not_negative {number : Decimal} (positive : 0 < number.value) : number.negative = false := by
  by_contra negative
  have sign : number.sign = -1 := by simp [Decimal.sign, Bool.not_eq_false _ ▸ negative]
  have magnitude : (0 : ℚ) ≤ number.coefficient * 10 ^ number.exponent := by positivity
  rw [Decimal.value, sign] at positive
  linarith

theorem step_eq (positive : 0 < call.costUsd.value) :
    step monthStart store call =
      if amount call.costUsd ≤ 0 then store
      else [Period.daily, .monthly].foldl (fun store period =>
        increment monthStart store call.workspaceId call.now (amount call.costUsd) period) store := by
  rw [step, recordSpend, if_neg (not_le.mpr positive), amount]
  generalize call.costUsd.mul (.ofNat microUsd) = product
  cases product with
  | none =>
    rw [Option.map_none, Option.getD_none, if_pos (Int.le_refl 0)]
    rfl
  | some micro =>
    rw [Option.map_some, Option.getD_some, Option.bind_eq_bind, Option.bind_some]
    dsimp only
    split
    next => rfl
    next => rfl

theorem amount_nonneg {costUsd : Decimal} (positive : 0 < costUsd.value) : 0 ≤ amount costUsd := by
  rw [amount]
  cases found : costUsd.mul (.ofNat microUsd) with
  | none => exact Int.le_refl 0
  | some micro =>
    refine Decimal.toInt_nonneg ((Decimal.mul_negative found).trans ?_)
    rw [not_negative positive]
    rfl

omit [DecidableEq W] in
theorem daily_ne_monthly (workspaceId : W) (now : Instant) :
    counterKey .daily workspaceId now ≠ counterKey .monthly workspaceId now := by
  intro same
  cases congrArg Key.period same

theorem step_tracks (tracks : Tracks monthStart store key total) (nonneg : 0 ≤ total)
    (positive : 0 < call.costUsd.value)
    (fits : total + (if hits key call then amount call.costUsd else 0) ≤ maxCount) :
    Tracks monthStart (step monthStart store call) key
      (total + if hits key call then amount call.costUsd else 0) := by
  rw [step_eq positive]
  split
  next none =>
    have zero : amount call.costUsd = 0 := Int.le_antisymm none (amount_nonneg positive)
    rw [zero, ite_self, Int.add_zero]
    exact tracks
  next =>
    rw [List.foldl_cons, List.foldl_cons, List.foldl_nil]
    by_cases hit : hits key call = true
    next =>
      rw [if_pos hit] at fits ⊢
      have same : counterKey key.period call.workspaceId call.now = key := of_decide_eq_true hit
      generalize key.period = period at same
      subst same
      cases period with
      | daily =>
        exact (increment_tracks tracks nonneg fits).of_same
          (increment_other (daily_ne_monthly _ _).symm)
      | monthly =>
        refine increment_tracks (tracks.of_same ?_) nonneg fits
        exact increment_other (daily_ne_monthly _ _)
    next =>
      rw [if_neg hit, Int.add_zero]
      refine (tracks.of_same (increment_other ?_)).of_same (increment_other ?_)
      next =>
        intro same
        exact hit (decide_eq_true (by rw [← same]; rfl))
      next =>
        intro same
        exact hit (decide_eq_true (by rw [← same]; rfl))

def spent (key : Key W) (calls : List (Call W)) : Int :=
  ((calls.filter (hits key)).map fun call => amount call.costUsd).sum

omit [DecidableEq W] in
theorem sum_filter_append (counted : Call W → Bool) (added : Call W → Int) (calls : List (Call W))
    (call : Call W) :
    (((calls ++ [call]).filter counted).map added).sum =
      ((calls.filter counted).map added).sum + if counted call then added call else 0 := by
  rw [List.filter_append, List.map_append, List.sum_append]
  by_cases hit : counted call = true
  next => simp [hit]
  next => simp [hit]

theorem spent_append (key : Key W) (calls : List (Call W)) (call : Call W) :
    spent key (calls ++ [call]) =
      spent key calls + if hits key call then amount call.costUsd else 0 :=
  sum_filter_append (hits key) (fun call => amount call.costUsd) calls call

theorem spent_nonneg (positive : ∀ call ∈ calls, 0 < call.costUsd.value) : 0 ≤ spent key calls := by
  refine List.sum_nonneg fun micro listed => ?_
  obtain ⟨call, inside, rfl⟩ := List.mem_map.mp listed
  exact amount_nonneg (positive call (List.mem_of_mem_filter inside))

theorem run_tracks (monthStart : Nat → Int) (positive : ∀ call ∈ calls, 0 < call.costUsd.value)
    (fits : spent key calls ≤ maxCount) :
    Tracks monthStart (run monthStart calls) key (spent key calls) := by
  induction calls using List.reverseRecOn with
  | nil => rfl
  | append_singleton calls call ih =>
    have earlier : ∀ call ∈ calls, 0 < call.costUsd.value := fun call listed =>
      positive call (List.mem_append_left _ listed)
    have own : 0 < call.costUsd.value := positive call (List.mem_append_right _ (by simp))
    rw [spent_append] at fits ⊢
    have added : 0 ≤ if hits key call then amount call.costUsd else 0 := by
      split
      next => exact amount_nonneg own
      next => exact Int.le_refl 0
    have tracks := ih earlier (by omega)
    rw [run, List.foldl_append, List.foldl_cons, List.foldl_nil]
    exact step_tracks tracks (spent_nonneg earlier) own fits

theorem readSpend_run (monthStart : Nat → Int) (period : Period) (workspaceId : W) (now : Instant)
    (positive : ∀ call ∈ calls, 0 < call.costUsd.value)
    (fits : spent (counterKey period workspaceId now) calls ≤ maxCount) :
    readSpend monthStart (run monthStart calls) period workspaceId now =
      spent (counterKey period workspaceId now) calls / microUsd := by
  have tracks := run_tracks monthStart positive fits
  rw [readSpend, tracks.live rfl]
  rw [Tracks] at tracks
  split
  next found =>
    rw [found] at tracks
    rw [show spent _ calls = 0 from tracks]
    simp
  next counter found =>
    rw [found] at tracks
    rw [tracks.1]

end Runs

section Costs

variable {W : Type} {calls : List (Call W)}

def trueSpend (calls : List (Call W)) : ℚ := (calls.map fun call => call.costUsd.value).sum

theorem amount_near {costUsd : Decimal} (positive : 0 < costUsd.value)
    (small : costUsd.value * microUsd ≤ maxCount) :
    |(amount costUsd : ℚ) - costUsd.value * microUsd| < 1 := by
  have bound : costUsd.value * (Decimal.ofNat microUsd).value < 10 ^ 27 := by
    rw [Decimal.value_ofNat]
    refine lt_of_le_of_lt small ?_
    norm_num [maxCount]
  obtain ⟨micro, found, near⟩ := Decimal.mul_toInt_near (not_negative positive) rfl bound
  rw [Decimal.value_ofNat] at near
  rw [amount, found]
  exact near

theorem trueSpend_nonneg (positive : ∀ call ∈ calls, 0 < call.costUsd.value) :
    0 ≤ trueSpend calls := by
  refine List.sum_nonneg fun cost listed => ?_
  obtain ⟨call, inside, rfl⟩ := List.mem_map.mp listed
  exact (positive call inside).le

theorem sum_amount_near (positive : ∀ call ∈ calls, 0 < call.costUsd.value)
    (small : trueSpend calls * microUsd ≤ maxCount) :
    |(((calls.map fun call => amount call.costUsd).sum : Int) : ℚ) - trueSpend calls * microUsd| ≤
        calls.length ∧
      (calls ≠ [] →
        |(((calls.map fun call => amount call.costUsd).sum : Int) : ℚ) - trueSpend calls * microUsd| <
          calls.length) := by
  induction calls with
  | nil => simp [trueSpend]
  | cons call rest ih =>
    have own : 0 < call.costUsd.value := positive call (by simp)
    have others : ∀ call ∈ rest, 0 < call.costUsd.value := fun call listed =>
      positive call (List.mem_cons_of_mem _ listed)
    have sum : trueSpend (call :: rest) = call.costUsd.value + trueSpend rest := by
      simp [trueSpend]
    have unit : (0 : ℚ) < microUsd := by norm_num [microUsd]
    rw [sum, add_mul] at small ⊢
    have ownMicro := mul_pos own unit
    have restMicro := mul_nonneg (trueSpend_nonneg others) unit.le
    have near := abs_lt.mp (amount_near own (by linarith))
    have later := abs_le.mp (ih others (by linarith)).1
    have strict : |(((call :: rest).map fun call => amount call.costUsd).sum : ℚ) -
        (call.costUsd.value * microUsd + trueSpend rest * microUsd)| < (call :: rest).length := by
      rw [List.map_cons, List.sum_cons, List.length_cons, abs_lt]
      push_cast at later ⊢
      exact ⟨by linarith, by linarith⟩
    exact ⟨strict.le, fun _ => strict⟩

end Costs

section Caps

variable {W : Type} [DecidableEq W]

omit [DecidableEq W] in
theorem checkCapOrRaise_refuses {monthStart : Nat → Int} {store : Store W} {workspace : Workspace W}
    {period : Period} {now : Instant} {cap : ℚ} (capped : workspace.cap period = some cap)
    (reached : cap ≤ readSpend monthStart store period workspace.id now) :
    ∃ refused, checkCapOrRaise monthStart store workspace now = .error refused := by
  rw [checkCapOrRaise]
  cases period with
  | daily =>
    rw [show workspace.effectiveEmbeddingDailyCapUsd = some cap from capped]
    dsimp only
    rw [if_pos reached]
    exact ⟨.daily, rfl⟩
  | monthly =>
    rw [show workspace.effectiveEmbeddingMonthlyCapUsd = some cap from capped]
    dsimp only
    rw [if_pos reached]
    split
    next =>
      split
      next => exact ⟨.daily, rfl⟩
      next => exact ⟨.monthly, rfl⟩
    next => exact ⟨.monthly, rfl⟩

-- A counter is off by less than one micro-USD for each call of its period, and a workspace that is
-- that much over its cap is refused.
theorem spend_within_calls (monthStart : Nat → Int) (calls : List (Call W)) (workspace : Workspace W)
    (period : Period) (now : Instant) (positive : ∀ call ∈ calls, 0 < call.costUsd.value)
    (fits : let own := calls.filter (hits (counterKey period workspace.id now))
      trueSpend own * microUsd + own.length ≤ maxCount) :
    let own := calls.filter (hits (counterKey period workspace.id now))
    let store := run monthStart calls
    (own ≠ [] → |readSpend monthStart store period workspace.id now - trueSpend own| * microUsd <
        own.length) ∧
      ∀ cap, workspace.cap period = some cap → cap + own.length / microUsd ≤ trueSpend own →
        ∃ refused, checkCapOrRaise monthStart store workspace now = .error refused := by
  intro own store
  have ownPositive : ∀ call ∈ own, 0 < call.costUsd.value := fun call listed =>
    positive call (List.mem_of_mem_filter listed)
  have unit : (0 : ℚ) < microUsd := by norm_num [microUsd]
  have bound : trueSpend own * microUsd + own.length ≤ maxCount := fits
  have count : (0 : ℚ) ≤ own.length := Nat.cast_nonneg _
  obtain ⟨near, strict⟩ := sum_amount_near ownPositive (by linarith)
  have within : spent (counterKey period workspace.id now) calls ≤ maxCount := by
    have above := (abs_le.mp near).2
    have total : ((spent (counterKey period workspace.id now) calls : Int) : ℚ) ≤ maxCount := by
      rw [spent]
      linarith
    exact_mod_cast total
  have read : readSpend monthStart store period workspace.id now * microUsd =
      spent (counterKey period workspace.id now) calls := by
    rw [readSpend_run monthStart period workspace.id now positive within]
    exact div_mul_cancel₀ _ unit.ne'
  constructor
  next =>
    intro some_call
    rw [← abs_of_pos unit, ← abs_mul, sub_mul, read]
    exact strict some_call
  next =>
    intro cap capped past
    refine checkCapOrRaise_refuses capped ?_
    have below := (abs_le.mp near).1
    have past := mul_le_mul_of_nonneg_right past unit.le
    rw [add_mul, div_mul_cancel₀ _ unit.ne'] at past
    refine le_of_mul_le_mul_right ?_ unit
    rw [read, spent]
    linarith

-- Four calls of 2.9 micro-USD and one of 0.4, beside a call of another workspace.
def smallCalls : List (Call Nat) :=
  let now : Instant := ⟨0, 0, 0⟩
  [⟨0, now, ⟨false, 29, -7⟩⟩, ⟨0, now, ⟨false, 29, -7⟩⟩, ⟨1, now, ⟨false, 5, 0⟩⟩,
    ⟨0, now, ⟨false, 4, -7⟩⟩, ⟨0, now, ⟨false, 29, -7⟩⟩, ⟨0, now, ⟨false, 29, -7⟩⟩]

theorem small_calls_reach_a_cap :
    let now : Instant := ⟨0, 0, 0⟩
    let own := smallCalls.filter (hits (counterKey .daily 0 now))
    let store := run (fun _ => 0) smallCalls
    trueSpend own = 12 / microUsd ∧
      |readSpend (fun _ => 0) store .daily 0 now - trueSpend own| * microUsd < 5 ∧
      ∃ refused, checkCapOrRaise (fun _ => 0) store ⟨0, some (7 / microUsd), none⟩ now =
        .error refused := by
  intro now own store
  have positive : ∀ call ∈ smallCalls, 0 < call.costUsd.value := by
    simp [smallCalls, Decimal.value, Decimal.sign]
  have count : own.length = 5 := by decide
  have costs : own.map Call.costUsd =
      [⟨false, 29, -7⟩, ⟨false, 29, -7⟩, ⟨false, 4, -7⟩, ⟨false, 29, -7⟩, ⟨false, 29, -7⟩] := rfl
  have total : trueSpend own = 12 / microUsd := by
    rw [trueSpend, ← Function.comp_def, ← List.map_map, costs]
    norm_num [Decimal.value, Decimal.sign, microUsd]
  have fits : trueSpend own * microUsd + own.length ≤ maxCount := by
    rw [total, count]
    norm_num [microUsd, maxCount]
  obtain ⟨near, refused⟩ := spend_within_calls (fun _ => 0) smallCalls
    ⟨0, some (7 / microUsd), none⟩ .daily now positive fits
  refine ⟨total, ?_, refused _ rfl ?_⟩
  next =>
    have bound := near (List.ne_nil_of_length_pos (by rw [count]; decide))
    rw [count] at bound
    exact_mod_cast bound
  next =>
    rw [total, count]
    norm_num [microUsd]

-- Five calls of four tenths of a micro-USD leave no counter, and neither does one of 10^13 dollars,
-- which Redis refuses to count.
theorem small_costs_are_free :
    let monthStart : Nat → Int := fun _ => 0
    let now : Instant := ⟨0, 0, 0⟩
    let calls : List (Call Nat) := List.replicate 5 ⟨0, now, ⟨false, 4, -7⟩⟩
    let huge : List (Call Nat) := [⟨0, now, ⟨false, 1, 13⟩⟩]
    let workspace : Workspace Nat := ⟨0, some (1 / microUsd), none⟩
    let store := run monthStart calls
    (1 / microUsd ≤ |readSpend monthStart store .daily 0 now - trueSpend calls| ∧
      1 / microUsd + 1 / microUsd ≤ trueSpend calls ∧
      checkCapOrRaise monthStart store workspace now = .ok ()) ∧
    1 / microUsd ≤ |readSpend monthStart (run monthStart huge) .daily 0 now - trueSpend huge| ∧
      checkCapOrRaise monthStart (run monthStart huge) workspace now = .ok () := by
  intro monthStart now calls huge workspace store
  have positive : ∀ call ∈ calls, 0 < call.costUsd.value := by
    intro call listed
    rw [List.eq_of_mem_replicate listed]
    norm_num [Decimal.value, Decimal.sign]
  have nothing : spent (counterKey .daily 0 now) calls = 0 := by decide +kernel
  have read : readSpend monthStart store .daily 0 now = 0 := by
    rw [readSpend_run monthStart .daily 0 now positive (nothing ▸ by decide), nothing]
    simp
  have uncounted : readSpend monthStart (run monthStart huge) .daily 0 now = 0 := by
    have missing : (run monthStart huge).live (counterKey .daily 0 now) (now.clock monthStart) =
        none := by decide +kernel
    rw [readSpend, missing]
  have sum : trueSpend calls = 2 / microUsd := by
    norm_num [trueSpend, calls, Decimal.value, Decimal.sign, microUsd]
  have opened : ∀ store : Store Nat, readSpend monthStart store .daily 0 now = 0 →
      checkCapOrRaise monthStart store workspace now = .ok () := by
    intro store read
    have below : ¬(1 : ℚ) / microUsd ≤ readSpend monthStart store .daily workspace.id now := by
      rw [read]
      norm_num [microUsd]
    rw [checkCapOrRaise]
    dsimp only [workspace] at below ⊢
    rw [if_neg below]
    rfl
  refine ⟨⟨?_, ?_, opened store read⟩, ?_, opened _ uncounted⟩
  next =>
    rw [read, sum]
    norm_num [microUsd]
  next =>
    rw [sum]
    norm_num [microUsd]
  next =>
    rw [uncounted]
    norm_num [huge, trueSpend, Decimal.value, Decimal.sign, microUsd]

end Caps

end MemoryCloud.SpendCap
