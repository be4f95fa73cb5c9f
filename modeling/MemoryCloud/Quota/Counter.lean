import Mathlib.Tactic.Ring
import MemoryCloud.Shared.Holds
import MemoryCloud.Shared.Runs
import MemoryCloud.Quota.Model

set_option autoImplicit false

/-!
# The counter of a day

Every step leaves the counter alone, puts one call's count on it or takes one
call's count off it again. The counter is the sum of the counts of the calls
that hold it, and what a call saw bounds what is still held up to it.
-/

namespace MemoryCloud.Quota

open Holds

section Weights

def Call.heldOn (day : Day) (call : Call) : Int :=
  match call.phase with
  | .landed hold _ => if hold.day = day then call.count else 0
  | _ => 0

def Call.grantedOn (day : Day) (call : Call) : Bool :=
  match call.phase with
  | .landed hold stage => decide (hold.day = day) && stage.isGranted
  | _ => false

def Call.stamp (call : Call) : Nat :=
  match call.phase with
  | .landed hold _ => hold.stamp
  | _ => 0

def Call.newTotal (call : Call) : Int :=
  match call.phase with
  | .landed hold _ => hold.newTotal
  | _ => 0

def State.granted (state : State) (day : Day) : Int :=
  (state.calls.map fun call => if call.grantedOn day then call.heldOn day else 0).sum

-- On the counter and not yet granted, refunded or undone.
def State.inFlight (state : State) (day : Day) : Int :=
  (state.calls.map fun call => if call.grantedOn day then 0 else call.heldOn day).sum

def State.held (state : State) (day : Day) : Int :=
  (state.calls.map (Call.heldOn day)).sum

theorem held_eq (state : State) (day : Day) :
    state.held day = state.granted day + state.inFlight day := by
  unfold State.held State.granted State.inFlight
  rw [← List.sum_map_add]
  congr 1
  refine List.map_congr_left fun call _ => ?_
  split <;> simp

end Weights

section Steps

variable {state after : State}

def Phase.isOver : Phase → Bool
  | .answered _ => true
  | .released _ => true
  | _ => false

inductive Quiet (today : Day) (call : Call) : Phase → Prop where
  | answered {answer : Answer} (reading : call.phase = .reading) : Quiet today call (.answered answer)
  | started {workspace : Workspace} (reading : call.phase = .reading) (positive : 0 < call.count) :
      Quiet today call (.incrementing workspace today false)
  | cancelled {workspace : Workspace} {day : Day}
      (incrementing : call.phase = .incrementing workspace day false) :
      Quiet today call (.incrementing workspace day true)
  | staged {hold : Hold} {stage stage' : Stage} (landed : call.phase = .landed hold stage)
      (granted : stage'.isGranted = true → stage.isGranted = true ∨
        hold.newTotal ≤ hold.workspace.effectiveMemoriesPerDay) :
      Quiet today call (.landed hold stage')

def newHold (state : State) (workspace : Workspace) (day : Day) (count : Int) : Hold where
  workspace := workspace
  day := day
  newTotal := state.counters day + count
  stamp := state.increments

inductive Step (state after : State) : Prop where
  | begun (reserve : Bool) (count : Int)
      (same : after = { state with calls := state.calls ++ [{ reserve, count, phase := .reading }] })
  | ticked (seconds : Nat) (same : after = { state with now := state.now + seconds })
  | quiet {id : Nat} {call : Call} {phase : Phase} (found : state.calls[id]? = some call)
      (quiet : Quiet state.today call phase) (same : after = setPhase state id call phase)
  | nothing (same : after = state)
  | incremented {id : Nat} {call : Call} {workspace : Workspace} {day : Day} {cancelled : Bool}
      (stage : Stage) (found : state.calls[id]? = some call)
      (incrementing : call.phase = .incrementing workspace day cancelled)
      (pending : stage.isGranted = false)
      (same : after = { setPhase (incrbyCounter state day call.count) id call
        (.landed (newHold state workspace day call.count) stage) with increments := state.increments + 1 })
  | decremented {id : Nat} {call : Call} {hold : Hold} {stage : Stage} {phase : Phase}
      (found : state.calls[id]? = some call) (landed : call.phase = .landed hold stage)
      (ended : phase.isOver = true)
      (same : after = setPhase (incrbyCounter state hold.day (-call.count)) id call phase)
  | expired {day : Day} {created : Nat} (made : state.createdAt day = some created)
      (old : created + memoriesPerDayTtl ≤ state.now)
      (same : after = { state with
        counters := Function.update state.counters day 0
        createdAt := Function.update state.createdAt day none
        expired := Function.update state.expired day true })

theorem afterRead_quiet {call : Call} (today : Day) (workspace : Option Workspace)
    (reading : call.phase = .reading) : Quiet today call (afterRead today call.count workspace) := by
  cases workspace with
  | none => exact .answered reading
  | some workspace =>
    simp only [afterRead]
    split
    next => exact .answered reading
    next positive =>
      split
      next => exact .answered reading
      next => exact .started reading (Int.not_le.mp positive)

theorem afterIncrement_quiet {call : Call} {hold : Hold} (today : Day)
    (waiting : call.phase = .landed hold .waiting) : Quiet today call (afterIncrement hold) := by
  unfold afterIncrement
  split
  next => exact .staged waiting fun granted => by cases granted
  next fits => exact .staged waiting fun _ => .inr (Int.not_lt.mp fits)

theorem read_step {id : Nat} {workspace : Option Workspace}
    (taken : read state id workspace = some after) : Step state after := by
  unfold read at taken
  split at taken
  next => cases taken
  next call found =>
    split at taken
    next reading =>
      exact .quiet found (afterRead_quiet _ workspace reading) (Option.some.inj taken).symm
    next => cases taken

theorem increment_step {id : Nat} (taken : increment state id = some after) : Step state after := by
  unfold increment at taken
  split at taken
  next => cases taken
  next call found =>
    split at taken
    next workspace day cancelled incrementing =>
      refine .incremented (if cancelled then .undoing else .waiting) found incrementing ?_
        ((Option.some.inj taken).symm.trans ?_)
      · cases cancelled <;> rfl
      · simp [incrbyCounter, newHold]
    next => cases taken

theorem resume_step {id : Nat} (taken : resume state id = some after) : Step state after := by
  unfold resume at taken
  split at taken
  next => cases taken
  next call found =>
    split at taken
    next hold waiting =>
      exact .quiet found (afterIncrement_quiet _ waiting) (Option.some.inj taken).symm
    next => cases taken

theorem decrement_step {id : Nat} (taken : decrement state id = some after) : Step state after := by
  unfold decrement at taken
  split at taken
  next => cases taken
  next call found =>
    split at taken
    next hold refunding => exact .decremented found refunding rfl (Option.some.inj taken).symm
    next hold undoing => exact .decremented found undoing rfl (Option.some.inj taken).symm
    next hold releasing => exact .decremented found releasing rfl (Option.some.inj taken).symm
    next => cases taken

theorem release_step {id : Nat} (taken : release state id = some after) : Step state after := by
  unfold release at taken
  split at taken
  next => cases taken
  next call found =>
    split at taken
    next hold granted =>
      split at taken
      next => exact .quiet found (.staged granted fun _ => .inl rfl) (Option.some.inj taken).symm
      next => cases taken
    next => cases taken

theorem cancel_step {id : Nat} {sent : Bool} (taken : cancel state id sent = some after) :
    Step state after := by
  unfold cancel at taken
  split at taken
  next => cases taken
  next call found =>
    split at taken
    next reading => exact .quiet found (.answered reading) (Option.some.inj taken).symm
    next workspace day incrementing =>
      exact .quiet found (.cancelled incrementing) (Option.some.inj taken).symm
    next hold waiting =>
      exact .quiet found (.staged waiting fun granted => by cases granted)
        (Option.some.inj taken).symm
    next => exact .nothing (Option.some.inj taken).symm
    next hold releasing =>
      split at taken
      next => exact .nothing (Option.some.inj taken).symm
      next => exact .quiet found (.staged releasing fun _ => .inl rfl) (Option.some.inj taken).symm
    next => cases taken

theorem step_step {action : Action} (taken : step state action = some after) :
    Step state after := by
  cases action with
  | begin reserve count => exact .begun reserve count (Option.some.inj taken).symm
  | read id workspace => exact read_step taken
  | increment id => exact increment_step taken
  | resume id => exact resume_step taken
  | decrement id => exact decrement_step taken
  | release id => exact release_step taken
  | cancel id sent => exact cancel_step taken
  | tick seconds => exact .ticked seconds (Option.some.inj taken).symm
  | expire day =>
    simp only [step] at taken
    split at taken
    next => cases taken
    next created made =>
      split at taken
      next old => exact .expired made old (Option.some.inj taken).symm
      next => cases taken

end Steps

section Invariant

variable {state after : State}

def CallOk (now increments : Nat) (call : Call) : Prop :=
  match call.phase with
  | .incrementing _ day _ => 0 < call.count ∧ day * secondsPerDay ≤ now
  | .landed hold stage =>
      0 < call.count ∧ hold.day * secondsPerDay ≤ now ∧ hold.stamp < increments ∧
        (stage.isGranted = true → hold.newTotal ≤ hold.workspace.effectiveMemoriesPerDay)
  | _ => True

structure Valid (state : State) : Prop where
  calls : ∀ call ∈ state.calls, CallOk state.now state.increments call
  counter : ∀ day, state.expired day = false → state.counters day = state.held day
  seen : ∀ call ∈ state.calls, ∀ hold stage, call.phase = .landed hold stage →
    state.expired hold.day = false →
      (state.calls.map (upTo (Call.heldOn hold.day) Call.stamp hold.stamp)).sum ≤ hold.newTotal
  created : ∀ day created, state.createdAt day = some created → day * secondsPerDay ≤ created
  expired : ∀ day, state.expired day = true → (day + 1) * secondsPerDay ≤ state.now

theorem Quiet.heldOn {today : Day} {call : Call} {phase : Phase} (quiet : Quiet today call phase)
    (day : Day) : ({ call with phase } : Call).heldOn day = call.heldOn day := by
  cases quiet with
  | answered reading => simp [Call.heldOn, reading]
  | started reading => simp [Call.heldOn, reading]
  | cancelled incrementing => simp [Call.heldOn, incrementing]
  | staged landed => simp [Call.heldOn, landed]

theorem Quiet.upTo {today : Day} {call : Call} {phase : Phase} (quiet : Quiet today call phase)
    (day : Day) (last : Nat) :
    upTo (Call.heldOn day) Call.stamp last { call with phase } =
      upTo (Call.heldOn day) Call.stamp last call := by
  unfold Holds.upTo
  rw [quiet.heldOn]
  cases quiet with
  | answered reading => simp [Call.heldOn, reading]
  | started reading => simp [Call.heldOn, reading]
  | cancelled incrementing => simp [Call.heldOn, incrementing]
  | @staged hold _ stage landed =>
    have same : ({ call with phase := .landed hold stage } : Call).stamp = call.stamp := by
      simp only [Call.stamp, landed]
    rw [same]

theorem Quiet.callOk {today : Day} {call : Call} {phase : Phase} {now increments : Nat}
    (quiet : Quiet today call phase) (past : today * secondsPerDay ≤ now)
    (ok : CallOk now increments call) : CallOk now increments { call with phase } := by
  unfold CallOk at ok ⊢
  cases quiet with
  | answered reading => trivial
  | started reading positive => exact ⟨positive, past⟩
  | cancelled incrementing =>
    rw [incrementing] at ok
    exact ok
  | staged landed granted =>
    rw [landed] at ok
    obtain ⟨positive, before, earlier, fits⟩ := ok
    exact ⟨positive, before, earlier, fun yes => (granted yes).elim fits id⟩

theorem Quiet.landed {today : Day} {call : Call} {phase : Phase} (quiet : Quiet today call phase)
    {hold : Hold} {stage : Stage} (same : phase = .landed hold stage) :
    ∃ stage', call.phase = .landed hold stage' := by
  cases quiet with
  | staged landed =>
    cases same
    exact ⟨_, landed⟩
  | answered | started | cancelled => cases same

theorem today_le (state : State) : state.today * secondsPerDay ≤ state.now :=
  Nat.div_mul_le_self _ _

theorem CallOk.mono {call : Call} {now now' increments increments' : Nat}
    (ok : CallOk now increments call) (later : now ≤ now') (more : increments ≤ increments') :
    CallOk now' increments' call := by
  unfold CallOk at ok ⊢
  split at ok
  next => exact ⟨ok.1, Nat.le_trans ok.2 later⟩
  next =>
    obtain ⟨positive, before, earlier, fits⟩ := ok
    exact ⟨positive, Nat.le_trans before later, Nat.lt_of_lt_of_le earlier more, fits⟩
  next => trivial

theorem heldOn_incrementing {call : Call} {workspace : Workspace} {day : Day} {cancelled : Bool}
    (incrementing : call.phase = .incrementing workspace day cancelled) (other : Day) :
    call.heldOn other = 0 := by
  simp [Call.heldOn, incrementing]

theorem heldOn_landed {call : Call} {hold : Hold} {stage : Stage}
    (landed : call.phase = .landed hold stage) (day : Day) :
    call.heldOn day = if hold.day = day then call.count else 0 := by
  simp only [Call.heldOn, landed]

theorem heldOn_over {call : Call} (ended : call.phase.isOver = true) (day : Day) :
    call.heldOn day = 0 := by
  unfold Call.heldOn
  split
  next landed =>
    rw [landed] at ended
    cases ended
  next => rfl

theorem CallOk.heldOn_nonneg {call : Call} {now increments : Nat}
    (ok : CallOk now increments call) (day : Day) : 0 ≤ call.heldOn day := by
  unfold CallOk at ok
  unfold Call.heldOn
  split
  next landed =>
    rw [landed] at ok
    split
    next => exact Int.le_of_lt ok.1
    next => exact Int.le_refl 0
  next => exact Int.le_refl 0

theorem Valid.begun (valid : Valid state) (reserve : Bool) (count : Int) :
    Valid { state with calls := state.calls ++ [{ reserve, count, phase := .reading }] } where
  calls call listed := by
    rcases List.mem_append.mp listed with listed | listed
    · exact valid.calls call listed
    · rw [List.mem_singleton.mp listed]
      trivial
  counter day live := by
    rw [valid.counter day live]
    simp [State.held, Call.heldOn]
  seen call listed hold stage landed live := by
    rcases List.mem_append.mp listed with listed | listed
    · simpa [upTo, Call.heldOn] using valid.seen call listed hold stage landed live
    · rw [List.mem_singleton.mp listed] at landed
      cases landed
  created := valid.created
  expired := valid.expired

theorem Valid.ticked (valid : Valid state) (seconds : Nat) :
    Valid { state with now := state.now + seconds } where
  calls call listed := (valid.calls call listed).mono (Nat.le_add_right _ _) (Nat.le_refl _)
  counter := valid.counter
  seen := valid.seen
  created := valid.created
  expired day gone := Nat.le_trans (valid.expired day gone) (Nat.le_add_right _ _)

theorem Valid.quiet (valid : Valid state) {id : Nat} {call : Call} {phase : Phase}
    (found : state.calls[id]? = some call) (quiet : Quiet state.today call phase) :
    Valid (setPhase state id call phase) where
  calls other listed := by
    rcases (List.mem_or_eq_of_mem_set listed).symm with rfl | listed
    · exact quiet.callOk (today_le state) (valid.calls call (List.mem_of_getElem? found))
    · exact valid.calls other listed
  counter day live := by
    refine (valid.counter day live).trans ?_
    exact (sum_set_same (Call.heldOn day) found (quiet.heldOn day)).symm
  seen other listed hold stage landed live := by
    rw [setPhase, sum_set_same _ found (quiet.upTo hold.day hold.stamp)]
    rcases (List.mem_or_eq_of_mem_set listed).symm with rfl | listed
    · obtain ⟨stage', before⟩ := quiet.landed landed
      exact valid.seen call (List.mem_of_getElem? found) hold stage' before live
    · exact valid.seen other listed hold stage landed live
  created := valid.created
  expired := valid.expired

theorem createdAt_incrby (valid : Valid state) {day : Day}
    (past : day * secondsPerDay ≤ state.now) {other : Day} {created : Nat}
    (made : Function.update state.createdAt day ((state.createdAt day).or (some state.now)) other =
      some created) : other * secondsPerDay ≤ created := by
  by_cases same : other = day
  · subst same
    rw [Function.update_self] at made
    cases before : state.createdAt other with
    | none =>
      rw [before] at made
      cases made
      exact past
    | some created' =>
      rw [before] at made
      cases made
      exact valid.created other _ before
  · rw [Function.update_of_ne same] at made
    exact valid.created other created made

theorem Valid.incremented (valid : Valid state) {id : Nat} {call : Call} {workspace : Workspace}
    {day : Day} {cancelled : Bool} {stage : Stage} (found : state.calls[id]? = some call)
    (incrementing : call.phase = .incrementing workspace day cancelled)
    (pending : stage.isGranted = false) :
    Valid { setPhase (incrbyCounter state day call.count) id call
      (.landed (newHold state workspace day call.count) stage) with increments := state.increments + 1 } := by
  have ok := valid.calls call (List.mem_of_getElem? found)
  rw [CallOk, incrementing] at ok
  obtain ⟨positive, past⟩ := ok
  let new : Call := { call with phase := .landed (newHold state workspace day call.count) stage }
  have calls : ∀ other ∈ state.calls.set id new,
      CallOk state.now (state.increments + 1) other := by
    intro other listed
    rcases (List.mem_or_eq_of_mem_set listed).symm with rfl | listed
    · exact ⟨positive, past, Nat.lt_succ_self _, fun granted => by
        rw [pending] at granted
        cases granted⟩
    · exact (valid.calls other listed).mono (Nat.le_refl _) (Nat.le_succ _)
  have counter : ∀ other, state.expired other = false →
      Function.update state.counters day (state.counters day + call.count) other =
        ((state.calls.set id new).map (Call.heldOn other)).sum := by
    intro other live
    have moved := sum_set (Call.heldOn other) new found
    have own : new.heldOn other = if day = other then call.count else 0 := rfl
    rw [heldOn_incrementing incrementing, add_zero, own] at moved
    have before := valid.counter other live
    rw [State.held] at before
    rw [moved, ← before]
    by_cases same : other = day
    · subst same
      rw [Function.update_self, if_pos rfl]
    · rw [Function.update_of_ne same, if_neg (Ne.symm same), add_zero]
  refine ⟨calls, counter, ?_, fun other created made => createdAt_incrby valid past made,
    valid.expired⟩
  intro other listed hold stage' landed live
  rcases (List.mem_or_eq_of_mem_set listed).symm with rfl | listed
  · cases landed
    refine Int.le_trans (sum_upTo_le (fun entry inside => (calls entry inside).heldOn_nonneg day) _)
      (Int.le_of_eq ?_)
    exact (counter day live).symm.trans (Function.update_self ..)
  · have earlier : hold.stamp < state.increments := by
      have ok := valid.calls other listed
      rw [CallOk, landed] at ok
      exact ok.2.2.1
    have unchanged := valid.seen other listed hold stage' landed live
    refine Int.le_trans (Int.le_of_eq ?_) unchanged
    refine sum_set_same _ found ?_
    rw [upTo, upTo, heldOn_incrementing incrementing, ite_self]
    exact if_neg (Nat.not_le.mpr earlier)

theorem Valid.decremented (valid : Valid state) {id : Nat} {call : Call} {hold : Hold}
    {stage : Stage} {phase : Phase} (found : state.calls[id]? = some call)
    (landed : call.phase = .landed hold stage) (ended : phase.isOver = true) :
    Valid (setPhase (incrbyCounter state hold.day (-call.count)) id call phase) := by
  have ok := valid.calls call (List.mem_of_getElem? found)
  have freed : ∀ day, ({ call with phase } : Call).heldOn day = 0 := heldOn_over ended
  refine ⟨?_, ?_, ?_, ?_, valid.expired⟩
  · intro other listed
    rcases (List.mem_or_eq_of_mem_set listed).symm with rfl | listed
    · unfold CallOk
      cases phase <;> trivial
    · exact valid.calls other listed
  · intro day live
    have moved := sum_set (Call.heldOn day) { call with phase } found
    rw [freed, add_zero, heldOn_landed landed] at moved
    have before : state.counters day = (state.calls.map (Call.heldOn day)).sum :=
      valid.counter day live
    change Function.update state.counters hold.day (state.counters hold.day + -call.count) day =
      ((state.calls.set id { call with phase }).map (Call.heldOn day)).sum
    by_cases same : day = hold.day
    · subst same
      rw [if_pos rfl] at moved
      rw [Function.update_self]
      omega
    · rw [if_neg (Ne.symm same)] at moved
      rw [Function.update_of_ne same]
      omega
  · intro other listed hold' stage' landed' live
    have fewer : ((state.calls.set id { call with phase }).map
        (upTo (Call.heldOn hold'.day) Call.stamp hold'.stamp)).sum ≤
        (state.calls.map (upTo (Call.heldOn hold'.day) Call.stamp hold'.stamp)).sum := by
      have moved := sum_set (upTo (Call.heldOn hold'.day) Call.stamp hold'.stamp)
        { call with phase } found
      have zero : upTo (Call.heldOn hold'.day) Call.stamp hold'.stamp { call with phase } = 0 := by
        rw [upTo, freed, ite_self]
      have nonneg : 0 ≤ upTo (Call.heldOn hold'.day) Call.stamp hold'.stamp call := by
        unfold upTo
        split
        next => exact ok.heldOn_nonneg _
        next => exact Int.le_refl 0
      rw [zero] at moved
      omega
    rcases (List.mem_or_eq_of_mem_set listed).symm with rfl | listed
    · have same : phase = .landed hold' stage' := landed'
      rw [same] at ended
      cases ended
    · exact Int.le_trans fewer (valid.seen other listed hold' stage' landed' live)
  · rw [CallOk, landed] at ok
    exact fun other created made => createdAt_incrby valid ok.2.1 made

theorem Valid.expire (valid : Valid state) {day : Day} {created : Nat}
    (made : state.createdAt day = some created)
    (old : created + memoriesPerDayTtl ≤ state.now) :
    Valid { state with
      counters := Function.update state.counters day 0
      createdAt := Function.update state.createdAt day none
      expired := Function.update state.expired day true } := by
  have others : ∀ other, Function.update state.expired day true other = false →
      other ≠ day ∧ state.expired other = false := by
    intro other live
    by_cases same : other = day
    · rw [same, Function.update_self] at live
      cases live
    · rw [Function.update_of_ne same] at live
      exact ⟨same, live⟩
  refine ⟨valid.calls, ?_, ?_, ?_, ?_⟩
  · intro other live
    obtain ⟨different, live⟩ := others other live
    exact (Function.update_of_ne different ..).trans (valid.counter other live)
  · intro call listed hold stage landed live
    exact valid.seen call listed hold stage landed (others hold.day live).2
  · intro other created' made'
    change Function.update state.createdAt day none other = some created' at made'
    by_cases same : other = day
    · rw [same, Function.update_self] at made'
      cases made'
    · rw [Function.update_of_ne same] at made'
      exact valid.created other created' made'
  · intro other gone
    change Function.update state.expired day true other = true at gone
    by_cases same : other = day
    · subst same
      refine Nat.le_trans ?_ old
      rw [Nat.succ_mul]
      exact Nat.add_le_add_right (valid.created other created made) _
    · rw [Function.update_of_ne same] at gone
      exact valid.expired other gone

theorem Valid.step {action : Action} (valid : Valid state)
    (taken : step state action = some after) : Valid after := by
  cases step_step taken with
  | begun reserve count same => exact same ▸ valid.begun reserve count
  | ticked seconds same => exact same ▸ valid.ticked seconds
  | quiet found quiet same => exact same ▸ valid.quiet found quiet
  | nothing same => exact same ▸ valid
  | incremented stage found incrementing pending same =>
    exact same ▸ valid.incremented found incrementing pending
  | decremented found landed ended same => exact same ▸ valid.decremented found landed ended
  | expired made old same => exact same ▸ valid.expire made old

theorem reached_valid {now : Nat}
    (reached : Runs.Reaches step (fun _ _ => True) (initial now) state) : Valid state := by
  refine reached.invariant Valid ?_ fun before action next valid _ taken => valid.step taken
  constructor <;> simp [initial, State.held]

end Invariant

section Results

variable {state : State}

theorem granted_le (valid : Valid state) {day : Day} (live : state.expired day = false) {bound : Nat}
    (limits : ∀ call ∈ state.calls, ∀ hold stage, call.phase = .landed hold stage →
      hold.day = day → stage.isGranted = true → hold.workspace.effectiveMemoriesPerDay ≤ bound) :
    state.granted day ≤ bound := by
  have inside : ∀ call : Call, call.grantedOn day = true →
      ∃ hold stage, call.phase = .landed hold stage ∧ hold.day = day ∧ stage.isGranted = true := by
    intro call granted
    unfold Call.grantedOn at granted
    split at granted
    next hold stage landed =>
      rw [Bool.and_eq_true, decide_eq_true_eq] at granted
      exact ⟨hold, stage, landed, granted⟩
    next => cases granted
  refine sum_chosen_le Call.stamp Call.newTotal (Call.grantedOn day) ?_ ?_ ?_
    (Int.natCast_nonneg bound)
  · intro call listed
    exact (valid.calls call listed).heldOn_nonneg day
  · intro call listed granted
    obtain ⟨hold, stage, landed, rfl, -⟩ := inside call granted
    have seen := valid.seen call listed hold stage landed live
    simpa only [Call.stamp, Call.newTotal, landed] using seen
  · intro call listed granted
    obtain ⟨hold, stage, landed, same, yes⟩ := inside call granted
    have ok := valid.calls call listed
    rw [CallOk, landed] at ok
    simp only [Call.newTotal, landed]
    have limit := limits call listed hold stage landed same yes
    exact Int.le_trans (ok.2.2.2 yes) (Int.ofNat_le.mpr limit)

-- Nothing of the day is on its way: no increment, refund, undo or release.
def Settled (state : State) : Prop :=
  ∀ call ∈ state.calls, (∃ answer, call.phase = .answered answer) ∨
    (∃ reservation, call.phase = .released reservation) ∨
    ∃ hold, call.phase = .landed hold .granted ∨ call.phase = .landed hold .notReleased

theorem inFlight_settled (settled : Settled state) (day : Day) : state.inFlight day = 0 := by
  have zero : state.calls.map (fun call => if call.grantedOn day then 0 else call.heldOn day) =
      state.calls.map fun _ => 0 := by
    refine List.map_congr_left fun call listed => ?_
    rcases settled call listed with ⟨answer, ended⟩ | ⟨reservation, ended⟩ | ⟨hold, landed | landed⟩
    · simp [Call.heldOn, ended]
    · simp [Call.heldOn, ended]
    · by_cases same : hold.day = day <;>
        simp [Call.heldOn, Call.grantedOn, landed, same, Stage.isGranted]
    · by_cases same : hold.day = day <;>
        simp [Call.heldOn, Call.grantedOn, landed, same, Stage.isGranted]
  rw [State.inFlight, zero]
  simp

theorem today_live (valid : Valid state) : state.expired state.today = false := by
  by_contra gone
  rw [Bool.not_eq_false] at gone
  have ended := valid.expired state.today gone
  have inside : state.now / secondsPerDay < state.today + 1 := Nat.lt_succ_self _
  exact absurd ended (Nat.not_le.mpr (Nat.lt_mul_of_div_lt inside (by decide)))

theorem release_only_its_day {id : Nat} {call : Call} {hold : Hold} {after : State}
    (found : state.calls[id]? = some call) (releasing : call.phase = .landed hold .releasing)
    (taken : step state (.decrement id) = some after) :
    after.counters =
      Function.update state.counters hold.day (state.counters hold.day - call.count) := by
  simp only [step, decrement, found, releasing] at taken
  cases taken
  rfl

theorem daily_quota_exact {now : Nat}
    (reached : Runs.Reaches step (fun _ _ => True) (initial now) state) :
    (∀ day, state.expired day = false →
      state.counters day = state.granted day + state.inFlight day ∧
      (∀ bound : Nat, (∀ call ∈ state.calls, ∀ hold stage, call.phase = .landed hold stage →
        hold.day = day → stage.isGranted = true →
          hold.workspace.effectiveMemoriesPerDay ≤ bound) → state.granted day ≤ bound) ∧
      (Settled state → state.counters day = state.granted day)) ∧
    state.expired state.today = false ∧
    (∀ id call hold after, state.calls[id]? = some call → call.phase = .landed hold .releasing →
      step state (.decrement id) = some after → after.counters =
        Function.update state.counters hold.day (state.counters hold.day - call.count)) := by
  have valid := reached_valid reached
  refine ⟨fun day live => ?_, today_live valid, ?_⟩
  · have exactly := (valid.counter day live).trans (held_eq state day)
    refine ⟨exactly, fun bound limits => granted_le valid live limits, fun settled => ?_⟩
    rw [exactly, inFlight_settled settled, add_zero]
  · intro id call hold after found releasing taken
    exact release_only_its_day found releasing taken

-- A reservation of 3 of 5 is being released after midnight while the refund of a refused 4,
-- whose caller was cancelled, is still on its way.
theorem daily_quota_exact_past_midnight :
    ∃ state, Runs.Reaches step (fun _ _ => True) (initial 86395) state ∧
      state.today = 1 ∧ state.counters 0 = 7 ∧ state.granted 0 = 3 ∧ state.inFlight 0 = 4 ∧
      (state.expired 0 = false → state.counters 0 = state.granted 0 + state.inFlight 0) := by
  have seen : (Runs.run step (initial 86395)
      [.begin true 3, .begin false 4, .read 0 (some ⟨"free", 5⟩), .read 1 (some ⟨"free", 5⟩),
       .increment 0, .increment 1, .resume 0, .resume 1, .cancel 1 true, .tick 10,
       .release 0]).map
        (fun state => (state.today, state.counters 0, state.granted 0, state.inFlight 0)) =
      some (1, 7, 3, 4) := by
    decide +kernel
  obtain ⟨state, reached, same⟩ :=
    Runs.Reaches.of_run _ (Runs.allowed_of_always (fun _ _ => trivial) _ _) seen
  simp only [Prod.mk.injEq] at same
  obtain ⟨today, counter, granted, inFlight⟩ := same
  exact ⟨state, reached, today, counter, granted, inFlight,
    fun live => ((daily_quota_exact reached).1 0 live).1⟩

end Results

end MemoryCloud.Quota
