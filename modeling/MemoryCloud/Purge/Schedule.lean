import MemoryCloud.Purge.Model

set_option autoImplicit false

/-!
# The purge date

`purge_at` names the day of the purge from the stamp and the notices on record. The daily sweeps
that follow send the notices that are due, once for each Redis claim, and ask `purge_due`.
-/

namespace MemoryCloud.Purge

section Model

def sweepHourUtc : Nat := 4
def sweepWindow : Nat := 3600
def noticeKeyTtlSeconds : Nat := 45 * 24 * 3600

-- The day of the next run, today's until `SWEEP_WINDOW` past the hour.
def nextRun (now : Time) : Nat :=
  if now < day now * 86400 + sweepHourUtc * 3600 + sweepWindow then day now else day now + 1

def finalDay (since : Time) (first final : Option Time) (firstDay next : Nat) : Nat :=
  match final with
  | some final =>
    if validFinalNotice first (some final) then day final
    else max (day since + 29) (max (firstDay + 6) next)
  | none => max (day since + 29) (max (firstDay + 6) next)

def purgeDay (since : Time) (first final : Option Time) (next : Nat) : Nat :=
  let firstDay := (first.map day).getD next
  max (day since + 30) (max (firstDay + 7) (max (finalDay since first final firstDay next + 1) next))

def runTime (date : Nat) : Time := date * 86400 + sweepHourUtc * 3600

def purgeRun (since : Time) (first final : Option Time) (now : Time) : Time :=
  runTime (purgeDay since first final (nextRun now))

def purgeAt (workspace : Workspace) (now : Time) : Option Time :=
  workspace.lockedSince.map fun since =>
    purgeRun since workspace.firstNoticeAt workspace.finalNoticeAt now

-- The claims of one lock differ in the stage and in the suffix for the warning week.
structure NoticeKey where
  stage : Int
  warningWeek : Bool
  deriving DecidableEq, Repr

def noticeKey (since : Time) (first : Option Time) (stage : Int) : NoticeKey :=
  { stage
    warningWeek := stage = finalNoticeDay ∧
      first.any fun first => purgeAfterDays - minWarningDays < daysBetween since first }

-- The row of a workspace, and when each of its claims in Redis runs out.
structure Lock where
  row : Workspace
  claims : NoticeKey → Option Time

def Lock.claimed (lock : Lock) (key : NoticeKey) (now : Time) : Bool :=
  (lock.claims key).any fun expiry => now < expiry

def Lock.dueStage (lock : Lock) (now : Time) : Option (Time × Int) :=
  lock.row.lockedSince.bind fun since =>
    (noticeStage (daysBetween since now) (daysBetween (lock.row.firstNoticeAt.getD now) now)).map
      fun stage => (since, stage)

-- A workspace over capacity in the notice pass, and the date in the mail it gets. A failed mail
-- gives the claim back.
def Lock.notify (lock : Lock) (now : Time) (delivered : Bool) : Lock × Option Time :=
  match lock.dueStage now with
  | none => (lock, none)
  | some (since, stage) =>
    let key := noticeKey since lock.row.firstNoticeAt stage
    if lock.claimed key now ∨ delivered = false then (lock, none)
    else
      ({ row := recordNotice lock.row stage now
         claims := Function.update lock.claims key (some (now + noticeKeyTtlSeconds)) },
        some (purgeRun since (some (lock.row.firstNoticeAt.getD now))
          (if stage = finalNoticeDay then some now else lock.row.finalNoticeAt) now))

def Lock.sweeps (lock : Lock) (times : Nat → Time) : Nat → Lock
  | 0 => lock
  | count + 1 => ((lock.sweeps times count).notify (times count) true).1

def Lock.dueAt (lock : Lock) (times : Nat → Time) (sweep : Nat) : Bool :=
  purgeDue (lock.sweeps times (sweep + 1)).row (times sweep)

-- The first sweep for which the purge is due runs on the day shown, and until then every mail names
-- it.
def KeepsDate (lock : Lock) (times : Nat → Time) (shown : Time) : Prop :=
  ∃ sweep, day (times sweep) = day shown ∧ lock.dueAt times sweep = true ∧
    (∀ earlier < sweep, lock.dueAt times earlier = false) ∧
    ∀ earlier ≤ sweep, ∀ named,
      ((lock.sweeps times earlier).notify (times earlier) true).2 = some named → named = shown

end Model

section Bridge

def Lock.claim (lock : Lock) (now : Time) : Claim :=
  match lock.dueStage now with
  | some (since, stage) =>
    if lock.claimed (noticeKey since lock.row.firstNoticeAt stage) now then .taken else .claimed
  | none => .claimed

-- The notice pass of a sweep, for a workspace it finds over capacity with an owner to mail.
theorem notify_noticeStep {system : System} {id : WorkspaceId} {lock : Lock}
    (row : system.workspaces id = lock.row) (now : Time) (todo : List WorkspaceId)
    (delivered : Bool) :
    (noticeStep system now todo id
      { lock := true, contact := true, claim := lock.claim now,
        mail := if delivered then .delivered else .failed, commit := .done }).workspaces id =
      (lock.notify now delivered).1.row := by
  unfold noticeStep Lock.claim Lock.notify Lock.dueStage
  dsimp only
  rw [row]
  cases lock.row.lockedSince with
  | none => exact row
  | some since =>
    dsimp only [Option.bind_some]
    cases noticeStage (daysBetween since now)
        (daysBetween (lock.row.firstNoticeAt.getD now) now) with
    | none => exact row
    | some stage =>
      dsimp only [Option.map_some]
      cases lock.claimed (noticeKey since lock.row.firstNoticeAt stage) now with
      | true => simpa using row
      | false =>
        cases delivered with
        | true => simp [System.write, System.put]
        | false => simpa using row

end Bridge

section Stages

theorem noticeStage_eq_final {elapsed since : Int} :
    noticeStage elapsed since = some finalNoticeDay ↔ 29 ≤ elapsed ∧ 6 ≤ since := by
  rw [noticeStage, List.max?_eq_some_iff, List.mem_filter, decide_eq_true_eq]
  have listed : finalNoticeDay ∈ noticeDays := by decide
  have last : ∀ due ∈ noticeDays, due ≤ finalNoticeDay := by decide
  constructor
  next =>
    rintro ⟨⟨_, due⟩, _⟩
    simp only [finalNoticeDay, purgeAfterDays, minWarningDays] at due
    omega
  next =>
    rintro ⟨late, warned⟩
    refine ⟨⟨listed, ?_⟩, fun due counted => last due (List.mem_of_mem_filter counted)⟩
    simp only [finalNoticeDay, purgeAfterDays, minWarningDays]
    omega

theorem noticeStage_eq_none {elapsed since : Int} :
    noticeStage elapsed since = none ↔ elapsed < 0 ∨ 23 + since < 0 := by
  rw [noticeStage, List.max?_eq_none_iff, List.filter_eq_nil_iff]
  have shift : purgeAfterDays - minWarningDays = 23 := rfl
  constructor
  next =>
    intro none
    have first : ¬ 0 ≤ min elapsed (purgeAfterDays - minWarningDays + since) := by
      simpa using none 0 (by decide)
    omega
  next =>
    intro early due listed counted
    have after : due ≤ min elapsed (purgeAfterDays - minWarningDays + since) := by
      simpa using counted
    have start : ∀ due ∈ noticeDays, 0 ≤ due := by decide
    have positive := start due listed
    omega

end Stages

section Days

variable {since now : Time} {first final : Option Time} {next : Nat}

theorem nextRun_bounds (now : Time) : day now ≤ nextRun now ∧ nextRun now ≤ day now + 1 := by
  unfold nextRun
  split <;> omega

theorem day_runTime (date : Nat) : day (runTime date) = date := by
  unfold day runTime sweepHourUtc
  omega

theorem tomorrow_lt {today tomorrow : Nat} (next : day tomorrow ≤ day today + 1) :
    tomorrow < today + noticeKeyTtlSeconds := by
  unfold day at next
  unfold noticeKeyTtlSeconds
  omega

theorem expired_gap {start stop : Nat} (expired : start + noticeKeyTtlSeconds ≤ stop) :
    day start + 45 ≤ day stop := by
  unfold noticeKeyTtlSeconds at expired
  unfold day
  omega

theorem valid_iff {first final : Time} :
    validFinalNotice (some first) (some final) = true ↔ day first + 6 ≤ day final := by
  have week : minWarningDays - 1 = 6 := rfl
  rw [validFinalNotice, decide_eq_true_eq, daysBetween, week]
  omega

theorem purgeDay_pending {sent : Time} (invalid : validFinalNotice (some sent) final = false) :
    purgeDay since (some sent) final next =
      max (max (day since + 30) (day sent + 7)) (next + 1) := by
  have projected : finalDay since (some sent) final (day sent) next =
      max (day since + 29) (max (day sent + 6) next) := by
    unfold finalDay
    split
    next late => rw [invalid]; rfl
    next => rfl
  simp only [purgeDay, Option.map_some, Option.getD_some, projected]
  omega

theorem purgeDay_warned {sent late : Time} (valid : validFinalNotice (some sent) (some late) = true) :
    purgeDay since (some sent) (some late) next =
      max (max (day since + 30) (day sent + 7)) (max (day late + 1) next) := by
  simp only [purgeDay, finalDay, Option.map_some, Option.getD_some, valid, if_true]
  omega

theorem purgeDay_unsent :
    purgeDay since none none next = max (day since + 30) (next + 7) := by
  simp only [purgeDay, finalDay, Option.map_none, Option.getD_none]
  omega

theorem purgeDue_iff {row : Workspace} (stamped : row.lockedSince = some since) :
    purgeDue row now = true ↔ day since + 30 ≤ day now ∧
      ∃ sent late, row.firstNoticeAt = some sent ∧ row.finalNoticeAt = some late ∧
        day sent + 6 ≤ day late ∧ day late + 1 ≤ day now ∧ day sent + 7 ≤ day now := by
  have month : purgeAfterDays = 30 := rfl
  have week : minWarningDays = 7 := rfl
  rw [purgeDue, Bool.and_eq_true, stamped, lockExpired, decide_eq_true_eq, daysBetween, month]
  refine and_congr (by omega) ?_
  rw [warned, Bool.and_eq_true, Bool.and_eq_true]
  cases row.firstNoticeAt with
  | none => simp [warnedLongEnough]
  | some sent =>
    cases row.finalNoticeAt with
    | none => simp [finalNoticeGiven]
    | some late =>
      rw [valid_iff, finalNoticeGiven, warnedLongEnough, decide_eq_true_eq, decide_eq_true_eq,
        daysBetween, daysBetween, week]
      constructor
      next => exact fun both => ⟨sent, late, rfl, rfl, by omega, by omega, by omega⟩
      next =>
        rintro ⟨first, final, same, alsoSame, valid, given, long⟩
        cases same
        cases alsoSame
        omega

end Days

section Locks

-- The records of a lock and its claims agree: no claim before the first notice, and a claim of the
-- final one exactly when it is on record.
structure Consistent (lock : Lock) (since : Time) (today : Nat) : Prop where
  stamped : lock.row.lockedSince = some since
  unsent : lock.row.firstNoticeAt = none →
    lock.row.finalNoticeAt = none ∧ ∀ key, lock.claims key = none
  firstPast : ∀ sent, lock.row.firstNoticeAt = some sent → day sent ≤ today
  finalPast : ∀ late, lock.row.finalNoticeAt = some late →
    day late ≤ today ∧ day since + 29 ≤ day late
  finalClaim : ∀ late, lock.row.finalNoticeAt = some late →
    validFinalNotice lock.row.firstNoticeAt (some late) = true →
      lock.claims (noticeKey since lock.row.firstNoticeAt finalNoticeDay) =
        some (late + noticeKeyTtlSeconds)
  finalFree : validFinalNotice lock.row.firstNoticeAt lock.row.finalNoticeAt = false →
    lock.claims (noticeKey since lock.row.firstNoticeAt finalNoticeDay) = none

variable {lock : Lock} {since now : Time} {today : Nat}

theorem consistent_stamp {row : Workspace} (stamped : row.lockedSince = some since)
    (first : row.firstNoticeAt = none) (final : row.finalNoticeAt = none) :
    Consistent { row, claims := fun _ => none } since today where
  stamped := stamped
  unsent := fun _ => ⟨final, fun _ => rfl⟩
  firstPast := by simp [first]
  finalPast := by simp [final]
  finalClaim := by simp [final]
  finalFree := fun _ => rfl

theorem dueStage_eq (stamped : lock.row.lockedSince = some since) :
    lock.dueStage now = (noticeStage (daysBetween since now)
      (daysBetween (lock.row.firstNoticeAt.getD now) now)).map fun stage => (since, stage) := by
  rw [Lock.dueStage, stamped, Option.bind_some]

theorem dueStage_final (stamped : lock.row.lockedSince = some since) :
    lock.dueStage now = some (since, finalNoticeDay) ↔
      day since + 29 ≤ day now ∧ day (lock.row.firstNoticeAt.getD now) + 6 ≤ day now := by
  rw [dueStage_eq stamped]
  have final : (noticeStage (daysBetween since now)
      (daysBetween (lock.row.firstNoticeAt.getD now) now)).map (fun stage => (since, stage)) =
        some (since, finalNoticeDay) ↔ noticeStage (daysBetween since now)
          (daysBetween (lock.row.firstNoticeAt.getD now) now) = some finalNoticeDay := by
    simp
  rw [final, noticeStage_eq_final, daysBetween, daysBetween]
  omega

theorem dueStage_none (stamped : lock.row.lockedSince = some since) :
    lock.dueStage now = none ↔
      day now < day since ∨ day now + 23 < day (lock.row.firstNoticeAt.getD now) := by
  rw [dueStage_eq stamped, Option.map_eq_none_iff, noticeStage_eq_none, daysBetween, daysBetween]
  omega

theorem dueStage_since (stamped : lock.row.lockedSince = some since) {due : Time × Int}
    (stage : lock.dueStage now = some due) : due = (since, due.2) := by
  rw [dueStage_eq stamped, Option.map_eq_some_iff] at stage
  obtain ⟨_, _, rfl⟩ := stage
  rfl

theorem claimed_some {key : NoticeKey} {expiry : Time} (claim : lock.claims key = some expiry)
    (now : Time) : lock.claimed key now = true ↔ now < expiry := by
  rw [Lock.claimed, claim, Option.any_some, decide_eq_true_eq]

theorem notify_none (due : lock.dueStage now = none) (delivered : Bool) :
    lock.notify now delivered = (lock, none) := by
  rw [Lock.notify, due]

theorem notify_skipped {stage : Int} {delivered : Bool} (due : lock.dueStage now = some (since, stage))
    (skips : lock.claimed (noticeKey since lock.row.firstNoticeAt stage) now = true ∨
      delivered = false) : lock.notify now delivered = (lock, none) := by
  rw [Lock.notify, due]
  exact if_pos skips

theorem notify_mailed {stage : Int} (due : lock.dueStage now = some (since, stage))
    (free : lock.claimed (noticeKey since lock.row.firstNoticeAt stage) now = false) :
    lock.notify now true =
      ({ row := recordNotice lock.row stage now
         claims := Function.update lock.claims (noticeKey since lock.row.firstNoticeAt stage)
           (some (now + noticeKeyTtlSeconds)) },
        some (purgeRun since (some (lock.row.firstNoticeAt.getD now))
          (if stage = finalNoticeDay then some now else lock.row.finalNoticeAt) now)) := by
  rw [Lock.notify, due]
  exact if_neg (by simp [free])

def Held (lock : Lock) (now : Time) : Prop :=
  ∀ late, lock.row.finalNoticeAt = some late →
    validFinalNotice lock.row.firstNoticeAt (some late) = true → now < late + noticeKeyTtlSeconds

structure Swept (lock : Lock) (since now : Time) (target : Nat) : Prop where
  names : ∀ named, (lock.notify now true).2 = some named →
    named = runTime target
  due : purgeDue (lock.notify now true).1.row now = true ↔ day now = target
  later : day now < target → ∀ tomorrow, day tomorrow = day now + 1 →
    purgeDay since (lock.notify now true).1.row.firstNoticeAt
        (lock.notify now true).1.row.finalNoticeAt (day tomorrow) = target ∧
      Held (lock.notify now true).1 tomorrow

theorem recordNotice_same {row : Workspace} {sent : Time} {stage : Int}
    (first : row.firstNoticeAt = some sent) (notFinal : stage ≠ finalNoticeDay) :
    recordNotice row stage now = row := by
  cases row
  subst first
  simp [recordNotice, notFinal]

theorem swept_silent {target : Nat} (silent : lock.notify now true = (lock, none))
    (due : purgeDue lock.row now = true ↔ day now = target)
    (later : day now < target → ∀ tomorrow, day tomorrow = day now + 1 →
      purgeDay since lock.row.firstNoticeAt lock.row.finalNoticeAt (day tomorrow) = target ∧
        Held lock tomorrow) : Swept lock since now target := by
  constructor
  next =>
    rw [silent]
    intro named impossible
    cases impossible
  next => rwa [silent]
  next => rwa [silent]

theorem not_due_without {row : Workspace} (now : Time) (stamped : row.lockedSince = some since)
    (invalid : validFinalNotice row.firstNoticeAt row.finalNoticeAt = false) :
    ¬ purgeDue row now = true := by
  rw [purgeDue_iff stamped]
  rintro ⟨_, sent, late, first, final, valid, _⟩
  rw [first, final, valid_iff.mpr valid] at invalid
  cases invalid

theorem swept_unsent (consistent : Consistent lock since today)
    (unsent : lock.row.firstNoticeAt = none) :
    Swept lock since now (purgeDay since none none (day now)) := by
  obtain ⟨noFinal, noClaims⟩ := consistent.unsent unsent
  have invalid : validFinalNotice lock.row.firstNoticeAt lock.row.finalNoticeAt = false := by
    rw [unsent]
    rfl
  have notDue := not_due_without now consistent.stamped invalid
  rw [purgeDay_unsent]
  by_cases early : day now < day since
  next =>
    refine swept_silent (notify_none ((dueStage_none consistent.stamped).mpr (Or.inl early)) true)
      (iff_of_false notDue (by omega)) fun _ tomorrow next => ?_
    refine ⟨?_, fun late found => by simp [noFinal] at found⟩
    rw [unsent, noFinal, purgeDay_unsent]
    omega
  next =>
    have someStage : lock.dueStage now ≠ none := by
      rw [Ne, dueStage_none consistent.stamped, unsent, Option.getD_none]
      omega
    obtain ⟨due, stage⟩ := Option.ne_none_iff_exists'.mp someStage
    rw [dueStage_since consistent.stamped stage] at stage
    have notFinal : due.2 ≠ finalNoticeDay := by
      intro final
      rw [final, dueStage_final consistent.stamped, unsent, Option.getD_none] at stage
      omega
    have mailed := notify_mailed stage (by simp [Lock.claimed, noClaims])
    rw [if_neg notFinal, unsent, noFinal, Option.getD_none] at mailed
    have row : (lock.notify now true).1.row.firstNoticeAt = some now ∧
        (lock.notify now true).1.row.finalNoticeAt = none := by
      rw [mailed]
      simp [recordNotice, unsent, noFinal, notFinal]
    have stamped : (lock.notify now true).1.row.lockedSince = some since := by
      rw [mailed]
      exact consistent.stamped
    have pending : validFinalNotice (some now) none = false := rfl
    have bounds := nextRun_bounds now
    constructor
    next =>
      rw [mailed]
      intro named same
      refine (Option.some.inj same).symm.trans (congrArg runTime ?_)
      rw [purgeDay_pending pending]
      omega
    next =>
      refine iff_of_false (not_due_without now stamped ?_) (by omega)
      rw [row.1, row.2, pending]
    next =>
      intro _ tomorrow next
      refine ⟨?_, fun late found => by simp [row.2] at found⟩
      rw [row.1, row.2, purgeDay_pending pending]
      omega

theorem swept_pending (consistent : Consistent lock since today) (past : today ≤ day now)
    {sent : Time} (first : lock.row.firstNoticeAt = some sent)
    (invalid : validFinalNotice (some sent) lock.row.finalNoticeAt = false) :
    Swept lock since now (purgeDay since (some sent) lock.row.finalNoticeAt (day now)) := by
  have before : day sent ≤ day now := (consistent.firstPast sent first).trans past
  have none : validFinalNotice lock.row.firstNoticeAt lock.row.finalNoticeAt = false := by
    rw [first, invalid]
  have notDue := not_due_without now consistent.stamped none
  have notHeld : ∀ tomorrow, Held lock tomorrow := by
    intro tomorrow late found valid
    rw [found, valid] at none
    cases none
  have bounds := nextRun_bounds now
  rw [purgeDay_pending invalid]
  by_cases final : lock.dueStage now = some (since, finalNoticeDay)
  next =>
    have ready := (dueStage_final consistent.stamped).mp final
    rw [first, Option.getD_some] at ready
    have free : lock.claimed (noticeKey since lock.row.firstNoticeAt finalNoticeDay) now = false := by
      rw [Lock.claimed, consistent.finalFree none]
      rfl
    have mailed := notify_mailed final free
    rw [if_pos rfl, first, Option.getD_some] at mailed
    have row : (lock.notify now true).1.row.firstNoticeAt = some sent ∧
        (lock.notify now true).1.row.finalNoticeAt = some now := by
      rw [mailed]
      simp [recordNotice, first]
    have stamped : (lock.notify now true).1.row.lockedSince = some since := by
      rw [mailed]
      exact consistent.stamped
    have valid : validFinalNotice (some sent) (some now) = true := valid_iff.mpr ready.2
    constructor
    next =>
      rw [mailed]
      intro named same
      refine (Option.some.inj same).symm.trans (congrArg runTime ?_)
      rw [purgeDay_warned valid]
      omega
    next =>
      refine iff_of_false ?_ (by omega)
      rw [purgeDue_iff stamped]
      rintro ⟨_, _, late, _, found, _, given, _⟩
      rw [row.2] at found
      cases found
      omega
    next =>
      intro _ tomorrow next
      refine ⟨?_, fun late found _ => ?_⟩
      next =>
        rw [row.1, row.2, purgeDay_warned valid]
        omega
      next =>
        rw [row.2] at found
        cases found
        exact tomorrow_lt next.le
  next =>
    have notReady := (dueStage_final consistent.stamped).not.mp final
    rw [first, Option.getD_some] at notReady
    have later : ∀ next, next ≤ day now + 1 →
        purgeDay since (some sent) lock.row.finalNoticeAt next =
          max (max (day since + 30) (day sent + 7)) (day now + 1) := by
      intro next soon
      rw [purgeDay_pending invalid]
      omega
    have unchanged : lock.notify now true = (lock, Option.none) →
        Swept lock since now (max (max (day since + 30) (day sent + 7)) (day now + 1)) := by
      refine fun silent => swept_silent silent (iff_of_false notDue (by omega)) ?_
      intro _ tomorrow next
      rw [first]
      exact ⟨later _ next.le, notHeld tomorrow⟩
    cases stage : lock.dueStage now with
    | none => exact unchanged (notify_none stage true)
    | some due =>
      rw [dueStage_since consistent.stamped stage] at stage
      cases free : lock.claimed (noticeKey since lock.row.firstNoticeAt due.2) now with
      | true => exact unchanged (notify_skipped stage (Or.inl free))
      | false =>
        have notFinal : due.2 ≠ finalNoticeDay := fun same => final (by rw [stage, same])
        have mailed := notify_mailed stage free
        rw [if_neg notFinal, first, Option.getD_some] at mailed
        have row : (lock.notify now true).1.row = lock.row := by
          rw [mailed]
          exact recordNotice_same first notFinal
        constructor
        next =>
          rw [mailed]
          intro named same
          exact (Option.some.inj same).symm.trans (congrArg runTime (later _ bounds.2))
        next =>
          rw [row]
          exact iff_of_false notDue (by omega)
        next =>
          intro _ tomorrow next
          rw [row, first]
          refine ⟨later _ next.le, ?_⟩
          intro late found valid
          rw [row] at found valid
          exact notHeld tomorrow late found valid

theorem swept_warned (consistent : Consistent lock since today) (past : today ≤ day now)
    {sent late : Time} (first : lock.row.firstNoticeAt = some sent)
    (final : lock.row.finalNoticeAt = some late)
    (valid : validFinalNotice (some sent) (some late) = true) (held : Held lock now) :
    Swept lock since now (purgeDay since (some sent) (some late) (day now)) := by
  obtain ⟨before, month⟩ := consistent.finalPast late final
  have week := valid_iff.mp valid
  have stage : lock.dueStage now = some (since, finalNoticeDay) := by
    rw [dueStage_final consistent.stamped, first, Option.getD_some]
    omega
  have claimed : lock.claimed (noticeKey since lock.row.firstNoticeAt finalNoticeDay) now = true :=
    (claimed_some (consistent.finalClaim late final (by rw [first, valid])) now).mpr
      (held late final (by rw [first, valid]))
  rw [purgeDay_warned valid]
  refine swept_silent (notify_skipped stage (Or.inl claimed)) ?_ ?_
  next =>
    rw [purgeDue_iff consistent.stamped]
    constructor
    next =>
      rintro ⟨expired, _, _, same, alsoSame, _, given, long⟩
      rw [first] at same
      rw [final] at alsoSame
      cases same
      cases alsoSame
      omega
    next =>
      intro today
      exact ⟨by omega, sent, late, first, final, week, by omega, by omega⟩
  next =>
    intro soon tomorrow next
    rw [first, final]
    refine ⟨by rw [purgeDay_warned valid]; omega, fun other found _ => ?_⟩
    rw [final] at found
    cases found
    exact tomorrow_lt (by omega)

theorem Consistent.swept (consistent : Consistent lock since today) (past : today ≤ day now)
    (held : Held lock now) : Swept lock since now
      (purgeDay since lock.row.firstNoticeAt lock.row.finalNoticeAt (day now)) := by
  cases first : lock.row.firstNoticeAt with
  | none =>
    rw [(consistent.unsent first).1]
    exact swept_unsent consistent first
  | some sent =>
    cases valid : validFinalNotice (some sent) lock.row.finalNoticeAt with
    | false => exact swept_pending consistent past first valid
    | true =>
      cases final : lock.row.finalNoticeAt with
      | none =>
        rw [final] at valid
        cases valid
      | some late =>
        rw [final] at valid
        exact swept_warned consistent past first final valid held

theorem Consistent.later (consistent : Consistent lock since today) {date : Nat} (past : today ≤ date) :
    Consistent lock since date where
  stamped := consistent.stamped
  unsent := consistent.unsent
  firstPast := fun sent first => (consistent.firstPast sent first).trans past
  finalPast := fun late final =>
    ⟨(consistent.finalPast late final).1.trans past, (consistent.finalPast late final).2⟩
  finalClaim := consistent.finalClaim
  finalFree := consistent.finalFree

theorem noticeKey_ne {stage : Int} {first other : Option Time} (notFinal : stage ≠ finalNoticeDay) :
    noticeKey since first finalNoticeDay ≠ noticeKey since other stage :=
  fun same => notFinal (congrArg NoticeKey.stage same).symm

-- The three notices: the final one, the first one and any other.
theorem Consistent.finalMailed (consistent : Consistent lock since today) (past : today ≤ day now)
    (final : lock.dueStage now = some (since, finalNoticeDay)) :
    Consistent
      { row := recordNotice lock.row finalNoticeDay now
        claims := Function.update lock.claims
          (noticeKey since lock.row.firstNoticeAt finalNoticeDay) (some (now + noticeKeyTtlSeconds)) }
      since (day now) := by
  have ready := (dueStage_final consistent.stamped).mp final
  cases first : lock.row.firstNoticeAt with
  | none =>
    rw [first, Option.getD_none] at ready
    omega
  | some sent =>
    rw [first, Option.getD_some] at ready
    have kept : (recordNotice lock.row finalNoticeDay now).firstNoticeAt = some sent := by
      simp [recordNotice, first]
    have set : (recordNotice lock.row finalNoticeDay now).finalNoticeAt = some now := rfl
    constructor
    next => exact consistent.stamped
    next =>
      intro none
      rw [kept] at none
      cases none
    next =>
      intro other same
      rw [kept] at same
      cases same
      exact (consistent.firstPast sent first).trans past
    next =>
      intro late same
      rw [set] at same
      cases same
      exact ⟨le_rfl, ready.1⟩
    next =>
      intro late same _
      rw [set] at same
      cases same
      rw [kept]
      exact Function.update_self ..
    next =>
      intro invalid
      rw [kept, set, valid_iff.mpr ready.2] at invalid
      cases invalid

theorem Consistent.firstMailed (consistent : Consistent lock since today) (now : Time)
    (first : lock.row.firstNoticeAt = none) {stage : Int} (notFinal : stage ≠ finalNoticeDay) :
    Consistent
      { row := recordNotice lock.row stage now
        claims := Function.update lock.claims (noticeKey since lock.row.firstNoticeAt stage)
          (some (now + noticeKeyTtlSeconds)) } since (day now) := by
  obtain ⟨noFinal, noClaims⟩ := consistent.unsent first
  have set : (recordNotice lock.row stage now).firstNoticeAt = some now := by
    simp [recordNotice, first]
  have kept : (recordNotice lock.row stage now).finalNoticeAt = none := by
    simp [recordNotice, notFinal, noFinal]
  constructor
  next => exact consistent.stamped
  next =>
    intro none
    rw [set] at none
    cases none
  next =>
    intro sent same
    rw [set] at same
    cases same
    exact le_rfl
  next =>
    intro late same
    rw [kept] at same
    cases same
  next =>
    intro late same
    rw [kept] at same
    cases same
  next =>
    intro _
    exact (Function.update_of_ne (noticeKey_ne notFinal) _ _).trans (noClaims _)

theorem Consistent.otherMailed (consistent : Consistent lock since today) (past : today ≤ day now)
    {sent : Time} (first : lock.row.firstNoticeAt = some sent) {stage : Int}
    (notFinal : stage ≠ finalNoticeDay) :
    Consistent
      { row := recordNotice lock.row stage now
        claims := Function.update lock.claims (noticeKey since lock.row.firstNoticeAt stage)
          (some (now + noticeKeyTtlSeconds)) } since (day now) := by
  rw [recordNotice_same first notFinal]
  have later := consistent.later past
  have other : Function.update lock.claims (noticeKey since lock.row.firstNoticeAt stage)
      (some (now + noticeKeyTtlSeconds)) (noticeKey since lock.row.firstNoticeAt finalNoticeDay) =
        lock.claims (noticeKey since lock.row.firstNoticeAt finalNoticeDay) :=
    Function.update_of_ne (noticeKey_ne notFinal) _ _
  constructor
  next => exact later.stamped
  next =>
    intro none
    rw [first] at none
    cases none
  next => exact later.firstPast
  next => exact later.finalPast
  next => exact fun late final valid => other.trans (later.finalClaim late final valid)
  next => exact fun invalid => other.trans (later.finalFree invalid)

theorem Consistent.notify (consistent : Consistent lock since today) (now : Time) (past : today ≤ day now)
    (delivered : Bool) : Consistent (lock.notify now delivered).1 since (day now) := by
  have same : lock.notify now delivered = (lock, none) →
      Consistent (lock.notify now delivered).1 since (day now) := by
    intro silent
    rw [silent]
    exact consistent.later past
  cases stage : lock.dueStage now with
  | none => exact same (notify_none stage delivered)
  | some due =>
    rw [dueStage_since consistent.stamped stage] at stage
    cases delivered with
    | false => exact same (notify_skipped stage (Or.inr rfl))
    | true =>
      cases free : lock.claimed (noticeKey since lock.row.firstNoticeAt due.2) now with
      | true => exact same (notify_skipped stage (Or.inl free))
      | false =>
        rw [notify_mailed stage free]
        by_cases final : due.2 = finalNoticeDay
        next =>
          rw [final] at stage ⊢
          exact consistent.finalMailed past stage
        next =>
          cases first : lock.row.firstNoticeAt with
          | none =>
            have result := consistent.firstMailed now first final
            rwa [first] at result
          | some sent =>
            have result := consistent.otherMailed past first final
            rwa [first] at result

end Locks

section Runs

variable {lock : Lock} {since : Time} {times : Nat → Time} {next : Nat}

theorem sweeps_spec (consistent : Consistent lock since next) {target : Nat}
    (daily : ∀ sweep, day (times sweep) = next + sweep)
    (closed : purgeDay since lock.row.firstNoticeAt lock.row.finalNoticeAt next = target)
    (held : Held lock (times 0)) (sweep : Nat) (before : next + sweep ≤ target) :
    Consistent (lock.sweeps times sweep) since (next + sweep) ∧
      Swept (lock.sweeps times sweep) since (times sweep) target := by
  induction sweep with
  | zero =>
    have swept := consistent.swept (daily 0).ge held
    rw [daily 0, Nat.add_zero, closed] at swept
    exact ⟨consistent, swept⟩
  | succ sweep ih =>
    obtain ⟨consistent, swept⟩ := ih (by omega)
    have soon : day (times sweep) < target := by
      rw [daily]
      omega
    obtain ⟨closed, held⟩ := swept.later soon (times (sweep + 1)) (by rw [daily, daily]; rfl)
    have after := consistent.notify (times sweep) (daily sweep).ge true
    have next : Consistent (lock.sweeps times (sweep + 1)) since (next + (sweep + 1)) :=
      after.later (by rw [daily]; omega)
    refine ⟨next, ?_⟩
    have swept := next.swept (daily (sweep + 1)).ge held
    have same : purgeDay since (lock.sweeps times (sweep + 1)).row.firstNoticeAt
        (lock.sweeps times (sweep + 1)).row.finalNoticeAt (day (times (sweep + 1))) = target :=
      closed
    rwa [same] at swept

theorem keepsDate_of_held (consistent : Consistent lock since next)
    (daily : ∀ sweep, day (times sweep) = next + sweep) (held : Held lock (times 0)) :
    KeepsDate lock times
      (runTime (purgeDay since lock.row.firstNoticeAt lock.row.finalNoticeAt next)) := by
  generalize closed : purgeDay since lock.row.firstNoticeAt lock.row.finalNoticeAt next = target
  have reach : next ≤ target := by
    rw [← closed, purgeDay]
    omega
  have spec := fun sweep => sweeps_spec consistent daily closed held sweep
  refine ⟨target - next, ?_, ?_, fun earlier before => ?_, fun earlier before => ?_⟩
  next =>
    rw [daily, day_runTime]
    omega
  next =>
    obtain ⟨_, swept⟩ := spec (target - next) (by omega)
    refine swept.due.mpr ?_
    rw [daily]
    omega
  next =>
    obtain ⟨_, swept⟩ := spec earlier (by omega)
    refine Bool.eq_false_iff.mpr fun due => ?_
    have today := swept.due.mp due
    rw [daily] at today
    omega
  next => exact (spec earlier (by omega)).2.names

-- With the claim run out, the sweep sends the final notice again and waits for another day.
theorem not_keepsDate_of_expired (times : Nat → Time) (consistent : Consistent lock since next)
    (daily : ∀ sweep, day (times sweep) = next + sweep) {late : Time}
    (final : lock.row.finalNoticeAt = some late)
    (valid : validFinalNotice lock.row.firstNoticeAt (some late) = true)
    (expired : late + noticeKeyTtlSeconds ≤ times 0) :
    ¬ KeepsDate lock times
      (runTime (purgeDay since lock.row.firstNoticeAt lock.row.finalNoticeAt next)) := by
  cases first : lock.row.firstNoticeAt with
  | none =>
    rw [first] at valid
    cases valid
  | some sent =>
    rw [first] at valid
    have week := valid_iff.mp valid
    have month := (consistent.finalPast late final).2
    have gap := expired_gap expired
    rw [daily] at gap
    rw [final, purgeDay_warned valid]
    rintro ⟨sweep, onDate, due, _⟩
    rw [daily, day_runTime] at onDate
    have zero : sweep = 0 := by omega
    subst zero
    have stage : lock.dueStage (times 0) = some (since, finalNoticeDay) := by
      rw [dueStage_final consistent.stamped, first, Option.getD_some, daily]
      omega
    have free : lock.claimed (noticeKey since lock.row.firstNoticeAt finalNoticeDay) (times 0) =
        false := by
      have claim := consistent.finalClaim late final (by rw [first, valid])
      rw [Bool.eq_false_iff, ne_eq, claimed_some claim]
      exact not_lt.mpr expired
    have row : (lock.sweeps times 1).row = recordNotice lock.row finalNoticeDay (times 0) := by
      rw [Lock.sweeps, Lock.sweeps, notify_mailed stage free]
    have stamped : (lock.sweeps times 1).row.lockedSince = some since := by
      rw [row]
      exact consistent.stamped
    obtain ⟨_, _, other, _, found, _, given, _⟩ := (purgeDue_iff stamped).mp due
    rw [row] at found
    cases found
    omega

end Runs

-- The purge date shown is kept exactly when the Redis claim of a final notice on record holds at
-- the next sweep.
theorem purge_date_kept_iff (lock : Lock) (since now shown : Time) (times : Nat → Time)
    (consistent : Consistent lock since (day now))
    (daily : ∀ sweep, day (times sweep) = nextRun now + sweep)
    (asked : purgeAt lock.row now = some shown) :
    KeepsDate lock times shown ↔
      ∀ late, lock.row.finalNoticeAt = some late →
        validFinalNotice lock.row.firstNoticeAt (some late) = true →
          times 0 < late + noticeKeyTtlSeconds := by
  have next := consistent.later (nextRun_bounds now).1
  have same : shown = runTime (purgeDay since lock.row.firstNoticeAt lock.row.finalNoticeAt
      (nextRun now)) := by
    rw [purgeAt, consistent.stamped] at asked
    exact (Option.some.inj asked).symm
  rw [same]
  constructor
  next =>
    intro keeps late final valid
    by_contra expired
    exact not_keepsDate_of_expired times next daily final valid (not_lt.mp expired) keeps
  next => exact keepsDate_of_held next daily

def sampleLock : Lock :=
  { row :=
      { present := true, deleted := false, planFree := true, externalBilling := true,
        memoryLimit := 1000, storageLimit := -1, memoryCount := 1200, usedBytes := 0,
        ownerDeletedAt := none, lockedSince := some (runTime 0), firstNoticeAt := none,
        finalNoticeAt := none }
    claims := fun _ => none }

theorem sampleLock_consistent : Consistent sampleLock (runTime 0) 0 :=
  consistent_stamp rfl rfl rfl

-- Asked at noon of day 25, with no notice sent so far.
theorem purge_date_kept_iff_late_notices :
    KeepsDate sampleLock (fun sweep => runTime (26 + sweep)) (runTime 33) := by
  have asked : purgeAt sampleLock.row (25 * 86400 + 43200) = some (runTime 33) := by decide +kernel
  have next : nextRun (25 * 86400 + 43200) = 26 := by decide +kernel
  refine (purge_date_kept_iff sampleLock (runTime 0) (25 * 86400 + 43200) (runTime 33) _
    (sampleLock_consistent.later (Nat.zero_le _)) ?_ asked).mpr ?_
  next =>
    intro sweep
    rw [next]
    exact day_runTime _
  next =>
    intro late final
    cases final

-- The first notice on day 0, the final one on day 29, and no sweep until day 81.
def warnedLock : Lock :=
  ((sampleLock.notify (runTime 0) true).1.notify (runTime 29) true).1

theorem warnedLock_consistent : Consistent warnedLock (runTime 0) 29 := by
  have first := sampleLock_consistent.notify (runTime 0) (Nat.zero_le _) true
  have second := first.notify (runTime 29)
    (by rw [day_runTime, day_runTime]; exact Nat.zero_le _) true
  rw [day_runTime] at second
  exact second

theorem purge_date_missed :
    Consistent warnedLock (runTime 0) (day (80 * 86400 + 43200)) ∧
    purgeAt warnedLock.row (80 * 86400 + 43200) = some (runTime 81) ∧
    ¬ KeepsDate warnedLock (fun sweep => runTime (81 + sweep)) (runTime 81) := by
  have final : warnedLock.row.finalNoticeAt = some (runTime 29) := by decide +kernel
  have valid : validFinalNotice warnedLock.row.firstNoticeAt (some (runTime 29)) = true := by
    decide +kernel
  have expired : runTime 29 + noticeKeyTtlSeconds ≤ runTime 81 := by decide +kernel
  refine ⟨warnedLock_consistent.later (by decide +kernel), by decide +kernel, ?_⟩
  have missed := not_keepsDate_of_expired (fun sweep => runTime (81 + sweep))
    (warnedLock_consistent.later (by decide : 29 ≤ 81)) (fun sweep => day_runTime _) final valid
      expired
  have date : purgeDay (runTime 0) warnedLock.row.firstNoticeAt warnedLock.row.finalNoticeAt 81 =
      81 := by
    decide +kernel
  rwa [date] at missed

end MemoryCloud.Purge
