import MemoryCloud.Vectors.Stamps

set_option autoImplicit false

/-!
# Instants of the calendar

The microseconds since the first day of year 1, the order they give, and the
`datetime` that an offset of less than a day away from another one has.
-/

namespace MemoryCloud.TimeTriggers

open Changes

def dayLength : Nat := 86400000000

def daysBeforeYear (year : Nat) : Nat :=
  (year - 1) * 365 + (year - 1) / 4 - (year - 1) / 100 + (year - 1) / 400

def daysBeforeMonth (year month : Nat) : Nat :=
  ((List.range (month - 1)).map fun earlier => daysInMonth year (earlier + 1)).sum

-- `date.toordinal`: 1 on the first day of year 1.
def toordinal (at_ : DateTime) : Nat :=
  daysBeforeYear at_.year + daysBeforeMonth at_.year at_.month + at_.day

def clock (at_ : DateTime) : Nat :=
  ((at_.hour * 60 + at_.minute) * 60 + at_.second) * 1000000 + at_.microsecond

def instant (at_ : DateTime) : Int := (toordinal at_ : Int) * dayLength + clock at_

section Days

theorem succ_quotient (past divisor : Nat) :
    (past + 1) / divisor = past / divisor + if (past + 1) % divisor = 0 then 1 else 0 := by
  rw [Nat.succ_div]
  simp only [Nat.dvd_iff_mod_eq_zero]

theorem daysBeforeYear_succ {year : Nat} (valid : 1 ≤ year) :
    daysBeforeYear (year + 1) = daysBeforeYear year + if isLeap year then 366 else 365 := by
  obtain ⟨past, rfl⟩ := Nat.exists_eq_add_of_le' valid
  have quarters := succ_quotient past 4
  have centuries := succ_quotient past 100
  have cycles := succ_quotient past 400
  have fewer : past / 100 ≤ past / 4 := by omega
  have whole : (past + 1) % 100 = 0 → (past + 1) % 4 = 0 := by omega
  have fourth : (past + 1) % 400 = 0 → (past + 1) % 100 = 0 := by omega
  unfold daysBeforeYear isLeap
  simp only [Nat.add_sub_cancel, Bool.and_eq_true, Bool.or_eq_true, decide_eq_true_eq, quarters,
    centuries, cycles]
  clear quarters centuries cycles
  generalize past / 4 = quarter at *
  generalize past / 100 = century at *
  generalize past / 400 = cycle at *
  by_cases four : (past + 1) % 4 = 0
  next =>
    by_cases hundred : (past + 1) % 100 = 0
    next =>
      by_cases cycleYear : (past + 1) % 400 = 0
      next => simp [four, hundred, cycleYear]; omega
      next => simp [four, hundred, cycleYear]; omega
    next =>
      have other : (past + 1) % 400 ≠ 0 := fun zero => hundred (fourth zero)
      simp [four, hundred, other]; omega
  next =>
    have apart : (past + 1) % 100 ≠ 0 := fun zero => four (whole zero)
    have other : (past + 1) % 400 ≠ 0 := fun zero => apart (fourth zero)
    simp [four, apart, other]; omega

theorem daysBeforeMonth_succ {year month : Nat} (valid : 1 ≤ month) :
    daysBeforeMonth year (month + 1) = daysBeforeMonth year month + daysInMonth year month := by
  obtain ⟨past, rfl⟩ := Nat.exists_eq_add_of_le' valid
  simp only [daysBeforeMonth, Nat.add_sub_cancel, List.range_succ, List.map_append, List.sum_append]
  simp

theorem daysBeforeMonth_year (year : Nat) :
    daysBeforeMonth year 13 = if isLeap year then 366 else 365 := by
  simp only [daysBeforeMonth, List.range_succ, List.range_zero]
  by_cases leap : isLeap year <;> simp [daysInMonth, leap]

theorem daysBeforeMonth_mono (year : Nat) {first second : Nat} (valid : 1 ≤ first)
    (less : first ≤ second) : daysBeforeMonth year first ≤ daysBeforeMonth year second := by
  induction second, less using Nat.le_induction with
  | base => exact Nat.le_refl _
  | succ second later ih =>
    rw [daysBeforeMonth_succ (Nat.le_trans valid later)]
    exact Nat.le_trans ih (Nat.le_add_right _ _)

theorem daysBeforeYear_mono {first second : Nat} (valid : 1 ≤ first) (less : first ≤ second) :
    daysBeforeYear first ≤ daysBeforeYear second := by
  induction second, less using Nat.le_induction with
  | base => exact Nat.le_refl _
  | succ second later ih =>
    rw [daysBeforeYear_succ (Nat.le_trans valid later)]
    exact Nat.le_trans ih (Nat.le_add_right _ _)

theorem daysBeforeMonth_day (at_ : DateTime) :
    daysBeforeMonth at_.year at_.month + at_.day ≤ daysBeforeMonth at_.year (at_.month + 1) := by
  rw [daysBeforeMonth_succ at_.validMonth.1]
  exact Nat.add_le_add_left at_.validDay.2 _

theorem toordinal_lt_year (at_ : DateTime) :
    toordinal at_ ≤ daysBeforeYear (at_.year + 1) := by
  have month := daysBeforeMonth_day at_
  have months := daysBeforeMonth_mono at_.year (by omega : 1 ≤ at_.month + 1)
    (by have := at_.validMonth.2; omega : at_.month + 1 ≤ 13)
  rw [daysBeforeMonth_year] at months
  rw [daysBeforeYear_succ at_.validYear.1]
  unfold toordinal
  omega

def date (at_ : DateTime) : List Nat := [at_.year, at_.month, at_.day]

theorem toordinal_lt_of_date {first second : DateTime} (less : date first < date second) :
    toordinal first < toordinal second := by
  have day := second.validDay.1
  simp only [date, List.cons_lt_cons_iff, List.not_lt_nil, and_false, or_false] at less
  rcases less with year | ⟨sameYear, month | ⟨sameMonth, earlier⟩⟩
  next =>
    have before := toordinal_lt_year first
    have years := daysBeforeYear_mono (by omega : 1 ≤ first.year + 1) year
    unfold toordinal at before ⊢
    omega
  next =>
    have before := daysBeforeMonth_day first
    have months := daysBeforeMonth_mono first.year (by omega : 1 ≤ first.month + 1) month
    unfold toordinal
    rw [sameYear] at before months ⊢
    omega
  next =>
    unfold toordinal
    rw [sameYear, sameMonth]
    omega

end Days

section Instants

theorem clock_lt (at_ : DateTime) : clock at_ < dayLength := by
  have time := at_.validTime
  unfold clock dayLength
  omega

def time (at_ : DateTime) : List Nat := [at_.hour, at_.minute, at_.second, at_.microsecond]

theorem clock_lt_of_time {first second : DateTime} (less : time first < time second) :
    clock first < clock second := by
  have one := first.validTime
  have two := second.validTime
  simp only [time, List.cons_lt_cons_iff, List.not_lt_nil, and_false, or_false] at less
  unfold clock
  omega

theorem instant_lt_of_toordinal {first second : DateTime}
    (less : toordinal first < toordinal second) : instant first < instant second := by
  have one := clock_lt first
  unfold instant
  unfold dayLength at one ⊢
  omega

theorem fields_lt {first second : DateTime} :
    Vectors.fields first < Vectors.fields second ↔
      date first < date second ∨ date first = date second ∧ time first < time second := by
  simp only [Vectors.fields, date, time, List.cons_lt_cons_iff, List.not_lt_nil, and_false,
    or_false, List.cons.injEq, and_true]
  omega

theorem instant_lt_of_fields {first second : DateTime}
    (less : Vectors.fields first < Vectors.fields second) : instant first < instant second := by
  rcases fields_lt.mp less with day | ⟨same, later⟩
  next => exact instant_lt_of_toordinal (toordinal_lt_of_date day)
  next =>
    have before := clock_lt_of_time later
    simp only [date, List.cons.injEq, and_true] at same
    simp only [instant, toordinal, same]
    omega

theorem fields_trichotomy (first second : DateTime) :
    Vectors.fields first < Vectors.fields second ∨ first = second ∨
      Vectors.fields second < Vectors.fields first := by
  obtain ⟨year, month, day, hour, minute, whole, part, _, _, _, _⟩ := first
  obtain ⟨year', month', day', hour', minute', whole', part', _, _, _, _⟩ := second
  simp only [Vectors.fields, List.cons_lt_cons_iff, List.not_lt_nil, and_false, or_false,
    DateTime.mk.injEq]
  omega

theorem instant_lt {first second : DateTime} :
    instant first < instant second ↔ Vectors.fields first < Vectors.fields second := by
  refine ⟨fun less => ?_, instant_lt_of_fields⟩
  rcases fields_trichotomy first second with before | same | after
  next => exact before
  next => exact absurd less (same ▸ Int.lt_irrefl _)
  next => exact absurd less (Int.lt_asymm (instant_lt_of_fields after))

end Instants

section Shift

def onDay (at_ : DateTime) (year month day : Nat) : Option DateTime :=
  DateTime.make? year month day at_.hour at_.minute at_.second at_.microsecond

def dayAfter (at_ : DateTime) : Option DateTime :=
  if at_.day < daysInMonth at_.year at_.month then onDay at_ at_.year at_.month (at_.day + 1)
  else if at_.month < 12 then onDay at_ at_.year (at_.month + 1) 1
  else onDay at_ (at_.year + 1) 1 1

def dayBefore (at_ : DateTime) : Option DateTime :=
  if 1 < at_.day then onDay at_ at_.year at_.month (at_.day - 1)
  else if 1 < at_.month then
    onDay at_ at_.year (at_.month - 1) (daysInMonth at_.year (at_.month - 1))
  else onDay at_ (at_.year - 1) 12 31

def withClock (at_ : DateTime) (micros : Nat) : DateTime :=
  { at_ with
    hour := micros / 3600000000 % 24
    minute := micros / 60000000 % 60
    second := micros / 1000000 % 60
    microsecond := micros % 1000000
    validTime := by omega }

-- `at_ - offset` for an offset of less than a day; `none` where it raises `OverflowError`.
def minus (at_ : DateTime) (offset : Int) : Option DateTime :=
  let micros : Int := clock at_ - offset
  if micros < 0 then (dayBefore at_).map fun day => withClock day (micros + dayLength).toNat
  else if micros < dayLength then some (withClock at_ micros.toNat)
  else (dayAfter at_).map fun day => withClock day (micros - dayLength).toNat

theorem onDay_some {at_ moved : DateTime} {year month day : Nat}
    (found : onDay at_ year month day = some moved) :
    moved.year = year ∧ moved.month = month ∧ moved.day = day := by
  unfold onDay DateTime.make? at found
  split at found
  next =>
    split at found
    next =>
      split at found
      next =>
        split at found
        next =>
          cases found
          exact ⟨rfl, rfl, rfl⟩
        next => cases found
      next => cases found
    next => cases found
  next => cases found

theorem onDay_isSome (at_ : DateTime) {year month day : Nat}
    (validYear : 1 ≤ year ∧ year ≤ 9999) (validMonth : 1 ≤ month ∧ month ≤ 12)
    (validDay : 1 ≤ day ∧ day ≤ daysInMonth year month) :
    ∃ moved, onDay at_ year month day = some moved := by
  unfold onDay DateTime.make?
  rw [dif_pos validYear, dif_pos validMonth, dif_pos validDay, dif_pos at_.validTime]
  exact ⟨_, rfl⟩

theorem daysInMonth_pos (year month : Nat) : 1 ≤ daysInMonth year month := by
  unfold daysInMonth
  split
  next => split <;> decide
  next => split <;> decide

theorem dayAfter_toordinal {at_ next : DateTime} (found : dayAfter at_ = some next) :
    toordinal next = toordinal at_ + 1 := by
  unfold dayAfter at found
  have last := at_.validDay.2
  split at found
  next =>
    obtain ⟨year, month, day⟩ := onDay_some found
    simp only [toordinal, year, month, day]
    omega
  next ending =>
    split at found
    next =>
      obtain ⟨year, month, day⟩ := onDay_some found
      simp only [toordinal, year, month, day, daysBeforeMonth_succ at_.validMonth.1]
      omega
    next december =>
      obtain ⟨year, month, day⟩ := onDay_some found
      have twelve : at_.month = 12 := by have := at_.validMonth.2; omega
      have months := @daysBeforeMonth_succ at_.year 12 (by decide)
      rw [daysBeforeMonth_year] at months
      rw [twelve] at ending last
      simp only [toordinal, year, month, day, daysBeforeYear_succ at_.validYear.1, twelve, months]
      have first : daysBeforeMonth (at_.year + 1) 1 = 0 := rfl
      omega

theorem dayBefore_toordinal {at_ previous : DateTime} (found : dayBefore at_ = some previous) :
    toordinal previous + 1 = toordinal at_ := by
  unfold dayBefore at found
  have first := at_.validDay.1
  split at found
  next =>
    obtain ⟨year, month, day⟩ := onDay_some found
    simp only [toordinal, year, month, day]
    omega
  next beginning =>
    have one : at_.day = 1 := by omega
    split at found
    next later =>
      obtain ⟨year, month, day⟩ := onDay_some found
      have months := @daysBeforeMonth_succ at_.year (at_.month - 1) (by omega)
      rw [Nat.sub_add_cancel (by omega)] at months
      simp only [toordinal, year, month, day, one, months]
      omega
    next january =>
      obtain ⟨year, month, day⟩ := onDay_some found
      have firstMonth : at_.month = 1 := by have := at_.validMonth.1; omega
      have earlier := previous.validYear.1
      have months := @daysBeforeMonth_succ (at_.year - 1) 12 (by decide)
      rw [daysBeforeMonth_year] at months
      have years := daysBeforeYear_succ (year ▸ earlier)
      have december : daysInMonth (at_.year - 1) 12 = 31 := rfl
      have none : daysBeforeMonth at_.year 1 = 0 := rfl
      rw [Nat.sub_add_cancel (by omega)] at years
      simp only [toordinal, year, month, day, one, firstMonth, none, years]
      omega

-- No day comes after the one that has no next day.
theorem dayAfter_none {at_ : DateTime} (last : dayAfter at_ = none) (other : DateTime) :
    toordinal other ≤ toordinal at_ := by
  have dates := at_.validDay
  have months := at_.validMonth
  unfold dayAfter at last
  split at last
  next =>
    obtain ⟨_, found⟩ := onDay_isSome at_ at_.validYear months
      (by omega : 1 ≤ at_.day + 1 ∧ at_.day + 1 ≤ daysInMonth at_.year at_.month)
    rw [found] at last
    cases last
  next ending =>
    split at last
    next =>
      obtain ⟨_, found⟩ := onDay_isSome at_ at_.validYear 
        (by omega : 1 ≤ at_.month + 1 ∧ at_.month + 1 ≤ 12) ⟨le_refl 1, daysInMonth_pos _ _⟩
      rw [found] at last
      cases last
    next =>
      have twelve : at_.month = 12 := by omega
      have final : at_.year = 9999 := by
        by_contra earlier
        obtain ⟨_, found⟩ := onDay_isSome at_
          (by have := at_.validYear; omega : 1 ≤ at_.year + 1 ∧ at_.year + 1 ≤ 9999)
          ⟨le_refl 1, by decide⟩ ⟨le_refl 1, daysInMonth_pos _ _⟩
        rw [found] at last
        cases last
      have before := toordinal_lt_year other
      have years : daysBeforeYear (other.year + 1) ≤ daysBeforeYear (9999 + 1) :=
        daysBeforeYear_mono (by omega) (Nat.succ_le_succ other.validYear.2)
      have whole : daysBeforeYear (9999 + 1) = daysBeforeYear 9999 + daysBeforeMonth 9999 12 + 31 := by
        decide
      have days : daysInMonth 9999 12 = 31 := rfl
      rw [twelve, final] at ending
      refine (before.trans years).trans ?_
      rw [whole, toordinal, twelve, final]
      omega

-- No day comes before the one that has no previous day.
theorem dayBefore_none {at_ : DateTime} (first : dayBefore at_ = none) (other : DateTime) :
    toordinal at_ ≤ toordinal other := by
  have dates := at_.validDay
  have months := at_.validMonth
  unfold dayBefore at first
  split at first
  next =>
    obtain ⟨_, found⟩ := onDay_isSome at_ at_.validYear months
      (by omega : 1 ≤ at_.day - 1 ∧ at_.day - 1 ≤ daysInMonth at_.year at_.month)
    rw [found] at first
    cases first
  next =>
    split at first
    next =>
      obtain ⟨_, found⟩ := onDay_isSome at_ at_.validYear
        (by omega : 1 ≤ at_.month - 1 ∧ at_.month - 1 ≤ 12) ⟨daysInMonth_pos _ _, le_refl _⟩
      rw [found] at first
      cases first
    next =>
      have initial : at_.year = 1 := by
        by_contra later
        obtain ⟨_, found⟩ := onDay_isSome at_
          (by have := at_.validYear; omega : 1 ≤ at_.year - 1 ∧ at_.year - 1 ≤ 9999)
          ⟨by decide, le_refl 12⟩ (⟨by decide, le_refl 31⟩ : 1 ≤ 31 ∧ 31 ≤ daysInMonth _ 12)
        rw [found] at first
        cases first
      have one : at_.month = 1 := by omega
      have day : at_.day = 1 := by omega
      have least := other.validDay.1
      have start : daysBeforeYear 1 + daysBeforeMonth 1 1 = 0 := by decide
      simp only [toordinal, initial, one, day, start]
      omega

theorem toordinal_withClock (at_ : DateTime) (micros : Nat) :
    toordinal (withClock at_ micros) = toordinal at_ := rfl

theorem clock_withClock (at_ : DateTime) {micros : Nat} (within : micros < dayLength) :
    clock (withClock at_ micros) = micros := by
  unfold dayLength at within
  simp only [clock, withClock]
  omega

variable {at_ : DateTime} {offset : Int}

theorem minus_some {moved : DateTime} (below : -dayLength < offset) (above : offset < dayLength)
    (found : minus at_ offset = some moved) : instant moved = instant at_ - offset := by
  have within := clock_lt at_
  unfold minus at found
  dsimp only at found
  split at found
  next early =>
    obtain ⟨day, previous, rfl⟩ := Option.map_eq_some_iff.mp found
    have days := dayBefore_toordinal previous
    unfold instant
    rw [toordinal_withClock, clock_withClock _ (by omega), ← days]
    unfold dayLength at *
    omega
  next =>
    split at found
    next same =>
      cases found
      unfold instant
      rw [toordinal_withClock, clock_withClock _ (by omega)]
      omega
    next late =>
      obtain ⟨day, next, rfl⟩ := Option.map_eq_some_iff.mp found
      have days := dayAfter_toordinal next
      unfold instant
      rw [toordinal_withClock, clock_withClock _ (by omega), days]
      unfold dayLength at *
      omega

-- The shift fails only where no `datetime` is the instant that far away.
theorem minus_none (failed : minus at_ offset = none) (other : DateTime) :
    instant other ≠ instant at_ - offset := by
  have within := clock_lt at_
  have inside := clock_lt other
  unfold minus at failed
  dsimp only at failed
  unfold instant
  split at failed
  next early =>
    have first := dayBefore_none (Option.map_eq_none_iff.mp failed) other
    unfold dayLength at *
    omega
  next =>
    split at failed
    next => cases failed
    next late =>
      have last := dayAfter_none (Option.map_eq_none_iff.mp failed) other
      unfold dayLength at *
      omega

end Shift

end MemoryCloud.TimeTriggers
