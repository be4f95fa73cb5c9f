import MemoryCloud.TimeTriggers.Model

set_option autoImplicit false

/-!
# Windows and bounds

Texts of one width compare as the instants they denote, so a window holds
exactly the seconds of its components. An aware bound whose UTC instant is out
of the calendar is the one input that raises something else.
-/

namespace MemoryCloud.TimeTriggers

open Changes Vectors

section Texts

def seconds (at_ : DateTime) : List Nat :=
  [at_.year, at_.month, at_.day, at_.hour, at_.minute, at_.second]

theorem iso_toList (at_ : DateTime) : (iso at_).toList =
    digits 10 4 at_.year ++ '-' :: (digits 10 2 at_.month ++ '-' :: (digits 10 2 at_.day ++
      'T' :: (digits 10 2 at_.hour ++ ':' :: (digits 10 2 at_.minute ++
        ':' :: digits 10 2 at_.second)))) := by
  rw [iso, String.toList_ofList]

theorem iso_length (at_ : DateTime) : (iso at_).length = 19 := by
  rw [← String.length_toList, iso_toList]
  simp [digits_length]

theorem iso_lt {first second : DateTime} : iso first < iso second ↔ seconds first < seconds second := by
  have dateFirst := date_bounds first
  have dateSecond := date_bounds second
  have timeFirst := first.validTime
  have timeSecond := second.validTime
  have last := @digits_lt 2 first.second second.second [] [] (by omega) (by omega)
  simp only [List.append_nil, List.not_lt_nil, and_false, or_false] at last
  change (iso first).toList < (iso second).toList ↔ _
  rw [iso_toList, iso_toList, digits_lt dateFirst.1 dateSecond.1, cons_lt_same,
    digits_lt dateFirst.2.1 dateSecond.2.1, cons_lt_same, digits_lt dateFirst.2.2 dateSecond.2.2,
    cons_lt_same, digits_lt (by omega) (by omega), cons_lt_same, digits_lt (by omega) (by omega),
    cons_lt_same, last]
  simp only [seconds, List.cons_lt_cons_iff, List.not_lt_nil, and_false, or_false]

def Denotes (text : String) (at_ : DateTime) : Prop := at_.microsecond = 0 ∧ text = iso at_

def wholeSecond (at_ : DateTime) : DateTime :=
  { at_ with
    microsecond := 0
    validTime := ⟨at_.validTime.1, at_.validTime.2.1, at_.validTime.2.2.1, by decide⟩ }

theorem denotes_iso (at_ : DateTime) : Denotes (iso at_) (wholeSecond at_) := ⟨rfl, rfl⟩

theorem Denotes.lt {first second : String} {left right : DateTime} (one : Denotes first left)
    (two : Denotes second right) : first < second ↔ instant left < instant right := by
  obtain ⟨wholeLeft, rfl⟩ := one
  obtain ⟨wholeRight, rfl⟩ := two
  rw [iso_lt, instant_lt]
  simp only [seconds, fields, List.cons_lt_cons_iff, List.not_lt_nil, and_false, or_false,
    wholeLeft, wholeRight, Nat.lt_irrefl]

end Texts

section Components

theorem bind_ok {A B : Type} {first : Except Raised A} {then_ : A → Except Raised B} {result : B} :
    first >>= then_ = .ok result ↔ ∃ value, first = .ok value ∧ then_ value = .ok result := by
  cases first with
  | error raised => simp [bind, Except.bind]
  | ok value => simp [bind, Except.bind]

theorem map_ok {A B : Type} {first : Except Raised A} {f : A → B} {result : B} :
    first.map f = .ok result ↔ ∃ value, first = .ok value ∧ f value = result := by
  cases first with
  | error raised => simp [Except.map]
  | ok value => simp [Except.map]

theorem inRange_ok {value : Json} {name message : String} {least most number : Nat} :
    inRange value name least most message = .ok number ↔
      value = .int number ∧ least ≤ number ∧ number ≤ most := by
  unfold inRange
  rw [bind_ok]
  constructor
  next =>
    rintro ⟨whole, integer, found⟩
    cases value with
    | int value =>
      cases integer
      split at found
      next within =>
        cases found
        refine ⟨congrArg Json.int (Int.toNat_of_nonneg ?_).symm, ?_, ?_⟩
        all_goals omega
      next => cases found
    | _ => cases integer
  next =>
    rintro ⟨rfl, low, high⟩
    exact ⟨number, rfl, if_pos ⟨by omega, by omega⟩⟩

theorem optionally_ok {value : Option Json} {name message : String} {least most : Nat}
    {number : Option Nat} :
    optionally value name least most message = .ok number ↔
      value = number.map (fun given : Nat => Json.int given) ∧
        ∀ given ∈ number, least ≤ given ∧ given ≤ most := by
  cases value with
  | none => cases number <;> simp [optionally]
  | some value =>
    unfold optionally
    dsimp only
    rw [map_ok]
    constructor
    next =>
      rintro ⟨given, accepted, rfl⟩
      obtain ⟨rfl, bounds⟩ := inRange_ok.mp accepted
      exact ⟨rfl, fun _ same => Option.some.inj same ▸ bounds⟩
    next =>
      rintro ⟨same, bounds⟩
      obtain ⟨given, rfl, integer⟩ := Option.map_eq_some_iff.mp same.symm
      exact ⟨given, inRange_ok.mpr ⟨integer.symm, bounds given rfl⟩, rfl⟩

structure Components.Of (parts : Components) (trigger : Trigger) : Prop where
  year : component trigger "year" = some (.int parts.year) ∧ 1 ≤ parts.year ∧ parts.year ≤ 9999
  month : component trigger "month" = parts.month.map (fun given : Nat => Json.int given) ∧
    ∀ given ∈ parts.month, 1 ≤ given ∧ given ≤ 12
  day : component trigger "day" = parts.day.map (fun given : Nat => Json.int given) ∧
    ∀ given ∈ parts.day, 1 ≤ given ∧ given ≤ daysInMonth parts.year (parts.month.getD 1)
  hour : component trigger "hour" = parts.hour.map (fun given : Nat => Json.int given) ∧
    ∀ given ∈ parts.hour, 0 ≤ given ∧ given ≤ 23
  minute : component trigger "minute" = parts.minute.map (fun given : Nat => Json.int given) ∧
    ∀ given ∈ parts.minute, 0 ≤ given ∧ given ≤ 59
  levels : skippedLevel (component trigger "month") (component trigger "day")
    (component trigger "hour") (component trigger "minute") = none

theorem components_ok {trigger : Trigger} {parts : Components} :
    components trigger = .ok parts ↔ parts.Of trigger := by
  unfold components
  constructor
  next =>
    intro accepted
    split at accepted
    next => cases accepted
    next year given =>
      obtain ⟨_, yearly, accepted⟩ := bind_ok.mp accepted
      dsimp only at accepted
      split at accepted
      next => cases accepted
      next levels =>
        obtain ⟨_, monthly, accepted⟩ := bind_ok.mp accepted
        obtain ⟨_, daily, accepted⟩ := bind_ok.mp accepted
        obtain ⟨_, hourly, accepted⟩ := bind_ok.mp accepted
        obtain ⟨_, minutely, accepted⟩ := bind_ok.mp accepted
        cases accepted
        obtain ⟨rfl, bounds⟩ := inRange_ok.mp yearly
        exact ⟨⟨given, bounds⟩, optionally_ok.mp monthly, optionally_ok.mp daily,
          optionally_ok.mp hourly, optionally_ok.mp minutely, levels⟩
  next =>
    intro of
    rw [of.year.1]
    dsimp only
    rw [bind_ok]
    refine ⟨parts.year, inRange_ok.mpr ⟨rfl, of.year.2⟩, ?_⟩
    rw [of.levels]
    dsimp only
    rw [bind_ok]
    refine ⟨parts.month, optionally_ok.mpr of.month, ?_⟩
    rw [bind_ok]
    refine ⟨parts.day, optionally_ok.mpr of.day, ?_⟩
    rw [bind_ok]
    refine ⟨parts.hour, optionally_ok.mpr of.hour, ?_⟩
    rw [bind_ok]
    exact ⟨parts.minute, optionally_ok.mpr of.minute, rfl⟩

end Components

section Windows

def Components.Hold (parts : Components) (at_ : DateTime) : Prop :=
  parts.year = at_.year ∧ (∀ given ∈ parts.month, given = at_.month) ∧
    (∀ given ∈ parts.day, given = at_.day) ∧ (∀ given ∈ parts.hour, given = at_.hour) ∧
      ∀ given ∈ parts.minute, given = at_.minute

def Window.Holds (window : Window) (at_ : DateTime) : Prop :=
  ¬ seconds at_ < seconds window.frm ∧ ¬ seconds window.until_ < seconds at_

theorem datetime_ok {year month day hour minute second : Nat}
    (validYear : 1 ≤ year ∧ year ≤ 9999) (validMonth : 1 ≤ month ∧ month ≤ 12)
    (validDay : 1 ≤ day ∧ day ≤ daysInMonth year month)
    (validTime : hour < 24 ∧ minute < 60 ∧ second < 60) :
    ∃ at_, datetime year month day hour minute second = .ok at_ ∧
      seconds at_ = [year, month, day, hour, minute, second] := by
  have time : hour < 24 ∧ minute < 60 ∧ second < 60 ∧ 0 < 1000000 :=
    ⟨validTime.1, validTime.2.1, validTime.2.2, by decide⟩
  unfold datetime DateTime.make?
  rw [dif_pos validYear, dif_pos validMonth, dif_pos validDay, dif_pos time]
  exact ⟨_, rfl, rfl⟩

theorem window_ends {year month day hour minute month' day' hour' minute' : Nat}
    (validYear : 1 ≤ year ∧ year ≤ 9999) (validMonth : 1 ≤ month ∧ month ≤ 12)
    (validDay : 1 ≤ day ∧ day ≤ daysInMonth year month) (validTime : hour < 24 ∧ minute < 60)
    (validMonth' : 1 ≤ month' ∧ month' ≤ 12) (validDay' : 1 ≤ day' ∧ day' ≤ daysInMonth year month')
    (validTime' : hour' < 24 ∧ minute' < 60) :
    ∃ found : Window, (do
        let frm ← datetime year month day hour minute 0
        let until_ ← datetime year month' day' hour' minute' 59
        .ok { frm, until_ }) = Except.ok found ∧
      ∀ at_ : DateTime, found.Holds at_ ↔
        ¬ seconds at_ < [year, month, day, hour, minute, 0] ∧
          ¬ [year, month', day', hour', minute', 59] < seconds at_ := by
  obtain ⟨frm, first, early⟩ := datetime_ok validYear validMonth validDay
    ⟨validTime.1, validTime.2, (by decide : 0 < 60)⟩
  obtain ⟨until_, last, late⟩ := datetime_ok validYear validMonth' validDay'
    ⟨validTime'.1, validTime'.2, (by decide : 59 < 60)⟩
  refine ⟨{ frm, until_ }, ?_, fun at_ => ?_⟩
  next =>
    rw [first, last]
    rfl
  next => rw [Window.Holds, early, late]

theorem levels_given {month day hour minute : Option Json}
    (levels : skippedLevel month day hour minute = none) :
    (month = none → day = none ∧ hour = none ∧ minute = none) ∧
      (day = none → hour = none ∧ minute = none) ∧ (hour = none → minute = none) := by
  cases month <;> cases day <;> cases hour <;> cases minute <;> simp [skippedLevel] at levels ⊢

theorem between_iff {at_ : DateTime} {year month day hour minute month' day' hour' minute' : Nat} :
    (¬ seconds at_ < [year, month, day, hour, minute, 0] ∧
        ¬ [year, month', day', hour', minute', 59] < seconds at_) ↔
      at_.year = year ∧ (month < at_.month ∨ month = at_.month ∧ (day < at_.day ∨
        day = at_.day ∧ (hour < at_.hour ∨ hour = at_.hour ∧ minute ≤ at_.minute))) ∧
      (at_.month < month' ∨ at_.month = month' ∧ (at_.day < day' ∨
        at_.day = day' ∧ (at_.hour < hour' ∨ at_.hour = hour' ∧ at_.minute ≤ minute'))) := by
  have time := at_.validTime
  simp only [seconds, List.cons_lt_cons_iff, List.not_lt_nil, and_false, or_false]
  omega

theorem window_holds {trigger : Trigger} {parts : Components} (of : parts.Of trigger) :
    ∃ found, window parts = .ok found ∧ ∀ at_, found.Holds at_ ↔ parts.Hold at_ := by
  obtain ⟨⟨_, year⟩, ⟨monthly, months⟩, ⟨daily, days⟩, ⟨hourly, hours⟩, ⟨minutely, minutes⟩,
    levels⟩ := of
  rw [monthly, daily, hourly, minutely] at levels
  have given := levels_given levels
  simp only [Option.map_eq_none_iff] at given
  obtain ⟨noMonth, noDay, noHour⟩ := given
  obtain ⟨yearPart, month, day, hour, minute⟩ := parts
  have lastDay : ∀ (at_ : DateTime) month, at_.year = yearPart → at_.month = month →
      at_.day ≤ daysInMonth yearPart month := by
    rintro at_ month rfl rfl
    exact at_.validDay.2
  dsimp only at *
  cases month with
  | none =>
    obtain ⟨rfl, rfl, rfl⟩ := noMonth rfl
    obtain ⟨found, same, holds⟩ := @window_ends yearPart 1 1 0 0 12 31 23 59 year (by decide)
      ⟨le_refl 1, daysInMonth_pos _ _⟩ (by decide) (by decide) ⟨by decide, le_refl 31⟩ (by decide)
    refine ⟨found, same, fun at_ => (holds at_).trans (between_iff.trans ?_)⟩
    have month := at_.validMonth
    have day := at_.validDay
    have time := at_.validTime
    have december := lastDay at_ 12
    have days : daysInMonth yearPart 12 = 31 := rfl
    simp only [Components.Hold, Option.not_mem_none, false_implies, implies_true, and_true]
    omega
  | some month =>
    have validMonth := months month rfl
    cases day with
    | none =>
      obtain ⟨rfl, rfl⟩ := noDay rfl
      obtain ⟨found, same, holds⟩ := @window_ends yearPart month 1 0 0 month
        (daysInMonth yearPart month) 23 59 year validMonth ⟨le_refl 1, daysInMonth_pos _ _⟩
        (by decide) validMonth ⟨daysInMonth_pos _ _, le_refl _⟩ (by decide)
      refine ⟨found, same, fun at_ => (holds at_).trans (between_iff.trans ?_)⟩
      have day := at_.validDay
      have time := at_.validTime
      have last := lastDay at_ month
      simp only [Components.Hold, Option.not_mem_none, false_implies, implies_true, and_true,
        Option.mem_some_iff, forall_eq']
      omega
    | some day =>
      have validDay := days day rfl
      cases hour with
      | none =>
        obtain rfl := noHour rfl
        obtain ⟨found, same, holds⟩ := @window_ends yearPart month day 0 0 month day 23 59 year
          validMonth validDay (by decide) validMonth validDay (by decide)
        refine ⟨found, same, fun at_ => (holds at_).trans (between_iff.trans ?_)⟩
        have time := at_.validTime
        simp only [Components.Hold, Option.not_mem_none, false_implies, implies_true, and_true,
          Option.mem_some_iff, forall_eq']
        omega
      | some hour =>
        have validHour := hours hour rfl
        cases minute with
        | none =>
          obtain ⟨found, same, holds⟩ := @window_ends yearPart month day hour 0 month day hour 59
            year validMonth validDay (by omega) validMonth validDay (by omega)
          refine ⟨found, same, fun at_ => (holds at_).trans (between_iff.trans ?_)⟩
          have time := at_.validTime
          simp only [Components.Hold, Option.not_mem_none, false_implies, implies_true, and_true,
            Option.mem_some_iff, forall_eq']
          omega
        | some minute =>
          have validMinute := minutes minute rfl
          obtain ⟨found, same, holds⟩ := @window_ends yearPart month day hour minute month day hour
            minute year validMonth validDay (by omega) validMonth validDay (by omega)
          refine ⟨found, same, fun at_ => (holds at_).trans (between_iff.trans ?_)⟩
          simp only [Components.Hold, Option.mem_some_iff, forall_eq']
          omega

end Windows

section Normal

variable {trigger result : Trigger} {parts : Components} {derived : Window}

structure Written (trigger : Trigger) (parts : Components) (derived : Window) : Prop where
  year : trigger.get? "year" = some (.int parts.year)
  month : trigger.get? "month" = some (echoed parts.month)
  day : trigger.get? "day" = some (echoed parts.day)
  hour : trigger.get? "hour" = some (echoed parts.hour)
  minute : trigger.get? "minute" = some (echoed parts.minute)
  frm : trigger.get? "from" = some (.string (iso derived.frm))
  until_ : trigger.get? "until" = some (.string (iso derived.until_))

theorem written_written (trigger : Trigger) (parts : Components) (derived : Window) :
    Written (written trigger parts derived) parts derived := by
  constructor <;> simp [written, Dict.get?_set]

theorem Written.same (set : Written trigger parts derived) :
    written trigger parts derived = trigger := by
  unfold written
  rw [Dict.set_self set.year, Dict.set_self set.month, Dict.set_self set.day,
    Dict.set_self set.hour, Dict.set_self set.minute, Dict.set_self set.frm,
    Dict.set_self set.until_]

theorem component_echoed {key : String} {value : Option Nat}
    (set : result.get? key = some (echoed value)) :
    component result key = value.map fun given : Nat => Json.int given := by
  unfold component
  rw [set]
  cases value with
  | none => rfl
  | some value => rfl

theorem Written.of (set : Written result parts derived) (of : parts.Of trigger) :
    parts.Of result := by
  have month := component_echoed set.month
  have day := component_echoed set.day
  have hour := component_echoed set.hour
  have minute := component_echoed set.minute
  refine ⟨⟨?_, of.year.2⟩, ⟨month, of.month.2⟩, ⟨day, of.day.2⟩, ⟨hour, of.hour.2⟩,
    ⟨minute, of.minute.2⟩, ?_⟩
  next =>
    unfold component
    rw [set.year]
  next =>
    rw [month, day, hour, minute, ← of.month.1, ← of.day.1, ← of.hour.1, ← of.minute.1]
    exact of.levels

theorem normalizeObject_ok :
    normalizeObject trigger = .ok result ↔ ∃ parts derived, parts.Of trigger ∧
      window parts = .ok derived ∧ result = written trigger parts derived := by
  unfold normalizeObject
  constructor
  next =>
    intro accepted
    obtain ⟨parts, of, accepted⟩ := bind_ok.mp accepted
    obtain ⟨derived, found, accepted⟩ := bind_ok.mp accepted
    cases accepted
    exact ⟨parts, derived, components_ok.mp of, found, rfl⟩
  next =>
    rintro ⟨parts, derived, of, found, rfl⟩
    exact bind_ok.mpr ⟨parts, components_ok.mpr of, bind_ok.mpr ⟨derived, found, rfl⟩⟩

theorem normalizeTrigger_written {value : TriggerValue}
    (accepted : normalizeTrigger value = .ok result) :
    ∃ trigger parts derived, value = .object trigger ∧ parts.Of trigger ∧
      window parts = .ok derived ∧ result = written trigger parts derived := by
  cases value with
  | object trigger =>
    obtain ⟨parts, derived, facts⟩ := normalizeObject_ok.mp accepted
    exact ⟨trigger, parts, derived, rfl, facts⟩
  | other => cases accepted

theorem normalizeTrigger_idempotent
    (accepted : normalizeTrigger (.object trigger) = .ok result) :
    normalizeTrigger (.object result) = .ok result := by
  obtain ⟨parts, derived, of, found, rfl⟩ := normalizeObject_ok.mp accepted
  have set := written_written trigger parts derived
  exact normalizeObject_ok.mpr ⟨parts, derived, set.of of, found, set.same.symm⟩

def Matches (trigger : Trigger) (at_ : DateTime) : Prop :=
  ∀ field ∈ [("year", at_.year), ("month", at_.month), ("day", at_.day), ("hour", at_.hour),
    ("minute", at_.minute)], ∀ value, component trigger field.1 = some value →
      value = .int field.2

theorem given_iff {key : String} {value : Option Nat} {own : Nat}
    (given : component trigger key = value.map fun given : Nat => Json.int given) :
    (∀ other, component trigger key = some other → other = .int own) ↔
      ∀ number ∈ value, number = own := by
  rw [given]
  cases value with
  | none => simp
  | some number => simp

theorem Components.Of.matches_iff (of : parts.Of trigger) (at_ : DateTime) :
    Matches trigger at_ ↔ parts.Hold at_ := by
  have year := @given_iff trigger "year" (some parts.year) at_.year of.year.1
  have month := @given_iff trigger "month" _ at_.month of.month.1
  have day := @given_iff trigger "day" _ at_.day of.day.1
  have hour := @given_iff trigger "hour" _ at_.hour of.hour.1
  have minute := @given_iff trigger "minute" _ at_.minute of.minute.1
  simp only [Matches, List.forall_mem_cons, List.not_mem_nil, false_implies, implies_true,
    and_true, year, month, day, hour, minute, Components.Hold, Option.mem_some_iff, forall_eq']

theorem text_not_lt {first second : String} : ¬ second < first ↔ first ≤ second := Iff.rfl

-- The seconds between the two texts of a normalised trigger.
theorem normalizeTrigger_window (accepted : normalizeTrigger (.object trigger) = .ok result) :
    ∃ frm until_, result.get? "from" = some (.string frm) ∧
      result.get? "until" = some (.string until_) ∧
        ∀ at_, frm ≤ iso at_ ∧ iso at_ ≤ until_ ↔ Matches trigger at_ := by
  obtain ⟨parts, derived, of, found, rfl⟩ := normalizeObject_ok.mp accepted
  have set := written_written trigger parts derived
  obtain ⟨derived', same, holds⟩ := window_holds of
  rw [found] at same
  cases same
  refine ⟨_, _, set.frm, set.until_, fun at_ => ?_⟩
  rw [of.matches_iff, ← holds, ← text_not_lt, ← text_not_lt, iso_lt, iso_lt]
  rfl

end Normal

section Bounds

variable (host : Host)

def Emitted (text : String) : Prop :=
  (∃ value result, normalizeTrigger value = .ok result ∧
    (result.get? "from" = some (.string text) ∨ result.get? "until" = some (.string text))) ∨
    ∃ value, parseQueryBound host value = .ok (some text)

variable {host}

theorem parseQueryBound_iso {value : BoundValue} {text : String}
    (found : parseQueryBound host value = .ok (some text)) : ∃ at_, text = iso at_ := by
  cases value with
  | none => cases found
  | other => cases found
  | text value =>
    unfold parseQueryBound at found
    dsimp only at found
    split at found
    next =>
      cases found
      exact ⟨_, rfl⟩
    next =>
      split at found
      next => cases found
      next =>
        obtain ⟨at_, _, same⟩ := map_ok.mp found
        exact ⟨at_, (Option.some.inj same).symm⟩

theorem Emitted.denotes {text : String} (emitted : Emitted host text) :
    ∃ at_, Denotes text at_ := by
  have isIso : ∃ at_, text = iso at_ := by
    rcases emitted with ⟨value, result, accepted, stored⟩ | ⟨value, found⟩
    next =>
      obtain ⟨trigger, parts, derived, _, _, _, rfl⟩ := normalizeTrigger_written accepted
      have set := written_written trigger parts derived
      rcases stored with first | last
      next => exact ⟨derived.frm, by simpa [set.frm] using first.symm⟩
      next => exact ⟨derived.until_, by simpa [set.until_] using last.symm⟩
    next => exact parseQueryBound_iso found
  obtain ⟨at_, rfl⟩ := isIso
  exact ⟨wholeSecond at_, denotes_iso at_⟩

def BoundOrRefusal (host : Host) (value : String) : Prop :=
  (∃ text, parseQueryBound host (.text value) = .ok (some text) ∧ text.length = 19) ∨
    ∃ message, parseQueryBound host (.text value) = .error (.triggerValidationError message)

-- An aware value that `fromisoformat` reads has a UTC instant in the years 1 to 9999.
def InCalendar (host : Host) (value : String) : Prop :=
  isNow value = true ∨ ∀ moment ∈ host.fromisoformat value, ∀ offset ∈ moment.offset,
    ∃ utc, instant utc = instant moment.at_ - offset

theorem boundOrRefusal_iff (value : String) : BoundOrRefusal host value ↔ InCalendar host value := by
  unfold BoundOrRefusal InCalendar parseQueryBound
  dsimp only
  by_cases now : isNow value = true
  next => simp [now, iso_length]
  next =>
    rw [if_neg now]
    cases read : host.fromisoformat value with
    | none => simp
    | some moment =>
      cases aware : moment.offset with
      | none => simp [naiveUtc, aware, Except.map, iso_length]
      | some offset =>
        obtain ⟨below, above⟩ := moment.offsetWithin offset aware
        cases shifted : minus moment.at_ offset with
        | some utc =>
          have same := minus_some below above shifted
          have reached : ∃ utc, instant utc = instant moment.at_ - offset := ⟨utc, same⟩
          simp [naiveUtc, aware, shifted, Except.map, iso_length, reached]
        | none =>
          have missed := minus_none shifted
          simp [naiveUtc, aware, shifted, Except.map, now, missed]

structure TimeExact (host : Host) (trigger : Trigger) (value : String) : Prop where
  idempotent : ∀ result, normalizeTrigger (.object trigger) = .ok result →
    normalizeTrigger (.object result) = .ok result
  window : ∀ result, normalizeTrigger (.object trigger) = .ok result →
    ∃ frm until_, result.get? "from" = some (.string frm) ∧
      result.get? "until" = some (.string until_) ∧
        ∀ at_, frm ≤ iso at_ ∧ iso at_ ≤ until_ ↔ Matches trigger at_
  denotes : ∀ text, Emitted host text → ∃ at_, Denotes text at_
  order : ∀ first second, Emitted host first → Emitted host second → ∀ left right,
    Denotes first left → Denotes second right → (first < second ↔ instant left < instant right)
  bound : BoundOrRefusal host value

end Bounds

theorem time_exact_iff (host : Host) (trigger : Trigger) (value : String) :
    TimeExact host trigger value ↔ InCalendar host value := by
  constructor
  next => exact fun exactly => (boundOrRefusal_iff value).mp exactly.bound
  next =>
    intro inside
    exact ⟨fun _ => normalizeTrigger_idempotent, fun _ => normalizeTrigger_window,
      fun _ emitted => emitted.denotes, fun _ _ _ _ _ _ one two => one.lt two,
      (boundOrRefusal_iff value).mpr inside⟩

def yearOne : DateTime := (DateTime.make? 1 1 1 0 0 0 0).get (by decide)

-- `datetime.fromisoformat` on this one text; no other text is read here.
def oneHourEast : Host where
  utcnow := yearOne
  fromisoformat := fun value =>
    if value = "0001-01-01T00:00:00+01:00" then
      some { at_ := yearOne, offset := some 3600000000, offsetWithin := by decide }
    else none
  repr := fun value => "'" ++ value ++ "'"

theorem east_of_year_one_overflows :
    ¬ TimeExact oneHourEast Dict.empty "0001-01-01T00:00:00+01:00" := by
  intro exactly
  have raised : parseQueryBound oneHourEast (.text "0001-01-01T00:00:00+01:00") =
      .error .overflowError := by decide +kernel
  rcases exactly.bound with ⟨text, found, _⟩ | ⟨message, refused⟩
  next =>
    rw [raised] at found
    cases found
  next =>
    rw [raised] at refused
    cases refused

end MemoryCloud.TimeTriggers
