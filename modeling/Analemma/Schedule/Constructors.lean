import Analemma.Schedule.HatchEvent

/-!
# What an event of the table means

The events that the calls of `addEvent` build, against what the calls say.

* A daily event opens at the next instant with its time of the day (`daily_isLeast`).
* A yearly event opens at the next instant with its month, day and time **unless** its day has
  passed in the current year and a leap day lies before the same day of the next one: the
  constructor then adds 365 days and lands a day early (`yearly_isLeast_iff`).
* The window is as long as the call says unless the call is a daily one with a duration that does
  not fit into the 16-bit `int` the overload takes (`closeTime_iff`).

The statements are about every current time of the clock's years and every hour, minute, day and
month that exist. Where the code works with words of 32 bits, the first thing to be shown is that
nothing wraps: the year 2099 and a year more are still below the 32-bit limit (`thisYear_lt`), and
from there on all is in naturals, where the next instant of a kind is `nextDaily` or `nextYearly`.

The conversions to an `int` and back are exact on the durations of `KeepsDuration` and on no others;
the closing of a window depends on nothing else.
-/

namespace Schedule

open TimeLib Gregorian DS3231

/-- The current instants of the years 2000 to 2099, as the clock hands them to the sketch. -/
def InRtcYears (now : UInt32) : Prop := firstInstant ≤ now.toNat ∧ now.toNat < endInstant

instance : DecidablePred InRtcYears := fun now ↦
  inferInstanceAs (Decidable (firstInstant ≤ now.toNat ∧ now.toNat < endInstant))

/-- Hour, minute and second 0 of a civil time, as a second of the day. -/
theorem civil_time_iff {t hour minute : ℕ} (hm : minute < 60) :
    ((civil t).hour = hour ∧ (civil t).minute = minute ∧ (civil t).second = 0) ↔
      t % 86400 = secondOfDay hour minute 0 := by
  rw [← secondOfDay_civil]
  constructor
  · rintro ⟨rfl, rfl, hs⟩
    rw [hs]
  · intro h
    exact DateTime.secondOfDay_inj (civil t).minute_lt (civil t).second_lt hm (by omega) h

/-! ### Instants that fit into 32 bits -/

theorem daysBefore_le : ∀ leap, ∀ m < 13, Date.daysBefore leap m ≤ 335 := by decide

theorem yearsAt_le {now : ℕ} (h : firstInstant ≤ now ∧ now < endInstant) :
    yearsAt 1970 now ≤ 129 := by
  have := (civil_year_mem h).2
  rw [year_civil] at this
  omega

theorem yearStart_2099 : Date.yearStart 1970 129 = 47117 := by
  rw [Date.yearStart_eq_start]
  decide +kernel

/-- Every month and day of the current year lies more than a year below the 32-bit limit. -/
theorem thisYear_lt {now month day hour minute : ℕ}
    (h : firstInstant ≤ now ∧ now < endInstant) (hmonth : month ≤ 12) (hday : day ≤ 31)
    (htod : secondOfDay hour minute 0 < 86400) :
    thisYear now month day hour minute + 86400 * 366 < 4160000000 := by
  have h1 := @Date.yearStart_mono 1970 _ _ (yearsAt_le h)
  have h2 := daysBefore_le (IsLeap (1970 + yearsAt 1970 now)) month (by omega)
  rw [yearStart_2099] at h1
  unfold thisYear Date.monthStart
  omega

/-! ### The events of valid lines -/

theorem daily_openTime_eq {now : UInt32} (hnow : InRtcYears now) {hour minute : UInt8} (d : UInt32)
    (hh : hour.toNat < 24) (hm : minute.toNat < 60) :
    (HatchEvent.daily now hour minute d).openTime.toNat =
      nextDaily (secondOfDay hour.toNat minute.toNat 0) now.toNat :=
  HatchEvent.daily_openTime d hh hm (by have := hnow.2; unfold endInstant at this; omega)

/-- The next instant at a time of the day is at most a day ahead. -/
theorem nextDaily_le {tod t : ℕ} (h : tod < 86400) : nextDaily tod t ≤ t + 86400 := by
  unfold nextDaily Blocks.next dailyAt
  split <;> omega

theorem monthDays_true_le {m : ℕ} : Gregorian.monthDays true m ≤ 31 := by
  unfold Gregorian.monthDays
  split_ifs <;> omega

/-- The event of a valid line opens at second 0 of a minute, well below the empty event. -/
theorem event_openTime_spec {now : UInt32} (hnow : InRtcYears now) {e : AddEvent} (he : e.Valid) :
    (e.event now).openTime.toNat % 60 = 0 ∧ (e.event now).openTime.toNat < 4160000000 := by
  -- Both constructors give whole minutes; the bound on `now` leaves room for the next year.
  cases e with
  | daily hour minute d =>
    have htod := secondOfDay_lt he.1 he.2 (show 0 < 60 by omega)
    have hmod : secondOfDay hour.toNat minute.toNat 0 % 60 = 0 := by
      unfold secondOfDay
      omega
    have hle := nextDaily_le (t := now.toNat) htod
    have hnext := (isLeast_nextDaily htod now.toNat).1.2
    have hend := hnow.2
    unfold endInstant at hend
    simp only [AddEvent.event, daily_openTime_eq hnow _ he.1 he.2]
    omega
  | yearly month day hour minute d =>
    obtain ⟨⟨hmonth, hmonth', hday, hday'⟩, hh, hm⟩ := he
    have hlt := thisYear_lt hnow hmonth' (hday'.trans monthDays_true_le)
      (secondOfDay_lt hh hm (show 0 < 60 by omega))
    have hmod : thisYear now.toNat month.toNat day.toNat hour.toNat minute.toNat % 60 = 0 := by
      unfold thisYear secondOfDay
      omega
    simp only [AddEvent.event]
    rw [HatchEvent.yearly_openTime d hmonth hmonth' hday (by omega)]
    simp only
    split <;> omega

/-! ### The duration as an `int` -/

/-- What the conversions make of a duration: its low 16 bits, with the sign extended. -/
theorem uint32OfInt_intOfTime (d : UInt32) :
    (uint32OfInt (intOfTime d)).toNat =
      if d.toNat % 65536 < 32768 then d.toNat % 65536 else d.toNat % 65536 + (2 ^ 32 - 65536) := by
  have h : (uint32OfInt (intOfTime d)).toBitVec = (d.toBitVec.setWidth 16).signExtend 32 := rfl
  rw [← UInt32.toNat_toBitVec, h, BitVec.toNat_signExtend, BitVec.msb_eq_decide]
  simp only [BitVec.toNat_setWidth, UInt32.toNat_toBitVec]
  have := d.toNat_lt
  split <;> split <;> simp_all <;> omega

/-- The narrowing to `int` and back keeps exactly the durations of `KeepsDuration`. -/
theorem uint32OfInt_intOfTime_eq_iff (d : UInt32) :
    uint32OfInt (intOfTime d) = d ↔ d.toNat ≤ 32767 ∨ 2 ^ 32 - 32768 ≤ d.toNat := by
  have := d.toNat_lt
  rw [← UInt32.toNat_inj, uint32OfInt_intOfTime]
  split <;> omega

/-! ### The daily event -/

/-- **The daily event.** The constructor's opening is the least instant strictly after `now` with
the hour and the minute, at second 0, so it is at most a day ahead. Neither the sum of `makeTime`
nor the day added to it nor the duration added to the opening exceeds 32 bits, and the event beats
the empty one. -/
theorem daily_isLeast {now : UInt32} (hnow : InRtcYears now) {hour minute : UInt8}
    (hh : hour.toNat < 24) (hm : minute.toNat < 60) {d : UInt32} (hd : 1 ≤ d.toNat)
    (hd' : d.toNat ≤ 32767) :
    let ev := HatchEvent.daily now hour minute d
    IsLeast {t | now.toNat < t ∧ (civil t).hour = hour.toNat ∧ (civil t).minute = minute.toNat ∧
        (civil t).second = 0} ev.openTime.toNat ∧
      (now.toNat < ev.openTime.toNat ∧ ev.openTime.toNat ≤ now.toNat + 86400) ∧
      ((today now hour minute).toNat =
          86400 * (now.toNat / 86400) + secondOfDay hour.toNat minute.toNat 0 ∧
        (today now hour minute).toNat + secsPerDay.toNat < 2 ^ 32 ∧
        ev.openTime.toNat + d.toNat < 2 ^ 32) ∧
      (ev.closeTime.toNat = ev.openTime.toNat + d.toNat ∧ ev.openTime < ev.closeTime) ∧
      setNextEvent .empty ev = ev ∧ addEvent now .empty (.daily hour minute d) = ev := by
  intro ev
  have htod := secondOfDay_lt hh hm (show 0 < 60 by omega)
  have hend := hnow.2
  unfold endInstant at hend
  have hopen : ev.openTime.toNat = nextDaily (secondOfDay hour.toNat minute.toNat 0) now.toNat :=
    daily_openTime_eq hnow d hh hm
  have hleast := isLeast_nextDaily htod now.toNat
  have hle := nextDaily_le (t := now.toNat) htod
  rw [← hopen] at hleast hle
  have hnat : (today now hour minute).toNat =
      86400 * (now.toNat / 86400) + secondOfDay hour.toNat minute.toNat 0 :=
    toNat_today (by unfold dailyAt; omega)
  have hday : secsPerDay.toNat = 86400 := rfl
  have hclose : ev.closeTime.toNat = ev.openTime.toNat + d.toNat := by
    have h : ev.closeTime = ev.openTime + d := rfl
    rw [h, UInt32.toNat_add, Nat.mod_eq_of_lt (by omega)]
  have hbeats : setNextEvent .empty ev = ev := by
    have hempty : HatchEvent.empty.openTime.toNat = 2 ^ 32 - 1 := rfl
    exact if_pos (UInt32.lt_iff_toNat_lt.2 (by omega))
  refine ⟨?_, ⟨hleast.1.1, hle⟩, ⟨hnat, by omega, by omega⟩, ⟨hclose, ?_⟩, hbeats, ?_⟩
  · simp only [civil_time_iff hm]
    exact hleast
  · rw [UInt32.lt_iff_toNat_lt]
    omega
  · -- the `int` of the overload holds the duration
    have hkeep : uint32OfInt (intOfTime d) = d := (uint32OfInt_intOfTime_eq_iff d).2 (Or.inl hd')
    rw [addEvent, AddEvent.event, hkeep]
    exact hbeats

/-- A second before midnight on the eve of the leap day of 2000. -/
theorem daily_isLeast_leapDay :
    let ev := HatchEvent.daily 951782399 0 0 120
    IsLeast {t | 951782399 < t ∧ (civil t).hour = 0 ∧ (civil t).minute = 0 ∧ (civil t).second = 0}
        ev.openTime.toNat ∧
      ev = ⟨951782400, 951782520⟩ :=
  ⟨(@daily_isLeast 951782399 (by decide) 0 0 (by decide) (by decide) 120 (by decide) (by decide)).1,
    by decide +kernel⟩

/-! ### The yearly event -/

/-- The yearly constructor steps to the day of the next year where no leap day lies between, and to
the day before it otherwise. -/
theorem yearly_openTime_eq {now : UInt32} (hnow : InRtcYears now) (A : YearDay)
    {hour minute : UInt8} (d : UInt32) (hh : hour.toNat < 24) (hm : minute.toNat < 60) :
    let o := A.instantIn 1970 (secondOfDay hour.toNat minute.toNat 0) (yearsAt 1970 now.toNat)
    (HatchEvent.yearly now (.ofNat A.month) (.ofNat A.day) hour minute d).openTime.toNat =
      if now.toNat < o then o else o + 86400 * 365 := by
  have hdate := A.isDate 2000
  have hday := hdate.2.2.2.trans (monthLength_le _ _)
  have hmonth : (UInt8.ofNat A.month).toNat = A.month :=
    toNat_ofNat_of_lt (by have := hdate.2.1; omega)
  have hdayn : (UInt8.ofNat A.day).toNat = A.day := toNat_ofNat_of_lt (by omega)
  have hlt := thisYear_lt hnow hdate.2.1 hday (secondOfDay_lt hh hm (show 0 < 60 by omega))
  have h := @HatchEvent.yearly_openTime now (.ofNat A.month) (.ofNat A.day) hour minute d
    (by rw [hmonth]; exact hdate.1)
    (by rw [hmonth]; exact hdate.2.1) (by rw [hdayn]; exact hdate.2.2.1)
    (by rw [hmonth, hdayn]; omega)
  rw [hmonth, hdayn, thisYear_eq_instantIn] at h
  exact h

/-- When the constructor's instant is the next one of its day: the day is still ahead in the
current year, or no leap day lies before the same day of the next year. -/
def YearlyOnTime (now : ℕ) (A : YearDay) (tod : ℕ) : Prop :=
  now < A.instantIn 1970 tod (yearsAt 1970 now) ∨ ¬ Date.LeapDayWithin (civil now).year A.month

/-- The constructor's instant is the next one of its day exactly under that condition: an instant
that has passed is missed by a day where a leap day lies between, and by nothing otherwise. -/
theorem yearly_openTime_eq_iff {now : UInt32} (hnow : InRtcYears now) (A : YearDay)
    {hour minute : UInt8} (d : UInt32) (hh : hour.toNat < 24) (hm : minute.toNat < 60) :
    (HatchEvent.yearly now (.ofNat A.month) (.ofNat A.day) hour minute d).openTime.toNat =
        A.nextYearly 1970 (secondOfDay hour.toNat minute.toNat 0) now.toNat ↔
      YearlyOnTime now.toNat A (secondOfDay hour.toNat minute.toNat 0) := by
  set o := A.instantIn 1970 (secondOfDay hour.toNat minute.toNat 0) (yearsAt 1970 now.toNat) with ho
  rw [yearly_openTime_eq hnow A d hh hm, YearDay.nextYearly, Blocks.next, YearlyOnTime, ← ho,
    YearDay.instantIn_succ, ← ho, year_civil]
  by_cases hahead : now.toNat < o
  · rw [if_pos hahead, if_pos hahead]
    exact iff_of_true rfl (Or.inl hahead)
  · rw [if_neg hahead, if_neg hahead]
    by_cases hleap : Date.LeapDayWithin (1970 + yearsAt 1970 now.toNat) A.month
    · rw [if_pos hleap]
      exact iff_of_false (by omega) (by simp [hahead, hleap])
    · rw [if_neg hleap]
      exact iff_of_true rfl (Or.inr hleap)

/-- **The yearly event.** The constructor's opening is the least instant strictly after `now` with
the month, the day, the hour and the minute, at second 0, exactly when the day is still ahead in
the current year or no leap day lies before the same day of the next one. -/
theorem yearly_isLeast_iff {now : UInt32} (hnow : InRtcYears now) {month day hour minute : UInt8}
    (d : UInt32) (hdate : ∀ y, IsDate y month.toNat day.toNat) (hh : hour.toNat < 24)
    (hm : minute.toNat < 60) :
    IsLeast {t | now.toNat < t ∧ (civil t).month = month.toNat ∧ (civil t).day = day.toNat ∧
        (civil t).hour = hour.toNat ∧ (civil t).minute = minute.toNat ∧ (civil t).second = 0}
      (HatchEvent.yearly now month day hour minute d).openTime.toNat ↔
    YearlyOnTime now.toNat ⟨month.toNat, day.toNat, hdate⟩
      (secondOfDay hour.toNat minute.toNat 0) := by
  set A : YearDay := ⟨month.toNat, day.toNat, hdate⟩ with hA
  have hleast := @YearDay.isLeast_nextYearly 1970 A _
    (secondOfDay_lt hh hm (show 0 < 60 by omega)) now.toNat
  have hiff := yearly_openTime_eq_iff hnow A d hh hm
  rw [show UInt8.ofNat A.month = month from UInt8.ofNat_toNat,
    show UInt8.ofNat A.day = day from UInt8.ofNat_toNat] at hiff
  simp only [civil_time_iff hm]
  rw [← hiff]
  exact ⟨fun h ↦ h.unique hleast, fun h ↦ by rw [h]; exact hleast⟩

/-- On New Year's Day 2000 at midnight the constructor puts the event of that day and time on the
last day of the year. -/
theorem yearly_newYear_openTime :
    (HatchEvent.yearly 946684800 1 1 0 0 3600).openTime.toNat = 978220800 := by
  decide +kernel

/-- **The yearly constructor misses**, at midnight of New Year's Day 2000: 365 days later it is
still the year 2000. -/
theorem yearly_not_next :
    ¬ ∀ (now : UInt32) (month day hour minute : UInt8) (d : UInt32), InRtcYears now →
      (∀ y, IsDate y month.toNat day.toNat) → hour.toNat < 24 → minute.toNat < 60 →
      IsLeast {t | now.toNat < t ∧ (civil t).month = month.toNat ∧ (civil t).day = day.toNat ∧
          (civil t).hour = hour.toNat ∧ (civil t).minute = minute.toNat ∧ (civil t).second = 0}
        (HatchEvent.yearly now month day hour minute d).openTime.toNat := by
  intro h
  have hleast := h 946684800 1 1 0 0 3600 (by decide)
    (isDate_of_common (by decide)) (by decide) (by decide)
  have hmonth := hleast.1.2.1
  rw [yearly_newYear_openTime] at hmonth
  exact absurd hmonth (by decide +kernel)

/-- Midsummer of the year 2000 before its day: the condition holds, and the event is the next. -/
theorem yearly_isLeast_midsummer :
    IsLeast {t | 946684800 < t ∧ (civil t).month = 6 ∧ (civil t).day = 20 ∧
        (civil t).hour = 3 ∧ (civil t).minute = 0 ∧ (civil t).second = 0}
      (HatchEvent.yearly 946684800 6 20 3 0 72000).openTime.toNat :=
  (@yearly_isLeast_iff 946684800 (by decide) 6 20 3 0 72000 (isDate_of_common (by decide))
    (by decide) (by decide)).2 (Or.inl (by decide +kernel))

/-! ### The length of the window -/

/-- The duration written in a call. -/
def AddEvent.openForSeconds : AddEvent → UInt32
  | daily _ _ d => d
  | yearly _ _ _ _ d => d

/-- The duration reaches the constructor unchanged: always in the yearly overload; in the daily
one when it is the sign extension of its low 16 bits. -/
def AddEvent.KeepsDuration : AddEvent → Prop
  | daily _ _ d => d.toNat ≤ 32767 ∨ 2 ^ 32 - 32768 ≤ d.toNat
  | yearly .. => True

/-- Both constructors add the duration they get to the opening they computed. -/
theorem event_closeTime (now : UInt32) (e : AddEvent) :
    (e.event now).closeTime = (e.event now).openTime +
      match e with
      | .daily _ _ d => uint32OfInt (intOfTime d)
      | .yearly _ _ _ _ d => d := by
  cases e <;> rfl

/-- An event whose duration is kept is as long as the call says, where its closing fits into 32
bits. -/
theorem AddEvent.KeepsDuration.closeTime {e : AddEvent} (h : e.KeepsDuration) {now : UInt32}
    (hfit : (e.event now).openTime.toNat + e.openForSeconds.toNat < 2 ^ 32) :
    (e.event now).closeTime.toNat = (e.event now).openTime.toNat + e.openForSeconds.toNat := by
  have hadd : (e.event now).closeTime = (e.event now).openTime + e.openForSeconds := by
    rw [event_closeTime]
    cases e with
    | daily hour minute d => exact congrArg _ ((uint32OfInt_intOfTime_eq_iff d).2 h)
    | yearly => rfl
  rw [hadd, UInt32.toNat_add, Nat.mod_eq_of_lt hfit]

/-- **The length of the window.** Where opening and duration fit into 32 bits, the event handed to
`setNextEvent` closes the requested duration after it opens exactly when the overload keeps the
duration. -/
theorem closeTime_iff (now : UInt32) (e : AddEvent) (hd : 1 ≤ e.openForSeconds.toNat)
    (hfit : (e.event now).openTime.toNat + e.openForSeconds.toNat ≤ 2 ^ 32 - 1) :
    ((e.event now).closeTime.toNat = (e.event now).openTime.toNat + e.openForSeconds.toNat ∧
        (e.event now).openTime < (e.event now).closeTime) ↔ e.KeepsDuration := by
  have hadd : ∀ o c : UInt32, o.toNat + e.openForSeconds.toNat ≤ 2 ^ 32 - 1 →
      ((o + c).toNat = o.toNat + e.openForSeconds.toNat ∧ o < o + c ↔ c = e.openForSeconds) := by
    intro o c ho
    have := c.toNat_lt
    have := o.toNat_lt
    rw [← UInt32.toNat_inj, UInt32.lt_iff_toNat_lt, UInt32.toNat_add]
    omega
  rw [event_closeTime, hadd _ _ hfit]
  cases e with
  | daily hour minute d => exact uint32OfInt_intOfTime_eq_iff d
  | yearly => exact iff_of_true rfl trivial

/-- A ten-hour daily window that opens at four closes before it opens. -/
theorem daily_tenHours_event :
    (AddEvent.daily 4 0 (10 * secsPerHour)).event 946684800 = ⟨946699200, 946669664⟩ := by
  decide +kernel

/-- **A long daily window is lost**: with that line the closing lies before the opening. -/
theorem closeTime_not_kept :
    ¬ ∀ (now : UInt32) (e : AddEvent), 1 ≤ e.openForSeconds.toNat →
      (e.event now).openTime.toNat + e.openForSeconds.toNat ≤ 2 ^ 32 - 1 →
      (e.event now).closeTime.toNat = (e.event now).openTime.toNat + e.openForSeconds.toNat ∧
        (e.event now).openTime < (e.event now).closeTime := by
  intro h
  have hclose := (h 946684800 (.daily 4 0 (10 * secsPerHour)) (by decide)
    (by rw [daily_tenHours_event]; decide)).1
  rw [daily_tenHours_event] at hclose
  exact absurd hclose (by decide)

/-- The two-hour window of the table keeps its length. -/
theorem closeTime_twoHours :
    ((AddEvent.daily 4 0 (2 * secsPerHour)).event 946684800).closeTime.toNat =
        ((AddEvent.daily 4 0 (2 * secsPerHour)).event 946684800).openTime.toNat + 7200 ∧
      ((AddEvent.daily 4 0 (2 * secsPerHour)).event 946684800).openTime <
        ((AddEvent.daily 4 0 (2 * secsPerHour)).event 946684800).closeTime :=
  (closeTime_iff 946684800 (.daily 4 0 (2 * secsPerHour)) (by decide) (by decide +kernel)).2
    (Or.inl (by decide))

end Schedule
