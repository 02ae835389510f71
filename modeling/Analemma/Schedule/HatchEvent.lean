import Analemma.Foundation.LeastChoice
import Analemma.TimeLib.Basic
import Analemma.DS3231.Basic

/-!
# Hatch events and their selection

`HatchEvent`, `setNextEvent`, `addEvent` (both overloads), `addEvents` and the two halves of
`setAlarms`, as the sketches `analemma_1`, `analemma_2`, `analemma_3`, `analemma_release` and
`analemma_debug` have them; the sketches differ in their tables only.

The constructors read the current time with `now()`. Here it is an argument: a run may hand
different values to the constructors of one schedule.

C's implicit conversions are spelt out: the daily overload of `addEvent` takes its duration as an
`int`, which has 16 bits, and hands it to a constructor that takes a `uint32_t`
(`intOfTime`, `uint32OfInt`); the yearly overload passes 32 bits through.

What the constructors compute is stated at the end, in naturals and with the bounds under which
nothing wraps. The two constructors differ in what they take from the current time (its day, or its
year) and in what they add when the event has passed, and `toNat_ite_add` is about the branch that
they share.
-/

namespace Schedule

open TimeLib Gregorian

/-- A window in which the hatch is open, from the one time on and until the other. -/
@[ext]
structure HatchEvent where
  openTime : UInt32
  closeTime : UInt32
deriving DecidableEq, Repr

/-- `HatchEvent()`: the empty event, both times `-1`, which is the greatest `uint32_t`. So the
events of the clock's years open before it. -/
def HatchEvent.empty : HatchEvent := ⟨-1, -1⟩

/-- `HatchEvent(hour, minute, openForSeconds)`, at the time `currentTime` that `now()` returns. -/
def HatchEvent.daily (currentTime : UInt32) (hour minute : UInt8) (openForSeconds : UInt32) :
    HatchEvent :=
  let currentEl := breakTime currentTime
  let openTime := makeTime
    { second := 0
      minute := minute
      hour := hour
      wday := 0
      day := currentEl.day
      month := currentEl.month
      year := currentEl.year }
  -- event already passed: schedule for tomorrow
  let openTime := if openTime ≤ currentTime then openTime + secsPerDay else openTime
  ⟨openTime, openTime + openForSeconds⟩

/-- `HatchEvent(month, day, hour, minute, openForSeconds)`, at the time `currentTime`. -/
def HatchEvent.yearly (currentTime : UInt32) (month day hour minute : UInt8)
    (openForSeconds : UInt32) : HatchEvent :=
  let currentEl := breakTime currentTime
  let openTime := makeTime
    { second := 0
      minute := minute
      hour := hour
      wday := 0
      day := day
      month := month
      year := currentEl.year }
  -- event already passed: schedule for next year
  let openTime := if openTime ≤ currentTime then openTime + secsPerYear else openTime
  ⟨openTime, openTime + openForSeconds⟩

/-- The conversion of a `time_t` expression to an `int` argument: the low 16 bits, signed. -/
def intOfTime (d : UInt32) : Int16 := d.toUInt16.toInt16

/-- The conversion of an `int` to a `uint32_t` argument: the sign is extended. -/
def uint32OfInt (i : Int16) : UInt32 := i.toInt32.toUInt32

/-- A line of the event table: a call of one of the overloads of `addEvent`, with the duration
written there. -/
inductive AddEvent where
  /-- `addEvent(hour, minute, openForSeconds)`. -/
  | daily (hour minute : UInt8) (openForSeconds : UInt32)
  /-- `addEvent(month, day, hour, minute, openForSeconds)`. -/
  | yearly (month day hour minute : UInt8) (openForSeconds : UInt32)
deriving DecidableEq, Repr

/-- The event a call builds and hands to `setNextEvent`. -/
def AddEvent.event (currentTime : UInt32) : AddEvent → HatchEvent
  | daily hour minute openForSeconds =>
    .daily currentTime hour minute (uint32OfInt (intOfTime openForSeconds))
  | yearly month day hour minute openForSeconds =>
    .yearly currentTime month day hour minute openForSeconds

/-- `setNextEvent`: an event that opens strictly earlier replaces the next one. -/
def setNextEvent (nextEvent event : HatchEvent) : HatchEvent :=
  if event.openTime < nextEvent.openTime then event else nextEvent

/-- `addEvent`, both overloads. -/
def addEvent (currentTime : UInt32) (nextEvent : HatchEvent) (e : AddEvent) : HatchEvent :=
  setNextEvent nextEvent (e.event currentTime)

/-- `nextEvent = HatchEvent(); addEvents()`, when all the constructors read the same time. -/
def addEvents (currentTime : UInt32) (table : List AddEvent) : HatchEvent :=
  table.foldl (addEvent currentTime) .empty

/-- The first half of `setAlarms`: the registers of alarm 2. -/
def HatchEvent.alarm2 (nextEvent : HatchEvent) : DS3231.Alarm2 :=
  let elements := breakTime nextEvent.openTime
  DS3231.alarm2Registers elements.day elements.hour elements.minute

/-- The second half of `setAlarms`: the registers of alarm 1. -/
def HatchEvent.alarm1 (nextEvent : HatchEvent) : DS3231.Alarm1 :=
  let elements := breakTime nextEvent.closeTime
  DS3231.alarm1Registers elements.day elements.hour elements.minute elements.second

/-! ### The tables of the sketches -/

/-- `addEvents` of `analemma_1`. -/
def analemma1Table : List AddEvent :=
  [ -- brightening
    .daily 4 0 (2 * secsPerHour), .daily 18 0 (3 * secsPerHour),
    -- analemma
    .daily 10 0 (2 * secsPerMin), .daily 11 0 (2 * secsPerMin), .daily 12 0 (2 * secsPerMin),
    .daily 13 0 (2 * secsPerMin), .daily 14 0 (2 * secsPerMin),
    -- September equinox, March equinox, summer solstice, winter solstice
    .yearly 9 22 3 0 (20 * secsPerHour), .yearly 3 20 3 0 (20 * secsPerHour),
    .yearly 6 20 3 0 (20 * secsPerHour), .yearly 12 21 3 0 (20 * secsPerHour) ]

/-- `addEvents` of `analemma_2`, the reversed one. -/
def analemma2Table : List AddEvent :=
  [.daily 9 58 (3 * secsPerMin), .daily 10 57 (6 * secsPerMin), .daily 11 55 (10 * secsPerMin),
    .daily 12 57 (6 * secsPerMin), .daily 13 58 (3 * secsPerMin)]

/-- `addEvents` of `analemma_3`. -/
def analemma3Table : List AddEvent :=
  [ -- brightening
    .daily 4 0 (3 * secsPerHour), .daily 17 0 (3 * secsPerHour),
    -- analemma
    .daily 9 51 (2 * secsPerMin), .daily 10 23 (2 * secsPerMin), .daily 10 55 (2 * secsPerMin),
    .daily 11 27 (2 * secsPerMin), .daily 11 59 (2 * secsPerMin), .daily 12 31 (2 * secsPerMin),
    .daily 13 3 (2 * secsPerMin), .daily 13 35 (2 * secsPerMin), .daily 14 7 (2 * secsPerMin) ]

/-- The calls in `makeSchedule` of `analemma_release`. -/
def releaseTable : List AddEvent :=
  [ -- brightening
    .daily 5 0 (2 * secsPerHour), .daily 19 0 (2 * secsPerHour),
    -- analemma
    .daily 10 0 (2 * secsPerMin), .daily 11 0 (2 * secsPerMin), .daily 12 0 (2 * secsPerMin),
    .daily 13 0 (2 * secsPerMin), .daily 14 0 (2 * secsPerMin),
    -- September equinox, March equinox, summer solstice, winter solstice
    .yearly 9 22 4 0 (19 * secsPerHour), .yearly 3 20 4 0 (19 * secsPerHour),
    .yearly 6 20 4 0 (19 * secsPerHour), .yearly 12 21 4 0 (19 * secsPerHour) ]

/-! ### What the constructors compute -/

/-- The hour and the minute exist, and so do the month and the day in a leap year at least. -/
def AddEvent.Valid : AddEvent → Prop
  | daily hour minute _ => hour.toNat < 24 ∧ minute.toNat < 60
  | yearly month day hour minute _ =>
    (1 ≤ month.toNat ∧ month.toNat ≤ 12 ∧ 1 ≤ day.toNat ∧
      day.toNat ≤ Gregorian.monthDays true month.toNat) ∧ hour.toNat < 24 ∧ minute.toNat < 60

instance : DecidablePred AddEvent.Valid
  | .daily .. => inferInstanceAs (Decidable (_ ∧ _))
  | .yearly .. => inferInstanceAs (Decidable ((_ ∧ _ ∧ _ ∧ _) ∧ _ ∧ _))

/-- The second of the day at which the window of a line opens. -/
def AddEvent.opensAt : AddEvent → ℕ
  | daily hour minute _ => secondOfDay hour.toNat minute.toNat 0
  | yearly _ _ hour minute _ => secondOfDay hour.toNat minute.toNat 0

theorem AddEvent.Valid.opensAt_lt {e : AddEvent} (h : e.Valid) : e.opensAt < 86400 := by
  cases e with
  | daily => exact secondOfDay_lt h.1 h.2 (by omega)
  | yearly => exact secondOfDay_lt h.2.1 h.2.2 (by omega)

theorem AddEvent.Valid.opensAt_mod {e : AddEvent} : e.opensAt % 60 = 0 := by
  cases e <;> simp only [opensAt, secondOfDay] <;> omega

/-- The branch "event already passed" of both constructors, in naturals. -/
theorem toNat_ite_add {now openTime period : UInt32}
    (h : openTime.toNat + period.toNat < 2 ^ 32) :
    (if openTime ≤ now then openTime + period else openTime).toNat =
      if now.toNat < openTime.toNat then openTime.toNat else openTime.toNat + period.toNat := by
  by_cases hpast : openTime ≤ now
  · rw [if_pos hpast, if_neg (by rw [UInt32.le_iff_toNat_le] at hpast; omega), UInt32.toNat_add,
      Nat.mod_eq_of_lt h]
  · rw [if_neg hpast, if_pos (by rw [UInt32.le_iff_toNat_le] at hpast; omega)]

/-- The instant the daily constructor writes down first: hour and minute on the day of the current
time. -/
def today (now : UInt32) (hour minute : UInt8) : UInt32 :=
  let currentEl := breakTime now
  makeTime
    { second := 0
      minute := minute
      hour := hour
      wday := 0
      day := currentEl.day
      month := currentEl.month
      year := currentEl.year }

/-- Its sum is exact as long as it fits into 32 bits, for an hour and a minute that exist or not. -/
theorem toNat_today {now : UInt32} {hour minute : UInt8}
    (hfit : dailyAt (secondOfDay hour.toNat minute.toNat 0) (now.toNat / 86400) < 2 ^ 32) :
    (today now hour minute).toNat =
      dailyAt (secondOfDay hour.toNat minute.toNat 0) (now.toNat / 86400) := by
  have h := makeTime_date (Date.ofDays 1970 (now.toNat / 86400)) (year_sub_lt now) hour minute 0 0
  rw [Date.toDays_ofDays] at h
  rw [today, breakTime_eq]
  exact (congrArg UInt32.toNat h).trans (toNat_ofNat_of_lt_two_pow hfit)

/-- What the daily constructor computes, as long as the instant a day later fits into 32 bits. -/
theorem HatchEvent.daily_openTime_eq_ite {now : UInt32} {hour minute : UInt8} (d : UInt32)
    (hfit : dailyAt (secondOfDay hour.toNat minute.toNat 0) (now.toNat / 86400) + 86400 < 2 ^ 32) :
    (HatchEvent.daily now hour minute d).openTime.toNat =
      let o := dailyAt (secondOfDay hour.toNat minute.toNat 0) (now.toNat / 86400)
      if now.toNat < o then o else o + 86400 := by
  have hnat : (today now hour minute).toNat =
      dailyAt (secondOfDay hour.toNat minute.toNat 0) (now.toNat / 86400) :=
    toNat_today (by omega)
  have hday : secsPerDay.toNat = 86400 := rfl
  have hsum : (today now hour minute).toNat + secsPerDay.toNat < 2 ^ 32 := by
    rw [hnat, hday]
    exact hfit
  rw [← hnat, ← hday]
  exact toNat_ite_add hsum

/-- **The daily constructor builds the next opening at its time of the day**, as long as two more
days fit into 32 bits. -/
theorem HatchEvent.daily_openTime {now : UInt32} {hour minute : UInt8} (d : UInt32)
    (hh : hour.toNat < 24) (hm : minute.toNat < 60) (hnow : now.toNat + 172800 ≤ 2 ^ 32) :
    (HatchEvent.daily now hour minute d).openTime.toNat =
      nextDaily (secondOfDay hour.toNat minute.toNat 0) now.toNat := by
  have htod := secondOfDay_lt hh hm (show 0 < 60 by omega)
  have hnext : dailyAt (secondOfDay hour.toNat minute.toNat 0) (now.toNat / 86400 + 1) =
      dailyAt (secondOfDay hour.toNat minute.toNat 0) (now.toNat / 86400) + 86400 := by
    unfold dailyAt
    omega
  rw [HatchEvent.daily_openTime_eq_ite d (by unfold dailyAt; omega), nextDaily, Blocks.next, hnext]

/-- The instant the yearly constructor writes down first: month, day and time in the year of the
current time. -/
def thisYear (now : ℕ) (month day hour minute : ℕ) : ℕ :=
  86400 * (Date.yearStart 1970 (yearsAt 1970 now) +
    Date.monthStart (1970 + yearsAt 1970 now) month + (day - 1)) + secondOfDay hour minute 0

/-- What the yearly constructor computes, as long as the instant a year later fits into 32 bits. -/
theorem HatchEvent.yearly_openTime {now : UInt32} {month day hour minute : UInt8} (d : UInt32)
    (hmonth : 1 ≤ month.toNat) (hmonth' : month.toNat ≤ 12) (hday : 1 ≤ day.toNat)
    (hfit : thisYear now.toNat month.toNat day.toNat hour.toNat minute.toNat + 86400 * 365 <
      2 ^ 32) :
    (HatchEvent.yearly now month day hour minute d).openTime.toNat =
      let o := thisYear now.toNat month.toNat day.toNat hour.toNat minute.toNat
      if now.toNat < o then o else o + 86400 * 365 := by
  set o := thisYear now.toNat month.toNat day.toNat hour.toNat minute.toNat with ho
  have hyear : (breakTime now).year.toNat = yearsAt 1970 now.toNat := by
    rw [breakTime_eq]
    exact toNat_ofNat_of_lt (year_sub_lt now)
  have hopen : makeTime
      { second := 0, minute := minute, hour := hour, wday := 0, day := day, month := month,
        year := (breakTime now).year } = .ofNat o := by
    rw [makeTime_eq _ hmonth hmonth' hday, hyear]
    rfl
  have hnat : (UInt32.ofNat o).toNat = o := toNat_ofNat_of_lt_two_pow (by omega)
  have hperiod : secsPerYear.toNat = 86400 * 365 := rfl
  simp only [HatchEvent.yearly, hopen]
  rw [toNat_ite_add (by rw [hnat, hperiod]; exact hfit), hnat, hperiod]

/-- On a day that every year has, the instant written down first is that day of the year of the
current time. -/
theorem thisYear_eq_instantIn (A : YearDay) (now hour minute : ℕ) :
    thisYear now A.month A.day hour minute =
      A.instantIn 1970 (secondOfDay hour minute 0) (yearsAt 1970 now) := by
  have hsub : 1970 + yearsAt 1970 now - 1970 = yearsAt 1970 now := by omega
  rw [thisYear, YearDay.instantIn, Date.toDays_eq]
  simp only [YearDay.dateIn, hsub]

end Schedule
