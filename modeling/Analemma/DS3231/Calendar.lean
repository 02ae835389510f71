import Analemma.Factory.Bringup

/-!
# The calendar of the clock's library

What the library computes about dates by itself. `setDateTime` fills the register of the weekday,
which the chip then counts on at every midnight; it shows the right weekday from then on
(`weekdayAfter_eq`), the one the `Time` library computes from the instant.

`unixtime` is filled in with every reading. In a common year it is the clock's instant less one
hour, so it is right for a clock that keeps Central European Time; in a leap year it is only in
January: the leap day is counted in February, and not after it. The sketches say in a comment that
it is wrong, and do not use it.

`dow` and `date2days` use a formula each instead of counting, with 16 bits of unsigned arithmetic.
What they compute is compared with the calendar of the foundation, in which days are counted: first
the sums are shown not to overflow, then the leap years in them are matched with the leap days
before a date. The tables are read through `readByte`, so that an index out of their range would
show as a result that is missing.
-/

namespace DS3231

open Gregorian

/-! ### The tables -/

/-- `daysArray`: the days of the months of a common year. -/
def daysArray : List UInt8 := [31, 28, 31, 30, 31, 30, 31, 31, 30, 31, 30, 31]

/-- `dowArray`: one entry for each month, what it adds to the day of the week. -/
def dowArray : List UInt8 := [0, 3, 2, 5, 0, 3, 5, 1, 4, 6, 2, 4]

/-- `pgm_read_byte(array + i)`. A read outside of the array has no outcome. -/
def readByte (array : List UInt8) (i : ℤ) : Option UInt8 :=
  if 0 ≤ i then array[i.toNat]? else none

/-! ### The day of the week -/

/-- `dow`: 1 for Monday, 7 for Sunday. -/
def dow (y : UInt16) (m d : UInt8) : Option UInt8 := do
  let y := if m < 3 then y - 1 else y
  let shift ← readByte dowArray (m.toNat - 1)
  let dow := ((y + y / 4 - y / 100 + y / 400 + shift.toUInt16 + d.toUInt16) % 7).toUInt8
  if dow = 0 then some 7 else some dow

/-- The day of the week of an instant: the first of January 1970 was a Thursday. -/
def weekday (t : ℕ) : ℕ := (t / 86400 + 3) % 7 + 1

/-- The number of leap years up to `y`. -/
def leapYears (y : ℕ) : ℕ := y / 4 + y / 400 - y / 100

theorem leapYears_succ (y : ℕ) :
    leapYears (y + 1) = leapYears y + if IsLeap (y + 1) then 1 else 0 := by
  by_cases h : IsLeap (y + 1)
  · rw [if_pos h]
    unfold leapYears IsLeap at *
    omega
  · rw [if_neg h]
    unfold leapYears IsLeap at *
    omega

/-- The first of January of a year, by the leap years before it. Up to 1969 there have been 477 of
them. -/
theorem yearStart_add_leapYears (n : ℕ) :
    Date.yearStart 1970 n + 477 = 365 * n + leapYears (1969 + n) := by
  induction n with
  | zero => rfl
  | succ n ih =>
    have hstep := leapYears_succ (1969 + n)
    rw [show 1969 + n + 1 = 1970 + n by omega] at hstep
    rw [Date.yearStart_succ, ← Nat.add_assoc, show 1969 + n + 1 = 1970 + n by omega, hstep,
      yearLength]
    by_cases hleap : IsLeap (1970 + n)
    · rw [if_pos hleap, if_pos hleap]
      omega
    · rw [if_neg hleap, if_neg hleap]
      omega

theorem readByte_dowArray : ∀ m : ℕ, m < 13 → 1 ≤ m →
    readByte dowArray ((m : ℤ) - 1) = some (dowArray.getD (m - 1) 0) := by
  decide

/-- Each entry of the table is a number of days less than a week. -/
theorem dowArray_lt : ∀ i < 12, (dowArray.getD i 0).toNat < 7 := by
  decide

/-- What `dowArray` tells of a month: in which day of the week it starts, if the year starts on day
0. From March on one day is left out, and the leap day. -/
theorem daysBefore_mod : ∀ m : ℕ, m < 13 → 1 ≤ m → ∀ leap, Date.daysBefore leap m % 7 =
    ((dowArray.getD (m - 1) 0).toNat + if m < 3 then 0 else 1 + leap.toNat) % 7 := by
  decide

/-- The sum of which `dow` takes the remainder. -/
def dowSum (y m d : ℕ) : ℕ :=
  let y := if m < 3 then y - 1 else y
  y + leapYears y + (dowArray.getD (m - 1) 0).toNat + d

/-- The remainder of the sum is the day of the week, with 0 for Sunday. -/
theorem dowSum_mod (D : Date 1970) : dowSum D.year D.month D.day % 7 = (D.toDays + 4) % 7 := by
  obtain ⟨hm, hm', hd, -⟩ := D.isDate
  have hepoch := D.epoch_le
  have hyear := yearStart_add_leapYears (D.year - 1970)
  have hmonth := daysBefore_mod D.month (by omega) hm (IsLeap D.year)
  rw [Date.toDays_eq, Date.monthStart]
  rw [show 1969 + (D.year - 1970) = D.year - 1 by omega] at hyear
  have hstep := leapYears_succ (D.year - 1)
  rw [show D.year - 1 + 1 = D.year by omega] at hstep
  unfold dowSum
  by_cases hmarch : D.month < 3
  · simp only [if_pos hmarch] at hmonth ⊢
    omega
  · simp only [if_neg hmarch] at hmonth ⊢
    by_cases hleap : IsLeap D.year
    · simp only [hleap, decide_true, Bool.toNat_true, if_true] at *
      omega
    · simp only [hleap, decide_false, Bool.toNat_false, if_false] at *
      omega

/-- The sum does not overflow. -/
theorem toNat_dowSum {y d : ℕ} (hy : y < 50000) (hd : d ≤ 31) {shift : UInt8}
    (hshift : shift.toNat < 7) :
    (UInt16.ofNat y + UInt16.ofNat y / 4 - UInt16.ofNat y / 100 + UInt16.ofNat y / 400 +
      shift.toUInt16 + (UInt8.ofNat d).toUInt16).toNat = y + leapYears y + shift.toNat + d := by
  have hyear : (UInt16.ofNat y).toNat = y := Nat.mod_eq_of_lt (by omega)
  have hday := TimeLib.toNat_ofNat_of_lt (show d < 256 by omega)
  have h4 : (4 : UInt16).toNat = 4 := rfl
  have h100 : (100 : UInt16).toNat = 100 := rfl
  have h400 : (400 : UInt16).toNat = 400 := rfl
  simp only [UInt16.toNat_add, UInt16.toNat_sub, UInt16.toNat_div, UInt8.toNat_toUInt16, hyear,
    hday, h4, h100, h400]
  unfold leapYears
  omega

/-- **`dow` is the day of the week.** -/
theorem dow_eq (T : DateTime 1970) (hy : T.year < 50000) :
    dow (.ofNat T.year) (.ofNat T.month) (.ofNat T.day) = some (.ofNat (weekday T.toSeconds)) := by
  obtain ⟨hm, hm', hd, hd'⟩ := T.isDate
  have hd31 := hd'.trans (monthLength_le _ _)
  have hepoch := T.epoch_le
  have hmonth := TimeLib.toNat_ofNat_of_lt (show T.month < 256 by omega)
  have hshift := dowArray_lt (T.month - 1) (by omega)
  have hmod := dowSum_mod T.toDate
  -- January and February count as months of the year before, in bytes and in naturals alike.
  have hearly : (UInt8.ofNat T.month < 3) = (T.month < 3) := by
    rw [UInt8.lt_iff_toNat_lt, hmonth]
    rfl
  have hyear : (if UInt8.ofNat T.month < 3 then UInt16.ofNat T.year - 1 else UInt16.ofNat T.year) =
      UInt16.ofNat (if T.month < 3 then T.year - 1 else T.year) := by
    simp only [hearly]
    split
    · exact (UInt16.ofNat_sub (show 1 ≤ T.year by omega)).symm
    · rfl
  have hsum := @toNat_dowSum (if T.month < 3 then T.year - 1 else T.year) T.day
    (by split <;> omega) hd31 _ hshift
  simp only [dow, hmonth, readByte_dowArray _ (by omega) hm, hyear, Option.bind_eq_bind,
    Option.bind_some]
  -- From here only the value of the sum modulo 7 matters.
  generalize UInt16.ofNat _ + _ - _ + _ + _ + _ = sum at hsum ⊢
  have hrem : (sum % 7).toUInt8 = .ofNat ((T.toDays + 4) % 7) := by
    rw [← UInt8.toNat_inj, UInt16.toNat_toUInt8, UInt16.toNat_mod, hsum, ← hmod]
    rfl
  have hweekday : weekday T.toSeconds = (T.toDays + 3) % 7 + 1 := by
    rw [weekday, DateTime.toSeconds_div]
  rw [hrem, hweekday]
  -- `dow` gives 7 for Sunday where the remainder is 0.
  rcases Nat.eq_zero_or_pos ((T.toDays + 4) % 7) with hzero | hpos
  · rw [hzero, show (T.toDays + 3) % 7 + 1 = 7 by omega]
    rfl
  · rw [show (T.toDays + 3) % 7 + 1 = (T.toDays + 4) % 7 by omega, if_neg]
    intro h
    have := congrArg UInt8.toNat h
    rw [TimeLib.toNat_ofNat_of_lt (by omega)] at this
    exact absurd this hpos.ne'

/-! ### The weekday register -/

/-- The weekday register, when the chip counts it on. -/
def nextWeekday (register : UInt8) : UInt8 := if register = 7 then 1 else register + 1

/-- The weekday register `n` seconds after the instant `t` at which it was written. The chip counts
it on at midnight. -/
def weekdayAfter (register : UInt8) (t : ℕ) : ℕ → UInt8
  | 0 => register
  | n + 1 =>
    if (t + (n + 1)) % 86400 = 0 then nextWeekday (weekdayAfter register t n)
    else weekdayAfter register t n

theorem weekday_le (t : ℕ) : weekday t ≤ 7 := by
  unfold weekday
  omega

/-- The register goes from Sunday to Monday, as the days of the week do. -/
theorem nextWeekday_ofNat : ∀ w < 8, 1 ≤ w →
    nextWeekday (dec2bcd (.ofNat w)) = dec2bcd (.ofNat (w % 7 + 1)) := by
  decide

/-- **The weekday register stays right**, at every second after it was written right: by induction
on the seconds, and only midnight changes anything. -/
theorem weekdayAfter_eq (t n : ℕ) :
    weekdayAfter (dec2bcd (.ofNat (weekday t))) t n = dec2bcd (.ofNat (weekday (t + n))) := by
  induction n with
  | zero => rfl
  | succ n ih =>
    have hle := weekday_le (t + n)
    rw [weekdayAfter, ih]
    split
    · rw [nextWeekday_ofNat _ (by omega) (by unfold weekday; omega)]
      have hday : weekday (t + n) % 7 + 1 = weekday (t + (n + 1)) := by
        unfold weekday
        omega
      rw [hday]
    · have hday : weekday (t + n) = weekday (t + (n + 1)) := by
        unfold weekday
        omega
      rw [hday]

/-- The `Time` library counts the days of the week from Sunday. -/
theorem wday_breakTime (t : UInt32) :
    (TimeLib.breakTime t).wday = .ofNat (weekday t.toNat % 7 + 1) := by
  rw [TimeLib.breakTime_eq]
  simp only [weekday]
  congr 2
  omega

/-! ### Counting days -/

/-- `isLeapYear`. -/
def isLeapYear (year : UInt16) : Bool := year % 4 == 0

/-- The sum over the months in `date2days`, from `days16` on. -/
def addMonths (days16 : UInt16) (months : ℕ) : Option UInt16 :=
  (List.range months).foldlM (fun days16 (i : ℕ) ↦ do
    let days ← readByte daysArray i
    some (days16 + days.toUInt16)) days16

/-- `date2days`: the number of days since the first of January 2000. -/
def date2days (year : UInt16) (month day : UInt8) : Option UInt16 := do
  let year := year - 2000
  let days16 ← addMonths day.toUInt16 (month.toNat - 1)
  let days16 := if month = 2 ∧ isLeapYear year then days16 + 1 else days16
  some (days16 + 365 * year + (year + 3) / 4 - 1)

/-- The entry of a month is its length in a common year. -/
theorem readByte_daysArray : ∀ i < 12,
    readByte daysArray (i : ℕ) = some (.ofNat (monthDays false (i + 1))) := by
  decide

theorem monthDays_lt (leap : Bool) (m : ℕ) : monthDays leap m < UInt8.size := by
  unfold monthDays
  split_ifs <;> decide

/-- The sum over the months is the days before the month, in a common year. -/
theorem addMonths_eq (days16 : UInt16) {months : ℕ} (h : months ≤ 12) :
    addMonths days16 months = some (days16 + .ofNat (Date.daysBefore false (months + 1))) := by
  unfold addMonths
  induction months with
  | zero => exact congrArg some (UInt16.add_zero days16).symm
  | succ months ih =>
    rw [List.range_succ, List.foldlM_append, ih (by omega)]
    have hbyte : (UInt8.ofNat (monthDays false (months + 1))).toUInt16 =
        .ofNat (monthDays false (months + 1)) := UInt8.toUInt16_ofNat' (monthDays_lt _ _)
    have hstart : Date.daysBefore false (months + 1 + 1) =
        Date.daysBefore false (months + 1) + monthDays false (months + 1) := Blocks.start_succ _ _
    simp only [Option.bind_eq_bind, Option.bind_some, List.foldlM_cons, List.foldlM_nil,
      readByte_daysArray months (by omega), hbyte, hstart, UInt16.ofNat_add, UInt16.add_assoc]
    rfl

/-- In a leap year the months from March on start a day later. -/
theorem daysBefore_leap : ∀ leap, ∀ m < 13, 1 ≤ m →
    Date.daysBefore leap m = Date.daysBefore false m + if leap ∧ 2 < m then 1 else 0 := by
  decide

/-- No month of a common year starts later than in December. -/
theorem daysBefore_lt : ∀ m < 13, Date.daysBefore false m < 340 := by
  decide

/-- Every fourth year of the clock is a leap year. -/
theorem isLeapYear_ofNat : ∀ k < 100, isLeapYear (.ofNat k) = decide (IsLeap (2000 + k)) := by
  decide +kernel

/-- The sum of `date2days`, without overflow. -/
theorem date2days_ofNat {k m d : ℕ} (hk : k < 100) (hm : 1 ≤ m) (hm' : m ≤ 12) (hd : 1 ≤ d)
    (hd' : d ≤ 31) : ∃ days, date2days (.ofNat (2000 + k)) (.ofNat m) (.ofNat d) = some days ∧
      days.toNat = d + Date.daysBefore false m + (if IsLeap (2000 + k) ∧ m = 2 then 1 else 0) +
        365 * k + (k + 3) / 4 - 1 := by
  have hmonth := TimeLib.toNat_ofNat_of_lt (show m < 256 by omega)
  have hdays := daysBefore_lt m (by omega)
  have hyear : UInt16.ofNat (2000 + k) - 2000 = .ofNat k := by
    rw [UInt16.ofNat_add, UInt16.add_comm]
    exact UInt16.add_sub_cancel _ _
  have hfebruary : (UInt8.ofNat m = 2) = (m = 2) := by
    rw [← UInt8.toNat_inj, hmonth]
    rfl
  have hknat : (UInt16.ofNat k).toNat = k := Nat.mod_eq_of_lt (by omega)
  have hdnat := TimeLib.toNat_ofNat_of_lt (show d < 256 by omega)
  have hstart : (UInt16.ofNat (Date.daysBefore false m)).toNat = Date.daysBefore false m :=
    Nat.mod_eq_of_lt (by omega)
  simp only [date2days, hyear, hmonth, addMonths_eq _ (show m - 1 ≤ 12 by omega),
    Nat.sub_add_cancel hm, Option.bind_eq_bind, Option.bind_some, hfebruary, isLeapYear_ofNat k hk,
    decide_eq_true_eq]
  refine ⟨_, rfl, ?_⟩
  have h365 : (365 : UInt16).toNat = 365 := rfl
  have h3 : (3 : UInt16).toNat = 3 := rfl
  have h4 : (4 : UInt16).toNat = 4 := rfl
  have h1 : (1 : UInt16).toNat = 1 := rfl
  -- All sums stay below 2 ^ 16: at most 365 * 99 days, the quarters and one month start.
  simp only [UInt16.toNat_sub, UInt16.toNat_add, UInt16.toNat_mul, UInt16.toNat_div, hknat, h365,
    h3, h4, h1, and_comm]
  have hquarter : (k + 3) % 2 ^ 16 = k + 3 := Nat.mod_eq_of_lt (by omega)
  have hyears : 365 * k % 2 ^ 16 = 365 * k := Nat.mod_eq_of_lt (by omega)
  rw [hquarter, hyears]
  split <;>
  · simp only [UInt16.toNat_add, UInt8.toNat_toUInt16, hdnat, hstart, h1]
    rw [Nat.mod_eq_of_lt (show d + Date.daysBefore false m < 2 ^ 16 by omega)]
    omega

/-- **What `date2days` counts.** The days since the first of January 2000 (day 10957 from 1970), in
a leap year with one day too many in February, and with one day too few after it. -/
theorem date2days_eq (D : Date 1970) (hy : 2000 ≤ D.year) (hy' : D.year ≤ 2099) :
    ∃ days, date2days (.ofNat D.year) (.ofNat D.month) (.ofNat D.day) = some days ∧
      days.toNat + 10957 + (if IsLeap D.year ∧ 2 < D.month then 1 else 0) =
        D.toDays + if IsLeap D.year ∧ D.month = 2 then 1 else 0 := by
  obtain ⟨hm, hm', hd, hd'⟩ := D.isDate
  have hyear := yearStart_add_leapYears (D.year - 1970)
  have hmonth := daysBefore_leap (IsLeap D.year) D.month (by omega) hm
  obtain ⟨days, hsome, hdays⟩ := @date2days_ofNat (D.year - 2000) D.month D.day (by omega) hm hm' hd
    (hd'.trans (monthLength_le _ _))
  rw [show 2000 + (D.year - 2000) = D.year by omega] at hsome hdays
  refine ⟨days, hsome, ?_⟩
  rw [Date.toDays_eq, Date.monthStart, hmonth, hdays]
  unfold leapYears at hyear
  simp only [decide_eq_true_eq]
  split_ifs <;> omega

/-! ### The library's own second count -/

/-- `time2long`. A signed `long` that overflows is undefined in C, so the model has no outcome
there. A compiler that lets it wrap around gives what `unixtime` then makes right again, since the
sum is stored as an unsigned number. -/
def time2long (days : UInt16) (hours minutes seconds : UInt8) : Option ℕ :=
  let sum := ((days.toNat * 24 + hours.toNat) * 60 + minutes.toNat) * 60 + seconds.toNat
  if sum < 2 ^ 31 then some sum else none

/-- `unixtime`, on the fields that were read: the days and the time of the day since 2000, and a
constant that is an hour short of the seconds from 1970 to 2000. -/
def unixtime (t : RTCDateTime) : Option UInt32 := do
  let days ← date2days t.year t.month t.day
  let u ← time2long days t.hour t.minute t.second
  some (.ofNat u + 946681200)

/-- The days that `date2days` counts too many in a leap year, before the day it counts too few. -/
def daysTooMany (t : ℕ) : ℕ := if IsLeap (civil t).year ∧ (civil t).month = 2 then 1 else 0

/-- The days that `date2days` counts too few in a leap year. -/
def daysTooFew (t : ℕ) : ℕ := if IsLeap (civil t).year ∧ 2 < (civil t).month then 1 else 0

/-- The library's second count of a reading, as the seconds since the year 2000 with the days that
it counts too many or too few. -/
theorem unixtime_getDateTime {t : ℕ} (h : firstInstant ≤ t ∧ t < endInstant) :
    ∃ seconds, seconds + firstInstant + 86400 * daysTooFew t = t + 86400 * daysTooMany t ∧
      unixtime (getDateTime (timeRegisters t)) =
        if seconds < 2 ^ 31 then some (.ofNat (seconds + 946681200)) else none := by
  obtain ⟨hyear, hmonth, hday, hhour, hminute, hsecond⟩ := getDateTime_timeRegisters h
  obtain ⟨hy, hy'⟩ := civil_year_mem h
  obtain ⟨days, hsome, hdays⟩ := date2days_eq (civil t).toDate hy hy'
  have hinstant : t = 86400 * (civil t).toDays + t % 86400 := by
    rw [DateTime.toDate_ofSeconds, Date.toDays_ofDays]
    omega
  have hclock := secondOfDay_civil t
  have hepoch : UInt32.ofNat 946681200 = 946681200 := rfl
  rw [← hyear, UInt16.ofNat_toNat, ← hmonth, UInt8.ofNat_toNat, ← hday, UInt8.ofNat_toNat] at hsome
  refine ⟨((days.toNat * 24 + (civil t).hour) * 60 + (civil t).minute) * 60 + (civil t).second,
    ?_, ?_⟩
  · unfold secondOfDay at hclock
    unfold daysTooFew daysTooMany firstInstant
    omega
  · simp only [unixtime, hsome, time2long, hhour, hminute, hsecond, Option.bind_eq_bind,
      Option.bind_some]
    split
    · rw [Option.bind_some, UInt32.ofNat_add _ 946681200, hepoch]
    · rfl

/-- **When `unixtime` is defined and right**, for a clock that is one hour ahead: in the common
years, and in the January of a leap year, before the instant in 2068 at which the signed sum
overflows. That bound is one of definedness: from there on C does not say what the sum is, although
a compiled sum that wraps around happens to be right as well. -/
theorem unixtime_eq_iff {t : ℕ} (h : firstInstant ≤ t ∧ t < endInstant) :
    unixtime (getDateTime (timeRegisters t)) = some (.ofNat (t - 3600)) ↔
      t < firstInstant + 2 ^ 31 ∧ (IsLeap (civil t).year → (civil t).month = 1) := by
  obtain ⟨seconds, hseconds, hunix⟩ := unixtime_getDateTime h
  have hmonth := (civil t).isDate.1
  have hend := h.2
  rw [hunix]
  unfold firstInstant endInstant at *
  have hexact : seconds + 946681200 = t - 3600 ↔ daysTooFew t = daysTooMany t := by omega
  have hleap : daysTooFew t = daysTooMany t ↔ (IsLeap (civil t).year → (civil t).month = 1) := by
    unfold daysTooFew daysTooMany
    split_ifs <;> grind
  rw [← hleap]
  split
  · -- numbers below 2 ^ 32 are told apart by their `UInt32`
    have hnat := TimeLib.toNat_ofNat_of_lt_two_pow (show seconds + 946681200 < 2 ^ 32 by omega)
    have hnat' := TimeLib.toNat_ofNat_of_lt_two_pow (show t - 3600 < 2 ^ 32 by omega)
    rw [Option.some_inj, ← UInt32.toNat_inj, hnat, hnat', hexact]
    exact ⟨fun heq ↦ ⟨by omega, heq⟩, fun h ↦ h.2⟩
  · refine iff_of_false (fun h ↦ Option.some_ne_none _ h.symm) fun h' ↦ ?_
    have := h'.1
    have := h'.2
    omega

/-- The first of February 2000 is the first day that is counted wrong. -/
theorem unixtime_eq_iff_february :
    unixtime (getDateTime (timeRegisters 949363200)) ≠ some (.ofNat (949363200 - 3600)) :=
  (unixtime_eq_iff (by decide)).not.2 (by decide +kernel)

end DS3231
