import Analemma.Foundation.CivilTime

/-!
# The conversions of TimeLib

`breakTime` and `makeTime` of the Time library, between a `time_t` (32 unsigned bits of seconds
since 1970) and a `TimeElements` record of bytes, and `setTime`, which feeds the six fields of a
date-time to `makeTime`.

The loops are the library's: `breakTime` walks over years and then over months, `makeTime` adds up
leap days and months. `breakTime_eq` and `makeTime_eq` say what they compute: the civil time of
`Gregorian.DateTime` at the epoch 1970, and its second count modulo `2 ^ 32`. So on 32-bit seconds
the two are inverse to each other (`makeTime_breakTime`).

Both functions are modelled loop by loop, with the widths of the C types where they matter: the
comparison in the loop over the years is made in 16 bits, and `makeTime` adds up in 32. The bound on
the rounds of a loop (`fuel`) is that of its counter, and the lemmas that end in `_spec` show that
it is not reached.

The calendar of the foundation is not used in the definitions. It comes in with the comparison: the
loops walk over the blocks of `Gregorian`, so that what is known of blocks says where they stop.
-/

namespace TimeLib

open Gregorian

/-- `SECS_PER_MIN`. -/
def secsPerMin : UInt32 := 60

/-- `SECS_PER_HOUR`. -/
def secsPerHour : UInt32 := 3600

/-- `SECS_PER_DAY`. -/
def secsPerDay : UInt32 := secsPerHour * 24

/-- `SECS_PER_YEAR`: 365 days. -/
def secsPerYear : UInt32 := secsPerDay * 365

/-- `TimeElements`: all fields are bytes, and the year counts from 1970. -/
structure TimeElements where
  second : UInt8
  minute : UInt8
  hour : UInt8
  /-- The day of the week; Sunday is 1 and `dowInvalid` is 0. -/
  wday : UInt8
  day : UInt8
  month : UInt8
  year : UInt8
deriving DecidableEq, Repr

/-- `LEAP_YEAR(Y)`, with the year counted from 1970. -/
def leapYear (y : ℕ) : Bool :=
  0 < 1970 + y && (1970 + y) % 4 == 0 && ((1970 + y) % 100 != 0 || (1970 + y) % 400 == 0)

/-- `monthDays`, indexed from 0 for January. -/
def monthDays : List ℕ := [31, 28, 31, 30, 31, 30, 31, 31, 30, 31, 30, 31]

/-! ### `breakTime` -/

/-- `LEAP_YEAR(year) ? 366 : 365`. -/
def yearDays (year : ℕ) : ℕ := if leapYear year then 366 else 365

/-- The loop `while ((unsigned)(days += yearDays) <= time) year++`; `unsigned` has 16 bits. The
loop counter is a byte, so 256 rounds bound it. -/
def breakYears (time : ℕ) : (fuel year days : ℕ) → ℕ × ℕ
  | 0, year, days => (year, days)
  | fuel + 1, year, days =>
    let days := days + yearDays year
    if days % 2 ^ 16 ≤ time then breakYears time fuel (year + 1) days else (year, days)

/-- The loop over the twelve months, with `break` in the month the remaining days lie in. -/
def breakMonths (year : ℕ) : (fuel month time : ℕ) → ℕ × ℕ
  | 0, month, time => (month, time)
  | fuel + 1, month, time =>
    let monthLength :=
      if month = 1 then if leapYear year then 29 else 28 else monthDays.getD month 0
    if monthLength ≤ time then breakMonths year fuel (month + 1) (time - monthLength)
    else (month, time)

/-- Break the given `time_t` into time components. -/
def breakTime (timeInput : UInt32) : TimeElements :=
  let time := timeInput.toNat
  let second := time % 60
  let time := time / 60
  let minute := time % 60
  let time := time / 60
  let hour := time % 24
  let time := time / 24
  let wday := (time + 4) % 7 + 1
  let (year, days) := breakYears time 256 0 0
  let time := time - (days - yearDays year)
  let (month, time) := breakMonths year 12 0 time
  { second := .ofNat second
    minute := .ofNat minute
    hour := .ofNat hour
    wday := .ofNat wday
    day := .ofNat (time + 1)
    month := .ofNat (month + 1)
    year := .ofNat year }

/-! ### `makeTime` -/

/-- Assemble time elements into a `time_t`, in 32-bit arithmetic. -/
def makeTime (tm : TimeElements) : UInt32 :=
  -- seconds from 1970 till 1 jan 00:00:00 of the given year
  let seconds := tm.year.toUInt32 * (secsPerDay * 365)
  let seconds := (List.range tm.year.toNat).foldl
    (fun seconds i ↦ if leapYear i then seconds + secsPerDay else seconds) seconds
  -- add days for this year, months start from 1
  let seconds := (List.range (tm.month.toNat - 1)).foldl
    (fun seconds i ↦
      if i + 1 = 2 ∧ leapYear tm.year.toNat then seconds + secsPerDay * 29
      else seconds + secsPerDay * .ofNat (monthDays.getD i 0)) seconds
  let seconds := seconds + (tm.day.toUInt32 - 1) * secsPerDay
  let seconds := seconds + tm.hour.toUInt32 * secsPerHour
  let seconds := seconds + tm.minute.toUInt32 * secsPerMin
  seconds + tm.second.toUInt32

/-- The year that `setTime` stores. A year above 99 is a full year, from which 1970 is taken; any
other one counts from 2000, so that 30 is added. The `int` is then stored into the byte `tm.Year`,
of which only the last 8 bits are left: a full year before 1970 wraps around. -/
def storedYear (yr : ℤ) : UInt8 := .ofInt (if 99 < yr then yr - 1970 else yr + 30)

/-- `setTime(hr, min, sec, dy, mnth, yr)`: the new system time. The fields are stored into bytes
before `makeTime` reads them; `tm.Wday` keeps what it was, and `makeTime` does not ask for it. -/
def setTime (hr min sec dy mnth : ℕ) (yr : ℤ) : UInt32 :=
  makeTime
    { second := .ofNat sec
      minute := .ofNat min
      hour := .ofNat hr
      wday := 0
      day := .ofNat dy
      month := .ofNat mnth
      year := storedYear yr }

/-! ### The calendar of the library is the Gregorian one -/

theorem leapYear_eq (y : ℕ) : leapYear y = decide (IsLeap (1970 + y)) := by
  rw [Bool.eq_iff_iff, decide_eq_true_iff]
  simp [leapYear, IsLeap]

theorem yearDays_eq (y : ℕ) : yearDays y = yearLength (1970 + y) := by
  simp [yearDays, leapYear_eq, yearLength]

/-- The library's months, with February special-cased, are those of the calendar. -/
theorem monthDays_eq : ∀ leap : Bool, ∀ i < 12,
    (if i = 1 then if leap then 29 else 28 else monthDays.getD i 0) =
      Gregorian.monthDays leap (i + 1) := by
  decide

/-- The loop over the years stops at the year whose days contain `time`. -/
theorem breakYears_spec {time fuel year : ℕ} (h16 : time + 366 < 2 ^ 16)
    (hle : Date.yearStart 1970 year ≤ time)
    (hfuel : time < Date.yearStart 1970 (year + fuel)) :
    ∃ y, breakYears time fuel year (Date.yearStart 1970 year) = (y, Date.yearStart 1970 (y + 1)) ∧
      Date.yearStart 1970 y ≤ time ∧ time < Date.yearStart 1970 (y + 1) := by
  induction fuel generalizing year with
  | zero =>
    rw [Nat.add_zero] at hfuel
    omega
  | succ fuel ih =>
    have hdays : Date.yearStart 1970 year + yearDays year = Date.yearStart 1970 (year + 1) := by
      rw [yearDays_eq, Date.yearStart_succ]
    have hlen : yearDays year ≤ 366 := by
      unfold yearDays
      split <;> omega
    simp only [breakYears, hdays]
    rw [Nat.mod_eq_of_lt (show Date.yearStart 1970 (year + 1) < 2 ^ 16 by omega)]
    split
    · next hle' =>
      exact ih hle' (by rwa [Nat.add_right_comm])
    · next hgt => exact ⟨year, rfl, hle, by omega⟩

/-- The loop over the months is the walk over the blocks of the year. -/
theorem breakMonths_eq_locate {year fuel month time : ℕ} (h : month + fuel ≤ 12) :
    breakMonths year fuel month time =
      Blocks.locate (fun i ↦ monthLength (1970 + year) (i + 1)) fuel month time := by
  induction fuel generalizing month time with
  | zero => rfl
  | succ fuel ih =>
    have hlen : (if month = 1 then if leapYear year then 29 else 28 else monthDays.getD month 0) =
        monthLength (1970 + year) (month + 1) := by
      rw [leapYear_eq, monthDays_eq _ month (by omega)]
      rfl
    simp only [breakMonths, Blocks.locate, hlen]
    rw [ih (by omega)]
    by_cases hlt : time < monthLength (1970 + year) (month + 1)
    · rw [if_neg (by omega), if_pos hlt]
    · rw [if_pos (by omega), if_neg hlt]

/-- The loop over the months stops at the month and the day of a day of the year. -/
theorem breakMonths_spec {year r : ℕ} (hr : r < yearLength (1970 + year)) :
    ∃ m d, breakMonths year 12 0 r = (m, d) ∧ m < 12 ∧ d < monthLength (1970 + year) (m + 1) ∧
      Date.monthStart (1970 + year) (m + 1) + d = r := by
  set ℓ := fun i ↦ monthLength (1970 + year) (i + 1) with hℓ
  have htotal : Blocks.start ℓ 12 = yearLength (1970 + year) :=
    Date.monthStart_thirteen (1970 + year)
  have hsum := Blocks.start_locate ℓ 12 0 r
  have hlt : (Blocks.locate ℓ 12 0 r).2 < ℓ (Blocks.locate ℓ 12 0 r).1 := by
    refine Blocks.locate_lt ℓ ?_
    rw [Blocks.start_zero, Nat.zero_add, Nat.zero_add, htotal]
    exact hr
  have hloop : breakMonths year 12 0 r = Blocks.locate ℓ 12 0 r := breakMonths_eq_locate (by omega)
  rw [Blocks.start_zero, Nat.zero_add] at hsum
  rcases hp : Blocks.locate ℓ 12 0 r with ⟨m, d⟩
  rw [hp] at hsum hlt hloop
  refine ⟨m, d, hloop, ?_, hlt, hsum⟩
  by_contra hge
  have := Blocks.start_le_of_le ℓ (show 12 ≤ m by omega)
  simp only at hsum
  omega

/-- The days of 32-bit seconds end in the year 2106. -/
theorem days_lt (t : UInt32) : t.toNat / 86400 < 49711 := by
  have := t.toNat_lt
  omega

/-- So the loop over the years ends before its counter is used up. -/
theorem days_lt_yearStart (t : UInt32) : t.toNat / 86400 < Date.yearStart 1970 256 := by
  have h1 := days_lt t
  have h2 := Blocks.mul_le_start (fun i ↦ yearLength (1970 + i)) (fun i ↦ yearLength_ge _) 256
  rw [← Date.yearStart_eq_start] at h2
  omega

/-- **What `breakTime` computes**: the civil time at the instant, with the year from 1970. -/
theorem breakTime_eq (t : UInt32) :
    breakTime t =
      let T := DateTime.ofSeconds 1970 t.toNat
      { second := .ofNat T.second
        minute := .ofNat T.minute
        hour := .ofNat T.hour
        wday := .ofNat ((t.toNat / 86400 + 4) % 7 + 1)
        day := .ofNat T.day
        month := .ofNat T.month
        year := .ofNat (T.year - 1970) } := by
  have hdays := days_lt t
  have h60 : t.toNat / 60 / 60 = t.toNat / 3600 := by omega
  have h24 : t.toNat / 3600 / 24 = t.toNat / 86400 := by omega
  obtain ⟨y, hyears, hle, hlt⟩ := @breakYears_spec (t.toNat / 86400) 256 0 (by omega) (by simp)
    (by simpa using days_lt_yearStart t)
  rw [Date.yearStart_zero] at hyears
  rw [Date.yearStart_succ] at hlt
  have hrest : Date.yearStart 1970 (y + 1) - yearDays y = Date.yearStart 1970 y := by
    rw [Date.yearStart_succ, yearDays_eq]
    omega
  obtain ⟨m, d, hmonths, hm, hd, hsum⟩ :=
    @breakMonths_spec y (t.toNat / 86400 - Date.yearStart 1970 y) (by omega)
  -- the year, month and day found are those of the date of the instant
  have hdate : Date.ofDays 1970 (t.toNat / 86400) =
      ⟨1970 + y, m + 1, d + 1, by omega, by omega, by omega, by omega, hd⟩ := by
    apply Date.toDays_injective
    rw [Date.toDays_ofDays, Date.toDays_eq]
    simp only [Nat.add_sub_cancel, Nat.add_sub_cancel_left]
    omega
  simp only [breakTime, h60, h24, hyears, hrest, hmonths, DateTime.ofSeconds, hdate,
    Nat.add_sub_cancel_left]

/-- The leap days of the first `n` years from 1970. -/
def leapDays (n : ℕ) : ℕ := Blocks.start (fun i ↦ if leapYear i then 1 else 0) n

/-- The days before a year: 365 for each year, and the leap days. -/
theorem yearStart_eq_leapDays (n : ℕ) : Date.yearStart 1970 n = 365 * n + leapDays n := by
  induction n with
  | zero => rfl
  | succ n ih =>
    rw [Date.yearStart_succ, ih, leapDays, leapDays, Blocks.start_succ, ← yearDays_eq, yearDays]
    split <;> omega

/-- The loop over the years adds their leap days. -/
theorem foldl_leapDays (n : ℕ) (seconds : UInt32) :
    (List.range n).foldl (fun seconds i ↦ if leapYear i then seconds + secsPerDay else seconds)
      seconds = seconds + .ofNat (86400 * leapDays n) := by
  induction n with
  | zero => simp [leapDays]
  | succ n ih =>
    rw [List.range_succ, List.foldl_append, ih, leapDays, leapDays, Blocks.start_succ]
    simp only [List.foldl_cons, List.foldl_nil]
    split
    · rw [Nat.mul_add, UInt32.ofNat_add, UInt32.add_assoc]
      rfl
    · rw [Nat.add_zero]

/-- The loop over the months adds the days before the month. -/
theorem foldl_monthDays {year n : ℕ} (hn : n ≤ 12) (seconds : UInt32) :
    (List.range n).foldl
      (fun seconds i ↦
        if i + 1 = 2 ∧ leapYear year then seconds + secsPerDay * 29
        else seconds + secsPerDay * .ofNat (monthDays.getD i 0)) seconds =
      seconds + .ofNat (86400 * Date.monthStart (1970 + year) (n + 1)) := by
  induction n with
  | zero => simp [Date.monthStart, Date.daysBefore]
  | succ n ih =>
    have hlen := monthDays_eq (leapYear year) n (by omega)
    have hstart : Date.monthStart (1970 + year) (n + 1 + 1) =
        Date.monthStart (1970 + year) (n + 1) + Gregorian.monthDays (leapYear year) (n + 1) := by
      rw [leapYear_eq]
      exact Blocks.start_succ _ n
    rw [List.range_succ, List.foldl_append, ih (by omega), hstart, Nat.mul_add, UInt32.ofNat_add,
      ← UInt32.add_assoc]
    simp only [List.foldl_cons, List.foldl_nil]
    -- February of a leap year has its own branch in the loop; the others take `monthDays`.
    split
    · next h =>
      rw [if_pos (by omega), if_pos h.2] at hlen
      rw [← hlen]
      rfl
    · next h =>
      have hmonth : monthDays.getD n 0 = Gregorian.monthDays (leapYear year) (n + 1) := by
        rw [← hlen]
        split
        · next hn1 =>
          subst hn1
          rw [if_neg (by simpa using h)]
          rfl
        · rfl
      rw [hmonth, UInt32.ofNat_mul _ (Gregorian.monthDays _ _)]
      rfl

theorem toUInt32_eq_ofNat (b : UInt8) : b.toUInt32 = .ofNat b.toNat := by
  have := b.toNat_lt
  apply UInt32.toNat_inj.1
  rw [UInt8.toNat_toUInt32, UInt32.toNat_ofNat']
  omega

/-- A byte less one, as a word, if there is one to take away. -/
theorem toUInt32_sub_one {b : UInt8} (h : 1 ≤ b.toNat) :
    b.toUInt32 - 1 = .ofNat (b.toNat - 1) := by
  have := b.toNat_lt
  apply UInt32.toNat_inj.1
  rw [UInt32.toNat_sub_of_le _ _ (by rw [UInt32.le_iff_toNat_le]; simpa using h)]
  simp only [UInt8.toNat_toUInt32, UInt32.toNat_ofNat', UInt32.reduceToNat]
  omega

/-- **What `makeTime` computes**, on a month that exists and any bytes besides: the days before
the month, and the other fields on top of them, modulo `2 ^ 32`. -/
theorem makeTime_eq (tm : TimeElements) (hm : 1 ≤ tm.month.toNat) (hm' : tm.month.toNat ≤ 12)
    (hd : 1 ≤ tm.day.toNat) :
    makeTime tm = .ofNat
      (86400 * (Date.yearStart 1970 tm.year.toNat +
          Date.monthStart (1970 + tm.year.toNat) tm.month.toNat + (tm.day.toNat - 1)) +
        secondOfDay tm.hour.toNat tm.minute.toNat tm.second.toNat) := by
  have hday : secsPerDay = .ofNat 86400 := rfl
  have hhour : secsPerHour = .ofNat 3600 := rfl
  have hmin : secsPerMin = .ofNat 60 := rfl
  have hmonth : tm.month.toNat - 1 + 1 = tm.month.toNat := by omega
  simp only [makeTime]
  rw [foldl_leapDays, foldl_monthDays (by omega), hmonth, toUInt32_sub_one hd, hday, hhour, hmin,
    yearStart_eq_leapDays]
  simp only [toUInt32_eq_ofNat, secondOfDay, UInt32.ofNat_add, UInt32.ofNat_mul]
  grind

/-! ### Civil times through the bytes of `TimeElements` -/

theorem toNat_ofNat_of_lt {n : ℕ} (h : n < 256) : (UInt8.ofNat n).toNat = n :=
  UInt8.toNat_ofNat_of_lt' h

theorem toNat_ofNat_of_lt_two_pow {n : ℕ} (h : n < 2 ^ 32) : (UInt32.ofNat n).toNat = n :=
  UInt32.toNat_ofNat_of_lt' h

theorem month_lt (D : Date 1970) : D.month < 256 := by
  have := D.isDate.2.1
  omega

theorem day_lt (D : Date 1970) : D.day < 256 := by
  have := D.isDate.2.2.2
  have := monthLength_le D.year D.month
  omega

/-- `makeTime` on the bytes of a date and a time of its day. -/
theorem makeTime_date (D : Date 1970) (hy : D.year - 1970 < 256) (hour minute second wday : UInt8) :
    makeTime
      { second, minute, hour, wday
        day := .ofNat D.day, month := .ofNat D.month, year := .ofNat (D.year - 1970) } =
      .ofNat (86400 * D.toDays + secondOfDay hour.toNat minute.toNat second.toNat) := by
  have hyear : 1970 + (D.year - 1970) = D.year := by
    have := D.epoch_le
    omega
  have hmonth := toNat_ofNat_of_lt (month_lt D)
  have hday := toNat_ofNat_of_lt (day_lt D)
  rw [makeTime_eq _ (by rw [hmonth]; exact D.isDate.1) (by rw [hmonth]; exact D.isDate.2.1)
    (by rw [hday]; exact D.isDate.2.2.1)]
  simp only [hmonth, hday, toNat_ofNat_of_lt hy, hyear, Date.toDays_eq]

/-- `makeTime` on the bytes of a civil time is its second count. -/
theorem makeTime_civil (T : DateTime 1970) (hy : T.year - 1970 < 256) (wday : UInt8) :
    makeTime
      { second := .ofNat T.second, minute := .ofNat T.minute, hour := .ofNat T.hour, wday
        day := .ofNat T.day, month := .ofNat T.month, year := .ofNat (T.year - 1970) } =
      .ofNat T.toSeconds := by
  have := T.hour_lt
  have := T.minute_lt
  have := T.second_lt
  rw [makeTime_date T.toDate hy, toNat_ofNat_of_lt (by omega), toNat_ofNat_of_lt (by omega),
    toNat_ofNat_of_lt (by omega), DateTime.toSeconds]

/-- The year of 32-bit seconds fits into the byte of `TimeElements`. -/
theorem year_sub_lt (t : UInt32) : (DateTime.ofSeconds 1970 t.toNat).year - 1970 < 256 := by
  have h1 := (Date.ofDays 1970 (t.toNat / 86400)).yearStart_le_toDays
  have h2 := days_lt_yearStart t
  rw [Date.toDays_ofDays] at h1
  show (Date.ofDays 1970 (t.toNat / 86400)).year - 1970 < 256
  by_contra hge
  have := @Date.yearStart_mono 1970 _ _
    (show 256 ≤ (Date.ofDays 1970 (t.toNat / 86400)).year - 1970 by omega)
  omega

/-- **`makeTime` undoes `breakTime`**, on every `time_t`. -/
theorem makeTime_breakTime (t : UInt32) : makeTime (breakTime t) = t := by
  rw [breakTime_eq]
  rw [makeTime_civil _ (year_sub_lt t), DateTime.toSeconds_ofSeconds, UInt32.ofNat_toNat]

/-- **`breakTime` undoes `makeTime`**, up to the weekday, on the civil times of 32-bit seconds. -/
theorem breakTime_makeTime (T : DateTime 1970) (h : T.toSeconds < 2 ^ 32) (wday : UInt8) :
    breakTime (makeTime
      { second := .ofNat T.second, minute := .ofNat T.minute, hour := .ofNat T.hour, wday
        day := .ofNat T.day, month := .ofNat T.month, year := .ofNat (T.year - 1970) }) =
      { second := .ofNat T.second, minute := .ofNat T.minute, hour := .ofNat T.hour
        wday := .ofNat ((T.toDate.toDays + 4) % 7 + 1)
        day := .ofNat T.day, month := .ofNat T.month, year := .ofNat (T.year - 1970) } := by
  have hnat : (UInt32.ofNat T.toSeconds).toNat = T.toSeconds := UInt32.toNat_ofNat_of_lt' h
  have hy := year_sub_lt (.ofNat T.toSeconds)
  rw [hnat, DateTime.ofSeconds_toSeconds] at hy
  rw [makeTime_civil T hy, breakTime_eq, hnat, DateTime.ofSeconds_toSeconds, T.toSeconds_div]

/-- A full year from 1970 on is stored as the years since. -/
theorem storedYear_natCast {y : ℕ} (hy : 1970 ≤ y) (hy' : y < 1970 + 256) :
    storedYear y = .ofNat (y - 1970) := by
  rw [storedYear, if_pos (by omega), UInt8.ofInt]
  exact congrArg UInt8.ofNat (by omega)

/-- `setTime` on the fields of a civil time with a full year from 2000 on. -/
theorem setTime_civil (T : DateTime 1970) (hy : 2000 ≤ T.year) (hy' : T.year < 1970 + 256) :
    setTime T.hour T.minute T.second T.day T.month T.year = .ofNat T.toSeconds := by
  rw [setTime, storedYear_natCast (by omega) hy', makeTime_civil T (by omega)]

end TimeLib
