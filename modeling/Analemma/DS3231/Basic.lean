import Analemma.TimeLib.Basic

/-!
# The real-time clock

The DS3231 as the sketches use it: a calendar clock whose registers hold binary-coded decimals, two
alarms that are compared with them, an enable bit and a flag for each alarm, and an interrupt pin
that is low while the flag of an enabled alarm is set.

The chip counts the seconds of the years 2000 to 2099, from `firstInstant` to `endInstant`. A tick
raises the flag of an alarm whose registers agree with the new time, armed or not; a flag stays up
until it is cleared. A raised flag is recorded together with the instant of the match that raised
it, so that a run can say which match a wake-up belongs to; the code only ever asks whether the flag
is up.

Of the library's alarm modes the sketches use `DS3231_MATCH_DT_H_M_S` for alarm 1 and
`DS3231_MATCH_DT_H_M` for alarm 2: the day of the month, the hour and the minute are compared (and
the second: for alarm 2 the second zero), and **neither the month nor the year is**. That is
`alarm1Registers_matches` and `alarm2Registers_matches`.
-/

namespace DS3231

open Gregorian

/-! ### The clock -/

/-- The first second of the year 2000, counted from 1970. -/
def firstInstant : ℕ := 946684800

/-- The first second of the year 2100, counted from 1970. -/
def endInstant : ℕ := 4102444800

/-- The civil time at an instant, on the calendar of the foundation with the epoch 1970. -/
abbrev civil (t : ℕ) : DateTime 1970 := .ofSeconds 1970 t

/-- The time of the day at an instant, in seconds. -/
theorem secondOfDay_civil (t : ℕ) :
    secondOfDay (civil t).hour (civil t).minute (civil t).second = t % 86400 :=
  DateTime.secondOfDay_ofSeconds t

theorem year_civil (t : ℕ) : (civil t).year = 1970 + yearsAt 1970 t := by
  have h : yearsAt 1970 t = (civil t).year - 1970 := rfl
  have := (civil t).epoch_le
  omega

/-- The years before 2000, as days, end where the chip begins to count. -/
theorem yearStart_2000 : Date.yearStart 1970 30 * 86400 = firstInstant := by
  rw [Date.yearStart_eq_start]
  decide +kernel

theorem yearStart_2100 : Date.yearStart 1970 130 * 86400 = endInstant := by
  rw [Date.yearStart_eq_start]
  decide +kernel

/-- The year of an instant is in the block its day lies in. -/
theorem year_lt_of_lt {t y : ℕ} (h : t < Date.yearStart 1970 y * 86400) :
    (civil t).year < 1970 + y := by
  have h1 := (civil t).toDate.yearStart_le_toDays
  rw [DateTime.toDate_ofSeconds, Date.toDays_ofDays] at h1
  by_contra hge
  have hle := @Date.yearStart_mono 1970 _ _
    (show y ≤ (Date.ofDays 1970 (t / 86400)).year - 1970 by
      have : (civil t).year = (Date.ofDays 1970 (t / 86400)).year := rfl
      omega)
  omega

theorem le_year_of_le {t y : ℕ} (h : Date.yearStart 1970 y * 86400 ≤ t) :
    1970 + y ≤ (civil t).year := by
  have h1 := (civil t).toDate.toDays_lt_yearStart_succ
  rw [DateTime.toDate_ofSeconds, Date.toDays_ofDays] at h1
  by_contra hlt
  have hepoch := (civil t).epoch_le
  have hle := @Date.yearStart_mono 1970 _ _
    (show (Date.ofDays 1970 (t / 86400)).year - 1970 + 1 ≤ y by
      have : (civil t).year = (Date.ofDays 1970 (t / 86400)).year := rfl
      omega)
  omega

/-- The clock shows the years 2000 to 2099. -/
theorem civil_year_mem {t : ℕ} (h : firstInstant ≤ t ∧ t < endInstant) :
    2000 ≤ (civil t).year ∧ (civil t).year ≤ 2099 := by
  rw [← yearStart_2000, ← yearStart_2100] at h
  have h1 := le_year_of_le h.1
  have h2 := year_lt_of_lt h.2
  exact ⟨h1, Nat.lt_succ_iff.1 h2⟩

/-- A civil time of the years 2000 to 2099 is one of the clock's instants. -/
theorem toSeconds_mem_of_year {T : DateTime 1970} (hy : 2000 ≤ T.year) (hy' : T.year ≤ 2099) :
    firstInstant ≤ T.toSeconds ∧ T.toSeconds < endInstant := by
  have hlow := (@Date.yearStart_mono 1970 _ _ (show 30 ≤ T.year - 1970 by omega)).trans
    T.toDate.yearStart_le_toDays
  have hhigh := T.toDate.toDays_lt_yearStart_succ.trans_le
    (@Date.yearStart_mono 1970 _ _ (show T.year - 1970 + 1 ≤ 130 by omega))
  have hsecond := T.secondOfDay_lt
  rw [← yearStart_2000, ← yearStart_2100, DateTime.toSeconds]
  generalize Date.yearStart 1970 30 = first at *
  generalize Date.yearStart 1970 130 = last at *
  omega

/-! ### Binary-coded decimals -/

/-- `dec2bcd`: the tens in the upper half of the byte and the ones in the lower half. -/
def dec2bcd (dec : UInt8) : UInt8 := dec / 10 * 16 + dec % 10

/-- `bcd2dec`, its inverse on two digits. -/
def bcd2dec (bcd : UInt8) : UInt8 := bcd / 16 * 10 + bcd % 16

/-- Two decimal digits survive the encoding. -/
theorem bcd2dec_dec2bcd_ofNat : ∀ n < 100, bcd2dec (dec2bcd (.ofNat n)) = .ofNat n := by
  decide +kernel

/-- The top bit is not used below 80, so masking it off changes nothing. -/
theorem dec2bcd_ofNat_and : ∀ n < 80, dec2bcd (.ofNat n) &&& 0b01111111 = dec2bcd (.ofNat n) := by
  decide +kernel

theorem dec2bcd_ofNat_inj {m n : ℕ} (hm : m < 100) (hn : n < 100) :
    dec2bcd (.ofNat m) = dec2bcd (.ofNat n) ↔ m = n := by
  refine ⟨fun h ↦ ?_, fun h ↦ by rw [h]⟩
  have hdec := congrArg bcd2dec h
  rw [bcd2dec_dec2bcd_ofNat m hm, bcd2dec_dec2bcd_ofNat n hn] at hdec
  have hnat := congrArg UInt8.toNat hdec
  rwa [TimeLib.toNat_ofNat_of_lt (by omega), TimeLib.toNat_ofNat_of_lt (by omega)] at hnat

/-- The timekeeping registers of the chip at an instant (the year counts from 2000). -/
structure TimeRegisters where
  second : UInt8
  minute : UInt8
  hour : UInt8
  day : UInt8
  month : UInt8
  year : UInt8
deriving DecidableEq, Repr

/-- The chip counts civil time, two decimal digits a register. What is in the registers is taken
from the instant; that the chip counts so is not code of the repository. -/
def timeRegisters (t : ℕ) : TimeRegisters where
  second := dec2bcd (.ofNat (civil t).second)
  minute := dec2bcd (.ofNat (civil t).minute)
  hour := dec2bcd (.ofNat (civil t).hour)
  day := dec2bcd (.ofNat (civil t).day)
  month := dec2bcd (.ofNat (civil t).month)
  year := dec2bcd (.ofNat ((civil t).year - 2000))

/-- `RTCDateTime`, less the weekday and the library's own second count, which only the printed
texts use. -/
structure RTCDateTime where
  year : UInt16
  month : UInt8
  day : UInt8
  hour : UInt8
  minute : UInt8
  second : UInt8
deriving DecidableEq, Repr

/-- `getDateTime`: the registers, decoded. The year of two digits gets its century back. -/
def getDateTime (regs : TimeRegisters) : RTCDateTime where
  year := (bcd2dec regs.year).toUInt16 + 2000
  month := bcd2dec regs.month
  day := bcd2dec regs.day
  hour := bcd2dec regs.hour
  minute := bcd2dec regs.minute
  second := bcd2dec regs.second

/-- `setTime` on the fields read from the clock, as `refreshDate` calls it. The year, a `uint16_t`,
becomes an `int` of 16 bits. -/
def systemTime (dt : RTCDateTime) : UInt32 :=
  TimeLib.setTime dt.hour.toNat dt.minute.toNat dt.second.toNat dt.day.toNat dt.month.toNat
    dt.year.toInt16.toInt

/-- The fields `getDateTime` returns are those of the civil time. -/
theorem getDateTime_timeRegisters {t : ℕ} (h : firstInstant ≤ t ∧ t < endInstant) :
    let dt := getDateTime (timeRegisters t)
    dt.year.toNat = (civil t).year ∧ dt.month.toNat = (civil t).month ∧
      dt.day.toNat = (civil t).day ∧ dt.hour.toNat = (civil t).hour ∧
      dt.minute.toNat = (civil t).minute ∧ dt.second.toNat = (civil t).second := by
  obtain ⟨hy, hy'⟩ := civil_year_mem h
  have hmonth := (civil t).isDate.2.1
  have hday := (civil t).isDate.2.2.2.trans (monthLength_le _ _)
  have := (civil t).hour_lt
  have := (civil t).minute_lt
  have := (civil t).second_lt
  refine ⟨?_, ?_, ?_, ?_, ?_, ?_⟩
  · simp only [getDateTime, timeRegisters]
    rw [bcd2dec_dec2bcd_ofNat _ (by omega), UInt16.toNat_add, UInt8.toNat_toUInt16,
      TimeLib.toNat_ofNat_of_lt (by omega)]
    simp only [UInt16.reduceToNat]
    omega
  all_goals
    simp only [getDateTime, timeRegisters]
    rw [bcd2dec_dec2bcd_ofNat _ (by omega), TimeLib.toNat_ofNat_of_lt (by omega)]

/-- A year of the clock is the same `int`. -/
theorem toInt_toInt16_of_lt {x : UInt16} (h : x.toNat < 2 ^ 15) : x.toInt16.toInt = x.toNat := by
  have hx : x.toInt16 = .ofNat x.toNat := (congrArg UInt16.toInt16 UInt16.ofNat_toNat).symm
  rw [hx, Int16.toInt_ofNat_of_lt h]

/-- **The system time set from the clock is the instant the clock shows.** -/
theorem systemTime_getDateTime {t : ℕ} (h : firstInstant ≤ t ∧ t < endInstant) :
    systemTime (getDateTime (timeRegisters t)) = .ofNat t := by
  obtain ⟨hyear, hmonth, hday, hhour, hminute, hsecond⟩ := getDateTime_timeRegisters h
  obtain ⟨hy, hy'⟩ := civil_year_mem h
  have hint : (getDateTime (timeRegisters t)).year.toInt16.toInt = (civil t).year := by
    rw [← hyear]
    exact toInt_toInt16_of_lt (by omega)
  rw [systemTime, hint, hmonth, hday, hhour, hminute, hsecond,
    TimeLib.setTime_civil _ hy (by omega), DateTime.toSeconds_ofSeconds]

/-- The same as a natural number: a reading of the clock loses nothing. -/
theorem toNat_systemTime_getDateTime {t : ℕ} (h : firstInstant ≤ t ∧ t < endInstant) :
    (systemTime (getDateTime (timeRegisters t))).toNat = t := by
  have hend := h.2
  unfold endInstant at hend
  rw [systemTime_getDateTime h, TimeLib.toNat_ofNat_of_lt_two_pow (by omega)]

/-! ### The alarms -/

/-- The registers of alarm 1: second, minute, hour and day of the month. -/
structure Alarm1 where
  second : UInt8
  minute : UInt8
  hour : UInt8
  dydw : UInt8
deriving DecidableEq, Repr

/-- The registers of alarm 2, which has no seconds. -/
structure Alarm2 where
  minute : UInt8
  hour : UInt8
  dydw : UInt8
deriving DecidableEq, Repr

/-- The registers `setAlarm1(dydw, hour, minute, second, DS3231_MATCH_DT_H_M_S)` writes: the four
codes with their top bits, which are the mask bits, cleared. -/
def alarm1Registers (dydw hour minute second : UInt8) : Alarm1 where
  second := dec2bcd second &&& 0b01111111
  minute := dec2bcd minute &&& 0b01111111
  hour := dec2bcd hour &&& 0b01111111
  dydw := dec2bcd dydw &&& 0b01111111

/-- The registers `setAlarm2(dydw, hour, minute, DS3231_MATCH_DT_H_M)` writes, likewise. -/
def alarm2Registers (dydw hour minute : UInt8) : Alarm2 where
  minute := dec2bcd minute &&& 0b01111111
  hour := dec2bcd hour &&& 0b01111111
  dydw := dec2bcd dydw &&& 0b01111111

/-- Alarm 1 with all mask bits clear fires when date, hours, minutes and seconds match, that is,
register for register with what the chip counts. -/
def Alarm1.Matches (a : Alarm1) (t : ℕ) : Prop :=
  a.second = (timeRegisters t).second ∧ a.minute = (timeRegisters t).minute ∧
    a.hour = (timeRegisters t).hour ∧ a.dydw = (timeRegisters t).day

instance (a : Alarm1) (t : ℕ) : Decidable (a.Matches t) :=
  inferInstanceAs (Decidable (_ ∧ _ ∧ _ ∧ _))

/-- Alarm 2 with all mask bits clear fires when date, hours and minutes match, at second 0. -/
def Alarm2.Matches (a : Alarm2) (t : ℕ) : Prop :=
  (timeRegisters t).second = 0 ∧ a.minute = (timeRegisters t).minute ∧
    a.hour = (timeRegisters t).hour ∧ a.dydw = (timeRegisters t).day

instance (a : Alarm2) (t : ℕ) : Decidable (a.Matches t) :=
  inferInstanceAs (Decidable (_ ∧ _ ∧ _ ∧ _))

/-- The register written from the byte of a field below 80, against the register the chip counts
in. -/
theorem masked_eq_iff {m n : ℕ} (hm : m < 80) (hn : n < 100) :
    dec2bcd (.ofNat m) &&& 0b01111111 = dec2bcd (.ofNat n) ↔ m = n := by
  rw [dec2bcd_ofNat_and m hm, dec2bcd_ofNat_inj (by omega) hn]

theorem dec2bcd_eq_zero_iff {n : ℕ} (hn : n < 100) : dec2bcd (.ofNat n) = 0 ↔ n = 0 := by
  have h := dec2bcd_ofNat_inj (n := 0) hn (by omega)
  rwa [show dec2bcd (.ofNat 0) = 0 from rfl] at h

/-- **What alarm 1 compares**: the day of the month and the second of the day. -/
theorem alarm1Registers_matches (T : DateTime 1970) (t : ℕ) :
    (alarm1Registers (.ofNat T.day) (.ofNat T.hour) (.ofNat T.minute)
        (.ofNat T.second)).Matches t ↔
      (civil t).day = T.day ∧ t % 86400 = secondOfDay T.hour T.minute T.second := by
  have hday := T.isDate.2.2.2.trans (monthLength_le _ _)
  have hday' := (civil t).isDate.2.2.2.trans (monthLength_le _ _)
  have := T.hour_lt
  have := T.minute_lt
  have := T.second_lt
  have := (civil t).hour_lt
  have := (civil t).minute_lt
  have := (civil t).second_lt
  simp only [Alarm1.Matches, alarm1Registers, timeRegisters]
  rw [masked_eq_iff (by omega) (by omega), masked_eq_iff (by omega) (by omega),
    masked_eq_iff (by omega) (by omega), masked_eq_iff (by omega) (by omega),
    ← secondOfDay_civil]
  unfold secondOfDay
  omega

/-- **What alarm 2 compares**: the day of the month, and the hour and minute at second 0. -/
theorem alarm2Registers_matches (T : DateTime 1970) (t : ℕ) :
    (alarm2Registers (.ofNat T.day) (.ofNat T.hour) (.ofNat T.minute)).Matches t ↔
      (civil t).day = T.day ∧ t % 86400 = secondOfDay T.hour T.minute 0 := by
  have hday := T.isDate.2.2.2.trans (monthLength_le _ _)
  have hday' := (civil t).isDate.2.2.2.trans (monthLength_le _ _)
  have := T.hour_lt
  have := T.minute_lt
  have := (civil t).hour_lt
  have := (civil t).minute_lt
  have := (civil t).second_lt
  simp only [Alarm2.Matches, alarm2Registers, timeRegisters]
  rw [dec2bcd_eq_zero_iff (by omega), masked_eq_iff (by omega) (by omega),
    masked_eq_iff (by omega) (by omega), masked_eq_iff (by omega) (by omega),
    ← secondOfDay_civil]
  unfold secondOfDay
  omega

end DS3231
