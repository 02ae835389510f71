import Analemma.Schedule.Constructors

/-!
# The time set at the bring-up

`analemma_factory` sets the clock from the date-time that the GPS decoder hands over: it adds the
zone's offset to the **hour** and passes the sum to `clock.setDateTime`, as a byte.
`time_from_gps` has the same task and adds the offset to the **seconds**, with `adjustTime`.

The second path is right at every instant (`timeFromGps_eq`). The first one is right exactly when
the sum is an hour of the same day (`setSystemTimeFromGPS_iff`): nothing carries into the day.

The decoder is not code of the repository: what it hands over is a `GpsDateTime`, and the results
are about those that denote a civil time. The conversions are spelt out as C makes them, to `int`
for the sum and to a byte for the argument; `toNat_hourArgument` says what that comes to for every
byte and every offset, valid or not.
-/

namespace Factory

open Gregorian DS3231 Schedule TimeLib

/-- What `gps.crack_datetime` hands over, less the hundredths and the age. -/
structure GpsDateTime where
  y : Int16
  mth : UInt8
  d : UInt8
  h : UInt8
  m : UInt8
  s : UInt8
deriving DecidableEq, Repr

/-- `h + offset`, an `int`, as the `uint8_t` argument it becomes. -/
def hourArgument (h : UInt8) (offset : Int16) : UInt8 :=
  (h.toUInt16.toInt16 + offset).toUInt16.toUInt8

/-- The arguments of `clock.setDateTime(y, mth, d, h + offset, m, s)`. -/
def setSystemTimeFromGPS (offset : Int16) (gps : GpsDateTime) : RTCDateTime where
  year := gps.y.toUInt16
  month := gps.mth
  day := gps.d
  hour := hourArgument gps.h offset
  minute := gps.m
  second := gps.s

/-- The registers `setDateTime` writes, less the day of the week. -/
def setDateTime (dt : RTCDateTime) : TimeRegisters where
  second := dec2bcd dt.second
  minute := dec2bcd dt.minute
  hour := dec2bcd dt.hour
  day := dec2bcd dt.day
  month := dec2bcd dt.month
  year := dec2bcd (dt.year - 2000).toUInt8

/-- `adjustTime`. -/
def adjustTime (sysTime adjustment : UInt32) : UInt32 := sysTime + adjustment

/-- The system time of `time_from_gps`: `setTime` and `adjustTime(offset * SECS_PER_HOUR)`, where
the product is unsigned. -/
def timeFromGps (offset : Int16) (gps : GpsDateTime) : UInt32 :=
  adjustTime
    (setTime gps.h.toNat gps.m.toNat gps.s.toNat gps.d.toNat gps.mth.toNat gps.y.toInt)
    (uint32OfInt offset * secsPerHour)

/-- The fields of a date-time are those of a civil time; so they are valid. -/
structure Denotes (dt : RTCDateTime) (T : DateTime 1970) : Prop where
  year : dt.year.toNat = T.year
  month : dt.month.toNat = T.month
  day : dt.day.toNat = T.day
  hour : dt.hour.toNat = T.hour
  minute : dt.minute.toNat = T.minute
  second : dt.second.toNat = T.second

/-- The decoded date-time at a UTC instant. -/
def gpsDateTime (utc : DateTime 1970) : GpsDateTime where
  y := .ofNat utc.year
  mth := .ofNat utc.month
  d := .ofNat utc.day
  h := .ofNat utc.hour
  m := .ofNat utc.minute
  s := .ofNat utc.second

/-! ### Integers of 16 and 32 bits -/

/-- The conversion of an `int`, as an integer modulo `2 ^ 32`. -/
theorem uint32OfInt_eq (i : Int16) : uint32OfInt i = .ofInt i.toInt := by
  have h : (uint32OfInt i).toBitVec = .ofInt 32 i.toInt := rfl
  rw [← UInt32.toBitVec_inj, h]
  apply BitVec.eq_of_toNat_eq
  rw [BitVec.toNat_ofInt]
  exact (Nat.mod_eq_of_lt (by omega)).symm

theorem ofInt_natCast (n : ℕ) : UInt32.ofInt n = .ofNat n := by
  have h : ((n : ℤ) % 2 ^ 32).toNat = n % 2 ^ 32 := by omega
  rw [UInt32.ofInt, h]
  exact UInt32.ofNat_mod_size

/-- The sum of hour and offset, modulo 256. -/
theorem toNat_hourArgument (h : UInt8) (offset : Int16) :
    (hourArgument h offset).toNat = (((h.toNat : ℤ) + offset.toInt) % 256).toNat := by
  have hbits : (hourArgument h offset).toBitVec =
      (h.toBitVec.setWidth 16 + offset.toBitVec).setWidth 8 := rfl
  have hint : offset.toInt = offset.toBitVec.toInt := rfl
  rw [← UInt8.toNat_toBitVec, hbits, hint, BitVec.toInt_eq_toNat_cond]
  simp only [BitVec.toNat_setWidth, BitVec.toNat_add, UInt8.toNat_toBitVec]
  have := h.toNat_lt
  split <;> omega

/-! ### What is written to the clock -/

/-- Valid arguments of a year of the clock are written to the registers of their instant. -/
theorem setDateTime_of_denotes {dt : RTCDateTime} {T : DateTime 1970} (h : Denotes dt T)
    (hy : 2000 ≤ T.year) (hy' : T.year ≤ 2099) : setDateTime dt = timeRegisters T.toSeconds := by
  have hyear : (dt.year - 2000).toUInt8 = .ofNat (T.year - 2000) := by
    rw [← h.year]
    have := h.year
    rw [← UInt8.toNat_inj, UInt16.toNat_toUInt8, UInt16.toNat_sub]
    have h2000 : (2000 : UInt16).toNat = 2000 := rfl
    rw [h2000, toNat_ofNat_of_lt (by omega)]
    omega
  simp only [setDateTime, timeRegisters, DateTime.ofSeconds_toSeconds, hyear, ← h.month, ← h.day,
    ← h.hour, ← h.minute, ← h.second, UInt8.ofNat_toNat]

/-- The system time that is then set from the clock is the instant the arguments denote. -/
theorem systemTime_setDateTime {dt : RTCDateTime} {T : DateTime 1970} (h : Denotes dt T)
    (hy : 2000 ≤ T.year) (hy' : T.year ≤ 2099) :
    systemTime (getDateTime (setDateTime dt)) = .ofNat T.toSeconds := by
  rw [setDateTime_of_denotes h hy hy', systemTime_getDateTime (toSeconds_mem_of_year hy hy')]

section Utc

variable {utc : DateTime 1970} (hy : 2000 ≤ utc.year) (hy' : utc.year ≤ 2099)

include hy hy'

/-- The decoded fields are those of the UTC civil time. -/
theorem gpsDateTime_toNat :
    (gpsDateTime utc).y.toInt = utc.year ∧ (gpsDateTime utc).y.toUInt16.toNat = utc.year ∧
      (gpsDateTime utc).mth.toNat = utc.month ∧ (gpsDateTime utc).d.toNat = utc.day ∧
      (gpsDateTime utc).h.toNat = utc.hour ∧ (gpsDateTime utc).m.toNat = utc.minute ∧
      (gpsDateTime utc).s.toNat = utc.second := by
  have hmonth := utc.isDate.2.1
  have hday := utc.isDate.2.2.2.trans (monthLength_le _ _)
  have := utc.hour_lt
  have := utc.minute_lt
  have := utc.second_lt
  refine ⟨Int16.toInt_ofNat_of_lt (by omega), ?_, toNat_ofNat_of_lt (by omega),
    toNat_ofNat_of_lt (by omega), toNat_ofNat_of_lt (by omega), toNat_ofNat_of_lt (by omega),
    toNat_ofNat_of_lt (by omega)⟩
  exact UInt16.toNat_ofNat_of_lt' (show utc.year < 65536 by omega)

/-- **`time_from_gps` is right at every instant**: the system time is UTC plus the offset, with all
carries. -/
theorem timeFromGps_eq (offset : Int16) :
    timeFromGps offset (gpsDateTime utc) =
      .ofInt (utc.toSeconds + 3600 * offset.toInt) := by
  obtain ⟨hyear, -, hmonth, hday, hh, hminute, hsecond⟩ := gpsDateTime_toNat hy hy'
  rw [timeFromGps, adjustTime, hyear, hmonth, hday, hh, hminute, hsecond,
    setTime_civil utc hy (by omega), uint32OfInt_eq, UInt32.ofInt_add, UInt32.ofInt_mul]
  have hhour : UInt32.ofInt 3600 = secsPerHour := rfl
  rw [ofInt_natCast, hhour, UInt32.mul_comm]

/-- **What the bring-up of `analemma_factory` gets right.** The arguments of `clock.setDateTime`
are a valid date-time that denotes UTC plus the offset, the instant `time_from_gps` obtains, exactly
when the offset leads to an hour of the same day. -/
theorem setSystemTimeFromGPS_iff (offset : Int16) :
    (∃ T : DateTime 1970, Denotes (setSystemTimeFromGPS offset (gpsDateTime utc)) T ∧
        (T.toSeconds : ℤ) = utc.toSeconds + 3600 * offset.toInt ∧
        timeFromGps offset (gpsDateTime utc) = .ofNat T.toSeconds) ↔
      0 ≤ utc.hour + offset.toInt ∧ utc.hour + offset.toInt ≤ 23 := by
  obtain ⟨-, hyear, hmonth, hday, hhour, hminute, hsecond⟩ := gpsDateTime_toNat hy hy'
  constructor
  · rintro ⟨T, hT, hseconds, -⟩
    -- year, month and day are handed through, so the two civil times are on the same day
    have hdate : T.toDate = utc.toDate :=
      Date.ext (hT.year.symm.trans hyear) (hT.month.symm.trans hmonth) (hT.day.symm.trans hday)
    have hm : T.minute = utc.minute := hT.minute.symm.trans hminute
    have hs : T.second = utc.second := hT.second.symm.trans hsecond
    have := T.hour_lt
    unfold DateTime.toSeconds secondOfDay at hseconds
    rw [hdate, hm, hs] at hseconds
    omega
  · rintro ⟨hlow, hhigh⟩
    have hlt : ((utc.hour : ℤ) + offset.toInt).toNat < 24 := by omega
    let T : DateTime 1970 :=
      { utc with hour := ((utc.hour : ℤ) + offset.toInt).toNat, hour_lt := hlt }
    have hseconds : (T.toSeconds : ℤ) = utc.toSeconds + 3600 * offset.toInt := by
      simp only [T, DateTime.toSeconds, secondOfDay]
      omega
    refine ⟨T, ⟨hyear, hmonth, hday, ?_, hminute, hsecond⟩, hseconds, ?_⟩
    · have h := toNat_hourArgument (gpsDateTime utc).h offset
      rw [hhour] at h
      refine h.trans ?_
      rw [Int.emod_eq_of_lt hlow (by omega)]
    · rw [timeFromGps_eq hy hy', ← hseconds]
      exact ofInt_natCast T.toSeconds

end Utc

/-- An hour before midnight of New Year's Day 2000, in a zone one hour ahead. -/
def lateEvening : DateTime 1970 where
  year := 2000
  month := 1
  day := 1
  hour := 23
  minute := 0
  second := 0
  epoch_le := by decide
  isDate := by decide
  hour_lt := by decide
  minute_lt := by decide
  second_lt := by decide

/-- **An hour before midnight the bring-up fails** with the offset 1: the hour that is set is 24. -/
theorem setSystemTimeFromGPS_overflows :
    ¬ ∀ utc : DateTime 1970, 2000 ≤ utc.year → utc.year ≤ 2099 → ∀ offset : Int16,
      -12 ≤ offset.toInt → offset.toInt ≤ 14 →
      ∃ T : DateTime 1970, Denotes (setSystemTimeFromGPS offset (gpsDateTime utc)) T ∧
        (T.toSeconds : ℤ) = utc.toSeconds + 3600 * offset.toInt ∧
        timeFromGps offset (gpsDateTime utc) = .ofNat T.toSeconds := by
  intro h
  obtain ⟨T, hT, -⟩ := h lateEvening (by decide) (by decide) 1 (by decide) (by decide)
  have hhour : T.hour = 24 := hT.hour.symm.trans (by decide)
  have := T.hour_lt
  omega

/-- At noon of that day the same offset is right. -/
theorem setSystemTimeFromGPS_noon :
    let noon : DateTime 1970 := { lateEvening with hour := 12, hour_lt := by decide }
    ∃ T : DateTime 1970, Denotes (setSystemTimeFromGPS 1 (gpsDateTime noon)) T ∧
      (T.toSeconds : ℤ) = noon.toSeconds + 3600 * (1 : Int16).toInt ∧
      timeFromGps 1 (gpsDateTime noon) = .ofNat T.toSeconds :=
  (@setSystemTimeFromGPS_iff { lateEvening with hour := 12, hour_lt := by decide }
    (by decide) (by decide) 1).2 (by decide)

end Factory
