import Analemma.DS3231.Calendar

/-!
# The modes of the alarms

All modes of `setAlarm1` and `setAlarm2`, of which the sketches of the hatch use one each, and the
hardware trial `d3231` a third one. A mode says of each alarm register whether the chip compares it
with the clock; the register of the day can be compared with the day of the week instead.

Every mode fires at the instants that its name says (`fires_as_named`).
What the library reads back is right for some of the alarms only: `getAlarmType1` decodes the mask
bits together with the decimals, so it is wrong where a register that is not compared holds a large
number (`getAlarmType1_eq_iff`).

A register of an alarm has seven bits of decimals and a mask bit; that of the day uses one more bit
to select the weekday. `Compare` is this choice, and `Compare.register` the one place where the bits
are set, so that each mode is a choice for each register and nothing else. `Says` spells out what
the name of each enumerator means, in civil time, and knows nothing of registers.

The results on reading back are equivalences with conditions on the arguments: they tell exactly for
which alarms the library's own decoding goes wrong. The sketches of the hatch do not read an alarm
back.
-/

namespace DS3231

open Gregorian

/-! ### Registers -/

/-- What a mode does with an alarm register: it is not compared, or with the clock's register of the
same kind, or with that of the weekday. -/
inductive Compare where
  | ignored
  | clock
  | weekday
deriving DecidableEq, Repr

/-- The register of the number `n`: the top bit is the mask, the next one selects the weekday, and
the rest are the decimals. -/
def Compare.register (compare : Compare) (n : UInt8) : UInt8 :=
  match compare with
  | .ignored => dec2bcd n ||| 0b10000000
  | .clock => dec2bcd n &&& 0b01111111
  | .weekday => (dec2bcd n &&& 0b01111111) ||| 0b01000000

/-- What the chip compares an alarm register with: the register of the clock. -/
def Fires (register now : UInt8) : Prop :=
  register &&& 0b10000000 ≠ 0 ∨ register &&& 0b01111111 = now

/-- The register of the day is compared with that of the date or with that of the weekday. -/
def DayFires (register day weekday : UInt8) : Prop :=
  register &&& 0b10000000 ≠ 0 ∨
    if register &&& 0b01000000 ≠ 0 then register &&& 0b00001111 = weekday
    else register &&& 0b00111111 = day

instance (register now : UInt8) : Decidable (Fires register now) :=
  inferInstanceAs (Decidable (_ ∨ _))

instance (register day weekday : UInt8) : Decidable (DayFires register day weekday) :=
  inferInstanceAs (Decidable (_ ∨ _))

/-! ### The modes -/

/-- `DS3231_alarm1_t`. -/
inductive Alarm1Mode where
  | everySecond
  | matchS
  | matchMS
  | matchHMS
  | matchDtHMS
  | matchDyHMS
deriving DecidableEq, Repr

/-- `DS3231_alarm2_t`. -/
inductive Alarm2Mode where
  | everyMinute
  | matchM
  | matchHM
  | matchDtHM
  | matchDyHM
deriving DecidableEq, Repr

namespace Alarm1Mode

/-- The value of the enumerator. -/
def value : Alarm1Mode → UInt8
  | everySecond => 0b00001111
  | matchS => 0b00001110
  | matchMS => 0b00001100
  | matchHMS => 0b00001000
  | matchDtHMS => 0b00000000
  | matchDyHMS => 0b00010000

/-- The second. -/
def second : Alarm1Mode → Compare
  | everySecond => .ignored
  | _ => .clock

/-- The minute. -/
def minute : Alarm1Mode → Compare
  | everySecond | matchS => .ignored
  | _ => .clock

/-- The hour. -/
def hour : Alarm1Mode → Compare
  | everySecond | matchS | matchMS => .ignored
  | _ => .clock

/-- The day. -/
def dydw : Alarm1Mode → Compare
  | matchDtHMS => .clock
  | matchDyHMS => .weekday
  | _ => .ignored

end Alarm1Mode

namespace Alarm2Mode

/-- The value of the enumerator. -/
def value : Alarm2Mode → UInt8
  | everyMinute => 0b00001110
  | matchM => 0b00001100
  | matchHM => 0b00001000
  | matchDtHM => 0b00000000
  | matchDyHM => 0b00010000

/-- The minute. -/
def minute : Alarm2Mode → Compare
  | everyMinute => .ignored
  | _ => .clock

/-- The hour. -/
def hour : Alarm2Mode → Compare
  | everyMinute | matchM => .ignored
  | _ => .clock

/-- The day. -/
def dydw : Alarm2Mode → Compare
  | matchDtHM => .clock
  | matchDyHM => .weekday
  | _ => .ignored

end Alarm2Mode

/-- The registers `setAlarm1` writes: four numbers, each with the bits of its mode. -/
def setAlarm1 (dydw hour minute second : UInt8) (mode : Alarm1Mode) : Alarm1 where
  second := mode.second.register second
  minute := mode.minute.register minute
  hour := mode.hour.register hour
  dydw := mode.dydw.register dydw

/-- The registers `setAlarm2` writes: three, for it has no seconds. -/
def setAlarm2 (dydw hour minute : UInt8) (mode : Alarm2Mode) : Alarm2 where
  minute := mode.minute.register minute
  hour := mode.hour.register hour
  dydw := mode.dydw.register dydw

/-- The registers of the sketches of the hatch. -/
theorem setAlarm1_matchDtHMS (dydw hour minute second : UInt8) :
    setAlarm1 dydw hour minute second .matchDtHMS = alarm1Registers dydw hour minute second := rfl

theorem setAlarm2_matchDtHM (dydw hour minute : UInt8) :
    setAlarm2 dydw hour minute .matchDtHM = alarm2Registers dydw hour minute := rfl

/-! ### When an alarm fires -/

/-- The weekday register, while it is right. -/
def weekdayRegister (t : ℕ) : UInt8 := dec2bcd (.ofNat (weekday t))

/-- Alarm 1 fires at the instant `t`. -/
def Alarm1.FiresAt (a : Alarm1) (t : ℕ) : Prop :=
  Fires a.second (timeRegisters t).second ∧ Fires a.minute (timeRegisters t).minute ∧
    Fires a.hour (timeRegisters t).hour ∧ DayFires a.dydw (timeRegisters t).day (weekdayRegister t)

/-- Alarm 2 fires at the instant `t`, at second 0. -/
def Alarm2.FiresAt (a : Alarm2) (t : ℕ) : Prop :=
  (timeRegisters t).second = 0 ∧ Fires a.minute (timeRegisters t).minute ∧
    Fires a.hour (timeRegisters t).hour ∧ DayFires a.dydw (timeRegisters t).day (weekdayRegister t)

/-- A register that is not compared has its mask bit set. -/
theorem ignored_and : ∀ n < 100, Compare.ignored.register (.ofNat n) &&& 0b10000000 ≠ 0 := by
  decide +kernel

/-- One that is compared has not, and holds its number. -/
theorem clock_and : ∀ n < 80, Compare.clock.register (.ofNat n) &&& 0b10000000 = 0 ∧
    Compare.clock.register (.ofNat n) &&& 0b01111111 = dec2bcd (.ofNat n) := by
  decide +kernel

/-- The day of the month leaves the bit of the weekday alone. -/
theorem clock_and_of_day : ∀ n < 32, Compare.clock.register (.ofNat n) &&& 0b01000000 = 0 ∧
    Compare.clock.register (.ofNat n) &&& 0b00111111 = dec2bcd (.ofNat n) := by
  decide +kernel

/-- The day of the week sets it, and holds its number in the low digits. -/
theorem weekday_and : ∀ n < 8, Compare.weekday.register (.ofNat n) &&& 0b10000000 = 0 ∧
    Compare.weekday.register (.ofNat n) &&& 0b01000000 ≠ 0 ∧
    Compare.weekday.register (.ofNat n) &&& 0b00001111 = dec2bcd (.ofNat n) := by
  decide +kernel

/-- A register that is not compared never keeps an alarm from firing. -/
theorem fires_ignored {n : ℕ} (hn : n < 100) (now : UInt8) :
    Fires (Compare.ignored.register (.ofNat n)) now := .inl (ignored_and n hn)

/-- One that is compared does, unless the clock shows its number. -/
theorem fires_clock_iff {m n : ℕ} (hn : n < 80) (hm : m < 100) :
    Fires (Compare.clock.register (.ofNat n)) (dec2bcd (.ofNat m)) ↔ m = n := by
  obtain ⟨hmask, hdigits⟩ := clock_and n hn
  rw [Fires, hmask, hdigits, dec2bcd_ofNat_inj (by omega) hm, eq_comm (a := n)]
  exact or_iff_right fun h ↦ h rfl

theorem dayFires_ignored {n : ℕ} (hn : n < 100) (day weekday : UInt8) :
    DayFires (Compare.ignored.register (.ofNat n)) day weekday := .inl (ignored_and n hn)

/-- The day of the month is compared with the date. -/
theorem dayFires_clock_iff {m n : ℕ} (hn : n < 32) (hm : m < 100) (weekday : UInt8) :
    DayFires (Compare.clock.register (.ofNat n)) (dec2bcd (.ofNat m)) weekday ↔ m = n := by
  obtain ⟨hselect, hdigits⟩ := clock_and_of_day n hn
  rw [DayFires, (clock_and n (by omega)).1, hselect, hdigits, if_neg fun h ↦ h rfl,
    dec2bcd_ofNat_inj (by omega) hm, eq_comm (a := n)]
  exact or_iff_right fun h ↦ h rfl

/-- The day of the week is compared with the weekday. -/
theorem dayFires_weekday_iff {m n : ℕ} (hn : n < 8) (hm : m < 100) (day : UInt8) :
    DayFires (Compare.weekday.register (.ofNat n)) day (dec2bcd (.ofNat m)) ↔ m = n := by
  obtain ⟨hmask, hselect, hdigits⟩ := weekday_and n hn
  rw [DayFires, hmask, hdigits, if_pos hselect, dec2bcd_ofNat_inj (by omega) hm,
    eq_comm (a := n)]
  exact or_iff_right fun h ↦ h rfl

/-- What the name of a mode says about an instant. -/
def Alarm1Mode.Says (mode : Alarm1Mode) (dydw hour minute second t : ℕ) : Prop :=
  match mode with
  | everySecond => True
  | matchS => (civil t).second = second
  | matchMS => (civil t).minute = minute ∧ (civil t).second = second
  | matchHMS => (civil t).hour = hour ∧ (civil t).minute = minute ∧ (civil t).second = second
  | matchDtHMS =>
    (civil t).day = dydw ∧ (civil t).hour = hour ∧ (civil t).minute = minute ∧
      (civil t).second = second
  | matchDyHMS =>
    weekday t = dydw ∧ (civil t).hour = hour ∧ (civil t).minute = minute ∧
      (civil t).second = second

/-- What the name of a mode says about an instant; alarm 2 has no seconds, and fires at second 0. -/
def Alarm2Mode.Says (mode : Alarm2Mode) (dydw hour minute t : ℕ) : Prop :=
  (civil t).second = 0 ∧
    match mode with
    | everyMinute => True
    | matchM => (civil t).minute = minute
    | matchHM => (civil t).hour = hour ∧ (civil t).minute = minute
    | matchDtHM => (civil t).day = dydw ∧ (civil t).hour = hour ∧ (civil t).minute = minute
    | matchDyHM => weekday t = dydw ∧ (civil t).hour = hour ∧ (civil t).minute = minute

section Fires

variable {dydw hour minute second : ℕ} (hdydw : dydw < 32) (hhour : hour < 24)
  (hminute : minute < 60) (hsecond : second < 60) (t : ℕ)

include hminute in
theorem fires_minute_iff :
    Fires (Compare.clock.register (.ofNat minute)) (timeRegisters t).minute ↔
      (civil t).minute = minute :=
  fires_clock_iff (by omega) ((civil t).minute_lt.trans (by decide))

include hsecond in
theorem fires_second_iff :
    Fires (Compare.clock.register (.ofNat second)) (timeRegisters t).second ↔
      (civil t).second = second :=
  fires_clock_iff (by omega) ((civil t).second_lt.trans (by decide))

include hhour in
theorem fires_hour_iff :
    Fires (Compare.clock.register (.ofNat hour)) (timeRegisters t).hour ↔ (civil t).hour = hour :=
  fires_clock_iff (by omega) ((civil t).hour_lt.trans (by decide))

include hdydw in
theorem dayFires_day_iff :
    DayFires (Compare.clock.register (.ofNat dydw)) (timeRegisters t).day (weekdayRegister t) ↔
      (civil t).day = dydw := by
  have hday := (civil t).isDate.2.2.2.trans (monthLength_le _ _)
  exact dayFires_clock_iff hdydw (by omega) _

/-- The day of the week, at an instant, as long as its register is right. -/
theorem dayFires_weekdayRegister_iff (hweekday : dydw < 8) :
    DayFires (Compare.weekday.register (.ofNat dydw)) (timeRegisters t).day (weekdayRegister t) ↔
      weekday t = dydw := by
  have hle := weekday_le t
  exact dayFires_weekday_iff hweekday (by omega) _

include hdydw hhour hminute hsecond in
/-- The modes of alarm 1, one by one: the registers that are compared give the conditions that the
name of the mode has. -/
theorem fires_setAlarm1_iff (mode : Alarm1Mode) (hdy : mode = .matchDyHMS → dydw < 8) :
    (setAlarm1 (.ofNat dydw) (.ofNat hour) (.ofNat minute) (.ofNat second) mode).FiresAt t ↔
      mode.Says dydw hour minute second t := by
  have hs := fires_second_iff hsecond t
  have hm := fires_minute_iff hminute t
  have hh := fires_hour_iff hhour t
  have hd := dayFires_day_iff hdydw t
  have hm' := fires_ignored (show minute < 100 by omega) (timeRegisters t).minute
  have hh' := fires_ignored (show hour < 100 by omega) (timeRegisters t).hour
  have hd' := dayFires_ignored (show dydw < 100 by omega) (timeRegisters t).day (weekdayRegister t)
  unfold Alarm1.FiresAt setAlarm1 Alarm1Mode.Says
  -- Each mode compares the registers without a mask bit; the masked ones agree with everything.
  cases mode with
  | everySecond =>
    have hs' := fires_ignored (show second < 100 by omega) (timeRegisters t).second
    exact iff_of_true ⟨hs', hm', hh', hd'⟩ trivial
  | matchS => exact ⟨fun h ↦ hs.1 h.1, fun h ↦ ⟨hs.2 h, hm', hh', hd'⟩⟩
  | matchMS => exact ⟨fun h ↦ ⟨hm.1 h.2.1, hs.1 h.1⟩, fun h ↦ ⟨hs.2 h.2, hm.2 h.1, hh', hd'⟩⟩
  | matchHMS =>
    exact ⟨fun h ↦ ⟨hh.1 h.2.2.1, hm.1 h.2.1, hs.1 h.1⟩,
      fun h ↦ ⟨hs.2 h.2.2, hm.2 h.2.1, hh.2 h.1, hd'⟩⟩
  | matchDtHMS =>
    exact ⟨fun h ↦ ⟨hd.1 h.2.2.2, hh.1 h.2.2.1, hm.1 h.2.1, hs.1 h.1⟩,
      fun h ↦ ⟨hs.2 h.2.2.2, hm.2 h.2.2.1, hh.2 h.2.1, hd.2 h.1⟩⟩
  | matchDyHMS =>
    have hw := dayFires_weekdayRegister_iff t (hdy rfl)
    exact ⟨fun h ↦ ⟨hw.1 h.2.2.2, hh.1 h.2.2.1, hm.1 h.2.1, hs.1 h.1⟩,
      fun h ↦ ⟨hs.2 h.2.2.2, hm.2 h.2.2.1, hh.2 h.2.1, hw.2 h.1⟩⟩

include hdydw hhour hminute in
/-- The modes of alarm 2, with the second zero beside them. -/
theorem fires_setAlarm2_iff (mode : Alarm2Mode) (hdy : mode = .matchDyHM → dydw < 8) :
    (setAlarm2 (.ofNat dydw) (.ofNat hour) (.ofNat minute) mode).FiresAt t ↔
      mode.Says dydw hour minute t := by
  have hzero : (timeRegisters t).second = 0 ↔ (civil t).second = 0 :=
    dec2bcd_eq_zero_iff ((civil t).second_lt.trans (by decide))
  have hm := fires_minute_iff hminute t
  have hh := fires_hour_iff hhour t
  have hd := dayFires_day_iff hdydw t
  have hh' := fires_ignored (show hour < 100 by omega) (timeRegisters t).hour
  have hd' := dayFires_ignored (show dydw < 100 by omega) (timeRegisters t).day (weekdayRegister t)
  unfold Alarm2.FiresAt setAlarm2 Alarm2Mode.Says
  refine and_congr hzero ?_
  cases mode with
  | everyMinute =>
    have hm' := fires_ignored (show minute < 100 by omega) (timeRegisters t).minute
    exact iff_of_true ⟨hm', hh', hd'⟩ trivial
  | matchM => exact ⟨fun h ↦ hm.1 h.1, fun h ↦ ⟨hm.2 h, hh', hd'⟩⟩
  | matchHM => exact ⟨fun h ↦ ⟨hh.1 h.2.1, hm.1 h.1⟩, fun h ↦ ⟨hm.2 h.2, hh.2 h.1, hd'⟩⟩
  | matchDtHM =>
    exact ⟨fun h ↦ ⟨hd.1 h.2.2, hh.1 h.2.1, hm.1 h.1⟩,
      fun h ↦ ⟨hm.2 h.2.2, hh.2 h.2.1, hd.2 h.1⟩⟩
  | matchDyHM =>
    have hw := dayFires_weekdayRegister_iff t (hdy rfl)
    exact ⟨fun h ↦ ⟨hw.1 h.2.2, hh.1 h.2.1, hm.1 h.1⟩,
      fun h ↦ ⟨hm.2 h.2.2, hh.2 h.2.1, hw.2 h.1⟩⟩

include hdydw hhour hminute hsecond in
/-- **Every mode fires at the instants that its name says**, of both alarms. -/
theorem fires_as_named :
    (∀ mode : Alarm1Mode, (mode = .matchDyHMS → dydw < 8) →
        ((setAlarm1 (.ofNat dydw) (.ofNat hour) (.ofNat minute) (.ofNat second) mode).FiresAt t ↔
          mode.Says dydw hour minute second t)) ∧
      ∀ mode : Alarm2Mode, (mode = .matchDyHM → dydw < 8) →
        ((setAlarm2 (.ofNat dydw) (.ofNat hour) (.ofNat minute) mode).FiresAt t ↔
          mode.Says dydw hour minute t) :=
  ⟨fun mode hdy ↦ fires_setAlarm1_iff hdydw hhour hminute hsecond t mode hdy,
    fun mode hdy ↦ fires_setAlarm2_iff hdydw hhour hminute t mode hdy⟩

end Fires

/-- The alarm of the hardware trial, once a minute at second 10. -/
theorem fires_as_named_trial : (setAlarm1 0 0 0 10 .matchS).FiresAt 946684810 :=
  ((@fires_as_named 0 0 0 10 (by decide) (by decide) (by decide) (by decide) 946684810).1 .matchS
    fun h ↦ absurd h (by decide)).2 (show (civil 946684810).second = 10 from rfl)

/-- A masked register is compared as it stands. -/
theorem fires_clock (n now : UInt8) :
    Fires (Compare.clock.register n) now ↔ Compare.clock.register n = now := by
  have hbits : ∀ n < 256, Compare.clock.register (.ofNat n) &&& 0b10000000 = 0 ∧
      Compare.clock.register (.ofNat n) &&& 0b01111111 = Compare.clock.register (.ofNat n) := by
    decide +kernel
  obtain ⟨hmask, hdigits⟩ := hbits n.toNat n.toNat_lt
  rw [UInt8.ofNat_toNat] at hmask hdigits
  rw [Fires, hmask, hdigits]
  exact or_iff_right fun h ↦ h rfl

/-- **In the mode of the hatch** alarm 1 fires when its registers are those of the clock. -/
theorem alarm1Registers_firesAt_iff {dydw : ℕ} (hdydw : dydw < 32) (hour minute second : UInt8)
    (t : ℕ) : (alarm1Registers (.ofNat dydw) hour minute second).FiresAt t ↔
      (alarm1Registers (.ofNat dydw) hour minute second).Matches t := by
  rw [← setAlarm1_matchDtHMS]
  have hday := (civil t).isDate.2.2.2.trans (monthLength_le _ _)
  refine and_congr (fires_clock second _) (and_congr (fires_clock minute _)
    (and_congr (fires_clock hour _) ?_))
  exact (dayFires_day_iff hdydw t).trans
    ((eq_comm.trans (masked_eq_iff (by omega) (show (civil t).day < 100 by omega)).symm))

/-- Alarm 2 in the mode of the hatch. -/
theorem alarm2Registers_firesAt_iff {dydw : ℕ} (hdydw : dydw < 32) (hour minute : UInt8) (t : ℕ) :
    (alarm2Registers (.ofNat dydw) hour minute).FiresAt t ↔
      (alarm2Registers (.ofNat dydw) hour minute).Matches t := by
  rw [← setAlarm2_matchDtHM]
  have hday := (civil t).isDate.2.2.2.trans (monthLength_le _ _)
  refine and_congr Iff.rfl (and_congr (fires_clock minute _) (and_congr (fires_clock hour _) ?_))
  exact (dayFires_day_iff hdydw t).trans
    ((eq_comm.trans (masked_eq_iff (by omega) (show (civil t).day < 100 by omega)).symm))

/-! ### Reading an alarm back -/

/-- `RTCAlarmTime`. -/
structure RTCAlarmTime where
  day : UInt8
  hour : UInt8
  minute : UInt8
  second : UInt8
deriving DecidableEq, Repr

/-- `getAlarm1`. -/
def getAlarm1 (a : Alarm1) : RTCAlarmTime where
  day := bcd2dec (a.dydw &&& 0b01111111)
  hour := bcd2dec (a.hour &&& 0b01111111)
  minute := bcd2dec (a.minute &&& 0b01111111)
  second := bcd2dec (a.second &&& 0b01111111)

/-- `getAlarm2`. -/
def getAlarm2 (a : Alarm2) : RTCAlarmTime where
  day := bcd2dec (a.dydw &&& 0b01111111)
  hour := bcd2dec (a.hour &&& 0b01111111)
  minute := bcd2dec (a.minute &&& 0b01111111)
  second := 0

/-- `getAlarmType1`, which decodes the registers before it looks at their bits. -/
def getAlarmType1 (a : Alarm1) : UInt8 :=
  (bcd2dec a.second &&& 0b01000000) >>> 6 ||| (bcd2dec a.minute &&& 0b01000000) >>> 5 |||
    (bcd2dec a.hour &&& 0b01000000) >>> 4 ||| (bcd2dec a.dydw &&& 0b01000000) >>> 3 |||
    (bcd2dec a.dydw &&& 0b00100000) >>> 1

/-- `getAlarmType2`. -/
def getAlarmType2 (a : Alarm2) : UInt8 :=
  (bcd2dec a.minute &&& 0b01000000) >>> 5 ||| (bcd2dec a.hour &&& 0b01000000) >>> 4 |||
    (bcd2dec a.dydw &&& 0b01000000) >>> 3 ||| (bcd2dec a.dydw &&& 0b00100000) >>> 1

/-- A bit that is set or not. -/
def bit (isSet : Bool) (value : UInt8) : UInt8 := if isSet then value else 0

/-- The bits of a mode: the registers that are ignored, and whether the weekday is selected. -/
def modeBits (second minute hour dydw weekday : Bool) : UInt8 :=
  bit second 0b01000000 >>> 6 ||| bit minute 0b01000000 >>> 5 ||| bit hour 0b01000000 >>> 4 |||
    bit dydw 0b01000000 >>> 3 ||| bit weekday 0b00100000 >>> 1

theorem modeBits_inj : ∀ s m h d w s' m' h' d' w' : Bool,
    modeBits s m h d w = modeBits s' m' h' d' w' ↔
      s = s' ∧ m = m' ∧ h = h' ∧ d = d' ∧ w = w' := by
  decide +kernel

/-- An enumerator of alarm 1 is the bits of its mode. -/
theorem Alarm1Mode.value_eq (mode : Alarm1Mode) :
    mode.value = modeBits (mode.second = .ignored) (mode.minute = .ignored) (mode.hour = .ignored)
      (mode.dydw = .ignored) (mode.dydw = .weekday) := by
  cases mode <;> rfl

/-- And so is one of alarm 2, which has no bit for the second. -/
theorem Alarm2Mode.value_eq (mode : Alarm2Mode) :
    mode.value = modeBits false (mode.minute = .ignored) (mode.hour = .ignored)
      (mode.dydw = .ignored) (mode.dydw = .weekday) := by
  cases mode <;> rfl

/-- A mask bit, decoded as a decimal, counts 80. Up to 47 that sets the bit that is looked at. -/
theorem bcd2dec_register_mask (compare : Compare) : ∀ n < 60, (compare = .weekday → n < 8) →
    bcd2dec (compare.register (.ofNat n)) &&& 0b01000000 =
      bit (decide (compare = .ignored) && decide (n < 48)) 0b01000000 := by
  cases compare <;> decide +kernel

/-- From 16 on it sets the bit of the weekday, too. -/
theorem bcd2dec_register_weekday (compare : Compare) : ∀ n < 32, (compare = .weekday → n < 8) →
    bcd2dec (compare.register (.ofNat n)) &&& 0b00100000 =
      bit (decide (compare = .weekday) || decide (compare = .ignored) && decide (16 ≤ n))
        0b00100000 := by
  cases compare <;> decide +kernel

/-- The digits of a register; the bit of the weekday counts 40. -/
theorem bcd2dec_register_and (compare : Compare) : ∀ n < 60, (compare = .weekday → n < 8) →
    bcd2dec (compare.register (.ofNat n) &&& 0b01111111) =
      if compare = .weekday then .ofNat (n + 40) else .ofNat n := by
  cases compare <;> decide +kernel

/-- A day with the bit of the weekday decoded into it is another day. -/
theorem ofNat_add_forty_ne {n : ℕ} (hn : n < 32) : UInt8.ofNat (n + 40) ≠ .ofNat n := by
  intro h
  have hday := congrArg UInt8.toNat h
  rw [TimeLib.toNat_ofNat_of_lt (by omega), TimeLib.toNat_ofNat_of_lt (by omega)] at hday
  omega

/-- Bits that are right where they are set, against the bits of a mode that does not ignore the day
it selects the weekday for. -/
theorem modeBits_eq_iff {s m h d w s' m' h' d' w' : Prop} [Decidable s] [Decidable m] [Decidable h]
    [Decidable d] [Decidable w] [Decidable s'] [Decidable m'] [Decidable h'] [Decidable d']
    [Decidable w'] (hw : d → ¬ w) :
    modeBits (decide s && decide s') (decide m && decide m') (decide h && decide h')
          (decide d && decide d') (decide w || decide d && decide w') =
        modeBits (decide s) (decide m) (decide h) (decide d) (decide w) ↔
      (s → s') ∧ (m → m') ∧ (h → h') ∧ (d → d' ∧ ¬ w') := by
  rw [modeBits_inj]
  simp only [← Bool.decide_and, ← Bool.decide_or, decide_eq_decide]
  grind

section ReadBack

variable {dydw hour minute second : ℕ} (hdydw : dydw < 32) (hhour : hour < 24)
  (hminute : minute < 60) (hsecond : second < 60)

include hdydw hhour hminute hsecond in
/-- **When `getAlarmType1` tells the mode**: where it ignores the second or the minute, these are
below 48, and where it ignores the day, that is below 16. -/
theorem getAlarmType1_eq_iff (mode : Alarm1Mode) (hdy : mode = .matchDyHMS → dydw < 8) :
    getAlarmType1 (setAlarm1 (.ofNat dydw) (.ofNat hour) (.ofNat minute) (.ofNat second) mode) =
        mode.value ↔
      (mode.second = .ignored → second < 48) ∧ (mode.minute = .ignored → minute < 48) ∧
        (mode.dydw = .ignored → dydw < 16) := by
  have hweekday : mode.dydw = .weekday → dydw < 8 := fun h ↦ hdy (by cases mode <;> trivial)
  have hclock : mode.second ≠ .weekday ∧ mode.minute ≠ .weekday ∧ mode.hour ≠ .weekday := by
    cases mode <;> decide
  rw [getAlarmType1, setAlarm1,
    bcd2dec_register_mask _ second hsecond fun h ↦ absurd h hclock.1,
    bcd2dec_register_mask _ minute hminute fun h ↦ absurd h hclock.2.1,
    bcd2dec_register_mask _ hour (by omega) fun h ↦ absurd h hclock.2.2,
    bcd2dec_register_mask _ dydw (by omega) hweekday,
    bcd2dec_register_weekday _ dydw hdydw hweekday, mode.value_eq]
  refine (modeBits_eq_iff fun h ↦ ?_).trans ?_
  · rw [h]
    decide
  · exact ⟨fun h ↦ ⟨h.1, h.2.1, fun hd ↦ Nat.lt_of_not_le (h.2.2.2 hd).2⟩, fun h ↦
      ⟨h.1, h.2.1, fun _ ↦ by omega, fun hd ↦ ⟨by omega, Nat.not_le_of_lt (h.2.2 hd)⟩⟩⟩

include hdydw hhour hminute in
/-- **When `getAlarmType2` tells the mode**: as for alarm 1, with no second to go wrong. -/
theorem getAlarmType2_eq_iff (mode : Alarm2Mode) (hdy : mode = .matchDyHM → dydw < 8) :
    getAlarmType2 (setAlarm2 (.ofNat dydw) (.ofNat hour) (.ofNat minute) mode) = mode.value ↔
      (mode.minute = .ignored → minute < 48) ∧ (mode.dydw = .ignored → dydw < 16) := by
  have hweekday : mode.dydw = .weekday → dydw < 8 := fun h ↦ hdy (by cases mode <;> trivial)
  have hclock : mode.minute ≠ .weekday ∧ mode.hour ≠ .weekday := by cases mode <;> decide
  -- alarm 2 has no register of the second that could be ignored
  have hsecond : ∀ m h d w, bit m 0b01000000 >>> 5 ||| bit h 0b01000000 >>> 4 |||
      bit d 0b01000000 >>> 3 ||| bit w 0b00100000 >>> 1 =
        modeBits (decide False && decide True) m h d w := by
    decide
  rw [getAlarmType2, setAlarm2,
    bcd2dec_register_mask _ minute hminute fun h ↦ absurd h hclock.1,
    bcd2dec_register_mask _ hour (by omega) fun h ↦ absurd h hclock.2,
    bcd2dec_register_mask _ dydw (by omega) hweekday,
    bcd2dec_register_weekday _ dydw hdydw hweekday, mode.value_eq, hsecond]
  refine (modeBits_eq_iff fun h ↦ ?_).trans ?_
  · rw [h]
    decide
  · exact ⟨fun h ↦ ⟨h.2.1, fun hd ↦ Nat.lt_of_not_le (h.2.2.2 hd).2⟩, fun h ↦
      ⟨False.elim, h.1, fun _ ↦ by omega, fun hd ↦ ⟨by omega, Nat.not_le_of_lt (h.2 hd)⟩⟩⟩

include hdydw hhour hminute hsecond in
/-- **When `getAlarm1` returns what was set**: in all modes but that of the weekday. -/
theorem getAlarm1_eq_iff (mode : Alarm1Mode) (hdy : mode = .matchDyHMS → dydw < 8) :
    getAlarm1 (setAlarm1 (.ofNat dydw) (.ofNat hour) (.ofNat minute) (.ofNat second) mode) =
        { day := .ofNat dydw, hour := .ofNat hour, minute := .ofNat minute
          second := .ofNat second } ↔
      mode ≠ .matchDyHMS := by
  have hweekday : mode.dydw = .weekday ↔ mode = .matchDyHMS := by cases mode <;> decide
  have hclock : mode.second ≠ .weekday ∧ mode.minute ≠ .weekday ∧ mode.hour ≠ .weekday := by
    cases mode <;> decide
  rw [getAlarm1, setAlarm1,
    bcd2dec_register_and _ second hsecond fun h ↦ absurd h hclock.1, if_neg hclock.1,
    bcd2dec_register_and _ minute hminute fun h ↦ absurd h hclock.2.1, if_neg hclock.2.1,
    bcd2dec_register_and _ hour (by omega) fun h ↦ absurd h hclock.2.2, if_neg hclock.2.2,
    bcd2dec_register_and _ dydw (by omega) fun h ↦ hdy (hweekday.1 h)]
  by_cases hmode : mode = .matchDyHMS
  · rw [if_pos (hweekday.2 hmode)]
    exact iff_of_false (fun h ↦ ofNat_add_forty_ne hdydw (congrArg RTCAlarmTime.day h))
      fun h ↦ h hmode
  · rw [if_neg (fun h ↦ hmode (hweekday.1 h))]
    exact iff_of_true rfl hmode

include hdydw hhour hminute in
/-- **When `getAlarm2` returns what was set**, with second 0: like `getAlarm1`, in all modes but
that of the weekday, in which the bit that selects it is decoded as a digit. -/
theorem getAlarm2_eq_iff (mode : Alarm2Mode) (hdy : mode = .matchDyHM → dydw < 8) :
    getAlarm2 (setAlarm2 (.ofNat dydw) (.ofNat hour) (.ofNat minute) mode) =
        { day := .ofNat dydw, hour := .ofNat hour, minute := .ofNat minute, second := 0 } ↔
      mode ≠ .matchDyHM := by
  have hweekday : mode.dydw = .weekday ↔ mode = .matchDyHM := by cases mode <;> decide
  have hclock : mode.minute ≠ .weekday ∧ mode.hour ≠ .weekday := by cases mode <;> decide
  rw [getAlarm2, setAlarm2,
    bcd2dec_register_and _ minute hminute fun h ↦ absurd h hclock.1, if_neg hclock.1,
    bcd2dec_register_and _ hour (by omega) fun h ↦ absurd h hclock.2, if_neg hclock.2,
    bcd2dec_register_and _ dydw (by omega) fun h ↦ hdy (hweekday.1 h)]
  by_cases hmode : mode = .matchDyHM
  · rw [if_pos (hweekday.2 hmode)]
    exact iff_of_false (fun h ↦ ofNat_add_forty_ne hdydw (congrArg RTCAlarmTime.day h))
      fun h ↦ h hmode
  · rw [if_neg (fun h ↦ hmode (hweekday.1 h))]
    exact iff_of_true rfl hmode

end ReadBack

/-- An alarm of every second that was written with second 50 is read back as another mode. -/
theorem getAlarmType1_eq_iff_fifty :
    getAlarmType1 (setAlarm1 0 0 0 50 .everySecond) ≠ Alarm1Mode.everySecond.value :=
  (@getAlarmType1_eq_iff 0 0 0 50 (by decide) (by decide) (by decide) (by decide) .everySecond
    (fun h ↦ absurd h (by decide))).not.2 (by decide)

end DS3231
