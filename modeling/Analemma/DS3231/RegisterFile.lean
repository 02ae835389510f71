import Analemma.DS3231.AlarmModes

/-!
# Bursts on the bus

The registers of the chip by their addresses. A transmission of the library sends an address and the
bytes for the registers from there on. `setAlarm1` and `setAlarm2` write the registers of their
alarm and nothing else. `setDateTime` sends one byte more than there are registers of the time, the
address again, and so the register of the second of **alarm 1** becomes zero, with its mask.

An alarm that was set before is kept by that exactly when it compares the second with zero
(`keepsAlarm1_iff`). The sketches set the time before the alarms.

The file is a function from addresses, and a view names its parts. The address counter of the chip
comes round after the last register, which is addition on `Fin 19`. What a transmission does is then
found by evaluating `burst`, for every file and all bytes: the results on the alarms are true by
definition, and the one on the time only needs the weekday that is sent.

That the extra byte does harm in one order only is a fact about the sketches and not about the
library: a sketch that sets an alarm and then the time loses the second of it.
-/

namespace DS3231

open Gregorian

/-- The registers `0x00` to `0x12`. -/
abbrev RegisterFile : Type := Fin 19 → UInt8

/-- A transmission: the address counts on after each byte, round the registers. -/
def burst (file : RegisterFile) (address : Fin 19) : List UInt8 → RegisterFile
  | [] => file
  | byte :: bytes => burst (Function.update file address byte) (address + 1) bytes

/-- The registers by what they are for. -/
structure View where
  time : TimeRegisters
  weekday : UInt8
  alarm1 : Alarm1
  alarm2 : Alarm2
  control : UInt8
  status : UInt8
  aging : UInt8
  temperature : UInt8 × UInt8
deriving DecidableEq

/-- `DS3231_REG_TIME`, `DS3231_REG_ALARM_1`, `DS3231_REG_ALARM_2`, `DS3231_REG_CONTROL`,
`DS3231_REG_STATUS` and `DS3231_REG_TEMPERATURE`: the registers at these addresses, and from there
on. -/
def view (file : RegisterFile) : View where
  time :=
    { second := file 0x00
      minute := file 0x01
      hour := file 0x02
      day := file 0x04
      month := file 0x05
      year := file 0x06 }
  weekday := file 0x03
  alarm1 := { second := file 0x07, minute := file 0x08, hour := file 0x09, dydw := file 0x0A }
  alarm2 := { minute := file 0x0B, hour := file 0x0C, dydw := file 0x0D }
  control := file 0x0E
  status := file 0x0F
  aging := file 0x10
  temperature := (file 0x11, file 0x12)

/-! ### The library's transmissions -/

/-- The bytes that `setDateTime` sends to `DS3231_REG_TIME`. The last one is the address again. -/
def setDateTimeBytes (dt : RTCDateTime) : Option (List UInt8) := do
  let dayOfWeek ← dow dt.year dt.month dt.day
  some [dec2bcd dt.second, dec2bcd dt.minute, dec2bcd dt.hour, dec2bcd dayOfWeek, dec2bcd dt.day,
    dec2bcd dt.month, dec2bcd (dt.year - 2000).toUInt8, 0x00]

/-- The bytes that `setAlarm1` sends to `DS3231_REG_ALARM_1`. -/
def setAlarm1Bytes (a : Alarm1) : List UInt8 := [a.second, a.minute, a.hour, a.dydw]

/-- The bytes that `setAlarm2` sends to `DS3231_REG_ALARM_2`. -/
def setAlarm2Bytes (a : Alarm2) : List UInt8 := [a.minute, a.hour, a.dydw]

/-- `setAlarm1` writes the registers of alarm 1, and no others. -/
theorem view_burst_setAlarm1 (file : RegisterFile) (a : Alarm1) :
    view (burst file 0x07 (setAlarm1Bytes a)) = { view file with alarm1 := a } := rfl

theorem view_burst_setAlarm2 (file : RegisterFile) (a : Alarm2) :
    view (burst file 0x0B (setAlarm2Bytes a)) = { view file with alarm2 := a } := rfl

/-- **What `setDateTime` writes**: the time, the weekday, and a byte of alarm 1. -/
theorem view_burst_setDateTime (file : RegisterFile) {dt : RTCDateTime} {bytes : List UInt8}
    (h : setDateTimeBytes dt = some bytes) :
    ∃ dayOfWeek, dow dt.year dt.month dt.day = some dayOfWeek ∧
      view (burst file 0x00 bytes) =
        { view file with
          time := Factory.setDateTime dt
          weekday := dec2bcd dayOfWeek
          alarm1 := { (view file).alarm1 with second := 0 } } := by
  obtain ⟨dayOfWeek, hdow, hbytes⟩ := Option.bind_eq_some_iff.1 h
  rw [← Option.some.inj hbytes]
  exact ⟨dayOfWeek, hdow, rfl⟩

/-! ### Alarm 1 after the time was set -/

theorem isDate_january {k : ℕ} (hk : k < 31) : IsDate 2000 1 (k + 1) :=
  ⟨by decide, by decide, by omega, hk⟩

theorem epoch_le_2000 : 1970 ≤ 2000 := by decide

/-- An instant of January 2000. -/
def january {k hour minute second : ℕ} (hk : k < 31) (hhour : hour < 24) (hminute : minute < 60)
    (hsecond : second < 60) : DateTime 1970 where
  year := 2000
  month := 1
  day := k + 1
  hour := hour
  minute := minute
  second := second
  epoch_le := epoch_le_2000
  isDate := isDate_january hk
  hour_lt := hhour
  minute_lt := hminute
  second_lt := hsecond

section KeepsAlarm1

variable {dydw hour minute second : ℕ} (hdydw : dydw < 32) (hhour : hour < 24)
  (hminute : minute < 60) (hsecond : second < 60)

/-- The first of January 2000 was a Saturday. -/
theorem weekday_january {k : ℕ} (hk : k < 31) :
    weekday (january hk hhour hminute hsecond).toSeconds = (k + 5) % 7 + 1 := by
  have hstart : Date.yearStart 1970 30 = 10957 := by
    rw [Date.yearStart_eq_start]
    decide +kernel
  have hdays : (january hk hhour hminute hsecond).toDays = 10957 + k := by
    rw [Date.toDays_eq]
    simp only [january, Nat.reduceSub, hstart, show Date.monthStart 2000 1 = 0 from rfl]
    omega
  rw [weekday, DateTime.toSeconds_div, hdays]
  omega

include hdydw hhour hminute hsecond in
/-- Every alarm fires in January 2000. -/
theorem exists_says (mode : Alarm1Mode) (hpos : mode.dydw ≠ .ignored → 1 ≤ dydw)
    (hdy : mode = .matchDyHMS → dydw < 8) :
    ∃ t, (firstInstant ≤ t ∧ t < endInstant) ∧ (civil t).second = second ∧
      mode.Says dydw hour minute second t := by
  -- Day `k` of January 2000 is the one that the date or the weekday asks for.
  let k := if mode = .matchDyHMS then (dydw + 1) % 7 else dydw - 1
  have hk : k < 31 := by
    show (if mode = .matchDyHMS then (dydw + 1) % 7 else dydw - 1) < 31
    split <;> omega
  let T := january hk hhour hminute hsecond
  have hcivil : civil T.toSeconds = T := DateTime.ofSeconds_toSeconds T
  refine ⟨T.toSeconds,
    toSeconds_mem_of_year (show 2000 ≤ 2000 by decide) (show 2000 ≤ 2099 by decide),
    by rw [hcivil]; rfl, ?_⟩
  unfold Alarm1Mode.Says
  rw [hcivil]
  cases mode with
  | everySecond => trivial
  | matchS => rfl
  | matchMS => exact ⟨rfl, rfl⟩
  | matchHMS => exact ⟨rfl, rfl, rfl⟩
  | matchDtHMS =>
    have hday : T.day = dydw := Nat.sub_add_cancel (hpos (by decide))
    exact ⟨hday, rfl, rfl, rfl⟩
  | matchDyHMS =>
    have hweekday : weekday T.toSeconds = dydw := by
      have hlt := hdy rfl
      have hone := hpos (by decide)
      rw [weekday_january hhour hminute hsecond hk]
      show ((dydw + 1) % 7 + 5) % 7 + 1 = dydw
      omega
    exact ⟨hweekday, rfl, rfl, rfl⟩

include hdydw hhour hminute hsecond in
/-- **When an alarm survives `setDateTime`**: when it compares the second, with zero. -/
theorem keepsAlarm1_iff {dt : RTCDateTime} {bytes : List UInt8}
    (hbytes : setDateTimeBytes dt = some bytes) {file : RegisterFile} {mode : Alarm1Mode}
    (hpos : mode.dydw ≠ .ignored → 1 ≤ dydw) (hdy : mode = .matchDyHMS → dydw < 8)
    (halarm : (view file).alarm1 =
      setAlarm1 (.ofNat dydw) (.ofNat hour) (.ofNat minute) (.ofNat second) mode) :
    (∀ t, firstInstant ≤ t ∧ t < endInstant →
        ((view (burst file 0x00 bytes)).alarm1.FiresAt t ↔ (view file).alarm1.FiresAt t)) ↔
      mode ≠ .everySecond ∧ second = 0 := by
  obtain ⟨dayOfWeek, -, hview⟩ := view_burst_setDateTime file hbytes
  have hzero : ∀ t, Fires 0 (timeRegisters t).second ↔ (civil t).second = 0 :=
    @fires_second_iff 0 (by decide)
  rw [hview, halarm]
  constructor
  · intro hkeeps
    obtain ⟨t, ht, hsecond', hsays⟩ := exists_says hdydw hhour hminute hsecond mode hpos hdy
    have hfires := (fires_setAlarm1_iff hdydw hhour hminute hsecond t mode hdy).2 hsays
    have hsecondZero := (hzero t).1 ((hkeeps t ht).2 hfires).1
    refine ⟨fun hmode ↦ ?_, hsecond'.symm.trans hsecondZero⟩
    -- an alarm of every second fires at second 1, too
    have hlater := (fires_setAlarm1_iff hdydw hhour hminute hsecond (firstInstant + 1) mode hdy).2
      (by rw [hmode]; trivial)
    exact absurd ((hzero (firstInstant + 1)).1 ((hkeeps _ (by decide)).2 hlater).1) (by decide)
  · rintro ⟨hmode, rfl⟩ t -
    have hregister :
        (setAlarm1 (.ofNat dydw) (.ofNat hour) (.ofNat minute) (.ofNat 0) mode).second = 0 := by
      cases mode with
      | everySecond => exact absurd rfl hmode
      | _ => rfl
    rw [← hregister]

end KeepsAlarm1

/-- The alarm of the hardware trial would not survive, were it set before the time. -/
theorem keepsAlarm1_iff_trial :
    let file := burst (fun _ ↦ 0) 0x07 (setAlarm1Bytes (setAlarm1 0 0 0 10 .matchS))
    ∃ bytes, setDateTimeBytes ⟨2014, 4, 25, 0, 0, 0⟩ = some bytes ∧
      ¬ ∀ t, firstInstant ≤ t ∧ t < endInstant →
        ((view (burst file 0x00 bytes)).alarm1.FiresAt t ↔ (view file).alarm1.FiresAt t) := by
  have hbytes : setDateTimeBytes ⟨2014, 4, 25, 0, 0, 0⟩ =
      some [0x00, 0x00, 0x00, 0x05, 0x25, 0x04, 0x14, 0x00] := by decide
  refine ⟨_, hbytes, ?_⟩
  rw [@keepsAlarm1_iff 0 0 0 10 (by decide) (by decide) (by decide) (by decide) _ _ hbytes _
    .matchS (fun h ↦ absurd rfl h) (fun h ↦ absurd h (by decide)) rfl]
  decide

end DS3231
