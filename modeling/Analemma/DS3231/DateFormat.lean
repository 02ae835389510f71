import Analemma.DS3231.Calendar
import Analemma.Foundation.Decimal

/-!
# The line about the clock

`refreshDate` prints what it read from the clock, with the library's `dateFormat`: every character
of a format stands for a text, and the texts are appended to each other in a buffer of 255 bytes.

A format of up to 25 characters always fits (`dateFormat_isSome`), whatever it asks for. The format
of the sketches prints the civil time and the day of the week, at every instant after the clock was
set (`rtcLine_weekdayAfter`), and different instants give different lines.

`formatted` is the `switch` of the library, one case for each character in its order, and a
character that is none of them stands for itself. A case that reads a table or the second count may
have no outcome; the rest are total. The buffer appears as the list of what has been appended, and a
text that would fill its last byte has no outcome either.

`25` comes from the texts being at most ten characters long (`short_formatted`). It is not the exact
bound for any one format, and the format of the sketches has 15 characters.
-/

namespace DS3231

open Gregorian Decimal

/-! ### The fields that are printed -/

/-- `RTCDateTime` with all its fields. The count of seconds is missing after an overflow. -/
structure FullDateTime extends RTCDateTime where
  dayOfWeek : UInt8
  unixtime : Option UInt32
deriving DecidableEq, Repr

/-- `getDateTime` with all fields: the weekday is in a register of its own. -/
def fullDateTime (regs : TimeRegisters) (weekdayRegister : UInt8) : FullDateTime where
  toRTCDateTime := getDateTime regs
  dayOfWeek := bcd2dec weekdayRegister
  unixtime := DS3231.unixtime (getDateTime regs)

/-- `strDayOfWeek`: the name of a day, from Monday as 1. -/
def strDayOfWeek (dayOfWeek : UInt8) : String :=
  match dayOfWeek.toNat with
  | 1 => "Monday"
  | 2 => "Tuesday"
  | 3 => "Wednesday"
  | 4 => "Thursday"
  | 5 => "Friday"
  | 6 => "Saturday"
  | 7 => "Sunday"
  | _ => "Unknown"

/-- `strMonth`: the name of a month, from January as 1. -/
def strMonth (month : UInt8) : String :=
  match month.toNat with
  | 1 => "January"
  | 2 => "February"
  | 3 => "March"
  | 4 => "April"
  | 5 => "May"
  | 6 => "June"
  | 7 => "July"
  | 8 => "August"
  | 9 => "September"
  | 10 => "October"
  | 11 => "November"
  | 12 => "December"
  | _ => "Unknown"

/-- `strAmPm`. -/
def strAmPm (hour : UInt8) (uppercase : Bool) : String :=
  if hour < 12 then if uppercase then "AM" else "am"
  else if uppercase then "PM" else "pm"

/-- `strDaySufix`. -/
def strDaySufix (day : UInt8) : String :=
  if day % 10 = 1 then "st"
  else if day % 10 = 2 then "nd"
  else if day % 10 = 3 then "rd"
  else "th"

/-- `hour12`: the hour on a dial of twelve. -/
def hour12 (hour24 : UInt8) : UInt8 :=
  if hour24 = 0 then 12 else if 12 < hour24 then hour24 - 12 else hour24

/-- `dayInYear`: the days since the first of January, by two calls of `date2days`. -/
def dayInYear (year : UInt16) (month day : UInt8) : Option UInt16 := do
  let fromDate ← date2days year 1 1
  let toDate ← date2days year month day
  some (toDate - fromDate)

/-- `daysInMonth`: the length of the month, with the leap day. -/
def daysInMonth (year : UInt16) (month : UInt8) : Option UInt8 := do
  let days ← readByte daysArray (month.toNat - 1)
  if month = 2 ∧ isLeapYear year then some (days + 1) else some days

/-! ### `dateFormat` -/

/-- `%d` of a byte. -/
def byteText (n : UInt8) : List Char := Nat.toDigits 10 n.toNat

/-- `%d` of a 16-bit number, which is printed as an `int`. -/
def wordText (n : UInt16) : List Char := intText n.toInt16.toInt

/-- `%02d` of a 16-bit number; the sign counts as a character. -/
def paddedWord (n : UInt16) : List Char :=
  if n.toInt16 < 0 then wordText n else padded 2 n.toNat

/-- What `dateFormat` appends for a character of its format. -/
def formatted (dt : FullDateTime) (c : Char) : Option (List Char) :=
  match c with
  -- day
  | 'd' => some (padded 2 dt.day.toNat)
  | 'j' => some (byteText dt.day)
  | 'l' => some (strDayOfWeek dt.dayOfWeek).toList
  | 'D' => some ((strDayOfWeek dt.dayOfWeek).toList.take 3)
  | 'N' => some (byteText dt.dayOfWeek)
  | 'w' => some (Nat.toDigits 10 ((dt.dayOfWeek.toNat + 7) % 7))
  | 'z' => (dayInYear dt.year dt.month dt.day).map wordText
  | 'S' => some (strDaySufix dt.day).toList
  -- month
  | 'm' => some (padded 2 dt.month.toNat)
  | 'n' => some (byteText dt.month)
  | 'F' => some (strMonth dt.month).toList
  | 'M' => some ((strMonth dt.month).toList.take 3)
  | 't' => (daysInMonth dt.year dt.month).map byteText
  -- year
  | 'Y' => some (wordText dt.year)
  | 'y' => some (paddedWord (dt.year - 2000))
  | 'L' => some (Nat.toDigits 10 (isLeapYear dt.year).toNat)
  -- hour
  | 'H' => some (padded 2 dt.hour.toNat)
  | 'G' => some (byteText dt.hour)
  | 'h' => some (padded 2 (hour12 dt.hour).toNat)
  | 'g' => some (byteText (hour12 dt.hour))
  | 'A' => some (strAmPm dt.hour true).toList
  | 'a' => some (strAmPm dt.hour false).toList
  -- minute, second, misc
  | 'i' => some (padded 2 dt.minute.toNat)
  | 's' => some (padded 2 dt.second.toNat)
  | 'U' => dt.unixtime.map fun u ↦ Nat.toDigits 10 u.toNat
  | c => some [c]

/-- The loop of `dateFormat`, with what is in the buffer. The last byte of the 255 ends the text. -/
def formatLoop (dt : FullDateTime) : (dateFormat buffer : List Char) → Option (List Char)
  | [], buffer => some buffer
  | c :: dateFormat, buffer => do
    let text ← formatted dt c
    if (buffer ++ text).length < 255 then formatLoop dt dateFormat (buffer ++ text) else none

/-- `dateFormat`: the loop over the format, from an empty buffer. -/
def dateFormat (format : List Char) (dt : FullDateTime) : Option (List Char) :=
  formatLoop dt format []

/-! ### The buffer -/

/-- At most ten characters, if there is a text at all. -/
def Short (text : Option (List Char)) : Prop := ∀ l ∈ text, l.length ≤ 10

theorem short_some {l : List Char} (h : l.length ≤ 10) : Short (some l) := fun _ hmem ↦
  Option.some.inj hmem ▸ h

/-- A text that is made of a number, if there is one. -/
theorem short_map {α : Type*} {f : α → List Char} (h : ∀ a, (f a).length ≤ 10) (o : Option α) :
    Short (o.map f) := fun l hmem ↦ by
  obtain ⟨a, -, rfl⟩ := Option.map_eq_some_iff.1 hmem
  exact h a

/-- The numbers that are printed have ten digits at most. -/
theorem length_toDigits_le {n : ℕ} (h : n < 10 ^ 10) : (Nat.toDigits 10 n).length ≤ 10 :=
  (Nat.length_toDigits_le_iff (by decide) (by decide)).2 h

/-- A leading zero does not make them longer than that. -/
theorem length_padded_le {n : ℕ} (h : n < 10 ^ 10) : (padded 2 n).length ≤ 10 := by
  have := length_toDigits_le h
  rw [padded, List.length_append, List.length_replicate]
  omega

theorem length_byteText (n : UInt8) : (byteText n).length ≤ 10 :=
  length_toDigits_le (n.toNat_lt.trans (by decide))

/-- A number of 16 bits has at most five digits, and a sign. -/
theorem length_wordText (n : UInt16) : (wordText n).length ≤ 10 := by
  have habs : n.toInt16.toInt.natAbs < 10 ^ 9 := by
    have := n.toInt16.toInt_lt
    have := n.toInt16.le_toInt
    omega
  have hdigits := (Nat.length_toDigits_le_iff (by decide) (by decide)).2 habs
  unfold wordText intText
  split
  · exact Nat.succ_le_succ hdigits
  · exact hdigits.trans (by decide)

theorem length_paddedWord (n : UInt16) : (paddedWord n).length ≤ 10 := by
  unfold paddedWord
  split
  · exact length_wordText n
  · exact length_padded_le (n.toNat_lt.trans (by decide))

theorem length_strDayOfWeek (dayOfWeek : UInt8) : (strDayOfWeek dayOfWeek).toList.length ≤ 10 := by
  unfold strDayOfWeek
  split <;> decide

theorem length_strMonth (month : UInt8) : (strMonth month).toList.length ≤ 10 := by
  unfold strMonth
  split <;> decide

theorem length_strAmPm (hour : UInt8) (uppercase : Bool) :
    (strAmPm hour uppercase).toList.length ≤ 10 := by
  unfold strAmPm
  split_ifs <;> decide

theorem length_strDaySufix (day : UInt8) : (strDaySufix day).toList.length ≤ 10 := by
  unfold strDaySufix
  split_ifs <;> decide

/-- No character stands for more than ten. -/
theorem short_formatted (dt : FullDateTime) (c : Char) : Short (formatted dt c) := by
  have hbyte : ∀ n : UInt8, n.toNat < 10 ^ 10 := fun n ↦ n.toNat_lt.trans (by decide)
  unfold formatted
  -- One case for each letter of the format, in the order of the `switch`.
  split
  · exact short_some (length_padded_le (hbyte _))
  · exact short_some (length_byteText _)
  · exact short_some (length_strDayOfWeek _)
  · exact short_some ((List.length_take_le _ _).trans (by decide))
  · exact short_some (length_byteText _)
  · exact short_some (length_toDigits_le ((Nat.mod_lt _ (by decide)).trans (by decide)))
  · exact short_map length_wordText _
  · exact short_some (length_strDaySufix _)
  · exact short_some (length_padded_le (hbyte _))
  · exact short_some (length_byteText _)
  · exact short_some (length_strMonth _)
  · exact short_some ((List.length_take_le _ _).trans (by decide))
  · exact short_map length_byteText _
  · exact short_some (length_wordText _)
  · exact short_some (length_paddedWord _)
  · exact short_some (length_toDigits_le ((Bool.toNat_lt _).trans (by decide)))
  · exact short_some (length_padded_le (hbyte _))
  · exact short_some (length_byteText _)
  · exact short_some (length_padded_le (hbyte _))
  · exact short_some (length_byteText _)
  · exact short_some (length_strAmPm _ _)
  · exact short_some (length_strAmPm _ _)
  · exact short_some (length_padded_le (hbyte _))
  · exact short_some (length_padded_le (hbyte _))
  · exact short_map (fun u ↦ length_toDigits_le (u.toNat_lt.trans (by decide))) _
  · exact short_some (show 1 ≤ 10 by decide)

/-- The texts of a format, if they fit into the buffer. -/
theorem formatLoop_eq {dt : FullDateTime} {format : List Char} {texts : List (List Char)}
    (h : List.Forall₂ (fun c text ↦ formatted dt c = some text) format texts)
    (buffer : List Char) (hfit : (buffer ++ texts.flatten).length < 255) :
    formatLoop dt format buffer = some (buffer ++ texts.flatten) := by
  induction h generalizing buffer with
  | nil => rw [formatLoop, List.flatten_nil, List.append_nil]
  | @cons c text format texts hc _ ih =>
    rw [List.flatten_cons, ← List.append_assoc] at hfit ⊢
    have hpart : (buffer ++ text).length < 255 := by
      rw [List.length_append] at hfit
      omega
    rw [formatLoop, hc]
    simp only [Option.bind_eq_bind, Option.bind_some, if_pos hpart]
    exact ih _ hfit

/-- The texts of a format are at most ten times as long. -/
theorem length_flatten_le {dt : FullDateTime} {format : List Char} {texts : List (List Char)}
    (h : List.Forall₂ (fun c text ↦ formatted dt c = some text) format texts) :
    texts.flatten.length ≤ 10 * format.length := by
  induction h with
  | nil => exact Nat.le_refl 0
  | cons hc _ ih =>
    have := short_formatted dt _ _ hc
    rw [List.flatten_cons, List.length_append, List.length_cons]
    omega

/-! ### Every format -/

/-- What a format may ask for can be computed: no read outside of a table, and no overflow. -/
structure Printable (dt : FullDateTime) : Prop where
  dayInYear : (dayInYear dt.year dt.month dt.day).isSome
  daysInMonth : (daysInMonth dt.year dt.month).isSome
  unixtime : dt.unixtime.isSome

theorem Printable.formatted {dt : FullDateTime} (h : Printable dt) (c : Char) :
    (formatted dt c).isSome := by
  unfold DS3231.formatted
  split
  case h_7 => rw [Option.isSome_map, h.dayInYear]
  case h_13 => rw [Option.isSome_map, h.daysInMonth]
  case h_25 => rw [Option.isSome_map, h.unixtime]
  all_goals rfl

theorem Printable.exists_texts {dt : FullDateTime} (h : Printable dt) (format : List Char) :
    ∃ texts, List.Forall₂ (fun c text ↦ DS3231.formatted dt c = some text) format texts := by
  induction format with
  | nil => exact ⟨[], .nil⟩
  | cons c format ih =>
    obtain ⟨text, htext⟩ := Option.isSome_iff_exists.1 (h.formatted c)
    obtain ⟨texts, htexts⟩ := ih
    exact ⟨text :: texts, .cons htext htexts⟩

/-- The first second of the year 2068, in which the library's second count overflows. -/
theorem yearStart_2068 : Date.yearStart 1970 98 * 86400 = 3092601600 := by
  rw [Date.yearStart_eq_start]
  decide +kernel

/-- The second count of a reading before the year 2068. -/
theorem unixtime_isSome {t : ℕ} (h : firstInstant ≤ t ∧ t < endInstant)
    (hyear : (civil t).year < 2068) : (unixtime (getDateTime (timeRegisters t))).isSome := by
  obtain ⟨seconds, hseconds, hunix⟩ := unixtime_getDateTime h
  have hbound : t < 3092601600 := by
    by_contra hge
    have hle := @le_year_of_le t 98 (by rw [yearStart_2068]; omega)
    omega
  rw [hunix, if_pos]
  · rfl
  · unfold daysTooMany firstInstant at hseconds
    split at hseconds <;> omega

/-- Readings of the clock are printable, up to the year in which the second count overflows,
whatever the register of the weekday holds. -/
theorem printable_fullDateTime {t : ℕ} (h : firstInstant ≤ t ∧ t < endInstant)
    (hyear : (civil t).year < 2068) (register : UInt8) :
    Printable (fullDateTime (timeRegisters t) register) := by
  obtain ⟨hyearNat, hmonthNat, hdayNat, -⟩ := getDateTime_timeRegisters h
  obtain ⟨hy, hy'⟩ := civil_year_mem h
  obtain ⟨toDate, htoDate, -⟩ := date2days_eq (civil t).toDate hy hy'
  obtain ⟨fromDate, hfromDate, -⟩ := @date2days_ofNat ((civil t).year - 2000) 1 1 (by omega)
    (by decide) (by decide) (by decide) (by decide)
  have hm := (civil t).isDate.1
  have hm' := (civil t).isDate.2.1
  rw [show 2000 + ((civil t).year - 2000) = (civil t).year by omega, ← hyearNat,
    UInt16.ofNat_toNat] at hfromDate
  rw [← hyearNat, UInt16.ofNat_toNat, ← hmonthNat, UInt8.ofNat_toNat, ← hdayNat,
    UInt8.ofNat_toNat] at htoDate
  refine ⟨?_, ?_, unixtime_isSome h hyear⟩
  · show (dayInYear (getDateTime (timeRegisters t)).year (getDateTime (timeRegisters t)).month
      (getDateTime (timeRegisters t)).day).isSome
    rw [dayInYear, show date2days _ 1 1 = some fromDate from hfromDate, htoDate]
    rfl
  · show (daysInMonth (getDateTime (timeRegisters t)).year
      (getDateTime (timeRegisters t)).month).isSome
    have hindex : ((civil t).month : ℤ) - 1 = ((civil t).month - 1 : ℕ) := by omega
    rw [daysInMonth, hmonthNat, hindex, readByte_daysArray _ (by omega)]
    simp only [Option.bind_eq_bind, Option.bind_some]
    split <;> rfl

/-- **No format of up to 25 characters overflows the buffer**, whatever its characters and whatever
the clock shows. -/
theorem dateFormat_isSome {t : ℕ} (h : firstInstant ≤ t ∧ t < endInstant)
    (hyear : (civil t).year < 2068) (register : UInt8) {format : List Char}
    (hformat : format.length ≤ 25) :
    (dateFormat format (fullDateTime (timeRegisters t) register)).isSome := by
  obtain ⟨texts, htexts⟩ := (printable_fullDateTime h hyear register).exists_texts format
  have hle := length_flatten_le htexts
  rw [dateFormat, formatLoop_eq htexts [] (by rw [List.nil_append]; omega)]
  rfl

/-- The format of the sketches, as the clock starts. -/
theorem dateFormat_isSome_start :
    (dateFormat "d-m-Y H:i:s - l".toList (fullDateTime (timeRegisters 946684800) 6)).isSome :=
  dateFormat_isSome (by decide) (by decide +kernel) 6 (by decide +kernel)

/-! ### The format of the sketches -/

/-- The line that `refreshDate` prints, without its end. -/
def rtcLine (dt : FullDateTime) : Option (List Char) :=
  (dateFormat "d-m-Y H:i:s - l".toList dt).map ("RTC: ".toList ++ ·)

/-- The line about an instant: day, month, year, time of the day and the name of a day. -/
def lineText (t : ℕ) (name : List Char) : List Char :=
  padded 2 (civil t).day ++ '-' :: (padded 2 (civil t).month ++ '-' :: (padded 4 (civil t).year ++
    ' ' :: (padded 2 (civil t).hour ++ ':' :: (padded 2 (civil t).minute ++ ':' ::
      (padded 2 (civil t).second ++ ' ' :: '-' :: ' ' :: name)))))

theorem toList_format : "d-m-Y H:i:s - l".toList =
    ['d', '-', 'm', '-', 'Y', ' ', 'H', ':', 'i', ':', 's', ' ', '-', ' ', 'l'] := by
  decide +kernel

/-- A year of the clock has four digits. -/
theorem wordText_ofNat {y : ℕ} (hy : 2000 ≤ y) (hy' : y ≤ 2099) :
    wordText (.ofNat y) = padded 4 y := by
  have hint : (UInt16.ofNat y).toInt16.toInt = y := Int16.toInt_ofNat_of_lt (by omega)
  rw [wordText, hint, intText, if_neg (by omega), Int.natAbs_natCast,
    padded_of_le (by decide) (by omega)]

/-- The fields of a reading as they are printed. -/
theorem forall₂_formatted {t : ℕ} (h : firstInstant ≤ t ∧ t < endInstant) (register : UInt8) :
    List.Forall₂ (fun c text ↦
        formatted (fullDateTime (timeRegisters t) register) c = some text)
      "d-m-Y H:i:s - l".toList
      [padded 2 (civil t).day, ['-'], padded 2 (civil t).month, ['-'], padded 4 (civil t).year,
        [' '], padded 2 (civil t).hour, [':'], padded 2 (civil t).minute, [':'],
        padded 2 (civil t).second, [' '], ['-'], [' '],
        (strDayOfWeek (bcd2dec register)).toList] := by
  obtain ⟨hyear, hmonth, hday, hhour, hminute, hsecond⟩ := getDateTime_timeRegisters h
  obtain ⟨hy, hy'⟩ := civil_year_mem h
  have hword : wordText (getDateTime (timeRegisters t)).year = padded 4 (civil t).year := by
    rw [← wordText_ofNat hy hy', ← hyear, UInt16.ofNat_toNat]
  rw [toList_format, ← hday, ← hmonth, ← hword, ← hhour, ← hminute, ← hsecond]
  exact .cons rfl (.cons rfl (.cons rfl (.cons rfl (.cons rfl (.cons rfl (.cons rfl (.cons rfl
    (.cons rfl (.cons rfl (.cons rfl (.cons rfl (.cons rfl (.cons rfl (.cons rfl .nil))))))))))))))

/-- What is printed of a reading. -/
theorem rtcLine_fullDateTime {t : ℕ} (h : firstInstant ≤ t ∧ t < endInstant) (register : UInt8) :
    rtcLine (fullDateTime (timeRegisters t) register) =
      some ("RTC: ".toList ++ lineText t (strDayOfWeek (bcd2dec register)).toList) := by
  have htexts := forall₂_formatted h register
  have hle := length_flatten_le htexts
  rw [toList_format] at hle htexts
  rw [rtcLine, toList_format, dateFormat, formatLoop_eq htexts []]
  · simp only [lineText, List.flatten_cons, List.flatten_nil, List.nil_append, List.append_nil,
      List.cons_append, Option.map_some]
  · exact Nat.lt_of_le_of_lt hle (by decide)

/-- **What is printed after the clock was set.** From any date on, at any later second, the line
tells the civil time and its day of the week. -/
theorem rtcLine_weekdayAfter (T : DateTime 1970) (hy : 2000 ≤ T.year) {n : ℕ}
    (hn : T.toSeconds + n < endInstant) :
    ∃ dayOfWeek, dow (.ofNat T.year) (.ofNat T.month) (.ofNat T.day) = some dayOfWeek ∧
      rtcLine (fullDateTime (timeRegisters (T.toSeconds + n))
          (weekdayAfter (dec2bcd dayOfWeek) T.toSeconds n)) =
        some ("RTC: ".toList ++ lineText (T.toSeconds + n)
          (strDayOfWeek (.ofNat (weekday (T.toSeconds + n)))).toList) := by
  have hyear : T.year < 2100 := by
    have hlt := @year_lt_of_lt T.toSeconds 130 (by rw [yearStart_2100]; omega)
    rwa [civil, DateTime.ofSeconds_toSeconds] at hlt
  have hfirst := (toSeconds_mem_of_year hy (by omega)).1
  have hweekday := weekday_le (T.toSeconds + n)
  refine ⟨_, dow_eq T (by omega), ?_⟩
  rw [weekdayAfter_eq, rtcLine_fullDateTime ⟨by omega, hn⟩, bcd2dec_dec2bcd_ofNat _ (by omega)]

/-- The clock is set to the last second of 2019, a Tuesday; a second later it is Wednesday. -/
theorem rtcLine_weekdayAfter_newYear :
    ∃ dayOfWeek, dow 2019 12 31 = some dayOfWeek ∧
      rtcLine (fullDateTime (timeRegisters 1577836800)
          (weekdayAfter (dec2bcd dayOfWeek) 1577836799 1)) =
        some ("RTC: ".toList ++ lineText 1577836800 "Wednesday".toList) := by
  have hseconds : (civil 1577836799).toSeconds = 1577836799 := DateTime.toSeconds_ofSeconds _
  have hyear : (civil 1577836799).year = 2019 := by decide +kernel
  have hmonth : (civil 1577836799).month = 12 := by decide +kernel
  have hday : (civil 1577836799).day = 31 := by decide +kernel
  have h := @rtcLine_weekdayAfter (civil 1577836799) (by omega) 1 (by rw [hseconds]; decide)
  rwa [hseconds, hyear, hmonth, hday] at h

/-- **The line tells the instant** and the name of the day, and nothing else. -/
theorem rtcLine_eq_iff {t t' : ℕ} (h : firstInstant ≤ t ∧ t < endInstant)
    (h' : firstInstant ≤ t' ∧ t' < endInstant) (register register' : UInt8) :
    rtcLine (fullDateTime (timeRegisters t) register) =
        rtcLine (fullDateTime (timeRegisters t') register') ↔
      t = t' ∧ strDayOfWeek (bcd2dec register) = strDayOfWeek (bcd2dec register') := by
  rw [rtcLine_fullDateTime h, rtcLine_fullDateTime h']
  have hfields : ∀ {u : ℕ}, firstInstant ≤ u ∧ u < endInstant →
      (civil u).day < 10 ^ 2 ∧ (civil u).month < 10 ^ 2 ∧ (civil u).year < 10 ^ 4 ∧
        (civil u).hour < 10 ^ 2 ∧ (civil u).minute < 10 ^ 2 ∧ (civil u).second < 10 ^ 2 := by
    intro u hu
    have := (civil_year_mem hu).2
    have := (civil u).isDate.2.1
    have := (civil u).isDate.2.2.2.trans (monthLength_le _ _)
    have := (civil u).hour_lt
    have := (civil u).minute_lt
    have := (civil u).second_lt
    omega
  obtain ⟨hd, hmo, hy, hh, hmi, hs⟩ := hfields h
  obtain ⟨hd', hmo', hy', hh', hmi', hs'⟩ := hfields h'
  refine ⟨fun hline ↦ ?_, fun heq ↦ by rw [heq.1, heq.2]⟩
  -- Every field has its full width, so the lines can be read off field by field.
  have hrest := List.append_cancel_left (Option.some.inj hline)
  obtain ⟨hday, hrest⟩ := padded_append_inj (by decide) hd hd' hrest
  obtain ⟨hmonth, hrest⟩ := padded_append_inj (by decide) hmo hmo' (List.tail_eq_of_cons_eq hrest)
  obtain ⟨hyear, hrest⟩ := padded_append_inj (by decide) hy hy' (List.tail_eq_of_cons_eq hrest)
  obtain ⟨hhour, hrest⟩ := padded_append_inj (by decide) hh hh' (List.tail_eq_of_cons_eq hrest)
  obtain ⟨hminute, hrest⟩ := padded_append_inj (by decide) hmi hmi' (List.tail_eq_of_cons_eq hrest)
  obtain ⟨hsecond, hname⟩ := padded_append_inj (by decide) hs hs' (List.tail_eq_of_cons_eq hrest)
  have hcivil : civil t = civil t' := DateTime.ext hyear hmonth hday hhour hminute hsecond
  have hseconds := congrArg DateTime.toSeconds hcivil
  rw [DateTime.toSeconds_ofSeconds, DateTime.toSeconds_ofSeconds] at hseconds
  simp only [List.cons.injEq, true_and] at hname
  exact ⟨hseconds, String.toList_inj.1 hname⟩

/-- The lines of two seconds that follow each other, as the clock starts. -/
theorem rtcLine_eq_iff_start :
    rtcLine (fullDateTime (timeRegisters 946684800) 6) ≠
      rtcLine (fullDateTime (timeRegisters 946684801) 6) :=
  (rtcLine_eq_iff (by decide) (by decide) 6 6).not.2 (by decide)

end DS3231
