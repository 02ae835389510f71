import Analemma.Foundation.Decimal
import Analemma.Journal.Basic

/-!
# What the journal prints

The texts that the sketches send to the serial port: `timet2str` prints an instant, and
`readJournal` two lines for each record. Nothing is lost in them. The texts of the instants have one
width and are ordered as the instants are (`timet2str_lt_iff`), and what `readJournal` prints tells
its records (`journalText_injective`), whatever bytes stand in the EEPROM.

`println` ends a line with `\r\n`, and `timet2str` ends with a blank.

The texts are lists of characters, put together from the decimals of the foundation. A text of known
length before others can be taken off again, and this is how a listing is read back: the mark of a
record, its number up to a blank, three instants of twenty characters each. The last line begins
with another character than a record does.
-/

namespace Journal

open Gregorian TimeLib Decimal

/-! ### Instants -/

/-- `timet2str`. -/
def timet2str (point : UInt32) : List Char :=
  let el := breakTime point
  spaced 4 (el.year.toNat + 1970) ++ '/' :: (padded 2 el.month.toNat ++ '/' ::
    (padded 2 el.day.toNat ++ ' ' :: (padded 2 el.hour.toNat ++ ':' ::
      (padded 2 el.minute.toNat ++ ':' :: (padded 2 el.second.toNat ++ [' '])))))

/-- The text of a civil time. -/
def civilText (T : DateTime 1970) : List Char :=
  padded 4 T.year ++ '/' :: (padded 2 T.month ++ '/' :: (padded 2 T.day ++ ' ' ::
    (padded 2 T.hour ++ ':' :: (padded 2 T.minute ++ ':' :: (padded 2 T.second ++ [' '])))))

/-- **`timet2str` prints the civil time.** -/
theorem timet2str_eq (t : UInt32) : timet2str t = civilText (.ofSeconds 1970 t.toNat) := by
  have hyear := year_sub_lt t
  have hepoch := (DateTime.ofSeconds 1970 t.toNat).epoch_le
  have hmonth := month_lt (DateTime.ofSeconds 1970 t.toNat).toDate
  have hday := day_lt (DateTime.ofSeconds 1970 t.toNat).toDate
  have hhour := (DateTime.ofSeconds 1970 t.toNat).hour_lt
  have hminute := (DateTime.ofSeconds 1970 t.toNat).minute_lt
  have hsecond := (DateTime.ofSeconds 1970 t.toNat).second_lt
  rw [timet2str, breakTime_eq]
  generalize DateTime.ofSeconds 1970 t.toNat = T at *
  simp only
  rw [TimeLib.toNat_ofNat_of_lt hyear, TimeLib.toNat_ofNat_of_lt hmonth,
    TimeLib.toNat_ofNat_of_lt hday, TimeLib.toNat_ofNat_of_lt (by omega),
    TimeLib.toNat_ofNat_of_lt (by omega), TimeLib.toNat_ofNat_of_lt (by omega),
    Nat.sub_add_cancel hepoch, spaced_eq_padded (by decide) (show 10 ^ (4 - 1) ≤ T.year by omega)]
  rfl

/-- A number of two texts, before the same separator. -/
theorem padded_append_lt {width m n : ℕ} (hwidth : 0 < width) (hm : m < 10 ^ width)
    (hn : n < 10 ^ width) (c : Char) {l l' : List Char} (h : m < n ∨ m = n ∧ l < l') :
    padded width m ++ c :: l < padded width n ++ c :: l' := by
  have hlen : (padded width m).length = (padded width n).length := by
    rw [length_padded hwidth hm, length_padded hwidth hn]
  rw [append_lt_append_iff hlen, padded_lt_iff hwidth hm hn, padded_inj, List.cons_lt_cons_iff]
  exact h.imp_right fun ⟨heq, hlt⟩ ↦ ⟨heq, .inr ⟨rfl, hlt⟩⟩

/-- **The texts of civil times are ordered as the civil times.** -/
theorem civilText_lt {T T' : DateTime 1970} (hyear : T.year < 10000) (hyear' : T'.year < 10000)
    (h : T.toSeconds < T'.toSeconds) : civilText T < civilText T' := by
  have hmonth := T.isDate.2.1
  have hmonth' := T'.isDate.2.1
  have hday := T.isDate.2.2.2.trans (monthLength_le _ _)
  have hday' := T'.isDate.2.2.2.trans (monthLength_le _ _)
  have hhour := T.hour_lt
  have hhour' := T'.hour_lt
  have hminute := T.minute_lt
  have hminute' := T'.minute_lt
  have hsecond := T.second_lt
  have hsecond' := T'.second_lt
  have h := DateTime.lex_of_toSeconds_lt h
  -- Each field has a fixed width, so the texts compare field by field, as the instants do.
  unfold civilText
  refine padded_append_lt (by decide) (by omega) (by omega) '/' (h.imp_right fun h ↦ ⟨h.1, ?_⟩)
  replace h := h.2
  refine padded_append_lt (by decide) (by omega) (by omega) '/' (h.imp_right fun h ↦ ⟨h.1, ?_⟩)
  replace h := h.2
  refine padded_append_lt (by decide) (by omega) (by omega) ' ' (h.imp_right fun h ↦ ⟨h.1, ?_⟩)
  replace h := h.2
  refine padded_append_lt (by decide) (by omega) (by omega) ':' (h.imp_right fun h ↦ ⟨h.1, ?_⟩)
  replace h := h.2
  refine padded_append_lt (by decide) (by omega) (by omega) ':' (h.imp_right fun h ↦ ⟨h.1, ?_⟩)
  replace h := h.2
  exact padded_append_lt (by decide) (by omega) (by omega) ' ' (.inl h)

theorem timet2str_lt {t t' : UInt32} (h : t < t') : timet2str t < timet2str t' := by
  have hyear := year_sub_lt t
  have hyear' := year_sub_lt t'
  rw [timet2str_eq, timet2str_eq]
  refine civilText_lt (by omega) (by omega) ?_
  rw [DateTime.toSeconds_ofSeconds, DateTime.toSeconds_ofSeconds]
  exact UInt32.lt_iff_toNat_lt.1 h

/-- **The printed instants are ordered as texts as the instants are.** -/
theorem timet2str_lt_iff {t t' : UInt32} : timet2str t < timet2str t' ↔ t < t' := by
  refine ⟨fun h ↦ ?_, timet2str_lt⟩
  rcases UInt32.lt_or_le t t' with hlt | hle
  · exact hlt
  · rcases UInt32.lt_or_eq_of_le hle with hlt | rfl
    · exact absurd h (timet2str_lt hlt).asymm
    · exact absurd h (lt_irrefl _)

theorem timet2str_inj {t t' : UInt32} : timet2str t = timet2str t' ↔ t = t' := by
  refine ⟨fun h ↦ ?_, fun h ↦ by rw [h]⟩
  have hnot : ∀ {u u' : UInt32}, timet2str u = timet2str u' → ¬ u < u' := fun heq hlt ↦ by
    have htext := timet2str_lt hlt
    rw [heq] at htext
    exact lt_irrefl _ htext
  rcases UInt32.lt_or_le t t' with hlt | hle
  · exact absurd hlt (hnot h)
  · rcases UInt32.lt_or_eq_of_le hle with hlt | heq
    · exact absurd hlt (hnot h.symm)
    · exact heq.symm

/-- The text of a civil time has twenty characters, for years of four digits. -/
theorem length_civilText {T : DateTime 1970} (hyear : T.year < 10000) :
    (civilText T).length = 20 := by
  have hmonth := T.isDate.2.1
  have hday := T.isDate.2.2.2.trans (monthLength_le _ _)
  have hhour := T.hour_lt
  have hminute := T.minute_lt
  have hsecond := T.second_lt
  unfold civilText
  simp only [List.length_append, List.length_cons, List.length_nil]
  rw [length_padded (by decide) hyear, length_padded (by decide) (by omega),
    length_padded (by decide) (by omega), length_padded (by decide) (by omega),
    length_padded (by decide) (by omega), length_padded (by decide) (by omega)]

/-- Twenty characters: the buffer of `timet2str` has room for 32. -/
theorem length_timet2str (t : UInt32) : (timet2str t).length = 20 := by
  have hyear := year_sub_lt t
  rw [timet2str_eq]
  exact length_civilText (by omega)

/-! ### The journal -/

/-- The end of a line. -/
def newLine : List Char := ['\r', '\n']

/-- What `readJournal` prints for a record. -/
def recordText (record : Record) : List Char :=
  '#' :: (intText record.id.toInt ++ " sys_time: ".toList ++ timet2str record.ts ++ newLine ++
    " open: ".toList ++ timet2str record.openTime ++ " close: ".toList ++
      timet2str record.closeTime ++ newLine)

/-- What `readJournal` prints. -/
def journalText (records : List Record) : List Char :=
  ("EEPROM Journal: ".toList ++ newLine) ++
    (records.flatMap recordText ++ ("EEPROM Journal end".toList ++ newLine))

/-- An instant printed before other texts. -/
theorem timet2str_append_inj {t t' : UInt32} {l l' : List Char}
    (h : timet2str t ++ l = timet2str t' ++ l') : t = t' ∧ l = l' := by
  obtain ⟨htext, hrest⟩ := List.append_inj h (by rw [length_timet2str, length_timet2str])
  exact ⟨timet2str_inj.1 htext, hrest⟩

/-- A record printed before other texts. -/
theorem recordText_append_inj {r r' : Record} {l l' : List Char}
    (h : recordText r ++ l = recordText r' ++ l') : r = r' ∧ l = l' := by
  have hspace : " sys_time: ".toList = ' ' :: "sys_time: ".toList := by decide +kernel
  rw [recordText, recordText, hspace, List.cons_append, List.cons_append] at h
  replace h := List.tail_eq_of_cons_eq h
  repeat rw [List.append_assoc] at h
  rw [List.cons_append, List.cons_append] at h
  obtain ⟨hid, h⟩ := append_cons_inj (blank_notMem_intText _) (blank_notMem_intText _) h
  obtain ⟨hts, h⟩ := timet2str_append_inj (List.append_cancel_left h)
  obtain ⟨hopen, h⟩ := timet2str_append_inj (List.append_cancel_left (List.append_cancel_left h))
  obtain ⟨hclose, h⟩ := timet2str_append_inj (List.append_cancel_left h)
  exact ⟨Record.ext hts hopen hclose (Int16.toInt_inj.1 (intText_inj hid)),
    List.append_cancel_left h⟩

/-- The last line is not that of a record. -/
theorem recordText_append_ne (r : Record) (l : List Char) :
    recordText r ++ l ≠ "EEPROM Journal end".toList ++ newLine := by
  have hend : "EEPROM Journal end".toList = 'E' :: "EPROM Journal end".toList := by decide +kernel
  rw [recordText, hend]
  exact fun h ↦ absurd (List.head_eq_of_cons_eq h) (by decide)

/-- **The printed journal tells its records**: journals that print the same list the same records,
with all their instants and numbers. -/
theorem journalText_injective : Function.Injective journalText := by
  intro records records' h
  have hlines := List.append_cancel_left h
  clear h
  induction records generalizing records' with
  | nil =>
    cases records' with
    | nil => rfl
    | cons r' records' =>
      rw [List.flatMap_nil, List.nil_append, List.flatMap_cons, List.append_assoc] at hlines
      exact absurd hlines.symm (recordText_append_ne r' _)
  | cons r records ih =>
    cases records' with
    | nil =>
      rw [List.flatMap_nil, List.nil_append, List.flatMap_cons, List.append_assoc] at hlines
      exact absurd hlines (recordText_append_ne r _)
    | cons r' records' =>
      rw [List.flatMap_cons, List.flatMap_cons, List.append_assoc, List.append_assoc] at hlines
      obtain ⟨rfl, hrest⟩ := recordText_append_inj hlines
      rw [ih hrest]

end Journal
