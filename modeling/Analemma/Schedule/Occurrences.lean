import Analemma.Foundation.GreedyWindows
import Analemma.Schedule.AlarmMeaning

/-!
# The calendar that a table stands for

A daily line means a window on every day, a yearly line one on its month and day of every year
(`occurrences`). A selection is to find the next occurrence.

The yearly constructor misses by a day around leap years, so a yearly event need not be an
occurrence. In a table with a daily line that does no harm: the next occurrence opens within a day,
and from March on a yearly event whose day has passed in the current year lies further ahead than
that, right or wrong (`event_isNextWithin`). So a selection from a `Regular` table finds the next
occurrence (`isNext_of_within`), also when every constructor reads another time, as long as nothing
opens meanwhile (`addEvent_isNextWithin`).

`occurrences` is the abstract side: a set of pairs, infinite, defined by the calendar alone. No
constructor, no 32-bit word and no alarm is in it. The selection is connected with it in two steps,
for one line (`event_isNextWithin`) and for a table, line by line (`addEvent_isNextWithin`), and
what the hatch does later is compared with it and not with what the constructors compute.

`Regular` is decidable, and the four tables of the sketches are regular by evaluation. Each of its
conditions is there for a reason that the lemmas under it show: windows that are known by their
openings, a minute between a closing and any opening, and durations that reach the constructors.
-/

namespace Schedule

open TimeLib Gregorian DS3231 GreedyWindows

/-! ### Occurrences -/

/-- The line opens the hatch at an instant: a daily line at its time of every day, a yearly line at
its time of its month and day in every year. -/
def AddEvent.Occurs : AddEvent → ℕ → Prop
  | daily hour minute _, t =>
    (civil t).hour = hour.toNat ∧ (civil t).minute = minute.toNat ∧ (civil t).second = 0
  | yearly month day hour minute _, t =>
    ((civil t).month = month.toNat ∧ (civil t).day = day.toNat) ∧
      (civil t).hour = hour.toNat ∧ (civil t).minute = minute.toNat ∧ (civil t).second = 0

/-- The windows that the lines of a table stand for: an opening at which a line occurs, and the
closing its duration later. -/
def occurrences (table : List AddEvent) : Set (ℕ × ℕ) :=
  {w | ∃ e ∈ table, e.Occurs w.1 ∧ w.2 = w.1 + e.openForSeconds.toNat}

/-- The times of an event, as naturals. -/
def HatchEvent.window (ev : HatchEvent) : ℕ × ℕ := (ev.openTime.toNat, ev.closeTime.toNat)

/-- The second of the day at which the window of a line closes. -/
def AddEvent.closesAt (e : AddEvent) : ℕ := (e.opensAt + e.openForSeconds.toNat) % 86400

theorem AddEvent.Valid.mod_of_occurs {e : AddEvent} (he : e.Valid) {t : ℕ} (h : e.Occurs t) :
    t % 86400 = e.opensAt := by
  cases e with
  | daily => exact (civil_time_iff he.2).1 h
  | yearly => exact (civil_time_iff he.2.2).1 h.2

theorem occurrences_append (table table' : List AddEvent) :
    occurrences (table ++ table') = occurrences table ∪ occurrences table' := by
  ext w
  simp only [occurrences, List.mem_append, or_and_right, exists_or, Set.mem_union,
    Set.mem_ofPred_eq]

theorem occurrences_mono {table table' : List AddEvent} (h : table ⊆ table') :
    occurrences table ⊆ occurrences table' := by
  rintro w ⟨e, he, hw⟩
  exact ⟨e, h he, hw⟩

theorem mem_occurrences_singleton {e : AddEvent} {w : ℕ × ℕ} :
    w ∈ occurrences [e] ↔ e.Occurs w.1 ∧ w.2 = w.1 + e.openForSeconds.toNat := by
  simp [occurrences]

/-! ### Regular tables -/

/-- A line that means every day. -/
def AddEvent.EveryDay : AddEvent → Prop
  | daily .. => True
  | yearly .. => False

/-- A line that opens every day, or from March on. -/
def AddEvent.FromMarch : AddEvent → Prop
  | daily .. => True
  | yearly month .. => 3 ≤ month.toNat

instance : DecidablePred AddEvent.EveryDay
  | .daily .. => inferInstanceAs (Decidable True)
  | .yearly .. => inferInstanceAs (Decidable False)

instance : DecidablePred AddEvent.FromMarch
  | .daily .. => inferInstanceAs (Decidable True)
  | .yearly .. => inferInstanceAs (Decidable (_ ≤ _))

instance : DecidablePred AddEvent.KeepsDuration
  | .daily .. => inferInstanceAs (Decidable (_ ∨ _))
  | .yearly .. => inferInstanceAs (Decidable True)

/-- A line whose event is an occurrence if it opens within a day: it exists, its window is open for
a minute at least and a day at most, and it opens every day, or from March on. -/
structure AddEvent.Regular (e : AddEvent) : Prop where
  valid : e.Valid
  keeps : e.KeepsDuration
  minute_le : 60 ≤ e.openForSeconds.toNat
  le_day : e.openForSeconds.toNat ≤ 86400
  fromMarch : e.FromMarch

/-- A table with a daily line, whose lines are regular and open a minute or more after any of them
closes; lines of one time of the day have one duration. -/
structure Regular (table : List AddEvent) : Prop where
  line : ∀ e ∈ table, e.Regular
  everyDay : ∃ e ∈ table, e.EveryDay
  apart : ∀ e ∈ table, ∀ e' ∈ table, 60 ≤ (e'.opensAt + 86400 - e.closesAt) % 86400
  duration : ∀ e ∈ table, ∀ e' ∈ table, e.opensAt = e'.opensAt →
    e.openForSeconds = e'.openForSeconds

instance : DecidablePred AddEvent.Regular := fun e ↦
  decidable_of_iff (e.Valid ∧ e.KeepsDuration ∧ 60 ≤ e.openForSeconds.toNat ∧
      e.openForSeconds.toNat ≤ 86400 ∧ e.FromMarch)
    ⟨fun ⟨h1, h2, h3, h4, h5⟩ ↦ ⟨h1, h2, h3, h4, h5⟩,
      fun ⟨h1, h2, h3, h4, h5⟩ ↦ ⟨h1, h2, h3, h4, h5⟩⟩

/-- The table of `analemma_1`, whose yearly lines are all from March on. -/
theorem regular_analemma1Table : Regular analemma1Table :=
  ⟨by decide, ⟨_, List.mem_cons_self, trivial⟩, by decide, by decide⟩

/-- The table of the reversed sketch, with daily lines only. -/
theorem regular_analemma2Table : Regular analemma2Table :=
  ⟨by decide, ⟨_, List.mem_cons_self, trivial⟩, by decide, by decide⟩

theorem regular_analemma3Table : Regular analemma3Table :=
  ⟨by decide, ⟨_, List.mem_cons_self, trivial⟩, by decide, by decide⟩

/-- The table of `analemma_release`, with its yearly windows of nineteen hours. -/
theorem regular_releaseTable : Regular releaseTable :=
  ⟨by decide, ⟨_, List.mem_cons_self, trivial⟩, by decide, by decide⟩

namespace Regular

variable {table : List AddEvent} (h : Regular table)

include h

/-- An occurrence lasts a minute at least, and a day at most. -/
theorem length_mem {w : ℕ × ℕ} (hw : w ∈ occurrences table) :
    w.1 + 60 ≤ w.2 ∧ w.2 ≤ w.1 + 86400 := by
  obtain ⟨e, he, -, hclose⟩ := hw
  have hmin := (h.line e he).minute_le
  have hmax := (h.line e he).le_day
  omega

theorem lt_of_mem {w : ℕ × ℕ} (hw : w ∈ occurrences table) : w.1 < w.2 := by
  have := (h.length_mem hw).1
  omega

/-- An occurrence opens at second 0 of a minute. -/
theorem opening_mod {w : ℕ × ℕ} (hw : w ∈ occurrences table) : w.1 % 60 = 0 := by
  obtain ⟨e, he, hopen, -⟩ := hw
  have hmod := (h.line e he).valid.mod_of_occurs hopen
  have hmin := AddEvent.Valid.opensAt_mod (e := e)
  omega

/-- An occurrence is known by its opening. -/
theorem window_unique {v w : ℕ × ℕ} (hv : v ∈ occurrences table) (hw : w ∈ occurrences table)
    (heq : v.1 = w.1) : v = w := by
  obtain ⟨e, he, hopen, hclose⟩ := hv
  obtain ⟨e', he', hopen', hclose'⟩ := hw
  have hmod := (h.line e he).valid.mod_of_occurs hopen
  have hmod' := (h.line e' he').valid.mod_of_occurs hopen'
  have hlength := h.duration e he e' he' (by rw [← hmod, ← hmod', heq])
  exact Prod.ext heq (by rw [hclose, hclose', heq, hlength])

/-- Where an occurrence has closed, none opens in the minute after. -/
theorem minute_after_close {v w : ℕ × ℕ} (hv : v ∈ occurrences table)
    (hw : w ∈ occurrences table) (hle : v.2 ≤ w.1) : v.2 + 60 ≤ w.1 := by
  obtain ⟨e, he, hopen, hclose⟩ := hv
  obtain ⟨e', he', hopen', -⟩ := hw
  have hmod := (h.line e he).valid.mod_of_occurs hopen
  have hmod' := (h.line e' he').valid.mod_of_occurs hopen'
  have hapart := h.apart e he e' he'
  have hlt := (h.line e he).valid.opensAt_lt
  unfold AddEvent.closesAt at hapart
  omega

end Regular

/-- The alarm 1 of an event matches at its closing only, in the weeks around. -/
theorem HatchEvent.alarm1_matches_iff (ev : HatchEvent) {t : ℕ}
    (ht : t < ev.window.2 + 86400 * 28) (ht' : ev.window.2 < t + 86400 * 28) :
    ev.alarm1.Matches t ↔ t = ev.window.2 :=
  alarm1_matches_iff_of_near ev ht ht'

/-! ### The selection -/

/-- A time a year later than one that has passed this year from March on is more than a day
ahead. -/
theorem lt_thisYear_add {now month day hour minute : ℕ} (hmonth : 3 ≤ month) :
    now + 86400 < thisYear now month day hour minute + 86400 * 365 := by
  have hnow := (@mem_block_yearsAt 1970 now).2
  have hmarch : 59 ≤ Date.monthStart (1970 + yearsAt 1970 now) month :=
    le_trans (by unfold Date.monthStart; cases decide (IsLeap (1970 + yearsAt 1970 now)) <;> decide)
      (Date.monthStart_mono _ hmonth)
  have hyear : yearLength (1970 + yearsAt 1970 now) ≤ 366 := by
    unfold yearLength
    split <;> omega
  rw [YearDay.start_yearSeconds, Date.yearStart_succ] at hnow
  unfold thisYear
  omega

/-- The month and day of a line from March on exist in every year. -/
theorem isDate_of_march {month day : ℕ} (hmonth : 3 ≤ month)
    (h : 1 ≤ month ∧ month ≤ 12 ∧ 1 ≤ day ∧ day ≤ Gregorian.monthDays true month) (y : ℕ) :
    IsDate y month day := by
  have hlength : monthLength y month = monthLength 2000 month :=
    monthLength_of_ne_two (by omega)
  exact ⟨h.1, h.2.1, h.2.2.1, h.2.2.2.trans hlength.ge⟩

/-- The window of the event of a regular line is as long as the line says. -/
theorem AddEvent.Regular.event_window {e : AddEvent} (he : e.Regular) {now : UInt32}
    (hnow : InRtcYears now) : (e.event now).window =
      ((e.event now).openTime.toNat, (e.event now).openTime.toNat + e.openForSeconds.toNat) := by
  have hmax := he.le_day
  have hfit := (event_openTime_spec hnow he.valid).2
  exact Prod.ext rfl (he.keeps.closeTime (by omega))

/-- **The event of a line**, as far as the next day goes, is the next occurrence of the line. -/
theorem event_isNextWithin {e : AddEvent} (he : e.Regular) {now : UInt32} (hnow : InRtcYears now) :
    IsNextWithin (occurrences [e]) now.toNat (now.toNat + 86400) (e.event now).window := by
  rw [he.event_window hnow]
  cases e with
  | daily hour minute d =>
    obtain ⟨hh, hm⟩ := he.valid
    have hopen : ((AddEvent.daily hour minute d).event now).openTime.toNat =
        nextDaily (secondOfDay hour.toNat minute.toNat 0) now.toNat :=
      daily_openTime_eq hnow _ hh hm
    obtain ⟨⟨hlt, hmod⟩, hleast⟩ :=
      isLeast_nextDaily (secondOfDay_lt hh hm (show 0 < 60 by omega)) now.toNat
    rw [hopen]
    refine ⟨fun _ ↦ ⟨mem_occurrences_singleton.2 ⟨(civil_time_iff hm).2 hmod, rfl⟩, hlt⟩, ?_⟩
    intro w hw hnw _
    exact hleast ⟨hnw, (civil_time_iff hm).1 (mem_occurrences_singleton.1 hw).1⟩
  | yearly month day hour minute d =>
    obtain ⟨hdate, hh, hm⟩ := he.valid
    have hmarch : 3 ≤ month.toNat := he.fromMarch
    set A : YearDay := ⟨month.toNat, day.toNat, isDate_of_march hmarch hdate⟩ with hA
    set tod := secondOfDay hour.toNat minute.toNat 0 with htod
    set o := A.instantIn 1970 tod (yearsAt 1970 now.toNat) with ho
    have hopen : ((AddEvent.yearly month day hour minute d).event now).openTime.toNat =
        if now.toNat < o then o else o + 86400 * 365 := by
      have h := yearly_openTime_eq hnow A d hh hm
      rwa [show UInt8.ofNat A.month = month from UInt8.ofNat_toNat,
        show UInt8.ofNat A.day = day from UInt8.ofNat_toNat] at h
    obtain ⟨⟨hlt, hmonth, hday, hmod⟩, hleast⟩ :=
      @YearDay.isLeast_nextYearly 1970 A _ (secondOfDay_lt hh hm (show 0 < 60 by omega)) now.toNat
    have hnext : ∀ w ∈ occurrences [.yearly month day hour minute d], now.toNat < w.1 →
        A.nextYearly 1970 tod now.toNat ≤ w.1 := by
      intro w hw hnw
      obtain ⟨⟨hwdate, hwtime⟩, -⟩ := mem_occurrences_singleton.1 hw
      exact hleast ⟨hnw, hwdate.1, hwdate.2, (civil_time_iff hm).1 hwtime⟩
    rw [hopen]
    by_cases hahead : now.toNat < o
    · have heq : A.nextYearly 1970 tod now.toNat = o := by
        rw [YearDay.nextYearly, Blocks.next, if_pos hahead]
      rw [if_pos hahead, ← heq]
      exact ⟨fun _ ↦ ⟨mem_occurrences_singleton.2
        ⟨⟨⟨hmonth, hday⟩, (civil_time_iff hm).2 hmod⟩, rfl⟩, hlt⟩, fun w hw hnw _ ↦ hnext w hw hnw⟩
    · -- the day has passed: neither the event nor the next occurrence opens within a day
      have heq : A.nextYearly 1970 tod now.toNat =
          A.instantIn 1970 tod (yearsAt 1970 now.toNat + 1) := by
        rw [YearDay.nextYearly, Blocks.next, if_neg hahead]
      have hfar := @lt_thisYear_add now.toNat month.toNat day.toNat hour.toNat minute.toNat hmarch
      have hle : o + 86400 * 365 ≤ A.nextYearly 1970 tod now.toNat := by
        rw [heq, YearDay.instantIn_succ, ← ho]
        split <;> omega
      rw [show month.toNat = A.month from rfl, show day.toNat = A.day from rfl,
        thisYear_eq_instantIn, ← htod, ← ho] at hfar
      rw [if_neg hahead]
      refine ⟨fun h ↦ absurd h (not_le.2 hfar), fun w hw hnw hnear ↦ ?_⟩
      have := hnext w hw hnw
      omega

/-- An event that opens first is selected. -/
theorem setNextEvent_window (nextEvent event : HatchEvent) :
    (setNextEvent nextEvent event).window =
      if event.window.1 < nextEvent.window.1 then event.window else nextEvent.window := by
  rw [setNextEvent, apply_ite HatchEvent.window]
  exact if_congr UInt32.lt_iff_toNat_lt rfl rfl

/-- Before any line, nothing within the day is known. -/
theorem empty_isNextWithin {t : ℕ} (ht : t < endInstant) :
    IsNextWithin (occurrences []) t (t + 86400) HatchEvent.empty.window := by
  have hempty : HatchEvent.empty.window.1 = 2 ^ 32 - 1 := rfl
  unfold endInstant at ht
  refine ⟨fun h ↦ ?_, fun w hw ↦ ?_⟩
  · rw [hempty] at h
    omega
  · obtain ⟨e, he, -⟩ := hw
    exact absurd he List.not_mem_nil

/-- **One line more**: the constructor reads a time `now` after `t`, and nothing opens between the
two. -/
theorem addEvent_isNextWithin {lines : List AddEvent} {nextEvent : HatchEvent} {t : ℕ}
    (h : IsNextWithin (occurrences lines) t (t + 86400) nextEvent.window) {e : AddEvent}
    (he : e.Regular) {now : UInt32} (hnow : InRtcYears now) (hle : t ≤ now.toNat)
    (hnone : ∀ w ∈ occurrences [e], t < w.1 → now.toNat < w.1) :
    IsNextWithin (occurrences (lines ++ [e])) t (t + 86400) (addEvent now nextEvent e).window := by
  have hevent :=
    (event_isNextWithin he hnow).of_le hle (Nat.add_le_add_right hle 86400) hnone
  rw [addEvent, setNextEvent_window, occurrences_append]
  exact h.union hevent

/-- **A regular table has an occurrence within every day**, so what is next within the day is
next. -/
theorem Regular.isNext_of_within {table : List AddEvent} (h : Regular table) {t : ℕ} {w : ℕ × ℕ}
    (hw : IsNextWithin (occurrences table) t (t + 86400) w) :
    IsNext (occurrences table) t w ∧ w.1 ≤ t + 86400 := by
  obtain ⟨e, he, hdaily⟩ := h.everyDay
  have hvalid := (h.line e he).valid
  cases e with
  | yearly => exact hdaily.elim
  | daily hour minute d =>
    have htod := secondOfDay_lt hvalid.1 hvalid.2 (show 0 < 60 by omega)
    have hday := nextDaily_le (t := t) htod
    obtain ⟨hlt, hmod⟩ := (isLeast_nextDaily htod t).1
    have hmem : (nextDaily (secondOfDay hour.toNat minute.toNat 0) t,
        nextDaily (secondOfDay hour.toNat minute.toNat 0) t + d.toNat) ∈ occurrences table :=
      ⟨_, he, (civil_time_iff hvalid.2).2 hmod, rfl⟩
    have hle : w.1 ≤ t + 86400 := (hw.le_of_lt _ hmem hlt hday).trans hday
    exact ⟨hw.isNext hle, hle⟩

end Schedule
