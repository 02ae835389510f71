import Analemma.Schedule.Constructors

/-!
# What the alarms of a schedule mean

`setAlarms` squeezes the two times of the next event into a day of the month and a time of the day.
The event is a full date; the alarms fire on that day of every month that has it.

`alarms_isLeast_iff` says when the first matches are the times of the event: the opening must lie
ahead of the current instant, and the closing ahead of the opening, by no more than the distance to
the last earlier day with the same number (`AlarmsReach`). That distance is a month, or two where
the month between is too short.

`Matches` is about registers and `monthlyGap` about the calendar, and
`Gregorian.isLeast_sameDay_iff` joins them: of the instants after `now` with a day of the month and
a time of the day, a given one is the first exactly when it is close enough. Both alarms are
instances, for the opening counted from `now` and for the closing counted from the opening. The
opening of a daily line is always close enough, and that of a yearly one only in the weeks before
its day.
-/

namespace Schedule

open TimeLib Gregorian DS3231 LeastChoice

/-- The events the lines of a table build, all at one value of `now()`. -/
def events (now : UInt32) (table : List AddEvent) : List HatchEvent := table.map (·.event now)

/-- The key events are compared by: the opening, as a number. -/
def HatchEvent.opening (ev : HatchEvent) : ℕ := ev.openTime.toNat

/-- `setNextEvent` keeps the better of two events. -/
theorem setNextEvent_eq_better : setNextEvent = better HatchEvent.opening := by
  funext nextEvent event
  have hlt := UInt32.lt_iff_toNat_lt (a := event.openTime) (b := nextEvent.openTime)
  unfold setNextEvent better HatchEvent.opening
  split_ifs <;> tauto

/-- `addEvents` keeps the best event of the table. -/
theorem addEvents_eq_choose (now : UInt32) (table : List AddEvent) :
    addEvents now table = choose HatchEvent.opening .empty (events now table) := by
  rw [addEvents, events, choose, List.foldl_map, ← setNextEvent_eq_better]
  rfl

/-- The event selected from a table of valid lines is the event of one of them. -/
theorem addEvents_mem_events {now : UInt32} (hnow : InRtcYears now) {table : List AddEvent}
    (hne : table ≠ []) (hvalid : ∀ e ∈ table, e.Valid) :
    addEvents now table ∈ events now table := by
  obtain ⟨e, table, rfl⟩ := List.exists_cons_of_ne_nil hne
  have hlt := (event_openTime_spec hnow (hvalid e List.mem_cons_self)).2
  rw [addEvents_eq_choose]
  exact choose_mem_of_lt _ (x := e.event now) List.mem_cons_self (lt_of_lt_of_le hlt (by decide))

/-! ### The programmed registers -/

/-- What alarm 2 matches, once it is programmed for an event: the day of the month and the time of
the opening. -/
theorem alarm2_matches (ev : HatchEvent) (hmod : ev.openTime.toNat % 60 = 0) (t : ℕ) :
    ev.alarm2.Matches t ↔
      (civil t).day = (civil ev.openTime.toNat).day ∧
        t % 86400 = ev.openTime.toNat % 86400 := by
  have hsecond : (civil ev.openTime.toNat).second = 0 := hmod
  rw [← secondOfDay_civil ev.openTime.toNat, hsecond]
  simp only [HatchEvent.alarm2, breakTime_eq]
  exact alarm2Registers_matches (civil ev.openTime.toNat) t

/-- And alarm 1: those of the closing, to the second. -/
theorem alarm1_matches (ev : HatchEvent) (t : ℕ) :
    ev.alarm1.Matches t ↔
      (civil t).day = (civil ev.closeTime.toNat).day ∧
        t % 86400 = ev.closeTime.toNat % 86400 := by
  rw [← secondOfDay_civil ev.closeTime.toNat]
  simp only [HatchEvent.alarm1, breakTime_eq]
  exact alarm1Registers_matches (civil ev.closeTime.toNat) t

/-- **Less than four weeks apart**, two instants with the same day of the month and the same time of
the day are one. -/
theorem eq_of_day_eq {t u : ℕ} (hday : (civil t).day = (civil u).day)
    (hmod : t % 86400 = u % 86400) (htu : t < u + 86400 * 28) (hut : u < t + 86400 * 28) :
    t = u := by
  have hdays : ∀ x : ℕ, (civil x).toDate.toDays = x / 86400 := fun x ↦ by
    rw [DateTime.toDate_ofSeconds, Date.toDays_ofDays]
  have hd := hdays t
  have hd' := hdays u
  rcases Nat.lt_trichotomy (t / 86400) (u / 86400) with hlt | heq | hlt
  · have h := Date.add_twentyEight_le_of_day_eq hday (by rw [hd, hd']; exact hlt)
    omega
  · omega
  · have h := Date.add_twentyEight_le_of_day_eq hday.symm (by rw [hd, hd']; exact hlt)
    omega

/-- Near the opening of an event, its alarm 2 matches at the opening only. -/
theorem alarm2_matches_iff_of_near (ev : HatchEvent) (hmod : ev.openTime.toNat % 60 = 0) {t : ℕ}
    (ht : t < ev.openTime.toNat + 86400 * 28) (ht' : ev.openTime.toNat < t + 86400 * 28) :
    ev.alarm2.Matches t ↔ t = ev.openTime.toNat := by
  rw [alarm2_matches ev hmod]
  exact ⟨fun h ↦ eq_of_day_eq h.1 h.2 ht ht', fun h ↦ by rw [h]; exact ⟨rfl, rfl⟩⟩

/-- Near the closing of an event, its alarm 1 matches at the closing only. -/
theorem alarm1_matches_iff_of_near (ev : HatchEvent) {t : ℕ}
    (ht : t < ev.closeTime.toNat + 86400 * 28) (ht' : ev.closeTime.toNat < t + 86400 * 28) :
    ev.alarm1.Matches t ↔ t = ev.closeTime.toNat := by
  rw [alarm1_matches ev]
  exact ⟨fun h ↦ eq_of_day_eq h.1 h.2 ht ht', fun h ↦ by rw [h]; exact ⟨rfl, rfl⟩⟩

/-- How many seconds before an instant the last instant with its day of the month and its time
lies. -/
def monthlyGap (t : ℕ) : ℕ := 86400 * (civil t).sameDayGap

/-- The instants of the clock have two months before them, as the gap may need. -/
theorem two_le_monthIndex {t : ℕ} (h : firstInstant ≤ t) : 2 ≤ (civil t).monthIndex := by
  rw [← yearStart_2000] at h
  have hyear : 1970 + 30 ≤ (civil t).year := le_year_of_le h
  clear h
  unfold Date.monthIndex
  omega

/-! ### When the first matches are the times of the event -/

/-- The opening lies ahead of `now`, and the closing ahead of the opening, by at most the distance
to the last earlier day of the month with the same number. -/
def AlarmsReach (now : ℕ) (ev : HatchEvent) : Prop :=
  (now < ev.openTime.toNat ∧ ev.openTime.toNat ≤ now + monthlyGap ev.openTime.toNat) ∧
    ev.openTime.toNat < ev.closeTime.toNat ∧
      ev.closeTime.toNat ≤ ev.openTime.toNat + monthlyGap ev.closeTime.toNat

/-- The first match of alarm 2 is the opening exactly when that lies within reach. -/
theorem isLeast_alarm2_iff {now : ℕ} (hnow : firstInstant ≤ now) {ev : HatchEvent}
    (hmod : ev.openTime.toNat % 60 = 0) :
    IsLeast {t | now < t ∧ ev.alarm2.Matches t} ev.openTime.toNat ↔
      now < ev.openTime.toNat ∧ ev.openTime.toNat ≤ now + monthlyGap ev.openTime.toNat := by
  simp only [alarm2_matches ev hmod]
  exact isLeast_sameDay_iff fun h ↦ two_le_monthIndex (hnow.trans h.le)

/-- The first match of alarm 1 is the closing exactly when that lies within reach. -/
theorem isLeast_alarm1_iff {now : ℕ} (hnow : firstInstant ≤ now) (ev : HatchEvent) :
    IsLeast {t | now < t ∧ ev.alarm1.Matches t} ev.closeTime.toNat ↔
      now < ev.closeTime.toNat ∧ ev.closeTime.toNat ≤ now + monthlyGap ev.closeTime.toNat := by
  simp only [alarm1_matches ev]
  exact isLeast_sameDay_iff fun h ↦ two_le_monthIndex (hnow.trans h.le)

/-- **What the programmed alarms mean.** After the calls of a non-empty table of valid lines and
`setAlarms`, the first match of alarm 2 after `now` is the opening of the selected event and the
first match of alarm 1 after the opening is its closing, exactly when the event is within the reach
of alarms that know neither month nor year. -/
theorem alarms_isLeast_iff {now : UInt32} (hnow : InRtcYears now) {table : List AddEvent}
    (hne : table ≠ []) (hvalid : ∀ e ∈ table, e.Valid) :
    let ev := addEvents now table
    (IsLeast {t | now.toNat < t ∧ ev.alarm2.Matches t} ev.openTime.toNat ∧
        IsLeast {t | ev.openTime.toNat < t ∧ ev.alarm1.Matches t} ev.closeTime.toNat) ↔
      AlarmsReach now.toNat ev := by
  intro ev
  obtain ⟨e, he, heq⟩ := List.mem_map.1 (addEvents_mem_events hnow hne hvalid)
  have hmod : ev.openTime.toNat % 60 = 0 := by
    have h := (event_openTime_spec hnow (hvalid e he)).1
    rwa [heq] at h
  rw [isLeast_alarm2_iff hnow.1 hmod, AlarmsReach]
  refine and_congr_right fun hopen ↦ ?_
  exact isLeast_alarm1_iff (hnow.1.trans hopen.1.le) ev

/-- With a single midsummer line, on New Year's Day 2000, the selected event opens in June. -/
theorem addEvents_midsummer :
    addEvents 946684800 [.yearly 6 20 3 0 (20 * secsPerHour)] = ⟨961470000, 961542000⟩ := by
  decide +kernel

/-- Its alarm already fires on the twentieth of January. -/
theorem alarms_not_isLeast :
    ¬ ∀ (now : UInt32) (table : List AddEvent), InRtcYears now → table ≠ [] →
      (∀ e ∈ table, e.Valid) →
      (∀ e ∈ table, 1 ≤ e.openForSeconds.toNat ∧
        (e.event now).openTime.toNat + e.openForSeconds.toNat ≤ 2 ^ 32 - 1) →
      let ev := addEvents now table
      IsLeast {t | now.toNat < t ∧ ev.alarm2.Matches t} ev.openTime.toNat ∧
        IsLeast {t | ev.openTime.toNat < t ∧ ev.alarm1.Matches t} ev.closeTime.toNat := by
  intro h
  have hleast := (h 946684800 [.yearly 6 20 3 0 (20 * secsPerHour)] (by decide) (by simp)
    (by decide) (by decide +kernel)).1
  have hearly := hleast.2 (show 948337200 ∈ _ from ⟨by decide, by decide +kernel⟩)
  rw [addEvents_midsummer] at hearly
  exact absurd hearly (by decide)

/-- With the table of `analemma_1` the alarms of New Year's Day 2000 mean the selected event. -/
theorem alarms_isLeast_analemma1 :
    let ev := addEvents 946684800 analemma1Table
    IsLeast {t | 946684800 < t ∧ ev.alarm2.Matches t} ev.openTime.toNat ∧
      IsLeast {t | ev.openTime.toNat < t ∧ ev.alarm1.Matches t} ev.closeTime.toNat :=
  (@alarms_isLeast_iff 946684800 (by decide) analemma1Table (by decide) (by decide)).2 (by
    unfold AlarmsReach
    decide +kernel)

end Schedule
