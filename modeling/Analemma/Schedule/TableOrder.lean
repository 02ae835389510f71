import Analemma.Schedule.Occurrences

/-!
# The order of the lines of a table

`setNextEvent` replaces the next event only by one that opens strictly earlier, so of the lines
whose events open first the one written first is selected. The opening does not depend on the order
of the lines; the closing does where such lines close at different times (`TiesClose`,
`forall_perm_addEvents_iff`).

In a `Regular` table lines of one time of the day have one duration, so the order of the tables of
the sketches does not matter (`Regular.addEvents_perm`).

The selection is the fold of `LeastChoice`, with the opening as the key, and its general lemmas on
permutations and on the first of the best values are instantiated here. Ties are the only way in
which the order can matter. A tie with two closings needs two lines of one time of the day and of
different durations, which a table may have: `order_matters` exhibits one, and `Regular` excludes
it.
-/

namespace Schedule

open TimeLib Gregorian DS3231 LeastChoice

/-- The line's event opens first: not after the event of any line, and before the empty event. -/
def OpensFirst (now : UInt32) (table : List AddEvent) (e : AddEvent) : Prop :=
  e ∈ table ∧ (e.event now).openTime < HatchEvent.empty.openTime ∧
    ∀ x ∈ table, (e.event now).openTime ≤ (x.event now).openTime

/-- Lines whose events open first close at the same time. -/
def TiesClose (now : UInt32) (table : List AddEvent) : Prop :=
  ∀ e e', OpensFirst now table e → OpensFirst now table e' →
    (e.event now).closeTime = (e'.event now).closeTime

/-- To open first is to have the best event, as the selection compares events. -/
theorem best_iff_opensFirst {now : UInt32} {table : List AddEvent} {e : AddEvent} :
    Best HatchEvent.opening (·.event now) .empty table e ↔ OpensFirst now table e := by
  simp only [Best, OpensFirst, HatchEvent.opening, UInt32.lt_iff_toNat_lt, UInt32.le_iff_toNat_le]

/-- Lines that open first open at the same time. -/
theorem OpensFirst.openTime_eq {now : UInt32} {table : List AddEvent} {e e' : AddEvent}
    (h : OpensFirst now table e) (h' : OpensFirst now table e') :
    (e.event now).openTime = (e'.event now).openTime :=
  UInt32.le_antisymm (h.2.2 e' h'.1) (h'.2.2 e h.1)

/-- The opening that is selected does not depend on the order. -/
theorem openTime_addEvents_of_perm (now : UInt32) {table table' : List AddEvent}
    (h : table.Perm table') : (addEvents now table').openTime = (addEvents now table).openTime := by
  rw [← UInt32.toNat_inj, addEvents_eq_choose, addEvents_eq_choose]
  exact key_choose_perm HatchEvent.opening _ (h.map _)

/-- The event that is selected does not depend on the order exactly when ties close together: an
event is known by its two times. -/
theorem forall_perm_addEvents_iff (now : UInt32) (table : List AddEvent) :
    (∀ table', table.Perm table' → addEvents now table' = addEvents now table) ↔
      TiesClose now table := by
  simp only [addEvents_eq_choose, events]
  rw [forall_perm_choose_eq_iff]
  simp only [best_iff_opensFirst, TiesClose]
  refine forall₂_congr fun e e' ↦ forall₂_congr fun he he' ↦ ?_
  exact ⟨fun h ↦ congrArg HatchEvent.closeTime h, fun h ↦ HatchEvent.ext (he.openTime_eq he') h⟩

/-- Of the lines whose events open first, the one that is called first is selected. -/
theorem addEvents_eq_event_of_first {now : UInt32} {table before after : List AddEvent}
    {e : AddEvent} (htable : table = before ++ e :: after) (he : OpensFirst now table e)
    (hfirst : ∀ x ∈ before, ¬ OpensFirst now table x) : addEvents now table = e.event now := by
  obtain ⟨-, hlt, hle⟩ := he
  have hmem : ∀ x ∈ before ++ e :: after, x ∈ table := fun x hx ↦ htable ▸ hx
  rw [addEvents_eq_choose, events, htable, List.map_append, List.map_cons]
  refine choose_append_cons HatchEvent.opening (UInt32.lt_iff_toNat_lt.1 hlt) ?_ ?_
  · intro y hy
    obtain ⟨x, hx, rfl⟩ := List.mem_map.1 hy
    -- a line before it that opens no later would open first itself
    refine not_le.1 fun hnot ↦ hfirst x hx ?_
    have hxe : (x.event now).openTime ≤ (e.event now).openTime := UInt32.le_iff_toNat_le.2 hnot
    exact ⟨hmem x (List.mem_append_left _ hx), UInt32.lt_of_le_of_lt hxe hlt,
      fun z hz ↦ UInt32.le_trans hxe (hle z hz)⟩
  · intro y hy
    obtain ⟨x, hx, rfl⟩ := List.mem_map.1 hy
    exact UInt32.le_iff_toNat_le.1
      (hle x (hmem x (List.mem_append_right _ (List.mem_cons_of_mem e hx))))

/-- **The order of the lines.** Every permutation of a table selects the same opening; every
permutation selects the same event exactly when the lines that open first close at the same time;
and of the lines that open first the one that is called first is selected. -/
theorem addEvents_perm_iff (now : UInt32) (table : List AddEvent) :
    (∀ table', table.Perm table' →
        (addEvents now table').openTime = (addEvents now table).openTime) ∧
      ((∀ table', table.Perm table' → addEvents now table' = addEvents now table) ↔
        TiesClose now table) ∧
      ∀ before e after, table = before ++ e :: after → OpensFirst now table e →
        (∀ x ∈ before, ¬ OpensFirst now table x) → addEvents now table = e.event now :=
  ⟨fun _ h ↦ openTime_addEvents_of_perm now h, forall_perm_addEvents_iff now table,
    fun _ _ _ htable he hfirst ↦ addEvents_eq_event_of_first htable he hfirst⟩

/-- On the day of the September equinox, a daily line at three and the equinox line open first, and
the one written first decides when the hatch closes. -/
theorem order_matters :
    ¬ ∀ (now : UInt32) (table table' : List AddEvent), table.Perm table' →
      addEvents now table' = addEvents now table := by
  intro h
  have heq := h 969580800 [.daily 3 0 (2 * secsPerHour), .yearly 9 22 3 0 (20 * secsPerHour)]
    [.yearly 9 22 3 0 (20 * secsPerHour), .daily 3 0 (2 * secsPerHour)] (.swap _ _ _)
  exact absurd heq (by decide +kernel)

/-! ### The tables of the sketches -/

/-- The event of a valid line opens at the line's time of the day, also where the yearly constructor
is a day early. -/
theorem event_openTime_mod {now : UInt32} (hnow : InRtcYears now) {e : AddEvent} (he : e.Valid) :
    (e.event now).openTime.toNat % 86400 = e.opensAt := by
  cases e with
  | daily hour minute d =>
    obtain ⟨hh, hm⟩ := he
    simp only [AddEvent.event, daily_openTime_eq hnow _ hh hm]
    exact (isLeast_nextDaily (secondOfDay_lt hh hm (show 0 < 60 by omega)) now.toNat).1.2
  | yearly month day hour minute d =>
    obtain ⟨⟨hmonth, hmonth', hday, hday'⟩, hh, hm⟩ := he
    have htod := secondOfDay_lt hh hm (show 0 < 60 by omega)
    have hlt := thisYear_lt hnow hmonth' (hday'.trans monthDays_true_le) htod
    have hmod : thisYear now.toNat month.toNat day.toNat hour.toNat minute.toNat % 86400 =
        secondOfDay hour.toNat minute.toNat 0 := by
      unfold thisYear
      omega
    simp only [AddEvent.event, AddEvent.opensAt]
    rw [HatchEvent.yearly_openTime d hmonth hmonth' hday (by omega)]
    simp only
    split <;> omega

/-- **A regular table selects the same event in every order**, and so do the tables of the
sketches. -/
theorem Regular.addEvents_perm {table table' : List AddEvent} (h : Regular table) {now : UInt32}
    (hnow : InRtcYears now) (hperm : table.Perm table') :
    addEvents now table' = addEvents now table := by
  refine (forall_perm_addEvents_iff now table).2 (fun e e' he he' ↦ ?_) table' hperm
  have hopen := he.openTime_eq he'
  have hmod := event_openTime_mod hnow (h.line e he.1).valid
  have hmod' := event_openTime_mod hnow (h.line e' he'.1).valid
  have hlength := h.duration e he.1 e' he'.1 (by rw [← hmod, ← hmod', hopen])
  have hclose := congrArg Prod.snd ((h.line e he.1).event_window hnow)
  have hclose' := congrArg Prod.snd ((h.line e' he'.1).event_window hnow)
  simp only [HatchEvent.window] at hclose hclose'
  rw [← UInt32.toNat_inj, hclose, hclose', hopen, hlength]

end Schedule
