import Analemma.Schedule.Occurrences

/-!
# Rescheduling at every closing

The life of a schedule, less the hardware: `makeSchedule` selects an event at the start, and then
again at every closing (`run`). For a table of daily lines the run performs the occurrences of the
lines greedily, so it leaves out only what opens while another window is open, or at the moment it
closes.

With windows that are disjoint on the 24-hour circle the first cannot happen. The second can: the
constructors take an event that opens at the current instant for one that has passed. So what the
run leaves out is exactly what opens at the closing of a window that it has selected
(`dropsTouchingUpTo`), and it selects every occurrence exactly when no line opens at the very second
at which another one closes (`run_selects_iff`). An occurrence that opens at the closing of one that
was itself left out is selected: of lines that touch in a row, every second one is lost.

The run is a function of the table and of the starting time, without hardware: it says what is lost
by the way in which the next event is chosen, and by nothing else. `run_greedy` is the step from the
code to `GreedyWindows`; all that follows, the openings in order and what is left out, is said there
of any set of windows.

The horizon `H` keeps the run inside 32 bits: the last opening up to it and one selection more must
not wrap. The run itself does not stop there.
-/

namespace Schedule

open TimeLib Gregorian DS3231 LeastChoice GreedyWindows

/-- The event selected at the start, and then at each closing: the `k`-th schedule of the sketch, as
if each closing were answered at once. -/
def run (table : List AddEvent) (start : UInt32) : ℕ → HatchEvent
  | 0 => addEvents start table
  | k + 1 => addEvents (run table start k).closeTime table

/-- A daily line with an hour and a minute that exist and a positive duration that fits into an
`int`. -/
def AddEvent.IsDaily : AddEvent → Prop
  | daily hour minute d => hour.toNat < 24 ∧ minute.toNat < 60 ∧ 1 ≤ d.toNat ∧ d.toNat ≤ 32767
  | yearly .. => False

instance : DecidablePred AddEvent.IsDaily
  | .daily .. => inferInstanceAs (Decidable (_ ∧ _ ∧ _ ∧ _))
  | .yearly .. => inferInstanceAs (Decidable False)

theorem AddEvent.IsDaily.valid {e : AddEvent} (h : e.IsDaily) : e.Valid := by
  cases e with
  | daily => exact ⟨h.1, h.2.1⟩
  | yearly => exact h.elim

theorem AddEvent.IsDaily.duration_pos {e : AddEvent} (h : e.IsDaily) :
    1 ≤ e.openForSeconds.toNat := by
  cases e with
  | daily => exact h.2.2.1
  | yearly => exact h.elim

/-- The window of a daily line is open for 32767 seconds at most, which are nine hours and six
minutes. -/
theorem AddEvent.IsDaily.duration_le {e : AddEvent} (h : e.IsDaily) :
    e.openForSeconds.toNat ≤ 32767 := by
  cases e with
  | daily => exact h.2.2.2
  | yearly => exact h.elim

/-- A daily line opens whenever it is its time of the day. -/
theorem AddEvent.IsDaily.occurs_iff {e : AddEvent} (h : e.IsDaily) {t : ℕ} :
    e.Occurs t ↔ t % 86400 = e.opensAt := by
  cases e with
  | daily => exact civil_time_iff h.2.1
  | yearly => exact h.elim

/-- The window of a line covers a second of the day, seen on the 24-hour circle. -/
def AddEvent.Covers (e : AddEvent) (s : ℕ) : Prop :=
  (s + 86400 - e.opensAt) % 86400 < e.openForSeconds.toNat

instance (e : AddEvent) (s : ℕ) : Decidable (e.Covers s) :=
  inferInstanceAs (Decidable (_ < _))

/-- The windows of the lines are pairwise disjoint on the 24-hour circle. -/
def DisjointOnCircle (table : List AddEvent) : Prop :=
  table.Pairwise fun e e' ↦ ∀ s < 86400, ¬ (e.Covers s ∧ e'.Covers s)

/-- No line opens at the second at which a line closes. -/
def NoTouch (table : List AddEvent) : Prop :=
  ∀ e ∈ table, ∀ e' ∈ table, e.closesAt ≠ e'.opensAt

/-- The run, up to an instant `H`: after `n` selections it has left `H` behind, the openings before
are in strictly increasing order, and the windows are exactly the occurrences that open after the
start and up to `H`. -/
def SelectsAllUpTo (table : List AddEvent) (start : UInt32) (H : ℕ) : Prop :=
  ∃ n, H < (run table start n).openTime.toNat ∧
    (∀ j k, j < k → k < n →
      (run table start j).openTime.toNat < (run table start k).openTime.toNat) ∧
    ∀ w, (∃ k < n, (run table start k).window = w) ↔
      w ∈ occurrences table ∧ start.toNat < w.1 ∧ w.1 ≤ H

/-- The run, up to an instant `H`, where windows may touch: as in `SelectsAllUpTo`, but of the
occurrences those are left out that open at the closing of a window that has been selected, and
these only. -/
def DropsTouchingUpTo (table : List AddEvent) (start : UInt32) (H : ℕ) : Prop :=
  ∃ n, H < (run table start n).openTime.toNat ∧
    (∀ j k, j < k → k < n →
      (run table start j).openTime.toNat < (run table start k).openTime.toNat) ∧
    ∀ w, (∃ k < n, (run table start k).window = w) ↔
      w ∈ occurrences table ∧ start.toNat < w.1 ∧ w.1 ≤ H ∧
        ∀ k < n, (run table start k).closeTime.toNat ≠ w.1

/-! ### One selection -/

section Daily

variable {table : List AddEvent} (hdaily : ∀ e ∈ table, e.IsDaily)

include hdaily

theorem occurrences_lt : ∀ w ∈ occurrences table, w.1 < w.2 := by
  rintro ⟨o, c⟩ ⟨e, he, -, hc⟩
  have := (hdaily e he).duration_pos
  simp only at hc ⊢
  omega

/-- The event of a daily line: the next opening, and a window of the duration of the line. -/
theorem daily_event_window {e : AddEvent} (he : e ∈ table) {now : UInt32}
    (hnow : now.toNat + 259200 ≤ 2 ^ 32) :
    (e.event now).window =
      (nextDaily e.opensAt now.toNat, nextDaily e.opensAt now.toNat + e.openForSeconds.toNat) := by
  have hd := hdaily e he
  have hle := nextDaily_le (t := now.toNat) hd.valid.opensAt_lt
  have hopen : (e.event now).openTime.toNat = nextDaily e.opensAt now.toNat := by
    cases e with
    | daily hour minute d => exact HatchEvent.daily_openTime _ hd.1 hd.2.1 (by omega)
    | yearly => exact hd.elim
  have hkeeps : e.KeepsDuration := by
    cases e with
    | daily hour minute d => exact Or.inl hd.2.2.2
    | yearly => exact hd.elim
  have hlength := hd.duration_le
  rw [HatchEvent.window, hkeeps.closeTime (by omega), hopen]

/-- **One selection**: from a table with lines, the event selected at `now` is the next occurrence
to open strictly after `now`. -/
theorem isNext_addEvents (hne : table ≠ []) {now : UInt32} (hnow : now.toNat + 259200 ≤ 2 ^ 32) :
    IsNext (occurrences table) now.toNat (addEvents now table).window := by
  obtain ⟨e₀, he₀⟩ := List.exists_mem_of_ne_nil table hne
  have hmemEvents : ∀ e ∈ table, e.event now ∈ events now table :=
    fun e he ↦ List.mem_map.2 ⟨e, he, rfl⟩
  have hopening : ∀ e ∈ table, (e.event now).opening = nextDaily e.opensAt now.toNat :=
    fun e he ↦ congrArg Prod.fst (daily_event_window hdaily he hnow)
  -- The empty event opens later than any line does, so the selected event is one of the lines.
  have hlt : (e₀.event now).opening < HatchEvent.empty.opening := by
    have := nextDaily_le (t := now.toNat) (hdaily e₀ he₀).valid.opensAt_lt
    rw [hopening e₀ he₀]
    exact lt_of_lt_of_le (show _ < 2 ^ 32 - 86400 by omega) (by decide)
  have hselected : addEvents now table ∈ events now table := by
    rw [addEvents_eq_choose]
    exact choose_mem_of_lt HatchEvent.opening (hmemEvents e₀ he₀) hlt
  obtain ⟨e, he, heq⟩ := List.mem_map.1 hselected
  have hleast := isLeast_nextDaily (hdaily e he).valid.opensAt_lt now.toNat
  refine ⟨⟨e, he, ?_⟩, ?_, ?_⟩
  · rw [← heq, daily_event_window hdaily he hnow]
    exact ⟨(hdaily e he).occurs_iff.2 hleast.1.2, rfl⟩
  · rw [← heq, daily_event_window hdaily he hnow]
    exact hleast.1.1
  · rintro w ⟨e', he', hopen, -⟩ hw
    have hmod := (hdaily e' he').occurs_iff.1 hopen
    have hbest := @key_choose_le_of_mem _ _ _ HatchEvent.opening .empty _ _ (hmemEvents e' he')
    rw [← addEvents_eq_choose, hopening e' he'] at hbest
    exact hbest.trans
      ((isLeast_nextDaily (hdaily e' he').valid.opensAt_lt now.toNat).2 ⟨hw, hmod⟩)

/-! ### A run of selections -/

/-- While the openings stay below `H`, the selections are greedy, and the next one follows. -/
theorem run_greedy (hne : table ≠ []) {start : UInt32} {H : ℕ} (hH : H + 345600 ≤ 2 ^ 32)
    (hstart : start.toNat ≤ H) (n : ℕ)
    (hle : ∀ k < n, (run table start k).openTime.toNat ≤ H) :
    Greedy (occurrences table) start.toNat
        ((List.range n).map fun k ↦ (run table start k).window) ∧
      IsNext (occurrences table)
        (lastClose start.toNat ((List.range n).map fun k ↦ (run table start k).window))
        (run table start n).window := by
  induction n with
  | zero => exact ⟨.nil _, isNext_addEvents hdaily hne (by omega)⟩
  | succ n ih =>
    obtain ⟨hgreedy, hnext⟩ := ih fun k hk ↦ hle k (by omega)
    obtain ⟨e, he, -, hclose⟩ := hnext.mem
    have hlen := (hdaily e he).duration_le
    have hn := hle n (by omega)
    simp only [HatchEvent.window] at hclose
    rw [List.range_succ, List.map_append, List.map_singleton, lastClose_append_singleton]
    exact ⟨hgreedy.append_singleton hnext, isNext_addEvents hdaily hne (by omega)⟩

/-- While the openings stay below `H`, each one lies after the closing before it. -/
theorem run_succ_openTime (hne : table ≠ []) {start : UInt32} {H : ℕ} (hH : H + 345600 ≤ 2 ^ 32)
    (hstart : start.toNat ≤ H) {n : ℕ}
    (hle : ∀ k < n + 1, (run table start k).openTime.toNat ≤ H) :
    (run table start n).closeTime.toNat < (run table start (n + 1)).openTime.toNat := by
  have hnext := (run_greedy hdaily hne hH hstart (n + 1) hle).2
  rw [List.range_succ, List.map_append, List.map_singleton, lastClose_append_singleton] at hnext
  exact hnext.lt

/-- The run leaves every instant behind: each opening is later than the one before it. -/
theorem exists_lt_run_openTime (hne : table ≠ []) {start : UInt32} {H : ℕ}
    (hH : H + 345600 ≤ 2 ^ 32) (hstart : start.toNat ≤ H) :
    ∃ n, H < (run table start n).openTime.toNat := by
  by_contra hnone
  have hle : ∀ k, (run table start k).openTime.toNat ≤ H :=
    fun k ↦ not_lt.1 fun hlt ↦ hnone ⟨k, hlt⟩
  have hgrows : ∀ k, k ≤ (run table start k).openTime.toNat := by
    intro k
    induction k with
    | zero => exact Nat.zero_le _
    | succ k ih =>
      have hsucc := run_succ_openTime hdaily hne hH hstart (n := k) fun j _ ↦ hle j
      have hpos := occurrences_lt hdaily _
        (run_greedy hdaily hne hH hstart k fun j _ ↦ hle j).2.mem
      simp only [HatchEvent.window] at hpos
      omega
  have := hle (H + 1)
  have := hgrows (H + 1)
  omega

/-- On disjoint windows, an occurrence that opens inside the window of another one is the same. -/
theorem eq_of_opens_inside (hdisj : DisjointOnCircle table) {v w : ℕ × ℕ}
    (hv : v ∈ occurrences table) (hw : w ∈ occurrences table) (hle : v.1 ≤ w.1)
    (hlt : w.1 < v.2) : v = w := by
  obtain ⟨e, he, heopen, hec⟩ := hv
  obtain ⟨e', he', heopen', hec'⟩ := hw
  have hemod := (hdaily e he).occurs_iff.1 heopen
  have hemod' := (hdaily e' he').occurs_iff.1 heopen'
  have hlen := (hdaily e he).duration_le
  have hopen := (hdaily e he).valid.opensAt_lt
  -- Both lines cover the second at which the later one opens.
  have hcover : e.Covers e'.opensAt := by
    unfold AddEvent.Covers
    omega
  have hcover' : e'.Covers e'.opensAt := by
    have := (hdaily e' he').duration_pos
    unfold AddEvent.Covers
    omega
  -- Disjoint lines share no second of the day.
  have heq : e = e' := by
    by_contra hne
    have : Std.Symm fun e e' : AddEvent ↦ ∀ s < 86400, ¬ (e.Covers s ∧ e'.Covers s) :=
      ⟨fun a b hab s hs hboth ↦ hab s hs hboth.symm⟩
    exact hdisj.forall he he' hne _ (hdaily e' he').valid.opensAt_lt ⟨hcover, hcover'⟩
  subst heq
  have hfst : v.1 = w.1 := by omega
  exact Prod.ext hfst (by rw [hec, hec', hfst])

/-- **What is dropped** is what opens at the closing of a window that has been selected. -/
theorem dropsTouchingUpTo (hdisj : DisjointOnCircle table) {start : UInt32} {H : ℕ}
    (hH : H + 345600 ≤ 2 ^ 32) (hstart : start.toNat ≤ H) : DropsTouchingUpTo table start H := by
  rcases eq_or_ne table [] with rfl | hne
  · have hnone : ∀ w, w ∉ occurrences [] := by
      rintro w ⟨e, he, -⟩
      exact absurd he List.not_mem_nil
    have hempty : (run [] start 0).openTime.toNat = 2 ^ 32 - 1 := rfl
    refine ⟨0, by omega, by omega, fun w ↦ ?_⟩
    exact iff_of_false (by omega) fun h ↦ hnone w h.1
  · have hex := exists_lt_run_openTime hdaily hne hH hstart
    set n := Nat.find hex with hn
    have hle : ∀ k < n, (run table start k).openTime.toNat ≤ H :=
      fun k hk ↦ not_lt.1 (Nat.find_min hex hk)
    obtain ⟨hgreedy, hnext⟩ := run_greedy hdaily hne hH hstart n hle
    have hpos := occurrences_lt hdaily
    set ws := (List.range n).map fun k ↦ (run table start k).window with hws
    have hmem : ∀ w, (∃ k < n, (run table start k).window = w) ↔ w ∈ ws := by
      simp [hws]
    refine ⟨n, Nat.find_spec hex, ?_, fun w ↦ ?_⟩
    · intro j k hjk hk
      have hpair := hgreedy.pairwise_lt hpos
      rw [hws, List.pairwise_map, List.pairwise_iff_getElem] at hpair
      have hlt := hpair j k (by simpa using hjk.trans hk) (by simpa using hk) hjk
      simp only [List.getElem_range] at hlt
      have := hpos _ (hgreedy.mem _ ((hmem _).1 ⟨j, hjk.trans hk, rfl⟩))
      exact this.trans hlt
    · have hpast : ∀ v ∈ ws, v.1 ≤ H := by
        intro v hv
        obtain ⟨k, hk, rfl⟩ := (hmem v).2 hv
        exact hle k hk
      -- what is still to be selected opens after the selection that has passed `H`
      have hlater : ∀ v ∈ occurrences table, lastClose start.toNat ws < v.1 → H < v.1 :=
        fun v hv hlt ↦ (Nat.find_spec hex).trans_le (hnext.le_of_lt v hv hlt)
      have hends : (∀ k < n, (run table start k).closeTime.toNat ≠ w.1) ↔ ∀ v ∈ ws, v.2 ≠ w.1 := by
        simp [hws, HatchEvent.window]
      rw [hmem, hends]
      exact hgreedy.mem_iff hpos (fun v hv w hw ↦ eq_of_opens_inside hdaily hdisj hv hw) hpast
        hlater w

/-- **No exposure is dropped** where no line opens at the second at which another closes. -/
theorem selectsAllUpTo (hdisj : DisjointOnCircle table) (htouch : NoTouch table) {start : UInt32}
    {H : ℕ} (hH : H + 345600 ≤ 2 ^ 32) (hstart : start.toNat ≤ H) :
    SelectsAllUpTo table start H := by
  obtain ⟨n, hn, hmono, hall⟩ := dropsTouchingUpTo hdaily hdisj hH hstart
  refine ⟨n, hn, hmono, fun w ↦ (hall w).trans ⟨fun h ↦ ⟨h.1, h.2.1, h.2.2.1⟩, ?_⟩⟩
  rintro ⟨hw, hafter, hbefore⟩
  refine ⟨hw, hafter, hbefore, fun k hk hends ↦ ?_⟩
  obtain ⟨e, he, heopen, hec⟩ := ((hall _).1 ⟨k, hk, rfl⟩).1
  obtain ⟨e', he', heopen', -⟩ := hw
  have hemod := (hdaily e he).occurs_iff.1 heopen
  have hemod' := (hdaily e' he').occurs_iff.1 heopen'
  refine absurd ?_ (htouch e he e' he')
  simp only [HatchEvent.window] at hemod hec
  unfold AddEvent.closesAt
  omega

/-- Where a line opens at the second at which another closes, that opening is dropped. -/
theorem noTouch_of_selectsAllUpTo {start : UInt32} (hstart : start.toNat + 518400 ≤ 2 ^ 32)
    (h : ∀ H, start.toNat ≤ H → H + 345600 ≤ 2 ^ 32 → SelectsAllUpTo table start H) :
    NoTouch table := by
  intro e he e' he' htouch
  have hlen := (hdaily e he).duration_le
  have hpos := (hdaily e he).duration_pos
  have hopen := (hdaily e he).valid.opensAt_lt
  obtain ⟨⟨hlt, hmod⟩, -⟩ := isLeast_nextDaily hopen start.toNat
  have hle := nextDaily_le (t := start.toNat) hopen
  set o := nextDaily e.opensAt start.toNat with ho
  set c := o + e.openForSeconds.toNat with hc
  have hfirst : (o, c) ∈ occurrences table := ⟨e, he, (hdaily e he).occurs_iff.2 hmod, rfl⟩
  have hsecond : (c, c + e'.openForSeconds.toNat) ∈ occurrences table := by
    refine ⟨e', he', (hdaily e' he').occurs_iff.2 ?_, rfl⟩
    unfold AddEvent.closesAt at htouch
    simp only
    omega
  obtain ⟨n, hn, hmono, hall⟩ := h c (by omega) (by omega)
  obtain ⟨j, hj, hwj⟩ := (hall _).2 ⟨hfirst, hlt, by simp only; omega⟩
  obtain ⟨k, hk, hwk⟩ := (hall _).2 ⟨hsecond, by simp only; omega, le_rfl⟩
  simp only [HatchEvent.window, Prod.mk.injEq] at hwj hwk
  have hmono' : ∀ j k, j ≤ k → k < n →
      (run table start j).openTime.toNat ≤ (run table start k).openTime.toNat := by
    intro j k hjk hk
    rcases hjk.lt_or_eq with hlt | rfl
    · exact (hmono j k hlt hk).le
    · exact le_rfl
  have hjk : j < k := by
    by_contra hge
    have := hmono' k j (not_lt.1 hge) hj
    omega
  -- the selection after the first window opens strictly after it closes
  have hsucc := @run_succ_openTime table hdaily (List.ne_nil_of_mem he) start c
    (by omega) (by omega) j fun i hi ↦
      (hmono' i k (by omega) hk).trans (by omega)
  have := hmono' (j + 1) k hjk hk
  omega

/-- **When no exposure is dropped, and which ones are.** The run of a table of daily lines with
disjoint windows selects every occurrence after the start, once and in order, exactly when no line
opens at the very second at which a line closes. Whether or not lines touch, the occurrences that it
leaves out are exactly those that open at the closing of a window that it has selected. -/
theorem run_selects_iff (hdisj : DisjointOnCircle table) {start : UInt32}
    (hstart : start.toNat + 518400 ≤ 2 ^ 32) :
    ((∀ H, start.toNat ≤ H → H + 345600 ≤ 2 ^ 32 → SelectsAllUpTo table start H) ↔
        NoTouch table) ∧
      ∀ H, start.toNat ≤ H → H + 345600 ≤ 2 ^ 32 → DropsTouchingUpTo table start H :=
  ⟨⟨noTouch_of_selectsAllUpTo hdaily hstart,
      fun htouch _ hle hH ↦ selectsAllUpTo hdaily hdisj htouch hH hle⟩,
    fun _ hle hH ↦ dropsTouchingUpTo hdaily hdisj hH hle⟩

end Daily

/-- Two one-hour lines, at ten and at eleven: disjoint, and the first closes as the second opens. -/
def touchingTable : List AddEvent :=
  [.daily 10 0 (1 * secsPerHour), .daily 11 0 (1 * secsPerHour)]

theorem touchingTable_isDaily : ∀ e ∈ touchingTable, e.IsDaily := by decide

theorem touchingTable_disjoint : DisjointOnCircle touchingTable := by
  simp only [DisjointOnCircle, touchingTable, List.pairwise_pair, AddEvent.Covers]
  have h1 : (AddEvent.daily 10 0 (1 * secsPerHour)).opensAt = 36000 := rfl
  have h2 : (AddEvent.daily 11 0 (1 * secsPerHour)).opensAt = 39600 := rfl
  have h3 : (AddEvent.daily 10 0 (1 * secsPerHour)).openForSeconds.toNat = 3600 := rfl
  have h4 : (AddEvent.daily 11 0 (1 * secsPerHour)).openForSeconds.toNat = 3600 := rfl
  rw [h1, h2, h3, h4]
  omega

/-- **A line that touches another one is dropped**: with that table the eleven o'clock window is not
selected. -/
theorem run_drops_touching :
    ¬ ∀ table : List AddEvent, (∀ e ∈ table, e.IsDaily) → DisjointOnCircle table →
      ∀ start : UInt32, start.toNat + 518400 ≤ 2 ^ 32 →
        ∀ H, start.toNat ≤ H → H + 345600 ≤ 2 ^ 32 → SelectsAllUpTo table start H := by
  intro h
  have htouch := @noTouch_of_selectsAllUpTo touchingTable touchingTable_isDaily
    946684800 (by decide)
    (h touchingTable touchingTable_isDaily touchingTable_disjoint 946684800 (by decide))
  exact htouch (.daily 10 0 (1 * secsPerHour)) (by decide) (.daily 11 0 (1 * secsPerHour))
    (by decide) rfl

/-- With a third line at twelve, that one is selected after the first: the second is left out, so
nothing closes at twelve. -/
example : (List.range 3).map (fun k ↦
    (run (touchingTable ++ [.daily 12 0 (1 * secsPerHour)]) 946684800 k).openTime) =
      [946720800, 946728000, 946807200] := by
  decide +kernel

/-- The brightening lines of `analemma_1` on their own drop nothing. -/
theorem run_selects_brightening :
    SelectsAllUpTo [.daily 4 0 (2 * secsPerHour), .daily 18 0 (3 * secsPerHour)] 946684800
      1000000000 := by
  refine (run_selects_iff (by decide) ?_ (by decide)).1.2 ?_ 1000000000 (by decide) (by decide)
  · simp only [DisjointOnCircle, List.pairwise_pair, AddEvent.Covers]
    have h1 : (AddEvent.daily 4 0 (2 * secsPerHour)).opensAt = 14400 := rfl
    have h2 : (AddEvent.daily 18 0 (3 * secsPerHour)).opensAt = 64800 := rfl
    have h3 : (AddEvent.daily 4 0 (2 * secsPerHour)).openForSeconds.toNat = 7200 := rfl
    have h4 : (AddEvent.daily 18 0 (3 * secsPerHour)).openForSeconds.toNat = 10800 := rfl
    rw [h1, h2, h3, h4]
    omega
  · unfold NoTouch
    decide

end Schedule
