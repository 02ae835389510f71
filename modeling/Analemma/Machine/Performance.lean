import Analemma.Machine.Rounds

/-!
# The hatch follows the calendar

The proof outline of the sketch in its prompt runs. A round of `loop` answers the alarm it was
woken by (`Resting`, `Ringing`, `Answering`); after a closing it selects the next occurrence from
the times that its statements read, none of which is a minute away from the closing, and programs
the alarms for it (`Collecting`, `Setting`). The end of `setup` is such a selection too, at the
instant it has read from the clock.

So every prompt run of the three sketches performs its table: `moves_kept`.

The instant at which the present work began stands in the state of the program. It bounds the ticks:
within a minute of it, and with nothing opening in that minute, no flag can go up that the round is
not about, and this is all that the assertions need of being prompt.

* A selection takes the longest. Each line is added with a time of its own, and `Collecting` says
  that what has been selected from the first lines is next among their occurrences, counted from the
  closing and not from any of those times: no line opens in between.
* `Setting` counts the statements of `setAlarms` that have been executed, as `Programming` does.
* The outline is for every sketch with a regular table (`kept_of_regular`). The three sketches are
  instances, by deciding that their tables are regular.

What opens in the very minute in which `setup` reads the clock is excluded by a hypothesis, since it
may be selected or missed, as the reading falls.
-/

namespace Machine.Performance

open DS3231 Schedule Interleaving GreedyWindows

/-! ### Steps of the prompt program -/

section Steps

variable (k : Sketch) (t₀ : ℕ) (first : List (Toggle × Option ℕ))

/-- Where `loop` starts: awake, with both flags down, and the next alarm a minute after the last one
at least. The work that is over counts as begun at the last alarm. -/
structure Calm (s : System) (since : ℕ) : Prop where
  awake : s.asleep = false
  quiet : ∃ vs w next, Quiet k.table t₀ first vs w next s ∧ since = beganAt t₀ vs w next

/-- An outline up to the next start of `loop`. -/
abbrev Outlined (code : List Stmt) (s : System) (since : ℕ) : Prop :=
  (promptProgram k).Outline (fun _ σ ↦ Kept (occurrences k.table) t₀ first σ.1 σ.2)
    (fun σ ↦ Calm k t₀ first σ.1 σ.2) code (s, since)

/-- An assertion of an awake controller that a tick within the minute keeps, and that does not
depend on angles and interrupts. It may stand before any statement of a round, and in each of its
states the calendar is kept. -/
structure Robust (A : System → ℕ → Prop) : Prop where
  awake : ∀ s since, A s since → s.asleep = false
  tick : ∀ s since r, A s since → s.rtc.tick = some r → r.time < since + 60 → A (s.setRtc r) since
  aside : ∀ s since angles isAlarm pending, A s since →
    A (aside s angles isAlarm pending false) since
  kept : ∀ s since, A s since → Kept (occurrences k.table) t₀ first s since

variable {k t₀ first} {A : System → ℕ → Prop}

/-- A robust assertion is stable: of the environment of the prompt program only ticks within the
minute and the interrupt routine remain. -/
theorem Robust.stable (hA : Robust k t₀ first A) (code : List Stmt) :
    (promptProgram k).Stable code fun σ ↦ A σ.1 σ.2 := by
  rintro ⟨s, since⟩ ⟨s', since'⟩ h ⟨henv, hsince, hprompt⟩
  have hawake := hA.awake s since h
  obtain rfl : since' = since := hsince.trans (if_neg (not_idle hawake))
  rcases henv with hint | ⟨hclock, -⟩
  · obtain ⟨-, rfl⟩ := interrupt_eq_some hint
    exact hA.aside s since' s.commanded true false h
  · obtain ⟨r, hr, rfl⟩ := tick_eq_some hclock
    exact hA.tick s since' r h hr (hprompt (not_idle hawake))

/-- A statement is executed awake, and the work goes on. -/
theorem exec_cases {stmt : Stmt} {s s' : System} {since since' : ℕ} {pushed : List Stmt}
    (h : (promptProgram k).exec stmt (s, since) (s', since') pushed) :
    since' = since ∧ s.asleep = false ∧ s.pending = false ∧
      ∃ now, s.Now now ∧ exec k now s stmt = (s', pushed) := by
  obtain ⟨⟨hawake, hpending, now, hnow, heq⟩, hsince, -⟩ := h
  exact ⟨hsince.trans (if_neg (not_idle hawake)), hawake, hpending, now, hnow, heq⟩

/-- **One statement.** The assertion stands before it, and the outline goes on from whatever the
statement makes of a state that meets the assertion. -/
theorem outline_cons {stmt : Stmt} {code : List Stmt} (hA : Robust k t₀ first A)
    (hnext : ∀ s since now, A s since → s.pending = false → s.Now now →
      Outlined k t₀ first ((exec k now s stmt).2 ++ code) (exec k now s stmt).1 since)
    {s : System} {since : ℕ} (h : A s since) : Outlined k t₀ first (stmt :: code) s since := by
  refine .cons _ (hA.stable _) (fun σ h ↦ hA.kept σ.1 σ.2 h) ?_ h
  rintro ⟨s, since⟩ ⟨s', since'⟩ pushed h hexec
  obtain ⟨rfl, -, hpending, now, hnow, heq⟩ := exec_cases hexec
  have h := hnext s since' now h hpending hnow
  rwa [heq] at h

/-- Statements on which no round depends: the angles, the journal and the mark of the interrupt have
no part in what comes next, once the mark has been tested. -/
def inert : Stmt → Bool
  | .write _ | .updateJournal | .clearIsAlarm => true
  | _ => false

/-- What such a statement changes: angles and mark, and nothing else. -/
theorem exec_inert (now : UInt32) {stmt : Stmt} (h : inert stmt = true) (s : System)
    (hawake : s.asleep = false) :
    ∃ angles isAlarm, exec k now s stmt = (aside s angles isAlarm s.pending false, []) := by
  cases s
  cases hawake
  cases stmt with
  | write angle => exact ⟨angle :: _, _, rfl⟩
  | updateJournal => exact ⟨_, _, rfl⟩
  | clearIsAlarm => exact ⟨_, false, rfl⟩
  | _ => cases h

theorem inert_sweep (now : UInt32) (s : System) {toggle : Toggle} :
    ∀ stmt ∈ (exec k now s (.toggleMotor toggle)).2, inert stmt = true := by
  intro stmt hstmt
  obtain ⟨angle, -, rfl⟩ := List.mem_map.1 hstmt
  rfl

/-- **A block of statements** on which no round depends. -/
theorem outline_inert (block : List Stmt) {rest : List Stmt} (hA : Robust k t₀ first A)
    (hinert : ∀ stmt ∈ block, inert stmt = true)
    (hrest : ∀ s since, A s since → Outlined k t₀ first rest s since)
    {s : System} {since : ℕ} (h : A s since) : Outlined k t₀ first (block ++ rest) s since := by
  refine .block (A := fun _ σ ↦ A σ.1 σ.2) hA.stable (fun _ σ h ↦ hA.kept σ.1 σ.2 h) ?_ hinert
    (fun σ h ↦ hrest σ.1 σ.2 h) h
  rintro stmt _ ⟨s, since⟩ ⟨s', since'⟩ pushed hstmt h hstep
  obtain ⟨rfl, hawake, -, now, -, heq⟩ := exec_cases hstep
  obtain ⟨angles, isAlarm, hexec⟩ := exec_inert (k := k) now hstmt s hawake
  obtain ⟨rfl, rfl⟩ := Prod.ext_iff.1 (heq.symm.trans hexec)
  exact ⟨rfl, hA.aside s since' angles isAlarm s.pending h⟩

end Steps

/-! ### The assertions -/

section Assertions

variable (k : Sketch) (t₀ : ℕ) (first : List (Toggle × Option ℕ)) (next : Toggle) (s : System)
  (since : ℕ)

/-- Awake in the minute after an alarm, with its flag up. -/
structure Ringing : Prop where
  awake : s.asleep = false
  alarmed : ∃ vs w, Alarmed k.table t₀ first vs w next s since ∧ Rung w next s.rtc

/-- The flag has been taken, and the call is to be made. Before an opening no flag is up; before a
closing that of the opening is of no account, since the next schedule clears it. -/
structure Answering : Prop where
  awake : s.asleep = false
  alarmed : ∃ vs w, Alarmed k.table t₀ first vs w next s since ∧ s.cause = some (dueAt w next)
  down : next = .Open → s.rtc.a1f = none ∧ s.rtc.a2f = none

/-- From falling asleep until `isAlarm` is tested: idle before the next alarm, or woken by it. Which
of the two it is, is not for the code to say, so the assertion is a disjunction. -/
def Resting : Prop :=
  ∃ vs w next, (Quiet k.table t₀ first vs w next s ∧ Idle s) ∨
    (Alarmed k.table t₀ first vs w next s since ∧ Rung w next s.rtc ∧
      (s.asleep = true → s.pending = true) ∧ (s.asleep = false → s.isAlarm = true))

/-- The last window has closed, and the system time has been read since: every value of `now()` from
here on is at or after the closing. -/
def Read : Prop :=
  (∃ vs, Closed k.table t₀ first vs s since) ∧
    since ≤ s.sysTime.toNat ∧ firstInstant ≤ s.sysTime.toNat

/-- Some lines of the table have been added: the next event is the first to open after the closing
among their occurrences, within a day. -/
def Collecting (lines : List AddEvent) : Prop :=
  Read k t₀ first s since ∧
    IsNextWithin (occurrences lines) since (since + 86400) s.nextEvent.window

/-- The next event is the next occurrence, and `setAlarms` has executed so many statements. -/
structure Setting (stage : ℕ) : Prop where
  closed : ∃ vs, Closed k.table t₀ first vs s since
  isNext : IsNext (occurrences k.table) since s.nextEvent.window
  near : s.nextEvent.window.1 ≤ since + 86400
  alarm2 : 1 ≤ stage → s.rtc.alarm2 = s.nextEvent.alarm2
  armed2 : 2 ≤ stage → s.rtc.armed2 = true
  down2 : 3 ≤ stage → s.rtc.a2f = none
  alarm1 : 4 ≤ stage → s.rtc.alarm1 = s.nextEvent.alarm1
  armed1 : 5 ≤ stage → s.rtc.armed1 = true
  down1 : 6 ≤ stage → s.rtc.a1f = none

end Assertions

section Setting

variable {k : Sketch} {t₀ : ℕ} {first : List (Toggle × Option ℕ)} {s : System} {since stage : ℕ}

theorem Setting.programming (h : Setting k t₀ first s since stage) : Programming stage s :=
  ⟨h.alarm2, h.armed2, h.down2, h.alarm1, h.armed1, h.down1⟩

theorem Setting.of_programming (hclosed : ∃ vs, Closed k.table t₀ first vs s since)
    (hnext : IsNext (occurrences k.table) since s.nextEvent.window)
    (hnear : s.nextEvent.window.1 ≤ since + 86400) (h : Programming stage s) :
    Setting k t₀ first s since stage :=
  ⟨hclosed, hnext, hnear, h.alarm2, h.armed2, h.down2, h.alarm1, h.armed1, h.down1⟩

end Setting

section Robust

variable {k : Sketch} {t₀ : ℕ} {first : List (Toggle × Option ℕ)} (hreg : Regular k.table)

include hreg

theorem robust_calm : Robust k t₀ first (Calm k t₀ first) where
  awake _ _ h := h.awake
  tick s since r h hr hsoon := by
    obtain ⟨hawake, vs, w, next, hquiet, hsince⟩ := h
    have hapart := hquiet.waiting.follows.beganAt_add_le hreg next
    exact ⟨hawake, vs, w, next, hquiet.tick hreg hr (by omega), hsince⟩
  aside s since angles isAlarm pending h := by
    obtain ⟨-, vs, w, next, hquiet, hsince⟩ := h
    exact ⟨rfl, vs, w, next, hquiet.aside angles isAlarm pending false, hsince⟩
  kept s since h := by
    obtain ⟨-, vs, w, next, hquiet, -⟩ := h
    exact hquiet.waiting.kept hreg hquiet.ahead

/-- In the minute after an alarm its flag stays up, and no other one goes up. -/
theorem robust_ringing (next : Toggle) : Robust k t₀ first (Ringing k t₀ first next) where
  awake _ _ h := h.awake
  tick s since r h hr hsoon := by
    obtain ⟨hawake, vs, w, halarmed, hrung⟩ := h
    obtain ⟨halarmed', hflag1, hflag2⟩ := halarmed.tick hreg hr hsoon
    exact ⟨hawake, vs, w, halarmed', hrung.congr hflag1 hflag2⟩
  aside s since angles isAlarm pending h := by
    obtain ⟨-, vs, w, halarmed, hrung⟩ := h
    exact ⟨rfl, vs, w, halarmed.congr rfl rfl rfl rfl rfl rfl rfl rfl, hrung⟩
  kept s since h := by
    obtain ⟨hawake, vs, w, halarmed, -⟩ := h
    exact halarmed.kept hreg (not_idle hawake)

theorem robust_answering (next : Toggle) : Robust k t₀ first (Answering k t₀ first next) where
  awake _ _ h := h.awake
  tick s since r h hr hsoon := by
    obtain ⟨hawake, ⟨vs, w, halarmed, hcause⟩, hdown⟩ := h
    obtain ⟨halarmed', hflag1, hflag2⟩ := halarmed.tick hreg hr hsoon
    refine ⟨hawake, ⟨vs, w, halarmed', hcause⟩, ?_⟩
    rwa [rtc_setRtc, hflag1, hflag2]
  aside s since angles isAlarm pending h := by
    obtain ⟨-, ⟨vs, w, halarmed, hcause⟩, hdown⟩ := h
    exact ⟨rfl, ⟨vs, w, halarmed.congr rfl rfl rfl rfl rfl rfl rfl rfl, hcause⟩, hdown⟩
  kept s since h := by
    obtain ⟨hawake, ⟨vs, w, halarmed, -⟩, -⟩ := h
    exact halarmed.kept hreg (not_idle hawake)

/-- After a closing only the time goes on, and nothing opens within the minute. -/
theorem robust_closed :
    Robust k t₀ first fun s since ↦ ∃ vs, Closed k.table t₀ first vs s since where
  awake _ _ h := h.elim fun _ h ↦ h.awake
  tick _ _ _ h hr hsoon := h.imp fun _ h ↦ h.tick hr hsoon
  aside _ _ _ _ _ h := h.imp fun _ h ↦ h.congr rfl rfl rfl rfl
  kept _ _ h := h.elim fun _ h ↦ h.kept hreg

theorem robust_read : Robust k t₀ first (Read k t₀ first) where
  awake s since h := (robust_closed hreg).awake s since h.1
  tick s since r h hr hsoon := ⟨(robust_closed hreg).tick s since r h.1 hr hsoon, h.2⟩
  aside s since angles isAlarm pending h :=
    ⟨(robust_closed hreg).aside s since angles isAlarm pending h.1, h.2⟩
  kept s since h := (robust_closed hreg).kept s since h.1

/-- What has been selected does not depend on the clock. -/
theorem robust_collecting (lines : List AddEvent) :
    Robust k t₀ first fun s since ↦ Collecting k t₀ first s since lines where
  awake s since h := (robust_read hreg).awake s since h.1
  tick s since r h hr hsoon := ⟨(robust_read hreg).tick s since r h.1 hr hsoon, h.2⟩
  aside s since angles isAlarm pending h :=
    ⟨(robust_read hreg).aside s since angles isAlarm pending h.1, h.2⟩
  kept s since h := (robust_read hreg).kept s since h.1

/-- While `setAlarms` is under way, no tick raises a flag that it has cleared: the window that is
programmed lies ahead. -/
theorem robust_setting (stage : ℕ) :
    Robust k t₀ first fun s since ↦ Setting k t₀ first s since stage where
  awake s since h := (robust_closed hreg).awake s since h.closed
  tick s since r h hr hsoon := by
    have htime := (Rtc.tick_eq_some hr).1
    obtain ⟨vs, hclosed⟩ := h.closed
    have hbegun := hclosed.begun
    have hnear := h.near
    have hopens := hclosed.clear _ h.isNext.mem h.isNext.lt
    have hlength := hreg.length_mem h.isNext.mem
    exact .of_programming ⟨vs, hclosed.tick hr hsoon⟩ h.isNext hnear (h.programming.tick hr
      (hreg.opening_mod h.isNext.mem) (by omega) (by omega) (by omega))
  aside s since angles isAlarm pending h :=
    .of_programming ((robust_closed hreg).aside s since angles isAlarm pending h.closed) h.isNext
      h.near (h.programming.aside angles isAlarm pending false)
  kept s since h := (robust_closed hreg).kept s since h.closed

/-! ### The outline of a selection -/

/-- Where the code is at its end, `loop` starts anew. -/
theorem outline_nil {s : System} {since : ℕ} (h : Calm k t₀ first s since) :
    Outlined k t₀ first [] s since :=
  .nil _ ((robust_calm hreg).stable []) (fun σ h ↦ ⟨(robust_calm hreg).kept σ.1 σ.2 h, h⟩) h

omit hreg in
/-- When `setAlarms` is through, the next round is prepared. -/
theorem calm_of_setting {s : System} {since : ℕ} (h : Setting k t₀ first s since 6) :
    Calm k t₀ first s since := by
  obtain ⟨⟨vs, hclosed⟩, hnext, hnear, halarm2, harmed2, hdown2, halarm1, harmed1, hdown1⟩ := h
  have hsince := hclosed.since_eq
  have hopens := hclosed.clear _ hnext.mem hnext.lt
  refine ⟨hclosed.awake, vs, s.nextEvent.window, .Open, ⟨⟨⟨hclosed.greedy, ?_, ?_, ?_⟩,
    ⟨rfl, halarm1 (by omega), halarm2 (by omega), harmed1 (by omega), harmed2 (by omega),
      hclosed.attached⟩, hclosed.moves, ?_⟩, hdown1 (by omega), hdown2 (by omega), ?_⟩, hsince⟩
  · rwa [← hsince]
  · rwa [← hsince]
  · rwa [← hsince]
  · exact hsince.symm.trans_le hclosed.begun
  · exact hclosed.soon.trans_le hopens

omit hreg in
/-- Only the time, the moves and the controller's own state count after a closing, whichever windows
have been performed. -/
theorem closed_congr {s s' : System} {since : ℕ} (h : ∃ vs, Closed k.table t₀ first vs s since)
    (hasleep : s'.asleep = s.asleep) (hattached : s'.attached = s.attached)
    (htime : s'.rtc.time = s.rtc.time) (hmoves : s'.moves = s.moves) :
    ∃ vs, Closed k.table t₀ first vs s' since :=
  h.imp fun _ h ↦ h.congr (hasleep.trans h.awake) hattached htime hmoves

/-- One statement of `setAlarms`, from its stage to the next one. -/
theorem outline_setting {stage : ℕ} {stmt : Stmt} {code : List Stmt}
    (hstmt : Sketch.setAlarms[stage]? = some stmt)
    (hrest : ∀ s since, Setting k t₀ first s since (stage + 1) → Outlined k t₀ first code s since)
    (s : System) (since : ℕ) (h : Setting k t₀ first s since stage) :
    Outlined k t₀ first (stmt :: code) s since := by
  refine outline_cons (robust_setting hreg stage) (fun s since now h _ _ ↦ ?_) h
  obtain ⟨r, hexec, htime, hnext⟩ := h.programming.exec k now hstmt
  rw [hexec]
  exact hrest _ since (.of_programming (closed_congr h.closed rfl rfl htime rfl) h.isNext h.near
    hnext)

/-- The six statements of `setAlarms`, one stage after the other. -/
theorem outline_setAlarms {rest : List Stmt}
    (hrest : ∀ s since, Calm k t₀ first s since → Outlined k t₀ first rest s since)
    {s : System} {since : ℕ} (h : Setting k t₀ first s since 0) :
    Outlined k t₀ first (Sketch.setAlarms ++ rest) s since :=
  outline_setting hreg rfl (outline_setting hreg rfl (outline_setting hreg rfl
    (outline_setting hreg rfl (outline_setting hreg rfl (outline_setting hreg rfl
      fun s since h ↦ hrest s since (calm_of_setting h)))))) s since h

variable (hjournal : ∀ stmt ∈ k.afterAlarms, stmt = .updateJournal)

include hjournal

/-- **A selection**: from the reading on, the lines are added one after the other, each with a time
of its own, and the alarms are programmed for the next occurrence. The times may differ, but no line
opens between them, so that they all select as the closing would. -/
theorem outline_planSchedule {rest : List Stmt}
    (hrest : ∀ s since, Calm k t₀ first s since → Outlined k t₀ first rest s since)
    {s : System} {since : ℕ} (h : Read k t₀ first s since) :
    Outlined k t₀ first (k.planSchedule ++ rest) s since := by
  have hafter : ∀ s since, Calm k t₀ first s since →
      Outlined k t₀ first (k.afterAlarms ++ rest) s since := by
    intro s since h
    refine outline_inert _ (robust_calm hreg) (fun stmt hstmt ↦ ?_) hrest h
    rw [hjournal stmt hstmt]
    rfl
  have hlines : ∀ lines todo : List AddEvent, lines ++ todo = k.table → ∀ s since,
      Collecting k t₀ first s since lines → Outlined k t₀ first
        (todo.map .addEvent ++ (Sketch.setAlarms ++ (k.afterAlarms ++ rest))) s since := by
    intro lines todo
    induction todo generalizing lines with
    | nil =>
      intro htable s since h
      rw [List.append_nil] at htable
      subst htable
      obtain ⟨hnext, hnear⟩ := hreg.isNext_of_within h.2
      exact outline_setAlarms hreg hafter ⟨h.1.1, hnext, hnear, fun hs ↦ by omega,
        fun hs ↦ by omega, fun hs ↦ by omega, fun hs ↦ by omega, fun hs ↦ by omega,
        fun hs ↦ by omega⟩
    | cons e todo ih =>
      intro htable s since h
      refine outline_cons (robust_collecting hreg lines) (fun s since now h _ hnow ↦ ?_) h
      refine ih (lines ++ [e]) (by rw [← htable]; simp) _ since
        ⟨⟨closed_congr h.1.1 rfl rfl rfl rfl, h.1.2⟩, ?_⟩
      obtain ⟨⟨⟨vs, hclosed⟩, hread, hyears⟩, hwithin⟩ := h
      have he : e ∈ k.table := by
        rw [← htable]
        simp
      have hsoon := hclosed.soon
      obtain ⟨hlow, hhigh⟩ := hnow
      refine addEvent_isNextWithin hwithin (hreg.line e he)
        ⟨hyears.trans hlow, hhigh.trans_lt s.rtc.time_mem.2⟩ (hread.trans hlow) ?_
      -- nothing opens within the minute
      intro w hw hlt
      have hclear := hclosed.clear w
        (occurrences_mono (List.cons_subset.2 ⟨he, List.nil_subset _⟩) hw) hlt
      omega
  rw [Sketch.planSchedule, List.cons_append, List.append_assoc, List.append_assoc]
  refine outline_cons (robust_read hreg) (fun s since now h _ _ ↦ ?_) h
  refine hlines [] k.table rfl _ since ⟨⟨closed_congr h.1 rfl rfl rfl rfl, h.2⟩, ?_⟩
  obtain ⟨vs, hclosed⟩ := h.1
  exact empty_isNextWithin (hclosed.begun.trans_lt s.rtc.time_mem.2)

/-- `makeSchedule`: the reading comes first, and the selection is made from it. -/
theorem outline_makeSchedule {rest : List Stmt}
    (hrest : ∀ s since, Calm k t₀ first s since → Outlined k t₀ first rest s since)
    {s : System} {since : ℕ} (h : ∃ vs, Closed k.table t₀ first vs s since) :
    Outlined k t₀ first (k.makeSchedule ++ rest) s since := by
  refine outline_cons (robust_closed hreg) (fun s since now h _ _ ↦ ?_) h
  have hkept := of_forall_sysTime (P := fun s ↦ ∃ vs, Closed k.table t₀ first vs s since) k now
    fun _ ↦ closed_congr h rfl rfl rfl rfl
  refine outline_planSchedule hreg hjournal hrest ⟨hkept, ?_⟩
  obtain ⟨vs, hclosed⟩ := h
  simp only [exec, toNat_systemTime_getDateTime s.rtc.time_mem]
  exact ⟨hclosed.begun, s.rtc.time_mem.1⟩

/-! ### The outline of a round -/

omit hjournal in
/-- **An opening**: the hatch opens, and its closing is awaited. Nothing is programmed anew, since
both alarms of the window have been set together. -/
theorem outline_open {s : System} {since : ℕ} (h : Answering k t₀ first .Open s since) :
    Outlined k t₀ first Sketch.onAlarm2 s since := by
  refine outline_cons (robust_answering hreg .Open) (fun s since now h _ _ ↦ ?_) h
  have hcleared : Answering k t₀ first .Open (exec k now s .clearAlarm2).1 since := by
    obtain ⟨hawake, ⟨vs, w, halarmed, hcause⟩, hdown⟩ := h
    exact ⟨hawake, ⟨vs, w, halarmed.congr rfl rfl rfl rfl rfl rfl rfl rfl, hcause⟩,
      fun hopen ↦ ⟨(hdown hopen).1, rfl⟩⟩
  refine outline_cons (robust_answering hreg .Open) (fun s since now h _ _ ↦ ?_) hcleared
  refine outline_inert _ (robust_calm hreg) (inert_sweep now s) (fun s since ↦ outline_nil hreg) ?_
  obtain ⟨hawake, ⟨vs, w, ⟨⟨hfollows, hprogrammed, hmoves, -⟩, hsince, hbegun, hsoon⟩, hcause⟩,
    hdown⟩ := h
  have hlength := (hreg.length_mem hfollows.isNext.mem).1
  refine ⟨hawake, vs, w, .Close, ⟨⟨hfollows, hprogrammed.congr rfl rfl rfl rfl rfl rfl, ?_, hbegun⟩,
    (hdown rfl).1, (hdown rfl).2, hsoon.trans_le hlength⟩, hsince⟩
  simp only [exec, hmoves, hcause]
  exact (told_append first (answers vs) (.Open, w.1)).symm

/-- **A closing**: the hatch closes, and the next occurrence is selected, from an instant less than
a minute after the closing. -/
theorem outline_close {rest : List Stmt}
    (hrest : ∀ s since, Calm k t₀ first s since → Outlined k t₀ first rest s since)
    {s : System} {since : ℕ} (h : Answering k t₀ first .Close s since) :
    Outlined k t₀ first (k.onAlarm1 ++ rest) s since := by
  refine outline_cons (robust_answering hreg .Close) (fun s since now h _ _ ↦ ?_) h
  have hcleared : Answering k t₀ first .Close (exec k now s .clearAlarm1).1 since := by
    obtain ⟨hawake, ⟨vs, w, halarmed, hcause⟩, -⟩ := h
    exact ⟨hawake, ⟨vs, w, halarmed.congr rfl rfl rfl rfl rfl rfl rfl rfl, hcause⟩,
      fun hopen ↦ by cases hopen⟩
  refine outline_cons (robust_answering hreg .Close) (fun s since now h _ _ ↦ ?_) hcleared
  refine outline_inert _ (robust_closed hreg) (inert_sweep now s)
    (fun s since ↦ outline_makeSchedule hreg hjournal hrest) ?_
  -- The window is closed: it joins the performed ones, and the schedule is made after its closing.
  obtain ⟨hawake, ⟨vs, w, ⟨⟨hfollows, hprogrammed, hmoves, -⟩, hsince, hbegun, hsoon⟩, hcause⟩,
    -⟩ := h
  refine ⟨vs ++ [w], hawake, hprogrammed.attached,
    hfollows.greedy.append_singleton hfollows.isNext, ?_, ?_, ?_, ?_, ?_⟩
  · rw [lastClose_append_singleton]
    exact hsince
  · exact hsince.trans_le hbegun
  · rw [hsince]
    exact hsoon
  · -- Where an occurrence has closed, none opens in the minute that the schedule is made in.
    intro v hv hlt
    rw [hsince] at hlt ⊢
    exact hreg.minute_after_close hfollows.isNext.mem hv hlt.le
  · simp only [exec, hmoves, hcause, answered, answers_append, answers_singleton]
    simp [told, dueAt]

/-- The two tests of `loop`, after an alarm: the flag that is up is answered, the other one is
down. -/
theorem outline_tests {next : Toggle} {s : System} {since : ℕ}
    (h : Ringing k t₀ first next s since) :
    Outlined k t₀ first [.ifAlarm1, .ifAlarm2] s since := by
  refine outline_cons (robust_ringing hreg next) (fun s since now h _ _ ↦ ?_) h
  obtain ⟨hawake, vs, w, halarmed, hrung⟩ := h
  cases next with
  | Open =>
    obtain ⟨hdown1, hup2⟩ := hrung
    simp only [exec, hdown1]
    refine outline_cons (robust_ringing hreg .Open) (fun s since now h _ _ ↦ ?_)
      ⟨hawake, vs, w, halarmed, hdown1, hup2⟩
    obtain ⟨hawake, vs, w, halarmed, hdown1, hup2⟩ := h
    simp only [exec, hup2]
    exact outline_open hreg ⟨hawake, ⟨vs, w, halarmed.congr rfl rfl rfl rfl rfl rfl rfl rfl, rfl⟩,
      fun _ ↦ ⟨hdown1, rfl⟩⟩
  | Close =>
    have hup1 : s.rtc.a1f = some w.2 := hrung
    simp only [exec, hup1]
    refine outline_close hreg hjournal (fun s since h ↦ ?_)
      ⟨hawake, ⟨vs, w, halarmed.congr rfl rfl rfl rfl rfl rfl rfl rfl, rfl⟩, fun h ↦ by cases h⟩
    -- after the selection both flags are down
    refine outline_cons (robust_calm hreg) (fun s since now h _ _ ↦ ?_) h
    obtain ⟨vs, w, next, hquiet, -⟩ := h.quiet
    simp only [exec, hquiet.down2]
    exact outline_nil hreg h

omit hjournal in
/-- Asleep, the calendar is kept, with the alarm that may just have woken the controller still to be
answered. -/
theorem Resting.kept {s : System} {since : ℕ} (h : Resting k t₀ first s since) :
    Kept (occurrences k.table) t₀ first s since := by
  obtain ⟨vs, w, next, ⟨hquiet, -⟩ | ⟨halarmed, -, hasleep, -⟩⟩ := h
  · exact hquiet.waiting.kept hreg hquiet.ahead
  · exact halarmed.kept hreg (not_idle_of_pending hasleep)

omit hreg hjournal in
/-- Awake, the controller has been woken by an alarm. -/
theorem Resting.awaken {s : System} {since : ℕ} (h : Resting k t₀ first s since)
    (hawake : s.asleep = false) : ∃ vs w next, Alarmed k.table t₀ first vs w next s since ∧
      Rung w next s.rtc ∧ (s.asleep = true → s.pending = true) ∧
        (s.asleep = false → s.isAlarm = true) := by
  obtain ⟨vs, w, next, ⟨-, hidle⟩ | halarmed⟩ := h
  · exact absurd hidle (not_idle hawake)
  · exact ⟨vs, w, next, halarmed⟩

omit hjournal in
/-- **Asleep**, the controller rests until the next alarm wakes it. -/
theorem stable_resting (code : List Stmt) :
    (promptProgram k).Stable code fun σ ↦ Resting k t₀ first σ.1 σ.2 := by
  rintro ⟨s, since⟩ ⟨s', since'⟩ ⟨vs, w, next, ⟨hquiet, hidle⟩ | ⟨halarmed, hrung, hasleep, halarm⟩⟩
    ⟨henv, hsince, hprompt⟩
  · rcases henv with hint | ⟨hclock, -⟩
    · exact absurd (hidle.2.symm.trans (interrupt_eq_some hint).1) Bool.false_ne_true
    obtain ⟨r, hr, rfl⟩ := tick_eq_some hclock
    obtain rfl : since' = r.time := hsince.trans (if_pos hidle)
    -- A second of the clock either leaves both flags down or reaches the next call.
    by_cases hahead : r.time < dueAt w next
    · have hquiet' := hquiet.tick hreg hr hahead
      have hdown1 : r.a1f = none := hquiet'.down1
      have hdown2 : r.a2f = none := hquiet'.down2
      refine ⟨vs, w, next, Or.inl ⟨hquiet', hidle.1, ?_⟩⟩
      rw [hquiet.waiting.programmed.pending_tick hr hquiet.down1 hquiet.down2, hidle.2, hdown1,
        hdown2]
      rfl
    · obtain ⟨halarmed, hrung, hpending⟩ := hquiet.rings hreg hr hahead
      exact ⟨vs, w, next, Or.inr ⟨halarmed, hrung, fun _ ↦ hpending,
        fun hawake ↦ absurd hidle (not_idle hawake)⟩⟩
  · -- The call is pending: a prompt run answers it before the clock can raise another flag.
    obtain rfl : since' = since := hsince.trans (if_neg (not_idle_of_pending hasleep))
    rcases henv with hint | ⟨hclock, -⟩
    · obtain ⟨-, rfl⟩ := interrupt_eq_some hint
      exact ⟨vs, w, next, Or.inr ⟨halarmed.congr rfl rfl rfl rfl rfl rfl rfl rfl, hrung,
        fun h ↦ absurd h Bool.false_ne_true, fun _ ↦ rfl⟩⟩
    · obtain ⟨r, hr, rfl⟩ := tick_eq_some hclock
      have hpending : (s.setRtc r).asleep = true → (s.setRtc r).pending = true := by
        intro h
        rw [pending_setRtc, hasleep h, Bool.true_or]
      have hsoon : r.time < since' + 60 := hprompt (not_idle_of_pending hpending)
      obtain ⟨halarmed', hflag1, hflag2⟩ := halarmed.tick hreg hr hsoon
      exact ⟨vs, w, next, Or.inr ⟨halarmed', hrung.congr hflag1 hflag2, hpending, halarm⟩⟩

/-- One round of `loop`: the controller rests until the next alarm, answers it, and is calm
again. -/
theorem outline_loop {s : System} {since : ℕ} (h : Calm k t₀ first s since) :
    Outlined k t₀ first Sketch.loop s since := by
  refine outline_cons (robust_calm hreg) (fun s since now h hpending _ ↦ ?_) h
  obtain ⟨-, vs, w, next, hquiet, -⟩ := h
  have hresting : Resting k t₀ first { s with asleep := true } since :=
    ⟨vs, w, next, Or.inl ⟨hquiet.aside s.commanded s.isAlarm s.pending true, rfl, hpending⟩⟩
  refine .cons (fun σ ↦ Resting k t₀ first σ.1 σ.2) (stable_resting hreg _)
    (fun σ h ↦ Resting.kept hreg h) ?_ hresting
  -- Awake again means that the interrupt has come, so the flag of a call is up.
  rintro ⟨s, since⟩ ⟨s', since'⟩ pushed h hexec
  obtain ⟨rfl, hawake, -, now, -, heq⟩ := exec_cases hexec
  obtain ⟨vs, w, next, halarmed, hrung, hasleep, halarm⟩ := h.awaken hawake
  have hread := of_forall_sysTime (P := fun s ↦ Resting k t₀ first s since') k now fun _ ↦
    ⟨vs, w, next, Or.inr ⟨halarmed.congr rfl rfl rfl rfl rfl rfl rfl rfl, hrung, hasleep, halarm⟩⟩
  cases heq
  refine .cons (fun σ ↦ Resting k t₀ first σ.1 σ.2) (stable_resting hreg _)
    (fun σ h ↦ Resting.kept hreg h) ?_ hread
  rintro ⟨s, since⟩ ⟨s', since'⟩ pushed h hexec
  obtain ⟨rfl, hawake, -, now, -, heq⟩ := exec_cases hexec
  obtain ⟨vs, w, next, halarmed, hrung, -, halarm⟩ := h.awaken hawake
  -- `isAlarm` was set by the handler, so the pass enters the body of the test.
  have hset : s.isAlarm = true := halarm hawake
  simp only [exec, hset, if_true] at heq
  cases heq
  exact outline_inert [.clearIsAlarm] (robust_ringing hreg next) (by simp [inert])
    (fun s since h ↦ outline_tests hreg hjournal h) ⟨hawake, vs, w, halarmed, hrung⟩

/-- The outline holds right after the reading of `setup`. The reading counts as the closing of
nothing: no window has been performed, and the first one is to be selected. -/
theorem outline_reading {r : Rtc} {c₀ : List Stmt × System} (hread : AtReading k r t₀ c₀)
    (hclear : ∀ w ∈ occurrences k.table, ¬ (t₀ ≤ w.1 ∧ w.1 ≤ t₀ + 60)) :
    Outlined k t₀ c₀.2.moves c₀.1 c₀.2 t₀ := by
  have hno : Stmt.attachInterrupt ∉ k.planSchedule := by
    intro hmem
    simp only [Sketch.planSchedule, Sketch.setAlarms, List.mem_cons, List.mem_append, List.mem_map,
      reduceCtorEq, and_false, exists_false, false_or, List.not_mem_nil, or_false] at hmem
    have heq := hjournal _ hmem
    cases heq
  obtain ⟨hcode, hawake, hattached, htime, hsys⟩ := hread.spec hno
  have hmem := c₀.2.rtc.time_mem
  have hstart : Read k t₀ c₀.2.moves c₀.2 t₀ := by
    refine ⟨⟨[], hawake, hattached, .nil _, rfl, htime.ge, by omega, fun w hw hlt ↦ ?_, ?_⟩,
      hsys.ge, by omega⟩
    · have := hclear w hw
      omega
    · simp [told, answers]
  rw [hcode]
  refine outline_planSchedule hreg hjournal (fun s since h ↦ ?_) hstart
  exact outline_inert [.clearIsAlarm] (robust_calm hreg) (by simp [inert])
    (fun s since ↦ outline_nil hreg) h

/-- **Every prompt run keeps the calendar**, of every sketch with a regular table and with nothing
after `setAlarms` but the journal. -/
theorem kept_of_regular {r : Rtc} {c₀ c : List Stmt × System} {since : ℕ}
    (hread : AtReading k r t₀ c₀)
    (hclear : ∀ w ∈ occurrences k.table, ¬ (t₀ ≤ w.1 ∧ w.1 ≤ t₀ + 60))
    (hrun : PromptRun k c₀ t₀ c since) :
    Kept (occurrences k.table) t₀ c₀.2.moves c.2 since :=
  Program.safe_of_run (fun _ h ↦ outline_loop hreg hjournal h)
    (outline_reading hreg hjournal hread hclear) hrun.run

end Robust

/-- **The hatch follows the calendar.** In every prompt run of `analemma_1`, `analemma_3` and
`analemma_release` from an instant that `setup` reads, where no entry of the table opens in the
minute after, the calls of `toggleMotor` answer the openings and closings of the occurrences that
open after that instant and not inside the window of one that is performed, each of them at its
alarm, in order, and nothing else. -/
theorem moves_kept {k : Sketch} (hk : k = analemma1 ∨ k = analemma3 ∨ k = analemmaRelease) {r : Rtc}
    {t₀ since : ℕ} {c₀ c : List Stmt × System} (hread : AtReading k r t₀ c₀)
    (hclear : ∀ w ∈ occurrences k.table, ¬ (t₀ ≤ w.1 ∧ w.1 ≤ t₀ + 60))
    (hrun : PromptRun k c₀ t₀ c since) :
    Kept (occurrences k.table) t₀ c₀.2.moves c.2 since := by
  rcases hk with rfl | rfl | rfl
  · exact kept_of_regular regular_analemma1Table (fun _ h ↦ List.mem_singleton.1 h) hread hclear
      hrun
  · exact kept_of_regular regular_analemma3Table (fun _ h ↦ List.mem_singleton.1 h) hread hclear
      hrun
  · exact kept_of_regular regular_releaseTable (fun _ h ↦ absurd h List.not_mem_nil) hread hclear
      hrun

/-- A minute and a half before ten on New Year's Day 2000. -/
def morning : Rtc := clockAt 946720709 (by decide)

/-- What `analemma_1` does from the reading of `setup` on: it sleeps until ten, opens the hatch,
sleeps until two minutes past ten, and closes it. -/
def tenToTwoPast : List Action :=
  List.replicate 22 (.exec 946720709) ++
    (List.replicate 91 .tick ++ (.interrupt :: List.replicate 190 (.exec 946720800))) ++
      (List.replicate 120 .tick ++ (.interrupt :: List.replicate 210 (.exec 946720920)))

/-- The configurations before and after the reading of `setup`. -/
def morningReading : Option ((List Stmt × System) × (List Stmt × System)) :=
  (runActions analemma1 (fun _ _ ↦ True) (List.replicate 9 (.exec 946720709))
    (analemma1.setup, powerUp morning)).bind fun c ↦
      (act analemma1 (.exec 946720709) c).map fun c₀ ↦ (c, c₀)

/-- The run as it is evaluated: two calls, at ten and at two minutes past. -/
theorem tenToTwoPast_run :
    (morningReading.bind fun x ↦
      (runPrompt analemma1 tenToTwoPast (x.2, 946720709)).map fun y ↦
        decide (x.1.1 = analemma1.makeSchedule ++ [.clearIsAlarm] ∧ x.1.2.rtc.time = 946720709 ∧
          x.2.2.moves = [] ∧ Idle y.1.2 ∧
            y.1.2.moves = [(.Open, some 946720800), (.Close, some 946720920)])) = some true := by
  decide +kernel

/-- No line of the table opens in the minute after the reading. -/
theorem morning_clear :
    ∀ w ∈ occurrences analemma1.table, ¬ (946720709 ≤ w.1 ∧ w.1 ≤ 946720709 + 60) := by
  have hlines : ∀ e ∈ analemma1Table, e.opensAt < 35909 ∨ 35969 < e.opensAt := by decide
  rintro w ⟨e, he, hopen, -⟩
  have hmod := (regular_analemma1Table.line e he).valid.mod_of_occurs hopen
  have := hlines e he
  omega

/-- A run of `analemma_1` through its window at ten keeps the calendar, with both calls made. -/
theorem moves_kept_morning :
    ∃ c₀ c since, AtReading analemma1 morning 946720709 c₀ ∧
      PromptRun analemma1 c₀ 946720709 c since ∧ Idle c.2 ∧
        c.2.moves = [(.Open, some 946720800), (.Close, some 946720920)] ∧
          Kept (occurrences analemma1Table) 946720709 [] c.2 since := by
  obtain ⟨⟨⟨code, s⟩, c₀⟩, hreading, hrest⟩ := Option.bind_eq_some_iff.1 tenToTwoPast_run
  obtain ⟨⟨c, since⟩, hrun, hdecide⟩ := Option.map_eq_some_iff.1 hrest
  obtain ⟨hcode, htime, hfirst, hidle, hmoves⟩ := of_decide_eq_true hdecide
  obtain ⟨⟨code', s'⟩, hbefore, hafter⟩ := Option.bind_eq_some_iff.1 hreading
  obtain ⟨c₀', hact, heq⟩ := Option.map_eq_some_iff.1 hafter
  cases heq
  simp only at hcode htime hfirst hidle hmoves hact
  subst hcode
  have hread : AtReading analemma1 morning 946720709 c₀ :=
    ⟨s, 946720709, (reachableIf_of_runActions hbefore).reachable, htime, hact⟩
  have hprompt := promptRun_of_runPrompt hrun
  refine ⟨c₀, c, since, hread, hprompt, hidle, hmoves, ?_⟩
  have hkept := moves_kept (Or.inl rfl) hread morning_clear hprompt
  rwa [hfirst] at hkept

end Machine.Performance
