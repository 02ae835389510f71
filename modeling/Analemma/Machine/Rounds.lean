import Analemma.Machine.Prompt
import Analemma.Schedule.Occurrences

/-!
# Rounds of work

In a prompt run the calls of `toggleMotor` after `setup` are to open and close the hatch at the
occurrences of the table, as a performer does who handles one window at a time: every occurrence
that opens after the reading of `setup` and not inside the window of one that is performed, and
nothing else (`Kept`).

Between two rounds of work the alarms are programmed for the next occurrence (`Waiting`), which is a
day ahead at most, so that they match at its opening and its closing and at no other time
(`Waiting.tick_flags`). A round begins at one of these two instants (`Quiet.rings`) and is over
before the other one; while it lasts, no flag goes up (`Alarmed.tick`). In each of these states the
calendar is kept.

A state between two rounds is described by three things: the windows that have been performed, the
one that the alarms are programmed for, and which of its two calls comes next. The structures below
have these as parameters, and a round leads from one triple to the next: an opening from `(vs, w,
Open)` to `(vs, w, Close)`, and a closing on to `(vs ++ [w], w', Open)` for the next window `w'`.

* `Programmed` and `Programming` are about registers, `Follows` is about the calendar, and `Waiting`
  joins them with the moves made so far.
* Alarm registers hold a day of the month and no month, so they match again after four weeks at the
  earliest. That windows are short and close at hand is what makes them match once
  (`Programmed.alarm1_matches_iff`).
* `Closed` is the one state in which the alarms say nothing: the old window is over, and the next
  one has not been programmed.
-/

namespace Machine.Performance

open DS3231 Schedule Interleaving GreedyWindows

/-! ### What is to be kept -/

/-- The calls of `toggleMotor` that perform windows, each with the instant of its alarm: an opening
and a closing for each window, in order. -/
def answers (ws : List (ℕ × ℕ)) : List (Toggle × ℕ) :=
  ws.flatMap fun w ↦ [(.Open, w.1), (.Close, w.2)]

/-- Those whose alarm is not after `U`. Of a window that is open this is the first call only. -/
def due (U : ℕ) (ws : List (ℕ × ℕ)) : List (Toggle × ℕ) := (answers ws).filter (·.2 ≤ U)

/-- The record of moves after answers to matches. -/
def told (moves : List (Toggle × Option ℕ)) (calls : List (Toggle × ℕ)) :
    List (Toggle × Option ℕ) :=
  moves ++ calls.map fun a ↦ (a.1, some a.2)

/-- The calendar is kept: the moves after the first ones are the answers to all the alarms of the
performed windows up to an instant, which is the present one, or while the controller works, perhaps
the one before the match it works for. They are an initial part of `Open, Close, Open, Close, …`. -/
def Kept (W : Set (ℕ × ℕ)) (t₀ : ℕ) (first : List (Toggle × Option ℕ)) (s : System)
    (since : ℕ) : Prop :=
  ∃ ws U, Performed W t₀ s.rtc.time ws ∧ (U = s.rtc.time ∨ ¬ Idle s ∧ U + 1 = since) ∧
    s.moves = told first (due U ws) ∧ due U ws <+: answers ws

/-- The calls for two lists of windows are those for one after the other. -/
theorem answers_append (vs ws : List (ℕ × ℕ)) : answers (vs ++ ws) = answers vs ++ answers ws :=
  List.flatMap_append

theorem answers_singleton (w : ℕ × ℕ) : answers [w] = [(.Open, w.1), (.Close, w.2)] := rfl

theorem told_append (first : List (Toggle × Option ℕ)) (calls : List (Toggle × ℕ))
    (a : Toggle × ℕ) : told first (calls ++ [a]) = told first calls ++ [(a.1, some a.2)] := by
  simp [told]

section Due

variable {vs : List (ℕ × ℕ)} {w : ℕ × ℕ} {U : ℕ} (hvs : ∀ v ∈ vs, v.1 ≤ U ∧ v.2 ≤ U)

include hvs

theorem due_eq_answers : due U vs = answers vs := by
  refine List.filter_eq_self.2 fun a ha ↦ ?_
  obtain ⟨v, hv, ha⟩ := List.mem_flatMap.1 ha
  simp only [List.mem_cons, List.not_mem_nil, or_false] at ha
  rcases ha with rfl | rfl
  · exact decide_eq_true (hvs v hv).1
  · exact decide_eq_true (hvs v hv).2

/-- The last window has not opened. -/
theorem due_append_of_lt (h1 : U < w.1) (h2 : U < w.2) : due U (vs ++ [w]) = answers vs := by
  rw [due, answers_append, List.filter_append, ← due, due_eq_answers hvs, answers_singleton]
  simp [h1, h2]

/-- The last window is open. -/
theorem due_append_of_le (h1 : w.1 ≤ U) (h2 : U < w.2) :
    due U (vs ++ [w]) = answers vs ++ [(.Open, w.1)] := by
  rw [due, answers_append, List.filter_append, ← due, due_eq_answers hvs, answers_singleton]
  simp [h1, h2]

end Due

/-! ### Between two rounds -/

/-- The instant of the alarm that is to be answered next. -/
def dueAt (w : ℕ × ℕ) : Toggle → ℕ
  | .Open => w.1
  | .Close => w.2

/-- The instant of the alarm that was answered last. -/
def beganAt (t₀ : ℕ) (vs : List (ℕ × ℕ)) (w : ℕ × ℕ) : Toggle → ℕ
  | .Open => lastClose t₀ vs
  | .Close => w.1

/-- What has been answered while the next call is awaited. -/
def answered (vs : List (ℕ × ℕ)) (w : ℕ × ℕ) : Toggle → List (Toggle × ℕ)
  | .Open => answers vs
  | .Close => answers vs ++ [(.Open, w.1)]

/-- The alarms are programmed for a window, and armed, with the interrupt attached: registers and
next event agree. -/
structure Programmed (w : ℕ × ℕ) (s : System) : Prop where
  window : s.nextEvent.window = w
  alarm1 : s.rtc.alarm1 = s.nextEvent.alarm1
  alarm2 : s.rtc.alarm2 = s.nextEvent.alarm2
  armed1 : s.rtc.armed1 = true
  armed2 : s.rtc.armed2 = true
  attached : s.attached = true

/-- `setAlarms` has executed so many of its statements, and what each of them has settled still
holds: the registers of an alarm, its enable bit, its flag cleared. -/
structure Programming (stage : ℕ) (s : System) : Prop where
  alarm2 : 1 ≤ stage → s.rtc.alarm2 = s.nextEvent.alarm2
  armed2 : 2 ≤ stage → s.rtc.armed2 = true
  down2 : 3 ≤ stage → s.rtc.a2f = none
  alarm1 : 4 ≤ stage → s.rtc.alarm1 = s.nextEvent.alarm1
  armed1 : 5 ≤ stage → s.rtc.armed1 = true
  down1 : 6 ≤ stage → s.rtc.a1f = none

/-- The flag that goes up at the next alarm is up. Before an opening it is the only one; before a
closing nothing is said of the other one, which the next schedule clears. -/
def Rung (w : ℕ × ℕ) (next : Toggle) (r : Rtc) : Prop :=
  match next with
  | .Open => r.a1f = none ∧ r.a2f = some w.1
  | .Close => r.a1f = some w.2

section Rounds

variable (table : List AddEvent) (t₀ : ℕ) (first : List (Toggle × Option ℕ)) (vs : List (ℕ × ℕ))
  (w : ℕ × ℕ) (next : Toggle) (s : System) (since : ℕ)

/-- The windows performed, and the next one, which opens at least a minute and at most a day after
the last closing. -/
structure Follows : Prop where
  greedy : Greedy (occurrences table) t₀ vs
  isNext : IsNext (occurrences table) (lastClose t₀ vs) w
  near : w.1 ≤ lastClose t₀ vs + 86400
  apart : lastClose t₀ vs + 60 ≤ w.1

/-- The alarms are programmed for the next window, and the last call has been answered. It holds
from the end of a round to the call of the next one. -/
structure Waiting : Prop where
  follows : Follows table t₀ vs w
  programmed : Programmed w s
  moves : s.moves = told first (answered vs w next)
  began : beganAt t₀ vs w next ≤ s.rtc.time

/-- Both flags are down, and the next alarm lies ahead. -/
structure Quiet : Prop where
  waiting : Waiting table t₀ first vs w next s
  down1 : s.rtc.a1f = none
  down2 : s.rtc.a2f = none
  ahead : s.rtc.time < dueAt w next

/-- The next alarm has matched less than a minute ago, and its call has not been made. -/
structure Alarmed : Prop where
  waiting : Waiting table t₀ first vs w next s
  since_eq : since = dueAt w next
  begun : dueAt w next ≤ s.rtc.time
  soon : s.rtc.time < dueAt w next + 60

/-- The last window has closed less than a minute ago, or `setup` has read the clock, and no window
opens within the minute. -/
structure Closed : Prop where
  awake : s.asleep = false
  attached : s.attached = true
  greedy : Greedy (occurrences table) t₀ vs
  since_eq : since = lastClose t₀ vs
  begun : since ≤ s.rtc.time
  soon : s.rtc.time < since + 60
  clear : ∀ w ∈ occurrences table, since < w.1 → since + 60 ≤ w.1
  moves : s.moves = told first (answers vs)

end Rounds

/-! ### What a step of the environment does -/

/-- A change of the angles, of `isAlarm` and of the sleep, on which no round depends. The interrupt
routine and most statements are of this kind. -/
def aside (s : System) (commanded : List ℤ) (isAlarm pending asleep : Bool) : System :=
  { s with commanded := commanded, isAlarm := isAlarm, pending := pending, asleep := asleep }

variable {table : List AddEvent} {t₀ : ℕ} {first : List (Toggle × Option ℕ)} {vs : List (ℕ × ℕ)}
  {w : ℕ × ℕ} {next : Toggle} {s : System} {since : ℕ} {r : Rtc}

theorem Rung.congr {r r' : Rtc} (h : Rung w next r) (hflag1 : r'.a1f = r.a1f)
    (hflag2 : r'.a2f = r.a2f) : Rung w next r' := by
  cases next with
  | Open => exact ⟨hflag1.trans h.1, hflag2.trans h.2⟩
  | Close => exact hflag1.trans h

/-- What is programmed depends on the event, the registers, the enable bits and the interrupt, and
on nothing else. -/
theorem Programmed.congr (h : Programmed w s) {s' : System} (hnext : s'.nextEvent = s.nextEvent)
    (halarm1 : s'.rtc.alarm1 = s.rtc.alarm1) (halarm2 : s'.rtc.alarm2 = s.rtc.alarm2)
    (harmed1 : s'.rtc.armed1 = s.rtc.armed1) (harmed2 : s'.rtc.armed2 = s.rtc.armed2)
    (hattached : s'.attached = s.attached) : Programmed w s' := by
  refine ⟨?_, ?_, ?_, harmed1.trans h.armed1, harmed2.trans h.armed2, hattached.trans h.attached⟩
  · rw [hnext]
    exact h.window
  · rw [halarm1, hnext]
    exact h.alarm1
  · rw [halarm2, hnext]
    exact h.alarm2

theorem Programmed.tick (h : Programmed w s) (hr : s.rtc.tick = some r) :
    Programmed w (s.setRtc r) := by
  obtain ⟨-, halarm1, halarm2, harmed1, harmed2, -, -⟩ := Rtc.tick_eq_some hr
  exact h.congr rfl halarm1 halarm2 harmed1 harmed2 rfl

/-- In the weeks around the window for which the alarms are programmed, alarm 1 matches at its
closing only. -/
theorem Programmed.alarm1_matches_iff (h : Programmed w s) {t : ℕ}
    (hclose : t < w.2 + 86400 * 28 ∧ w.2 < t + 86400 * 28) :
    s.rtc.alarm1.Matches t ↔ t = w.2 := by
  have hwindow := h.window
  subst hwindow
  rw [h.alarm1]
  exact s.nextEvent.alarm1_matches_iff hclose.1 hclose.2

/-- And alarm 2 matches at its opening only. -/
theorem Programmed.alarm2_matches_iff (h : Programmed w s) (hmod : w.1 % 60 = 0) {t : ℕ}
    (hopen : t < w.1 + 86400 * 28 ∧ w.1 < t + 86400 * 28) :
    s.rtc.alarm2.Matches t ↔ t = w.1 := by
  have hwindow := h.window
  subst hwindow
  rw [h.alarm2]
  exact alarm2_matches_iff_of_near s.nextEvent hmod hopen.1 hopen.2

/-- **In these weeks**, ticks raise flags at the opening and at the closing only. -/
theorem Programmed.tick_flags (h : Programmed w s) (hmod : w.1 % 60 = 0) (hr : s.rtc.tick = some r)
    (hopen : r.time < w.1 + 86400 * 28 ∧ w.1 < r.time + 86400 * 28)
    (hclose : r.time < w.2 + 86400 * 28 ∧ w.2 < r.time + 86400 * 28) :
    r.a1f = Rtc.raise s.rtc.a1f (r.time = w.2) r.time ∧
      r.a2f = Rtc.raise s.rtc.a2f (r.time = w.1) r.time := by
  obtain ⟨htime, -, -, -, -, hflag1, hflag2⟩ := Rtc.tick_eq_some hr
  rw [← htime] at hflag1 hflag2
  have hmatch1 := h.alarm1_matches_iff hclose
  have hmatch2 := h.alarm2_matches_iff hmod hopen
  refine ⟨hflag1.trans ?_, hflag2.trans ?_⟩
  · simp only [hmatch1]
  · simp only [hmatch2]

/-- While both flags are down, a flag that goes up makes the pin fall. -/
theorem Programmed.pending_tick (h : Programmed w s) (hr : s.rtc.tick = some r)
    (hdown1 : s.rtc.a1f = none) (hdown2 : s.rtc.a2f = none) :
    (s.setRtc r).pending = (s.pending || (r.a1f.isSome || r.a2f.isSome)) := by
  obtain ⟨-, -, -, harmed1, harmed2, -, -⟩ := Rtc.tick_eq_some hr
  have hhigh : s.rtc.intLow = false := by simp [Rtc.intLow, hdown1, hdown2]
  rw [pending_setRtc, h.attached, hhigh, Rtc.intLow, harmed1, harmed2, h.armed1, h.armed2]
  simp

/-- **The statements of `setAlarms`**, one after the other: each is a change of the clock that keeps
its time, and leads to the next stage. -/
theorem Programming.exec (k : Sketch) (now : UInt32) {stage : ℕ} {stmt : Stmt}
    (hstmt : Sketch.setAlarms[stage]? = some stmt) (h : Programming stage s) :
    ∃ r, exec k now s stmt = (s.setRtc r, []) ∧ r.time = s.rtc.time ∧
      Programming (stage + 1) (s.setRtc r) := by
  have halarm2 := h.alarm2
  have harmed2 := h.armed2
  have hdown2 := h.down2
  have halarm1 := h.alarm1
  have harmed1 := h.armed1
  match stage, hstmt with
  | 0, rfl => exact ⟨_, rfl, rfl, ⟨fun _ ↦ rfl, by omega, by omega, by omega, by omega, by omega⟩⟩
  | 1, rfl => exact ⟨_, rfl, rfl, ⟨fun _ ↦ halarm2 le_rfl, fun _ ↦ rfl, by omega, by omega,
      by omega, by omega⟩⟩
  | 2, rfl => exact ⟨_, rfl, rfl, ⟨fun _ ↦ halarm2 (by omega), fun _ ↦ harmed2 le_rfl,
      fun _ ↦ rfl, by omega, by omega, by omega⟩⟩
  | 3, rfl => exact ⟨_, rfl, rfl, ⟨fun _ ↦ halarm2 (by omega), fun _ ↦ harmed2 (by omega),
      fun _ ↦ hdown2 le_rfl, fun _ ↦ rfl, by omega, by omega⟩⟩
  | 4, rfl => exact ⟨_, rfl, rfl, ⟨fun _ ↦ halarm2 (by omega), fun _ ↦ harmed2 (by omega),
      fun _ ↦ hdown2 (by omega), fun _ ↦ halarm1 le_rfl, fun _ ↦ rfl, by omega⟩⟩
  | 5, rfl => exact ⟨_, rfl, rfl, ⟨fun _ ↦ halarm2 (by omega), fun _ ↦ harmed2 (by omega),
      fun _ ↦ hdown2 (by omega), fun _ ↦ halarm1 (by omega), fun _ ↦ harmed1 le_rfl,
      fun _ ↦ rfl⟩⟩

theorem Programming.aside {stage : ℕ} (h : Programming stage s) (angles : List ℤ)
    (isAlarm pending asleep : Bool) :
    Programming stage (aside s angles isAlarm pending asleep) :=
  ⟨h.alarm2, h.armed2, h.down2, h.alarm1, h.armed1, h.down1⟩

/-- Before the window opens, no tick raises a flag that `setAlarms` has cleared. -/
theorem Programming.tick {stage : ℕ} (h : Programming stage s) (hr : s.rtc.tick = some r)
    (hmod : s.nextEvent.window.1 % 60 = 0) (hopen : r.time < s.nextEvent.window.1)
    (hlt : s.nextEvent.window.1 < s.nextEvent.window.2)
    (hnear : s.nextEvent.window.2 < r.time + 86400 * 28) : Programming stage (s.setRtc r) := by
  obtain ⟨htime, halarm1, halarm2, harmed1, harmed2, hflag1, hflag2⟩ := Rtc.tick_eq_some hr
  rw [← htime] at hflag1 hflag2
  refine ⟨fun hs ↦ halarm2.trans (h.alarm2 hs), fun hs ↦ harmed2.trans (h.armed2 hs), fun hs ↦ ?_,
    fun hs ↦ halarm1.trans (h.alarm1 hs), fun hs ↦ harmed1.trans (h.armed1 hs), fun hs ↦ ?_⟩
  · have hmatch : s.nextEvent.alarm2.Matches r.time ↔ r.time = s.nextEvent.window.1 :=
      alarm2_matches_iff_of_near s.nextEvent hmod (hopen.trans_le (Nat.le_add_right _ _))
        (hlt.trans hnear)
    rw [rtc_setRtc, hflag2, h.down2 hs, h.alarm2 (by omega)]
    exact Rtc.raise_of_not none (by rw [hmatch]; exact hopen.ne)
  · have hmatch := s.nextEvent.alarm1_matches_iff (t := r.time) (by omega) hnear
    rw [rtc_setRtc, hflag1, h.down1 hs, h.alarm1 (by omega)]
    exact Rtc.raise_of_not none (by rw [hmatch]; omega)

/-- A tick between two rounds leaves the alarms programmed and the calls answered. -/
theorem Waiting.tick (h : Waiting table t₀ first vs w next s) (hr : s.rtc.tick = some r) :
    Waiting table t₀ first vs w next (s.setRtc r) := by
  have htime := (Rtc.tick_eq_some hr).1
  refine ⟨h.follows, h.programmed.tick hr, h.moves, ?_⟩
  rw [rtc_setRtc, htime]
  exact h.began.trans (Nat.le_succ _)

/-- Between two rounds, only the time, the programmed alarms and the moves count. -/
theorem Waiting.congr (h : Waiting table t₀ first vs w next s) {s' : System}
    (hnext : s'.nextEvent = s.nextEvent) (halarm1 : s'.rtc.alarm1 = s.rtc.alarm1)
    (halarm2 : s'.rtc.alarm2 = s.rtc.alarm2) (harmed1 : s'.rtc.armed1 = s.rtc.armed1)
    (harmed2 : s'.rtc.armed2 = s.rtc.armed2) (hattached : s'.attached = s.attached)
    (htime : s'.rtc.time = s.rtc.time) (hmoves : s'.moves = s.moves) :
    Waiting table t₀ first vs w next s' :=
  ⟨h.follows, h.programmed.congr hnext halarm1 halarm2 harmed1 harmed2 hattached,
    hmoves.trans h.moves, h.began.trans htime.ge⟩

theorem Quiet.aside (h : Quiet table t₀ first vs w next s) (angles : List ℤ)
    (isAlarm pending asleep : Bool) :
    Quiet table t₀ first vs w next (aside s angles isAlarm pending asleep) :=
  ⟨h.waiting.congr rfl rfl rfl rfl rfl rfl rfl rfl, h.down1, h.down2, h.ahead⟩

/-- After the match neither flags nor interrupts count, so that the flag may be taken. -/
theorem Alarmed.congr (h : Alarmed table t₀ first vs w next s since) {s' : System}
    (hnext : s'.nextEvent = s.nextEvent) (halarm1 : s'.rtc.alarm1 = s.rtc.alarm1)
    (halarm2 : s'.rtc.alarm2 = s.rtc.alarm2) (harmed1 : s'.rtc.armed1 = s.rtc.armed1)
    (harmed2 : s'.rtc.armed2 = s.rtc.armed2) (hattached : s'.attached = s.attached)
    (htime : s'.rtc.time = s.rtc.time) (hmoves : s'.moves = s.moves) :
    Alarmed table t₀ first vs w next s' since :=
  ⟨h.waiting.congr hnext halarm1 halarm2 harmed1 harmed2 hattached htime hmoves, h.since_eq,
    h.begun.trans htime.ge, htime.trans_lt h.soon⟩

/-- After a closing, only the time, the moves and the controller's own state count. -/
theorem Closed.congr (h : Closed table t₀ first vs s since) {s' : System}
    (hawake : s'.asleep = false) (hattached : s'.attached = s.attached)
    (htime : s'.rtc.time = s.rtc.time) (hmoves : s'.moves = s.moves) :
    Closed table t₀ first vs s' since :=
  ⟨hawake, hattached.trans h.attached, h.greedy, h.since_eq, h.begun.trans htime.ge,
    htime.trans_lt h.soon, h.clear, hmoves.trans h.moves⟩

section Regular

variable (hreg : Regular table)

include hreg

/-- From one alarm to the next it is a minute at least. -/
theorem Follows.beganAt_add_le (h : Follows table t₀ vs w) (next : Toggle) :
    beganAt t₀ vs w next + 60 ≤ dueAt w next := by
  cases next with
  | Open => exact h.apart
  | Close => exact (hreg.length_mem h.isNext.mem).1

/-- **While the next alarm lies ahead or has just matched**, ticks raise flags at the opening and at
the closing of the window only. -/
theorem Waiting.tick_flags (h : Waiting table t₀ first vs w next s) (hr : s.rtc.tick = some r)
    (hsoon : s.rtc.time < dueAt w next + 60) :
    r.a1f = Rtc.raise s.rtc.a1f (r.time = w.2) r.time ∧
      r.a2f = Rtc.raise s.rtc.a2f (r.time = w.1) r.time := by
  have htime := (Rtc.tick_eq_some hr).1
  have hmem := h.follows.isNext.mem
  have hlength := hreg.length_mem hmem
  have hnear := h.follows.near
  have hopens := h.follows.isNext.lt
  have hrange : lastClose t₀ vs ≤ s.rtc.time ∧ s.rtc.time < w.2 + 60 := by
    have hbegan := h.began
    cases next with
    | Open =>
      simp only [beganAt, dueAt] at hbegan hsoon
      omega
    | Close =>
      simp only [beganAt, dueAt] at hbegan hsoon
      omega
  exact h.programmed.tick_flags (hreg.opening_mod hmem) hr (by omega) (by omega)

/-- Before the next alarm, both flags stay down. -/
theorem Quiet.tick (h : Quiet table t₀ first vs w next s) (hr : s.rtc.tick = some r)
    (hahead : r.time < dueAt w next) : Quiet table t₀ first vs w next (s.setRtc r) := by
  have htime := (Rtc.tick_eq_some hr).1
  have hquiet := h.ahead
  obtain ⟨hflag1, hflag2⟩ := h.waiting.tick_flags hreg hr (by omega)
  have hlt := hreg.lt_of_mem h.waiting.follows.isNext.mem
  have hbegan := h.waiting.began
  have hne : r.time ≠ w.2 ∧ r.time ≠ w.1 := by
    cases next with
    | Open =>
      simp only [dueAt] at hahead
      omega
    | Close =>
      simp only [dueAt, beganAt] at hahead hbegan
      omega
  refine ⟨h.waiting.tick hr, ?_, ?_, hahead⟩
  · rw [rtc_setRtc, hflag1, h.down1, Rtc.raise_of_not _ hne.1]
  · rw [rtc_setRtc, hflag2, h.down2, Rtc.raise_of_not _ hne.2]

/-- **The next alarm** raises its flag and makes the pin fall. -/
theorem Quiet.rings (h : Quiet table t₀ first vs w next s) (hr : s.rtc.tick = some r)
    (hreached : ¬ r.time < dueAt w next) :
    Alarmed table t₀ first vs w next (s.setRtc r) r.time ∧ Rung w next r ∧
      (s.setRtc r).pending = true := by
  have htime := (Rtc.tick_eq_some hr).1
  have hquiet := h.ahead
  have hdue : r.time = dueAt w next := by omega
  obtain ⟨hflag1, hflag2⟩ := h.waiting.tick_flags hreg hr (by omega)
  rw [h.down1] at hflag1
  rw [h.down2] at hflag2
  have hlt := hreg.lt_of_mem h.waiting.follows.isNext.mem
  refine ⟨⟨h.waiting.tick hr, hdue, hdue.ge, ?_⟩, ?_⟩
  · rw [rtc_setRtc]
    omega
  rw [h.waiting.programmed.pending_tick hr h.down1 h.down2]
  -- Only the flag of the call that is due is raised; the other alarm does not match at this second.
  cases next with
  | Open =>
    simp only [dueAt] at hdue
    rw [Rtc.raise_of_not none (by omega)] at hflag1
    rw [Rtc.raise_none hdue, hdue] at hflag2
    exact ⟨⟨hflag1, hflag2⟩, by simp [hflag2]⟩
  | Close =>
    simp only [dueAt] at hdue
    rw [Rtc.raise_none hdue, hdue] at hflag1
    exact ⟨hflag1, by simp [hflag1]⟩

/-- In the minute after an alarm, no tick raises a flag. -/
theorem Alarmed.tick (h : Alarmed table t₀ first vs w next s since) (hr : s.rtc.tick = some r)
    (hsoon : r.time < since + 60) :
    Alarmed table t₀ first vs w next (s.setRtc r) since ∧ r.a1f = s.rtc.a1f ∧
      r.a2f = s.rtc.a2f := by
  have htime := (Rtc.tick_eq_some hr).1
  obtain ⟨hflag1, hflag2⟩ := h.waiting.tick_flags hreg hr h.soon
  have hlength := hreg.length_mem h.waiting.follows.isNext.mem
  have hbegun := h.begun
  have hsince := h.since_eq
  -- Less than a minute after the call, the clock has not come to the other end of the window.
  have hne : r.time ≠ w.2 ∧ r.time ≠ w.1 := by
    cases next with
    | Open =>
      simp only [dueAt] at hbegun hsince
      omega
    | Close =>
      simp only [dueAt] at hbegun hsince
      omega
  rw [Rtc.raise_of_not _ hne.1] at hflag1
  rw [Rtc.raise_of_not _ hne.2] at hflag2
  refine ⟨⟨h.waiting.tick hr, hsince, ?_, ?_⟩, hflag1, hflag2⟩
  · rw [rtc_setRtc]
    omega
  · rw [rtc_setRtc]
    omega

omit hreg in
/-- Within the minute after a closing, a tick changes nothing that counts. -/
theorem Closed.tick (h : Closed table t₀ first vs s since) (hr : s.rtc.tick = some r)
    (hsoon : r.time < since + 60) : Closed table t₀ first vs (s.setRtc r) since := by
  have htime := (Rtc.tick_eq_some hr).1
  refine ⟨h.awake, h.attached, h.greedy, h.since_eq, ?_, hsoon, h.clear, h.moves⟩
  rw [rtc_setRtc, htime]
  exact h.begun.trans (Nat.le_succ _)

/-! ### The calendar is kept in each state -/

/-- A greedy run up to the last closing is what is performed until now, if nothing has opened
since. -/
theorem performed_of_greedy (h : Greedy (occurrences table) t₀ vs) {now : ℕ}
    (hpast : ∀ v ∈ vs, v.1 ≤ now)
    (hlater : ∀ v ∈ occurrences table, lastClose t₀ vs < v.1 → now < v.1) :
    Performed (occurrences table) t₀ now vs :=
  h.performed (fun _ hv ↦ hreg.lt_of_mem hv) (fun _ hv _ hw ↦ hreg.window_unique hv hw)
    (fun _ hv _ hw heq ↦ by have := hreg.minute_after_close hv hw heq.le; omega) hpast hlater

/-- What is performed has opened and closed by the last closing. -/
theorem le_of_mem_greedy (h : Greedy (occurrences table) t₀ vs) {U : ℕ}
    (hU : lastClose t₀ vs ≤ U) : ∀ v ∈ vs, v.1 ≤ U ∧ v.2 ≤ U := by
  intro v hv
  have hclose := (h.le_lastClose fun _ hv ↦ hreg.lt_of_mem hv).2 v hv
  have hopen := hreg.lt_of_mem (h.mem v hv)
  omega

/-- After a closing: all calls for the windows performed have been made. -/
theorem Closed.kept (h : Closed table t₀ first vs s since) :
    Kept (occurrences table) t₀ first s since := by
  have hbegun := h.begun
  rw [h.since_eq] at hbegun
  have hmem := le_of_mem_greedy hreg h.greedy hbegun
  refine ⟨vs, s.rtc.time, performed_of_greedy hreg h.greedy (fun v hv ↦ (hmem v hv).1) ?_,
    Or.inl rfl, ?_, ?_⟩
  · intro w hw hlast
    have hclear := h.clear w hw (by rw [h.since_eq]; exact hlast)
    exact h.soon.trans_le hclear
  · rw [due_eq_answers hmem]
    exact h.moves
  · rw [due_eq_answers hmem]

/-- While the next alarm lies ahead: its window is open, or has still to open, and what opens before
its closing is left out. -/
theorem Waiting.kept (h : Waiting table t₀ first vs w next s) (hahead : s.rtc.time < dueAt w next) :
    Kept (occurrences table) t₀ first s since := by
  have hbegan := h.began
  have hmoves := h.moves
  have hmem := h.follows.isNext.mem
  have hlt := hreg.lt_of_mem hmem
  have hopens := h.follows.isNext.lt
  -- Before the opening the performed windows are `vs`; between opening and closing the window under
  -- way is one of them.
  cases next with
  | Open =>
    simp only [beganAt, dueAt, answered] at hbegan hahead hmoves
    have hpast := le_of_mem_greedy hreg h.follows.greedy hbegan
    refine ⟨vs, s.rtc.time, performed_of_greedy hreg h.follows.greedy (fun v hv ↦ (hpast v hv).1)
      ?_, Or.inl rfl, ?_, ?_⟩
    · exact fun v hv hlast ↦ hahead.trans_le (h.follows.isNext.le_of_lt v hv hlast)
    · rwa [due_eq_answers hpast]
    · rw [due_eq_answers hpast]
  | Close =>
    simp only [beganAt, dueAt, answered] at hbegan hahead hmoves
    have hpast := le_of_mem_greedy hreg h.follows.greedy (hopens.le.trans hbegan)
    refine ⟨vs ++ [w], s.rtc.time, performed_of_greedy hreg
      (h.follows.greedy.append_singleton h.follows.isNext) ?_ ?_, Or.inl rfl, ?_, ?_⟩
    · intro v hv
      rcases List.mem_append.1 hv with hv | hv
      · exact (hpast v hv).1
      · rw [List.mem_singleton.1 hv]
        exact hbegan
    · rw [lastClose_append_singleton]
      exact fun v _ hlast ↦ hahead.trans hlast
    · rwa [due_append_of_le hpast hbegan hahead]
    · rw [due_append_of_le hpast hbegan hahead, answers_append]
      exact (List.prefix_append_right_inj _).2 ⟨[(.Close, w.2)], rfl⟩

/-- In the minute after an alarm, before its call: the calls are those up to the second before the
alarm, and it is the work of the controller that excuses the one that is missing. -/
theorem Alarmed.kept (h : Alarmed table t₀ first vs w next s since) (hidle : ¬ Idle s) :
    Kept (occurrences table) t₀ first s since := by
  obtain ⟨⟨hfollows, -, hmoves, -⟩, hsince, hbegun, hsoon⟩ := h
  have hmem := hfollows.isNext.mem
  have hlength := hreg.length_mem hmem
  have hopens := hfollows.isNext.lt
  have hperformed : Performed (occurrences table) t₀ s.rtc.time (vs ++ [w]) := by
    have hle : w.1 ≤ s.rtc.time := by
      cases next with
      | Open => exact hbegun
      | Close => exact (hreg.lt_of_mem hmem).le.trans hbegun
    refine performed_of_greedy hreg (hfollows.greedy.append_singleton hfollows.isNext) ?_ ?_
    · intro v hv
      rcases List.mem_append.1 hv with hv | hv
      · exact (le_of_mem_greedy hreg hfollows.greedy (hopens.le.trans hle) v hv).1
      · rw [List.mem_singleton.1 hv]
        exact hle
    · intro v hv hlast
      rw [lastClose_append_singleton] at hlast
      have hafter := hreg.minute_after_close hmem hv hlast.le
      cases next with
      | Open =>
        simp only [dueAt] at hsoon
        omega
      | Close => exact hsoon.trans_le hafter
  -- the answers up to the second before the alarm
  have hdue : due (since - 1) (vs ++ [w]) = answered vs w next := by
    cases next with
    | Open =>
      simp only [dueAt] at hsince
      exact due_append_of_lt (le_of_mem_greedy hreg hfollows.greedy (by omega)) (by omega)
        (by omega)
    | Close =>
      simp only [dueAt] at hsince
      exact due_append_of_le (le_of_mem_greedy hreg hfollows.greedy (by omega)) (by omega)
        (by omega)
  refine ⟨vs ++ [w], since - 1, hperformed, Or.inr ⟨hidle, ?_⟩, ?_, ?_⟩
  · cases next with
    | Open =>
      simp only [dueAt] at hsince
      omega
    | Close =>
      simp only [dueAt] at hsince
      omega
  · rw [hdue, hmoves]
  · rw [hdue, answers_append]
    cases next with
    | Open => exact List.prefix_append _ _
    | Close => exact (List.prefix_append_right_inj _).2 ⟨[(.Close, w.2)], rfl⟩

end Regular

end Machine.Performance
