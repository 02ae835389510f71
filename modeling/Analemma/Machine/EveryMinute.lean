import Analemma.Machine.Debug
import Analemma.Machine.Performance

/-!
# The debug sketch opens every minute

In a timely run of the debug sketch the calls of `toggleMotor` after `setup` come every half minute,
from the first full minute after the reading of `setup` on: the `k`-th opening `60 * k` seconds
after it and the `k`-th closing half a minute later (`call`). Openings answer alarm 2, closings
alarm 1, and while the controller is idle the next of them is the first match to come.

The outline is the one of `Performance`, with a schedule that each closing makes anew from the
reading of the clock (`Read`). A closing is over before the next full minute, so this minute is the
one after the reading, whichever second of the minute is read.

What a timely run asks is that the work begun at an alarm, or at the reading of `setup`, is over
before the next call is due. The pair of a state and its `deadline` carries this: `Made` counts the
calls, and each of the assertions below says what `n`, the state and the deadline have to do with
each other.

* `Quiet`: the alarms are programmed and nothing has matched yet. The next tick that reaches the
  instant of the call rings (`Quiet.rings`), and the work at it gets half a minute.
* `Alarmed`, with `Rung` while the flag is up: until the work is over no tick raises a flag
  (`Alarmed.tick`).
* `Closed` and `Read`: after a closing the event of the next minute is still to be made, from a
  reading of the clock that may itself come some seconds late.

Alarm 1 compares the seconds and alarm 2 does not, which is why the first half of a minute is not
like the second; `Made.callsFor_iff` is the one place where the match of the registers is worked
out.
-/

namespace Machine.Debug

open DS3231 Schedule Interleaving Performance

/-! ### Every half minute -/

/-- The calls of `toggleMotor` after `setup`, each with the instant of its alarm: the `k`-th opening
at `o + 60 * k`, the `k`-th closing half a minute later. The calls are numbered through, openings
even and closings odd. -/
def call (o i : ℕ) : Toggle × ℕ :=
  if i % 2 = 0 then (.Open, o + 60 * (i / 2)) else (.Close, o + 60 * (i / 2) + 30)

/-- The first `n` calls, in order. -/
def calls (o n : ℕ) : List (Toggle × ℕ) := (List.range n).map (call o)

/-- The alarm that calls for a toggle matches: alarm 2 opens and alarm 1 closes. -/
def CallsFor (r : Rtc) (t : ℕ) : Toggle → Prop
  | .Open => r.alarm2.Matches t
  | .Close => r.alarm1.Matches t

instance (r : Rtc) (t : ℕ) : DecidablePred (CallsFor r t)
  | .Open => inferInstanceAs (Decidable (r.alarm2.Matches t))
  | .Close => inferInstanceAs (Decidable (r.alarm1.Matches t))

/-- The flag of this alarm, with the instant at which it was raised. -/
def flag (r : Rtc) : Toggle → Option ℕ
  | .Open => r.a2f
  | .Close => r.a1f

/-- The first calls have been made, each for a match of its alarm at its instant. The last one is
past, and at most the next one has been begun; while the controller is idle, the next one lies
ahead, and its alarm is the first to match. -/
def EveryMinute (o : ℕ) (first : List (Toggle × Option ℕ)) (s : Machine.System) : Prop :=
  ∃ n, s.moves = told first (calls o n) ∧ (∀ i < n, (call o i).2 ≤ s.rtc.time) ∧
    s.rtc.time < (call o (n + 1)).2 ∧
      (Idle s → CallsFor s.rtc (call o n).2 (call o n).1 ∧
        IsLeast {t | s.rtc.time < t ∧ ∃ toggle, CallsFor s.rtc t toggle} (call o n).2)

/-- The window that a call belongs to: the minute of its opening, and its closing half a minute
later. An opening and the closing behind it have the same one. -/
def window (o n : ℕ) : ℕ × ℕ := (o + 60 * (n / 2), o + 60 * (n / 2) + 30)

section Call

variable (o n : ℕ)

theorem calls_succ : calls o (n + 1) = calls o n ++ [call o n] := by
  rw [calls, List.range_succ, List.map_append, ← calls, List.map_singleton]

/-- An opening, as the call of its number: the calls are half a minute apart. -/
theorem call_of_even (h : n % 2 = 0) : call o n = (.Open, o + 30 * n) := by
  rw [call, if_pos h, show 60 * (n / 2) = 30 * n by omega]

theorem call_of_odd (h : ¬ n % 2 = 0) : call o n = (.Close, o + 30 * n) := by
  rw [call, if_neg h, show o + 60 * (n / 2) + 30 = o + 30 * n by omega]

/-- Whichever it is, the call with the number `n` comes `n` half minutes after the first one. -/
theorem instant_call : (call o n).2 = o + 30 * n := by
  by_cases h : n % 2 = 0
  · rw [call_of_even o n h]
  · rw [call_of_odd o n h]

/-- The instant of a call is the end of its window that the call is for. -/
theorem dueAt_call : dueAt (window o n) (call o n).1 = o + 30 * n := by
  rw [← instant_call]
  unfold call
  split_ifs <;> rfl

/-- The other instant of the window is that of the next call or that of the last one. -/
theorem dueAt_of_ne {toggle : Toggle} (h : toggle ≠ (call o n).1) :
    dueAt (window o n) toggle = o + 30 * (n + 1) ∨
      (0 < n ∧ dueAt (window o n) toggle + 30 = o + 30 * n) := by
  by_cases heven : n % 2 = 0
  · rw [call_of_even o n heven] at h
    cases toggle with
    | Open => exact absurd rfl h
    | Close =>
      rw [dueAt, window]
      omega
  · rw [call_of_odd o n heven] at h
    cases toggle with
    | Open =>
      rw [dueAt, window]
      omega
    | Close => exact absurd rfl h

end Call

/-! ### Between two rounds of work -/

section Rounds

variable (o : ℕ) (first : List (Toggle × Option ℕ)) (n : ℕ) (s : Machine.System) (deadline : ℕ)

/-- So many calls have been made, and the time has come for the last one of them. The first one is
prepared in the minute before it, every other one in the half minute. -/
structure Made : Prop where
  moves : s.moves = told first (calls o n)
  began : o + 30 * n ≤ s.rtc.time + 60
  recent : 0 < n → o + 30 * n ≤ s.rtc.time + 30

/-- The alarms are programmed, both flags are down, and the next call lies ahead. -/
structure Quiet : Prop where
  made : Made o first n s
  programmed : Programmed (window o n) s
  down : ∀ toggle, flag s.rtc toggle = none
  ahead : s.rtc.time < o + 30 * n

/-- The alarm of the next call has matched, and the call has not been made. -/
structure Alarmed : Prop where
  made : Made o first n s
  programmed : Programmed (window o n) s
  deadline_eq : deadline = o + 30 * (n + 1)
  begun : o + 30 * n ≤ s.rtc.time
  soon : s.rtc.time < deadline

/-- The flag of the alarm for the next call is up, and the other one is down. -/
def Rung (r : Rtc) : Prop :=
  ∀ toggle, flag r toggle = if toggle = (call o n).1 then some (o + 30 * n) else none

/-- The hatch has closed, or `setup` has read the clock, and the next opening lies ahead. -/
structure Closed : Prop where
  awake : s.asleep = false
  attached : s.attached = true
  made : Made o first n s
  even : n % 2 = 0
  deadline_eq : deadline = o + 30 * n
  soon : s.rtc.time < deadline

end Rounds

variable {o : ℕ} {first : List (Toggle × Option ℕ)} {n : ℕ} {s : Machine.System} {deadline : ℕ}
  {r : Rtc}

theorem forall_flag_eq_none : (∀ toggle, flag r toggle = none) ↔ r.a1f = none ∧ r.a2f = none := by
  refine ⟨fun h ↦ ⟨h .Close, h .Open⟩, fun h toggle ↦ ?_⟩
  cases toggle with
  | Open => exact h.2
  | Close => exact h.1

/-- How many calls have been made depends on the time and on the moves only. -/
theorem Made.congr (h : Made o first n s) {s' : Machine.System} (htime : s'.rtc.time = s.rtc.time)
    (hmoves : s'.moves = s.moves) : Made o first n s' := by
  refine ⟨hmoves.trans h.moves, ?_, ?_⟩
  · rw [htime]
    exact h.began
  · rw [htime]
    exact h.recent

theorem Made.tick (h : Made o first n s) (hr : s.rtc.tick = some r) :
    Made o first n (s.setRtc r) := by
  have htime := (Rtc.tick_eq_some hr).1
  refine ⟨h.moves, ?_, fun hn ↦ ?_⟩
  · rw [rtc_setRtc, htime]
    exact h.began.trans (by omega)
  · rw [rtc_setRtc, htime]
    exact (h.recent hn).trans (by omega)

/-- The call after the last one is made at the instant of its alarm. -/
theorem Made.succ (h : Made o first n s) {s' : Machine.System} (htime : s'.rtc.time = s.rtc.time)
    (hbegun : o + 30 * n ≤ s.rtc.time)
    (hmoves : s'.moves = s.moves ++ [((call o n).1, some (o + 30 * n))]) :
    Made o first (n + 1) s' := by
  refine ⟨?_, ?_, fun _ ↦ ?_⟩
  · rw [hmoves, h.moves, calls_succ, told_append, instant_call]
  · rw [htime]
    omega
  · rw [htime]
    omega

theorem Made.past (h : Made o first n s) : ∀ i < n, (call o i).2 ≤ s.rtc.time := by
  intro i hi
  have hrecent := h.recent (by omega)
  rw [instant_call]
  omega

/-- Quiet is a matter of the clock and of the moves: not of the angles, nor of the interrupt, nor of
whether the controller sleeps. -/
theorem Quiet.aside (h : Quiet o first n s) (angles : List ℤ) (isAlarm pending asleep : Bool) :
    Quiet o first n (aside s angles isAlarm pending asleep) :=
  ⟨h.made.congr rfl rfl, h.programmed.congr rfl rfl rfl rfl rfl rfl, h.down, h.ahead⟩

/-- After the alarm, neither the flags count nor the controller's own state: the flag may be taken
and the hatch be moving. -/
theorem Alarmed.congr (h : Alarmed o first n s deadline) {s' : Machine.System}
    (hnext : s'.nextEvent = s.nextEvent) (halarm1 : s'.rtc.alarm1 = s.rtc.alarm1)
    (halarm2 : s'.rtc.alarm2 = s.rtc.alarm2) (harmed1 : s'.rtc.armed1 = s.rtc.armed1)
    (harmed2 : s'.rtc.armed2 = s.rtc.armed2) (hattached : s'.attached = s.attached)
    (htime : s'.rtc.time = s.rtc.time) (hmoves : s'.moves = s.moves) :
    Alarmed o first n s' deadline :=
  ⟨h.made.congr htime hmoves,
    h.programmed.congr hnext halarm1 halarm2 harmed1 harmed2 hattached, h.deadline_eq,
    h.begun.trans htime.ge, htime.trans_lt h.soon⟩

/-- After a closing, only the time, the moves and the controller's own state count. -/
theorem Closed.congr (h : Closed o first n s deadline) {s' : Machine.System}
    (hasleep : s'.asleep = s.asleep) (hattached : s'.attached = s.attached)
    (htime : s'.rtc.time = s.rtc.time) (hmoves : s'.moves = s.moves) :
    Closed o first n s' deadline :=
  ⟨hasleep.trans h.awake, hattached.trans h.attached, h.made.congr htime hmoves, h.even,
    h.deadline_eq, htime.trans_lt h.soon⟩

/-- A tick before the deadline leaves everything as it was after the closing. A flag that it may
raise is cleared by `setAlarms` before it is tested. -/
theorem Closed.tick (h : Closed o first n s deadline) (hr : s.rtc.tick = some r)
    (hsoon : r.time < deadline) : Closed o first n (s.setRtc r) deadline :=
  ⟨h.awake, h.attached, h.made.tick hr, h.even, h.deadline_eq, hsoon⟩

section Minute

variable (ho : o % 60 = 0)

include ho

/-- While the next call lies ahead or is being prepared, its window's alarms match at its instants
only. -/
theorem Made.callsFor_iff (h : Made o first n s) (hprogrammed : Programmed (window o n) s) {t : ℕ}
    (ht : s.rtc.time < t) (ht' : t ≤ o + 30 * (n + 1)) (toggle : Toggle) :
    CallsFor s.rtc t toggle ↔ t = dueAt (window o n) toggle := by
  have hbegan := h.began
  have hmod : (window o n).1 % 60 = 0 := by
    rw [window, Nat.add_mul_mod_self_left, ho]
  cases toggle with
  | Open =>
    refine hprogrammed.alarm2_matches_iff hmod ⟨?_, ?_⟩
    · rw [window]
      omega
    · rw [window]
      omega
  | Close =>
    refine hprogrammed.alarm1_matches_iff ⟨?_, ?_⟩
    · rw [window]
      omega
    · rw [window]
      omega

/-- Up to the next call, its alarm matches at its instant only, and the other one not at all. -/
theorem Quiet.callsFor_iff (h : Quiet o first n s) {t : ℕ} (ht : s.rtc.time < t)
    (ht' : t ≤ o + 30 * n) (toggle : Toggle) :
    CallsFor s.rtc t toggle ↔ toggle = (call o n).1 ∧ t = o + 30 * n := by
  rw [h.made.callsFor_iff ho h.programmed ht (by omega)]
  by_cases htoggle : toggle = (call o n).1
  · rw [htoggle, dueAt_call]
    exact (and_iff_right rfl).symm
  · have hrecent := h.made.recent
    have hdue := dueAt_of_ne o n htoggle
    refine iff_of_false (by omega) fun h ↦ htoggle h.1

omit ho in
/-- A tick raises a flag if its alarm matches the new second. -/
theorem flag_tick (hr : s.rtc.tick = some r) (toggle : Toggle) :
    flag r toggle =
      Rtc.raise (flag s.rtc toggle) (CallsFor s.rtc r.time toggle) r.time := by
  obtain ⟨htime, -, -, -, -, hflag1, hflag2⟩ := Rtc.tick_eq_some hr
  rw [htime]
  cases toggle with
  | Open => exact hflag2
  | Close => exact hflag1

omit ho in
/-- While both flags are down, a flag that goes up makes the pin fall. -/
theorem Quiet.pending_tick (h : Quiet o first n s) (hr : s.rtc.tick = some r) :
    (s.setRtc r).pending = (s.pending || ((flag r .Close).isSome || (flag r .Open).isSome)) :=
  h.programmed.pending_tick hr (h.down .Close) (h.down .Open)

/-- Before the next call, both flags stay down. -/
theorem Quiet.tick (h : Quiet o first n s) (hr : s.rtc.tick = some r)
    (hahead : r.time < o + 30 * n) : Quiet o first n (s.setRtc r) := by
  have htime := (Rtc.tick_eq_some hr).1
  refine ⟨h.made.tick hr, h.programmed.tick hr, fun toggle ↦ ?_, hahead⟩
  have hmiss : ¬ CallsFor s.rtc r.time toggle := fun hmatch ↦
    hahead.ne ((h.callsFor_iff ho (by omega) hahead.le toggle).1 hmatch).2
  rw [rtc_setRtc, flag_tick hr, h.down, Rtc.raise_of_not none hmiss]

/-- **The alarm of the next call** raises its flag and makes the pin fall. -/
theorem Quiet.rings (h : Quiet o first n s) (hr : s.rtc.tick = some r)
    (hreached : ¬ r.time < o + 30 * n) :
    Alarmed o first n (s.setRtc r) (r.time + 30) ∧ Rung o n r ∧ (s.setRtc r).pending = true := by
  have htime := (Rtc.tick_eq_some hr).1
  have hahead := h.ahead
  have hdue : r.time = o + 30 * n := by omega
  have hrung : Rung o n r := by
    intro toggle
    have hmatch := h.callsFor_iff ho (t := r.time) (by omega) hdue.le toggle
    rw [flag_tick hr, h.down, ← hdue]
    by_cases htoggle : toggle = (call o n).1
    · rw [if_pos htoggle, Rtc.raise_none (hmatch.2 ⟨htoggle, hdue⟩)]
    · rw [if_neg htoggle, Rtc.raise_of_not none fun h ↦ htoggle (hmatch.1 h).1]
  refine ⟨⟨h.made.tick hr, h.programmed.tick hr, by omega, hdue.ge,
    Nat.lt_add_of_pos_right (by omega)⟩, hrung, ?_⟩
  rw [h.pending_tick hr, hrung, hrung]
  cases (call o n).1 <;> simp

/-- Until the work is over, no tick raises a flag. -/
theorem Alarmed.tick (h : Alarmed o first n s deadline) (hr : s.rtc.tick = some r)
    (hsoon : r.time < deadline) :
    Alarmed o first n (s.setRtc r) deadline ∧ ∀ toggle, flag r toggle = flag s.rtc toggle := by
  have htime := (Rtc.tick_eq_some hr).1
  have hbegun := h.begun
  have hdeadline := h.deadline_eq
  refine ⟨⟨h.made.tick hr, h.programmed.tick hr, hdeadline, ?_, hsoon⟩, fun toggle ↦ ?_⟩
  · rw [rtc_setRtc]
    omega
  · have hmatch := h.made.callsFor_iff ho h.programmed (t := r.time) (by omega) (by omega) toggle
    rw [flag_tick hr]
    refine Rtc.raise_of_not _ fun hhit ↦ ?_
    have heq := hmatch.1 hhit
    by_cases htoggle : toggle = (call o n).1
    · rw [htoggle, dueAt_call] at heq
      omega
    · have hdue := dueAt_of_ne o n htoggle
      omega

end Minute

/-! ### Every minute, in each state -/

/-- While the next call lies ahead: the first match to come is the one that calls for it. -/
theorem Quiet.everyMinute (ho : o % 60 = 0) (h : Quiet o first n s) : EveryMinute o first s := by
  have hahead := h.ahead
  refine ⟨n, h.made.moves, h.made.past, ?_, fun _ ↦ ?_⟩
  · rw [instant_call]
    omega
  · rw [instant_call]
    have hcalls : CallsFor s.rtc (o + 30 * n) (call o n).1 :=
      (h.callsFor_iff ho hahead le_rfl _).2 ⟨rfl, rfl⟩
    refine ⟨hcalls, ⟨hahead, _, hcalls⟩, fun t ht ↦ ?_⟩
    obtain ⟨hlater, toggle, hmatch⟩ := ht
    by_contra hlt
    have heq := (h.callsFor_iff ho hlater (not_le.1 hlt).le toggle).1 hmatch
    exact hlt heq.2.ge

/-- While a call is being prepared or made. -/
theorem Made.everyMinute (h : Made o first n s) (hsoon : s.rtc.time < o + 30 * (n + 1))
    (hbusy : ¬ Idle s) : EveryMinute o first s := by
  refine ⟨n, h.moves, h.past, ?_, fun hidle ↦ absurd hidle hbusy⟩
  rw [instant_call]
  exact hsoon

/-! ### Steps of the timely program -/

section Steps

variable (o : ℕ) (first : List (Toggle × Option ℕ))

/-- Where `loop` starts: awake, with both flags down, and the work to be over before the next
call. -/
structure Calm (s : Machine.System) (deadline : ℕ) : Prop where
  awake : s.asleep = false
  quiet : ∃ n, Quiet o first n s ∧ deadline = o + 30 * n

/-- An outline up to the next start of `loop`. -/
abbrev Outlined (code : List Stmt) (s : System) (deadline : ℕ) : Prop :=
  program.Outline (fun _ σ ↦ EveryMinute o first σ.1.toSystem)
    (fun σ ↦ Calm o first σ.1.toSystem σ.2) code (s, deadline)

/-- An assertion of an awake controller that a tick before the deadline keeps, and that does not
depend on angles and interrupts. It may stand before any statement of the work. -/
structure Robust (A : System → ℕ → Prop) : Prop where
  awake : ∀ s deadline, A s deadline → s.asleep = false
  tick : ∀ s deadline r, A s deadline → s.rtc.tick = some r → r.time < deadline →
    A ⟨s.setRtc r, s.dt⟩ deadline
  aside : ∀ s deadline angles isAlarm pending, A s deadline →
    A ⟨aside s.toSystem angles isAlarm pending false, s.dt⟩ deadline
  everyMinute : ∀ s deadline, A s deadline → EveryMinute o first s.toSystem

variable {o first} {A : System → ℕ → Prop}

/-- A robust assertion is stable under the environment of the timely program, whose ticks keep the
deadline while the controller is awake. -/
theorem Robust.stable (hA : Robust o first A) (code : List Stmt) :
    program.Stable code fun σ ↦ A σ.1 σ.2 := by
  rintro ⟨s, deadline⟩ ⟨⟨base, dt⟩, deadline'⟩ h ⟨henv, rfl, hdeadline, htimely⟩
  have hawake := hA.awake s deadline h
  obtain rfl : deadline' = deadline := hdeadline.trans (if_neg (not_idle hawake))
  rcases henv with hclock | hint
  · obtain ⟨r, hr, rfl⟩ := tick_eq_some hclock
    exact hA.tick s deadline' r h hr (htimely (not_idle (s := s.setRtc r) hawake))
  · obtain ⟨-, rfl⟩ := interrupt_eq_some hint
    exact hA.aside s deadline' s.commanded true false h

/-- A statement is executed awake, and the work goes on. -/
theorem exec_cases {stmt : Stmt} {s s' : System} {deadline deadline' : ℕ} {pushed : List Stmt}
    (h : program.exec stmt (s, deadline) (s', deadline') pushed) :
    deadline' = deadline ∧ s.asleep = false ∧ s.pending = false ∧ ∃ now, s.Now now ∧
      (stmt = .addEvents → now = s.sysTime) ∧ exec now s stmt = (s', pushed) := by
  obtain ⟨⟨hawake, hpending, now, hnow, hclock, heq⟩, hdeadline, -⟩ := h
  exact ⟨hdeadline.trans (if_neg (not_idle hawake)), hawake, hpending, now, hnow, hclock, heq⟩

/-- **One statement.** The assertion stands before it, and the outline goes on from what the
statement makes of every state that meets the assertion. -/
theorem outline_cons {stmt : Stmt} {code : List Stmt} (hA : Robust o first A)
    (hnext : ∀ s deadline now, A s deadline → s.pending = false →
      (stmt = .addEvents → now = s.sysTime) →
        Outlined o first ((exec now s stmt).2 ++ code) (exec now s stmt).1 deadline)
    {s : System} {deadline : ℕ} (h : A s deadline) :
    Outlined o first (stmt :: code) s deadline := by
  refine .cons _ (hA.stable _) (fun σ h ↦ hA.everyMinute σ.1 σ.2 h) ?_ h
  rintro ⟨s, deadline⟩ ⟨s', deadline'⟩ pushed h hexec
  obtain ⟨rfl, -, hpending, now, -, hclock, heq⟩ := exec_cases hexec
  have h := hnext s deadline' now h hpending hclock
  rwa [heq] at h

/-- **A block of statements** on which no round depends. -/
theorem outline_inert (block : List Machine.Stmt) {rest : List Stmt} (hA : Robust o first A)
    (hinert : ∀ stmt ∈ block, inert stmt = true)
    (hrest : ∀ s deadline, A s deadline → Outlined o first rest s deadline)
    {s : System} {deadline : ℕ} (h : A s deadline) :
    Outlined o first (block.map .base ++ rest) s deadline := by
  have hplain : ∀ i ∈ block.map Stmt.base, ∃ stmt, inert stmt = true ∧ i = .base stmt := by
    intro i hi
    obtain ⟨stmt, hstmt, rfl⟩ := List.mem_map.1 hi
    exact ⟨stmt, hinert stmt hstmt, rfl⟩
  refine .block (A := fun _ σ ↦ A σ.1 σ.2) hA.stable (fun _ σ h ↦ hA.everyMinute σ.1 σ.2 h) ?_
    hplain (fun σ h ↦ hrest σ.1 σ.2 h) h
  rintro _ _ ⟨s, deadline⟩ ⟨s', deadline'⟩ pushed ⟨stmt, hstmt, rfl⟩ h hstep
  obtain ⟨rfl, hawake, -, now, -, -, heq⟩ := exec_cases hstep
  obtain ⟨angles, isAlarm, hexec⟩ := exec_inert (k := analemma1) now hstmt s.toSystem hawake
  rw [exec_base now s (by rintro rfl; cases hstmt) (by rintro rfl; cases hstmt), hexec] at heq
  obtain ⟨rfl, rfl⟩ := Prod.ext_iff.1 heq
  exact ⟨rfl, hA.aside s deadline' angles isAlarm s.pending h⟩

end Steps

/-! ### The assertions -/

section Assertions

variable (o : ℕ) (first : List (Toggle × Option ℕ))

/-- Awake after an alarm, with its flag up. -/
structure Ringing (toggle : Toggle) (s : Machine.System) (deadline : ℕ) : Prop where
  awake : s.asleep = false
  alarmed : ∃ n, Alarmed o first n s deadline ∧ (call o n).1 = toggle ∧ Rung o n s.rtc

/-- The flag has been taken, and the call is to be made. -/
structure Answering (toggle : Toggle) (s : Machine.System) (deadline : ℕ) : Prop where
  awake : s.asleep = false
  alarmed : ∃ n, Alarmed o first n s deadline ∧ (call o n).1 = toggle ∧
    s.cause = some (o + 30 * n)
  down : ∀ toggle, flag s.rtc toggle = none

/-- From falling asleep until `isAlarm` is tested: idle before the next call, or woken for it. -/
def Resting (s : Machine.System) (deadline : ℕ) : Prop :=
  ∃ n, (Quiet o first n s ∧ Idle s) ∨
    (Alarmed o first n s deadline ∧ Rung o n s.rtc ∧ (s.asleep = true → s.pending = true) ∧
      (s.asleep = false → s.isAlarm = true))

/-- The hatch has closed, and the clock has been read since: the full minute after the reading is
the one before which the work is to be over. -/
structure Read (s : System) (deadline : ℕ) : Prop where
  closed : ∃ n, Closed o first n s.toSystem deadline
  mem : firstInstant ≤ s.sysTime.toNat ∧ s.sysTime.toNat < endInstant
  dt_eq : s.dt = getDateTime (timeRegisters s.sysTime.toNat)
  next : nextMinute s.sysTime.toNat = deadline

/-- The next event opens at the next full minute, and `setAlarms` has executed so many
statements. -/
structure Setting (stage : ℕ) (s : Machine.System) (deadline : ℕ) : Prop where
  closed : ∃ n, Closed o first n s deadline
  window : s.nextEvent.window = (deadline, deadline + 30)
  programming : Programming stage s

end Assertions

section Robust

variable {o : ℕ} {first : List (Toggle × Option ℕ)}

/-- After a closing the controller is awake, so that nothing is asked of the alarms. -/
theorem Closed.everyMinute {n : ℕ} {s : Machine.System} {deadline : ℕ}
    (h : Closed o first n s deadline) : EveryMinute o first s := by
  have hsoon := h.soon
  rw [h.deadline_eq] at hsoon
  exact h.made.everyMinute (by omega) (not_idle h.awake)

theorem Alarmed.everyMinute {n : ℕ} {s : Machine.System} {deadline : ℕ}
    (h : Alarmed o first n s deadline) (hbusy : ¬ Idle s) : EveryMinute o first s :=
  h.made.everyMinute (h.soon.trans_eq h.deadline_eq) hbusy

/-- The assertion after a closing may be interrupted anywhere before the deadline. -/
theorem robust_closed :
    Robust o first fun s deadline ↦ ∃ n, Closed o first n s.toSystem deadline where
  awake _ _ h := h.elim fun _ h ↦ h.awake
  tick _ _ _ h hr hsoon := h.imp fun _ h ↦ h.tick hr hsoon
  aside _ _ _ _ _ h := h.imp fun _ h ↦
    ⟨rfl, h.attached, h.made.congr rfl rfl, h.even, h.deadline_eq, h.soon⟩
  everyMinute _ _ h := h.elim fun _ h ↦ h.everyMinute

/-- So may that after the reading: the clock goes on, but the minute after the reading is still the
next one. -/
theorem robust_read : Robust o first (Read o first) where
  awake s deadline h := robust_closed.awake s deadline h.closed
  tick s deadline r h hr hsoon :=
    ⟨robust_closed.tick s deadline r h.closed hr hsoon, h.mem, h.dt_eq, h.next⟩
  aside s deadline angles isAlarm pending h :=
    ⟨robust_closed.aside s deadline angles isAlarm pending h.closed, h.mem, h.dt_eq, h.next⟩
  everyMinute s deadline h := robust_closed.everyMinute s deadline h.closed

/-- The next event stays what it is. -/
theorem Robust.and_nextEvent {A : System → ℕ → Prop} (hA : Robust o first A)
    (P : HatchEvent → Prop) : Robust o first fun s deadline ↦ A s deadline ∧ P s.nextEvent where
  awake s deadline h := hA.awake s deadline h.1
  tick s deadline r h hr hsoon := ⟨hA.tick s deadline r h.1 hr hsoon, h.2⟩
  aside s deadline angles isAlarm pending h :=
    ⟨hA.aside s deadline angles isAlarm pending h.1, h.2⟩
  everyMinute s deadline h := hA.everyMinute s deadline h.1

variable (ho : o % 60 = 0)

include ho

/-- While the next call lies ahead, the deadline is its instant, so a tick before it raises no
flag. -/
theorem robust_calm :
    Robust o first fun s deadline ↦ Calm o first s.toSystem deadline where
  awake _ _ h := h.awake
  tick s deadline r h hr hsoon := by
    obtain ⟨hawake, n, hquiet, hdeadline⟩ := h
    exact ⟨hawake, n, hquiet.tick ho hr (hsoon.trans_eq hdeadline), hdeadline⟩
  aside s deadline angles isAlarm pending h := by
    obtain ⟨-, n, hquiet, hdeadline⟩ := h
    exact ⟨rfl, n, hquiet.aside angles isAlarm pending false, hdeadline⟩
  everyMinute s deadline h := by
    obtain ⟨-, n, hquiet, -⟩ := h
    exact hquiet.everyMinute ho

/-- A flag that is up stays up, and no other one goes up, until the deadline. -/
theorem robust_ringing (toggle : Toggle) :
    Robust o first fun s deadline ↦ Ringing o first toggle s.toSystem deadline where
  awake _ _ h := h.awake
  tick s deadline r h hr hsoon := by
    obtain ⟨hawake, n, halarmed, hcall, hrung⟩ := h
    obtain ⟨halarmed', hflag⟩ := halarmed.tick ho hr hsoon
    exact ⟨hawake, n, halarmed', hcall, fun toggle ↦ (hflag toggle).trans (hrung toggle)⟩
  aside s deadline angles isAlarm pending h := by
    obtain ⟨-, n, halarmed, hrung⟩ := h
    exact ⟨rfl, n, halarmed.congr rfl rfl rfl rfl rfl rfl rfl rfl, hrung⟩
  everyMinute s deadline h := by
    obtain ⟨hawake, n, halarmed, -⟩ := h
    exact halarmed.everyMinute (not_idle hawake)

/-- A flag that has been taken does not go up again before the deadline. -/
theorem robust_answering (toggle : Toggle) :
    Robust o first fun s deadline ↦ Answering o first toggle s.toSystem deadline where
  awake _ _ h := h.awake
  tick s deadline r h hr hsoon := by
    obtain ⟨hawake, ⟨n, halarmed, hcall⟩, hdown⟩ := h
    obtain ⟨halarmed', hflag⟩ := halarmed.tick ho hr hsoon
    exact ⟨hawake, ⟨n, halarmed', hcall⟩, fun toggle ↦ (hflag toggle).trans (hdown toggle)⟩
  aside s deadline angles isAlarm pending h := by
    obtain ⟨-, ⟨n, halarmed, hcall⟩, hdown⟩ := h
    exact ⟨rfl, ⟨n, halarmed.congr rfl rfl rfl rfl rfl rfl rfl rfl, hcall⟩, hdown⟩
  everyMinute s deadline h := by
    obtain ⟨hawake, ⟨n, halarmed, -⟩, -⟩ := h
    exact halarmed.everyMinute (not_idle hawake)

/-- While `setAlarms` is under way, the alarms are those of a window that lies ahead, or old ones
whose flags are still to be cleared. -/
theorem robust_setting (stage : ℕ) :
    Robust o first fun s deadline ↦ Setting o first stage s.toSystem deadline where
  awake s deadline h := robust_closed.awake s deadline h.closed
  tick s deadline r h hr hsoon := by
    have htime := (Rtc.tick_eq_some hr).1
    obtain ⟨n, hclosed⟩ := h.closed
    have hbegan := hclosed.made.began
    have heven := hclosed.even
    have hdeadline := hclosed.deadline_eq
    have hwindow := h.window
    refine ⟨⟨n, hclosed.tick hr hsoon⟩, hwindow, h.programming.tick hr ?_ ?_ ?_ ?_⟩
    all_goals
      rw [hwindow]
      omega
  aside s deadline angles isAlarm pending h :=
    ⟨robust_closed.aside s deadline angles isAlarm pending h.closed, h.window,
      h.programming.aside angles isAlarm pending false⟩
  everyMinute s deadline h := robust_closed.everyMinute s deadline h.closed

/-! ### The outline of a selection -/

/-- Where the code is at its end, `loop` starts anew. -/
theorem outline_nil {s : System} {deadline : ℕ} (h : Calm o first s.toSystem deadline) :
    Outlined o first [] s deadline :=
  .nil _ ((robust_calm ho).stable []) (fun σ h ↦ ⟨(robust_calm ho).everyMinute σ.1 σ.2 h, h⟩) h

omit ho in
/-- When `setAlarms` is through, the next call is prepared. -/
theorem calm_of_setting {s : Machine.System} {deadline : ℕ} (h : Setting o first 6 s deadline) :
    Calm o first s deadline := by
  obtain ⟨⟨n, hclosed⟩, hwindow, hprogramming⟩ := h
  have heven := hclosed.even
  have hdeadline := hclosed.deadline_eq
  have hnext : window o n = (deadline, deadline + 30) := by
    rw [window, show o + 60 * (n / 2) = deadline by omega]
  exact ⟨hclosed.awake, n, ⟨hclosed.made, ⟨hwindow.trans hnext.symm, hprogramming.alarm1 (by omega),
    hprogramming.alarm2 (by omega), hprogramming.armed1 (by omega), hprogramming.armed2 (by omega),
    hclosed.attached⟩, forall_flag_eq_none.2 ⟨hprogramming.down1 le_rfl, hprogramming.down2
    (by omega)⟩, hclosed.soon.trans_eq hdeadline⟩, hdeadline⟩

/-- One statement of `setAlarms`. -/
theorem outline_setting {stage : ℕ} {stmt : Machine.Stmt} {code : List Stmt}
    (hstmt : Sketch.setAlarms[stage]? = some stmt)
    (hrest : ∀ s deadline, Setting o first (stage + 1) s.toSystem deadline →
      Outlined o first code s deadline)
    (s : System) (deadline : ℕ) (h : Setting o first stage s.toSystem deadline) :
    Outlined o first (.base stmt :: code) s deadline := by
  refine outline_cons (robust_setting ho stage) (fun s deadline now h _ _ ↦ ?_) h
  obtain ⟨r, hexec, htime, hnext⟩ := h.programming.exec analemma1 now hstmt
  have hmem := List.mem_of_getElem? hstmt
  rw [exec_base now s (by rintro rfl; exact absurd hmem (by decide))
    (by rintro rfl; exact absurd hmem (by decide)), hexec]
  exact hrest _ deadline ⟨h.closed.imp fun _ h ↦ h.congr rfl rfl htime rfl, h.window, hnext⟩

/-- The six statements of `setAlarms`, one stage after the other. -/
theorem outline_setAlarms {rest : List Stmt}
    (hrest : ∀ s deadline, Calm o first s.toSystem deadline → Outlined o first rest s deadline)
    {s : System} {deadline : ℕ} (h : Setting o first 0 s.toSystem deadline) :
    Outlined o first (Sketch.setAlarms.map .base ++ rest) s deadline :=
  outline_setting ho rfl (outline_setting ho rfl (outline_setting ho rfl
    (outline_setting ho rfl (outline_setting ho rfl (outline_setting ho rfl
      fun s deadline h ↦ hrest s deadline (calm_of_setting h)))))) s deadline h

/-- **A selection**: the event is built from the last reading, and the alarms are programmed for the
next full minute. That this minute still lies ahead when they are programmed is what the deadline is
for. -/
theorem outline_planTestSchedule {rest : List Stmt}
    (hrest : ∀ s deadline, Calm o first s.toSystem deadline → Outlined o first rest s deadline)
    {s : System} {deadline : ℕ} (h : Read o first s deadline) :
    Outlined o first (planTestSchedule ++ rest) s deadline := by
  have hjournal : ∀ s deadline, Calm o first s.toSystem deadline →
      Outlined o first (.base .updateJournal :: rest) s deadline := fun s deadline h ↦
    outline_inert [.updateJournal] (robust_calm ho) (by simp [inert]) hrest h
  have hempty : Robust o first fun s deadline ↦ Read o first s deadline ∧ s.nextEvent = .empty :=
    robust_read.and_nextEvent (· = .empty)
  rw [planTestSchedule, List.cons_append, List.cons_append, List.append_assoc]
  refine outline_cons robust_read (fun s deadline now h _ _ ↦ ?_) h
  refine outline_cons hempty (fun s deadline now h _ hclock ↦ ?_)
    ⟨⟨h.closed.imp fun _ h ↦ h.congr rfl rfl rfl rfl, h.mem, h.dt_eq, h.next⟩, rfl⟩
  obtain ⟨⟨hclosed, hmem, hdt, hnext⟩, hreset⟩ := h
  have hkept := of_forall_nextEvent (P := fun s ↦ ∃ n, Closed o first n s.toSystem deadline) now
    fun _ ↦ hclosed.imp fun _ h ↦ h.congr rfl rfl rfl rfl
  refine outline_setAlarms ho hjournal ⟨hkept, ?_,
    ⟨by omega, by omega, by omega, by omega, by omega, by omega⟩⟩
  have hwindow := addEvent_window hmem (congrArg UInt32.toNat (hclock rfl))
  rw [hnext] at hwindow
  simp only [exec, hreset, hdt, hwindow]

/-- `makeTestSchedule`, which reads the clock first. The reading may fall on any second of the
minute after the closing, and leads to the same full minute. -/
theorem outline_makeTestSchedule {rest : List Stmt}
    (hrest : ∀ s deadline, Calm o first s.toSystem deadline → Outlined o first rest s deadline)
    {s : System} {deadline : ℕ} (h : ∃ n, Closed o first n s.toSystem deadline) :
    Outlined o first (makeTestSchedule ++ rest) s deadline := by
  refine outline_cons robust_closed (fun s deadline now h _ _ ↦ ?_) h
  refine outline_planTestSchedule ho hrest ?_
  obtain ⟨n, hclosed⟩ := h
  have hkept := of_forall_sysTime (P := fun s ↦ Closed o first n s deadline) analemma1 now
    fun _ ↦ hclosed.congr rfl rfl rfl rfl
  have htime := toNat_systemTime_getDateTime s.rtc.time_mem
  have hbegan := hclosed.made.began
  have heven := hclosed.even
  have hdeadline := hclosed.deadline_eq
  have hsoon := hclosed.soon
  refine ⟨⟨n, hkept⟩, ?_, ?_, ?_⟩
  · simp only [exec, htime]
    exact s.rtc.time_mem
  · simp only [exec, htime]
  · -- the deadline is a full minute, not more than a minute away
    simp only [exec, htime, nextMinute]
    omega

/-! ### The outline of a round -/

/-- **An opening**: the hatch opens, and its closing is awaited. -/
theorem outline_open {s : System} {deadline : ℕ} (h : Answering o first .Open s.toSystem deadline) :
    Outlined o first (Sketch.onAlarm2.map .base) s deadline := by
  refine outline_cons (robust_answering ho .Open) (fun s deadline now h _ _ ↦ ?_) h
  have hcleared :
      Answering o first .Open (exec now s (.base .clearAlarm2)).1.toSystem deadline := by
    obtain ⟨hawake, ⟨n, halarmed, hcall⟩, hdown⟩ := h
    exact ⟨hawake, ⟨n, halarmed.congr rfl rfl rfl rfl rfl rfl rfl rfl, hcall⟩,
      forall_flag_eq_none.2 ⟨hdown .Close, rfl⟩⟩
  refine outline_cons (robust_answering ho .Open) (fun s deadline now h _ _ ↦ ?_) hcleared
  rw [exec_base now s (by decide) (by decide)]
  refine outline_inert _ (robust_calm ho) (inert_sweep (k := analemma1) now s.toSystem)
    (fun s deadline ↦ outline_nil ho) ?_
  obtain ⟨hawake, ⟨n, halarmed, hcall, hcause⟩, hdown⟩ := h
  -- An opening is answered, so the next call is the closing of the same window.
  have heven : n % 2 = 0 := by
    by_contra hodd
    rw [call_of_odd o n hodd] at hcall
    cases hcall
  have hwindow : window o (n + 1) = window o n := by
    rw [window, window, show (n + 1) / 2 = n / 2 by omega]
  refine ⟨hawake, n + 1, ⟨halarmed.made.succ rfl halarmed.begun ?_, ?_, hdown,
    halarmed.soon.trans_eq halarmed.deadline_eq⟩, halarmed.deadline_eq⟩
  · rw [hcall, ← hcause]
    rfl
  · rw [hwindow]
    exact halarmed.programmed.congr rfl rfl rfl rfl rfl rfl

/-- **A closing**: the hatch closes, and the next opening is scheduled from a new reading of the
clock. The deadline of the work is the opening that it schedules. -/
theorem outline_close {rest : List Stmt}
    (hrest : ∀ s deadline, Calm o first s.toSystem deadline → Outlined o first rest s deadline)
    {s : System} {deadline : ℕ} (h : Answering o first .Close s.toSystem deadline) :
    Outlined o first (onAlarm1 ++ rest) s deadline := by
  refine outline_cons (robust_answering ho .Close) (fun s deadline now h _ _ ↦ ?_) h
  have hcleared :
      Answering o first .Close (exec now s (.base .clearAlarm1)).1.toSystem deadline := by
    obtain ⟨hawake, ⟨n, halarmed, hcall⟩, hdown⟩ := h
    exact ⟨hawake, ⟨n, halarmed.congr rfl rfl rfl rfl rfl rfl rfl rfl, hcall⟩,
      forall_flag_eq_none.2 ⟨rfl, hdown .Open⟩⟩
  refine outline_cons (robust_answering ho .Close) (fun s deadline now h _ _ ↦ ?_) hcleared
  rw [exec_base now s (by decide) (by decide)]
  refine outline_inert _ robust_closed (inert_sweep (k := analemma1) now s.toSystem)
    (fun s deadline ↦ outline_makeTestSchedule ho hrest) ?_
  obtain ⟨hawake, ⟨n, halarmed, hcall, hcause⟩, hdown⟩ := h
  have hodd : ¬ n % 2 = 0 := by
    intro heven
    rw [call_of_even o n heven] at hcall
    cases hcall
  refine ⟨n + 1, hawake, halarmed.programmed.attached,
    halarmed.made.succ rfl halarmed.begun ?_, by omega, halarmed.deadline_eq, halarmed.soon⟩
  rw [hcall, ← hcause]
  rfl

/-- The two tests of `loop`, after an alarm: the flag that is up is answered, the other one is
down. -/
theorem outline_tests {toggle : Toggle} {s : System} {deadline : ℕ}
    (h : Ringing o first toggle s.toSystem deadline) :
    Outlined o first [.base .ifAlarm1, .base .ifAlarm2] s deadline := by
  refine outline_cons (robust_ringing ho toggle) (fun s deadline now h _ _ ↦ ?_) h
  obtain ⟨hawake, n, halarmed, hcall, hrung⟩ := id h
  cases toggle with
  | Open =>
    have hdown1 : s.rtc.a1f = none := (hrung .Close).trans (if_neg (by rw [hcall]; decide))
    simp only [exec, hdown1]
    refine outline_cons (robust_ringing ho .Open) (fun s deadline now h _ _ ↦ ?_) h
    obtain ⟨hawake, n, halarmed, hcall, hrung⟩ := h
    have hup2 : s.rtc.a2f = some (o + 30 * n) := (hrung .Open).trans (if_pos hcall.symm)
    have hdown1 : s.rtc.a1f = none := (hrung .Close).trans (if_neg (by rw [hcall]; decide))
    simp only [exec, Machine.exec, hup2, List.append_nil]
    exact outline_open ho ⟨hawake, ⟨n, halarmed.congr rfl rfl rfl rfl rfl rfl rfl rfl, hcall, rfl⟩,
      forall_flag_eq_none.2 ⟨hdown1, rfl⟩⟩
  | Close =>
    have hup1 : s.rtc.a1f = some (o + 30 * n) := (hrung .Close).trans (if_pos hcall.symm)
    have hdown2 : s.rtc.a2f = none := (hrung .Open).trans (if_neg (by rw [hcall]; decide))
    simp only [exec, hup1]
    refine outline_close ho (fun s deadline h ↦ ?_)
      ⟨hawake, ⟨n, halarmed.congr rfl rfl rfl rfl rfl rfl rfl rfl, hcall, rfl⟩,
        forall_flag_eq_none.2 ⟨rfl, hdown2⟩⟩
    -- after the selection both flags are down
    refine outline_cons (robust_calm ho) (fun s deadline now h _ _ ↦ ?_) h
    obtain ⟨n, hquiet, -⟩ := h.quiet
    have hdown2 : s.rtc.a2f = none := hquiet.down .Open
    simp only [exec, Machine.exec, hdown2]
    exact outline_nil ho h

/-- Asleep, the next call lies ahead or has just rung. -/
theorem Resting.everyMinute {s : Machine.System} {deadline : ℕ} (h : Resting o first s deadline) :
    EveryMinute o first s := by
  obtain ⟨n, ⟨hquiet, -⟩ | ⟨halarmed, -, hasleep, -⟩⟩ := h
  · exact hquiet.everyMinute ho
  · exact halarmed.everyMinute (not_idle_of_pending hasleep)

/-- **Asleep**, the controller rests until the next alarm wakes it. -/
theorem stable_resting (code : List Stmt) :
    program.Stable code fun σ ↦ Resting o first σ.1.toSystem σ.2 := by
  rintro ⟨s, deadline⟩ ⟨⟨base, dt⟩, deadline'⟩
    ⟨n, ⟨hquiet, hidle⟩ | ⟨halarmed, hrung, hasleep, halarm⟩⟩ ⟨henv, rfl, hdeadline, htimely⟩
  · -- Asleep between two calls: a second either brings nothing or raises the flag of the next one.
    rcases henv with hclock | hint
    · obtain ⟨r, hr, rfl⟩ := tick_eq_some hclock
      obtain rfl : deadline' = r.time + 30 := hdeadline.trans (if_pos hidle)
      by_cases hahead : r.time < o + 30 * n
      · have hquiet' := hquiet.tick ho hr hahead
        have hdown1 : flag r .Close = none := hquiet'.down .Close
        have hdown2 : flag r .Open = none := hquiet'.down .Open
        refine ⟨n, Or.inl ⟨hquiet', hidle.1, ?_⟩⟩
        rw [hquiet.pending_tick hr, hidle.2, hdown1, hdown2]
        rfl
      · obtain ⟨halarmed, hrung, hpending⟩ := hquiet.rings ho hr hahead
        exact ⟨n, Or.inr ⟨halarmed, hrung, fun _ ↦ hpending,
          fun hawake ↦ absurd hidle (not_idle hawake)⟩⟩
    · exact absurd (hidle.2.symm.trans (interrupt_eq_some hint).1) Bool.false_ne_true
  · -- With a call pending the deadline stands, and the next one is due only after it.
    obtain rfl : deadline' = deadline :=
      hdeadline.trans (if_neg (not_idle_of_pending hasleep))
    rcases henv with hclock | hint
    · obtain ⟨r, hr, rfl⟩ := tick_eq_some hclock
      have hpending : (s.setRtc r).asleep = true → (s.setRtc r).pending = true := by
        intro h
        rw [pending_setRtc, hasleep h, Bool.true_or]
      have hsoon : r.time < deadline' := htimely (not_idle_of_pending hpending)
      obtain ⟨halarmed', hflag⟩ := halarmed.tick ho hr hsoon
      exact ⟨n, Or.inr ⟨halarmed', fun toggle ↦ (hflag toggle).trans (hrung toggle), hpending,
        halarm⟩⟩
    · obtain ⟨-, rfl⟩ := interrupt_eq_some hint
      exact ⟨n, Or.inr ⟨halarmed.congr rfl rfl rfl rfl rfl rfl rfl rfl, hrung,
        fun h ↦ absurd h Bool.false_ne_true, fun _ ↦ rfl⟩⟩

omit ho in
/-- Awake, the controller has been woken by an alarm. -/
theorem Resting.awaken {s : Machine.System} {deadline : ℕ} (h : Resting o first s deadline)
    (hawake : s.asleep = false) : s.isAlarm = true ∧
      ∃ n, Alarmed o first n s deadline ∧ Rung o n s.rtc := by
  obtain ⟨n, ⟨-, hidle⟩ | ⟨halarmed, hrung, -, halarm⟩⟩ := h
  · exact absurd hidle (not_idle hawake)
  · exact ⟨halarm hawake, n, halarmed, hrung⟩

/-- One round of `loop`: the controller sleeps until the alarm of the next call, and makes this
call. -/
theorem outline_loop {s : System} {deadline : ℕ} (h : Calm o first s.toSystem deadline) :
    Outlined o first loop s deadline := by
  refine outline_cons (robust_calm ho) (fun s deadline now h hpending _ ↦ ?_) h
  obtain ⟨-, n, hquiet, -⟩ := h
  have hresting : Resting o first { s.toSystem with asleep := true } deadline :=
    ⟨n, Or.inl ⟨hquiet.aside s.commanded s.isAlarm s.pending true, rfl, hpending⟩⟩
  refine .cons (fun σ ↦ Resting o first σ.1.toSystem σ.2) (stable_resting ho _)
    (fun σ h ↦ Resting.everyMinute ho h) ?_ hresting
  -- The controller is awake again, so the interrupt has come and `isAlarm` is set.
  rintro ⟨s, deadline⟩ ⟨s', deadline'⟩ pushed h hexec
  obtain ⟨rfl, hawake, -, now, -, -, heq⟩ := exec_cases hexec
  obtain ⟨halarm, n, halarmed, hrung⟩ := h.awaken hawake
  have hread := of_forall_sysTime (P := fun s ↦ Resting o first s deadline') analemma1 now fun _ ↦
    ⟨n, Or.inr ⟨halarmed.congr rfl rfl rfl rfl rfl rfl rfl rfl, hrung,
      fun hasleep ↦ absurd (hawake.symm.trans hasleep) Bool.false_ne_true, fun _ ↦ halarm⟩⟩
  cases heq
  refine .cons (fun σ ↦ Resting o first σ.1.toSystem σ.2) (stable_resting ho _)
    (fun σ h ↦ Resting.everyMinute ho h) ?_ hread
  rintro ⟨s, deadline⟩ ⟨s', deadline'⟩ pushed h hexec
  obtain ⟨rfl, hawake, -, now, -, -, heq⟩ := exec_cases hexec
  obtain ⟨halarm, n, halarmed, hrung⟩ := h.awaken hawake
  have hset : s.isAlarm = true := halarm
  have hpushed : exec now s (.base .ifIsAlarm) = (s, Sketch.onAlarm.map .base) := by
    simp only [exec, Machine.exec, hset, if_true]
  obtain ⟨rfl, rfl⟩ := Prod.ext_iff.1 (hpushed.symm.trans heq)
  exact outline_inert [.clearIsAlarm] (robust_ringing ho (call o n).1) (by simp [inert])
    (fun s deadline h ↦ outline_tests ho h) ⟨hawake, n, halarmed, rfl, hrung⟩

end Robust

/-- A full minute, as alarm 2 needs it, which does not compare the seconds. -/
theorem nextMinute_mod (t : ℕ) : nextMinute t % 60 = 0 := Nat.mul_mod_right 60 _

/-- **The debug sketch opens every minute.** In every timely run of `analemma_debug` from an instant
that the `makeTestSchedule` of `setup` reads, the `k`-th opening answers the match of alarm 2 at
`60 * k` seconds after the first full minute, and the `k`-th closing that of alarm 1 half a minute
later, in turn and with nothing in between, and while the controller is idle the next of these
matches is the first one to come. -/
theorem opens_every_minute {r : Rtc} {t₀ deadline : ℕ} {c₀ c : List Stmt × System}
    (hread : AtReading r t₀ c₀) (hrun : TimelyRun c₀ (nextMinute t₀) c deadline) :
    EveryMinute (nextMinute t₀) c₀.2.moves c.2.toSystem := by
  obtain ⟨hcode, hawake, hattached, htime, hsys, hdt⟩ := hread.spec
  have hmem := c₀.2.rtc.time_mem
  have ho := nextMinute_mod t₀
  have hlater : t₀ < nextMinute t₀ ∧ nextMinute t₀ ≤ t₀ + 60 := by
    unfold nextMinute
    omega
  have hmade : Made (nextMinute t₀) c₀.2.moves 0 c₀.2.toSystem := by
    refine ⟨by simp [told, calls], by omega, fun h ↦ absurd h (lt_irrefl 0)⟩
  have hstart : Read (nextMinute t₀) c₀.2.moves c₀.2 (nextMinute t₀) := by
    refine ⟨⟨0, hawake, hattached, hmade, rfl, rfl, by omega⟩, ?_, ?_, ?_⟩
    · rwa [hsys, ← htime]
    · rw [hsys, hdt]
    · rw [hsys]
  have hsetup : Outlined (nextMinute t₀) c₀.2.moves c₀.1 c₀.2 (nextMinute t₀) := by
    rw [hcode]
    refine outline_planTestSchedule ho (fun s deadline h ↦ ?_) hstart
    exact outline_inert [.clearIsAlarm] (robust_calm ho) (by simp [inert])
      (fun s deadline ↦ outline_nil ho) h
  exact Program.safe_of_run (fun σ h ↦ outline_loop ho h) hsetup hrun.run

/-- Fifty seconds before the leap day of 2000. -/
def leapEve : Rtc := clockAt 951782350 (by decide)

/-- Some seconds of sleep, and the work at the alarm that ends it. -/
def sleepThenWork (seconds statements : ℕ) (now : UInt32) : List Action :=
  List.replicate seconds .tick ++ .interrupt :: List.replicate statements (.exec now)

/-- What the debug sketch does from the reading of `setup` on: it sleeps until midnight, opens the
hatch, closes it after half a minute, and opens it again at the next full minute. -/
def overMidnight : List Action :=
  List.replicate 12 (.exec 951782350) ++ (sleepThenWork 50 190 951782400 ++
    (sleepThenWork 30 200 951782430 ++ sleepThenWork 30 190 951782460))

/-- The configurations before and after the reading of `setup`. -/
def leapEveReading : Option (((List Stmt × System) × ℕ) × (List Stmt × System)) :=
  (runTimely (List.replicate 9 (.exec 951782350)) ((setup, powerUp leapEve), 951782400)).bind
    fun x ↦ (act (.exec 951782350) x.1).map fun c₀ ↦ (x, c₀)

/-- The run as it is evaluated: three calls, the first one at midnight of the leap day. -/
theorem overMidnight_run :
    (leapEveReading.bind fun x ↦ (runTimely overMidnight (x.2, 951782400)).map fun y ↦
      decide (x.1.1.1 = makeTestSchedule ++ [.base .clearIsAlarm] ∧
        x.1.1.2.rtc.time = 951782350 ∧ x.2.2.moves = [] ∧ Idle y.1.2.toSystem ∧
          y.1.2.moves = [(.Open, some 951782400), (.Close, some 951782430),
            (.Open, some 951782460)])) = some true := by
  decide +kernel

/-- Over midnight and into the leap day, the calls of that run come as the theorem has them. -/
theorem opens_every_minute_leapEve :
    ∃ c₀ c deadline, AtReading leapEve 951782350 c₀ ∧ TimelyRun c₀ 951782400 c deadline ∧
      Idle c.2.toSystem ∧ c.2.moves = [(.Open, some 951782400), (.Close, some 951782430),
        (.Open, some 951782460)] ∧ EveryMinute 951782400 [] c.2.toSystem := by
  obtain ⟨⟨⟨⟨code, s⟩, deadline₀⟩, c₀⟩, hreading, hrest⟩ :=
    Option.bind_eq_some_iff.1 overMidnight_run
  obtain ⟨⟨c, deadline⟩, hrun, hdecide⟩ := Option.map_eq_some_iff.1 hrest
  obtain ⟨hcode, htime, hfirst, hidle, hmoves⟩ := of_decide_eq_true hdecide
  obtain ⟨⟨⟨code', s'⟩, deadline'⟩, hbefore, hafter⟩ := Option.bind_eq_some_iff.1 hreading
  obtain ⟨c₀', hact, heq⟩ := Option.map_eq_some_iff.1 hafter
  cases heq
  simp only at hcode htime hfirst hidle hmoves hact
  subst hcode
  have hread : AtReading leapEve 951782350 c₀ :=
    ⟨s, 951782350, (timelyRun_of_runTimely hbefore).reachable, htime, hact⟩
  have htimely : TimelyRun c₀ (nextMinute 951782350) c deadline := timelyRun_of_runTimely hrun
  refine ⟨c₀, c, deadline, hread, htimely, hidle, hmoves, ?_⟩
  have hopens := opens_every_minute hread htimely
  rwa [hfirst] at hopens

end Machine.Debug
