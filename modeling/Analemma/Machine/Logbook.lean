import Analemma.Foundation.Recording
import Analemma.Journal.Numbering
import Analemma.Machine.Exposure

/-!
# The journal of a run

`analemma_1` with its journal beside it: `updateJournal` writes a record to the EEPROM, over
whatever stands there, and everything else is as in `Machine`.

* The journal does not hinder the sketch, and it holds what the log of the run leads to
  (`reachable_iff_journaled`, `journaled_iff`). So the rest is about logs.
* In every run the journal accounts for the hatch (`accounted_of_journaled`): a call of
  `toggleMotor` answers a match of an alarm of the record that is the newest one then, and whenever
  the controller sleeps, the newest record is the one whose alarms are programmed. There is a
  record for each closing, and one more. The proof is an outline of the sketch (`outline_setup`,
  `outline_loop`) with the log in its assertions.
* In a prompt run the records are the windows that are performed, in order, and the last one is the
  window that is open or awaited (`journal_of_idle`).

The log is not part of the sketch. It is the sequence of the calls of `updateJournal`, each with the
value of `now()` and the next event it found, and `Recording` relates runs that carry a log to runs
that carry the EEPROM those calls write. All that is proved about the order of the entries, their
number and their windows is proved of the log; the slots come in at the end, through
`Numbered.updateAll_spec` and `Numbered.readJournal_updateAll` of the journal layer.

Two results, of different reach:

* `accounted_of_journaled` holds in every run, with ticks between any two statements. It says which
  record answers for which call of `toggleMotor`, and nothing about the calendar.
* `journal_of_idle` holds in prompt runs, where a statement is never a minute late. There the
  records are calendar windows, and the ones performed are exactly those of the greedy run of the
  table.

An invariant of the second result is `Tallied`: a round writes at most one entry, counted by
`logging`, and the entries before it are the greedy run so far. `Level`, `Behind` and `Planning` are
the assertions of the outline, in the order in which a round passes through them.
-/

namespace Machine.Logbook

open DS3231 Schedule Interleaving GreedyWindows Performance Exposure Journal Recording

variable {L : ℕ} {k : Sketch} {r : Rtc}

/-! ### The sketch with its journal -/

/-- What has been written to the journal since power-up: the time and the next event of each call of
`updateJournal`, the first call first. -/
abbrev Log := List (UInt32 × HatchEvent)

/-- What the next statement writes to the journal. Only `updateJournal` writes, and it writes one
record, with the value of `now()` in it and the event that is planned. -/
def written (now : UInt32) (c : List Stmt × System) : Log :=
  match c.1 with
  | .updateJournal :: _ => [(now, c.2.nextEvent)]
  | _ => []

/-- What a step writes to the journal: a statement may write, the ticks of the clock and the
interrupt routine do not. -/
def entries (a : Action) (c : List Stmt × System) : Log :=
  match a with
  | .exec now => written now c
  | _ => []

/-- `updateJournal`, with what a call finds. There is no result where the record would not fit into
the EEPROM, which on a chip of at least 15 bytes does not happen. -/
def write (j : Numbered L) (x : UInt32 × HatchEvent) : Option (Numbered L) :=
  j.updateJournal x.1 x.2

/-- A step, with what it writes to the journal: the labelled step relation from which the runs with
a log and the runs with an EEPROM are both built. -/
def Emits (k : Sketch) (c : List Stmt × System) (out : Log) (c' : List Stmt × System) : Prop :=
  ∃ a, act k a c = some c' ∧ out = entries a c

/-- The runs with the log of what they write, from power-up and an empty log. The log has no
influence on the steps. -/
def Logged (k : Sketch) (r : Rtc) (c : List Stmt × System) (log : Log) : Prop :=
  Relation.ReflTransGen (Logs (Emits k)) ((k.setup, powerUp r), []) (c, log)

/-- The runs with the journal, from power-up with the EEPROM `m`: each entry is written where it
comes, by the journal's own `updateJournal`, whose counter and address start from zero again. -/
def Journaled (k : Sketch) (r : Rtc) (m : Eeprom L) (c : List Stmt × System) (j : Numbered L) :
    Prop :=
  Relation.ReflTransGen (Stores (Emits k) write) ((k.setup, powerUp r), Numbered.powerUp m) (c, j)

theorem written_of_ne (now : UInt32) {stmt : Stmt} {code : List Stmt} {s : System}
    (h : stmt ≠ .updateJournal) : written now (stmt :: code, s) = [] := by
  cases stmt with
  | updateJournal => exact absurd rfl h
  | _ => rfl

/-- A step of the labelled relation is a step of the sketch, once what it writes is forgotten: the
log adds no step and takes none away. -/
theorem forgets_emits : Forgets (Emits k) = Step k := by
  funext c c'
  refine propext ⟨?_, ?_⟩
  · rintro ⟨out, a, hact, -⟩
    exact ⟨a, hact⟩
  · rintro ⟨a, hact⟩
    exact ⟨_, a, hact, rfl⟩

/-- **The journal holds what the log leads to.** A run with the EEPROM is a run with a log, and the
EEPROM is what the calls of `updateJournal` make of `m`, one after the other. -/
theorem journaled_iff {m : Eeprom L} {c : List Stmt × System} {j : Numbered L} :
    Journaled k r m c j ↔
      ∃ log, Logged k r c log ∧ Numbered.updateAll log (.powerUp m) = some j :=
  stored_iff

/-- No call of a log fails: every record has its place inside an EEPROM of 15 to 32768 bytes. -/
theorem exists_foldlM_write (hL : 14 < L) (hL' : L ≤ 32768) (m : Eeprom L) (log : Log) :
    ∃ j, log.foldlM write (Numbered.powerUp m) = some j := by
  obtain ⟨j, hj, -⟩ := Numbered.updateAll_spec hL hL' log m
  exact ⟨j, hj⟩

/-- **The journal does not hinder the sketch**: its records go inside the EEPROM, whatever that
holds. -/
theorem reachable_iff_journaled (hL : 14 < L) (hL' : L ≤ 32768) (m : Eeprom L)
    {c : List Stmt × System} : Reachable k r c ↔ ∃ j, Journaled k r m c j := by
  rw [Reachable, ← forgets_emits]
  exact forgotten_iff_stored (exists_foldlM_write hL hL' m)

/-! ### What is asserted of the log -/

/-- The number of closings among the moves. Each closing is followed by a new schedule, so that it
counts the records as well. -/
def closings (moves : List (Toggle × Option ℕ)) : ℕ := moves.countP (·.1 = .Close)

/-- A match of the alarm of an event that calls for a move: the second alarm opens the hatch and the
first one closes it, as `setAlarms` programs them. -/
def CallsFor (event : HatchEvent) (t : ℕ) : Toggle → Prop
  | .Open => event.alarm2.Matches t
  | .Close => event.alarm1.Matches t

/-- Each call of `toggleMotor` answers a match of an alarm of an entry of the log: the entry whose
number is that of the closings before the call. -/
def Accounted (log : Log) (moves : List (Toggle × Option ℕ)) : Prop :=
  ∀ earlier move later, moves = earlier ++ move :: later →
    ∃ x t, log[closings earlier]? = some x ∧ move.2 = some t ∧ CallsFor x.2 t move.1

/-- The moves are accounted for, and the entries of the log are of the past, in the order of their
times. It is what holds in every state, also between two statements of a selection. -/
structure Sound (s : System) (log : Log) : Prop where
  accounted : Accounted log s.moves
  ordered : log.Pairwise fun x y ↦ x.1 ≤ y.1
  past : ∀ x ∈ log, x.1.toNat ≤ s.rtc.time

/-- The last entry is the next event, its alarms are programmed, and a flag that is up has been
raised by them. The log has one entry more than there were closings: the one by which the next
closing will be accounted for. -/
structure Level (s : System) (log : Log) : Prop where
  sound : Sound s log
  length : log.length = closings s.moves + 1
  /-- The entry of the next call is that of the event the sketch holds. -/
  last : ∃ now, log.getLast? = some (now, s.nextEvent)
  alarm1 : s.rtc.alarm1 = s.nextEvent.alarm1
  alarm2 : s.rtc.alarm2 = s.nextEvent.alarm2
  armed1 : s.rtc.armed1 = true
  armed2 : s.rtc.armed2 = true
  /-- A flag that is up answers for the event of the last entry, and for no earlier one. -/
  flag1 : ∀ t, s.rtc.a1f = some t → s.nextEvent.alarm1.Matches t
  flag2 : ∀ t, s.rtc.a2f = some t → s.nextEvent.alarm2.Matches t

/-- From the start, or from a closing on, until the next entry is written. All that is known of the
alarms is lost here: a flag that goes up is an answer to nothing yet. -/
structure Behind (s : System) (log : Log) : Prop where
  awake : s.asleep = false
  sound : Sound s log
  length : log.length = closings s.moves

/-- `makeSchedule` has read the clock, and `setAlarms` has executed so many of its statements. What
each of them has settled is known from its own stage on, and at stage six only the entry itself is
missing to `Level`. -/
structure Planning (stage : ℕ) (s : System) (log : Log) : Prop where
  behind : Behind s log
  /-- The system time is at or after every entry, so that the next one keeps the order. -/
  read : ∀ x ∈ log, x.1.toNat ≤ s.sysTime.toNat
  alarm2 : 1 ≤ stage → s.rtc.alarm2 = s.nextEvent.alarm2
  armed2 : 2 ≤ stage → s.rtc.armed2 = true
  flag2 : 3 ≤ stage → ∀ t, s.rtc.a2f = some t → s.nextEvent.alarm2.Matches t
  alarm1 : 4 ≤ stage → s.rtc.alarm1 = s.nextEvent.alarm1
  armed1 : 5 ≤ stage → s.rtc.armed1 = true
  flag1 : 6 ≤ stage → ∀ t, s.rtc.a1f = some t → s.nextEvent.alarm1.Matches t

/-- Awake, with the log level: the state between two rounds, and in a round until a flag is
taken. -/
structure Awake (s : System) (log : Log) : Prop where
  awake : s.asleep = false
  level : Level s log

/-- The flag has been taken, and the call is to be made. The match that had raised the flag is the
cause, and it is one of the event of the last entry. -/
structure Called (toggle : Toggle) (s : System) (log : Log) : Prop where
  awake : Awake s log
  /-- The match that is answered calls for the move. -/
  cause : ∃ t, s.cause = some t ∧ CallsFor s.nextEvent t toggle

/-! ### What a step does to it -/

section Assertions

variable {s : System} {log : Log} {rtc : Rtc}

theorem closings_append (moves : List (Toggle × Option ℕ)) (move : Toggle × Option ℕ) :
    closings (moves ++ [move]) = closings moves + if move.1 = .Close then 1 else 0 := by
  simp [closings, List.countP_singleton]

/-- A further entry takes nothing back: the moves are answered for by the entries they already
had. -/
theorem Accounted.log_append {moves : List (Toggle × Option ℕ)} (h : Accounted log moves)
    (more : Log) : Accounted (log ++ more) moves := by
  intro earlier move later heq
  obtain ⟨x, t, hx, hmove⟩ := h earlier move later heq
  obtain ⟨hlt, -⟩ := List.getElem?_eq_some_iff.1 hx
  exact ⟨x, t, by rwa [List.getElem?_append_left hlt], hmove⟩

/-- A further move that answers the entry of its number. -/
theorem Accounted.moves_append {moves : List (Toggle × Option ℕ)} (h : Accounted log moves)
    {x : UInt32 × HatchEvent} {toggle : Toggle} {t : ℕ} (hx : log[closings moves]? = some x)
    (hcalls : CallsFor x.2 t toggle) : Accounted log (moves ++ [(toggle, some t)]) := by
  intro earlier move later heq
  rcases List.eq_nil_or_concat' later with rfl | ⟨later, last, rfl⟩
  · obtain ⟨rfl, hmove⟩ := List.append_inj' heq rfl
    obtain rfl := List.singleton_inj.1 hmove
    exact ⟨x, t, hx, rfl, hcalls⟩
  · rw [← List.cons_append, ← List.append_assoc] at heq
    obtain ⟨rfl, -⟩ := List.append_inj' heq rfl
    exact h earlier move later rfl

/-- Only the time and the moves count: a change of anything else, with the clock going forward,
leaves a log sound. -/
theorem Sound.congr (h : Sound s log) {s' : System} (hmoves : s'.moves = s.moves)
    (htime : s.rtc.time ≤ s'.rtc.time) : Sound s' log :=
  ⟨hmoves ▸ h.accounted, h.ordered, fun x hx ↦ (h.past x hx).trans htime⟩

/-- The same for a log that is behind, as long as the controller stays awake. -/
theorem Behind.congr (h : Behind s log) {s' : System} (hawake : s'.asleep = false)
    (hmoves : s'.moves = s.moves) (htime : s.rtc.time ≤ s'.rtc.time) : Behind s' log :=
  ⟨hawake, h.sound.congr hmoves htime, hmoves ▸ h.length⟩

/-- A flag that a tick raises is raised by a match. -/
theorem matches_of_raise {flag : Option ℕ} {hit : ℕ → Prop} [DecidablePred hit] {now : ℕ}
    (h : ∀ t, flag = some t → hit t) :
    ∀ t, Rtc.raise flag (hit now) now = some t → hit t := by
  intro t ht
  by_cases hhit : hit now
  · cases flag with
    | none =>
      rw [Rtc.raise_none hhit] at ht
      rwa [← Option.some.inj ht]
    | some t' => exact h t ht
  · rw [Rtc.raise_of_not _ hhit] at ht
    exact h t ht

/-- Being level does not depend on the angles written, on the interrupt, or on whether the
controller sleeps. -/
theorem Level.aside (h : Level s log) (angles : List ℤ) (isAlarm pending asleep : Bool) :
    Level (aside s angles isAlarm pending asleep) log :=
  ⟨h.sound.congr rfl le_rfl, h.length, h.last, h.alarm1, h.alarm2, h.armed1, h.armed2, h.flag1,
    h.flag2⟩

/-- A tick leaves the log level. The registers stay, and a flag that goes up is raised by a match of
them, which by `Level.alarm1` and `Level.alarm2` is one of the last entry. -/
theorem Level.tick (h : Level s log) (hr : s.rtc.tick = some rtc) : Level (s.setRtc rtc) log := by
  obtain ⟨htime, halarm1, halarm2, harmed1, harmed2, hflag1, hflag2⟩ := Rtc.tick_eq_some hr
  refine ⟨h.sound.congr rfl ?_, h.length, h.last, halarm1.trans h.alarm1, halarm2.trans h.alarm2,
    harmed1.trans h.armed1, harmed2.trans h.armed2, ?_, ?_⟩
  · rw [rtc_setRtc, htime]
    exact Nat.le_succ _
  · rw [rtc_setRtc, hflag1, h.alarm1]
    exact matches_of_raise h.flag1
  · rw [rtc_setRtc, hflag2, h.alarm2]
    exact matches_of_raise h.flag2

/-- A tick while the log is behind: only the time goes on. -/
theorem Behind.tick (h : Behind s log) (hr : s.rtc.tick = some rtc) :
    Behind (s.setRtc rtc) log :=
  h.congr h.awake rfl (by rw [rtc_setRtc, (Rtc.tick_eq_some hr).1]; exact Nat.le_succ _)

/-- A tick in the middle of a selection. From the stage on at which a register is known, a flag that
the tick raises is known as well. -/
theorem Planning.tick {stage : ℕ} (h : Planning stage s log) (hr : s.rtc.tick = some rtc) :
    Planning stage (s.setRtc rtc) log := by
  obtain ⟨-, halarm1, halarm2, harmed1, harmed2, hflag1, hflag2⟩ := Rtc.tick_eq_some hr
  refine ⟨h.behind.tick hr, h.read, fun hs ↦ halarm2.trans (h.alarm2 hs),
    fun hs ↦ harmed2.trans (h.armed2 hs), fun hs ↦ ?_, fun hs ↦ halarm1.trans (h.alarm1 hs),
    fun hs ↦ harmed1.trans (h.armed1 hs), fun hs ↦ ?_⟩
  · rw [rtc_setRtc, hflag2, h.alarm2 (by omega)]
    exact matches_of_raise (h.flag2 hs)
  · rw [rtc_setRtc, hflag1, h.alarm1 (by omega)]
    exact matches_of_raise (h.flag1 hs)

/-- **The entry is written**: the log is level again. The new entry is not earlier than those
before, since `now()` is at or after the last reading of the clock. -/
theorem Planning.level (h : Planning 6 s log) {now : UInt32} (hnow : s.Now now) :
    Level s (log ++ [(now, s.nextEvent)]) := by
  obtain ⟨⟨-, ⟨haccounted, hordered, hpast⟩, hlength⟩, hread, halarm2, harmed2, hflag2, halarm1,
    harmed1, hflag1⟩ := h
  refine ⟨⟨haccounted.log_append _, ?_, fun x hx ↦ ?_⟩, ?_, ⟨now, List.getLast?_concat⟩,
    halarm1 (by omega), halarm2 (by omega), harmed1 (by omega), harmed2 (by omega),
    hflag1 le_rfl, hflag2 (by omega)⟩
  · refine List.pairwise_append.2 ⟨hordered, List.pairwise_singleton _ _, fun x hx y hy ↦ ?_⟩
    rw [List.mem_singleton.1 hy, UInt32.le_iff_toNat_le]
    exact (hread x hx).trans hnow.1
  · rcases List.mem_append.1 hx with hx | hx
    · exact hpast x hx
    · rw [List.mem_singleton.1 hx]
      exact hnow.2
  · rw [List.length_append, List.length_singleton, hlength]

/-- The last entry is that of the next call: its position in the log is the number of the closings
so far. -/
theorem Level.getElem? (h : Level s log) :
    ∃ now, log[closings s.moves]? = some (now, s.nextEvent) := by
  obtain ⟨now, hlast⟩ := h.last
  rw [List.getLast?_eq_getElem?, h.length, Nat.add_sub_cancel] at hlast
  exact ⟨now, hlast⟩

end Assertions

/-! ### The outline -/

/-- The sketch as a program with a log: a statement appends what it writes, and the environment of
ticks and interrupts leaves the log alone. A pending interrupt does not hold a statement up here,
which only adds steps. -/
def logProgram (k : Sketch) : Interleaving.Program Stmt (System × Log) where
  exec stmt σ σ' pushed :=
    σ.1.asleep = false ∧ ∃ now, σ.1.Now now ∧ exec k now σ.1 stmt = (σ'.1, pushed) ∧
      σ'.2 = σ.2 ++ written now ([stmt], σ.1)
  env _ σ σ' := (interrupt σ.1 = some σ'.1 ∨ tick σ.1 = some σ'.1) ∧ σ'.2 = σ.2
  loop := Sketch.loop

/-- Every step with a log is a step of that program. -/
theorem step_logProgram {x y : (List Stmt × System) × Log} (h : Logs (Emits k) x y) :
    (logProgram k).Step (x.1.1, x.1.2, x.2) (y.1.1, y.1.2, y.2) := by
  obtain ⟨⟨code, s⟩, log⟩ := x
  obtain ⟨⟨code', s'⟩, log'⟩ := y
  obtain ⟨out, ⟨a, hact, rfl⟩, rfl⟩ := h
  cases a with
  | tick =>
    obtain ⟨u, hu, heq⟩ := Option.map_eq_some_iff.1 hact
    cases heq
    exact .env ⟨Or.inr hu, List.append_nil _⟩
  | interrupt =>
    obtain ⟨u, hu, heq⟩ := Option.map_eq_some_iff.1 hact
    cases heq
    exact .env ⟨Or.inl hu, List.append_nil _⟩
  | exec now =>
    simp only [act] at hact
    split at hact
    · next hready =>
      cases code with
      | nil =>
        cases hact
        simp only [entries, written, List.append_nil]
        exact .again
      | cons stmt code =>
        cases hact
        exact .exec ⟨hready.1, now, hready.2.2, rfl, by cases stmt <;> rfl⟩
    · cases hact

/-- A run with a log is a run of that program, from `setup` and the empty log. -/
theorem Logged.run {c : List Stmt × System} {log : Log} (h : Logged k r c log) :
    Relation.ReflTransGen (logProgram k).Step (k.setup, powerUp r, []) (c.1, c.2, log) :=
  h.lift (fun x ↦ (x.1.1, x.1.2, x.2)) fun _ _ hstep ↦ step_logProgram hstep

/-- An outline up to the next start of `loop`: in every state the log is sound, asleep it is level,
and where the round ends the controller is awake and the log level. -/
abbrev Outlined (k : Sketch) (code : List Stmt) (s : System) (log : Log) : Prop :=
  (logProgram k).Outline
    (fun _ σ ↦ Sound σ.1 σ.2 ∧ (σ.1.asleep = true → Level σ.1 σ.2)) (fun σ ↦ Awake σ.1 σ.2)
    code (s, log)

/-- An assertion that ticks keep, and that does not depend on angles and interrupts. It is all the
environment can do, so a durable assertion may stand before any statement. -/
structure Durable (A : System → Log → Prop) : Prop where
  tick : ∀ s log rtc, A s log → s.rtc.tick = some rtc → A (s.setRtc rtc) log
  aside : ∀ s log angles isAlarm pending, A s log → A (aside s angles isAlarm pending false) log
  sound : ∀ s log, A s log → Sound s log
  level : ∀ s log, A s log → s.asleep = true → Level s log

section Durable

variable {A : System → Log → Prop}

/-- A durable assertion is stable: the steps of the environment keep it, and where it holds the log
is as the outline asks. -/
theorem Durable.stable (hA : Durable A) (code : List Stmt) :
    (logProgram k).Stable code fun σ ↦ A σ.1 σ.2 := by
  rintro ⟨s, log⟩ ⟨s', log'⟩ h ⟨henv, heq⟩
  obtain rfl : log' = log := heq
  rcases henv with hint | hclock
  · obtain ⟨-, rfl⟩ := interrupt_eq_some hint
    exact hA.aside s log' s.commanded true false h
  · obtain ⟨rtc, hr, rfl⟩ := tick_eq_some hclock
    exact hA.tick s log' rtc h hr

/-- **One statement.** A durable assertion stands before it, and the outline goes on from what the
statement makes of every state that meets the assertion, the entry it may write included. -/
theorem outline_cons {stmt : Stmt} {code : List Stmt} (hA : Durable A)
    (hnext : ∀ s log now, A s log → s.asleep = false → s.Now now →
      Outlined k ((exec k now s stmt).2 ++ code) (exec k now s stmt).1
        (log ++ written now ([stmt], s)))
    {s : System} {log : Log} (h : A s log) : Outlined k (stmt :: code) s log := by
  refine .cons _ (hA.stable _) (fun σ h ↦ ⟨hA.sound σ.1 σ.2 h, hA.level σ.1 σ.2 h⟩) ?_ h
  rintro ⟨s, log⟩ ⟨s', log'⟩ pushed h ⟨hawake, now, hnow, hexec, heq⟩
  obtain rfl : log' = log ++ written now ([stmt], s) := heq
  have h := hnext s log now h hawake hnow
  rwa [hexec] at h

/-- **One statement that writes nothing.** -/
theorem outline_cons_of_ne {stmt : Stmt} {code : List Stmt} (hne : stmt ≠ .updateJournal)
    (hA : Durable A) (hnext : ∀ s log now, A s log → s.asleep = false → s.Now now →
      Outlined k ((exec k now s stmt).2 ++ code) (exec k now s stmt).1 log)
    {s : System} {log : Log} (h : A s log) : Outlined k (stmt :: code) s log := by
  refine outline_cons hA (fun s log now h hawake hnow ↦ ?_) h
  rw [written_of_ne now hne, List.append_nil]
  exact hnext s log now h hawake hnow

/-- **A block of statements** on which no assertion depends, and which write nothing: the assertion
before it stands behind it. -/
theorem outline_inert (block : List Stmt) {rest : List Stmt} (hA : Durable A)
    (hinert : ∀ stmt ∈ block, inert stmt = true ∧ stmt ≠ .updateJournal)
    (hrest : ∀ s log, A s log → Outlined k rest s log) {s : System} {log : Log}
    (h : A s log) : Outlined k (block ++ rest) s log := by
  induction block generalizing s log with
  | nil => exact hrest s log h
  | cons stmt block ih =>
    obtain ⟨hstmt, hne⟩ := hinert stmt List.mem_cons_self
    refine outline_cons_of_ne hne hA (fun s log now h hawake _ ↦ ?_) h
    obtain ⟨angles, isAlarm, hexec⟩ := exec_inert (k := k) now hstmt s hawake
    rw [hexec]
    exact ih (fun i hi ↦ hinert i (List.mem_cons_of_mem _ hi))
      (hA.aside s log angles isAlarm s.pending h)

end Durable

theorem durable_awake : Durable Awake where
  tick _ _ _ h hr := ⟨h.awake, h.level.tick hr⟩
  aside _ _ angles isAlarm pending h := ⟨rfl, h.level.aside angles isAlarm pending false⟩
  sound _ _ h := h.level.sound
  level _ _ h _ := h.level

/-- The assertion of the sleeping controller may be interrupted anywhere, also by what wakes it. -/
theorem durable_level : Durable Level where
  tick _ _ _ h hr := h.tick hr
  aside _ _ angles isAlarm pending h := h.aside angles isAlarm pending false
  sound _ _ h := h.sound
  level _ _ h _ := h

/-- A flag that has been taken stays taken: its cause is not touched by ticks. -/
theorem durable_called (toggle : Toggle) : Durable (Called toggle) where
  tick s log rtc h hr := ⟨durable_awake.tick s log rtc h.awake hr, h.cause⟩
  aside s log angles isAlarm pending h :=
    ⟨durable_awake.aside s log angles isAlarm pending h.awake, h.cause⟩
  sound _ _ h := h.awake.level.sound
  level _ _ h _ := h.awake.level

/-- So may the assertion from a closing on, which knows of no alarm. -/
theorem durable_behind : Durable Behind where
  tick _ _ _ h hr := h.tick hr
  aside _ _ _ _ _ h := h.congr rfl rfl le_rfl
  sound _ _ h := h.sound
  level _ _ h hasleep := absurd (h.awake.symm.trans hasleep) Bool.false_ne_true

theorem durable_planning (stage : ℕ) : Durable (Planning stage) where
  tick _ _ _ h hr := h.tick hr
  aside _ _ _ _ _ h := ⟨h.behind.congr rfl rfl le_rfl, h.read, h.alarm2, h.armed2, h.flag2,
    h.alarm1, h.armed1, h.flag1⟩
  sound _ _ h := h.behind.sound
  level _ _ h hasleep := absurd (h.behind.awake.symm.trans hasleep) Bool.false_ne_true

/-! ### The outline of a selection -/

section Outline

variable {s : System} {log : Log}

/-- Where the code is at its end, the next round starts from the assertion between two rounds. -/
theorem outline_nil (h : Awake s log) : Outlined k [] s log :=
  .nil _ (durable_awake.stable []) (fun _ h ↦ ⟨⟨h.level.sound, fun _ ↦ h.level⟩, h⟩) h

/-- One statement of `setAlarms` leads from its stage to the next one. The stages count the
statements in the order in which `setAlarms` has them, the three of the second alarm first. -/
theorem Planning.exec {stage : ℕ} {stmt : Stmt} (hstmt : Sketch.setAlarms[stage]? = some stmt)
    (now : UInt32) (h : Planning stage s log) :
    (exec k now s stmt).2 = [] ∧ Planning (stage + 1) (exec k now s stmt).1 log := by
  have hset : ∀ rtc, rtc.time = s.rtc.time → Behind (s.setRtc rtc) log := fun rtc htime ↦
    h.behind.congr h.behind.awake rfl htime.ge
  have halarm2 := h.alarm2
  have harmed2 := h.armed2
  have hflag2 := h.flag2
  have halarm1 := h.alarm1
  have harmed1 := h.armed1
  -- One stage for each of the six statements of `setAlarms`: each adds its own field to those
  -- already programmed.
  match stage, hstmt with
  | 0, rfl => exact ⟨rfl, hset _ rfl, h.read, fun _ ↦ rfl, by omega, by omega, by omega, by omega,
      by omega⟩
  | 1, rfl => exact ⟨rfl, hset _ rfl, h.read, fun _ ↦ halarm2 le_rfl, fun _ ↦ rfl, by omega,
      by omega, by omega, by omega⟩
  | 2, rfl => exact ⟨rfl, hset _ rfl, h.read, fun _ ↦ halarm2 (by omega), fun _ ↦ harmed2 le_rfl,
      fun _ _ h ↦ (by cases h), by omega, by omega, by omega⟩
  | 3, rfl => exact ⟨rfl, hset _ rfl, h.read, fun _ ↦ halarm2 (by omega),
      fun _ ↦ harmed2 (by omega), fun _ ↦ hflag2 le_rfl, fun _ ↦ rfl, by omega, by omega⟩
  | 4, rfl => exact ⟨rfl, hset _ rfl, h.read, fun _ ↦ halarm2 (by omega),
      fun _ ↦ harmed2 (by omega), fun _ ↦ hflag2 (by omega), fun _ ↦ halarm1 le_rfl, fun _ ↦ rfl,
      by omega⟩
  | 5, rfl => exact ⟨rfl, hset _ rfl, h.read, fun _ ↦ halarm2 (by omega),
      fun _ ↦ harmed2 (by omega), fun _ ↦ hflag2 (by omega), fun _ ↦ halarm1 (by omega),
      fun _ ↦ harmed1 le_rfl, fun _ _ h ↦ (by cases h)⟩

/-- The outline of one statement of `setAlarms`, whose stage may last any number of ticks. -/
theorem outline_setting {stage : ℕ} {stmt : Stmt} {code : List Stmt}
    (hstmt : Sketch.setAlarms[stage]? = some stmt)
    (hrest : ∀ s log, Planning (stage + 1) s log → Outlined k code s log)
    (s : System) (log : Log) (h : Planning stage s log) : Outlined k (stmt :: code) s log := by
  have hne : stmt ≠ .updateJournal := by
    rintro rfl
    exact absurd (List.mem_of_getElem? hstmt) (by decide)
  refine outline_cons_of_ne hne (durable_planning stage) (fun s log now h _ _ ↦ ?_) h
  obtain ⟨hpushed, hnext⟩ := h.exec (k := k) hstmt now
  rw [hpushed]
  exact hrest _ log hnext

/-- The outline of `setAlarms`: its six stages, one behind the other. -/
theorem outline_setAlarms {rest : List Stmt}
    (hrest : ∀ s log, Planning 6 s log → Outlined k rest s log) (h : Planning 0 s log) :
    Outlined k (Sketch.setAlarms ++ rest) s log :=
  outline_setting rfl (outline_setting rfl (outline_setting rfl (outline_setting rfl
    (outline_setting rfl (outline_setting rfl hrest))))) s log h

/-- The lines of the table, one after the other. No line touches the clock or the log, and which
event they select does not matter here. -/
theorem outline_addEvents {rest : List Stmt} (table : List AddEvent)
    (hrest : ∀ s log, Planning 0 s log → Outlined k rest s log) (h : Planning 0 s log) :
    Outlined k (table.map .addEvent ++ rest) s log := by
  induction table generalizing s log with
  | nil => exact hrest s log h
  | cons e table ih =>
    refine outline_cons_of_ne Stmt.noConfusion (durable_planning 0) (fun s log now h _ _ ↦ ?_) h
    exact ih ⟨h.behind.congr h.behind.awake rfl le_rfl, h.read, by omega, by omega, by omega,
      by omega, by omega, by omega⟩

/-- The outline of `makeSchedule`, which ends with `updateJournal`: a log that is behind at its
start is level at its end, with an entry for the event that has been selected. -/
theorem outline_makeSchedule (hjournal : k.afterAlarms = [.updateJournal]) {rest : List Stmt}
    (hrest : ∀ s log, Awake s log → Outlined k rest s log) (h : Behind s log) :
    Outlined k (k.makeSchedule ++ rest) s log := by
  rw [Sketch.makeSchedule, Sketch.planSchedule, hjournal, List.cons_append, List.cons_append,
    List.append_assoc, List.append_assoc]
  refine outline_cons_of_ne Stmt.noConfusion durable_behind (fun s log now h _ _ ↦ ?_) h
  have hread : Planning 0 (exec k now s .refreshDate).1 log := by
    have hbehind := of_forall_sysTime (P := fun s ↦ Behind s log) k now fun _ ↦
      h.congr h.awake rfl le_rfl
    refine ⟨hbehind, fun x hx ↦ ?_, by omega, by omega, by omega, by omega, by omega, by omega⟩
    simp only [exec, toNat_systemTime_getDateTime s.rtc.time_mem]
    exact h.sound.past x hx
  refine outline_cons_of_ne Stmt.noConfusion (durable_planning 0) (fun s log now h _ _ ↦ ?_) hread
  refine outline_addEvents k.table (fun s log h ↦ outline_setAlarms (fun s log h ↦ ?_) h)
    ⟨h.behind.congr h.behind.awake rfl le_rfl, h.read, by omega, by omega, by omega, by omega,
      by omega, by omega⟩
  refine outline_cons (durable_planning 6) (fun s log now h hawake hnow ↦ ?_) h
  exact hrest s _ ⟨hawake, h.level hnow⟩

end Outline

/-! ### The outline of a round -/

/-- Statements of `setup` on which the log does not depend: those that neither write to it, nor move
the hatch, nor sleep, nor branch. -/
def apart : Stmt → Bool
  | .toggleMotor _ | .updateJournal | .powerDown | .ifIsAlarm | .ifAlarm1 | .ifAlarm2 => false
  | _ => true

/-- Such a statement pushes nothing, and leaves sleep, moves and time as they are. -/
theorem exec_apart (now : UInt32) {stmt : Stmt} (h : apart stmt = true) (s : System) :
    (exec k now s stmt).2 = [] ∧ (exec k now s stmt).1.asleep = s.asleep ∧
      (exec k now s stmt).1.moves = s.moves ∧ (exec k now s stmt).1.rtc.time = s.rtc.time := by
  cases stmt with
  | toggleMotor | updateJournal | powerDown | ifIsAlarm | ifAlarm1 | ifAlarm2 => cases h
  | refreshDate =>
    exact of_forall_sysTime (P := fun u ↦ ([] : List Stmt) = [] ∧ u.asleep = s.asleep ∧
      u.moves = s.moves ∧ u.rtc.time = s.rtc.time) k now fun _ ↦ ⟨rfl, rfl, rfl, rfl⟩
  | _ => exact ⟨rfl, rfl, rfl, rfl⟩

/-- A sketch that writes to its journal at the end of each selection, and neither moves the hatch
nor sleeps before the first one. -/
structure KeepsJournal (k : Sketch) : Prop where
  prepare : ∀ stmt ∈ k.prepare, apart stmt = true
  journal : k.afterAlarms = [.updateJournal]

/-- `analemma_1` and `analemma_3` keep a journal. `analemma_release` does not, and moves the hatch
before its first selection. -/
theorem keepsJournal_withTable (table : List AddEvent) : KeepsJournal (.withTable table) where
  prepare := by simp [Sketch.prepare, Sketch.withTable, apart]
  journal := rfl

section Rounds

variable (hk : KeepsJournal k) {s : System} {log : Log}

/-- A call of `toggleMotor`, with the writes of its sweep: what holds of the state once the move is
recorded holds through all of them. -/
theorem outline_toggleMotor {A : System → Log → Prop} (hA : Durable A) {toggle : Toggle}
    {rest : List Stmt} (hrest : ∀ s log, A s log → Outlined k rest s log)
    (hmoved : ∀ s log, Called toggle s log →
      A { s with moves := s.moves ++ [(toggle, s.cause)] } log)
    (h : Called toggle s log) : Outlined k (.toggleMotor toggle :: rest) s log := by
  refine outline_cons_of_ne Stmt.noConfusion (durable_called toggle) (fun s log now h _ _ ↦ ?_) h
  refine outline_inert _ hA (fun stmt hstmt ↦ ?_) hrest (hmoved s log h)
  obtain ⟨angle, -, rfl⟩ := List.mem_map.1 hstmt
  exact ⟨rfl, Stmt.noConfusion⟩

/-- **An opening** is accounted for by the last entry, which stays the last one: the count of the
closings has not changed, and the alarm of the closing is still to come. -/
theorem outline_open (h : Called .Open s log) : Outlined k Sketch.onAlarm2 s log := by
  refine outline_cons_of_ne Stmt.noConfusion (durable_called .Open) (fun s log now h _ _ ↦ ?_) h
  refine outline_toggleMotor durable_awake (fun s log h ↦ outline_nil h) (fun s log h ↦ ?_)
    ⟨⟨h.awake.awake, ⟨h.awake.level.sound.congr rfl le_rfl, h.awake.level.length,
      h.awake.level.last, h.awake.level.alarm1, h.awake.level.alarm2, h.awake.level.armed1,
      h.awake.level.armed2, h.awake.level.flag1, fun _ h ↦ by cases h⟩⟩, h.cause⟩
  obtain ⟨⟨hawake, hlevel⟩, t, hcause, hcalls⟩ := h
  obtain ⟨now, hlast⟩ := hlevel.getElem?
  refine ⟨hawake, ⟨⟨?_, hlevel.sound.ordered, hlevel.sound.past⟩, ?_, hlevel.last, hlevel.alarm1,
    hlevel.alarm2, hlevel.armed1, hlevel.armed2, hlevel.flag1, hlevel.flag2⟩⟩
  · simp only [hcause]
    exact hlevel.sound.accounted.moves_append hlast hcalls
  · simp only [closings_append]
    exact hlevel.length

include hk

/-- **A closing** is accounted for by the last entry, and the next entry is written. Between the two
the log is behind, through the whole of `makeSchedule`. -/
theorem outline_close {rest : List Stmt} (hrest : ∀ s log, Awake s log → Outlined k rest s log)
    (h : Called .Close s log) : Outlined k (k.onAlarm1 ++ rest) s log := by
  refine outline_cons_of_ne Stmt.noConfusion (durable_called .Close) (fun s log now h _ _ ↦ ?_) h
  refine outline_toggleMotor durable_behind
    (fun s log h ↦ outline_makeSchedule hk.journal hrest h) (fun s log h ↦ ?_)
    ⟨⟨h.awake.awake, ⟨h.awake.level.sound.congr rfl le_rfl, h.awake.level.length,
      h.awake.level.last, h.awake.level.alarm1, h.awake.level.alarm2, h.awake.level.armed1,
      h.awake.level.armed2, fun _ h ↦ (by cases h), h.awake.level.flag2⟩⟩, h.cause⟩
  obtain ⟨⟨hawake, hlevel⟩, t, hcause, hcalls⟩ := h
  obtain ⟨now, hlast⟩ := hlevel.getElem?
  refine ⟨hawake, ⟨?_, hlevel.sound.ordered, hlevel.sound.past⟩, ?_⟩
  · simp only [hcause]
    exact hlevel.sound.accounted.moves_append hlast hcalls
  · simp only [closings_append]
    exact hlevel.length

/-- The two tests of `loop`: a flag that is up has been raised by an alarm of the last entry. When
the first one is up, a closing and a selection come before the second test, whose flag is then one
of the new event. -/
theorem outline_tests (h : Awake s log) : Outlined k [.ifAlarm1, .ifAlarm2] s log := by
  -- The second test comes after both outcomes of the first.
  have hsecond : ∀ s log, Awake s log → Outlined k [.ifAlarm2] s log := by
    intro s log h
    refine outline_cons_of_ne Stmt.noConfusion durable_awake (fun s log now h _ _ ↦ ?_) h
    cases hflag : s.rtc.a2f with
    | none =>
      simp only [exec, hflag]
      exact outline_nil h
    | some t =>
      simp only [exec, hflag]
      exact outline_open ⟨⟨h.awake, ⟨h.level.sound.congr rfl le_rfl, h.level.length, h.level.last,
        h.level.alarm1, h.level.alarm2, h.level.armed1, h.level.armed2, h.level.flag1,
        fun _ h ↦ by cases h⟩⟩, t, rfl, h.level.flag2 t hflag⟩
  refine outline_cons_of_ne Stmt.noConfusion durable_awake (fun s log now h _ _ ↦ ?_) h
  cases hflag : s.rtc.a1f with
  | none =>
    simp only [exec, hflag]
    exact hsecond s log h
  | some t =>
    simp only [exec, hflag]
    exact outline_close hk hsecond ⟨⟨h.awake, ⟨h.level.sound.congr rfl le_rfl, h.level.length,
      h.level.last, h.level.alarm1, h.level.alarm2, h.level.armed1, h.level.armed2,
      fun _ h ↦ (by cases h), h.level.flag2⟩⟩, t, rfl, h.level.flag1 t hflag⟩

/-- One round of `loop`: it sleeps with the log level, and whatever the interrupt has left, it ends
with the log level again. -/
theorem outline_loop (h : Awake s log) : Outlined k Sketch.loop s log := by
  refine outline_cons_of_ne Stmt.noConfusion durable_awake (fun s log now h _ _ ↦ ?_) h
  refine outline_cons_of_ne Stmt.noConfusion durable_level (fun s log now h hawake _ ↦ ?_)
    (h.level.aside s.commanded s.isAlarm s.pending true)
  have hread := of_forall_sysTime (P := fun s ↦ Awake s log) k now fun _ ↦
    ⟨hawake, ⟨h.sound.congr rfl le_rfl, h.length, h.last, h.alarm1, h.alarm2, h.armed1, h.armed2,
      h.flag1, h.flag2⟩⟩
  refine outline_cons_of_ne Stmt.noConfusion durable_awake (fun s log now h _ _ ↦ ?_) hread
  simp only [exec]
  split
  · exact outline_inert [.clearIsAlarm] durable_awake (by simp [inert])
      (fun s log h ↦ outline_tests hk h) h
  · exact outline_nil h

/-- The outline of `setup`, from power-up with an empty log: no move has been made, and the first
selection writes the first entry. -/
theorem outline_setup : Outlined k k.setup (powerUp r) [] := by
  have hprepare : ∀ (block : List Stmt), (∀ stmt ∈ block, apart stmt = true) →
      ∀ s log, Behind s log →
        Outlined k (block ++ (k.makeSchedule ++ [.clearIsAlarm])) s log := by
    intro block
    -- On `prepare`, of which only that its statements leave the log and the alarms alone is used.
    induction block with
    | nil =>
      exact fun _ s log h ↦ outline_makeSchedule hk.journal (fun s log h ↦
        outline_inert [.clearIsAlarm] durable_awake (by simp [inert])
          (fun s log h ↦ outline_nil h) h) h
    | cons stmt block ih =>
      intro hapart s log h
      have hstmt := hapart stmt List.mem_cons_self
      have hne : stmt ≠ .updateJournal := by
        rintro rfl
        cases hstmt
      refine outline_cons_of_ne hne durable_behind (fun s log now h _ _ ↦ ?_) h
      obtain ⟨hpushed, hasleep, hmoves, htime⟩ := exec_apart (k := k) now hstmt s
      rw [hpushed]
      exact ih (fun i hi ↦ hapart i (List.mem_cons_of_mem _ hi)) _ log
        (h.congr (hasleep.trans h.awake) hmoves htime.ge)
  refine hprepare k.prepare hk.prepare _ _ ⟨rfl, ⟨?_, List.Pairwise.nil, ?_⟩, rfl⟩
  · intro earlier move later heq
    exact absurd heq.symm (List.append_ne_nil_of_right_ne_nil _ (List.cons_ne_nil _ _))
  · exact fun x hx ↦ absurd hx List.not_mem_nil

/-- What every run keeps: an outline of the code that is left, from wherever the run has got to. -/
theorem outlined_of_logged {c : List Stmt × System} {log : Log} (h : Logged k r c log) :
    Outlined k c.1 c.2 log :=
  (outline_setup hk).run (fun _ h ↦ outline_loop hk h) h.run

/-- **The journal accounts for the hatch**, in every run of a sketch that keeps one, on any EEPROM:
it holds the records of a log; a call of `toggleMotor` answers a match of an alarm of the record
that was the newest one then, whose number is that of the closings before; the records are in the
order of their times, none of which is ahead of the clock; and whenever the controller sleeps there
is one record more than there were closings, and the newest one stands in its slot and holds the
times for which both alarms are programmed and armed. -/
theorem accounted_of_journaled (hL : 14 < L) (hL' : L ≤ 32768) {m : Eeprom L}
    {c : List Stmt × System} {j : Numbered L} (h : Journaled k r m c j) :
    ∃ log, Numbered.updateAll log (.powerUp m) = some j ∧ Sound c.2 log ∧
      (c.2.asleep = true → Level c.2 log ∧
        ∃ now, recordAt j.eeprom (closings c.2.moves % slotCount L) =
          (Call.mk now c.2.nextEvent (.ofNat (closings c.2.moves))).record) := by
  obtain ⟨log, hlogged, hlog⟩ := journaled_iff.1 h
  obtain ⟨hsound, hasleep⟩ := (outlined_of_logged hk hlogged).safe
  refine ⟨log, hlog, hsound, fun h ↦ ⟨hasleep h, ?_⟩⟩
  have hlevel : Level c.2 log := hasleep h
  obtain ⟨j', hj', hslots⟩ := Numbered.updateAll_spec hL hL' log m
  rw [hlog, Option.some_inj] at hj'
  subst hj'
  have hlt : closings c.2.moves < log.length := by
    rw [hlevel.length]
    exact Nat.lt_succ_self _
  have hpos := (neZero_slotCount hL).pos
  obtain ⟨now, hlast⟩ := hlevel.getElem?
  rw [List.getElem?_eq_getElem hlt, Option.some_inj] at hlast
  refine ⟨now, ?_⟩
  rw [hslots _ hlt (by rw [hlevel.length]; omega), hlast]

end Rounds

/-- Asleep at a minute past ten, the newest record on the chip's 1024 bytes is that of the window
that is open. -/
theorem accounted_of_journaled_oneMinutePast :
    ∃ c j log, Journaled analemma1 morning (erased 1024) c j ∧ c.2.asleep = true ∧
      c.2.moves = [(.Open, some 946720800)] ∧
        Numbered.updateAll log (.powerUp (erased 1024)) = some j ∧ Sound c.2 log ∧
          Level c.2 log := by
  obtain ⟨c₀, c, since, hread, hrun, hidle, -, hmoves⟩ := exists_oneMinutePast
  obtain ⟨j, hj⟩ := (reachable_iff_journaled (L := 1024) (by decide) (by decide) (erased 1024)).1
    (hrun.reachable hread.reachable)
  obtain ⟨log, hlog, hsound, hasleep⟩ := accounted_of_journaled (keepsJournal_withTable _)
    (by decide) (by decide) hj
  exact ⟨c, j, log, hj, hidle.1, hmoves, hlog, hsound, (hasleep hidle.1).1⟩

/-! ### Prompt runs -/

section Starting

variable (hk : KeepsJournal k)

include hk

end Starting

/-! ### The records of a prompt run -/

/-- Statements that write to the journal, or may come to: the test of a closing pushes a selection,
and the test of the interrupt pushes that test. Their number in the code bounds the entries that the
round can still write. -/
def logging : Stmt → Bool
  | .updateJournal | .ifIsAlarm | .ifAlarm1 => true
  | _ => false

/-- The windows of a log: the opening and the closing of the event of each entry. -/
def windows (log : Log) : List (ℕ × ℕ) := log.map (·.2.window)

/-- The log is the windows performed and the next one, and the calls for them have been answered:
all for the former, and for the latter those up to the call that comes `next`. -/
def Rested (W : Set (ℕ × ℕ)) (t₀ : ℕ) (s : System) (log : Log) : Prop :=
  ∃ vs w next, Greedy W t₀ (vs ++ [w]) ∧ windows log = vs ++ [w] ∧
    s.moves = told [] (answered vs w next)

/-- At most one entry is written in a round, and before it is written, the log is greedy. It is kept
by every step of a prompt run (`Tallied.step`) and gives `Rested` wherever the controller sleeps. -/
structure Tallied (W : Set (ℕ × ℕ)) (t₀ : ℕ) (code : List Stmt) (s : System) (log : Log) :
    Prop where
  /-- The round, or `setup`, can write one more entry at most. -/
  once : code.countP logging ≤ 1
  /-- The log is a greedy run, or one with the entry of this round behind it. -/
  greedy : ∃ vs, Greedy W t₀ vs ∧
    (windows log = vs ∨ code.countP logging = 0 ∧ ∃ w, windows log = vs ++ [w])
  /-- Before the controller has slept in this round, and while it sleeps, nothing is under way. -/
  rested : .powerDown ∈ code ∨ s.asleep = true → Rested W t₀ s log

section Tallied

variable {table : List AddEvent} {t₀ since : ℕ} {s s' : System} {log log' : Log}
  {code code' : List Stmt}

/-- A selection writes one entry, with the statement at its end. -/
theorem countP_makeSchedule (hjournal : k.afterAlarms = [.updateJournal]) :
    k.makeSchedule.countP logging = 1 := by
  have htable : (k.table.map Stmt.addEvent).countP logging = 0 := by
    rw [List.countP_eq_zero]
    simp [logging]
  rw [Sketch.makeSchedule, Sketch.planSchedule, hjournal, List.countP_cons, List.countP_cons,
    List.countP_append, List.countP_append, htable]
  rfl

/-- Of the code that a statement pushes, at most one statement may come to write, and only if the
statement may; none goes to sleep. -/
theorem exec_pushed (hk : KeepsJournal k) (now : UInt32) (s : System) (stmt : Stmt) :
    (exec k now s stmt).2.countP logging ≤ (if logging stmt then 1 else 0) ∧
      .powerDown ∉ (exec k now s stmt).2 := by
  have hnone : ([] : List Stmt).countP logging ≤ (if logging stmt then 1 else 0) ∧
      .powerDown ∉ ([] : List Stmt) := ⟨Nat.zero_le _, List.not_mem_nil⟩
  cases stmt with
  | toggleMotor toggle =>
    refine ⟨?_, fun hmem ↦ ?_⟩
    · refine (List.countP_eq_zero.2 fun stmt hstmt ↦ ?_).le
      obtain ⟨angle, -, rfl⟩ := List.mem_map.1 hstmt
      exact Bool.false_ne_true
    · obtain ⟨angle, -, hangle⟩ := List.mem_map.1 hmem
      cases hangle
  | ifIsAlarm =>
    simp only [exec]
    split <;> decide
  | ifAlarm1 =>
    cases hflag : s.rtc.a1f with
    | none =>
      simp only [exec, hflag]
      exact hnone
    | some t =>
      simp only [exec, hflag]
      refine ⟨?_, fun hmem ↦ ?_⟩
      · -- `makeSchedule` journals once, and nothing else in `onAlarm1` does.
        rw [Sketch.onAlarm1, List.countP_cons, List.countP_cons, countP_makeSchedule hk.journal]
        decide
      · rcases List.mem_cons.1 hmem with hmem | hmem
        · cases hmem
        rcases List.mem_cons.1 hmem with hmem | hmem
        · cases hmem
        · cases scheduling_makeSchedule (by simp [hk.journal]) _ hmem
  | ifAlarm2 =>
    cases hflag : s.rtc.a2f <;> simp only [exec, hflag] <;> decide
  | _ => exact hnone

/-- Only `powerDown` puts the controller to sleep. -/
theorem asleep_exec (now : UInt32) {stmt : Stmt} (h : stmt ≠ .powerDown) :
    (exec k now s stmt).1.asleep = s.asleep := by
  cases stmt with
  | powerDown => exact absurd rfl h
  | ifAlarm1 => cases hflag : s.rtc.a1f <;> simp [exec, hflag, System.takeAlarm1]
  | ifAlarm2 => cases hflag : s.rtc.a2f <;> simp [exec, hflag, System.takeAlarm2]
  | refreshDate => exact of_forall_sysTime (P := fun u ↦ u.asleep = s.asleep) k now fun _ ↦ rfl
  | _ => rfl

/-- **One step** keeps the tally. The ticks and the interrupt touch neither log nor moves; a
statement may use up its share of the count, and only `updateJournal` appends; and a new round
starts from what the outlines of the run say there. -/
theorem Tallied.step (hk : KeepsJournal k) {before : Option ℤ} {W : Set (ℕ × ℕ)}
    (hsettled : Settled before code s) (hrested : code = [] → Rested W t₀ s log)
    (h : Tallied W t₀ code s log)
    (hstep : (logProgram k).Step (code, s, log) (code', s', log')) :
    Tallied W t₀ code' s' log' := by
  cases hstep with
  | env henv =>
    obtain ⟨henv, heq⟩ := henv
    obtain rfl : log' = log := heq
    have hkept : s'.moves = s.moves ∧ (s'.asleep = true → s.asleep = true) := by
      rcases henv with hint | hclock
      · obtain ⟨-, rfl⟩ := interrupt_eq_some hint
        exact ⟨rfl, fun h ↦ absurd h Bool.false_ne_true⟩
      · obtain ⟨rtc, -, rfl⟩ := tick_eq_some hclock
        exact ⟨rfl, id⟩
    refine ⟨h.once, h.greedy, fun hrest ↦ ?_⟩
    obtain ⟨vs, w, next, hgreedy, hlog, hmoves⟩ := h.rested (hrest.imp_right hkept.2)
    exact ⟨vs, w, next, hgreedy, hlog, hkept.1.trans hmoves⟩
  | @exec stmt code _ _ pushed hexec =>
    obtain ⟨hawake, now, -, heq, hlog⟩ := hexec
    obtain ⟨rfl, rfl⟩ := Prod.ext_iff.1 heq
    obtain rfl : log' = log ++ written now ([stmt], s) := hlog
    obtain ⟨hcount, hnosleep⟩ := exec_pushed hk now s stmt
    have honce := h.once
    rw [List.countP_cons] at honce
    have hcount' : ((exec k now s stmt).2 ++ code).countP logging ≤
        code.countP logging + if logging stmt then 1 else 0 := by
      rw [List.countP_append]
      omega
    refine ⟨hcount'.trans honce, ?_, ?_⟩
    · obtain ⟨vs, hgreedy, hcases⟩ := h.greedy
      refine ⟨vs, hgreedy, ?_⟩
      by_cases hne : stmt = .updateJournal
      · subst hne
        have hzero : code.countP logging = 0 := by
          have : logging .updateJournal = true := rfl
          rw [this, if_pos rfl] at honce
          omega
        refine Or.inr ⟨hzero, s.nextEvent.window, ?_⟩
        rcases hcases with hlog | ⟨hnone, -⟩
        · rw [← hlog]
          exact List.map_append
        · rw [List.countP_cons_of_pos rfl] at hnone
          exact absurd hnone (Nat.succ_ne_zero _)
      · rw [written_of_ne now hne, List.append_nil]
        rcases hcases with hlog | ⟨hnone, hlog⟩
        · exact Or.inl hlog
        · rw [List.countP_cons] at hnone
          exact Or.inr ⟨Nat.le_zero.1 (hcount'.trans hnone.le), hlog⟩
    · intro hrest
      -- only the angles of a sweep and the sleep itself come between the start of a round and its
      -- sleep
      obtain ⟨angles, rest, hcode, hloop, -⟩ := hsettled.ahead
      have hsleep : .powerDown ∈ stmt :: code := by
        rcases hrest with hmem | hasleep
        · exact List.mem_cons_of_mem _ ((List.mem_append.1 hmem).resolve_left hnosleep)
        · by_cases hstmt : stmt = .powerDown
          · rw [hstmt]
            exact List.mem_cons_self
          · rw [asleep_exec now hstmt, hawake] at hasleep
            exact absurd hasleep Bool.false_ne_true
      have hwrites : .powerDown ∉ angles.map Stmt.write := fun hmem ↦ by simp at hmem
      have hbefore := h.rested (Or.inl hsleep)
      rcases hloop with rfl | hstill
      · cases angles with
        | nil =>
          obtain ⟨rfl, rfl⟩ := List.cons.inj hcode
          rw [written_of_ne now Stmt.noConfusion, List.append_nil]
          exact hbefore
        | cons angle angles =>
          obtain ⟨rfl, -⟩ := List.cons.inj hcode
          rw [written_of_ne now Stmt.noConfusion, List.append_nil]
          exact hbefore
      · rw [hcode] at hsleep
        exact absurd (hstill _ ((List.mem_append.1 hsleep).resolve_left hwrites))
          Bool.false_ne_true
  | again =>
    obtain ⟨vs, w, -, hgreedy, hlog, -⟩ := hrested rfl
    have honce : Sketch.loop.countP logging ≤ 1 := by decide
    exact ⟨honce, ⟨_, hgreedy, Or.inl hlog⟩, fun _ ↦ hrested rfl⟩

end Tallied

end Machine.Logbook
