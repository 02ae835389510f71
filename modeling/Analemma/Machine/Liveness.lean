import Analemma.Machine.Logbook
import Analemma.Machine.Posture
import Analemma.Machine.SystemTime
import Analemma.Machine.Wakeup

/-!
# Every round ends, and what can be the last

The prompt runs assume that the work of a round takes less than a minute. How much work that is does
not depend on the clock: from one `powerDown` to the next there are at most as many statements as
the table has lines and 380 more, most of them the writes of two sweeps, and the controller is never
at a loss for its next step as long as it is awake (`rounds_end`). A potential pays for the
statements (`ahead`), which `powerDown` fills up again.

What remains is whether it wakes up again. It does as long as the interrupt pin is high when it
sleeps, since the alarms that are armed match every few weeks; with the pin low there will be no
edge, and the hatch has been moved for the last time (`moves_again_iff`).

`Pays` of the trace library is the rule behind the first half: a potential that each statement takes
at least one from, and that the marked statement fills up, bounds the stretches between two marks.
The potential is a function of the code alone. It counts a test with the longest body it may push,
in three layers (`moveWork`, `testWork`, `work`), since the bodies are nested three deep and no
deeper; there is no recursion that would have to be shown to end.

The second half is an equivalence about runs: one direction says what cannot happen in any run, and
the other builds a run, tick by tick up to the next match and then statement by statement up to the
call of `toggleMotor`. It needs three months of calendar ahead, as alarm 1 may be set to the 31st.
-/

namespace Machine.Liveness

open DS3231 Gregorian Schedule Exposure Recording

variable {k : Sketch} {r : Rtc}

/-! ### The statements of a round -/

/-- The statement that a step executes, if it executes one. The start of a round executes none. -/
def executed (a : Action) (c : List Stmt × System) : List Stmt :=
  match a with
  | .exec _ => c.1.take 1
  | _ => []

/-- A step, with the statement that it executes. -/
def Executes (k : Sketch) (c : List Stmt × System) (out : List Stmt) (c' : List Stmt × System) :
    Prop :=
  ∃ a, act k a c = some c' ∧ out = executed a c

/-- The runs with the trace of the statements executed so far. -/
def Traced (k : Sketch) (r : Rtc) (c : List Stmt × System) (trace : List Stmt) : Prop :=
  Relation.ReflTransGen (Logs (Executes k)) ((k.setup, powerUp r), []) (c, trace)

theorem forgets_executes : Forgets (Executes k) = Step k := by
  funext c c'
  refine propext ⟨?_, ?_⟩
  · rintro ⟨out, a, hact, -⟩
    exact ⟨a, hact⟩
  · rintro ⟨a, hact⟩
    exact ⟨_, a, hact, rfl⟩

theorem reachable_iff_traced {c : List Stmt × System} :
    Reachable k r c ↔ ∃ trace, Traced k r c trace := by
  unfold Reachable Traced
  rw [← forgets_executes]
  exact forgotten_iff

/-- The number of statements that a statement comes to, with the writes of a sweep: what it pushes
if it tests nothing. -/
def moveWork : Stmt → ℕ
  | .toggleMotor toggle => 1 + (sweep toggle).length
  | _ => 1

/-- With the bodies of the tests of the flags, as if both flags were up. -/
def testWork (k : Sketch) : Stmt → ℕ
  | .ifAlarm1 => 1 + (k.onAlarm1.map moveWork).sum
  | .ifAlarm2 => 1 + (Sketch.onAlarm2.map moveWork).sum
  | stmt => moveWork stmt

/-- With the body of the test of `isAlarm`, as if the mark were set. -/
def work (k : Sketch) : Stmt → ℕ
  | .ifIsAlarm => 1 + (Sketch.onAlarm.map (testWork k)).sum
  | stmt => testWork k stmt

/-- The number of statements that are ahead of the next `powerDown`, at most. -/
def ahead (k : Sketch) : List Stmt → ℕ
  | [] => 0
  | .powerDown :: _ => 0
  | stmt :: code => work k stmt + ahead k code

theorem ahead_cons {stmt : Stmt} (h : stmt ≠ .powerDown) (code : List Stmt) :
    ahead k (stmt :: code) = work k stmt + ahead k code := by
  cases stmt with
  | powerDown => exact absurd rfl h
  | _ => rfl

/-- Code that is pushed adds the work of its statements, as long as none of them sleeps. -/
theorem ahead_append {pushed : List Stmt} (h : .powerDown ∉ pushed) (code : List Stmt) :
    ahead k (pushed ++ code) = (pushed.map (work k)).sum + ahead k code := by
  induction pushed with
  | nil => rw [List.nil_append, List.map_nil, List.sum_nil, Nat.zero_add]
  | cons stmt pushed ih =>
    rw [List.mem_cons, not_or] at h
    rw [List.cons_append, ahead_cons (fun heq ↦ h.1 heq.symm), ih h.2, List.map_cons, List.sum_cons,
      Nat.add_assoc]

/-- Where nothing is tested, there are only the sweeps to be counted. -/
theorem work_of_scheduling {stmt : Stmt} (h : scheduling stmt = true) : work k stmt = 1 := by
  cases stmt with
  | toggleMotor | ifIsAlarm | ifAlarm1 | ifAlarm2 => cases h
  | _ => rfl

/-- The answer to a closing pushes no further test: its work is that of its moves. -/
theorem work_onAlarm1 (hmake : ∀ stmt ∈ k.makeSchedule, scheduling stmt = true) :
    .powerDown ∉ k.onAlarm1 ∧
      (k.onAlarm1.map (work k)).sum = (k.onAlarm1.map moveWork).sum := by
  refine ⟨fun h ↦ ?_, congrArg List.sum (List.map_congr_left fun stmt hstmt ↦ ?_)⟩
  · simp only [Sketch.onAlarm1, List.mem_cons, reduceCtorEq, false_or] at h
    exact absurd (hmake _ h) Bool.false_ne_true
  · simp only [Sketch.onAlarm1, List.mem_cons] at hstmt
    rcases hstmt with rfl | rfl | hstmt
    · rfl
    · rfl
    · rw [work_of_scheduling (hmake stmt hstmt)]
      cases stmt with
      | toggleMotor => exact absurd (hmake _ hstmt) Bool.false_ne_true
      | _ => rfl

/-- **What a statement pushes is less work than itself**, by the statement that has been
executed. -/
theorem work_exec (hmake : ∀ stmt ∈ k.makeSchedule, scheduling stmt = true) (now : UInt32)
    (s : System) {stmt : Stmt} (h : stmt ≠ .powerDown) :
    .powerDown ∉ (exec k now s stmt).2 ∧
      ((exec k now s stmt).2.map (work k)).sum + 1 ≤ work k stmt := by
  -- What a test puts before the code is paid for in advance by its own `work`, the writes of a
  -- sweep by that of `toggleMotor`.
  cases stmt with
  | powerDown => exact absurd rfl h
  | toggleMotor toggle =>
    have hwrites : ((sweep toggle).map Stmt.write).map (work k) =
        List.replicate (sweep toggle).length 1 := by
      rw [List.map_map]
      exact List.map_eq_replicate_iff.2 fun _ _ ↦ rfl
    refine ⟨by simp [exec], ?_⟩
    simp only [exec, hwrites, List.sum_replicate_nat, Nat.mul_one, work, testWork, moveWork]
    omega
  | ifIsAlarm =>
    simp only [exec]
    split
    · exact ⟨by decide, (Nat.add_comm _ _).le⟩
    · exact ⟨List.not_mem_nil, by simp [work]⟩
  | ifAlarm1 =>
    obtain ⟨hnot, hsum⟩ := work_onAlarm1 hmake
    cases hflag : s.rtc.a1f with
    | none => simp [exec, hflag, work, testWork]
    | some t =>
      simp only [exec, hflag, hsum]
      exact ⟨hnot, (Nat.add_comm _ _).le⟩
  | ifAlarm2 =>
    cases hflag : s.rtc.a2f with
    | none => simp [exec, hflag, work, testWork]
    | some t =>
      simp only [exec, hflag]
      exact ⟨by decide, (Nat.add_comm _ _).le⟩
  | _ => exact ⟨List.not_mem_nil, le_rfl⟩

/-- The controller goes to sleep at the start of a round. -/
theorem code_of_powerDown {angles : List ℤ} (hk : ClosesFirst k angles) {code : List Stmt}
    {s : System} (h : Reachable k r (.powerDown :: code, s)) :
    code = [.refreshDate, .ifIsAlarm] := by
  obtain ⟨angles', rest, hcode, hrest, -⟩ := (settled_of_reachable hk h).ahead
  cases angles' with
  | cons angle angles' => cases hcode
  | nil =>
    rw [List.map_nil, List.nil_append] at hcode
    rcases hrest with hloop | hstill
    · rw [hloop] at hcode
      exact (List.cons.inj hcode).2
    · have hsleeps := hstill .powerDown (by rw [← hcode]; exact List.mem_cons_self)
      cases hsleeps

/-- The most statements that are executed without a `powerDown`: in `setup`, or in a round. -/
def mostWork (k : Sketch) : ℕ := max (ahead k k.setup) (ahead k [.refreshDate, .ifIsAlarm])

/-- **Each statement is paid for**, and `powerDown` leaves a round ahead: the code behind it is
always the same two statements. -/
theorem pays_ahead {angles : List ℤ} (hk : ClosesFirst k angles) :
    Pays (Executes k) (k.setup, powerUp r) (· = .powerDown) (fun c ↦ ahead k c.1) (mostWork k) := by
  have hmake := scheduling_makeSchedule hk.journal
  rintro ⟨code, s⟩ out c' hrun ⟨a, hact, hout⟩
  rw [forgets_executes] at hrun
  cases a with
  | tick =>
    obtain ⟨s', -, rfl⟩ := Option.map_eq_some_iff.1 hact
    exact Or.inl ⟨hout, le_rfl⟩
  | interrupt =>
    obtain ⟨s', -, rfl⟩ := Option.map_eq_some_iff.1 hact
    exact Or.inl ⟨hout, le_rfl⟩
  | exec now =>
    simp only [act] at hact
    split at hact
    · cases code with
      | nil =>
        cases hact
        exact Or.inl ⟨hout, le_rfl⟩
      | cons stmt code =>
        cases hact
        refine Or.inr ⟨stmt, hout, ?_⟩
        -- After `powerDown` at most `mostWork` is ahead; any other statement takes one off, and
        -- what it puts before the code is no more than the rest of its own work.
        by_cases hstmt : stmt = .powerDown
        · subst hstmt
          rw [code_of_powerDown hk hrun]
          exact Or.inl ⟨rfl, le_max_right _ _⟩
        · obtain ⟨hnot, hle⟩ := work_exec hmake now s hstmt
          refine Or.inr ⟨hstmt, ?_⟩
          show ahead k (_ ++ code) + 1 ≤ ahead k (stmt :: code)
          rw [ahead_append hnot, ahead_cons hstmt]
          omega
    · cases hact

/-! ### How many they are -/

/-- Where each statement is one, the work ahead is the length of the code. -/
theorem ahead_eq_length {code : List Stmt}
    (h : ∀ stmt ∈ code, stmt ≠ .powerDown ∧ work k stmt = 1) : ahead k code = code.length := by
  induction code with
  | nil => rfl
  | cons stmt code ih =>
    obtain ⟨hne, hwork⟩ := h stmt List.mem_cons_self
    rw [ahead_cons hne, hwork, ih fun i hi ↦ h i (List.mem_cons_of_mem _ hi), List.length_cons,
      Nat.add_comm]

/-- The work of a selection at the end of `setup`. -/
theorem ahead_makeSchedule (hmake : ∀ stmt ∈ k.makeSchedule, scheduling stmt = true) :
    ahead k (k.makeSchedule ++ [.clearIsAlarm]) = k.makeSchedule.length + 1 := by
  rw [ahead_eq_length fun stmt hstmt ↦ ?_, List.length_append, List.length_singleton]
  rcases List.mem_append.1 hstmt with hstmt | hstmt
  · refine ⟨?_, work_of_scheduling (hmake stmt hstmt)⟩
    rintro rfl
    exact absurd (hmake _ hstmt) Bool.false_ne_true
  · rw [List.mem_singleton.1 hstmt]
    exact ⟨Stmt.noConfusion, rfl⟩

/-- A round: two sweeps of 181 angles, `makeSchedule`, and nine statements more. -/
theorem ahead_round (hmake : ∀ stmt ∈ k.makeSchedule, scheduling stmt = true) :
    ahead k [.refreshDate, .ifIsAlarm] = k.makeSchedule.length + 371 := by
  have hclose : (sweep .Close).length = 181 := by decide +kernel
  have hopen : (sweep .Open).length = 181 := by decide +kernel
  have hmoves : k.makeSchedule.map moveWork = List.replicate k.makeSchedule.length 1 := by
    refine List.map_eq_replicate_iff.2 fun stmt hstmt ↦ ?_
    have hscheduling := hmake stmt hstmt
    cases stmt with
    | toggleMotor => cases hscheduling
    | _ => rfl
  simp only [ahead, work, testWork, moveWork, Sketch.onAlarm, Sketch.onAlarm1, Sketch.onAlarm2,
    List.map_cons, List.map_nil, List.sum_cons, List.sum_nil, hclose, hopen, hmoves,
    List.sum_replicate_nat]
  omega

/-- The bound for a sketch with a journal: that of `setup` is never the larger one, since it sweeps
nothing. -/
theorem mostWork_withTable (table : List AddEvent) :
    mostWork (.withTable table) = table.length + 380 := by
  have hmake := scheduling_makeSchedule (closesFirst_withTable table).journal
  have hlength : (Sketch.withTable table).makeSchedule.length = table.length + 9 := by
    simp [Sketch.makeSchedule, Sketch.planSchedule, Sketch.setAlarms, Sketch.withTable]
  have hprepare : ahead (.withTable table) (Sketch.withTable table).setup =
      ahead (.withTable table) ((Sketch.withTable table).makeSchedule ++ [.clearIsAlarm]) + 9 := by
    rw [Sketch.setup, ahead_append (by simp [Sketch.prepare, Sketch.withTable]), Nat.add_comm]
    rfl
  rw [mostWork, hprepare, ahead_makeSchedule hmake, ahead_round hmake, hlength]
  omega

theorem mostWork_analemmaRelease : mostWork analemmaRelease = releaseTable.length + 379 := by
  decide +kernel

/-! ### Awake, the controller goes on -/

/-- The system time is not ahead of the clock, so that there is a value for `now()` to return. -/
theorem sysTime_le {c : List Stmt × System} (h : Reachable k r c) :
    c.2.sysTime.toNat ≤ c.2.rtc.time := by
  induction h with
  | refl => exact Nat.zero_le _
  | @tail c c' _ hstep ih =>
    obtain ⟨a, hact⟩ := hstep
    have hprogram : (program k fun _ _ ↦ True).Step c c' := step_program hact fun _ ↦ trivial
    cases hprogram with
    | env henv =>
      rcases henv with hint | ⟨htick, -⟩
      · obtain ⟨-, rfl⟩ := interrupt_eq_some hint
        exact ih
      · obtain ⟨r, hr, rfl⟩ := tick_eq_some htick
        rw [rtc_setRtc, (Rtc.tick_eq_some hr).1]
        exact ih.trans (Nat.le_succ _)
    | @exec stmt code s s' pushed hexec =>
      obtain ⟨-, -, now, -, heq⟩ := hexec
      obtain ⟨rfl, rfl⟩ := Prod.ext_iff.1 heq
      -- The software clock is set from the chip here and nowhere else.
      by_cases hread : stmt = .refreshDate
      · rw [hread]
        exact (SystemTime.sysTime_exec_refreshDate k now s).le
      · obtain ⟨htime, hsame⟩ := SystemTime.exec_times k now s stmt
        rw [htime, hsame hread]
        exact ih
    | again => exact ih

/-- Awake, the controller has a next step: the interrupt routine if an edge is pending, and else the
next statement, or a new round. -/
theorem exists_act {c : List Stmt × System} (h : Reachable k r c) (hawake : c.2.asleep = false) :
    ∃ a c', a ≠ .tick ∧ act k a c = some c' := by
  cases hpending : c.2.pending with
  | true =>
    exact ⟨.interrupt, _, Action.noConfusion,
      by rw [act, interrupt, if_pos hpending, Option.map_some]⟩
  | false =>
    refine ⟨.exec c.2.sysTime, ?_⟩
    have hnow : c.2.Now c.2.sysTime := ⟨le_rfl, sysTime_le h⟩
    simp only [act, hawake, hpending, hnow, and_self, if_true]
    cases c.1 with
    | nil => exact ⟨_, Action.noConfusion, rfl⟩
    | cons stmt code => exact ⟨_, Action.noConfusion, rfl⟩

/-- **Every round ends**: in every run of a sketch with a journal, with any table, and of
`analemma_release`, no more statements are executed without a `powerDown` among them than the table
has lines and 380 more; and as long as the controller is awake, it can go on without the clock. -/
theorem rounds_end (hk : (∃ table, k = .withTable table) ∨ k = analemmaRelease)
    {c : List Stmt × System} {trace : List Stmt} (h : Traced k r c trace) :
    (∀ segment, segment <:+: trace → .powerDown ∉ segment →
        segment.length ≤ k.table.length + 380) ∧
      (c.2.asleep = false → ∃ a c', a ≠ .tick ∧ act k a c = some c') := by
  refine ⟨fun segment hsegment hnot ↦ ?_, exists_act (reachable_iff_traced.2 ⟨trace, h⟩)⟩
  have hmark : ∀ stmt ∈ segment, ¬ stmt = .powerDown := by
    rintro _ hstmt rfl
    exact hnot hstmt
  rcases hk with ⟨table, rfl⟩ | rfl
  · exact (length_le_between (pays_ahead (closesFirst_withTable table)) (le_max_left _ _) h
      hsegment hmark).trans (mostWork_withTable table).le
  · have hle := length_le_between (pays_ahead closesFirst_analemmaRelease) (le_max_left _ _) h
      hsegment hmark
    rw [mostWork_analemmaRelease] at hle
    exact hle.trans (Nat.le_succ _)

/-- The rounds of `analemma_1` until it sleeps at a minute past ten, of at most 391 statements. -/
theorem rounds_end_oneMinutePast :
    ∃ c trace, Traced analemma1 Performance.morning c trace ∧ c.2.moves.length = 1 ∧
      ∀ segment, segment <:+: trace → .powerDown ∉ segment → segment.length ≤ 391 := by
  obtain ⟨c₀, c, since, hread, hrun, -, -, hmoves⟩ := exists_oneMinutePast
  obtain ⟨trace, htrace⟩ := reachable_iff_traced.1 (hrun.reachable hread.reachable)
  exact ⟨c, trace, htrace, by rw [hmoves]; rfl, (rounds_end (Or.inl ⟨_, rfl⟩) htrace).1⟩

/-! ### Asleep, the pin decides -/

/-- **With the pin low**, nothing happens any more but ticks: no edge, no interrupt, no statement,
and no move. -/
theorem stuck_of_run {c c' : List Stmt × System} (hstuck : Posture.Stuck c.2)
    (hrun : Relation.ReflTransGen (Step k) c c') :
    Posture.Stuck c'.2 ∧ c'.2.moves = c.2.moves := by
  induction hrun with
  | refl => exact ⟨hstuck, rfl⟩
  | tail _ hstep ih =>
    obtain ⟨hstuck', hmoves⟩ := ih
    obtain ⟨a, hact⟩ := hstep
    cases a with
    | tick =>
      obtain ⟨s', htick, rfl⟩ := Option.map_eq_some_iff.1 hact
      have hticked := hstuck'.tick htick
      obtain ⟨r', -, rfl⟩ := tick_eq_some htick
      exact ⟨hticked, hmoves⟩
    | interrupt =>
      obtain ⟨s', hint, rfl⟩ := Option.map_eq_some_iff.1 hact
      exact absurd (hstuck'.2.1.symm.trans (interrupt_eq_some hint).1) Bool.false_ne_true
    | exec now => exact absurd hact (by simp [act, hstuck'.1])

/-- Alarm 1 of an event matches again within three months: of two months in a row one has the day,
even if it is the 31st. -/
theorem exists_alarm1_matches (ev : HatchEvent) (t : ℕ) :
    ∃ u, t < u ∧ u ≤ t + 86400 * 93 ∧ ev.alarm1.Matches u := by
  obtain ⟨D, hday, hlt, hle⟩ := (civil ev.closeTime.toNat).toDate.exists_day_after (t / 86400)
  have htod := Nat.mod_lt ev.closeTime.toNat (show 0 < 86400 by decide)
  have hdays : (86400 * D.toDays + ev.closeTime.toNat % 86400) / 86400 = D.toDays := by omega
  refine ⟨86400 * D.toDays + ev.closeTime.toNat % 86400, by omega, by omega,
    (alarm1_matches ev _).2 ⟨?_, by omega⟩⟩
  rw [← hday, civil, DateTime.toDate_ofSeconds, hdays, Date.ofDays_toDays]

/-- **With the pin high**, the next match of an alarm makes an edge. -/
theorem exists_edge {code : List Stmt} {s : System} {t : ℕ} (hidle : Idle s)
    (hattached : s.attached = true) (harmed : s.rtc.armed1 = true)
    (hhigh : s.rtc.intLow = false) (hmatch : s.rtc.alarm1.Matches t) (hlt : s.rtc.time < t)
    (hend : t < endInstant) :
    ∃ s', Relation.ReflTransGen (Step k) (code, s) (code, s') ∧ s'.pending = true ∧
      s'.rtc.intLow = true ∧ s'.moves = s.moves := by
  obtain ⟨n, rfl⟩ := Nat.exists_eq_add_of_lt hlt
  -- On the seconds left to the match. An edge that comes earlier, from the other alarm, is as good
  -- as this one.
  induction n generalizing s with
  | zero =>
    obtain ⟨r', hr⟩ : ∃ r', s.rtc.tick = some r' := ⟨_, dif_pos (by omega)⟩
    obtain ⟨-, -, -, harmed', -, hflag, -⟩ := Rtc.tick_eq_some hr
    have hlow : r'.intLow = true := by
      rw [Rtc.intLow, harmed', harmed, hflag]
      cases hold : s.rtc.a1f with
      | some t => simp [Rtc.raise]
      | none => rw [Rtc.raise_none hmatch]; rfl
    exact ⟨s.setRtc r', .single ⟨.tick, by simp [act, tick, hr]⟩,
      by rw [pending_setRtc, hidle.2, hattached, hhigh, hlow]; rfl, hlow, rfl⟩
  | succ n ih =>
    obtain ⟨r', hr⟩ : ∃ r', s.rtc.tick = some r' := ⟨_, dif_pos (by omega)⟩
    have hstep : Step k (code, s) (code, s.setRtc r') := ⟨.tick, by simp [act, tick, hr]⟩
    obtain ⟨htime, halarm, -, harmed', -, -, -⟩ := Rtc.tick_eq_some hr
    cases hlow : r'.intLow with
    | true =>
      exact ⟨s.setRtc r', .single hstep,
        by rw [pending_setRtc, hidle.2, hattached, hhigh, hlow]; rfl, hlow, rfl⟩
    | false =>
      have hsame : r'.time + n + 1 = s.rtc.time + (n + 1) + 1 := by omega
      obtain ⟨s', hrun, hedge⟩ := ih (s := s.setRtc r')
        ⟨hidle.1, by rw [pending_setRtc, hidle.2, hlow]; simp⟩ hattached (harmed'.trans harmed)
        hlow (by rw [rtc_setRtc, halarm, hsame]; exact hmatch) (by rw [rtc_setRtc]; omega)
        (by rw [rtc_setRtc]; omega)
      exact ⟨s', hrun.head hstep, hedge⟩

/-- The next statement can be executed, with the system time as the value of `now()`. -/
structure Ready (s : System) : Prop where
  awake : s.asleep = false
  calm : s.pending = false
  read : s.sysTime.toNat ≤ s.rtc.time

/-- Then it is, and what it does is a step. -/
theorem Ready.step {s : System} (h : Ready s) (stmt : Stmt) (code : List Stmt) :
    Step k (stmt :: code, s)
      ((exec k s.sysTime s stmt).2 ++ code, (exec k s.sysTime s stmt).1) :=
  ⟨.exec s.sysTime, if_pos ⟨h.awake, h.calm, le_rfl, h.read⟩⟩

/-- A flag that goes down makes no edge. -/
theorem Ready.setRtc {s : System} (h : Ready s) {r' : Rtc} (htime : r'.time = s.rtc.time)
    (hlow : r'.intLow = true → s.rtc.intLow = true) : Ready (s.setRtc r') := by
  refine ⟨h.awake, ?_, h.read.trans_eq htime.symm⟩
  rw [pending_setRtc, h.calm]
  cases hnew : r'.intLow with
  | false => simp
  | true => simp [hlow hnew]

theorem Ready.clearAlarm1 {s : System} (h : Ready s) :
    Ready (s.setRtc { s.rtc with a1f := none }) :=
  h.setRtc rfl fun hlow ↦ by
    simp only [Rtc.intLow, Option.isSome_none, Bool.and_false, Bool.false_or] at hlow ⊢
    rw [hlow, Bool.or_true]

theorem Ready.clearAlarm2 {s : System} (h : Ready s) :
    Ready (s.setRtc { s.rtc with a2f := none }) :=
  h.setRtc rfl fun hlow ↦ by
    simp only [Rtc.intLow, Option.isSome_none, Bool.and_false, Bool.or_false] at hlow ⊢
    rw [hlow, Bool.true_or]

/-- A call of `toggleMotor` is a move, as soon as it is executed. -/
theorem Ready.toggleMotor {s : System} (h : Ready s) (toggle : Toggle) (code : List Stmt) :
    ∃ c', Relation.ReflTransGen (Step k) (.toggleMotor toggle :: code, s) c' ∧
      c'.2.moves ≠ s.moves :=
  ⟨_, .single (h.step _ _), by simp [exec]⟩

/-- **A round that finds a flag** moves the hatch: with the mark of the interrupt set, the test of
the flag that is up comes, and behind it the call. -/
theorem Ready.round {s : System} (h : Ready s) (halarm : s.isAlarm = true)
    (hflag : s.rtc.a1f ≠ none ∨ s.rtc.a2f ≠ none) :
    ∃ c', Relation.ReflTransGen (Step k) ([.refreshDate, .ifIsAlarm], s) c' ∧
      c'.2.moves ≠ s.moves := by
  -- The clock is read, and nothing the tests look at has changed.
  obtain ⟨s₁, hstep, hready, halarm₁, hrtc, hmoves⟩ : ∃ s₁,
      Step k ([.refreshDate, .ifIsAlarm], s) ([.ifIsAlarm], s₁) ∧ Ready s₁ ∧
        s₁.isAlarm = true ∧ s₁.rtc = s.rtc ∧ s₁.moves = s.moves := by
    have hread := SystemTime.sysTime_exec_refreshDate k s.sysTime s
    obtain ⟨hawake, hcalm, hkept⟩ := of_forall_sysTime
      (P := fun u ↦ u.asleep = false ∧ u.pending = false ∧ u.isAlarm = true ∧ u.rtc = s.rtc ∧
        u.moves = s.moves) k s.sysTime fun _ ↦ ⟨h.awake, h.calm, halarm, rfl, rfl⟩
    exact ⟨_, h.step _ _, ⟨hawake, hcalm, hread.le⟩, hkept⟩
  rw [← hrtc] at hflag
  rw [← hmoves]
  have htest : Step k ([.ifIsAlarm], s₁) (Sketch.onAlarm, s₁) := by
    have htest := hready.step (k := k) .ifIsAlarm []
    simp only [exec, halarm₁, if_true, List.append_nil] at htest
    exact htest
  have hclear : Ready { s₁ with isAlarm := false } := ⟨hready.awake, hready.calm, hready.read⟩
  -- The pass is awake with `isAlarm` set, so it goes on to the two tests.
  have hhead : Relation.ReflTransGen (Step k) ([.refreshDate, .ifIsAlarm], s)
      ([.ifAlarm1, .ifAlarm2], { s₁ with isAlarm := false }) :=
    ((Relation.ReflTransGen.single hstep).tail htest).tail (hready.step .clearIsAlarm _)
  have hanswer := hclear.step (k := k) .ifAlarm1 [.ifAlarm2]
  -- The first flag that is up is answered, and its `toggleMotor` is the move.
  cases hflag1 : s₁.rtc.a1f with
  | some t =>
    simp only [exec, hflag1] at hanswer
    have htaken : Ready (System.takeAlarm1 { s₁ with isAlarm := false } t) :=
      ⟨hclear.clearAlarm1.awake, hclear.clearAlarm1.calm, hclear.clearAlarm1.read⟩
    obtain ⟨c', hrun, hmoved⟩ := htaken.clearAlarm1.toggleMotor (k := k) .Close
      (k.makeSchedule ++ [.ifAlarm2])
    exact ⟨c', (hhead.tail hanswer).trans (hrun.head (htaken.step .clearAlarm1 _)), hmoved⟩
  | none =>
    simp only [exec, hflag1, List.nil_append] at hanswer
    have hanswer2 := hclear.step (k := k) .ifAlarm2 []
    cases hflag2 : s₁.rtc.a2f with
    | none => exact absurd hflag (by simp [hflag1, hflag2])
    | some t =>
      simp only [exec, hflag2] at hanswer2
      have htaken : Ready (System.takeAlarm2 { s₁ with isAlarm := false } t) :=
        ⟨hclear.clearAlarm2.awake, hclear.clearAlarm2.calm, hclear.clearAlarm2.read⟩
      obtain ⟨c', hrun, hmoved⟩ := htaken.clearAlarm2.toggleMotor (k := k) .Open []
      exact ⟨c', ((hhead.tail hanswer).tail hanswer2).trans
        (hrun.head (htaken.step .clearAlarm2 _)), hmoved⟩

/-- **Whether the hatch moves again** is told by the pin: in every idle state that a sketch with a
journal, with any table, can reach, up to the last three months of the clock's calendar, there is a
run in which the hatch is moved again if and only if the pin is high. -/
theorem moves_again_iff {table : List AddEvent} {c : List Stmt × System}
    (h : Reachable (.withTable table) r c) (hidle : Idle c.2)
    (hlong : c.2.rtc.time + 86400 * 93 < endInstant) :
    (∃ c', Relation.ReflTransGen (Step (.withTable table)) c c' ∧ c'.2.moves ≠ c.2.moves) ↔
      c.2.rtc.intLow = false := by
  -- With INT held low there is no further edge and the chip sleeps for ever; with INT high the next
  -- match of alarm 1 is at most 93 days away.
  constructor
  · rintro ⟨c', hrun, hmoved⟩
    by_contra hlow
    exact hmoved (stuck_of_run ⟨hidle.1, hidle.2, Bool.eq_true_of_not_eq_false hlow⟩ hrun).2
  · intro hhigh
    obtain ⟨code, s⟩ := c
    have hcode : code = [.refreshDate, .ifIsAlarm] :=
      (settled_of_reachable (closesFirst_withTable table) h).asleep hidle.1
    subst hcode
    have hattached : s.attached = true := (attached_of_reachable h).resolve_right (by simp)
    have hrun₀ := h
    rw [Reachable, ← Logbook.forgets_emits] at hrun₀
    obtain ⟨log, hlogged⟩ := forgotten_iff.1 hrun₀
    have hlevel : Logbook.Level s log :=
      (Logbook.outlined_of_logged (Logbook.keepsJournal_withTable table) hlogged).safe.2 hidle.1
    obtain ⟨t, hlt, hle, hmatch⟩ := exists_alarm1_matches s.nextEvent s.rtc.time
    obtain ⟨s', hrun, hpending, hlow, hmoves⟩ := exists_edge (k := .withTable table) hidle
      hattached hlevel.armed1 hhigh (hlevel.alarm1 ▸ hmatch) hlt (by simp only at hlong; omega)
    have hwake : Step (.withTable table) ([.refreshDate, .ifIsAlarm], s')
        ([.refreshDate, .ifIsAlarm],
          { s' with pending := false, isAlarm := true, asleep := false }) :=
      ⟨.interrupt, by rw [act, interrupt, if_pos hpending, Option.map_some]⟩
    have hflag : s'.rtc.a1f ≠ none ∨ s'.rtc.a2f ≠ none := by
      simp only [Rtc.intLow, Bool.or_eq_true, Bool.and_eq_true, Option.isSome_iff_ne_none] at hlow
      exact hlow.imp And.right And.right
    have hawake : Ready { s' with pending := false, isAlarm := true, asleep := false } :=
      ⟨rfl, rfl, sysTime_le (h.trans hrun)⟩
    obtain ⟨c', hround, hmoved⟩ := hawake.round (k := .withTable table) rfl hflag
    exact ⟨c', (hrun.tail hwake).trans hround, hmoves ▸ hmoved⟩

/-- The run of the lost wake-up as it is evaluated, with the pin low at its end. -/
theorem tooLate_idle :
    ((runActions (.withTable tenOClock) (fun _ _ ↦ True) Wakeup.tooLate
      ((Sketch.withTable tenOClock).setup, powerUp beforeTen)).map fun c ↦
        decide (Idle c.2 ∧ c.2.rtc.time = 946720800 ∧ c.2.rtc.intLow = true)) = some true := by
  decide +kernel

/-- The controller that has gone to sleep with a flag up never moves the hatch again. -/
theorem moves_again_iff_tooLate :
    ∃ c, Reachable (.withTable tenOClock) beforeTen c ∧ Idle c.2 ∧
      ∀ c', Relation.ReflTransGen (Step (.withTable tenOClock)) c c' →
        c'.2.moves = c.2.moves := by
  obtain ⟨c, hrun, hdecide⟩ := Option.map_eq_some_iff.1 tooLate_idle
  obtain ⟨hidle, htime, hlow⟩ := of_decide_eq_true hdecide
  have hreach := (reachableIf_of_runActions hrun).reachable
  have hiff := moves_again_iff hreach hidle (by rw [htime]; decide)
  refine ⟨c, hreach, hidle, fun c' hrun' ↦ ?_⟩
  by_contra hmoved
  exact absurd (hlow.symm.trans (hiff.1 ⟨c', hrun', hmoved⟩)) (by decide)

end Machine.Liveness
