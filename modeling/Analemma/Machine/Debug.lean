import Analemma.Machine.Prompt
import Analemma.Schedule.Occurrences

/-!
# The debug sketch

`analemma_debug` is `analemma_1` with another schedule: `addEvents` adds one event, half a minute
long, at the minute after the last reading of the clock (`addEvent(dt.hour, dt.minute + 1, 30)`).
The record `dt` that `refreshDate` leaves behind becomes part of the state, and one statement is
new; every other statement does what it does in `analemma_1`.

`dt.minute + 1` may be 60, and `makeTime` carries it over: the event opens at the next full minute,
whatever minute, hour, day or year ends there (`event_window`).

A run is `Timely` if the work that an alarm begins is over before half a minute has passed, and that
of `setup` before the first full minute, and if `now()` returns the last reading of the clock while
the event is built. A state of such a run is paired with the instant before which the present work
is to be over.

The state extends that of `Machine` by the record, and `exec` hands every statement but three to the
statement machine: `refreshDate`, which keeps the record, the test of the closing, whose body has
the other schedule in it, and the new one. `exec_base` says so, and what has been proved of the
common statements is used through it. Half a minute is a shorter time than a prompt run gives, for
the debug sketch has no more between two of its alarms.
-/

namespace Machine.Debug

open DS3231 Schedule Gregorian

/-! ### The code -/

/-- A statement of the debug sketch. -/
inductive Stmt where
  /-- A statement that `analemma_1` has too. -/
  | base (stmt : Machine.Stmt)
  /-- `addEvents()`. -/
  | addEvents
deriving DecidableEq, Repr

/-- `makeTestSchedule` after its `refreshDate`: the event is built from the reading, and the alarms
are programmed for it. -/
def planTestSchedule : List Stmt :=
  .base .resetNextEvent :: .addEvents :: (Sketch.setAlarms.map .base ++ [.base .updateJournal])

/-- `makeTestSchedule`. -/
def makeTestSchedule : List Stmt := .base .refreshDate :: planTestSchedule

/-- `setup`. -/
def setup : List Stmt :=
  analemma1.prepare.map .base ++ (makeTestSchedule ++ [.base .clearIsAlarm])

/-- `loop`, statement by statement as in `analemma_1`. -/
def loop : List Stmt := Sketch.loop.map .base

/-- The body of `if (clock.isAlarm1())`. -/
def onAlarm1 : List Stmt :=
  .base .clearAlarm1 :: .base (.toggleMotor .Close) :: makeTestSchedule

/-- The state of clock and controller, with the global `dt`, the record of the last reading. -/
structure System extends Machine.System where
  dt : RTCDateTime
deriving DecidableEq

/-- The system after power-up. -/
def powerUp (r : Rtc) : System := ⟨Machine.powerUp r, ⟨0, 0, 0, 0, 0, 0⟩⟩

/-- The call in `addEvents`: the minute after that of the record, in the same hour, for half a
minute. The minute may be 60. -/
def testEvent (dt : RTCDateTime) : AddEvent := .daily dt.hour (dt.minute + 1) 30

/-- What a statement does, with the value that `now()` returns in it, and the code it pushes. -/
def exec (now : UInt32) (s : System) : Stmt → System × List Stmt
  | .base .refreshDate =>
    let dt := getDateTime (timeRegisters s.rtc.time)
    ({ s with sysTime := systemTime dt, dt := dt }, [])
  | .base .ifAlarm1 =>
    match s.rtc.a1f with
    | some t => (⟨s.takeAlarm1 t, s.dt⟩, onAlarm1)
    | none => (s, [])
  | .base stmt =>
    let (base, pushed) := Machine.exec analemma1 now s.toSystem stmt
    (⟨base, s.dt⟩, pushed.map .base)
  | .addEvents => ({ s with nextEvent := addEvent now s.nextEvent (testEvent s.dt) }, [])

/-- A step of clock and controller. -/
def act (a : Action) (c : List Stmt × System) : Option (List Stmt × System) :=
  match a with
  | .tick => (tick c.2.toSystem).map fun s ↦ (c.1, ⟨s, c.2.dt⟩)
  | .interrupt => (interrupt c.2.toSystem).map fun s ↦ (c.1, ⟨s, c.2.dt⟩)
  | .exec now =>
    if c.2.asleep = false ∧ c.2.pending = false ∧ c.2.Now now then
      match c.1 with
      | [] => some (loop, c.2)
      | stmt :: code => some ((exec now c.2 stmt).2 ++ code, (exec now c.2 stmt).1)
    else none

/-- The step relation. -/
def Step (c c' : List Stmt × System) : Prop := ∃ a, act a c = some c'

/-- The configurations the sketch can reach from power-up with the clock in the state `r`. -/
def Reachable (r : Rtc) (c : List Stmt × System) : Prop :=
  Relation.ReflTransGen Step (setup, powerUp r) c

/-- The configuration right after the `makeTestSchedule` of `setup` has read the instant `t₀` from
the clock. -/
def AtReading (r : Rtc) (t₀ : ℕ) (c : List Stmt × System) : Prop :=
  ∃ s now, Reachable r (makeTestSchedule ++ [.base .clearIsAlarm], s) ∧ s.rtc.time = t₀ ∧
    act (.exec now) (makeTestSchedule ++ [.base .clearIsAlarm], s) = some c

/-! ### Timely runs -/

/-- The first full minute after an instant; after a full minute it is the next one. -/
def nextMinute (t : ℕ) : ℕ := 60 * (t / 60 + 1)

/-- The instant before which the work of the state after a step is to be over. -/
def deadlineAfter (s s' : System) (deadline : ℕ) : ℕ :=
  if Idle s.toSystem then s'.rtc.time + 30 else deadline

/-- The work is over in time: whenever the controller is not idle, the clock is before the deadline
of its work. -/
def Timely (s s' : System) (deadline deadline' : ℕ) : Prop :=
  deadline' = deadlineAfter s s' deadline ∧ (¬ Idle s'.toSystem → s'.rtc.time < deadline')

instance (s s' : System) (deadline deadline' : ℕ) : Decidable (Timely s s' deadline deadline') :=
  inferInstanceAs (Decidable (_ ∧ _))

/-- `now()` returns the last reading of the clock while the event is built. -/
def ReadsClock (a : Action) (c : List Stmt × System) : Prop :=
  c.1.head? = some .addEvents → ∀ now, a = .exec now → now = c.2.sysTime

instance : ∀ a c, Decidable (ReadsClock a c)
  | .exec now, c => decidable_of_iff (c.1.head? = some .addEvents → now = c.2.sysTime)
    (by simp [ReadsClock])
  | .tick, _ | .interrupt, _ => isTrue (by simp [ReadsClock])

/-- A step of a timely run, with the deadline carried on. -/
def TimelyStep (x y : (List Stmt × System) × ℕ) : Prop :=
  (∃ a, act a x.1 = some y.1 ∧ ReadsClock a x.1) ∧ Timely x.1.2 y.1.2 x.2 y.2

/-- A timely run. -/
def TimelyRun (c₀ : List Stmt × System) (deadline₀ : ℕ) (c : List Stmt × System)
    (deadline : ℕ) : Prop :=
  Relation.ReflTransGen TimelyStep (c₀, deadline₀) (c, deadline)

/-! ### What a statement does -/

/-- To the state without `dt`, a statement of `analemma_1` does what it does there. -/
@[simp] theorem toSystem_exec_base (now : UInt32) (s : System) (stmt : Machine.Stmt) :
    (exec now s (.base stmt)).1.toSystem = (Machine.exec analemma1 now s.toSystem stmt).1 := by
  cases stmt with
  | ifAlarm1 =>
    cases hflag : s.rtc.a1f <;> simp only [exec, Machine.exec, hflag]
  | _ => rfl

/-- Most statements of `analemma_1` know nothing of `dt` and push what they push there. -/
theorem exec_base (now : UInt32) (s : System) {stmt : Machine.Stmt} (hread : stmt ≠ .refreshDate)
    (halarm : stmt ≠ .ifAlarm1) :
    exec now s (.base stmt) = (⟨(Machine.exec analemma1 now s.toSystem stmt).1, s.dt⟩,
      (Machine.exec analemma1 now s.toSystem stmt).2.map .base) := by
  cases stmt with
  | refreshDate => exact absurd rfl hread
  | ifAlarm1 => exact absurd rfl halarm
  | _ => rfl

/-- `addEvents` changes the next event and nothing else: what holds with every next event holds
after it. -/
theorem of_forall_nextEvent {P : System → Prop} (now : UInt32) {s : System}
    (h : ∀ nextEvent, P { s with nextEvent := nextEvent }) : P (exec now s .addEvents).1 := h _

/-- Once attached, the interrupt stays so. -/
theorem attached_exec (now : UInt32) {s : System} {stmt : Stmt}
    (h : s.attached = true ∨ stmt = .base .attachInterrupt) :
    (exec now s stmt).1.attached = true := by
  cases stmt with
  | base stmt =>
    rw [toSystem_exec_base]
    exact Machine.attached_exec analemma1 now (h.imp_right Stmt.base.inj)
  | addEvents =>
    have hattached : s.attached = true := h.resolve_right Stmt.noConfusion
    exact of_forall_nextEvent (P := fun s ↦ s.attached = true) now fun _ ↦ hattached

/-- **The event that is built opens at the next full minute**, for half a minute. -/
theorem event_window {t : ℕ} (ht : firstInstant ≤ t ∧ t < endInstant) {now : UInt32}
    (hnow : now.toNat = t) :
    ((testEvent (getDateTime (timeRegisters t))).event now).window =
      (nextMinute t, nextMinute t + 30) := by
  obtain ⟨-, -, -, hhour, hminute, -⟩ := getDateTime_timeRegisters ht
  generalize getDateTime (timeRegisters t) = dt at hhour hminute
  have hend : t < 4102444800 := ht.2
  have hlt := (civil t).minute_lt
  have hnext : (dt.minute + 1).toNat = (civil t).minute + 1 := by
    rw [UInt8.toNat_add, hminute, show (1 : UInt8).toNat = 1 from rfl, Nat.mod_eq_of_lt (by omega)]
  -- the second of the day is dropped, and a minute added
  have hday := secondOfDay_civil t
  rw [show (civil t).second = t % 60 from rfl] at hday
  have hopens : dailyAt (secondOfDay dt.hour.toNat (dt.minute + 1).toNat 0) (t / 86400) =
      nextMinute t := by
    rw [hhour, hnext]
    unfold secondOfDay at hday ⊢
    unfold dailyAt nextMinute
    omega
  have hlater : t < nextMinute t ∧ nextMinute t ≤ t + 60 := by
    unfold nextMinute
    omega
  have hopen : ((testEvent dt).event now).openTime.toNat = nextMinute t := by
    refine (HatchEvent.daily_openTime_eq_ite _ (by rw [hnow, hopens]; omega)).trans ?_
    rw [hnow, hopens]
    exact if_pos hlater.1
  have hkeeps : (testEvent dt).KeepsDuration := Or.inl (by decide)
  have hlength : (testEvent dt).openForSeconds.toNat = 30 := rfl
  rw [HatchEvent.window, hkeeps.closeTime (by omega), hopen, hlength]

/-- In the last minute before the leap day of 2000, it opens at midnight. -/
example : (testEvent (getDateTime (timeRegisters 951782350))).event 951782350 =
    ⟨951782400, 951782430⟩ := by decide +kernel

/-- **The event that `addEvents` adds**, at the time the clock has shown, is the next event. -/
theorem addEvent_window {t : ℕ} (ht : firstInstant ≤ t ∧ t < endInstant) {now : UInt32}
    (hnow : now.toNat = t) :
    (addEvent now .empty (testEvent (getDateTime (timeRegisters t)))).window =
      (nextMinute t, nextMinute t + 30) := by
  have hwindow := event_window ht hnow
  have hend : t < 4102444800 := ht.2
  have hopen : ((testEvent (getDateTime (timeRegisters t))).event now).openTime.toNat =
      nextMinute t := congrArg Prod.fst hwindow
  have hearlier : ((testEvent (getDateTime (timeRegisters t))).event now).openTime <
      HatchEvent.empty.openTime := by
    rw [UInt32.lt_iff_toNat_lt, hopen, show HatchEvent.empty.openTime.toNat = 4294967295 from rfl]
    unfold nextMinute
    omega
  rw [addEvent, setNextEvent, if_pos hearlier, hwindow]

/-- **What a step can do**: the clock ticks, the interrupt routine runs, or the controller, awake,
executes a statement or starts `loop` again. -/
theorem act_cases {a : Action} {code code' : List Stmt} {s s' : System}
    (h : act a (code, s) = some (code', s')) :
    (code' = code ∧ s'.dt = s.dt ∧
        (tick s.toSystem = some s'.toSystem ∨ interrupt s.toSystem = some s'.toSystem)) ∨
      ∃ now, a = .exec now ∧ s.asleep = false ∧ s.pending = false ∧ s.Now now ∧
        ((code = [] ∧ code' = loop ∧ s' = s) ∨ ∃ stmt rest, code = stmt :: rest ∧
          code' = (exec now s stmt).2 ++ rest ∧ s' = (exec now s stmt).1) := by
  cases a with
  | tick =>
    obtain ⟨base, hbase, heq⟩ := Option.map_eq_some_iff.1 h
    cases heq
    exact Or.inl ⟨rfl, rfl, Or.inl hbase⟩
  | interrupt =>
    obtain ⟨base, hbase, heq⟩ := Option.map_eq_some_iff.1 h
    cases heq
    exact Or.inl ⟨rfl, rfl, Or.inr hbase⟩
  | exec now =>
    simp only [act] at h
    split at h
    · next hready =>
      refine Or.inr ⟨now, rfl, hready.1, hready.2.1, hready.2.2, ?_⟩
      cases code with
      | nil =>
        cases h
        exact Or.inl ⟨rfl, rfl, rfl⟩
      | cons stmt rest =>
        cases h
        exact Or.inr ⟨stmt, rest, rfl, rfl, rfl⟩
    · cases h

/-! ### Where a timely run starts -/

/-- The interrupt is attached, or `setup` has not come to its attachment yet. -/
theorem attached_of_reachable {r : Rtc} {c : List Stmt × System} (h : Reachable r c) :
    c.2.attached = true ∨ .base .attachInterrupt ∈ c.1 := by
  induction h with
  | refl => exact Or.inr (by simp [setup, Sketch.prepare])
  | @tail c c' _ hstep ih =>
    obtain ⟨code, s⟩ := c
    obtain ⟨code', s'⟩ := c'
    obtain ⟨a, hact⟩ := hstep
    rcases act_cases hact with ⟨rfl, -, htick | hint⟩ | ⟨now, -, -, -, -, hexec⟩
    · obtain ⟨r, -, hs'⟩ := tick_eq_some htick
      rw [hs']
      exact ih
    · rw [(interrupt_eq_some hint).2]
      exact ih
    · rcases hexec with ⟨rfl, -, rfl⟩ | ⟨stmt, rest, rfl, rfl, rfl⟩
      · exact Or.inl (ih.resolve_right List.not_mem_nil)
      · rw [List.mem_cons, ← or_assoc] at ih
        exact ih.imp (fun h ↦ attached_exec now (h.imp_right Eq.symm)) (List.mem_append_right _)

/-- The state right after the reading: awake, the system time and `dt` are those of the instant
read, and the interrupt is attached. -/
theorem AtReading.spec {r : Rtc} {t₀ : ℕ} {c : List Stmt × System} (h : AtReading r t₀ c) :
    c.1 = planTestSchedule ++ [.base .clearIsAlarm] ∧ c.2.asleep = false ∧ c.2.attached = true ∧
      c.2.rtc.time = t₀ ∧ c.2.sysTime.toNat = t₀ ∧ c.2.dt = getDateTime (timeRegisters t₀) := by
  obtain ⟨s, now, hreach, rfl, hact⟩ := h
  have hattached : s.attached = true := (attached_of_reachable hreach).resolve_right (by
    simp [makeTestSchedule, planTestSchedule, Sketch.setAlarms])
  simp only [act] at hact
  split at hact
  · next hready =>
    cases hact
    obtain ⟨hawake, hattached', htime⟩ := of_forall_sysTime
      (P := fun u ↦ u.asleep = false ∧ u.attached = true ∧ u.rtc.time = s.rtc.time) analemma1 now
      fun _ ↦ ⟨hready.1, hattached, rfl⟩
    exact ⟨rfl, hawake, hattached', htime, toNat_systemTime_getDateTime s.rtc.time_mem, rfl⟩
  · cases hact

/-! ### Timely runs as runs of a program -/

/-- The sketch as a program whose states remember when the work is to be over. -/
def program : Interleaving.Program Stmt (System × ℕ) where
  exec stmt σ σ' pushed :=
    (σ.1.asleep = false ∧ σ.1.pending = false ∧ ∃ now, σ.1.Now now ∧
      (stmt = .addEvents → now = σ.1.sysTime) ∧ exec now σ.1 stmt = (σ'.1, pushed)) ∧
        Timely σ.1 σ'.1 σ.2 σ'.2
  env _ σ σ' :=
    (tick σ.1.toSystem = some σ'.1.toSystem ∨ interrupt σ.1.toSystem = some σ'.1.toSystem) ∧
      σ'.1.dt = σ.1.dt ∧ Timely σ.1 σ'.1 σ.2 σ'.2
  loop := loop

/-- A step of a timely run is one of the program. -/
theorem step_program {x y : (List Stmt × System) × ℕ} (h : TimelyStep x y) :
    program.Step (x.1.1, x.1.2, x.2) (y.1.1, y.1.2, y.2) := by
  obtain ⟨⟨code, s⟩, deadline⟩ := x
  obtain ⟨⟨code', s'⟩, deadline'⟩ := y
  obtain ⟨⟨a, hact, hclock⟩, htimely⟩ := h
  rcases act_cases hact with ⟨rfl, hdt, henv⟩ | ⟨now, rfl, hawake, hpending, hnow, hexec⟩
  · exact .env ⟨henv, hdt, htimely⟩
  · rcases hexec with ⟨rfl, rfl, rfl⟩ | ⟨stmt, rest, rfl, rfl, rfl⟩
    · obtain rfl : deadline' = deadline := htimely.1.trans (if_neg (not_idle hawake))
      exact .again
    · refine .exec ⟨⟨hawake, hpending, now, hnow, fun hstmt ↦ ?_, rfl⟩, htimely⟩
      exact hclock (congrArg some hstmt) now rfl

theorem TimelyRun.run {c₀ c : List Stmt × System} {deadline₀ deadline : ℕ}
    (h : TimelyRun c₀ deadline₀ c deadline) :
    Relation.ReflTransGen program.Step (c₀.1, c₀.2, deadline₀) (c.1, c.2, deadline) :=
  h.lift (fun x ↦ (x.1.1, x.1.2, x.2)) fun _ _ hstep ↦ step_program hstep

theorem TimelyRun.reachable {r : Rtc} {c : List Stmt × System} {deadline₀ deadline : ℕ}
    (h : TimelyRun (setup, powerUp r) deadline₀ c deadline) : Reachable r c :=
  h.lift Prod.fst fun _ _ hstep ↦ hstep.1.imp fun _ ha ↦ ha.1

/-- A run of given actions, as long as it is timely. -/
def runTimely : List Action → (List Stmt × System) × ℕ → Option ((List Stmt × System) × ℕ)
  | [], x => some x
  | a :: actions, x =>
    (act a x.1).bind fun c ↦
      if ReadsClock a x.1 ∧ Timely x.1.2 c.2 x.2 (deadlineAfter x.1.2 c.2 x.2) then
        runTimely actions (c, deadlineAfter x.1.2 c.2 x.2)
      else none

theorem timelyRun_of_runTimely {actions : List Action} {c₀ c : List Stmt × System}
    {deadline₀ deadline : ℕ}
    (h : runTimely actions (c₀, deadline₀) = some (c, deadline)) :
    TimelyRun c₀ deadline₀ c deadline := by
  unfold TimelyRun
  generalize (c₀, deadline₀) = x at h ⊢
  induction actions generalizing x with
  | nil =>
    cases h
    exact .refl
  | cons a actions ih =>
    obtain ⟨c₁, hact, hrest⟩ := Option.bind_eq_some_iff.1 h
    split at hrest
    · next htimely => exact .head ⟨⟨a, hact, htimely.1⟩, htimely.2⟩ (ih _ hrest)
    · cases hrest

end Machine.Debug
