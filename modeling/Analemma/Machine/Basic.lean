import Analemma.Foundation.Interleaving
import Analemma.Schedule.HatchEvent

/-!
# The running sketch

One step relation for the sketch and the clock chip: the code of `setup` and then of `loop`,
statement by statement, the ticks of the clock, and the interrupt routine `alarmFunction`, which
runs on each falling edge of the chip's interrupt pin. A tick may come between any two statements.

* The chip raises the flag of an alarm when its registers match the new second, armed or not, and
  the flag stays up until it is cleared; the pin is low while the flag of an armed alarm is up
  (`Rtc.intLow`). A raised flag carries the instant of the match that raised it: the code only asks
  whether the flag is up, and the record of the hatch's moves says which match each belongs to.
* The interrupt routine runs before the next statement, and it is what ends `powerDown`.
* `now()` returns an instant between the last reading of the clock and the present: the system time
  goes on between two readings, but not faster than the clock.

The sketches `analemma_1`, `analemma_3` and `analemma_release` are `Sketch`es. The journal and the
texts sent to the serial port have no part in the control of the hatch; a call of `readJournal` or
`updateJournal` is a statement that takes its time.

Reading the definitions:

* `Stmt` is the code at the grain at which a tick may fall. The library's `setAlarm1` and
  `setAlarm2` are split into their transfers (`Sketch.setAlarms` has six statements), so that there
  are runs with a match between two of them.
* `Rtc.time_mem` keeps the clock inside its calendar: a tick past the end of 2099 is not a step, and
  nothing is claimed about what follows.
* `System.cause` and `System.moves` are for the statements of the theorems only. No statement reads
  them, so that they cannot influence what the sketch does.
* `program` hands the same step to `Interleaving.Program`, with a condition on the ticks; the run
  lemmas of the later modules are outlines of that program.

The configurations of all runs are `Reachable`. `ReachableIf` restricts the ticks by a condition on
the state before them, for the results that need the clock to leave the code its time.
-/

namespace Machine

open DS3231 Schedule

/-! ### The hatch -/

/-- `enum Toggle`, the argument of `toggleMotor`: which of its two ends the hatch is swept to. -/
inductive Toggle where
  | Close
  | Open
deriving DecidableEq, Repr

/-- The value of the enumeration, which the sketch multiplies by 180 to get the last angle of a
sweep: 0 is closed and 180 is open. -/
def Toggle.toInt : Toggle → ℤ
  | Close => 0
  | Open => 1

/-- The loop of `toggleMotor` from `pos` on, and the last write after it. Each round moves one step,
so a bound on the number of rounds is not reached. -/
def sweepFrom (stop incr : ℤ) : ℕ → ℤ → List ℤ
  | 0, _ => []
  | rounds + 1, pos => if pos ≠ stop then pos :: sweepFrom stop incr rounds (pos + incr) else [stop]

/-- The angles `toggleMotor` writes, in order: from the other end of the range, one degree at a
time, up to and with the end the hatch is to reach. A sweep begins at the far end also when the
hatch is already where it is to go. -/
def sweep (toggle : Toggle) : List ℤ :=
  sweepFrom (toggle.toInt * 180) (if toggle = .Open then 1 else -1) 181 ((1 - toggle.toInt) * 180)

/-! ### The code -/

/-- A statement of `setup` or `loop`, or of what they call. Each is one step of the machine, and a
tick or an interrupt may come between any two. -/
inductive Stmt where
  /-- `motor.write(angle)`. -/
  | write (angle : ℤ)
  /-- The call of `toggleMotor`, which pushes the writes of its sweep. -/
  | toggleMotor (toggle : Toggle)
  /-- The listing of the journal at the start of `setup`. -/
  | readJournal
  /-- The record written at the end of `makeSchedule`. -/
  | updateJournal
  /-- `clock.begin()`, `enable32kHz(false)` and `enableOutput(false)`. -/
  | beginClock
  /-- `clock.armAlarm1(armed)`, the enable bit of the first alarm. -/
  | armAlarm1 (armed : Bool)
  /-- `clock.armAlarm2(armed)`, the enable bit of the second alarm. -/
  | armAlarm2 (armed : Bool)
  /-- `clock.clearAlarm1()`. -/
  | clearAlarm1
  /-- `clock.clearAlarm2()`. -/
  | clearAlarm2
  /-- The registers that `setAlarm1` writes, from `nextEvent.closeTime`. -/
  | writeAlarm1
  /-- The registers that `setAlarm2` writes, from `nextEvent.openTime`. -/
  | writeAlarm2
  /-- `attachInterrupt`, for falling edges of the pin. -/
  | attachInterrupt
  /-- `refreshDate`, which sets the system time from the clock's registers. -/
  | refreshDate
  /-- `nextEvent = HatchEvent()`. -/
  | resetNextEvent
  /-- A call of `addEvent`, with the arguments of its line. -/
  | addEvent (e : AddEvent)
  /-- `isAlarm = false`. -/
  | clearIsAlarm
  /-- `if (isAlarm)`. -/
  | ifIsAlarm
  /-- `if (clock.isAlarm1())`. -/
  | ifAlarm1
  /-- `if (clock.isAlarm2())`. -/
  | ifAlarm2
  /-- `powerDown`: the code goes on after the next interrupt. -/
  | powerDown
deriving DecidableEq, Repr

/-- What tells one sketch from another. The rest of the code, `loop` and `setAlarms` among it, is
the same in all three and stands in `namespace Sketch`. -/
structure Sketch where
  /-- The calls of `addEvent`. -/
  table : List AddEvent
  /-- The first statements of `setup`. -/
  start : List Stmt
  /-- The statements of `setup` between `attachInterrupt` and `makeSchedule`. -/
  beforeSchedule : List Stmt
  /-- The statements of `makeSchedule` after `setAlarms`. -/
  afterAlarms : List Stmt
deriving Repr

/-- `analemma_1` and `analemma_3`, with any table: the two differ in their calls of `addEvent` only,
and what is proved of `withTable` holds of both. -/
def Sketch.withTable (table : List AddEvent) : Sketch where
  table := table
  start := [.write 0, .readJournal, .beginClock]
  beforeSchedule := [.refreshDate]
  afterAlarms := [.updateJournal]

/-- `analemma_1`, with the lines for the brightening, the analemma and the four yearly dates. -/
def analemma1 : Sketch := .withTable analemma1Table

/-- `analemma_3`, the same code with its own table. -/
def analemma3 : Sketch := .withTable analemma3Table

/-- `analemma_release`, which keeps no journal and sweeps the hatch to its closed end at the
start. -/
def analemmaRelease : Sketch where
  table := releaseTable
  start := [.beginClock]
  beforeSchedule := [.toggleMotor .Close]
  afterAlarms := []

namespace Sketch

/-- `setAlarms`; the library's `setAlarm1` and `setAlarm2` write the registers, arm the alarm and
clear its flag. -/
def setAlarms : List Stmt :=
  [.writeAlarm2, .armAlarm2 true, .clearAlarm2, .writeAlarm1, .armAlarm1 true, .clearAlarm1]

/-- `makeSchedule` after its `refreshDate`: the next event is emptied, the lines of the table are
called one after the other, and the alarms are programmed for what is left. -/
def planSchedule (k : Sketch) : List Stmt :=
  .resetNextEvent :: (k.table.map .addEvent ++ (setAlarms ++ k.afterAlarms))

/-- `makeSchedule`, which reads the clock first and then plans. -/
def makeSchedule (k : Sketch) : List Stmt := .refreshDate :: k.planSchedule

/-- `setup` before `makeSchedule`: the statements of the sketch's own, the alarms disarmed and their
flags cleared, and the interrupt attached. -/
def prepare (k : Sketch) : List Stmt :=
  k.start ++ ([.armAlarm1 false, .armAlarm2 false, .clearAlarm1, .clearAlarm2, .attachInterrupt] ++
    k.beforeSchedule)

/-- `setup`: the preparation, a first `makeSchedule`, and `isAlarm = false` at the end, which drops
an interrupt that came meanwhile. -/
def setup (k : Sketch) : List Stmt := k.prepare ++ (k.makeSchedule ++ [.clearIsAlarm])

/-- `loop`: sleep, read the clock after waking, and look at what the interrupt has left. -/
def loop : List Stmt := [.powerDown, .refreshDate, .ifIsAlarm]

/-- The body of `if (isAlarm)`: the mark is taken back first, and then both flags are tested, that
of the closing before that of the opening. -/
def onAlarm : List Stmt := [.clearIsAlarm, .ifAlarm1, .ifAlarm2]

/-- The body of `if (clock.isAlarm1())`: the closing of the hatch, and the next schedule. -/
def onAlarm1 (k : Sketch) : List Stmt := .clearAlarm1 :: .toggleMotor .Close :: k.makeSchedule

/-- The body of `if (clock.isAlarm2())`: the opening of the hatch. The alarm of the closing is
already programmed, so there is nothing to plan. -/
def onAlarm2 : List Stmt := [.clearAlarm2, .toggleMotor .Open]

end Sketch

/-! ### The clock -/

/-- The clock: time, alarm registers, enable bits, and flags with the instant they were raised. -/
structure Rtc where
  time : ℕ
  time_mem : firstInstant ≤ time ∧ time < endInstant
  alarm1 : Alarm1
  alarm2 : Alarm2
  armed1 : Bool
  armed2 : Bool
  a1f : Option ℕ
  a2f : Option ℕ
deriving DecidableEq

namespace Rtc

/-- The interrupt pin is low: the flag of an armed alarm is up. The edge that the controller sees is
the change of this value from `false` to `true`. -/
def intLow (r : Rtc) : Bool := (r.armed1 && r.a1f.isSome) || (r.armed2 && r.a2f.isSome)

/-- A flag after the comparison of its alarm at the instant `t`. A flag that is up stays up, with
the instant of its first match; it is not raised a second time. -/
def raise (flag : Option ℕ) (hit : Prop) [Decidable hit] (t : ℕ) : Option ℕ :=
  flag.or (if hit then some t else none)

/-- The next second, while the clock's calendar lasts. -/
def tick (r : Rtc) : Option Rtc :=
  if h : r.time + 1 < endInstant then
    some { r with
      time := r.time + 1
      time_mem := ⟨r.time_mem.1.trans (Nat.le_succ _), h⟩
      a1f := raise r.a1f (r.alarm1.Matches (r.time + 1)) (r.time + 1)
      a2f := raise r.a2f (r.alarm2.Matches (r.time + 1)) (r.time + 1) }
  else none

end Rtc

/-! ### The whole -/

/-- The state of clock and controller, less the code. The code that is left to run stands beside it,
in the first part of a configuration. -/
structure System where
  /-- The clock chip. -/
  rtc : Rtc
  /-- The interrupt is attached. -/
  attached : Bool
  /-- The controller is in `powerDown`. -/
  asleep : Bool
  /-- A falling edge has been seen, and the interrupt routine has not run yet. -/
  pending : Bool
  /-- The mark of the interrupt routine. -/
  isAlarm : Bool
  /-- The system time as `refreshDate` set it last. -/
  sysTime : UInt32
  /-- The event that `setAlarms` programs. -/
  nextEvent : HatchEvent
  /-- The angles commanded so far, the last one first. -/
  commanded : List ℤ
  /-- The match whose flag was tested last. -/
  cause : Option ℕ
  /-- The calls of `toggleMotor` so far, each with the match it answers. -/
  moves : List (Toggle × Option ℕ)
deriving DecidableEq

/-- A change of the clock, with the edge it makes: an attached interrupt becomes pending when the
pin goes from high to low. -/
def System.setRtc (s : System) (r : Rtc) : System :=
  { s with rtc := r, pending := s.pending || (s.attached && !s.rtc.intLow && r.intLow) }

/-- The system after power-up. The controller starts from nothing; the clock is battery-backed and
in any state, with alarms of an earlier life programmed, armed or raised. -/
def powerUp (r : Rtc) : System where
  rtc := r
  attached := false
  asleep := false
  pending := false
  isAlarm := false
  sysTime := 0
  nextEvent := .empty
  commanded := []
  cause := none
  moves := []

/-- `clock.isAlarm1()` clears the flag it finds, and the match `t` that had raised it becomes the
cause of the moves that follow. -/
def System.takeAlarm1 (s : System) (t : ℕ) : System :=
  { s.setRtc { s.rtc with a1f := none } with cause := some t }

/-- `clock.isAlarm2()`, likewise for the flag of the opening. -/
def System.takeAlarm2 (s : System) (t : ℕ) : System :=
  { s.setRtc { s.rtc with a2f := none } with cause := some t }

/-- What a statement does, with the value that `now()` returns in it, and the code it pushes: the
body of a branch, or the writes of a sweep. -/
def exec (k : Sketch) (now : UInt32) (s : System) : Stmt → System × List Stmt
  | .write angle => ({ s with commanded := angle :: s.commanded }, [])
  | .toggleMotor toggle =>
    ({ s with moves := s.moves ++ [(toggle, s.cause)] }, (sweep toggle).map .write)
  | .readJournal => (s, [])
  | .updateJournal => (s, [])
  | .beginClock => (s, [])
  | .armAlarm1 armed => (s.setRtc { s.rtc with armed1 := armed }, [])
  | .armAlarm2 armed => (s.setRtc { s.rtc with armed2 := armed }, [])
  | .clearAlarm1 => (s.setRtc { s.rtc with a1f := none }, [])
  | .clearAlarm2 => (s.setRtc { s.rtc with a2f := none }, [])
  | .writeAlarm1 => (s.setRtc { s.rtc with alarm1 := s.nextEvent.alarm1 }, [])
  | .writeAlarm2 => (s.setRtc { s.rtc with alarm2 := s.nextEvent.alarm2 }, [])
  | .attachInterrupt => ({ s with attached := true }, [])
  | .refreshDate => ({ s with sysTime := systemTime (getDateTime (timeRegisters s.rtc.time)) }, [])
  | .resetNextEvent => ({ s with nextEvent := .empty }, [])
  | .addEvent e => ({ s with nextEvent := Schedule.addEvent now s.nextEvent e }, [])
  | .clearIsAlarm => ({ s with isAlarm := false }, [])
  | .ifIsAlarm => (s, if s.isAlarm then Sketch.onAlarm else [])
  | .ifAlarm1 =>
    match s.rtc.a1f with
    | some t => (s.takeAlarm1 t, k.onAlarm1)
    | none => (s, [])
  | .ifAlarm2 =>
    match s.rtc.a2f with
    | some t => (s.takeAlarm2 t, Sketch.onAlarm2)
    | none => (s, [])
  | .powerDown => ({ s with asleep := true }, [])

/-- `now()` returns an instant between the last reading of the clock and the present. -/
def System.Now (s : System) (now : UInt32) : Prop :=
  s.sysTime.toNat ≤ now.toNat ∧ now.toNat ≤ s.rtc.time

instance (s : System) (now : UInt32) : Decidable (s.Now now) :=
  inferInstanceAs (Decidable (_ ∧ _))

/-- What can happen next. A run is any sequence of these that `act` allows: there is no scheduler,
and no bound on how long the clock may be ahead of the code. -/
inductive Action where
  /-- The clock goes on by a second. -/
  | tick
  /-- The interrupt routine `alarmFunction` runs. -/
  | interrupt
  /-- The next statement is executed. -/
  | exec (now : UInt32)
deriving DecidableEq, Repr

/-- A tick of the clock, as a step of the whole: it may raise a flag, and with it the interrupt. -/
def tick (s : System) : Option System := s.rtc.tick.map s.setRtc

/-- `alarmFunction`, which sets `isAlarm` and also ends `powerDown`. It runs once for each edge that
is pending, however many flags are up by then. -/
def interrupt (s : System) : Option System :=
  if s.pending then some { s with pending := false, isAlarm := true, asleep := false } else none

/-- A step of clock and controller. The code is what is left of `setup` or of a round of `loop`;
when nothing is left, the next round begins. A statement waits while the controller sleeps, and
while an interrupt is pending. -/
def act (k : Sketch) (a : Action) (c : List Stmt × System) : Option (List Stmt × System) :=
  match a with
  | .tick => (tick c.2).map (c.1, ·)
  | .interrupt => (interrupt c.2).map (c.1, ·)
  | .exec now =>
    if c.2.asleep = false ∧ c.2.pending = false ∧ c.2.Now now then
      match c.1 with
      | [] => some (Sketch.loop, c.2)
      | stmt :: code => some ((exec k now c.2 stmt).2 ++ code, (exec k now c.2 stmt).1)
    else none

/-- The step relation: one of the actions, whichever is possible in the configuration. -/
def Step (k : Sketch) (c c' : List Stmt × System) : Prop := ∃ a, act k a c = some c'

/-! ### What one step can do -/

section SetRtc

variable (s : System) (r : Rtc)

@[simp] theorem rtc_setRtc : (s.setRtc r).rtc = r := rfl
@[simp] theorem attached_setRtc : (s.setRtc r).attached = s.attached := rfl
@[simp] theorem asleep_setRtc : (s.setRtc r).asleep = s.asleep := rfl
@[simp] theorem isAlarm_setRtc : (s.setRtc r).isAlarm = s.isAlarm := rfl
@[simp] theorem sysTime_setRtc : (s.setRtc r).sysTime = s.sysTime := rfl
@[simp] theorem nextEvent_setRtc : (s.setRtc r).nextEvent = s.nextEvent := rfl
@[simp] theorem commanded_setRtc : (s.setRtc r).commanded = s.commanded := rfl
@[simp] theorem moves_setRtc : (s.setRtc r).moves = s.moves := rfl
@[simp] theorem cause_setRtc : (s.setRtc r).cause = s.cause := rfl

/-- The one field besides the clock that a change of the clock can touch: a falling edge of the pin,
once the interrupt is attached. -/
theorem pending_setRtc :
    (s.setRtc r).pending = (s.pending || (s.attached && !s.rtc.intLow && r.intLow)) := rfl

end SetRtc

namespace Rtc

variable {hit : Prop} [Decidable hit] {t : ℕ}

/-- A flag that is down is raised by a match, with the instant of it. -/
theorem raise_none (h : hit) : raise none hit t = some t := by
  rw [raise, if_pos h, Option.none_or]

/-- Where the registers do not match, the flag stays as it is. -/
theorem raise_of_not (flag : Option ℕ) (h : ¬ hit) : raise flag hit t = flag := by
  rw [raise, if_neg h, Option.or_none]

end Rtc

/-- The effect of a tick on the clock: the time goes on, and flags may go up. -/
theorem Rtc.tick_eq_some {r r' : Rtc} (h : r.tick = some r') :
    r'.time = r.time + 1 ∧ r'.alarm1 = r.alarm1 ∧ r'.alarm2 = r.alarm2 ∧
      r'.armed1 = r.armed1 ∧ r'.armed2 = r.armed2 ∧
      r'.a1f = Rtc.raise r.a1f (r.alarm1.Matches (r.time + 1)) (r.time + 1) ∧
      r'.a2f = Rtc.raise r.a2f (r.alarm2.Matches (r.time + 1)) (r.time + 1) := by
  unfold Rtc.tick at h
  split at h
  · cases h
    exact ⟨rfl, rfl, rfl, rfl, rfl, rfl, rfl⟩
  · cases h

/-- The effect of a tick on the whole is one on the clock. -/
theorem tick_eq_some {s s' : System} (h : tick s = some s') :
    ∃ r, s.rtc.tick = some r ∧ s' = s.setRtc r := by
  obtain ⟨r, hr, rfl⟩ := Option.map_eq_some_iff.1 h
  exact ⟨r, hr, rfl⟩

/-- The effect of the interrupt routine: the pending edge is used up, `isAlarm` is set, and the
controller is awake. -/
theorem interrupt_eq_some {s s' : System} (h : interrupt s = some s') :
    s.pending = true ∧ s' = { s with pending := false, isAlarm := true, asleep := false } := by
  unfold interrupt at h
  split at h
  · next hp => exact ⟨hp, (Option.some.inj h).symm⟩
  · cases h

/-- `refreshDate` sets the system time and nothing else: what holds with every system time holds
after it. -/
theorem of_forall_sysTime {P : System → Prop} (k : Sketch) (now : UInt32) {s : System}
    (h : ∀ sysTime, P { s with sysTime := sysTime }) : P (exec k now s .refreshDate).1 := h _

/-- The sketch as a program in an environment of ticks, which happen under a condition only, and of
the interrupt routine. -/
def program (k : Sketch) (Meets : List Stmt → System → Prop) :
    Interleaving.Program Stmt System where
  exec stmt s s' pushed :=
    s.asleep = false ∧ s.pending = false ∧ ∃ now, s.Now now ∧ exec k now s stmt = (s', pushed)
  env code s s' := interrupt s = some s' ∨ (tick s = some s' ∧ Meets code s)
  loop := Sketch.loop

/-- Every action is a step of the program, the ticks among them as long as they meet the condition:
the run lemmas of `Interleaving` apply to runs of the sketch. -/
theorem step_program {k : Sketch} {Meets : List Stmt → System → Prop} {a : Action}
    {c c' : List Stmt × System} (h : act k a c = some c')
    (hmeets : a = .tick → Meets c.1 c.2) : (program k Meets).Step c c' := by
  obtain ⟨code, s⟩ := c
  cases a with
  | tick =>
    obtain ⟨s', hs', rfl⟩ := Option.map_eq_some_iff.1 h
    exact .env (Or.inr ⟨hs', hmeets rfl⟩)
  | interrupt =>
    obtain ⟨s', hs', rfl⟩ := Option.map_eq_some_iff.1 h
    exact .env (Or.inl hs')
  | exec now =>
    simp only [act] at h
    split at h
    · next hready =>
      cases code with
      | nil =>
        cases h
        exact .again
      | cons stmt code =>
        cases h
        exact .exec ⟨hready.1, hready.2.1, now, hready.2.2, rfl⟩
    · cases h

/-! ### Runs -/

/-- The configurations a sketch can reach from power-up with the clock in the state `r`. -/
def Reachable (k : Sketch) (r : Rtc) (c : List Stmt × System) : Prop :=
  Relation.ReflTransGen (Step k) (k.setup, powerUp r) c

/-- The configurations of runs whose ticks all meet a condition on the state before them. -/
def ReachableIf (k : Sketch) (Meets : List Stmt → System → Prop) (r : Rtc)
    (c : List Stmt × System) : Prop :=
  Relation.ReflTransGen
    (fun c c' ↦ ∃ a, act k a c = some c' ∧ (a = .tick → Meets c.1 c.2)) (k.setup, powerUp r) c

/-- A run under a condition is a run of the program, from `setup` on. -/
theorem ReachableIf.run {k : Sketch} {Meets : List Stmt → System → Prop} {r : Rtc}
    {c : List Stmt × System} (h : ReachableIf k Meets r c) :
    Relation.ReflTransGen (program k Meets).Step (k.setup, powerUp r) c := by
  refine h.lift id fun c c' hstep ↦ ?_
  obtain ⟨a, hact, hmeets⟩ := hstep
  exact step_program hact hmeets

/-- A run of given actions, as long as the ticks among them meet a condition. It is the executable
side of `ReachableIf`: the concrete runs of the examples are evaluated with it. -/
def runActions (k : Sketch) (Meets : List Stmt → System → Prop)
    [∀ code, DecidablePred (Meets code)] :
    List Action → List Stmt × System → Option (List Stmt × System)
  | [], c => some c
  | a :: actions, c =>
    if a = .tick → Meets c.1 c.2 then (act k a c).bind (runActions k Meets actions) else none

/-- What `runActions` evaluates to is reachable, for every list of actions. -/
theorem reachableIf_of_runActions {k : Sketch} {Meets : List Stmt → System → Prop}
    [∀ code, DecidablePred (Meets code)] {r : Rtc} {actions : List Action}
    {c : List Stmt × System} (h : runActions k Meets actions (k.setup, powerUp r) = some c) :
    ReachableIf k Meets r c := by
  unfold ReachableIf
  generalize (k.setup, powerUp r) = c₀ at h ⊢
  -- on the actions, from any configuration: the first one is a step of the run
  induction actions generalizing c₀ with
  | nil =>
    cases h
    exact .refl
  | cons a actions ih =>
    rw [runActions] at h
    split at h
    · next hmeets =>
      obtain ⟨c₁, hact, hrest⟩ := Option.bind_eq_some_iff.1 h
      exact .head ⟨a, hact, hmeets⟩ (ih c₁ hrest)
    · cases h

/-- A run under a condition is a run. What holds in every reachable configuration holds there
too. -/
theorem ReachableIf.reachable {k : Sketch} {Meets : List Stmt → System → Prop} {r : Rtc}
    {c : List Stmt × System} (h : ReachableIf k Meets r c) : Reachable k r c := by
  refine h.lift id fun c c' hstep ↦ ?_
  obtain ⟨a, hact, -⟩ := hstep
  exact ⟨a, hact⟩

/-- A table with one line, at ten o'clock for two minutes. -/
def tenOClock : List AddEvent := [.daily 10 0 120]

/-- A clock with empty registers and no flag up. -/
def clockAt (t : ℕ) (h : firstInstant ≤ t ∧ t < endInstant) : Rtc where
  time := t
  time_mem := h
  alarm1 := ⟨0, 0, 0, 0⟩
  alarm2 := ⟨0, 0, 0⟩
  armed1 := false
  armed2 := false
  a1f := none
  a2f := none

/-- Two seconds before ten on New Year's Day 2000. -/
def beforeTen : Rtc := clockAt 946720798 (by decide)

end Machine
