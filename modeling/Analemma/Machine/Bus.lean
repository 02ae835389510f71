import Analemma.Foundation.Simulation
import Analemma.Machine.Exposure
import Analemma.Machine.Registers

/-!
# The sketch on the bus

In `Machine` a call of the clock's library is one statement. Here the sketch runs with the
transactions of the library on the bus, each a step of its own: a register is read into a local
variable, and written back later, and ticks and interrupts come in between (`Instr`). `isAlarm1` and
`isAlarm2` read the status register once to test the flag, and a second time to clear it.

What a statement does in `Machine` it does here when it writes back last: the reads, and the other
writes, change nothing that the clock shows (`Does`). That is so as long as no alarm goes off at the
wrong time, between the reading and the writing of the status register, whose flag the library would
then clear by mistake (`Quiet`). Under this condition the runs on the bus are runs of `Machine`
(`reachable_of_quiet`), and the hatch follows the calendar (`kept_of_quiet`).

A burst of registers, in which the library reads the time and writes an alarm, is one transaction.
From `enableOutput(false)` on, the pin of the chip carries the alarms; before, when it carries a
square wave, the interrupt is not attached.

The relation between the two machines is `Doing`: the statement that is under way, which `Machine`
has still to execute or has executed already, and the steps of it that are left. A statement of
several functions takes effect with the last byte that is written back. A test that succeeds takes
effect when the flag is cleared, and one that fails with the reading of the register, so the two
constructors `found` and `notFound` stand on different sides of the statement.

* `Fresh` is the invariant of the byte in the local variable: since it was read, the chip has not
  raised a flag that writing the byte back would clear.
* `exec_of_act` and `step_of_act` are the step lemmas, and `Simulation.Forward` makes runs of them.
* `Quiet` restricts the ticks and nothing else. A run that is not quiet may lose an alarm;
  `writeBack_eq_effect_iff` says when, and no claim is made here about such a run.
-/

namespace Machine.Bus

open Schedule

/-! ### Transactions -/

/-- What is executed in one step: a transaction on the bus, or a statement that has none or a single
one. -/
inductive Instr where
  /-- A statement in which there is at most one transaction. -/
  | stmt (s : Stmt)
  /-- `value = readRegister8(reg)`. -/
  | read (reg : Register)
  /-- `writeRegister8(reg, value)`, with the bits of the local variable changed. -/
  | writeBack (m : Modify)
  /-- The test of `isAlarm1` or `isAlarm2`. -/
  | test (a : Alarm)
  /-- The flag that `isAlarm1` or `isAlarm2` has found is cleared, and the test of the sketch
  succeeds. -/
  | take (a : Alarm)
deriving DecidableEq, Repr

/-- The transactions of a function that changes a register: first it is read, and then it is written
back. -/
def transactions (m : Modify) : List Instr := [.read m.reg, .writeBack m]

/-- The functions that a statement calls to change a register, in order. `beginClock` calls three,
`setBattery` among them through the library's `begin`. -/
def modifies : Stmt → List Modify
  | .beginClock => [setBattery true false, enable32kHz false, enableOutput false]
  | .armAlarm1 armed => [armAlarm1 armed]
  | .armAlarm2 armed => [armAlarm2 armed]
  | .clearAlarm1 => [clearAlarm1]
  | .clearAlarm2 => [clearAlarm2]
  | _ => []

/-- The steps of a statement. The two tests read the status register; a statement that changes
registers is taken apart; and any other one is a step as it is. -/
def instrs : Stmt → List Instr
  | .ifAlarm1 => [.read .status, .test .one]
  | .ifAlarm2 => [.read .status, .test .two]
  | stmt => if modifies stmt = [] then [.stmt stmt] else (modifies stmt).flatMap transactions

/-- What is executed if an alarm is found: the body of the sketch's test. -/
def onAlarm (k : Sketch) : Alarm → List Stmt
  | .one => k.onAlarm1
  | .two => Sketch.onAlarm2

/-! ### The sketch on the bus -/

/-- The steps left of a statement, the statements after it, controller and clock, the rest of the
chip's registers, and the local variable of the library's functions. One variable is enough, since
the calls do not nest. -/
structure Config where
  doing : List Instr
  code : List Stmt
  system : System
  upperControl : UInt8
  upperStatus : UInt8
  value : UInt8
deriving DecidableEq

namespace Config

def chip (x : Config) : Chip := ⟨x.system.rtc, x.upperControl, x.upperStatus⟩

/-- A change of the chip. -/
def setChip (x : Config) (c : Chip) : Config :=
  { x with
    system := x.system.setRtc c.rtc
    upperControl := c.upperControl
    upperStatus := c.upperStatus }

/-- After power-up. -/
def powerUp (k : Sketch) (c : Chip) : Config where
  doing := []
  code := k.setup
  system := Machine.powerUp c.rtc
  upperControl := c.upperControl
  upperStatus := c.upperStatus
  value := 0

end Config

/-- What a step does. The test of a flag looks at the byte that was read, and not at the chip; if
the bit is set, the register is read again to clear the flag. -/
def execInstr (k : Sketch) (now : UInt32) (x : Config) : Instr → Config
  | .stmt stmt =>
    { x with
      system := (exec k now x.system stmt).1
      code := (exec k now x.system stmt).2 ++ x.code }
  | .read reg => { x with value := x.chip.read reg }
  | .writeBack m => x.setChip (x.chip.write (m.value x.value) m.reg)
  | .test a => if bit x.value a.index then { x with doing := [.read .status, .take a] } else x
  | .take a =>
    let y := x.setChip (x.chip.write ((clearAlarm a).value x.value) .status)
    { y with
      system := { y.system with cause := x.system.rtc.flag a }
      code := onAlarm k a ++ x.code }

/-- What can happen next. A tick, the end of a conversion and the interrupt may come between any two
transactions. -/
inductive Action where
  | tick
  /-- The chip begins or ends to measure its temperature. -/
  | conversion
  | interrupt
  /-- The next step is executed, or the next statement begins. -/
  | exec (now : UInt32)
deriving DecidableEq, Repr

/-- A step. The steps of a statement come before the statement behind it, and the interrupt routine
comes before either. -/
def act (k : Sketch) (a : Action) (x : Config) : Option Config :=
  match a with
  | .tick => x.chip.tick.map x.setChip
  | .conversion => some (x.setChip x.chip.conversion)
  | .interrupt => (interrupt x.system).map fun s ↦ { x with system := s }
  | .exec now =>
    if x.system.asleep = false ∧ x.system.pending = false ∧ x.system.Now now then
      match x.doing, x.code with
      | i :: doing, _ => some (execInstr k now { x with doing := doing } i)
      | [], stmt :: code => some { x with doing := instrs stmt, code := code }
      | [], [] => some { x with code := Sketch.loop }
    else none

/-- What the next step writes back, if it writes: only then has a byte been read that may be out of
date. -/
def writingBack : List Instr → Option Modify
  | .writeBack m :: _ => some m
  | .take a :: _ => some (clearAlarm a)
  | _ => none

/-- No alarm goes off whose flag would be cleared by mistake: if the next step writes back the
status register and means to leave the bit of an alarm as it is, the alarm does not match the next
second, or its flag is up already. -/
def Quiet (x : Config) : Prop :=
  ∀ m ∈ writingBack x.doing, ∀ a, m.Keeps a → x.system.rtc.flag a = none → ¬ x.system.rtc.Due a

instance (x : Config) : Decidable (Quiet x) :=
  match h : writingBack x.doing with
  | none => isTrue (by simp [Quiet, h])
  | some m =>
    decidable_of_iff (∀ a, m.Keeps a → x.system.rtc.flag a = none → ¬ x.system.rtc.Due a)
      (by simp [Quiet, h])

/-- A step, in which a tick is quiet. -/
def Step (k : Sketch) (x y : Config) : Prop := ∃ a, act k a x = some y ∧ (a = .tick → Quiet x)

/-- The configurations of runs with quiet ticks. -/
def QuietRun (k : Sketch) (c : Chip) (x : Config) : Prop :=
  Relation.ReflTransGen (Step k) (.powerUp k c) x

/-! ### What a statement does when it writes back last -/

/-- The last of the functions does what the statement does in `Machine`, and the others do nothing
that the clock shows. It is a list of functions, since one statement stands for all the calls of
`beginClock`. -/
def Does (stmt : Stmt) : List Modify → Prop
  | [] => False
  | [m] => ∀ k now s c, c.rtc = s.rtc → exec k now s stmt = (s.setRtc (m.effect c).rtc, [])
  | m :: ms => (∀ c, (m.effect c).rtc = c.rtc) ∧ Does stmt ms

/-- A clock that is put back as it was makes no edge. -/
theorem setRtc_self (s : System) : s.setRtc s.rtc = s := by
  have hpending : (s.pending || s.attached && !s.rtc.intLow && s.rtc.intLow) = s.pending := by
    cases s.rtc.intLow <;> simp
  rw [System.setRtc, hpending]

/-- **The functions of the library** do what their statements do in `Machine`. -/
theorem does_modifies (stmt : Stmt) (h : modifies stmt ≠ []) : Does stmt (modifies stmt) := by
  -- A statement that changes one bit of a register does on the chip what the bit means to the
  -- clock.
  cases stmt with
  | beginClock =>
    refine ⟨fun c ↦ Modify.rtc_effect_control c rfl, fun c ↦ Modify.rtc_effect_status c rfl, ?_⟩
    intro k now s c hc
    rw [Modify.rtc_effect_control c rfl, hc]
    exact Prod.ext (setRtc_self s).symm rfl
  | armAlarm1 armed =>
    intro k now s c hc
    rw [Modify.rtc_effect_control c rfl, hc]
    cases armed <;> rfl
  | armAlarm2 armed =>
    intro k now s c hc
    rw [Modify.rtc_effect_control c rfl, hc]
    cases armed <;> rfl
  | clearAlarm1 =>
    intro k now s c hc
    rw [Modify.rtc_effect_status c rfl, hc]
    rfl
  | clearAlarm2 =>
    intro k now s c hc
    rw [Modify.rtc_effect_status c rfl, hc]
    rfl
  | _ => exact absurd rfl h

/-! ### The sketch on the bus is the sketch -/

/-- `if (clock.isAlarm1())` or `if (clock.isAlarm2())`. -/
def ifAlarm : Alarm → Stmt
  | .one => .ifAlarm1
  | .two => .ifAlarm2

/-- The byte that was read can still be written back: no flag has been raised since that would be
cleared by mistake. -/
def Fresh (x : Config) (m : Modify) : Prop :=
  ∃ c : Chip, x.value = c.read m.reg ∧ c.GoesOn x.chip ∧
    ∀ a, m.Keeps a → c.rtc.flag a = none → x.system.rtc.flag a = none

/-- The statement that is under way, if it has still to be executed in `Machine`, and the steps left
of it. -/
inductive Doing (x : Config) : List Stmt → List Instr → Prop where
  | nothing : Doing x [] []
  | stmt (stmt : Stmt) : Doing x [stmt] [.stmt stmt]
  | modify {stmt : Stmt} {m : Modify} {ms : List Modify} (h : Does stmt (m :: ms)) :
    Doing x [stmt] ((m :: ms).flatMap transactions)
  | writeBack {stmt : Stmt} {m : Modify} {ms : List Modify} (h : Does stmt (m :: ms))
    (hfresh : Fresh x m) : Doing x [stmt] (.writeBack m :: ms.flatMap transactions)
  | isAlarm (a : Alarm) : Doing x [ifAlarm a] [.read .status, .test a]
  | found {a : Alarm} (hbit : bit x.value a.index = true) (hflag : (x.system.rtc.flag a).isSome) :
    Doing x [ifAlarm a] [.test a]
  /-- The test that fails is over with the reading. -/
  | notFound {a : Alarm} (hbit : bit x.value a.index = false) : Doing x [] [.test a]
  | again {a : Alarm} (hflag : (x.system.rtc.flag a).isSome) :
    Doing x [ifAlarm a] [.read .status, .take a]
  | take {a : Alarm} (hflag : (x.system.rtc.flag a).isSome) (hfresh : Fresh x (clearAlarm a)) :
    Doing x [ifAlarm a] [.take a]

/-- The steps of a statement do the statement, from its beginning. -/
theorem doing_instrs (x : Config) (stmt : Stmt) : Doing x [stmt] (instrs stmt) := by
  have hrest : Doing x [stmt] (if modifies stmt = [] then [.stmt stmt]
      else (modifies stmt).flatMap transactions) := by
    split
    · exact .stmt stmt
    · next hne =>
      have hdoes := does_modifies stmt hne
      obtain ⟨m, ms, heq⟩ := List.exists_cons_of_ne_nil hne
      rw [heq] at hdoes ⊢
      exact .modify hdoes
  cases stmt with
  | ifAlarm1 => exact .isAlarm .one
  | ifAlarm2 => exact .isAlarm .two
  | _ => exact hrest

section Environment

variable {x y : Config} {ops : List Stmt} {m : Modify}

/-- The chip goes on, without raising a flag that would be cleared by mistake. -/
theorem Fresh.goes (h : Fresh x m) (hvalue : y.value = x.value) (hgoes : x.chip.GoesOn y.chip)
    (hquiet : ∀ a, m.Keeps a → x.system.rtc.flag a = none → y.system.rtc.flag a = none) :
    Fresh y m := by
  obtain ⟨c, hread, hgoesOn, hflags⟩ := h
  exact ⟨c, hvalue.trans hread, hgoesOn.trans hgoes,
    fun a hkeeps hnone ↦ hquiet a hkeeps (hflags a hkeeps hnone)⟩

/-- What is under way stays under way while the chip goes on: an old byte stays fresh, and a flag
that has been found stays up. -/
theorem Doing.goes (h : Doing x ops x.doing) (hvalue : y.value = x.value)
    (hgoes : x.chip.GoesOn y.chip)
    (hquiet : ∀ m ∈ writingBack x.doing, ∀ a, m.Keeps a → x.system.rtc.flag a = none →
      y.system.rtc.flag a = none) : Doing y ops x.doing := by
  have hstays : ∀ a, (x.system.rtc.flag a).isSome → (y.system.rtc.flag a).isSome := fun a hflag ↦ by
    rwa [show y.system.rtc.flag a = x.system.rtc.flag a from (hgoes.spec a).2 hflag]
  generalize x.doing = doing at h hquiet
  cases h with
  | nothing => exact .nothing
  | stmt stmt => exact .stmt stmt
  | modify hdoes => exact .modify hdoes
  | writeBack hdoes hfresh =>
    exact .writeBack hdoes (hfresh.goes hvalue hgoes (hquiet _ rfl))
  | isAlarm a => exact .isAlarm a
  | found hbit hflag => exact .found (hvalue ▸ hbit) (hstays _ hflag)
  | notFound hbit => exact .notFound (hvalue ▸ hbit)
  | again hflag => exact .again (hstays _ hflag)
  | take hflag hfresh => exact .take (hstays _ hflag) (hfresh.goes hvalue hgoes (hquiet _ rfl))

end Environment

section Exec

variable {k : Sketch} {now : UInt32} {x y : Config} {ops : List Stmt}

/-- A byte that is still fresh is written back as if it had just been read. -/
theorem Fresh.write {m : Modify} (h : Fresh x m) :
    (x.chip.write (m.value x.value) m.reg).rtc = (m.effect x.chip).rtc := by
  obtain ⟨c, hread, hgoesOn, hflags⟩ := h
  rw [hread]
  exact rtc_writeBack m hgoesOn hflags

/-- A byte is fresh when it has just been read. -/
theorem fresh_read (x : Config) (m : Modify) :
    Fresh { x with value := x.chip.read m.reg } m :=
  ⟨x.chip, rfl, .refl, fun _ _ hnone ↦ hnone⟩

/-- The test of the sketch succeeds when the flag is cleared. -/
theorem exec_ifAlarm {s : System} {a : Alarm} {t : ℕ} (h : s.rtc.flag a = some t) (c : Chip)
    (hc : c.rtc = s.rtc) :
    exec k now s (ifAlarm a) =
      ({ s.setRtc ((clearAlarm a).effect c).rtc with cause := some t }, onAlarm k a) := by
  cases a with
  | one =>
    have hflag : s.rtc.a1f = some t := h
    rw [Modify.rtc_effect_status c rfl, hc]
    simp only [ifAlarm, exec, hflag]
    rfl
  | two =>
    have hflag : s.rtc.a2f = some t := h
    rw [Modify.rtc_effect_status c rfl, hc]
    simp only [ifAlarm, exec, hflag]
    rfl

/-- And it fails when no flag is found. -/
theorem exec_ifAlarm_of_none {s : System} {a : Alarm} (h : s.rtc.flag a = none) :
    exec k now s (ifAlarm a) = (s, []) := by
  cases a with
  | one =>
    have hflag : s.rtc.a1f = none := h
    simp only [ifAlarm, exec, hflag]
  | two =>
    have hflag : s.rtc.a2f = none := h
    simp only [ifAlarm, exec, hflag]

/-- **A step on the bus** is one of the machine, or nothing that the machine sees. By the cases of
`Doing`: the machine's step is the one that writes back last, that clears the flag found, or that
reads a flag which is down. -/
theorem exec_of_act (h : Doing x ops x.doing) (hact : act k (.exec now) x = some y) :
    x.system.asleep = false ∧ ∃ ops', Doing y ops' y.doing ∧
      (Machine.act k (.exec now) (ops ++ x.code, x.system) = some (ops' ++ y.code, y.system) ∨
        ops' ++ y.code = ops ++ x.code ∧ y.system = x.system) := by
  simp only [act] at hact
  split at hact
  · next hready =>
    refine ⟨hready.1, ?_⟩
    -- the machine executes the statement under way
    have hmachine : ∀ stmt, ops = [stmt] → Machine.act k (.exec now) (ops ++ x.code, x.system) =
        some ((exec k now x.system stmt).2 ++ x.code, (exec k now x.system stmt).1) := by
      rintro stmt rfl
      simp only [Machine.act, List.cons_append, List.nil_append]
      rw [if_pos hready]
    obtain ⟨doing, code, system, upperControl, upperStatus, value⟩ := x
    simp only at h hmachine hready hact ⊢
    cases h with
    | nothing =>
      cases code with
      | nil =>
        cases hact
        refine ⟨[], .nothing, .inl ?_⟩
        simp only [Machine.act, List.nil_append]
        rw [if_pos hready]
      | cons stmt code =>
        cases hact
        exact ⟨[stmt], doing_instrs _ stmt, .inr ⟨rfl, rfl⟩⟩
    | stmt stmt =>
      cases hact
      exact ⟨[], .nothing, .inl (hmachine stmt rfl)⟩
    | modify hdoes =>
      cases hact
      exact ⟨_, .writeBack hdoes (fresh_read _ _), .inr ⟨rfl, rfl⟩⟩
    | @writeBack stmt m ms hdoes hfresh =>
      cases hact
      cases ms with
      | nil =>
        refine ⟨[], .nothing, .inl ?_⟩
        rw [hmachine stmt rfl, hdoes k now system ⟨system.rtc, upperControl, upperStatus⟩ rfl]
        exact congrArg (fun r ↦ some (code, system.setRtc r)) hfresh.write.symm
      | cons m' ms =>
        refine ⟨[stmt], .modify hdoes.2, .inr ⟨rfl, ?_⟩⟩
        have hsame := hfresh.write.trans (hdoes.1 _)
        exact (congrArg system.setRtc hsame).trans (setRtc_self system)
    | isAlarm a =>
      cases hact
      have hbit := bit_read_status ⟨system.rtc, upperControl, upperStatus⟩ a
      cases hflag : system.rtc.flag a with
      | none =>
        refine ⟨[], .notFound (hbit.trans (by rw [hflag]; rfl)), .inl ?_⟩
        rw [hmachine (ifAlarm a) rfl, exec_ifAlarm_of_none hflag]
        rfl
      | some t =>
        have hisSome : (system.rtc.flag a).isSome = true := by rw [hflag]; rfl
        exact ⟨_, .found (hbit.trans hisSome) hisSome, .inr ⟨rfl, rfl⟩⟩
    | @found a hbit hflag =>
      cases hact
      simp only [execInstr, if_pos hbit]
      exact ⟨_, .again hflag, .inr ⟨rfl, trivial⟩⟩
    | @notFound a hbit =>
      cases hact
      have hnot : ¬ bit value a.index = true := by simp [hbit]
      simp only [execInstr, if_neg hnot]
      exact ⟨_, .nothing, .inr ⟨rfl, trivial⟩⟩
    | @again a hflag =>
      cases hact
      have hreg : (clearAlarm a).reg = .status := by cases a <;> rfl
      refine ⟨_, .take hflag ?_, .inr ⟨rfl, rfl⟩⟩
      simp only [execInstr, ← hreg]
      exact fresh_read _ _
    | @take a hflag hfresh =>
      cases hact
      have hreg : (clearAlarm a).reg = .status := by cases a <;> rfl
      obtain ⟨t, ht⟩ := Option.isSome_iff_exists.1 hflag
      refine ⟨[], .nothing, .inl ?_⟩
      rw [hmachine (ifAlarm a) rfl,
        exec_ifAlarm ht ⟨system.rtc, upperControl, upperStatus⟩ rfl]
      have hwrite := hfresh.write
      rw [hreg] at hwrite
      refine Option.some_inj.2 (Prod.ext rfl ?_)
      simp only [execInstr, Config.setChip, ← ht]
      exact congrArg (fun r ↦ { system.setRtc r with cause := system.rtc.flag a }) hwrite.symm
  · cases hact

/-- **A step on the bus** is a step of the machine, or the machine does not see it. A tick is a tick
in both; a conversion is none in the machine. -/
theorem step_of_act {a : Action} (h : Doing x ops x.doing) (hact : act k a x = some y)
    (hquiet : a = .tick → Quiet x) :
    ∃ ops', Doing y ops' y.doing ∧
      (a ≠ .conversion ∧ Machine.Step k (ops ++ x.code, x.system) (ops' ++ y.code, y.system) ∨
        (a = .conversion ∨ x.system.asleep = false) ∧ ops' ++ y.code = ops ++ x.code ∧
          y.system = x.system) := by
  -- The chip's own steps go on beside the statement; a step of the controller is either the
  -- statement's effect or a stage of it.
  cases a with
  | tick =>
    obtain ⟨c, hc, rfl⟩ := Option.map_eq_some_iff.1 hact
    have hgoes : x.chip.GoesOn (x.setChip c).chip := .single (.inl hc)
    obtain ⟨r, hr, rfl⟩ := Option.map_eq_some_iff.1 hc
    refine ⟨ops, h.goes rfl hgoes fun m hm a hkeeps hnone ↦ ?_, .inl ⟨nofun, .tick, ?_⟩⟩
    · refine (flag_of_tick hr a).trans ?_
      exact (Rtc.raise_of_not _ (hquiet rfl m hm a hkeeps hnone)).trans hnone
    · exact Option.map_eq_some_iff.2 ⟨_, Option.map_eq_some_iff.2 ⟨r, hr, rfl⟩, rfl⟩
  | conversion =>
    cases hact
    have hsame : (x.setChip x.chip.conversion).system = x.system := setRtc_self x.system
    have hgoes : x.chip.GoesOn (x.setChip x.chip.conversion).chip := .single (.inr rfl)
    refine ⟨ops, h.goes rfl hgoes fun m hm a hkeeps hnone ↦ ?_, .inr ⟨.inl rfl, rfl, hsame⟩⟩
    rwa [hsame]
  | interrupt =>
    obtain ⟨s, hs, rfl⟩ := Option.map_eq_some_iff.1 hact
    have hstep : Machine.Step k (ops ++ x.code, x.system) (ops ++ x.code, s) :=
      ⟨.interrupt, Option.map_eq_some_iff.2 ⟨s, hs, rfl⟩⟩
    obtain ⟨-, rfl⟩ := interrupt_eq_some hs
    exact ⟨ops, h.goes rfl .refl fun m hm a hkeeps hnone ↦ hnone, .inl ⟨nofun, hstep⟩⟩
  | exec now =>
    obtain ⟨hawake, ops', hdoing, hmachine | hstays⟩ := exec_of_act h hact
    · exact ⟨ops', hdoing, .inl ⟨nofun, .exec now, hmachine⟩⟩
    · exact ⟨ops', hdoing, .inr ⟨.inr hawake, hstays⟩⟩

end Exec

/-! ### Whole runs -/

/-- The configuration as one of `Machine`. -/
def Shows (x : Config) (c : List Stmt × System) : Prop :=
  ∃ ops, Doing x ops x.doing ∧ c = (ops ++ x.code, x.system)

/-- The sketch on the bus as a refinement of the machine, step by step. The steps that the machine
does not see are matched by none. -/
theorem forward_step (k : Sketch) : Simulation.Forward (Step k) (Machine.Step k) Shows := by
  rintro x y _ ⟨ops, hdoing, rfl⟩ ⟨a, hact, hquiet⟩
  obtain ⟨ops', hdoing', ⟨-, hstep⟩ | ⟨-, hcode, hsystem⟩⟩ := step_of_act hdoing hact hquiet
  · exact ⟨_, .single hstep, ops', hdoing', rfl⟩
  · exact ⟨_, .refl, ops', hdoing', by rw [hcode, hsystem]⟩

/-- **Every quiet run on the bus is a run of the machine**, with the statement that is under way
before it or behind it. -/
theorem reachable_of_quiet {k : Sketch} {c : Chip} {x : Config} (h : QuietRun k c x) :
    ∃ ops, Doing x ops x.doing ∧ Reachable k c.rtc (ops ++ x.code, x.system) := by
  obtain ⟨_, hrun, ops, hdoing, rfl⟩ := (forward_step k).run ⟨[], .nothing, rfl⟩ h
  exact ⟨ops, hdoing, hrun⟩

/-- A step of a prompt run with quiet ticks. What the chip does beside the clock is no work, and
does not move the instant from which the work counts. -/
def PromptStep (k : Sketch) (x y : Config × ℕ) : Prop :=
  ∃ a, act k a x.1 = some y.1 ∧ (a = .tick → Quiet x.1) ∧
    if a = .conversion then y.2 = x.2 else Prompt x.1.system y.1.system x.2 y.2

/-- A prompt run with quiet ticks. -/
def PromptRun (k : Sketch) (x₀ : Config) (since₀ : ℕ) (x : Config) (since : ℕ) : Prop :=
  Relation.ReflTransGen (PromptStep k) (x₀, since₀) (x, since)

/-- The configuration right after the `makeSchedule` of `setup` has read the instant `t₀`. The
reading is a burst of registers, and one step here as in `Machine`. -/
def AtReading (k : Sketch) (c : Chip) (t₀ : ℕ) (x : Config) : Prop :=
  ∃ x' now, QuietRun k c x' ∧ x'.doing = [.stmt .refreshDate] ∧
    x'.code = k.planSchedule ++ [.clearIsAlarm] ∧ x'.system.rtc.time = t₀ ∧
      act k (.exec now) x' = some x

/-- A statement that is a single step is still to be executed. -/
theorem eq_of_doing_stmt {x : Config} {ops : List Stmt} {doing : List Instr} {stmt : Stmt}
    (h : Doing x ops doing) (heq : doing = [.stmt stmt]) : ops = [stmt] := by
  cases h with
  | stmt stmt' =>
    cases heq
    rfl
  | _ => cases heq

/-- The reading of `setup` on the bus is the one in the machine, with nothing under way behind
it. -/
theorem AtReading.spec {k : Sketch} {c : Chip} {t₀ : ℕ} {x : Config} (h : AtReading k c t₀ x) :
    x.doing = [] ∧ Machine.AtReading k c.rtc t₀ (x.code, x.system) := by
  obtain ⟨x', now, hquiet, hdoing, hcode, htime, hact⟩ := h
  obtain ⟨_, hreach, ops, hdoing', rfl⟩ := (forward_step k).run ⟨[], .nothing, rfl⟩ hquiet
  obtain rfl := eq_of_doing_stmt hdoing' hdoing
  rw [hcode] at hreach
  simp only [act, hdoing] at hact
  split at hact
  · next hready =>
    cases hact
    refine ⟨rfl, x'.system, now, hreach, htime, ?_⟩
    simp only [Machine.act, Sketch.makeSchedule, List.cons_append]
    rw [if_pos hready]
    simp only [execInstr, hcode]
  · cases hact

/-- The refinement carries the instant at which the work began: the prompt steps on the bus are
prompt steps of the machine. -/
theorem forward_promptStep (k : Sketch) :
    Simulation.Forward (PromptStep k) (Machine.PromptStep k)
      fun x c ↦ ∃ shown, Shows x.1 shown ∧ c = (shown, x.2) := by
  rintro ⟨x, since⟩ ⟨y, since'⟩ _ ⟨_, ⟨ops, hdoing, rfl⟩, rfl⟩ ⟨a, hact, hquiet, hprompt⟩
  obtain ⟨ops', hdoing', ⟨hne, hstep⟩ | ⟨hunseen, hcode, hsystem⟩⟩ := step_of_act hdoing hact hquiet
  · rw [if_neg hne] at hprompt
    exact ⟨_, .single ⟨hstep, hprompt⟩, _, ⟨ops', hdoing', rfl⟩, rfl⟩
  · have hsince : since' = since := by
      split at hprompt
      · exact hprompt
      · next hne => exact hprompt.1.trans (if_neg (not_idle (hunseen.resolve_left hne)))
    exact ⟨_, .refl, _, ⟨ops', hdoing', rfl⟩,
      Prod.ext (Prod.ext hcode.symm hsystem.symm) hsince.symm⟩

/-- **Every quiet and prompt run on the bus is a prompt run of the machine**, from the same reading
of `setup` and with the same instant from which the work counts. -/
theorem promptRun_of_quiet {k : Sketch} {c : Chip} {t₀ since : ℕ} {x₀ x : Config}
    (hread : AtReading k c t₀ x₀) (hrun : PromptRun k x₀ t₀ x since) :
    Machine.AtReading k c.rtc t₀ (x₀.code, x₀.system) ∧ ∃ ops, Doing x ops x.doing ∧
      Machine.PromptRun k (x₀.code, x₀.system) t₀ (ops ++ x.code, x.system) since := by
  obtain ⟨hdoing₀, hread'⟩ := hread.spec
  have hstart : Doing x₀ [] x₀.doing := by
    rw [hdoing₀]
    exact .nothing
  obtain ⟨_, hrun', _, ⟨ops, hdoing, rfl⟩, rfl⟩ :=
    (forward_promptStep k).run ⟨_, ⟨[], hstart, rfl⟩, rfl⟩ hrun
  exact ⟨hread', ops, hdoing, hrun'⟩

/-- **The hatch follows the calendar** on the bus: in every prompt run of `analemma_1`, `analemma_3`
and `analemma_release`, transaction by transaction, in which no alarm goes off whose flag the
library would clear by mistake. -/
theorem kept_of_quiet {k : Sketch} (hk : k = analemma1 ∨ k = analemma3 ∨ k = analemmaRelease)
    {c : Chip} {t₀ since : ℕ} {x₀ x : Config} (hread : AtReading k c t₀ x₀)
    (hclear : ∀ w ∈ occurrences k.table, ¬ (t₀ ≤ w.1 ∧ w.1 ≤ t₀ + 60))
    (hrun : PromptRun k x₀ t₀ x since) :
    Performance.Kept (occurrences k.table) t₀ x₀.system.moves x.system since := by
  obtain ⟨hread', ops, -, hrun'⟩ := promptRun_of_quiet hread hrun
  exact Exposure.kept_of_sketch hk hread' hclear hrun'

/-- A step of a run with quiet ticks, as a function, to evaluate concrete runs. -/
def quietAct (k : Sketch) (a : Action) (x : Config) : Option Config :=
  if a = .tick → Quiet x then act k a x else none

theorem step_of_quietAct (k : Sketch) (a : Action) (x y : Config) (h : quietAct k a x = some y) :
    Step k x y := by
  unfold quietAct at h
  split at h
  · next hquiet => exact ⟨a, h, hquiet⟩
  · cases h

/-- A step of a prompt run, as a function. The instant from which the work counts is the one that
`workSince` gives. -/
def promptAct (k : Sketch) (a : Action) (x : Config × ℕ) : Option (Config × ℕ) :=
  (quietAct k a x.1).bind fun y ↦
    if a = .conversion then some (y, x.2)
    else if Prompt x.1.system y.system x.2 (workSince x.1.system y.system x.2) then
      some (y, workSince x.1.system y.system x.2)
    else none

theorem promptStep_of_promptAct (k : Sketch) (a : Action) (x y : Config × ℕ)
    (h : promptAct k a x = some y) : PromptStep k x y := by
  obtain ⟨y', hact, hrest⟩ := Option.bind_eq_some_iff.1 h
  unfold quietAct at hact
  split at hact
  · next hquiet =>
    split at hrest
    · next hconversion =>
      cases hrest
      exact ⟨a, hact, hquiet, by rw [if_pos hconversion]⟩
    · next hne =>
      split at hrest
      · next hprompt =>
        cases hrest
        exact ⟨a, hact, hquiet, by rw [if_neg hne]; exact hprompt⟩
      · cases hrest
  · cases hact

/-- The chip on the morning of New Year's Day 2000, as its battery left it: the pin carries a square
wave, and the oscillator has stopped before. -/
def morningChip : Chip where
  rtc := Performance.morning
  upperControl := 0
  upperStatus := 0b10001000

/-- The next second begins while `setAlarm2` clears the flag. At ten the hatch opens. -/
def untilOpening : List Action :=
  List.replicate 31 (.exec 946720709) ++ [.tick, .conversion] ++
    (List.replicate 16 (.exec 946720710) ++
      (List.replicate 90 .tick ++ (.interrupt :: List.replicate 19 (.exec 946720800))))

/-- The run as it is evaluated, with the condition checked at every tick. -/
theorem untilOpening_run :
    ((Simulation.runActions (quietAct analemma1) (List.replicate 28 (.exec 946720709))
        (.powerUp analemma1 morningChip)).bind fun x ↦
      (act analemma1 (.exec 946720709) x).bind fun x₀ ↦
        (Simulation.runActions (promptAct analemma1) untilOpening (x₀, 946720709)).map fun y ↦
          decide (x.doing = [.stmt .refreshDate] ∧
            x.code = analemma1.planSchedule ++ [.clearIsAlarm] ∧
              x.system.rtc.time = 946720709 ∧ x₀.system.moves = [] ∧
                y.1.system.moves = [(.Open, some 946720800)])) = some true := by
  decide +kernel

/-- A run to the opening at ten. -/
theorem exists_opening :
    ∃ x₀ x since, AtReading analemma1 morningChip 946720709 x₀ ∧
      PromptRun analemma1 x₀ 946720709 x since ∧ x₀.system.moves = [] ∧
        x.system.moves = [(.Open, some 946720800)] := by
  obtain ⟨x', hbefore, hrest⟩ := Option.bind_eq_some_iff.1 untilOpening_run
  obtain ⟨x₀, hact, hrest⟩ := Option.bind_eq_some_iff.1 hrest
  obtain ⟨⟨x, since⟩, hrun, hdecide⟩ := Option.map_eq_some_iff.1 hrest
  obtain ⟨hdoing, hcode, htime, hfirst, hmoves⟩ := of_decide_eq_true hdecide
  have hquiet : QuietRun analemma1 morningChip x' :=
    Simulation.run_of_runActions (step_of_quietAct analemma1) hbefore
  have hprompt : PromptRun analemma1 x₀ 946720709 x since :=
    Simulation.run_of_runActions (promptStep_of_promptAct analemma1) hrun
  exact ⟨x₀, x, since, ⟨x', 946720709, hquiet, hdoing, hcode, htime, hact⟩, hprompt, hfirst, hmoves⟩

/-- The run to the opening is one of the machine, with the same moves. -/
theorem reachable_of_quiet_opening :
    ∃ x, QuietRun analemma1 morningChip x ∧ x.system.moves = [(.Open, some 946720800)] ∧
      ∃ ops, Doing x ops x.doing ∧
        Reachable analemma1 Performance.morning (ops ++ x.code, x.system) := by
  obtain ⟨x₀, x, since, hread, hrun, -, hmoves⟩ := exists_opening
  obtain ⟨x', now, hquiet, -, -, -, hact⟩ := hread
  have hstart : QuietRun analemma1 morningChip x₀ := hquiet.tail ⟨.exec now, hact, nofun⟩
  have hlater : QuietRun analemma1 morningChip x :=
    hstart.trans (hrun.lift Prod.fst fun _ _ ⟨a, hact, hquiet, _⟩ ↦ ⟨a, hact, hquiet⟩)
  exact ⟨x, hlater, hmoves, reachable_of_quiet hlater⟩

theorem kept_of_quiet_opening :
    ∃ x₀ x since, AtReading analemma1 morningChip 946720709 x₀ ∧
      PromptRun analemma1 x₀ 946720709 x since ∧ x.system.moves = [(.Open, some 946720800)] ∧
        Performance.Kept (occurrences analemma1Table) 946720709 [] x.system since := by
  obtain ⟨x₀, x, since, hread, hrun, hfirst, hmoves⟩ := exists_opening
  have hkept := kept_of_quiet (.inl rfl) hread Performance.morning_clear hrun
  rw [hfirst] at hkept
  exact ⟨x₀, x, since, hread, hrun, hmoves, hkept⟩

end Machine.Bus
