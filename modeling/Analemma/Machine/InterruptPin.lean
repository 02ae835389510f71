import Analemma.Machine.Bus

/-!
# The interrupt pin

The chip's pin carries the alarms while the bit `INTCN` of the control register is one, and a square
wave otherwise. The register is kept by the battery, and `begin` clears the bit together with
`EOSC`, whatever it was; `enableOutput(false)` sets it. Between the two the pin spams signals, as
the sketch has it. Here it is shown that the interrupt is never attached to such a pin, on every run
on the bus and with ticks at any time (`output_of_attached`), which is what `System.setRtc` takes
for granted.

The argument follows the bit through the steps that are left (`selects`), and needs that the library
reads the control register right before it writes it.

`selects` is a function of the steps that are left, and computes the bit as they will leave it. It
is evaluated once for `setup` of each sketch; after that every step either does nothing to it
(`neutral`), or is one of the few that it follows. Why the reading counts: a function that arms an
alarm writes back a byte read before, so the bit it keeps is the one that stood there then. `Under`
says that nothing comes between the reading and the writing but ticks and conversions, and these do
not touch the control register (`Selected.fresh`).

Nothing is asked of the ticks here. The result is about the pin, and it holds in the runs, too, in
which alarms are lost.
-/

namespace Machine.Bus

/-- A run on the bus, with ticks at any time: the runs of `QuietRun` and all others. -/
def Run (k : Sketch) (c : Chip) (x : Config) : Prop :=
  Relation.ReflTransGen (fun x y ↦ ∃ a, act k a x = some y) (.powerUp k c) x

/-! ### What the steps that are left do -/

/-- The bit `INTCN` after a register is written back, from what it was when the register was
read. -/
def outputAfter (output : Bool) (m : Modify) : Bool :=
  if m.reg = .control then bit m.keep 2 && output || bit m.set 2 else output

/-- Whether the steps set the bit before they attach the interrupt, and leave it so. -/
def selects (attached output : Bool) : List Instr → Bool
  | [] => output
  | .writeBack m :: left =>
    (!attached || outputAfter output m) && selects attached (outputAfter output m) left
  | .stmt .attachInterrupt :: left => output && selects true output left
  | _ :: left => selects attached output left

/-- The statements after the start do nothing to it: they do not attach the interrupt, and of the
library's functions they call only those that arm an alarm or clear a flag. -/
def neutral : Stmt → Bool
  | .attachInterrupt | .beginClock => false
  | _ => true

/-- The steps of a neutral statement may be passed over: they keep the bit, attached or not. -/
theorem selects_instrs {stmt : Stmt} (h : neutral stmt = true) {attached output : Bool}
    (houtput : attached = true → output = true) (left : List Instr) :
    selects attached output (instrs stmt ++ left) = selects attached output left := by
  have hselected : (!attached || output) = true := by
    cases attached
    · rfl
    · exact houtput rfl
  have hkept : ∀ m : Modify, outputAfter output m = output →
      selects attached output (transactions m ++ left) = selects attached output left := by
    intro m hm
    simp only [transactions, List.cons_append, List.nil_append, selects, hm, hselected,
      Bool.true_and]
  cases stmt with
  | attachInterrupt | beginClock => cases h
  | armAlarm1 armed | armAlarm2 armed =>
    exact hkept _ (by cases armed <;> cases output <;> rfl)
  | clearAlarm1 | clearAlarm2 => exact hkept _ rfl
  | _ => rfl

theorem selects_append {code : List Stmt} (h : ∀ stmt ∈ code, neutral stmt = true)
    {attached output : Bool} (houtput : attached = true → output = true) (left : List Instr) :
    selects attached output (code.flatMap instrs ++ left) = selects attached output left := by
  induction code with
  | nil => rfl
  | cons stmt code ih =>
    rw [List.flatMap_cons, List.append_assoc, selects_instrs (h stmt List.mem_cons_self) houtput,
      ih fun stmt' hmem ↦ h stmt' (List.mem_cons_of_mem _ hmem)]

section Pushed

variable {k : Sketch} (hmake : ∀ stmt ∈ k.makeSchedule, neutral stmt = true)

include hmake

theorem neutral_onAlarm (a : Alarm) : ∀ stmt ∈ onAlarm k a, neutral stmt = true := by
  cases a with
  | one =>
    intro stmt hmem
    rcases List.mem_cons.1 hmem with rfl | hmem
    · rfl
    rcases List.mem_cons.1 hmem with rfl | hmem
    · rfl
    exact hmake stmt hmem
  | two => exact (by decide : ∀ stmt ∈ Sketch.onAlarm2, neutral stmt = true)

/-- What a statement pushes is neutral. -/
theorem neutral_exec (now : UInt32) (s : System) (stmt : Stmt) :
    ∀ stmt' ∈ (exec k now s stmt).2, neutral stmt' = true := by
  -- Only the tests and `toggleMotor` put statements before the rest, and none of these attaches the
  -- interrupt or begins the clock.
  cases stmt with
  | toggleMotor toggle =>
    intro stmt' hmem
    obtain ⟨angle, -, rfl⟩ := List.mem_map.1 hmem
    rfl
  | ifIsAlarm =>
    simp only [exec]
    split
    · exact (by decide : ∀ stmt ∈ Sketch.onAlarm, neutral stmt = true)
    · exact fun _ hmem ↦ absurd hmem List.not_mem_nil
  | ifAlarm1 =>
    simp only [exec]
    split
    · exact neutral_onAlarm hmake .one
    · exact fun _ hmem ↦ absurd hmem List.not_mem_nil
  | ifAlarm2 =>
    simp only [exec]
    split
    · exact neutral_onAlarm hmake .two
    · exact fun _ hmem ↦ absurd hmem List.not_mem_nil
  | _ => exact fun _ hmem ↦ absurd hmem List.not_mem_nil

end Pushed

/-! ### The bit along a run -/

/-- The steps left of a statement: a register is read right before it is written back. -/
inductive Under : List Instr → Prop where
  | nothing : Under []
  | stmt (stmt : Stmt) : Under [.stmt stmt]
  | modify (m : Modify) (ms : List Modify) : Under ((m :: ms).flatMap transactions)
  | writeBack (m : Modify) (ms : List Modify) : Under (.writeBack m :: ms.flatMap transactions)
  | isAlarm (a : Alarm) : Under [.read .status, .test a]
  | test (a : Alarm) : Under [.test a]
  | again (a : Alarm) : Under [.read .status, .take a]
  | take (a : Alarm) : Under [.take a]

theorem under_instrs (stmt : Stmt) : Under (instrs stmt) := by
  have hrest : Under (if modifies stmt = [] then [.stmt stmt]
      else (modifies stmt).flatMap transactions) := by
    split
    · exact .stmt stmt
    · next hne =>
      obtain ⟨m, ms, heq⟩ := List.exists_cons_of_ne_nil hne
      rw [heq]
      exact .modify m ms
  cases stmt with
  | ifAlarm1 => exact .isAlarm .one
  | ifAlarm2 => exact .isAlarm .two
  | _ => exact hrest

/-- The bit is one if the interrupt is attached, and it will be one before it is. This is the
invariant of the run. -/
structure Selected (x : Config) : Prop where
  under : Under x.doing
  /-- The byte in the local variable has the bit as the register has it. -/
  fresh : ∀ m ∈ writingBack x.doing, m.reg = .control → bit x.value 2 = bit x.upperControl 2
  output : x.system.attached = true → bit x.upperControl 2 = true
  /-- What is left to do sets the bit before it attaches the interrupt. -/
  left : selects x.system.attached (bit x.upperControl 2) (x.doing ++ x.code.flatMap instrs) = true

/-- No register is about to be written back. -/
theorem Selected.of_eq_none {x : Config} (hunder : Under x.doing)
    (hnone : writingBack x.doing = none)
    (houtput : x.system.attached = true → bit x.upperControl 2 = true)
    (hleft : Bus.selects x.system.attached (bit x.upperControl 2)
      (x.doing ++ x.code.flatMap instrs) = true) : Selected x where
  under := hunder
  fresh m hm := by
    rw [hnone] at hm
    exact absurd hm (Option.not_mem_none m)
  output := houtput
  left := hleft

theorem bit_read_control_two (c : Chip) : bit (c.read .control) 2 = bit c.upperControl 2 := by
  have hmask : bit 0b11111100 2 = true := rfl
  rw [Chip.read, bit_or, bit_or, bit_and, hmask, Bool.and_true]
  cases c.rtc.armed1 <;> cases c.rtc.armed2 <;> cases bit c.upperControl 2 <;> rfl

/-- The interrupt is attached by one statement only. -/
theorem attached_exec_of_ne (k : Sketch) (now : UInt32) (s : System) {stmt : Stmt}
    (h : stmt ≠ .attachInterrupt) : (exec k now s stmt).1.attached = s.attached := by
  cases stmt with
  | attachInterrupt => exact absurd rfl h
  | ifAlarm1 => cases hflag : s.rtc.a1f <;> simp [exec, hflag, System.takeAlarm1]
  | ifAlarm2 => cases hflag : s.rtc.a2f <;> simp [exec, hflag, System.takeAlarm2]
  | refreshDate => exact of_forall_sysTime (P := fun u ↦ u.attached = s.attached) k now fun _ ↦ rfl
  | _ => rfl

theorem writingBack_instrs (stmt : Stmt) : writingBack (instrs stmt) = none := by
  cases stmt <;> rfl

theorem writingBack_transactions (ms : List Modify) :
    writingBack (ms.flatMap transactions) = none := by
  cases ms <;> rfl

/-- A statement that is one step and does not attach the interrupt may be passed over. -/
theorem selects_stmt {stmt : Stmt} (h : stmt ≠ .attachInterrupt) (attached output : Bool)
    (left : List Instr) :
    selects attached output (.stmt stmt :: left) = selects attached output left := by
  cases stmt <;> first | rfl | exact absurd rfl h

section Step

variable {k : Sketch} (hmake : ∀ stmt ∈ k.makeSchedule, neutral stmt = true) {x y : Config}

include hmake

/-- **A step of the controller** keeps the invariant. By the steps that are left: a reading makes
the byte fresh, a write takes the bit from it, and a new statement puts its own steps before the
rest. -/
theorem Selected.exec {now : UInt32} (h : Selected x) (hact : act k (.exec now) x = some y) :
    Selected y := by
  obtain ⟨hunder, hfresh, houtput, hleft⟩ := h
  simp only [act] at hact
  split at hact
  · obtain ⟨doing, code, system, upperControl, upperStatus, value⟩ := x
    simp only at hunder hfresh houtput hleft hact
    -- One case per phase of the statement under way.
    cases hunder with
    | nothing =>
      cases code with
      | nil =>
        cases hact
        exact .of_eq_none .nothing rfl houtput hleft
      | cons stmt code =>
        cases hact
        rw [List.nil_append, List.flatMap_cons] at hleft
        exact .of_eq_none (under_instrs stmt) (writingBack_instrs stmt) houtput hleft
    | stmt stmt =>
      cases hact
      -- `attachInterrupt` is the one statement that sets `attached`, and `selects` tests the bit
      -- there.
      by_cases hattach : stmt = .attachInterrupt
      · subst hattach
        obtain ⟨hset, hleft⟩ := Bool.and_eq_true_iff.1 hleft
        exact .of_eq_none .nothing rfl (fun _ ↦ hset) hleft
      · have hattached := attached_exec_of_ne k now system hattach
        have hpushed : selects system.attached (bit upperControl 2)
            (((exec k now system stmt).2 ++ code).flatMap instrs) = true := by
          rw [List.flatMap_append, selects_append (neutral_exec hmake now system stmt) houtput]
          exact (selects_stmt hattach _ _ _).symm.trans hleft
        rw [← hattached] at hpushed houtput
        exact .of_eq_none .nothing rfl houtput hpushed
    | modify m ms =>
      cases hact
      -- The control register was read just now, so its bit 2 is the chip's own.
      refine ⟨.writeBack m ms, fun m' hm' hreg ↦ ?_, houtput, hleft⟩
      obtain rfl : m = m' := Option.some_inj.1 hm'
      simp only [execInstr, hreg]
      exact bit_read_control_two _
    | writeBack m ms =>
      cases hact
      have hbit : bit ((Config.mk [] code system upperControl upperStatus value).chip.write
          (m.value value) m.reg).upperControl 2 = outputAfter (bit upperControl 2) m := by
        unfold outputAfter
        cases hreg : m.reg with
        | control =>
          rw [if_pos rfl, ← hfresh m rfl hreg, Bool.and_comm, ← bit_value]
          rfl
        | status => rfl
      obtain ⟨hset, hleft⟩ := Bool.and_eq_true_iff.1 hleft
      rw [← hbit] at hset hleft
      have hunder : Under (ms.flatMap transactions) := by
        cases ms with
        | nil => exact .nothing
        | cons m ms => exact .modify m ms
      refine .of_eq_none hunder (writingBack_transactions ms) (fun hattached ↦ ?_) hleft
      have hattached : system.attached = true := hattached
      rw [hattached] at hset
      exact hset
    | isAlarm a =>
      cases hact
      exact .of_eq_none (.test a) rfl houtput hleft
    | test a =>
      cases hact
      simp only [execInstr]
      split
      · exact .of_eq_none (.again a) rfl houtput hleft
      · exact .of_eq_none .nothing rfl houtput hleft
    | again a =>
      cases hact
      refine ⟨.take a, fun m hm hreg ↦ ?_, houtput, hleft⟩
      -- `clearAlarm` writes the status register: the control register stays as it was.
      obtain rfl : clearAlarm a = m := Option.some_inj.1 hm
      cases a <;> cases hreg
    | take a =>
      cases hact
      have hpushed : selects system.attached (bit upperControl 2)
          ((onAlarm k a ++ code).flatMap instrs) = true := by
        rw [List.flatMap_append, selects_append (neutral_onAlarm hmake a) houtput]
        exact hleft
      exact .of_eq_none .nothing rfl houtput hpushed
  · cases hact

/-- **Any step** keeps it: ticks, conversions and interrupts touch neither the control register nor
the steps that are left. -/
theorem Selected.act {a : Action} (h : Selected x) (hact : act k a x = some y) : Selected y := by
  cases a with
  | tick =>
    obtain ⟨c, hc, rfl⟩ := Option.map_eq_some_iff.1 hact
    obtain ⟨r, -, rfl⟩ := Option.map_eq_some_iff.1 hc
    exact ⟨h.under, h.fresh, h.output, h.left⟩
  | conversion =>
    cases hact
    exact ⟨h.under, h.fresh, h.output, h.left⟩
  | interrupt =>
    obtain ⟨s, hs, rfl⟩ := Option.map_eq_some_iff.1 hact
    obtain ⟨-, rfl⟩ := interrupt_eq_some hs
    exact ⟨h.under, h.fresh, h.output, h.left⟩
  | exec now => exact h.exec hmake hact

end Step

/-- **The interrupt is attached to the alarms' pin**: in every run of `analemma_1`, `analemma_3` and
`analemma_release` on the bus, from every state in which the battery has kept the chip and with
ticks at any time, `INTCN` is one while the interrupt is attached. -/
theorem output_of_attached {k : Sketch} (hk : k = analemma1 ∨ k = analemma3 ∨ k = analemmaRelease)
    {c : Chip} {x : Config} (h : Run k c x) (hattached : x.system.attached = true) :
    bit x.upperControl 2 = true := by
  have hmake : ∀ stmt ∈ k.makeSchedule, neutral stmt = true := by
    rcases hk with rfl | rfl | rfl <;> decide
  have hsetup : ∀ output, selects false output (k.setup.flatMap instrs) = true := by
    rcases hk with rfl | rfl | rfl <;> decide
  have hselected : Selected x := by
    clear hattached
    induction h with
    | refl => exact .of_eq_none .nothing rfl (fun h ↦ absurd h Bool.false_ne_true) (hsetup _)
    | tail _ hstep ih =>
      obtain ⟨a, hact⟩ := hstep
      exact ih.act hmake hact
  exact hselected.output hattached

/-- The battery has kept a chip whose pin carries a square wave. -/
theorem output_of_attached_morning :
    ∃ x, Run analemma1 morningChip x ∧ bit morningChip.upperControl 2 = false ∧
      x.system.attached = true ∧ bit x.upperControl 2 = true := by
  have hattached : (Simulation.runActions (act analemma1) (List.replicate 28 (.exec 946720709))
      (.powerUp analemma1 morningChip)).map (·.system.attached) = some true := by decide +kernel
  obtain ⟨x, hrun, hx⟩ := Option.map_eq_some_iff.1 hattached
  have hreach : Run analemma1 morningChip x :=
    Simulation.run_of_runActions (fun a _ _ hact ↦ ⟨a, hact⟩) hrun
  exact ⟨x, hreach, rfl, hx, output_of_attached (.inl rfl) hreach hx⟩

end Machine.Bus
