import Analemma.Machine.Basic

/-!
# The flags and the code that is left

What the code that is left will do, before the next `powerDown`, with the flag of an alarm: test it
and answer it, clear it untested, or nothing (`nextUse1`, `nextUse2`); and whether it leaves the
alarms armed and the interrupt attached (`WillListen`). These are functions of the code alone, and
the invariants of the running sketch are stated with them.

* `nextUse1` and `nextUse2` stop at the next `powerDown`: what is not used before it is not used in
  this round. A branch counts with its body, so `ifIsAlarm` tests the flag of alarm 1 at once, and
  that of alarm 2 unless the body of the other test comes first and clears it.
* `armedAfter1`, `armedAfter2` and `attachedAfter` fold over the code. A branch is not looked into,
  since what it pushes leaves the alarms armed.

The lemmas at the end read the code of `makeSchedule` once. The invariants on lost wake-ups and on
the posture of the servo, which run through this code at every closing, use them instead of its
statements.
-/

namespace Machine

open DS3231 Schedule Interleaving

/-! ### The next use of a flag -/

/-- What code does with a flag. -/
inductive Use where
  /-- It asks whether the flag is up, and answers it. -/
  | test
  /-- It clears the flag unseen. -/
  | clear
deriving DecidableEq, Repr

/-- The first use of the flag of alarm 1 before the next `powerDown`. The code of a branch is
counted where its test stands. -/
def nextUse1 : List Stmt → Option Use
  | [] => none
  | .powerDown :: _ => none
  | .clearAlarm1 :: _ => some .clear
  | .ifAlarm1 :: _ => some .test
  | .ifIsAlarm :: _ => some .test
  | _ :: code => nextUse1 code

/-- The first use of the flag of alarm 2 before the next `powerDown`. While the flag of alarm 1 is
up, the test of that flag comes first, and `setAlarms` clears the flag of alarm 2 in its branch. -/
def nextUse2 (up1 : Bool) : List Stmt → Option Use
  | [] => none
  | .powerDown :: _ => none
  | .clearAlarm2 :: _ => some .clear
  | .ifAlarm2 :: _ => some .test
  | .ifAlarm1 :: code => if up1 then some .clear else nextUse2 up1 code
  | .ifIsAlarm :: _ => if up1 then some .clear else some .test
  | _ :: code => nextUse2 up1 code

/-- The next tick raises the flag of alarm 1. -/
def Rises1 (s : System) : Prop := s.rtc.a1f = none ∧ s.rtc.alarm1.Matches (s.rtc.time + 1)

/-- The next tick raises the flag of alarm 2. -/
def Rises2 (s : System) : Prop := s.rtc.a2f = none ∧ s.rtc.alarm2.Matches (s.rtc.time + 1)

instance : DecidablePred Rises1 := fun _ ↦ inferInstanceAs (Decidable (_ ∧ _))

instance : DecidablePred Rises2 := fun _ ↦ inferInstanceAs (Decidable (_ ∧ _))

/-- A flag after a tick is up because it was, or because the tick raised it. -/
theorem raise_ne_none {flag : Option ℕ} {hit : Prop} [Decidable hit] {t : ℕ}
    (h : Rtc.raise flag hit t ≠ none) : flag ≠ none ∨ (flag = none ∧ hit) := by
  cases flag with
  | some u => exact Or.inl (Option.some_ne_none u)
  | none =>
    refine Or.inr ⟨rfl, ?_⟩
    by_contra hno
    exact h (Rtc.raise_of_not none hno)

/-! ### Alarms armed and interrupt attached at the end of the code -/

/-- The enable bit of alarm 1 after the code, if it is as given before. -/
def armedAfter1 (code : List Stmt) (armed : Bool) : Bool :=
  code.foldl (fun b stmt ↦ match stmt with | .armAlarm1 b' => b' | _ => b) armed

/-- The enable bit of alarm 2 after the code, likewise. -/
def armedAfter2 (code : List Stmt) (armed : Bool) : Bool :=
  code.foldl (fun b stmt ↦ match stmt with | .armAlarm2 b' => b' | _ => b) armed

/-- Whether the interrupt is attached after the code. No statement detaches it. -/
def attachedAfter (code : List Stmt) (attached : Bool) : Bool :=
  code.foldl (fun b stmt ↦ match stmt with | .attachInterrupt => true | _ => b) attached

/-- Both alarms will be armed, and the interrupt attached, when the code has run. While `setup` is
under way it need not be so yet. -/
structure WillListen (code : List Stmt) (s : System) : Prop where
  armed1 : armedAfter1 code s.rtc.armed1 = true
  armed2 : armedAfter2 code s.rtc.armed2 = true
  attached : attachedAfter code s.attached = true

/-- Statements that push no code and do not go to sleep: with one of them in front, the code that is
left is the rest. -/
def Stmt.plain : Stmt → Bool
  | .toggleMotor _ | .ifIsAlarm | .ifAlarm1 | .ifAlarm2 | .powerDown => false
  | _ => true

section Unused

variable {α : Type*} {f : α → Stmt}

/-- A list of statements that do not use the flag may be passed over: the lines of a table, or the
writes of a sweep. -/
theorem nextUse1_map_append (hf : ∀ a code, nextUse1 (f a :: code) = nextUse1 code)
    (l : List α) (code : List Stmt) : nextUse1 (l.map f ++ code) = nextUse1 code := by
  induction l with
  | nil => rfl
  | cons a l ih => exact (hf a _).trans ih

theorem nextUse2_map_append {up1 : Bool}
    (hf : ∀ a code, nextUse2 up1 (f a :: code) = nextUse2 up1 code) (l : List α)
    (code : List Stmt) : nextUse2 up1 (l.map f ++ code) = nextUse2 up1 code := by
  induction l with
  | nil => rfl
  | cons a l ih => exact (hf a _).trans ih

/-- A bit that the statements of a list do not touch is the same after them. -/
theorem foldl_map_append {g : Bool → Stmt → Bool} (hf : ∀ b a, g b (f a) = b) (l : List α)
    (code : List Stmt) (b : Bool) : (l.map f ++ code).foldl g b = code.foldl g b := by
  rw [List.foldl_append, List.foldl_map]
  congr 1
  induction l with
  | nil => rfl
  | cons a l ih => rw [List.foldl_cons, hf, ih]

end Unused

theorem attachedAfter_append (pushed code : List Stmt) (b : Bool) :
    attachedAfter (pushed ++ code) b = attachedAfter code (attachedAfter pushed b) :=
  List.foldl_append

/-- Once attached, the interrupt stays so. -/
@[simp] theorem attachedAfter_true (code : List Stmt) : attachedAfter code true = true := by
  induction code with
  | nil => rfl
  | cons stmt code ih => cases stmt <;> exact ih

theorem attachedAfter_of_mem {code : List Stmt} (h : .attachInterrupt ∈ code) (b : Bool) :
    attachedAfter code b = true := by
  obtain ⟨before, after, rfl⟩ := List.append_of_mem h
  rw [attachedAfter_append]
  exact attachedAfter_true after

namespace WillListen

/-- Neither ticks nor interrupts touch the enable bits. -/
theorem env {k : Sketch} {Meets : List Stmt → System → Prop} {code code' : List Stmt}
    {s s' : System} (h : WillListen code s) (henv : (program k Meets).env code' s s') :
    WillListen code s' := by
  rcases henv with hint | ⟨htick, -⟩
  · obtain ⟨-, rfl⟩ := interrupt_eq_some hint
    exact ⟨h.armed1, h.armed2, h.attached⟩
  · obtain ⟨r, hr, rfl⟩ := tick_eq_some htick
    obtain ⟨-, -, -, harmed1, harmed2, -, -⟩ := Rtc.tick_eq_some hr
    refine ⟨?_, ?_, h.attached⟩
    · rw [rtc_setRtc, harmed1]
      exact h.armed1
    · rw [rtc_setRtc, harmed2]
      exact h.armed2

/-- A plain statement does what the code says it will. -/
theorem exec_plain (k : Sketch) (now : UInt32) {stmt : Stmt} (hplain : stmt.plain = true)
    {code : List Stmt} {s : System} (h : WillListen (stmt :: code) s) :
    WillListen code (exec k now s stmt).1 := by
  obtain ⟨harmed1, harmed2, hattached⟩ := h
  cases stmt with
  | toggleMotor | ifIsAlarm | ifAlarm1 | ifAlarm2 | powerDown => cases hplain
  | attachInterrupt => exact ⟨harmed1, harmed2, attachedAfter_true code⟩
  | refreshDate => exact of_forall_sysTime k now fun _ ↦ ⟨harmed1, harmed2, hattached⟩
  | write | readJournal | updateJournal | beginClock | armAlarm1 | armAlarm2 | writeAlarm1
    | writeAlarm2 | resetNextEvent | addEvent | clearIsAlarm | clearAlarm1
    | clearAlarm2 => exact ⟨harmed1, harmed2, hattached⟩

/-- The writes of a sweep leave the alarms alone. -/
theorem writes {toggle : Toggle} {code : List Stmt} {s : System}
    (h : WillListen (.toggleMotor toggle :: code) s) (angles : List ℤ) :
    WillListen (angles.map .write ++ code) s where
  armed1 := (foldl_map_append (fun _ _ ↦ rfl) angles code _).trans h.armed1
  armed2 := (foldl_map_append (fun _ _ ↦ rfl) angles code _).trans h.armed2
  attached := (foldl_map_append (fun _ _ ↦ rfl) angles code _).trans h.attached

end WillListen

/-! ### The code of `makeSchedule` -/

section PlanSchedule

variable {table : List AddEvent}

/-- The statements of a selection, with the code behind them. -/
theorem planSchedule_append (rest : List Stmt) :
    (Sketch.withTable table).planSchedule ++ rest =
      .resetNextEvent ::
        (table.map .addEvent ++ (Sketch.setAlarms ++ (.updateJournal :: rest))) := by
  simp [Sketch.planSchedule, Sketch.withTable]

theorem armedAfter1_planSchedule (rest : List Stmt) (b : Bool) :
    armedAfter1 ((Sketch.withTable table).planSchedule ++ rest) b = armedAfter1 rest true := by
  rw [planSchedule_append]
  exact foldl_map_append (fun _ _ ↦ rfl) table _ b

theorem armedAfter2_planSchedule (rest : List Stmt) (b : Bool) :
    armedAfter2 ((Sketch.withTable table).planSchedule ++ rest) b = armedAfter2 rest true := by
  rw [planSchedule_append]
  exact foldl_map_append (fun _ _ ↦ rfl) table _ b

theorem attachedAfter_planSchedule (rest : List Stmt) (b : Bool) :
    attachedAfter ((Sketch.withTable table).planSchedule ++ rest) b = attachedAfter rest b := by
  rw [planSchedule_append]
  exact foldl_map_append (fun _ _ ↦ rfl) table _ b

/-- A selection clears the flag of alarm 1 unseen: what had raised it is not answered. -/
theorem nextUse1_planSchedule (rest : List Stmt) :
    nextUse1 ((Sketch.withTable table).planSchedule ++ rest) = some .clear := by
  rw [planSchedule_append]
  exact nextUse1_map_append (fun _ _ ↦ rfl) table _

/-- And that of alarm 2, whether the other flag is up or not. -/
theorem nextUse2_planSchedule (up1 : Bool) (rest : List Stmt) :
    nextUse2 up1 ((Sketch.withTable table).planSchedule ++ rest) = some .clear := by
  rw [planSchedule_append]
  exact nextUse2_map_append (fun _ _ ↦ rfl) table _

theorem makeSchedule_plain : (Sketch.withTable table).makeSchedule.all Stmt.plain = true := by
  simp [Sketch.makeSchedule, Sketch.planSchedule, Sketch.withTable, Sketch.setAlarms, Stmt.plain]

/-- `makeSchedule` leaves both alarms armed. -/
theorem willListen_makeSchedule {rest : List Stmt} {s : System} (h1 : armedAfter1 rest true = true)
    (h2 : armedAfter2 rest true = true) (hattached : attachedAfter rest s.attached = true) :
    WillListen ((Sketch.withTable table).makeSchedule ++ rest) s where
  armed1 := (armedAfter1_planSchedule rest _).trans h1
  armed2 := (armedAfter2_planSchedule rest _).trans h2
  attached := (attachedAfter_planSchedule rest _).trans hattached

end PlanSchedule

end Machine
