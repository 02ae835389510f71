import Analemma.Machine.Flags
import Analemma.Schedule.Constructors

/-!
# Lost wake-ups

Asleep, the controller is woken by a falling edge of the interrupt pin, and there is one only if the
pin is high: if no flag is up. `loop` goes to sleep without looking at `isAlarm` or at the flags, so
a flag that goes up after the code has tested and cleared it for the last time stays up, and the
controller never wakes again.

What the code that is left does with a flag before it sleeps is its `nextUse1` and `nextUse2`: it
tests the flag, it clears it untested, or it does not use it at all. If flags go up only where they
have a next use (`InTime`), the controller sleeps with both flags down
(`asleep_flags_down`). The invariant is that a flag which is up has a next use.

The condition is on the state before a tick and on the code that is left. It is met while the
controller sleeps in `loop` with both flags down, since the rest of the round tests both; it fails
from the last use of a flag in a round up to the `powerDown` of the next one, and in `setup` after
`setAlarms`. In that stretch a match is lost for good (`wakeup_lost`): the flag keeps the pin low,
and no further match makes an edge.

`FlagsUsed` asks for more of the flag of alarm 2 than `nextUse2` alone would: it is to have a use
also where the flag of alarm 1 is down, since a branch may turn out not to be taken.
-/

namespace Machine.Wakeup

open DS3231 Schedule Interleaving

/-! ### The invariant while awake -/

/-- The next tick raises a flag only if the code that is left will still use it: test it, or clear
it, before the next `powerDown`. -/
def InTime (code : List Stmt) (s : System) : Prop :=
  (Rises1 s → nextUse1 code ≠ none) ∧ (Rises2 s → nextUse2 false code ≠ none)

instance (code : List Stmt) : DecidablePred (InTime code) := fun _ ↦
  inferInstanceAs (Decidable (_ ∧ _))

/-- A flag that is up has a next use. So at the `powerDown` of the next round, where nothing has
one, both are down. -/
structure FlagsUsed (code : List Stmt) (s : System) : Prop where
  flag1 : s.rtc.a1f ≠ none → nextUse1 code ≠ none
  flag2 : s.rtc.a2f ≠ none → nextUse2 false code ≠ none

/-- The invariant at a code point where the controller is awake: the flags have their uses, and the
alarms will be armed when it comes to sleep. -/
structure Sound (code : List Stmt) (s : System) : Prop where
  awake : s.asleep = false
  listen : WillListen code s
  used : FlagsUsed code s

/-- What is to hold while the controller sleeps: no flag is up unless a wake-up is on its way. It
says nothing of an awake controller. -/
def SleepsWell (s : System) : Prop :=
  s.asleep = true → s.pending = false → s.rtc.a1f = none ∧ s.rtc.a2f = none

theorem Sound.sleepsWell {code : List Stmt} {s : System} (h : Sound code s) : SleepsWell s :=
  fun hasleep ↦ absurd (h.awake.symm.trans hasleep) Bool.false_ne_true

/-- **Ticks and interrupts** keep the invariant: what they raise has a next use. -/
theorem stable_sound (k : Sketch) (code : List Stmt) :
    (program k InTime).Stable code (Sound code) := by
  rintro s s' ⟨hawake, hlisten, hused⟩ henv
  have hlisten' := hlisten.env henv
  rcases henv with hint | ⟨htick, hmeets⟩
  · obtain ⟨-, rfl⟩ := interrupt_eq_some hint
    exact ⟨rfl, hlisten', ⟨hused.flag1, hused.flag2⟩⟩
  · obtain ⟨r, hr, rfl⟩ := tick_eq_some htick
    obtain ⟨-, -, -, -, -, hflag1, hflag2⟩ := Rtc.tick_eq_some hr
    refine ⟨hawake, hlisten', ⟨fun hup ↦ ?_, fun hup ↦ ?_⟩⟩
    · rw [rtc_setRtc, hflag1] at hup
      exact (raise_ne_none hup).elim hused.flag1 hmeets.1
    · rw [rtc_setRtc, hflag2] at hup
      exact (raise_ne_none hup).elim hused.flag2 hmeets.2

/-- A plain statement keeps the invariant: if it uses a flag, it clears it, and the uses of the
other one are those of the rest. -/
theorem sound_exec (k : Sketch) (now : UInt32) {stmt : Stmt} (hplain : stmt.plain = true)
    {code : List Stmt} {s : System} (h : Sound (stmt :: code) s) :
    (exec k now s stmt).2 = [] ∧ Sound code (exec k now s stmt).1 := by
  have hlisten := h.listen.exec_plain k now hplain
  obtain ⟨hawake, hlisten₀, ⟨hflag1, hflag2⟩⟩ := h
  cases stmt with
  | toggleMotor | ifIsAlarm | ifAlarm1 | ifAlarm2 | powerDown => cases hplain
  | clearAlarm1 => exact ⟨rfl, hawake, hlisten, ⟨fun h ↦ absurd rfl h, hflag2⟩⟩
  | clearAlarm2 => exact ⟨rfl, hawake, hlisten, ⟨hflag1, fun h ↦ absurd rfl h⟩⟩
  | refreshDate => exact ⟨rfl, of_forall_sysTime k now fun _ ↦ ⟨hawake,
      ⟨hlisten₀.armed1, hlisten₀.armed2, hlisten₀.attached⟩, ⟨hflag1, hflag2⟩⟩⟩
  | write | readJournal | updateJournal | beginClock | armAlarm1 | armAlarm2 | writeAlarm1
    | writeAlarm2 | resetNextEvent | addEvent | clearIsAlarm | attachInterrupt =>
    exact ⟨rfl, hawake, hlisten, ⟨hflag1, hflag2⟩⟩

/-! ### The outline -/

/-- Where `loop` starts: awake, listening, and with both flags down, so that the pin is high. -/
structure Ready (s : System) : Prop where
  awake : s.asleep = false
  armed1 : s.rtc.armed1 = true
  armed2 : s.rtc.armed2 = true
  attached : s.attached = true
  down1 : s.rtc.a1f = none
  down2 : s.rtc.a2f = none

/-- Where no code is left, no flag has a use, and so none is up. -/
theorem Sound.ready {s : System} (h : Sound [] s) : Ready s where
  awake := h.awake
  armed1 := h.listen.armed1
  armed2 := h.listen.armed2
  attached := h.listen.attached
  down1 := by_contra fun hup ↦ h.used.flag1 hup rfl
  down2 := by_contra fun hup ↦ h.used.flag2 hup rfl

/-- An outline up to the next start of `loop`. -/
abbrev Outlined (k : Sketch) : List Stmt → System → Prop :=
  (program k InTime).Outline (fun _ ↦ SleepsWell) Ready

section Outline

variable {k : Sketch} {table : List AddEvent}

/-- Where the code is at its end, the next round starts with both flags down. -/
theorem outline_nil {s : System} (h : Sound [] s) : Outlined k [] s :=
  .nil _ (stable_sound k []) (fun _ h ↦ ⟨h.sleepsWell, h.ready⟩) h

/-- A block of plain statements. -/
theorem outline_plain (block : List Stmt) {rest : List Stmt} (hplain : block.all Stmt.plain = true)
    (hrest : ∀ s, Sound rest s → Outlined k rest s)
    {s : System} (h : Sound (block ++ rest) s) : Outlined k (block ++ rest) s := by
  refine .block (stable_sound k) (fun _ _ h ↦ h.sleepsWell) ?_ (List.all_eq_true.1 hplain) hrest h
  rintro stmt code s s' pushed hstmt hs ⟨-, -, now, -, heq⟩
  have hexec := sound_exec k now hstmt hs
  rwa [heq] at hexec

/-- A call of `toggleMotor`: its writes use no flag, and leave the uses of the code behind them. -/
theorem outline_toggleMotor {toggle : Toggle} {rest : List Stmt}
    (hrest : ∀ s, Sound rest s → Outlined k rest s)
    {s : System} (h : Sound (.toggleMotor toggle :: rest) s) :
    Outlined k (.toggleMotor toggle :: rest) s := by
  refine .cons _ (stable_sound k _) (fun _ h ↦ h.sleepsWell) ?_ h
  rintro s s' pushed ⟨hawake, hlisten, ⟨hflag1, hflag2⟩⟩ ⟨-, -, now, -, heq⟩
  cases heq
  have hwrites := hlisten.writes (sweep toggle)
  refine outline_plain _ (by simp [Stmt.plain]) hrest
    ⟨hawake, ⟨hwrites.armed1, hwrites.armed2, hwrites.attached⟩, ⟨?_, ?_⟩⟩
  · rw [nextUse1_map_append fun _ _ ↦ rfl]
    exact hflag1
  · rw [nextUse2_map_append fun _ _ ↦ rfl]
    exact hflag2

/-! ### The outline of `loop` and of `setup` -/

/-- The test of the opening takes the flag down, or finds it down. -/
theorem outline_ifAlarm2 {s : System} (h : Sound [.ifAlarm2] s) : Outlined k [.ifAlarm2] s := by
  refine .cons _ (stable_sound k _) (fun _ h ↦ h.sleepsWell) ?_ h
  rintro s s' pushed ⟨hawake, hlisten, hused⟩ ⟨-, -, now, -, heq⟩
  have hdown1 : s.rtc.a1f = none := by_contra fun hup ↦ hused.flag1 hup rfl
  cases hflag : s.rtc.a2f with
  | none =>
    simp only [exec, hflag] at heq
    cases heq
    exact outline_nil ⟨hawake, ⟨hlisten.armed1, hlisten.armed2, hlisten.attached⟩,
      ⟨fun h ↦ absurd hdown1 h, fun h ↦ absurd hflag h⟩⟩
  | some t =>
    simp only [exec, hflag] at heq
    cases heq
    refine outline_plain [.clearAlarm2] rfl
      (fun _ h ↦ outline_toggleMotor (fun _ h ↦ outline_nil h) h) ?_
    exact ⟨hawake, ⟨hlisten.armed1, hlisten.armed2, hlisten.attached⟩,
      ⟨fun h ↦ absurd hdown1 h, fun h ↦ absurd rfl h⟩⟩

/-- The test of the closing, with that of the opening behind it. If the flag is up, the schedule
comes first, which clears both. -/
theorem outline_ifAlarm1 {s : System} (h : Sound [.ifAlarm1, .ifAlarm2] s) :
    Outlined (.withTable table) [.ifAlarm1, .ifAlarm2] s := by
  refine .cons _ (stable_sound _ _) (fun _ h ↦ h.sleepsWell) ?_ h
  rintro s s' pushed ⟨hawake, hlisten, hused⟩ ⟨-, -, now, -, heq⟩
  cases hflag : s.rtc.a1f with
  | none =>
    simp only [exec, hflag] at heq
    cases heq
    exact outline_ifAlarm2 ⟨hawake, ⟨hlisten.armed1, hlisten.armed2, hlisten.attached⟩,
      ⟨fun h ↦ absurd hflag h, hused.flag2⟩⟩
  | some t =>
    simp only [exec, hflag] at heq
    cases heq
    -- The flag is taken, and `makeSchedule` arms both alarms again before the controller sleeps.
    have hsound : Sound ([.clearAlarm1] ++ (.toggleMotor .Close ::
        ((Sketch.withTable table).makeSchedule ++ [.ifAlarm2]))) (s.takeAlarm1 t) := by
      have hmake : WillListen ((Sketch.withTable table).makeSchedule ++ [.ifAlarm2])
          (s.takeAlarm1 t) := willListen_makeSchedule rfl rfl hlisten.attached
      refine ⟨hawake, ⟨hmake.armed1, hmake.armed2, hmake.attached⟩,
        ⟨fun h ↦ absurd rfl h, fun _ ↦ ?_⟩⟩
      · exact ne_of_eq_of_ne (nextUse2_planSchedule false [.ifAlarm2]) (Option.some_ne_none _)
    exact outline_plain [.clearAlarm1] rfl (fun _ h ↦ outline_toggleMotor
      (fun _ h ↦ outline_plain _ makeSchedule_plain (fun _ h ↦ outline_ifAlarm2 h) h) h) hsound

/-- The invariant from falling asleep until `isAlarm` is tested: the alarms are armed and the
interrupt attached, no flag is up without a wake-up on its way, and the mark is set once awake. -/
structure Waiting (s : System) : Prop where
  armed1 : s.rtc.armed1 = true
  armed2 : s.rtc.armed2 = true
  attached : s.attached = true
  isAlarm : s.asleep = false → s.isAlarm = true
  down : SleepsWell s

/-- **Asleep**, a flag that goes up makes the pin fall, and awake it keeps `isAlarm` set. -/
theorem stable_waiting (code : List Stmt) :
    (program k InTime).Stable code Waiting := by
  rintro s s' ⟨harmed1, harmed2, hattached, halarm, hdown⟩ (hint | ⟨htick, -⟩)
  · obtain ⟨-, rfl⟩ := interrupt_eq_some hint
    exact ⟨harmed1, harmed2, hattached, fun _ ↦ rfl, fun h ↦ absurd h Bool.false_ne_true⟩
  · obtain ⟨r, hr, rfl⟩ := tick_eq_some htick
    obtain ⟨-, -, -, harmed1', harmed2', -, -⟩ := Rtc.tick_eq_some hr
    refine ⟨harmed1'.trans harmed1, harmed2'.trans harmed2, hattached, halarm, ?_⟩
    intro hasleep hpending
    rw [pending_setRtc, Bool.or_eq_false_iff] at hpending
    obtain ⟨hdown1, hdown2⟩ := hdown hasleep hpending.1
    have hhigh : s.rtc.intLow = false := by simp [Rtc.intLow, hdown1, hdown2]
    have hhigh' : r.intLow = false := by simpa [hattached, hhigh] using hpending.2
    simpa [Rtc.intLow, harmed1', harmed1, harmed2', harmed2] using hhigh'

/-- One round of `loop`: it falls asleep with both flags down and wakes with the mark set, so that
it does test what has woken it. -/
theorem outline_loop {s : System} (h : Ready s) :
    Outlined (.withTable table) Sketch.loop s := by
  have hsound : Sound Sketch.loop s :=
    ⟨h.awake, ⟨h.armed1, h.armed2, h.attached⟩,
      ⟨fun hup ↦ absurd h.down1 hup, fun hup ↦ absurd h.down2 hup⟩⟩
  refine .cons _ (stable_sound _ _) (fun _ h ↦ h.sleepsWell) ?_ hsound
  rintro s s' pushed ⟨hawake, hlisten, hused⟩ ⟨-, hpending, now, -, heq⟩
  cases heq
  -- nothing is up: `powerDown` comes before any use of a flag
  have hdown1 : s.rtc.a1f = none := by_contra fun hup ↦ hused.flag1 hup rfl
  have hdown2 : s.rtc.a2f = none := by_contra fun hup ↦ hused.flag2 hup rfl
  have hattached : s.attached = true := hlisten.attached
  refine .cons Waiting (stable_waiting _) (fun _ h ↦ h.down) ?_
    ⟨hlisten.armed1, hlisten.armed2, hattached, fun h ↦ absurd h.symm Bool.false_ne_true,
      fun _ _ ↦ ⟨hdown1, hdown2⟩⟩
  rintro s s' pushed ⟨harmed1, harmed2, hattached, halarm, hdown⟩ ⟨hawake, -, now, -, heq⟩
  have hread := of_forall_sysTime (P := fun s ↦ Waiting s ∧ s.asleep = false) (.withTable table) now
    fun _ ↦ ⟨⟨harmed1, harmed2, hattached, halarm, hdown⟩, hawake⟩
  cases heq
  refine .cons (fun s ↦ Waiting s ∧ s.asleep = false) ?_ (fun _ h ↦ h.1.down) ?_ hread
  · rintro s s' ⟨hwaiting, hawake⟩ henv
    refine ⟨stable_waiting _ s s' hwaiting henv, ?_⟩
    rcases henv with hint | ⟨htick, -⟩
    · obtain ⟨-, rfl⟩ := interrupt_eq_some hint
      rfl
    · obtain ⟨r, -, rfl⟩ := tick_eq_some htick
      exact hawake
  · rintro s s' pushed ⟨⟨harmed1, harmed2, hattached, halarm, -⟩, hawake⟩ ⟨-, -, now, -, heq⟩
    simp only [exec, halarm hawake, if_true] at heq
    cases heq
    refine outline_plain [.clearIsAlarm] rfl (fun _ h ↦ outline_ifAlarm1 h) ?_
    exact ⟨hawake, ⟨harmed1, harmed2, hattached⟩,
      ⟨fun _ ↦ Option.some_ne_none _, fun _ ↦ Option.some_ne_none _⟩⟩

/-- `setup`, from power-up with any flags up or down: it clears both before it attaches the
interrupt. -/
theorem outline_setup (r : Rtc) :
    Outlined (.withTable table) (Sketch.withTable table).setup (powerUp r) := by
  have hplain : (Sketch.withTable table).setup.all Stmt.plain = true := by
    rw [Sketch.setup, List.all_append, List.all_append, makeSchedule_plain]
    rfl
  have hcode : (Sketch.withTable table).setup = (Sketch.withTable table).prepare ++
      (.refreshDate :: ((Sketch.withTable table).planSchedule ++ [.clearIsAlarm])) := rfl
  have hsound : Sound (Sketch.withTable table).setup (powerUp r) := by
    rw [hcode]
    refine ⟨rfl, ⟨armedAfter1_planSchedule [.clearIsAlarm] _,
      armedAfter2_planSchedule [.clearIsAlarm] _, ?_⟩,
      ⟨fun _ ↦ Option.some_ne_none _, fun _ ↦ Option.some_ne_none _⟩⟩
    exact attachedAfter_of_mem (by simp [Sketch.prepare]) _
  rw [← List.append_nil (Sketch.withTable table).setup] at hsound ⊢
  exact outline_plain _ hplain (fun _ h ↦ outline_nil h) hsound

end Outline

/-- **No wake-up is lost** in a run whose flags go up in time: whenever the controller sleeps with
no interrupt pending, both flags are down, so that the pin is high and the next match wakes it. -/
theorem asleep_flags_down {table : List AddEvent} {r : Rtc} {c : List Stmt × System}
    (hrun : ReachableIf (.withTable table) InTime r c) (hasleep : c.2.asleep = true)
    (hpending : c.2.pending = false) : c.2.rtc.a1f = none ∧ c.2.rtc.a2f = none :=
  Program.safe_of_run (fun _ h ↦ outline_loop h) (outline_setup r) hrun.run hasleep hpending

/-- Power comes on two seconds before ten. The alarm of ten o'clock fires at the end of `setup`,
after `isAlarm = false`, and the controller goes to sleep with its flag up. -/
def tooLate : List Action :=
  List.replicate 20 (.exec 946720798) ++
    [.tick, .tick, .interrupt, .exec 946720798, .exec 946720798]

/-- The run as it is evaluated: asleep, no interrupt pending, and the flag of the opening up. -/
theorem tooLate_run :
    ((runActions (.withTable tenOClock) (fun _ _ ↦ True) tooLate
      ((Sketch.withTable tenOClock).setup, powerUp beforeTen)).map
        fun c ↦ (c.2.asleep, c.2.pending, c.2.rtc.a2f)) = some (true, false, some 946720800) := by
  decide +kernel

/-- **Without the condition a wake-up is lost**, by a match in the last statements of `setup`. -/
theorem wakeup_lost :
    ¬ ∀ table : List AddEvent, (∀ e ∈ table, 1 ≤ e.openForSeconds.toNat) → ∀ r c,
      Reachable (.withTable table) r c → c.2.asleep = true → c.2.pending = false →
        c.2.rtc.a1f = none ∧ c.2.rtc.a2f = none := by
  intro h
  obtain ⟨c, hrun, hc⟩ := Option.map_eq_some_iff.1 tooLate_run
  simp only [Prod.mk.injEq] at hc
  have hdown := h tenOClock (by decide) beforeTen c (reachableIf_of_runActions hrun).reachable
    hc.1 hc.2.1
  rw [hc.2.2] at hdown
  exact Option.some_ne_none _ hdown.2

/-- A quicker `setup`: the controller sleeps before ten o'clock, opens the hatch then, and sleeps
again. -/
def onTime : List Action :=
  List.replicate 22 (.exec 946720798) ++
    (.tick :: .tick :: .interrupt :: List.replicate 190 (.exec 946720800))

/-- The run as it is evaluated, with the condition checked at every tick. -/
theorem onTime_run :
    ((runActions (.withTable tenOClock) InTime onTime
      ((Sketch.withTable tenOClock).setup, powerUp beforeTen)).map
        fun c ↦ (c.2.asleep, c.2.pending, c.2.commanded.head?)) = some (true, false, some 180) := by
  decide +kernel

/-- Such a run sleeps with both flags down after the opening at ten. -/
theorem asleep_flags_down_onTime :
    ∃ c, ReachableIf (.withTable tenOClock) InTime beforeTen c ∧ c.2.asleep = true ∧
      c.2.commanded.head? = some 180 ∧ c.2.rtc.a1f = none ∧ c.2.rtc.a2f = none := by
  obtain ⟨c, hrun, hc⟩ := Option.map_eq_some_iff.1 onTime_run
  simp only [Prod.mk.injEq] at hc
  have hreach := reachableIf_of_runActions hrun
  exact ⟨c, hreach, hc.1, hc.2.2, asleep_flags_down hreach hc.1 hc.2.1⟩

end Machine.Wakeup
