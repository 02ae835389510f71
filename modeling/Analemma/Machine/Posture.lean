import Analemma.Machine.Flags
import Analemma.Schedule.Constructors

/-!
# The hatch moves in small steps

`toggleMotor` assumes, without looking, that the servo stands at the opposite end. Where it does,
every write differs from the one before by at most a degree; where it does not, the hatch jumps.

The servo stands right for every call of `toggleMotor` as long as no alarm is answered out of turn:
the flag of alarm 1 goes up with the hatch open, and the flag of alarm 2 with the hatch closed,
unless the flag is cleared untested or not used any more, or the controller sleeps with the pin low,
so that it will not wake again (`InTurn`). Then all the commanded angles follow each other smoothly
(`commanded_steady`). The invariant compares the angle with the moves of the code that is left
(`Fits`), and with the flags that the code will test (`FlagsInTurn`).

`InTurn` is a condition on the state before a tick and on the code that is left, and it asks nothing
of a flag that nobody will test: `nextUse1` and `nextUse2` say whether the code tests a flag or
clears it first. Without the condition the result fails. A closing alarm that goes off while `loop`
is on its way from an opening alarm to its tests is answered first, and the hatch, which is closed,
is swept as if it were open (`hatch_jumps`).

The proof is an outline of the sketch with one assertion, `Poised`, before each statement. The case
that needs care is sleep: a controller that is `Stuck` will never test a flag again, and there the
assertion is given up (`Resting`).
-/

namespace Machine.Posture

open DS3231 Schedule Interleaving

/-- Angles, the last one first, each at most a degree away from the one before. It is what a servo
can follow without a jump. -/
def Smooth (angles : List ℤ) : Prop := angles.IsChain fun a b ↦ (a - b).natAbs ≤ 1

instance : DecidablePred Smooth := fun angles ↦
  inferInstanceAs (Decidable (angles.IsChain fun a b ↦ (a - b).natAbs ≤ 1))

/-- The controller sleeps with the pin low: there will be no edge to wake it, since the pin only
goes up when the code clears a flag. -/
def Stuck (s : System) : Prop := s.asleep = true ∧ s.pending = false ∧ s.rtc.intLow = true

/-- The flag of alarm 1 is up after the next tick. -/
def upNext1 (s : System) : Bool := s.rtc.a1f.isSome || decide (Rises1 s)

/-- The next tick raises a flag that the code will test only if it is the turn of its alarm: alarm
1, which closes, finds the hatch at 180, and alarm 2, which opens, finds it at 0. -/
def InTurn (code : List Stmt) (s : System) : Prop :=
  Stuck s ∨
    (Rises1 s → nextUse1 code = some .test → s.commanded.head? = some 180) ∧
      (Rises2 s → nextUse2 (upNext1 s) code = some .test → s.commanded.head? = some 0)

instance : DecidablePred Stuck := fun _ ↦ inferInstanceAs (Decidable (_ ∧ _ ∧ _))

instance (code : List Stmt) : DecidablePred (InTurn code) := fun _ ↦
  inferInstanceAs (Decidable (_ ∨ _ ∧ _))

/-! ### The invariant -/

/-- The code tests neither flag before it clears it: what the flags are now has no part in what it
will do. -/
def Untested (code : List Stmt) : Prop :=
  nextUse1 code ≠ some .test ∧ ∀ up1, nextUse2 up1 code ≠ some .test

/-- The moves of the code fit a servo that stands at an angle, and the code tests no flag before it
has made them. By recursion on the code: a write moves by a degree at most, and a call of
`toggleMotor` starts from the opposite end and leads to its own. -/
def Fits : List Stmt → ℤ → Prop
  | [], angle => angle = 0 ∨ angle = 180
  | .write a :: code, angle => (a - angle).natAbs ≤ 1 ∧ Untested code ∧ Fits code a
  | .toggleMotor toggle :: code, angle =>
    angle = (1 - toggle.toInt) * 180 ∧ Untested code ∧ Fits code (toggle.toInt * 180)
  | .clearAlarm1 :: code, angle => nextUse2 true code = nextUse2 false code ∧ Fits code angle
  | _ :: code, angle => Fits code angle

/-- A flag that is up and will be tested is the one whose turn it is. While it waits to be tested,
the hatch does not move, by `Fits`. -/
structure FlagsInTurn (angle : ℤ) (code : List Stmt) (s : System) : Prop where
  flag1 : s.rtc.a1f ≠ none → nextUse1 code = some .test → angle = 180
  flag2 : s.rtc.a2f ≠ none → nextUse2 s.rtc.a1f.isSome code = some .test → angle = 0

/-- The servo stands at an angle that suits the flags and the code: the invariant, with the angle as
a parameter. -/
structure Posed (angle : ℤ) (code : List Stmt) (s : System) : Prop where
  listen : WillListen code s
  smooth : Smooth s.commanded
  /-- The angle is the one that was commanded last. -/
  head : s.commanded.head? = some angle
  fits : Fits code angle
  turn : FlagsInTurn angle code s

/-- The invariant at a code point where the controller is awake. It stands before every statement of
the outline. -/
structure Poised (code : List Stmt) (s : System) : Prop where
  awake : s.asleep = false
  posed : ∃ angle, Posed angle code s

/-- Code that tests the flag of alarm 2 even where that of alarm 1 is up does so where it is
down. -/
theorem nextUse2_false_of_true {code : List Stmt} (h : nextUse2 true code = some .test) :
    nextUse2 false code = some .test := by
  induction code with
  | nil => cases h
  | cons stmt code ih =>
    cases stmt <;> first | exact ih h | exact h | cases h

/-- A tick in turn keeps the flags in turn: a flag that was up is up, and one that goes up is in
turn by the condition. -/
theorem FlagsInTurn.tick {angle : ℤ} {code : List Stmt} {s : System} {r : Rtc}
    (h : FlagsInTurn angle code s) (hhead : s.commanded.head? = some angle)
    (hr : s.rtc.tick = some r) (hstuck : ¬ Stuck s) (hturn : InTurn code s) :
    FlagsInTurn angle code (s.setRtc r) := by
  obtain ⟨-, -, -, -, -, hflag1, hflag2⟩ := Rtc.tick_eq_some hr
  obtain ⟨hturn1, hturn2⟩ := hturn.resolve_left hstuck
  have hup1 : r.a1f.isSome = upNext1 s := by
    rw [hflag1, upNext1]
    cases hold : s.rtc.a1f with
    | some t => rfl
    | none =>
      by_cases hhit : s.rtc.alarm1.Matches (s.rtc.time + 1) <;>
        simp [Rtc.raise, Rises1, hold, hhit]
  rw [hhead] at hturn1 hturn2
  refine ⟨fun hup htest ↦ ?_, fun hup htest ↦ ?_⟩
  · rw [rtc_setRtc, hflag1] at hup
    rcases raise_ne_none hup with hup | hrises
    · exact h.flag1 hup htest
    · exact Option.some.inj (hturn1 hrises htest)
  · rw [rtc_setRtc, hflag2] at hup
    rw [rtc_setRtc, hup1] at htest
    rcases raise_ne_none hup with hup | hrises
    · refine h.flag2 hup ?_
      -- the flag of alarm 1 may have gone up, but it can only take the test away
      cases hold : s.rtc.a1f.isSome with
      | true => rwa [upNext1, hold, Bool.true_or] at htest
      | false =>
        cases hnew : upNext1 s with
        | true => exact nextUse2_false_of_true (by rwa [hnew] at htest)
        | false => rwa [hnew] at htest
    · exact Option.some.inj (hturn2 hrises htest)

/-- **Ticks and interrupts** keep the pose. -/
theorem Posed.env {k : Sketch} {angle : ℤ} {code : List Stmt} {s s' : System}
    (h : Posed angle code s) (hstuck : ¬ Stuck s) (henv : (program k InTurn).env code s s') :
    Posed angle code s' := by
  have hlisten := h.listen.env henv
  rcases henv with hint | ⟨htick, hturn⟩
  · obtain ⟨-, rfl⟩ := interrupt_eq_some hint
    exact ⟨hlisten, h.smooth, h.head, h.fits, ⟨h.turn.flag1, h.turn.flag2⟩⟩
  · obtain ⟨r, hr, rfl⟩ := tick_eq_some htick
    exact ⟨hlisten, h.smooth, h.head, h.fits, h.turn.tick h.head hr hstuck hturn⟩

/-- What is to hold in every configuration: the angles commanded so far are smooth, and a call of
`toggleMotor` finds the servo at the opposite end. -/
structure Steady (code : List Stmt) (s : System) : Prop where
  smooth : Smooth s.commanded
  opposite : ∀ toggle rest, code = .toggleMotor toggle :: rest →
    s.commanded.head? = some ((1 - toggle.toInt) * 180)

/-- The invariant gives what is to hold everywhere: `Fits` says where the servo stands before a call
of `toggleMotor`. -/
theorem Poised.steady {code : List Stmt} {s : System} (h : Poised code s) : Steady code s := by
  obtain ⟨-, angle, hposed⟩ := h
  refine ⟨hposed.smooth, ?_⟩
  rintro toggle rest rfl
  exact hposed.head.trans (congrArg some hposed.fits.1)

/-- Ticks and interrupts keep the invariant at every code point. -/
theorem stable_poised (k : Sketch) (code : List Stmt) :
    (program k InTurn).Stable code (Poised code) := by
  rintro s s' ⟨hawake, angle, hposed⟩ henv
  have hstuck : ¬ Stuck s := fun h ↦ absurd (hawake.symm.trans h.1) Bool.false_ne_true
  refine ⟨?_, angle, hposed.env hstuck henv⟩
  rcases henv with hint | ⟨htick, -⟩
  · obtain ⟨-, rfl⟩ := interrupt_eq_some hint
    rfl
  · obtain ⟨r, -, rfl⟩ := tick_eq_some htick
    exact hawake

/-- A plain statement keeps the invariant: it moves the servo only by one of the writes that `Fits`
foresees, and of the flags it can only clear one. -/
theorem poised_exec (k : Sketch) (now : UInt32) {stmt : Stmt} (hplain : stmt.plain = true)
    {code : List Stmt} {s : System} (h : Poised (stmt :: code) s) :
    (exec k now s stmt).2 = [] ∧ Poised code (exec k now s stmt).1 := by
  obtain ⟨hawake, angle, hlisten, hsmooth, hhead, hfits, ⟨hflag1, hflag2⟩⟩ := h
  have hlisten' := hlisten.exec_plain k now hplain
  cases stmt with
  | toggleMotor | ifIsAlarm | ifAlarm1 | ifAlarm2 | powerDown => cases hplain
  | write a =>
    obtain ⟨hstep, huntested, hfits⟩ := hfits
    refine ⟨rfl, hawake, a, hlisten', ?_, rfl, hfits, ⟨fun _ h ↦ absurd h huntested.1,
      fun _ h ↦ absurd h (huntested.2 _)⟩⟩
    -- The next angle is a step from the last one, which heads the list.
    obtain ⟨angles, hangles⟩ := List.head?_eq_some_iff.1 hhead
    simp only [exec, hangles] at hsmooth ⊢
    exact List.isChain_cons_cons.2 ⟨hstep, hsmooth⟩
  -- Taking back the first flag leaves the second as it was, with the same use ahead.
  | clearAlarm1 =>
    refine ⟨rfl, hawake, angle, hlisten', hsmooth, hhead, hfits.2, ⟨fun h ↦ absurd rfl h, ?_⟩⟩
    intro hup htest
    refine hflag2 hup ?_
    have hfalse : nextUse2 false code = some .test := htest
    cases s.rtc.a1f.isSome with
    | true => exact hfits.1.trans hfalse
    | false => exact hfalse
  | clearAlarm2 =>
    exact ⟨rfl, hawake, angle, hlisten', hsmooth, hhead, hfits, ⟨hflag1, fun h ↦ absurd rfl h⟩⟩
  | refreshDate => exact ⟨rfl, of_forall_sysTime k now fun _ ↦ ⟨hawake, angle,
      ⟨hlisten.armed1, hlisten.armed2, hlisten.attached⟩, hsmooth, hhead, hfits,
      ⟨hflag1, hflag2⟩⟩⟩
  | readJournal | updateJournal | beginClock | armAlarm1 | armAlarm2 | writeAlarm1
    | writeAlarm2 | resetNextEvent | addEvent | clearIsAlarm | attachInterrupt =>
    exact ⟨rfl, hawake, angle, hlisten', hsmooth, hhead, hfits, ⟨hflag1, hflag2⟩⟩

/-! ### The outline -/

/-- An outline up to the next start of `loop`. -/
abbrev Outlined (k : Sketch) : List Stmt → System → Prop :=
  (program k InTurn).Outline Steady (Poised [])

section Outline

variable {k : Sketch} {table : List AddEvent}

/-- Where the code is at its end, the next round starts from the invariant. -/
theorem outline_nil {s : System} (h : Poised [] s) :
    Outlined k [] s :=
  .nil _ (stable_poised k []) (fun _ h ↦ ⟨h.steady, h⟩) h

/-- A block of plain statements, by the lemma on one of them. -/
theorem outline_plain (block : List Stmt) {rest : List Stmt} (hplain : block.all Stmt.plain = true)
    (hrest : ∀ s, Poised rest s → Outlined k rest s)
    {s : System} (h : Poised (block ++ rest) s) : Outlined k (block ++ rest) s := by
  refine .block (stable_poised k) (fun _ _ h ↦ h.steady) ?_ (List.all_eq_true.1 hplain) hrest h
  rintro stmt code s s' pushed hstmt hs ⟨-, -, now, -, heq⟩
  have hexec := poised_exec k now hstmt hs
  rwa [heq] at hexec

/-- The writes of angles that follow each other smoothly. -/
theorem fits_writes {rest : List Stmt} (huntested : Untested rest) {stop : ℤ}
    (hrest : Fits rest stop) :
    ∀ (angles : List ℤ) (angle : ℤ), (angle :: angles).IsChain (fun a b ↦ (b - a).natAbs ≤ 1) →
      (angle :: angles).getLast? = some stop → Fits (angles.map .write ++ rest) angle := by
  intro angles
  induction angles with
  | nil =>
    intro angle _ hlast
    cases hlast
    exact hrest
  | cons a angles ih =>
    intro angle hchain hlast
    rw [List.isChain_cons_cons] at hchain
    refine ⟨hchain.1, ⟨?_, fun up1 ↦ ?_⟩, ih a hchain.2 (by simpa using hlast)⟩
    · exact ne_of_eq_of_ne (nextUse1_map_append (fun _ _ ↦ rfl) angles rest) huntested.1
    · exact ne_of_eq_of_ne (nextUse2_map_append (fun _ _ ↦ rfl) angles rest) (huntested.2 up1)

/-- A sweep goes in steps of a degree, the first of which stays at the end where the servo
stands. -/
theorem sweep_isChain : ∀ toggle : Toggle, ((1 - toggle.toInt) * 180 :: sweep toggle).IsChain
    (fun a b ↦ (b - a).natAbs ≤ 1) := by
  rintro (_ | _) <;> decide +kernel

/-- And it ends at the end it is to reach. -/
theorem sweep_getLast? : ∀ toggle : Toggle,
    ((1 - toggle.toInt) * 180 :: sweep toggle).getLast? = some (toggle.toInt * 180) := by
  rintro (_ | _) <;> decide +kernel

/-- A call of `toggleMotor` with the servo at the opposite end: the writes of the sweep fit, and
behind them the servo stands at the other end. -/
theorem outline_toggleMotor {toggle : Toggle} {rest : List Stmt}
    (hrest : ∀ s, Poised rest s → Outlined k rest s)
    {s : System} (h : Poised (.toggleMotor toggle :: rest) s) :
    Outlined k (.toggleMotor toggle :: rest) s := by
  refine .cons _ (stable_poised k _) (fun _ h ↦ h.steady) ?_ h
  rintro s s' pushed ⟨hawake, angle, hlisten, hsmooth, hhead, ⟨rfl, huntested, hfits⟩, -⟩
    ⟨-, -, now, -, heq⟩
  cases heq
  have hwrites := hlisten.writes (sweep toggle)
  refine outline_plain _ (by simp [Stmt.plain]) hrest ⟨hawake, _,
    ⟨hwrites.armed1, hwrites.armed2, hwrites.attached⟩, hsmooth, hhead,
    fits_writes huntested hfits _ _ (sweep_isChain toggle) (sweep_getLast? toggle), ⟨?_, ?_⟩⟩
  · rw [nextUse1_map_append fun _ _ ↦ rfl]
    exact fun _ h ↦ absurd h huntested.1
  · rw [nextUse2_map_append fun _ _ ↦ rfl]
    exact fun _ h ↦ absurd h (huntested.2 _)

/-! ### The outline of `loop` and of `setup` -/

/-- The test of the opening: the flag that is up finds the hatch closed, so that the sweep to 180
fits. -/
theorem outline_ifAlarm2 {s : System} (h : Poised [.ifAlarm2] s) :
    Outlined k [.ifAlarm2] s := by
  refine .cons _ (stable_poised k _) (fun _ h ↦ h.steady) ?_ h
  rintro s s' pushed ⟨hawake, angle, hlisten, hsmooth, hhead, hfits, hturn⟩ ⟨-, -, now, -, heq⟩
  have hlisten' : WillListen [] s := ⟨hlisten.armed1, hlisten.armed2, hlisten.attached⟩
  cases hflag : s.rtc.a2f with
  | none =>
    simp only [exec, hflag] at heq
    cases heq
    exact outline_nil ⟨hawake, angle, hlisten', hsmooth, hhead, hfits,
      ⟨fun _ h ↦ absurd h.symm (Option.some_ne_none _), fun h ↦ absurd hflag h⟩⟩
  | some t =>
    simp only [exec, hflag] at heq
    cases heq
    have hangle : angle = 0 := hturn.flag2 (by rw [hflag]; exact Option.some_ne_none t) rfl
    refine outline_plain [.clearAlarm2] rfl
      (fun _ h ↦ outline_toggleMotor (fun _ h ↦ outline_nil h) h) ?_
    refine ⟨hawake, angle, ⟨hlisten.armed1, hlisten.armed2, hlisten.attached⟩, hsmooth, hhead, ?_,
      ⟨fun _ h ↦ absurd h.symm (Option.some_ne_none _), fun h ↦ absurd rfl h⟩⟩
    exact ⟨hangle, ⟨fun h ↦ absurd h.symm (Option.some_ne_none _),
      fun _ h ↦ absurd h.symm (Option.some_ne_none _)⟩, Or.inr rfl⟩

/-- `makeSchedule` moves nothing, and clears both flags. -/
theorem fits_makeSchedule {angle : ℤ} (rest : List Stmt)
    (huses : nextUse2 true rest = nextUse2 false rest) (hrest : Fits rest angle) :
    Fits ((Sketch.withTable table).makeSchedule ++ rest) angle := by
  have hadds : ∀ (l : List AddEvent) (code : List Stmt), Fits code angle →
      Fits (l.map .addEvent ++ code) angle := by
    intro l code hcode
    induction l with
    | nil => exact hcode
    | cons e l ih => exact ih
  rw [Sketch.makeSchedule, List.cons_append, planSchedule_append]
  exact hadds table _ ⟨huses, hrest⟩

/-- Nor does it test one: what the flags were before it has no consequences. -/
theorem untested_makeSchedule (rest : List Stmt) :
    Untested ((Sketch.withTable table).makeSchedule ++ rest) :=
  ⟨ne_of_eq_of_ne (nextUse1_planSchedule rest) (by decide),
    fun up1 ↦ ne_of_eq_of_ne (nextUse2_planSchedule up1 rest) (by decide)⟩

/-- The test of the closing, with that of the opening behind it: the closing sweeps the open hatch
to 0, and the schedule after it clears both flags. -/
theorem outline_ifAlarm1 {s : System} (h : Poised [.ifAlarm1, .ifAlarm2] s) :
    Outlined (.withTable table) [.ifAlarm1, .ifAlarm2] s := by
  refine .cons _ (stable_poised _ _) (fun _ h ↦ h.steady) ?_ h
  rintro s s' pushed ⟨hawake, angle, hlisten, hsmooth, hhead, hfits, hturn⟩ ⟨-, -, now, -, heq⟩
  cases hflag : s.rtc.a1f with
  | none =>
    simp only [exec, hflag] at heq
    cases heq
    refine outline_ifAlarm2 ⟨hawake, angle,
      ⟨hlisten.armed1, hlisten.armed2, hlisten.attached⟩, hsmooth, hhead, hfits,
      ⟨fun h ↦ absurd hflag h, fun hup _ ↦ hturn.flag2 hup ?_⟩⟩
    rw [hflag]
    rfl
  | some t =>
    simp only [exec, hflag] at heq
    cases heq
    -- The flag is up in turn, so the hatch stands open and the sweep of the closing fits.
    have hangle : angle = 180 := hturn.flag1 (by rw [hflag]; exact Option.some_ne_none t) rfl
    have hmake : WillListen ((Sketch.withTable table).makeSchedule ++ [.ifAlarm2])
        (s.takeAlarm1 t) := willListen_makeSchedule rfl rfl hlisten.attached
    have huntested := @untested_makeSchedule table [.ifAlarm2]
    have hpoised : Poised ([.clearAlarm1] ++ (.toggleMotor .Close ::
        ((Sketch.withTable table).makeSchedule ++ [.ifAlarm2]))) (s.takeAlarm1 t) := by
      refine ⟨hawake, angle, ⟨hmake.armed1, hmake.armed2, hmake.attached⟩, hsmooth, hhead,
        ⟨?_, hangle, huntested, fits_makeSchedule [.ifAlarm2] rfl (Or.inl rfl)⟩,
        ⟨fun h ↦ absurd rfl h, fun _ h ↦ absurd h (huntested.2 _)⟩⟩
      exact (nextUse2_planSchedule true [.ifAlarm2]).trans
        (nextUse2_planSchedule false [.ifAlarm2]).symm
    exact outline_plain [.clearAlarm1] rfl (fun _ h ↦ outline_toggleMotor
      (fun _ h ↦ outline_plain _ makeSchedule_plain (fun _ h ↦ outline_ifAlarm2 h) h) h) hpoised

/-- A flag stays up. -/
theorem raise_isSome {flag : Option ℕ} {hit : Prop} [Decidable hit] {t : ℕ}
    (h : flag.isSome = true) : (Rtc.raise flag hit t).isSome = true := by
  rw [Rtc.raise, Option.isSome_or, h, Bool.true_or]

/-- While the pin is low, no tick makes an edge. -/
theorem Stuck.tick {s s' : System} (h : Stuck s) (htick : tick s = some s') : Stuck s' := by
  obtain ⟨hasleep, hpending, hlow⟩ := h
  obtain ⟨r, hr, rfl⟩ := tick_eq_some htick
  obtain ⟨-, -, -, harmed1, harmed2, hflag1, hflag2⟩ := Rtc.tick_eq_some hr
  refine ⟨hasleep, by rw [pending_setRtc, hpending, hlow]; simp, ?_⟩
  rw [rtc_setRtc, Rtc.intLow, harmed1, harmed2, hflag1, hflag2]
  simp only [Rtc.intLow, Bool.or_eq_true, Bool.and_eq_true] at hlow ⊢
  exact hlow.imp (And.imp_right raise_isSome) (And.imp_right raise_isSome)

/-- The invariant from falling asleep until the controller runs on: it is stuck, or the servo stands
right for what will be tested. -/
structure Resting (s : System) : Prop where
  smooth : Smooth s.commanded
  posed : Stuck s ∨ ∃ angle, Posed angle [.refreshDate, .ifIsAlarm] s

/-- Asleep, a tick keeps the controller stuck or keeps the pose, and the interrupt routine finds it
posed. -/
theorem stable_resting : (program k InTurn).Stable [.refreshDate, .ifIsAlarm] Resting := by
  rintro s s' ⟨hsmooth, hposed⟩ henv
  by_cases hstuck : Stuck s
  · rcases henv with hint | ⟨htick, -⟩
    · exact absurd (hstuck.2.1.symm.trans (interrupt_eq_some hint).1) Bool.false_ne_true
    · refine ⟨?_, Or.inl (hstuck.tick htick)⟩
      obtain ⟨r, -, rfl⟩ := tick_eq_some htick
      exact hsmooth
  · obtain ⟨angle, hposed⟩ := hposed.resolve_left hstuck
    have hposed' := hposed.env hstuck henv
    exact ⟨hposed'.smooth, Or.inr ⟨angle, hposed'⟩⟩

/-- The test of `isAlarm`. Where the mark is not set no alarm is up that would be tested later, for
the controller listens. -/
theorem outline_ifIsAlarm {s : System} (h : Poised [.ifIsAlarm] s) :
    Outlined (.withTable table) [.ifIsAlarm] s := by
  refine .cons _ (stable_poised _ _) (fun _ h ↦ h.steady) ?_ h
  rintro s s' pushed ⟨hawake, angle, hlisten, hsmooth, hhead, hfits, hflag1, hflag2⟩
    ⟨-, -, now, -, heq⟩
  have hlisten' : WillListen [] s := ⟨hlisten.armed1, hlisten.armed2, hlisten.attached⟩
  cases halarm : s.isAlarm with
  | false =>
    simp only [exec, halarm] at heq
    cases heq
    exact outline_nil ⟨hawake, angle, hlisten', hsmooth, hhead, hfits,
      ⟨fun _ h ↦ absurd h.symm (Option.some_ne_none _),
        fun _ h ↦ absurd h.symm (Option.some_ne_none _)⟩⟩
  | true =>
    simp only [exec, halarm] at heq
    cases heq
    refine outline_plain [.clearIsAlarm] rfl (fun _ h ↦ outline_ifAlarm1 h) ?_
    exact ⟨hawake, angle, ⟨hlisten.armed1, hlisten.armed2, hlisten.attached⟩, hsmooth, hhead, hfits,
      ⟨hflag1, hflag2⟩⟩

/-- One round of `loop`. -/
theorem outline_loop {s : System} (h : Poised [] s) :
    Outlined (.withTable table) Sketch.loop s := by
  have hpoised : Poised Sketch.loop s := by
    obtain ⟨hawake, angle, hlisten, hsmooth, hhead, hfits, -⟩ := h
    refine ⟨hawake, angle, ⟨hlisten.armed1, hlisten.armed2, ?_⟩, hsmooth, hhead, hfits,
      ⟨fun _ h ↦ absurd h.symm (Option.some_ne_none _),
        fun _ h ↦ absurd h.symm (Option.some_ne_none _)⟩⟩
    exact hlisten.attached
  refine .cons _ (stable_poised _ _) (fun _ h ↦ h.steady) ?_ hpoised
  rintro s s' pushed ⟨hawake, angle, hlisten, hsmooth, hhead, hfits, -⟩ ⟨-, hpending, now, -, heq⟩
  cases heq
  have hresting : Resting { s with asleep := true } := by
    refine ⟨hsmooth, ?_⟩
    cases hlow : s.rtc.intLow with
    | true => exact Or.inl ⟨rfl, hpending, hlow⟩
    | false =>
      -- both alarms are armed, so the pin tells that both flags are down
      have harmed1 : s.rtc.armed1 = true := hlisten.armed1
      have harmed2 : s.rtc.armed2 = true := hlisten.armed2
      simp only [Rtc.intLow, harmed1, harmed2, Bool.true_and, Bool.or_eq_false_iff,
        Option.isSome_eq_false_iff, Option.isNone_iff_eq_none] at hlow
      exact Or.inr ⟨angle, ⟨hlisten.armed1, hlisten.armed2, hlisten.attached⟩, hsmooth, hhead,
        hfits, ⟨fun h ↦ absurd hlow.1 h, fun h ↦ absurd hlow.2 h⟩⟩
  refine .cons Resting stable_resting (fun _ h ↦ ⟨h.smooth, fun _ _ h ↦ by cases h⟩) ?_ hresting
  rintro s s' pushed ⟨-, hposed⟩ ⟨hawake, -, now, -, heq⟩
  have hstuck : ¬ Stuck s := fun h ↦ absurd (hawake.symm.trans h.1) Bool.false_ne_true
  have hpoised : Poised [.refreshDate, .ifIsAlarm] s := ⟨hawake, hposed.resolve_left hstuck⟩
  have hplain : Stmt.refreshDate.plain = true := rfl
  have hexec := poised_exec (.withTable table) now hplain hpoised
  rw [heq] at hexec
  obtain ⟨rfl, hnext⟩ := hexec
  exact outline_ifIsAlarm hnext

/-- `setup` from the write that closes the hatch on. -/
theorem poised_setup {s : System} (hawake : s.asleep = false) (hhead : s.commanded = [0]) :
    Poised ((Sketch.withTable table).setup.tail ++ []) s := by
  rw [List.append_nil]
  refine ⟨hawake, 0, ⟨armedAfter1_planSchedule [.clearIsAlarm] _,
    armedAfter2_planSchedule [.clearIsAlarm] _, ?_⟩, ?_, by rw [hhead]; rfl,
    ⟨rfl, fits_makeSchedule [.clearIsAlarm] rfl (Or.inl rfl)⟩, ⟨fun _ h ↦ ?_, fun _ h ↦ ?_⟩⟩
  · exact attachedAfter_of_mem (by simp [Sketch.setup, Sketch.prepare, Sketch.withTable]) _
  · rw [hhead]
    exact List.isChain_singleton 0
  · cases h
  · cases h

/-- `setup`, from power-up. -/
theorem outline_setup (r : Rtc) :
    Outlined (.withTable table) (Sketch.withTable table).setup (powerUp r) := by
  refine .cons (fun s ↦ s.asleep = false ∧ s.commanded = []) ?_ ?_ ?_ ⟨rfl, rfl⟩
  · rintro s s' ⟨hawake, hnone⟩ (hint | ⟨htick, -⟩)
    · obtain ⟨-, rfl⟩ := interrupt_eq_some hint
      exact ⟨rfl, hnone⟩
    · obtain ⟨r, -, rfl⟩ := tick_eq_some htick
      exact ⟨hawake, hnone⟩
  · rintro s ⟨-, hnone⟩
    exact ⟨by rw [hnone]; exact List.isChain_nil, fun _ _ h ↦ by cases h⟩
  · rintro s s' pushed ⟨hawake, hnone⟩ ⟨-, -, now, -, heq⟩
    cases heq
    have hpoised := @poised_setup table { s with commanded := 0 :: s.commanded }
      hawake (congrArg (List.cons 0) hnone)
    have hplain : (Sketch.withTable table).setup.all Stmt.plain = true := by
      rw [Sketch.setup, List.all_append, List.all_append, makeSchedule_plain]
      rfl
    have houtline := @outline_plain (.withTable table) (Sketch.withTable table).setup.tail [] hplain
      (fun _ h ↦ outline_nil h) _ hpoised
    rwa [List.append_nil] at houtline

end Outline

/-- **The hatch moves in small steps** in a run whose flags go up in turn: every angle that is
written differs from the one before by at most a degree, and `toggleMotor` is called with the servo
at the opposite end only. -/
theorem commanded_steady {table : List AddEvent} {r : Rtc} {c : List Stmt × System}
    (hrun : ReachableIf (.withTable table) InTurn r c) : Steady c.1 c.2 :=
  Program.safe_of_run (fun _ h ↦ outline_loop h) (outline_setup r) hrun.run

/-- The hatch closes a second after it opens. -/
def oneSecond : List AddEvent := [.daily 10 0 1]

/-- The closing alarm fires after the opening alarm has woken the controller, and before `loop` has
tested the flags: it tests the closing flag first. -/
def closesFirst : List Action :=
  List.replicate 22 (.exec 946720798) ++
    (.tick :: .tick :: .interrupt :: .tick :: List.replicate 7 (.exec 946720801))

/-- Two angles have been written: the hatch was told to stand at 0, and next at 180. -/
theorem closesFirst_run :
    ((runActions (.withTable oneSecond) (fun _ _ ↦ True) closesFirst
      ((Sketch.withTable oneSecond).setup, powerUp beforeTen)).map fun c ↦ c.2.commanded) =
        some [180, 0] := by
  decide +kernel

/-- **Without the condition the hatch jumps**, with a line as short as a second: the closing is
answered first, and its sweep begins at the end where the hatch is not. -/
theorem hatch_jumps :
    ¬ ∀ table : List AddEvent, (∀ e ∈ table, 1 ≤ e.openForSeconds.toNat) → ∀ r c,
      Reachable (.withTable table) r c → Steady c.1 c.2 := by
  intro h
  obtain ⟨c, hrun, hc⟩ := Option.map_eq_some_iff.1 closesFirst_run
  have hsteady := h oneSecond (by decide) beforeTen c (reachableIf_of_runActions hrun).reachable
  have hjump : ¬ Smooth [180, 0] := by decide
  exact hjump (hc ▸ hsteady.smooth)

/-- The hatch opens at ten o'clock, closes two minutes later, and the controller sleeps again. -/
def opensAndCloses : List Action :=
  List.replicate 22 (.exec 946720798) ++
    (.tick :: .tick :: .interrupt :: List.replicate 190 (.exec 946720800) ++
      (List.replicate 120 .tick ++ (.interrupt :: List.replicate 200 (.exec 946720920))))

/-- The run as it is evaluated, with the condition checked at every tick. -/
theorem opensAndCloses_run :
    ((runActions (.withTable tenOClock) InTurn opensAndCloses
      ((Sketch.withTable tenOClock).setup, powerUp beforeTen)).map
        fun c ↦ (c.2.commanded.length, c.2.commanded.head?)) = some (363, some 0) := by
  decide +kernel

/-- A run in turn: 363 angles are commanded, in steps of a degree, and the hatch is closed at the
end. -/
theorem commanded_steady_tenOClock :
    ∃ c, ReachableIf (.withTable tenOClock) InTurn beforeTen c ∧
      c.2.commanded.length = 363 ∧ c.2.commanded.head? = some 0 ∧ Steady c.1 c.2 := by
  obtain ⟨c, hrun, hc⟩ := Option.map_eq_some_iff.1 opensAndCloses_run
  simp only [Prod.mk.injEq] at hc
  have hreach := reachableIf_of_runActions hrun
  exact ⟨c, hreach, hc.1, hc.2, commanded_steady hreach⟩

end Machine.Posture
