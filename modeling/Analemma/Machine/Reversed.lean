import Analemma.Machine.Exposure
import Analemma.Machine.Posture

/-!
# The reversed sketch

`analemma_2` takes the picture the other way round: the hatch stands open and closes for the windows
of its table. It is `analemma_1` with the two calls of `toggleMotor` exchanged and with
`motor.write(180)` in `setup`; the alarms keep their parts, alarm 2 for the beginning of a window
and alarm 1 for its end.

It is modelled as it stands, and then seen in a mirror that turns every angle `a` to `180 - a` and
exchanges the two ends of the hatch (`mirror`): what the reversed sketch does is in the mirror what
the straight one does, step by step and both ways (`act_mirror`). So its runs are the mirrored runs
of the straight sketch with the same table (`reachable_mirror`), and what holds of these holds of it
the other way round: it performs its table (`performs_of_promptRun`), the hatch is closed exactly
in the windows of the calendar (`closed_in_windows`), and it moves in small steps
(`steady_of_reachableIf`).

The mirror is an involution on configurations (`mirror_mirror`), and so every statement about a step
turns into one about the other sketch by rewriting; only `exec_mirror` looks at the statements, one
case each. It is the source that is modelled, in `act` and in the bodies of the two tests, and the
mirror that is derived: `reachable_mirror` is an equivalence, so a property of the straight sketch
is not assumed of the reversed one but carried over.

The condition of the last result, `InTurn`, is stated for the reversed sketch in its own words, with
the angles exchanged, and compared with that of the straight one in `inTurn_mirror`. What is not
carried over here is the journal: `analemma_2` keeps one by the same code, and its records do not
depend on the direction in which the hatch turns.
-/

namespace Machine.Reversed

open DS3231 Schedule GreedyWindows

/-! ### The code -/

/-- `analemma_2`, with any table: `setup` begins with the write that opens the hatch, and the table,
the preparation and the journal are those of `Sketch.withTable`. -/
def reversed (table : List AddEvent) : Sketch :=
  { Sketch.withTable table with start := [.write 180, .readJournal, .beginClock] }

/-- The body of `if (clock.isAlarm1())`: at the end of a window the hatch opens, and the next one is
scheduled. -/
def onAlarm1 (k : Sketch) : List Stmt := .clearAlarm1 :: .toggleMotor .Open :: k.makeSchedule

/-- The body of `if (clock.isAlarm2())`: at the beginning of a window the hatch closes. -/
def onAlarm2 : List Stmt := [.clearAlarm2, .toggleMotor .Close]

/-- What a statement does, and the code it pushes: the sketch differs from the others in the bodies
of the two tests. -/
def exec (k : Sketch) (now : UInt32) (s : System) : Stmt → System × List Stmt
  | .ifAlarm1 =>
    match s.rtc.a1f with
    | some t => (s.takeAlarm1 t, onAlarm1 k)
    | none => (s, [])
  | .ifAlarm2 =>
    match s.rtc.a2f with
    | some t => (s.takeAlarm2 t, onAlarm2)
    | none => (s, [])
  | stmt => Machine.exec k now s stmt

/-- A step of clock and controller, as in `Machine.act`, with the statements of this sketch. -/
def act (k : Sketch) (a : Action) (c : List Stmt × System) : Option (List Stmt × System) :=
  match a with
  | .tick => (tick c.2).map (c.1, ·)
  | .interrupt => (interrupt c.2).map (c.1, ·)
  | .exec now =>
    if c.2.asleep = false ∧ c.2.pending = false ∧ c.2.Now now then
      match c.1 with
      | [] => some (Sketch.loop, c.2)
      | stmt :: code => some ((exec k now c.2 stmt).2 ++ code, (exec k now c.2 stmt).1)
    else none

/-- The step relation: one of the actions, whichever is possible in the configuration. -/
def Step (k : Sketch) (c c' : List Stmt × System) : Prop := ∃ a, act k a c = some c'

/-- The configurations the sketch can reach from power-up with the clock in the state `r`. -/
def Reachable (k : Sketch) (r : Rtc) (c : List Stmt × System) : Prop :=
  Relation.ReflTransGen (Step k) (k.setup, powerUp r) c

/-- A prompt run, from a configuration in which the work began at the instant `since₀`. -/
def PromptRun (k : Sketch) (c₀ : List Stmt × System) (since₀ : ℕ) (c : List Stmt × System)
    (since : ℕ) : Prop :=
  Relation.ReflTransGen
    (fun x y : (List Stmt × System) × ℕ ↦ Step k x.1 y.1 ∧ Prompt x.1.2 y.1.2 x.2 y.2)
    (c₀, since₀) (c, since)

/-- The configuration right after the `makeSchedule` of `setup` has read the instant `t₀`. -/
def AtReading (k : Sketch) (r : Rtc) (t₀ : ℕ) (c : List Stmt × System) : Prop :=
  ∃ s now, Reachable k r (k.makeSchedule ++ [.clearIsAlarm], s) ∧ s.rtc.time = t₀ ∧
    act k (.exec now) (k.makeSchedule ++ [.clearIsAlarm], s) = some c

/-! ### The mirror -/

/-- The other end of the hatch. -/
def flip : Toggle → Toggle
  | .Close => .Open
  | .Open => .Close

/-- A call of `toggleMotor` in the mirror, with the match it answers. -/
def flipMove (move : Toggle × Option ℕ) : Toggle × Option ℕ := (flip move.1, move.2)

/-- A statement in the mirror: an angle is turned, a call of `toggleMotor` goes to the other end,
and the rest of the code is its own image. -/
def mirrorStmt : Stmt → Stmt
  | .write angle => .write (180 - angle)
  | .toggleMotor toggle => .toggleMotor (flip toggle)
  | stmt => stmt

/-- A state in the mirror. Only what has been commanded and what has been moved looks other; the
clock, its alarms and the next event do not. -/
def mirrorSystem (s : System) : System :=
  { s with commanded := s.commanded.map (180 - ·), moves := s.moves.map flipMove }

/-- A configuration in the mirror: the code that is left, and the state. -/
def mirror (c : List Stmt × System) : List Stmt × System :=
  (c.1.map mirrorStmt, mirrorSystem c.2)

/-- The other end of the other end is the end itself. -/
@[simp] theorem flip_flip (toggle : Toggle) : flip (flip toggle) = toggle := by cases toggle <;> rfl

/-- A call that is turned twice is the call itself. -/
@[simp] theorem flipMove_flipMove (move : Toggle × Option ℕ) : flipMove (flipMove move) = move := by
  rw [flipMove, flipMove, flip_flip]

@[simp] theorem mirrorStmt_mirrorStmt (stmt : Stmt) : mirrorStmt (mirrorStmt stmt) = stmt := by
  cases stmt <;> simp [mirrorStmt]

/-- Who looks twice into the mirror sees the configuration itself. -/
@[simp] theorem mirror_mirror (c : List Stmt × System) : mirror (mirror c) = c := by
  simp [mirror, mirrorSystem, Function.comp_def]

theorem mirror_injective : Function.Injective mirror :=
  Function.LeftInverse.injective mirror_mirror

/-- **The sweep to the other end** is the mirrored sweep: both go through the range a degree at a
time, from opposite ends. -/
theorem sweep_flip (toggle : Toggle) : sweep (flip toggle) = (sweep toggle).map (180 - ·) := by
  cases toggle <;> decide +kernel

/-- No statement of `makeSchedule` looks other in the mirror. -/
theorem map_mirrorStmt_makeSchedule (table : List AddEvent) :
    (Sketch.withTable table).makeSchedule.map mirrorStmt =
      (Sketch.withTable table).makeSchedule := by
  refine (List.map_congr_left fun stmt hstmt ↦ ?_).trans (List.map_id _)
  have hscheduling := Exposure.scheduling_makeSchedule
    (Exposure.closesFirst_withTable table).journal stmt hstmt
  cases stmt <;> first | rfl | cases hscheduling

/-! ### Step by step -/

section Mirror

variable {table : List AddEvent}

/-- The answer to the alarm of a window's end, in the mirror, is that of the straight sketch. -/
theorem map_mirrorStmt_onAlarm1 :
    (onAlarm1 (reversed table)).map mirrorStmt = (Sketch.withTable table).onAlarm1 := by
  have hmake : (reversed table).makeSchedule = (Sketch.withTable table).makeSchedule := rfl
  rw [onAlarm1, List.map_cons, List.map_cons, hmake, map_mirrorStmt_makeSchedule]
  rfl

theorem interrupt_mirror (s : System) :
    interrupt (mirrorSystem s) = (interrupt s).map mirrorSystem := by
  obtain ⟨rtc, attached, asleep, pending, isAlarm, sysTime, nextEvent, commanded, cause, moves⟩ := s
  cases pending <;> rfl

/-- **A statement of the reversed sketch** does in the mirror what the mirrored one does, in the
straight sketch: the effect on the state, and the code that is pushed. -/
theorem exec_mirror (now : UInt32) (s : System) (stmt : Stmt) :
    Machine.exec (.withTable table) now (mirrorSystem s) (mirrorStmt stmt) =
      (mirrorSystem (exec (reversed table) now s stmt).1,
        (exec (reversed table) now s stmt).2.map mirrorStmt) := by
  -- Only `toggleMotor` and the bodies of the tests tell the two sketches apart.
  cases stmt with
  | toggleMotor toggle =>
    have hwrites : (sweep (flip toggle)).map Stmt.write =
        ((sweep toggle).map Stmt.write).map mirrorStmt := by
      rw [sweep_flip, List.map_map, List.map_map]
      rfl
    have hmoves : (s.moves ++ [(toggle, s.cause)]).map flipMove =
        s.moves.map flipMove ++ [(flip toggle, s.cause)] := List.map_append
    simp only [Machine.exec, exec, mirrorStmt, hwrites, mirrorSystem, hmoves]
  | ifIsAlarm =>
    have hflag : (mirrorSystem s).isAlarm = s.isAlarm := rfl
    simp only [Machine.exec, exec, mirrorStmt, hflag]
    split <;> rfl
  | ifAlarm1 =>
    have hflag : (mirrorSystem s).rtc.a1f = s.rtc.a1f := rfl
    simp only [Machine.exec, exec, mirrorStmt, hflag]
    cases s.rtc.a1f with
    | none => rfl
    | some t => exact Prod.ext rfl map_mirrorStmt_onAlarm1.symm
  | ifAlarm2 =>
    have hflag : (mirrorSystem s).rtc.a2f = s.rtc.a2f := rfl
    simp only [Machine.exec, exec, mirrorStmt, hflag]
    cases s.rtc.a2f <;> rfl
  | refreshDate =>
    exact of_forall_sysTime (s := s) (P := fun u ↦ (mirrorSystem u, ([] : List Stmt)) =
      (mirrorSystem u, ([] : List Stmt))) (.withTable table) now fun _ ↦ rfl
  | _ => rfl

/-- **The reversed sketch is the straight one in the mirror**, step by step. -/
theorem act_mirror (a : Action) (c : List Stmt × System) :
    Machine.act (.withTable table) a (mirror c) = (act (reversed table) a c).map mirror := by
  obtain ⟨code, s⟩ := c
  cases a with
  | tick =>
    simp only [Machine.act, act, mirror, tick, Option.map_map]
    rfl
  | interrupt =>
    simp only [Machine.act, act, mirror, interrupt_mirror, Option.map_map]
    rfl
  | exec now =>
    have hready : ((mirrorSystem s).asleep = false ∧ (mirrorSystem s).pending = false ∧
        (mirrorSystem s).Now now) = (s.asleep = false ∧ s.pending = false ∧ s.Now now) := rfl
    simp only [Machine.act, act, mirror, hready]
    split
    · cases code with
      | nil => rfl
      | cons stmt code =>
        simp only [List.map_cons, exec_mirror, Option.map_some, mirror, List.map_append]
    · rfl

/-! ### Whole runs -/

theorem act_mirror_iff {a : Action} {c c' : List Stmt × System} :
    Machine.act (.withTable table) a (mirror c) = some (mirror c') ↔
      act (reversed table) a c = some c' := by
  rw [act_mirror, Option.map_eq_some_iff]
  exact ⟨fun ⟨c₁, hact, heq⟩ ↦ mirror_injective heq ▸ hact, fun hact ↦ ⟨c', hact, rfl⟩⟩

/-- A step of one sketch is in the mirror a step of the other. -/
theorem step_mirror_iff {c c' : List Stmt × System} :
    Machine.Step (.withTable table) (mirror c) (mirror c') ↔ Step (reversed table) c c' :=
  exists_congr fun _ ↦ act_mirror_iff

/-- `setup` in the mirror: the write that opens the hatch becomes the one that closes it. -/
theorem map_mirrorStmt_setup :
    (reversed table).setup.map mirrorStmt = (Sketch.withTable table).setup := by
  have hmake : (reversed table).makeSchedule = (Sketch.withTable table).makeSchedule := rfl
  rw [Sketch.setup, List.map_append, List.map_append, hmake, map_mirrorStmt_makeSchedule]
  rfl

/-- **The runs of the reversed sketch are the mirrored runs of the straight one** with the same
table, from every power-up and for every order of ticks, interrupts and statements. -/
theorem reachable_mirror {r : Rtc} {c : List Stmt × System} :
    Machine.Reachable (.withTable table) r (mirror c) ↔ Reachable (reversed table) r c := by
  have hstart : mirror ((reversed table).setup, powerUp r) =
      ((Sketch.withTable table).setup, powerUp r) :=
    Prod.ext map_mirrorStmt_setup rfl
  unfold Machine.Reachable Reachable
  rw [← hstart]
  constructor
  · intro h
    have hrun : Relation.ReflTransGen (Step (reversed table))
        (mirror (mirror ((reversed table).setup, powerUp r))) (mirror (mirror c)) :=
      h.lift mirror fun a b hstep ↦ step_mirror_iff.1 (by rwa [mirror_mirror, mirror_mirror])
    rwa [mirror_mirror, mirror_mirror] at hrun
  · exact fun h ↦ h.lift mirror fun _ _ hstep ↦ step_mirror_iff.2 hstep

/-- The reading of `setup` from which a prompt run is counted is the same in the mirror. -/
theorem atReading_mirror {r : Rtc} {t₀ : ℕ} {c : List Stmt × System} :
    Machine.AtReading (.withTable table) r t₀ (mirror c) ↔ AtReading (reversed table) r t₀ c := by
  have hcode : ∀ s, mirror ((reversed table).makeSchedule ++ [.clearIsAlarm], s) =
      ((Sketch.withTable table).makeSchedule ++ [.clearIsAlarm], mirrorSystem s) := fun s ↦
    Prod.ext ((List.map_append).trans (congrArg (· ++ [Stmt.clearIsAlarm])
      (map_mirrorStmt_makeSchedule table))) rfl
  constructor
  · rintro ⟨s, now, hreach, htime, hact⟩
    have hself : mirrorSystem (mirrorSystem s) = s := congrArg Prod.snd (mirror_mirror ([], s))
    rw [← hself, ← hcode] at hreach hact
    exact ⟨mirrorSystem s, now, reachable_mirror.1 hreach, htime, act_mirror_iff.1 hact⟩
  · rintro ⟨s, now, hreach, htime, hact⟩
    refine ⟨mirrorSystem s, now, ?_, htime, ?_⟩
    · rw [← hcode]
      exact reachable_mirror.2 hreach
    · rw [← hcode]
      exact act_mirror_iff.2 hact

/-- **So are the prompt runs**: being prompt is about the clock and about sleep, and both look alike
in the mirror. -/
theorem promptRun_mirror {c₀ c : List Stmt × System} {since₀ since : ℕ} :
    Machine.PromptRun (.withTable table) (mirror c₀) since₀ (mirror c) since ↔
      PromptRun (reversed table) c₀ since₀ c since := by
  constructor
  · intro h
    have hrun : PromptRun (reversed table) (mirror (mirror c₀)) since₀ (mirror (mirror c)) since :=
      h.lift (fun x : (List Stmt × System) × ℕ ↦ (mirror x.1, x.2)) fun a b hstep ↦
        ⟨step_mirror_iff.1 (by rw [mirror_mirror, mirror_mirror]; exact hstep.1), hstep.2⟩
    rwa [mirror_mirror, mirror_mirror] at hrun
  · exact fun h ↦ h.lift (fun x : (List Stmt × System) × ℕ ↦ (mirror x.1, x.2))
      fun _ _ hstep ↦ ⟨step_mirror_iff.2 hstep.1, hstep.2⟩

/-! ### What the reversed sketch does -/

/-- The calendar is kept the other way round: the hatch closes where a window opens and opens where
it closes. -/
def Kept (W : Set (ℕ × ℕ)) (t₀ : ℕ) (first : List (Toggle × Option ℕ)) (s : System)
    (since : ℕ) : Prop :=
  ∃ ws U, Performed W t₀ s.rtc.time ws ∧ (U = s.rtc.time ∨ ¬ Idle s ∧ U + 1 = since) ∧
    s.moves = first ++ (Performance.due U ws).map (fun call ↦ (flip call.1, some call.2)) ∧
      Performance.due U ws <+: Performance.answers ws

/-- What the straight sketch keeps, the reversed one keeps the other way round. -/
theorem kept_mirror {W : Set (ℕ × ℕ)} {t₀ : ℕ} {first : List (Toggle × Option ℕ)} {s : System}
    {since : ℕ} (h : Performance.Kept W t₀ (first.map flipMove) (mirrorSystem s) since) :
    Kept W t₀ first s since := by
  obtain ⟨ws, U, hperformed, hU, hmoves, hprefix⟩ := h
  refine ⟨ws, U, hperformed, hU, ?_, hprefix⟩
  have hflip := congrArg (List.map flipMove) hmoves
  simp only [mirrorSystem, Performance.told, List.map_append, List.map_map, Function.comp_def,
    flipMove_flipMove, List.map_id'] at hflip
  exact hflip

/-- The last angle that has been commanded, in the mirror. -/
theorem head?_mirror (s : System) (angle : ℤ) :
    (mirrorSystem s).commanded.head? = some angle ↔ s.commanded.head? = some (180 - angle) := by
  rw [mirrorSystem, List.head?_map, Option.map_eq_some_iff]
  constructor
  · rintro ⟨angle', h, rfl⟩
    rw [h, sub_sub_cancel]
  · exact fun h ↦ ⟨180 - angle, h, sub_sub_cancel 180 angle⟩

/-- **The reversed sketch performs its table**, any regular one, in every prompt run from an instant
that `setup` reads. -/
theorem kept_of_regular (hreg : Regular table) {r : Rtc} {t₀ since : ℕ}
    {c₀ c : List Stmt × System} (hread : AtReading (reversed table) r t₀ c₀)
    (hclear : ∀ w ∈ occurrences table, ¬ (t₀ ≤ w.1 ∧ w.1 ≤ t₀ + 60))
    (hrun : PromptRun (reversed table) c₀ t₀ c since) :
    Kept (occurrences table) t₀ c₀.2.moves c.2 since :=
  kept_mirror (Performance.kept_of_regular hreg (Exposure.closesFirst_withTable table).journal
    (atReading_mirror.2 hread) hclear (promptRun_mirror.2 hrun))

/-- The configurations of runs whose ticks all meet a condition on the state before them. -/
def ReachableIf (k : Sketch) (Meets : List Stmt → System → Prop) (r : Rtc)
    (c : List Stmt × System) : Prop :=
  Relation.ReflTransGen
    (fun c c' ↦ ∃ a, act k a c = some c' ∧ (a = .tick → Meets c.1 c.2)) (k.setup, powerUp r) c

/-- The next tick raises a flag that the code will test only if it is the turn of its alarm: alarm 1
finds the hatch closed, and alarm 2 finds it open. -/
def InTurn (code : List Stmt) (s : System) : Prop :=
  Posture.Stuck s ∨
    (Rises1 s → nextUse1 code = some .test → s.commanded.head? = some 0) ∧
      (Rises2 s → nextUse2 (Posture.upNext1 s) code = some .test → s.commanded.head? = some 180)

/-- What the code that is left does first to the flag of alarm 1 does not depend on the direction of
the hatch. -/
theorem nextUse1_mirror (code : List Stmt) : nextUse1 (code.map mirrorStmt) = nextUse1 code := by
  induction code with
  | nil => rfl
  | cons stmt code ih => cases stmt <;> first | exact ih | rfl

/-- Neither does what it does first to that of alarm 2. -/
theorem nextUse2_mirror (up1 : Bool) (code : List Stmt) :
    nextUse2 up1 (code.map mirrorStmt) = nextUse2 up1 code := by
  induction code with
  | nil => rfl
  | cons stmt code ih =>
    cases stmt with
    | ifAlarm1 =>
      simp only [List.map_cons, mirrorStmt, nextUse2, ih]
    | _ => first | exact ih | rfl

/-- The turn of an alarm, in the mirror: 180 for one sketch is 0 for the other. -/
theorem inTurn_mirror {code : List Stmt} {s : System} :
    Posture.InTurn (code.map mirrorStmt) (mirrorSystem s) ↔ InTurn code s := by
  unfold Posture.InTurn InTurn
  rw [nextUse1_mirror, nextUse2_mirror, head?_mirror, head?_mirror]
  exact Iff.rfl

/-- **The runs whose flags go up in turn** are mirrored runs as well: the condition on the state
before a tick is the mirrored one. -/
theorem reachableIf_mirror {r : Rtc} {c : List Stmt × System} :
    Machine.ReachableIf (.withTable table) Posture.InTurn r (mirror c) ↔
      ReachableIf (reversed table) InTurn r c := by
  have hstart : mirror ((reversed table).setup, powerUp r) =
      ((Sketch.withTable table).setup, powerUp r) := Prod.ext map_mirrorStmt_setup rfl
  unfold Machine.ReachableIf ReachableIf
  rw [← hstart]
  constructor
  · intro h
    have hrun : ReachableIf (reversed table) InTurn r (mirror (mirror c)) := by
      unfold ReachableIf
      rw [← mirror_mirror ((reversed table).setup, powerUp r)]
      refine h.lift mirror fun c c' ⟨a, hact, hturn⟩ ↦ ⟨a, act_mirror_iff.1 ?_, fun ha ↦ ?_⟩
      · rwa [mirror_mirror, mirror_mirror]
      · have hmirror := hturn ha
        rw [← mirror_mirror c] at hmirror
        exact inTurn_mirror.1 hmirror
    rwa [mirror_mirror] at hrun
  · exact fun h ↦ h.lift mirror fun c c' ⟨a, hact, hturn⟩ ↦
      ⟨a, act_mirror_iff.2 hact, fun ha ↦ inTurn_mirror.2 (hturn ha)⟩

/-- Steps of a degree are steps of a degree in the mirror. -/
theorem smooth_mirror {angles : List ℤ} (h : Posture.Smooth (angles.map (180 - ·))) :
    Posture.Smooth angles := by
  refine ((List.isChain_map _).1 h).imp fun a b hab ↦ ?_
  omega

/-- **The reversed sketch moves the hatch in small steps** in a run whose flags go up in turn. -/
theorem steady_of_reachableIf {r : Rtc} {c : List Stmt × System}
    (hrun : ReachableIf (reversed table) InTurn r c) : Posture.Steady c.1 c.2 := by
  obtain ⟨hsmooth, hopposite⟩ : Posture.Steady (mirror c).1 (mirror c).2 :=
    Interleaving.Program.safe_of_run (fun _ h ↦ Posture.outline_loop h) (Posture.outline_setup r)
      (reachableIf_mirror.2 hrun).run
  refine ⟨smooth_mirror hsmooth, fun toggle rest hcode ↦ ?_⟩
  have hhead := hopposite (flip toggle) (rest.map mirrorStmt)
    (by rw [mirror, hcode, List.map_cons, mirrorStmt])
  rw [mirror, head?_mirror] at hhead
  cases toggle <;> exact hhead

/-- With one line at ten: the hatch closes at ten and opens two minutes later, by 363 writes in
all. -/
theorem steady_of_reachableIf_tenOClock :
    ∃ c, ReachableIf (reversed tenOClock) InTurn beforeTen c ∧ c.2.commanded.length = 363 ∧
      c.2.commanded.head? = some 180 ∧ Posture.Steady c.1 c.2 := by
  obtain ⟨c, hrun, hc⟩ := Option.map_eq_some_iff.1 Posture.opensAndCloses_run
  simp only [Prod.mk.injEq] at hc
  have hreach := reachableIf_of_runActions hrun
  rw [← mirror_mirror c] at hreach
  refine ⟨mirror c, reachableIf_mirror.1 hreach, ?_, (head?_mirror c.2 180).2 hc.2,
    steady_of_reachableIf (reachableIf_mirror.1 hreach)⟩
  rw [mirror, mirrorSystem, List.length_map, hc.1]

end Mirror

/-- `analemma_2`. -/
def analemma2 : Sketch := reversed analemma2Table

/-- **`analemma_2` performs its table**, in every prompt run from an instant that `setup` reads,
where no entry of the table opens in the minute after: the hatch closes for the occurrences that
open after that instant and opens when they end, each at its alarm, in order, and nothing else. -/
theorem performs_of_promptRun {r : Rtc} {t₀ since : ℕ} {c₀ c : List Stmt × System}
    (hread : AtReading analemma2 r t₀ c₀)
    (hclear : ∀ w ∈ occurrences analemma2Table, ¬ (t₀ ≤ w.1 ∧ w.1 ≤ t₀ + 60))
    (hrun : PromptRun analemma2 c₀ t₀ c since) :
    Kept (occurrences analemma2Table) t₀ c₀.2.moves c.2 since :=
  kept_of_regular regular_analemma2Table hread hclear hrun

/-- Eighty seconds before 9:58 on New Year's Day 2000. -/
def beforeFirstWindow : Rtc := clockAt 946720600 (by decide)

/-- What the straight sketch with the table does from the reading of `setup` on, until a minute
after 9:58. -/
def untilMinutePast : List Action :=
  List.replicate 16 (.exec 946720600) ++ (List.replicate 80 .tick ++
    (.interrupt :: (List.replicate 190 (.exec 946720680) ++ List.replicate 60 .tick)))

/-- The run as it is evaluated, in the straight sketch; the mirror makes it one of `analemma_2`. -/
theorem untilMinutePast_run :
    ((runActions (.withTable analemma2Table) (fun _ _ ↦ True)
        (List.replicate 9 (.exec 946720600))
        ((Sketch.withTable analemma2Table).setup, powerUp beforeFirstWindow)).bind fun c ↦
      (Machine.act (.withTable analemma2Table) (.exec 946720600) c).bind fun c₀ ↦
        (runPrompt (.withTable analemma2Table) untilMinutePast (c₀, 946720600)).map fun y ↦
          decide (c.1 = (Sketch.withTable analemma2Table).makeSchedule ++ [.clearIsAlarm] ∧
            c.2.rtc.time = 946720600 ∧ c₀.2.moves = [] ∧ Idle y.1.2 ∧
              y.1.2.rtc.time = 946720740)) = some true := by
  decide +kernel

/-- A run of `analemma_2` to a minute after 9:58. -/
theorem exists_minutePast :
    ∃ c₀ c since, AtReading analemma2 beforeFirstWindow 946720600 c₀ ∧
      PromptRun analemma2 c₀ 946720600 c since ∧ c₀.2.moves = [] ∧ Idle c.2 ∧
        c.2.rtc.time = 946720740 := by
  obtain ⟨⟨code, s⟩, hbefore, hrest⟩ := Option.bind_eq_some_iff.1 untilMinutePast_run
  obtain ⟨c₀, hact, hrest⟩ := Option.bind_eq_some_iff.1 hrest
  obtain ⟨⟨c, since⟩, hrun, hdecide⟩ := Option.map_eq_some_iff.1 hrest
  obtain ⟨hcode, htime, hmoves, hidle, hlater⟩ := of_decide_eq_true hdecide
  simp only at hcode htime
  subst hcode
  have hread : Machine.AtReading (.withTable analemma2Table) beforeFirstWindow 946720600 c₀ :=
    ⟨s, 946720600, (reachableIf_of_runActions hbefore).reachable, htime, hact⟩
  have hprompt := promptRun_of_runPrompt hrun
  rw [← mirror_mirror c₀, ← mirror_mirror c] at hprompt
  rw [← mirror_mirror c₀] at hread
  refine ⟨mirror c₀, mirror c, since, atReading_mirror.1 hread, promptRun_mirror.1 hprompt, ?_,
    hidle, hlater⟩
  exact congrArg (List.map flipMove) hmoves

/-- No line of the table opens in the minute after the reading. -/
theorem beforeFirstWindow_clear :
    ∀ w ∈ occurrences analemma2Table, ¬ (946720600 ≤ w.1 ∧ w.1 ≤ 946720600 + 60) := by
  have hlines : ∀ e ∈ analemma2Table, e.opensAt < 35800 ∨ 35860 < e.opensAt := by decide
  rintro w ⟨e, he, hopen, -⟩
  have hmod := (regular_analemma2Table.line e he).valid.mod_of_occurs hopen
  have := hlines e he
  omega

theorem performs_of_promptRun_minutePast :
    ∃ c₀ c since, AtReading analemma2 beforeFirstWindow 946720600 c₀ ∧
      PromptRun analemma2 c₀ 946720600 c since ∧
        Kept (occurrences analemma2Table) 946720600 [] c.2 since := by
  obtain ⟨c₀, c, since, hread, hrun, hmoves, -, -⟩ := exists_minutePast
  have hkept := performs_of_promptRun hread beforeFirstWindow_clear hrun
  exact ⟨c₀, c, since, hread, hrun, hmoves ▸ hkept⟩

end Machine.Reversed
