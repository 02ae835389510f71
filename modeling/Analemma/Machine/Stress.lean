import Analemma.Foundation.Simulation
import Analemma.Machine.Debug

/-!
# The stress sketch

`analemma_stress` is `analemma_debug` with another `loop`: it does not sleep and asks for no alarm,
but closes the hatch, makes the test schedule and opens the hatch, over and over. The alarms are set
all the same, and the interrupt routine sets `isAlarm`, which nothing reads.

So the servo is told the same angles in every run, whatever the clock does (`swept_of_reachable`):
first the angle 0 of `setup`, then the sweeps of `toggleMotor(Close)` and `toggleMotor(Open)` in
turn. The first sweep starts at 180, and this is the only time that the servo is made to jump.

The statements are those of the debug sketch, and so is `setup`; the step differs in the `loop` that
is started when no code is left. The invariant (`InRounds`) has no conditions on the clock. It adds
up what has been written and what the code that is left will write, which no statement of this
sketch changes: there are no tests in it, so that the code ahead is known.
-/

namespace Machine.Stress

/-! ### The code -/

/-- `loop`: the closing, the test schedule, and the opening, with a reading of the clock at its
start. -/
def loop : List Debug.Stmt :=
  [.base .refreshDate, .base .clearAlarm1, .base (.toggleMotor .Close)] ++
    (Debug.makeTestSchedule ++ [.base .clearAlarm2, .base (.toggleMotor .Open)])

/-- A step of clock and controller, as in the debug sketch, with this `loop`. -/
def act (a : Action) (c : List Debug.Stmt × Debug.System) :
    Option (List Debug.Stmt × Debug.System) :=
  match a with
  | .tick => (tick c.2.toSystem).map fun s ↦ (c.1, ⟨s, c.2.dt⟩)
  | .interrupt => (interrupt c.2.toSystem).map fun s ↦ (c.1, ⟨s, c.2.dt⟩)
  | .exec now =>
    if c.2.asleep = false ∧ c.2.pending = false ∧ c.2.Now now then
      match c.1 with
      | [] => some (loop, c.2)
      | stmt :: code => some ((Debug.exec now c.2 stmt).2 ++ code, (Debug.exec now c.2 stmt).1)
    else none

/-- The configurations the sketch can reach from power-up with the clock in the state `r`. -/
def Reachable (r : Rtc) (c : List Debug.Stmt × Debug.System) : Prop :=
  Relation.ReflTransGen (fun c c' ↦ ∃ a, act a c = some c') (Debug.setup, Debug.powerUp r) c

/-! ### What the servo is told -/

/-- The angles that a statement writes, at once or later. -/
def writesOf : Debug.Stmt → List ℤ
  | .base (.write angle) => [angle]
  | .base (.toggleMotor toggle) => sweep toggle
  | _ => []

/-- The calls of `toggleMotor` that a statement makes. -/
def togglesOf : Debug.Stmt → List Toggle
  | .base (.toggleMotor toggle) => [toggle]
  | _ => []

/-- The statements that test a flag. -/
def tests : Debug.Stmt → Bool
  | .base .ifIsAlarm | .base .ifAlarm1 | .base .ifAlarm2 => true
  | _ => false

/-- The angles of one round of `loop`: all of a closing and all of an opening sweep. -/
def cycle : List ℤ := sweep .Close ++ sweep .Open

/-- **A statement** writes its angles, now or by the writes that it pushes, and makes its calls. -/
theorem exec_writes (now : UInt32) (s : Debug.System) {stmt : Debug.Stmt} (h : tests stmt = false) :
    (Debug.exec now s stmt).1.commanded.reverse ++ (Debug.exec now s stmt).2.flatMap writesOf =
        s.commanded.reverse ++ writesOf stmt ∧
      (Debug.exec now s stmt).1.moves.map Prod.fst ++ (Debug.exec now s stmt).2.flatMap togglesOf =
        s.moves.map Prod.fst ++ togglesOf stmt ∧
      ∀ stmt' ∈ (Debug.exec now s stmt).2, tests stmt' = false := by
  -- A statement moves what is ahead into what is done; only `toggleMotor` replaces its toggle by
  -- the writes of a sweep.
  cases stmt with
  | addEvents =>
    exact Debug.of_forall_nextEvent (P := fun u ↦ u.commanded.reverse ++ [] =
        s.commanded.reverse ++ [] ∧ u.moves.map Prod.fst ++ [] = s.moves.map Prod.fst ++ [] ∧
          ∀ stmt ∈ ([] : List Debug.Stmt), tests stmt = false)
      now fun _ ↦ ⟨rfl, rfl, fun _ hmem ↦ absurd hmem List.not_mem_nil⟩
  | base stmt =>
    have hnone : ∀ stmt ∈ ([] : List Debug.Stmt), tests stmt = false := fun _ hmem ↦
      absurd hmem List.not_mem_nil
    cases stmt with
    | write angle =>
      refine ⟨?_, rfl, hnone⟩
      show (angle :: s.commanded).reverse ++ [] = s.commanded.reverse ++ [angle]
      rw [List.reverse_cons, List.append_nil]
    | toggleMotor toggle =>
      have hpushed : (Debug.exec now s (.base (.toggleMotor toggle))).2 =
          (sweep toggle).map (.base ∘ .write) := List.map_map
      refine ⟨?_, ?_, ?_⟩
      · rw [hpushed, List.flatMap_map]
        exact congrArg (s.commanded.reverse ++ ·) (List.flatMap_singleton' _)
      · have hno : ((sweep toggle).map (Debug.Stmt.base ∘ .write)).flatMap togglesOf = [] :=
          List.flatMap_eq_nil_iff.2 fun stmt hmem ↦ by
            obtain ⟨angle, -, rfl⟩ := List.mem_map.1 hmem
            rfl
        rw [hpushed, hno, List.append_nil]
        exact List.map_append
      · rw [hpushed]
        intro stmt hmem
        obtain ⟨angle, -, rfl⟩ := List.mem_map.1 hmem
        rfl
    | ifIsAlarm | ifAlarm1 | ifAlarm2 => cases h
    | _ => exact ⟨rfl, rfl, hnone⟩

/-! ### Whole runs -/

/-- What has been written and called, and what the code left will write and call, are some rounds of
`loop`. -/
structure InRounds (rounds : ℕ) (c : List Debug.Stmt × Debug.System) : Prop where
  tests : ∀ stmt ∈ c.1, tests stmt = false
  writes : c.2.commanded.reverse ++ c.1.flatMap writesOf =
    0 :: (List.replicate rounds cycle).flatten
  toggles : c.2.moves.map Prod.fst ++ c.1.flatMap togglesOf =
    (List.replicate rounds [.Close, .Open]).flatten

/-- What the chip and the interrupt routine do is not seen by the servo. -/
theorem InRounds.congr {rounds : ℕ} {code : List Debug.Stmt} {s s' : Debug.System}
    (h : InRounds rounds (code, s)) (hcommanded : s'.commanded = s.commanded)
    (hmoves : s'.moves = s.moves) : InRounds rounds (code, s') where
  tests := h.tests
  writes := by
    rw [hcommanded]
    exact h.writes
  toggles := by
    rw [hmoves]
    exact h.toggles

/-- **One step**: a statement takes its writes from the code to what has been written, and the start
of `loop` adds a round. -/
theorem InRounds.act {rounds : ℕ} {a : Action} {c c' : List Debug.Stmt × Debug.System}
    (h : InRounds rounds c) (hact : act a c = some c') : ∃ rounds', InRounds rounds' c' := by
  obtain ⟨code, s⟩ := c
  cases a with
  | tick =>
    obtain ⟨s', hs', rfl⟩ := Option.map_eq_some_iff.1 hact
    obtain ⟨r, -, rfl⟩ := tick_eq_some hs'
    exact ⟨rounds, h.congr rfl rfl⟩
  | interrupt =>
    obtain ⟨s', hs', rfl⟩ := Option.map_eq_some_iff.1 hact
    obtain ⟨-, rfl⟩ := interrupt_eq_some hs'
    exact ⟨rounds, h.congr rfl rfl⟩
  | exec now =>
    simp only [Stress.act] at hact
    split at hact
    · cases code with
      | nil =>
        -- a new round begins
        cases hact
        have hwrites : loop.flatMap writesOf = cycle := by decide +kernel
        refine ⟨rounds + 1, (by decide : ∀ stmt ∈ loop, Stress.tests stmt = false), ?_, ?_⟩
        · have hdone := h.writes
          rw [List.flatMap_nil, List.append_nil] at hdone
          rw [hwrites, hdone, List.replicate_succ', List.flatten_append, List.flatten_singleton,
            List.cons_append]
        · have hdone := h.toggles
          rw [List.flatMap_nil, List.append_nil] at hdone
          rw [hdone, List.replicate_succ', List.flatten_append, List.flatten_singleton]
          rfl
      | cons stmt code =>
        cases hact
        obtain ⟨hwrites, htoggles, hpushed⟩ := exec_writes now s (h.tests stmt List.mem_cons_self)
        refine ⟨rounds, fun stmt' hmem ↦ ?_, ?_, ?_⟩
        · rcases List.mem_append.1 hmem with hmem | hmem
          · exact hpushed stmt' hmem
          · exact h.tests stmt' (List.mem_cons_of_mem _ hmem)
        · rw [← h.writes, List.flatMap_append, List.flatMap_cons, ← List.append_assoc, hwrites,
            List.append_assoc]
        · rw [← h.toggles, List.flatMap_append, List.flatMap_cons, ← List.append_assoc, htoggles,
            List.append_assoc]
    · cases hact

end Machine.Stress
