import Analemma.Machine.Performance

/-!
# When the hatch is open

What the camera is built for: light falls in during the windows of the table, and at no other time.

The first half holds of every run. `toggleMotor` is a single call, so the controller never goes to
sleep in the middle of a sweep: asleep, the servo stands where the last call of `toggleMotor` has
left it (`commanded_of_asleep`). The invariant follows the writes that are still to be made
(`Settled`).

The second half is about prompt runs. The calls of `toggleMotor` perform the table there, one
window at a time, and what opens inside a window that is performed is left out. In the tables of the
sketches nothing is lost by that, because such a window also closes inside (`Nested`). So between
two rounds of work the hatch is open exactly in the windows of the calendar (`exposed_iff`).

The state that the theorems speak of is the last angle commanded to the servo; how long the servo
takes to get there is not modelled. `standing` gives that angle from the calls of `toggleMotor`, and
`Settled` says that the writes which are still to be made will bring it about.

`Nested` is decidable from the lines of a table, by the distances between their openings around the
day, and the tables of the sketches are nested. For a table that is not, a window that opens late in
another one would be cut short, and the equivalence of the second half would fail.

Where a prompt run starts is not where power comes on: `setup` has written its first angles by then.
`standing_atReading` is the bridge, for sketches that close the hatch first (`ClosesFirst`).
-/

namespace Machine.Exposure

open DS3231 Schedule Interleaving GreedyWindows Performance

/-! ### Asleep, the servo stands where the last call has left it -/

/-- Statements that neither write an angle nor go to sleep. They may push writes, as `toggleMotor`
does. -/
def still : Stmt → Bool
  | .write _ | .powerDown => false
  | _ => true

/-- Statements of `makeSchedule`: none of them moves the servo, tests a flag or sleeps. -/
def scheduling : Stmt → Bool
  | .refreshDate | .resetNextEvent | .addEvent _ | .writeAlarm1 | .writeAlarm2 | .armAlarm1 _
    | .armAlarm2 _ | .clearAlarm1 | .clearAlarm2 | .updateJournal => true
  | _ => false

/-- Statements that move the servo. -/
def moving : Stmt → Bool
  | .write _ | .toggleMotor _ => true
  | _ => false

/-- Statements that open the hatch, or may come to open it. -/
def opening : Stmt → Bool
  | .toggleMotor .Open | .ifIsAlarm | .ifAlarm1 | .ifAlarm2 => true
  | _ => false

/-- `setup` closes the hatch: it writes some angles first, the last of them 0, or calls
`toggleMotor`, and opens nothing; after `setAlarms` there is nothing but the journal. -/
structure ClosesFirst (k : Sketch) (angles : List ℤ) : Prop where
  prepare : ∃ rest, k.prepare = angles.map .write ++ rest ∧ ∀ stmt ∈ rest, still stmt = true
  zero : ∀ angle ∈ angles.getLast?, angle = 0
  moves : ∃ stmt ∈ k.prepare, moving stmt = true
  opens : ∀ stmt ∈ k.prepare, opening stmt = false
  journal : ∀ stmt ∈ k.afterAlarms, stmt = .updateJournal

/-- Where the servo stands after some calls of `toggleMotor`, if it stood at an angle before: at the
end that the last call has swept it to. -/
def standing (before : Option ℤ) (moves : List (Toggle × Option ℕ)) : Option ℤ :=
  match moves.getLast? with
  | some move => some (move.1.toInt * 180)
  | none => before

/-- The angles that are still to be written stand in front of the code and lead to where the last
call of `toggleMotor` leaves the servo. The controller sleeps at the start of a round only. -/
structure Settled (before : Option ℤ) (code : List Stmt) (s : System) : Prop where
  ahead : ∃ (angles : List ℤ) (rest : List Stmt), code = angles.map .write ++ rest ∧
    (rest = Sketch.loop ∨ ∀ stmt ∈ rest, still stmt = true) ∧
      (angles.reverse ++ s.commanded).head? = standing before s.moves
  asleep : s.asleep = true → code = [.refreshDate, .ifIsAlarm]

/-- `analemma_1` and `analemma_3` write the angle 0 at the start of `setup`. -/
theorem closesFirst_withTable (table : List AddEvent) :
    ClosesFirst (Sketch.withTable table) [0] where
  prepare := ⟨_, rfl, by simp [Sketch.withTable, still]⟩
  zero := by decide
  moves := ⟨_, List.mem_cons_self, rfl⟩
  opens := by simp [Sketch.prepare, Sketch.withTable, opening]
  journal := by simp [Sketch.withTable]

theorem closesFirst_analemmaRelease : ClosesFirst analemmaRelease [] where
  prepare := ⟨_, rfl, by decide⟩
  zero := by decide
  moves := ⟨.toggleMotor .Close, by decide, rfl⟩
  opens := by decide
  journal := by decide

/-- The statements of `makeSchedule` are none of the others. -/
theorem scheduling_makeSchedule {k : Sketch} (hjournal : ∀ stmt ∈ k.afterAlarms,
    stmt = .updateJournal) : ∀ stmt ∈ k.makeSchedule, scheduling stmt = true := by
  intro stmt hstmt
  simp only [Sketch.makeSchedule, Sketch.planSchedule, List.mem_cons, List.mem_append,
    List.mem_map] at hstmt
  rcases hstmt with rfl | rfl | ⟨e, -, rfl⟩ | hstmt | hstmt
  · rfl
  · rfl
  · rfl
  · exact (by decide : ∀ stmt ∈ Sketch.setAlarms, scheduling stmt = true) stmt hstmt
  · rw [hjournal stmt hstmt]
    rfl

/-- A statement of `makeSchedule` is none of those that move or open. -/
theorem of_scheduling {stmt : Stmt} (h : scheduling stmt = true) :
    still stmt = true ∧ moving stmt = false ∧ opening stmt = false := by
  cases stmt <;> first | exact ⟨rfl, rfl, rfl⟩ | cases h

theorem standing_append_singleton (before : Option ℤ) (moves : List (Toggle × Option ℕ))
    (move : Toggle × Option ℕ) :
    standing before (moves ++ [move]) = some (move.1.toInt * 180) := by
  rw [standing, List.getLast?_concat]

/-- The last angle of a sweep is the end that it goes to. -/
theorem sweep_reverse_head? (toggle : Toggle) (commanded : List ℤ) :
    ((sweep toggle).reverse ++ commanded).head? = some (toggle.toInt * 180) := by
  have hlast : (sweep toggle).getLast? = some (toggle.toInt * 180) := by
    cases toggle <;> decide +kernel
  rw [List.head?_append, List.head?_reverse, hlast, Option.some_or]

/-- **A statement that writes no angle itself** may push the writes of a sweep, to the angle at
which its call leaves the servo. -/
theorem exec_still {k : Sketch} (hmake : ∀ stmt ∈ k.makeSchedule, scheduling stmt = true)
    (before : Option ℤ) (now : UInt32) {s : System} {stmt : Stmt} (h : still stmt = true)
    (hstand : s.commanded.head? = standing before s.moves) :
    (exec k now s stmt).1.asleep = s.asleep ∧ ∃ (angles : List ℤ) (pushed : List Stmt),
      (exec k now s stmt).2 = angles.map .write ++ pushed ∧
        (∀ stmt ∈ pushed, still stmt = true) ∧
          (angles.reverse ++ (exec k now s stmt).1.commanded).head? =
            standing before (exec k now s stmt).1.moves := by
  have hnone : ∀ stmt ∈ ([] : List Stmt), still stmt = true := fun _ h ↦ absurd h List.not_mem_nil
  -- Only `toggleMotor` appends a move, and its sweep ends at the angle that move stands for; the
  -- other statements leave both sides as they were.
  cases stmt with
  | write | powerDown => cases h
  | toggleMotor toggle =>
    refine ⟨rfl, sweep toggle, [], (List.append_nil _).symm, hnone, ?_⟩
    rw [sweep_reverse_head?]
    exact (standing_append_singleton before s.moves (toggle, s.cause)).symm
  | ifIsAlarm =>
    refine ⟨rfl, [], if s.isAlarm then Sketch.onAlarm else [], rfl, ?_, hstand⟩
    split
    · decide
    · exact hnone
  | ifAlarm1 =>
    cases hflag : s.rtc.a1f with
    | none =>
      simp only [exec, hflag]
      exact ⟨trivial, [], [], rfl, hnone, hstand⟩
    | some t =>
      simp only [exec, hflag]
      refine ⟨rfl, [], k.onAlarm1, rfl, ?_, hstand⟩
      intro stmt hstmt
      rcases List.mem_cons.1 hstmt with rfl | hstmt
      · rfl
      rcases List.mem_cons.1 hstmt with rfl | hstmt
      · rfl
      · exact (of_scheduling (hmake stmt hstmt)).1
  | ifAlarm2 =>
    cases hflag : s.rtc.a2f with
    | none =>
      simp only [exec, hflag]
      exact ⟨trivial, [], [], rfl, hnone, hstand⟩
    | some t =>
      simp only [exec, hflag]
      exact ⟨rfl, [], Sketch.onAlarm2, rfl, by decide, hstand⟩
  | refreshDate =>
    exact of_forall_sysTime (P := fun u ↦ u.asleep = s.asleep ∧
      ∃ (angles : List ℤ) (pushed : List Stmt), ([] : List Stmt) = angles.map .write ++ pushed ∧
        (∀ stmt ∈ pushed, still stmt = true) ∧
          (angles.reverse ++ u.commanded).head? = standing before u.moves) k now
      fun _ ↦ ⟨rfl, [], [], rfl, hnone, hstand⟩
  | _ => exact ⟨rfl, [], [], rfl, hnone, hstand⟩

/-- The environment writes no angle. -/
theorem Settled.env {before : Option ℤ} {code : List Stmt} {s s' : System}
    (h : Settled before code s) (hcommanded : s'.commanded = s.commanded)
    (hmoves : s'.moves = s.moves) (hasleep : s'.asleep = true → s.asleep = true) :
    Settled before code s' := by
  refine ⟨?_, fun h' ↦ h.asleep (hasleep h')⟩
  rw [hcommanded, hmoves]
  exact h.ahead

/-- **One statement**. If it is one of the writes ahead, the angle goes from the code to what has
been commanded; else it is still, and the writes that it pushes come first. -/
theorem Settled.exec {k : Sketch} (hmake : ∀ stmt ∈ k.makeSchedule, scheduling stmt = true)
    {before : Option ℤ} (now : UInt32) {stmt : Stmt} {code : List Stmt} {s : System}
    (h : Settled before (stmt :: code) s) (hawake : s.asleep = false) :
    Settled before ((exec k now s stmt).2 ++ code) (exec k now s stmt).1 := by
  obtain ⟨angles, rest, hcode, hrest, hstand⟩ := h.ahead
  cases angles with
  | cons angle angles =>
    obtain ⟨rfl, rfl⟩ := List.cons.inj hcode
    refine ⟨⟨angles, rest, rfl, hrest, ?_⟩, fun h ↦ absurd (hawake.symm.trans h) (by decide)⟩
    rwa [List.reverse_cons, List.append_assoc] at hstand
  | nil =>
    rw [List.map_nil, List.nil_append] at hcode
    subst hcode
    rcases hrest with hloop | hstill
    · -- only at the start of a round the controller goes to sleep
      obtain ⟨rfl, rfl⟩ := List.cons.inj hloop
      exact ⟨⟨[], _, rfl, Or.inr (by decide), hstand⟩, fun _ ↦ rfl⟩
    · obtain ⟨hasleep, angles, pushed, hpushed, hstill', hstand'⟩ :=
        exec_still hmake before now (hstill _ List.mem_cons_self) hstand
      refine ⟨⟨angles, pushed ++ code, ?_, Or.inr fun stmt hstmt ↦ ?_, hstand'⟩, fun h ↦ ?_⟩
      · rw [hpushed, List.append_assoc]
      · rcases List.mem_append.1 hstmt with hstmt | hstmt
        · exact hstill' stmt hstmt
        · exact hstill stmt (List.mem_cons_of_mem _ hstmt)
      · exact absurd ((hasleep.trans hawake).symm.trans h) (by decide)

/-- What every run keeps, from power-up: at each step the writes that are ahead lead to where the
last call leaves the servo. -/
theorem settled_of_reachable {k : Sketch} {angles : List ℤ} (hk : ClosesFirst k angles) {r : Rtc}
    {c : List Stmt × System} (h : Reachable k r c) : Settled angles.getLast? c.1 c.2 := by
  have hmake := scheduling_makeSchedule hk.journal
  -- At power-up the sweep of `prepare` is still ahead; then `Settled` is kept step by step.
  induction h with
  | refl =>
    obtain ⟨rest, hprepare, hstill⟩ := hk.prepare
    refine ⟨⟨angles, rest ++ (k.makeSchedule ++ [.clearIsAlarm]), ?_, Or.inr fun stmt hstmt ↦ ?_,
      ?_⟩, fun h ↦ absurd h Bool.false_ne_true⟩
    · rw [Sketch.setup, hprepare, List.append_assoc]
    · rcases List.mem_append.1 hstmt with hstmt | hstmt
      · exact hstill stmt hstmt
      rcases List.mem_append.1 hstmt with hstmt | hstmt
      · exact (of_scheduling (hmake stmt hstmt)).1
      · rw [List.mem_singleton.1 hstmt]
        rfl
    · rw [powerUp, List.append_nil, List.head?_reverse]
      rfl
  | @tail c c' _ hstep ih =>
    obtain ⟨a, hact⟩ := hstep
    have hprogram : (program k fun _ _ ↦ True).Step c c' := step_program hact fun _ ↦ trivial
    cases hprogram with
    | env henv =>
      rcases henv with hint | ⟨htick, -⟩
      · obtain ⟨-, rfl⟩ := interrupt_eq_some hint
        exact ih.env rfl rfl fun h ↦ absurd h Bool.false_ne_true
      · obtain ⟨r, -, rfl⟩ := tick_eq_some htick
        exact ih.env rfl rfl id
    | exec hexec =>
      obtain ⟨hawake, -, now, -, heq⟩ := hexec
      obtain ⟨rfl, rfl⟩ := Prod.ext_iff.1 heq
      exact ih.exec hmake now hawake
    -- The pass ended with no write left, so `loop` starts from the last move of all.
    | again =>
      obtain ⟨angles, rest, hcode, -, hstand⟩ := ih.ahead
      obtain ⟨hangles, rfl⟩ := List.append_eq_nil_iff.1 hcode.symm
      rw [List.map_eq_nil_iff.1 hangles] at hstand
      exact ⟨⟨[], Sketch.loop, rfl, Or.inl rfl, hstand⟩,
        fun h ↦ absurd (ih.asleep h) (List.cons_ne_nil _ _).symm⟩

/-- **Asleep, the servo stands where the last call of `toggleMotor` has left it**, or where `setup`
has put it, in every run. -/
theorem commanded_of_asleep {k : Sketch} {angles : List ℤ} (hk : ClosesFirst k angles) {r : Rtc}
    {c : List Stmt × System} (h : Reachable k r c) (hasleep : c.2.asleep = true) :
    c.2.commanded.head? = standing angles.getLast? c.2.moves := by
  have hsettled := settled_of_reachable hk h
  obtain ⟨angles', rest, hcode, -, hstand⟩ := hsettled.ahead
  rw [hsettled.asleep hasleep] at hcode
  cases angles' with
  | nil => exact hstand
  | cons angle angles' => cases hcode

/-! ### Where a prompt run starts, the hatch is closed -/

/-- Angles that have been written stay on record. -/
theorem commanded_exec (k : Sketch) (now : UInt32) {s : System} (stmt : Stmt)
    (h : s.commanded ≠ []) : (exec k now s stmt).1.commanded ≠ [] := by
  cases stmt with
  | write angle => exact List.cons_ne_nil _ _
  | ifAlarm1 => cases hflag : s.rtc.a1f <;> simpa [exec, hflag, System.takeAlarm1] using h
  | ifAlarm2 => cases hflag : s.rtc.a2f <;> simpa [exec, hflag, System.takeAlarm2] using h
  | refreshDate => exact of_forall_sysTime (P := fun u ↦ u.commanded ≠ []) k now fun _ ↦ h
  | _ => exact h

/-- A statement that opens nothing calls `toggleMotor(Close)` at most. -/
theorem exec_unopened (k : Sketch) (now : UInt32) {s : System} {stmt : Stmt}
    (h : opening stmt = false) (hmoves : ∀ move ∈ s.moves, move.1 = .Close) :
    (∀ move ∈ (exec k now s stmt).1.moves, move.1 = .Close) ∧
      ∀ i ∈ (exec k now s stmt).2, opening i = false := by
  have hnone : ∀ i ∈ ([] : List Stmt), opening i = false := fun _ h ↦ absurd h List.not_mem_nil
  cases stmt with
  | ifIsAlarm | ifAlarm1 | ifAlarm2 => cases h
  | toggleMotor toggle =>
    cases toggle with
    | Open => cases h
    | Close =>
      refine ⟨fun move hmove ↦ ?_, fun i hi ↦ ?_⟩
      · rcases List.mem_append.1 hmove with hmove | hmove
        · exact hmoves move hmove
        · rw [List.mem_singleton.1 hmove]
      · obtain ⟨angle, -, rfl⟩ := List.mem_map.1 hi
        rfl
  | refreshDate =>
    exact of_forall_sysTime (P := fun u ↦ (∀ move ∈ u.moves, move.1 = .Close) ∧
      ∀ i ∈ ([] : List Stmt), opening i = false) k now fun _ ↦ ⟨hmoves, hnone⟩
  | _ => exact ⟨hmoves, hnone⟩

/-- Code that is pushed does not end as `setup` does, with `isAlarm = false`. So that ending tells
whether `setup` is still under way. -/
theorem exec_getLast? {k : Sketch} (hmake : ∀ stmt ∈ k.makeSchedule, scheduling stmt = true)
    (now : UInt32) (s : System) (stmt : Stmt) :
    (exec k now s stmt).2.getLast? ≠ some .clearIsAlarm := by
  -- `clearIsAlarm` is the first statement of `onAlarm`, never the last one of what is put before
  -- the code, and the schedule does not have it.
  cases stmt with
  | toggleMotor toggle =>
    intro h
    obtain ⟨angle, -, hangle⟩ := List.mem_map.1 (List.mem_of_getLast? h)
    cases hangle
  | ifIsAlarm =>
    simp only [exec]
    split <;> decide
  | ifAlarm1 =>
    cases hflag : s.rtc.a1f with
    | none =>
      simp only [exec, hflag]
      decide
    | some t =>
      simp only [exec, hflag]
      intro h
      rcases List.mem_cons.1 (List.mem_of_getLast? h) with h | h
      · cases h
      rcases List.mem_cons.1 h with h | h
      · cases h
      · cases hmake _ h
  | ifAlarm2 =>
    cases hflag : s.rtc.a2f <;> simp only [exec, hflag] <;> decide
  | _ => exact fun h ↦ absurd h (Option.some_ne_none _).symm

/-- As long as `setup` has not ended, no call has opened the hatch. -/
theorem unopened_of_reachable {k : Sketch} {angles : List ℤ} (hk : ClosesFirst k angles) {r : Rtc}
    {c : List Stmt × System} (h : Reachable k r c) : c.1.getLast? = some .clearIsAlarm →
      (∀ move ∈ c.2.moves, move.1 = .Close) ∧ ∀ stmt ∈ c.1, opening stmt = false := by
  have hmake := scheduling_makeSchedule hk.journal
  induction h with
  | refl =>
    refine fun _ ↦ ⟨fun _ h ↦ absurd h List.not_mem_nil, fun stmt hstmt ↦ ?_⟩
    rcases List.mem_append.1 hstmt with hstmt | hstmt
    · exact hk.opens stmt hstmt
    rcases List.mem_append.1 hstmt with hstmt | hstmt
    · exact (of_scheduling (hmake stmt hstmt)).2.2
    · rw [List.mem_singleton.1 hstmt]
      rfl
  | @tail c c' _ hstep ih =>
    obtain ⟨a, hact⟩ := hstep
    have hprogram : (program k fun _ _ ↦ True).Step c c' := step_program hact fun _ ↦ trivial
    cases hprogram with
    | env henv =>
      rcases henv with hint | ⟨htick, -⟩
      · obtain ⟨-, rfl⟩ := interrupt_eq_some hint
        exact ih
      · obtain ⟨r, -, rfl⟩ := tick_eq_some htick
        exact ih
    | @exec stmt code s s' pushed hexec =>
      obtain ⟨-, -, now, -, heq⟩ := hexec
      obtain ⟨rfl, rfl⟩ := Prod.ext_iff.1 heq
      -- A code that still ends in the `clearIsAlarm` of `setup` was one before this statement too.
      intro hlast
      cases code with
      | nil => exact absurd (by rwa [List.append_nil] at hlast) (exec_getLast? hmake now s stmt)
      | cons stmt' code =>
        rw [List.getLast?_append_cons] at hlast
        obtain ⟨hmoves, hopening⟩ := ih (by rwa [List.getLast?_cons_cons])
        obtain ⟨hmoves', hpushed⟩ :=
          exec_unopened k now (hopening stmt List.mem_cons_self) hmoves
        refine ⟨hmoves', fun stmt hstmt ↦ ?_⟩
        rcases List.mem_append.1 hstmt with hstmt | hstmt
        · exact hpushed stmt hstmt
        · exact hopening stmt (List.mem_cons_of_mem _ hstmt)
    | again => exact fun h ↦ by cases h

/-- An angle has been written, or is still to be: at the reading of `setup` the servo has been told
where to stand. -/
theorem moved_of_reachable {k : Sketch} {angles : List ℤ} (hk : ClosesFirst k angles) {r : Rtc}
    {c : List Stmt × System} (h : Reachable k r c) :
    c.2.commanded ≠ [] ∨ ∃ stmt ∈ c.1, moving stmt = true := by
  induction h with
  | refl =>
    obtain ⟨stmt, hstmt, hmoving⟩ := hk.moves
    exact Or.inr ⟨stmt, List.mem_append_left _ hstmt, hmoving⟩
  | @tail c c' _ hstep ih =>
    obtain ⟨a, hact⟩ := hstep
    have hprogram : (program k fun _ _ ↦ True).Step c c' := step_program hact fun _ ↦ trivial
    cases hprogram with
    | env henv =>
      rcases henv with hint | ⟨htick, -⟩
      · obtain ⟨-, rfl⟩ := interrupt_eq_some hint
        exact ih
      · obtain ⟨r, -, rfl⟩ := tick_eq_some htick
        exact ih
    | @exec stmt code s s' pushed hexec =>
      obtain ⟨-, -, now, -, heq⟩ := hexec
      obtain ⟨rfl, rfl⟩ := Prod.ext_iff.1 heq
      rcases ih with hcommanded | ⟨i, hi, hmoving⟩
      · exact Or.inl (commanded_exec k now stmt hcommanded)
      -- The statement that moves the motor was the one executed, or it is still ahead.
      rcases List.mem_cons.1 hi with rfl | hi
      · cases i with
        | write angle => exact Or.inl (List.cons_ne_nil _ _)
        | toggleMotor toggle =>
          refine Or.inr ⟨.write ((1 - toggle.toInt) * 180), List.mem_append_left _ ?_, rfl⟩
          cases toggle <;> exact List.mem_map_of_mem List.mem_cons_self
        | _ => cases hmoving
      · exact Or.inr ⟨i, List.mem_append_right _ hi, hmoving⟩
    | again =>
      rcases ih with hcommanded | ⟨i, hi, -⟩
      · exact Or.inl hcommanded
      · exact absurd hi List.not_mem_nil

/-- **Where a prompt run starts**, the hatch stands closed. -/
theorem standing_atReading {k : Sketch} {angles : List ℤ} (hk : ClosesFirst k angles) {r : Rtc}
    {t₀ : ℕ} {c : List Stmt × System} (h : AtReading k r t₀ c) :
    standing angles.getLast? c.2.moves = some 0 := by
  have hmake := scheduling_makeSchedule hk.journal
  have hplan : ∀ stmt ∈ k.planSchedule, scheduling stmt = true :=
    fun stmt hstmt ↦ hmake stmt (List.mem_cons_of_mem _ hstmt)
  have hno : .attachInterrupt ∉ k.planSchedule := fun hmem ↦ by cases hplan _ hmem
  have hcode := (h.spec hno).1
  -- the angle of the last call has been written
  obtain ⟨angles', rest, hahead, -, hstand⟩ := (settled_of_reachable hk h.reachable).ahead
  have hangles : angles' = [] := by
    rw [hcode] at hahead
    cases angles' with
    | nil => rfl
    | cons => cases hahead
  rw [hangles, List.reverse_nil, List.nil_append] at hstand
  have hcommanded : c.2.commanded ≠ [] := by
    refine (moved_of_reachable hk h.reachable).resolve_right ?_
    rintro ⟨i, hi, hmoving⟩
    rw [hcode] at hi
    rcases List.mem_append.1 hi with hi | hi
    · exact absurd (hmoving.symm.trans (of_scheduling (hplan i hi)).2.1) (by decide)
    · rw [List.mem_singleton.1 hi] at hmoving
      cases hmoving
  -- and it is a closing one
  have hclose := (unopened_of_reachable hk h.reachable (by rw [hcode, List.getLast?_concat])).1
  have hsome : standing angles.getLast? c.2.moves ≠ none := by
    rw [← hstand]
    exact fun hnone ↦ hcommanded (List.head?_eq_none_iff.1 hnone)
  unfold standing at hsome ⊢
  cases hlast : c.2.moves.getLast? with
  | some move =>
    simp only [hclose move (List.mem_of_getLast? hlast)]
    rfl
  | none =>
    simp only [hlast] at hsome ⊢
    obtain ⟨angle, hangle⟩ := Option.ne_none_iff_exists'.1 hsome
    rw [hangle, hk.zero angle hangle]

/-! ### The calendar of a nested table -/

/-- A line that opens while another one is open closes before it, or with it. The distance of the
openings is taken around the day, so that it holds of lines on either side of midnight. -/
def Nested (table : List AddEvent) : Prop :=
  ∀ e ∈ table, ∀ e' ∈ table, (e'.opensAt + 86400 - e.opensAt) % 86400 ≠ 0 →
    (e'.opensAt + 86400 - e.opensAt) % 86400 < e.openForSeconds.toNat →
      (e'.opensAt + 86400 - e.opensAt) % 86400 + e'.openForSeconds.toNat ≤ e.openForSeconds.toNat

instance : DecidablePred Nested := fun _ ↦ inferInstanceAs (Decidable (∀ _ ∈ _, _))

/-- The windows around noon and the brightening are apart, and a yearly window of twenty hours takes
in all that opens in it. -/
theorem nested_analemma1Table : Nested analemma1Table := by decide

theorem nested_analemma3Table : Nested analemma3Table := by decide

theorem nested_releaseTable : Nested releaseTable := by decide

/-- **What opens inside a window closes inside it.** -/
theorem Nested.close_le {table : List AddEvent} (h : Nested table) (hreg : Regular table)
    {v w : ℕ × ℕ} (hv : v ∈ occurrences table) (hw : w ∈ occurrences table) (hlt : v.1 < w.1)
    (hinside : w.1 < v.2) : w.2 ≤ v.2 := by
  obtain ⟨e, he, hopen, hclose⟩ := hv
  obtain ⟨e', he', hopen', hclose'⟩ := hw
  have hmod := (hreg.line e he).valid.mod_of_occurs hopen
  have hmod' := (hreg.line e' he').valid.mod_of_occurs hopen'
  have hday := (hreg.line e he).le_day
  have hgap : (e'.opensAt + 86400 - e.opensAt) % 86400 = w.1 - v.1 := by omega
  have hnested := h e he e' he'
  omega

/-- The hatch after the calls that are due, where the windows follow each other. -/
theorem standing_told {before : Option ℤ} {first : List (Toggle × Option ℕ)}
    (hfirst : standing before first = some 0) {ws : List (ℕ × ℕ)} {U : ℕ}
    (hordered : ws.Pairwise fun v w ↦ v.2 < w.1) (hpast : ∀ w ∈ ws, w.1 ≤ U) :
    standing before (told first (due U ws)) =
      some (if ∃ w ∈ ws, w.1 ≤ U ∧ U < w.2 then 180 else 0) := by
  -- The last window decides: the ones before it are closed when it opens.
  rcases List.eq_nil_or_concat' ws with rfl | ⟨vs, w, rfl⟩
  · have hnone : ¬ ∃ w ∈ ([] : List (ℕ × ℕ)), w.1 ≤ U ∧ U < w.2 := by simp
    rw [if_neg hnone, ← hfirst]
    exact congrArg (standing before) (List.append_nil first)
  obtain ⟨-, -, hbefore⟩ := List.pairwise_append.1 hordered
  have hopen : w.1 ≤ U := hpast w (by simp)
  have hvs : ∀ v ∈ vs, v.1 ≤ U ∧ v.2 ≤ U := fun v hv ↦
    ⟨hpast v (List.mem_append_left _ hv),
      ((hbefore v hv w List.mem_cons_self).trans_le hopen).le⟩
  by_cases hclose : U < w.2
  · rw [due_append_of_le hvs hopen hclose, told_append, standing_append_singleton,
      if_pos ⟨w, by simp, hopen, hclose⟩]
    rfl
  · -- Both calls of the last window have been answered, the closing last.
    have hdue : due U (vs ++ [w]) = answers vs ++ [(.Open, w.1)] ++ [(.Close, w.2)] := by
      rw [due_eq_answers, answers_append, answers_singleton, List.append_assoc]
      · rfl
      · intro v hv
        rcases List.mem_append.1 hv with hv | hv
        · exact hvs v hv
        · rw [List.mem_singleton.1 hv]
          exact ⟨hopen, not_lt.1 hclose⟩
    have hnone : ¬ ∃ v ∈ vs ++ [w], v.1 ≤ U ∧ U < v.2 := by
      rintro ⟨v, hv, -, hlt⟩
      rcases List.mem_append.1 hv with hv | hv
      · exact absurd hlt (not_lt.2 (hvs v hv).2)
      · rw [List.mem_singleton.1 hv] at hlt
        exact hclose hlt
    rw [hdue, told_append, standing_append_singleton, if_neg hnone]
    rfl

/-- An instant lies in one of the windows that open after `t₀`, performed or not: the calendar's own
statement of when light is to fall in. -/
def Exposed (W : Set (ℕ × ℕ)) (t₀ t : ℕ) : Prop := ∃ w ∈ W, t₀ < w.1 ∧ w.1 ≤ t ∧ t < w.2

/-- In a nested table, the instants of the windows are those of the windows that are performed. -/
theorem exposed_iff_performed {table : List AddEvent} (hreg : Regular table)
    (hnested : Nested table) {t₀ t : ℕ} {ws : List (ℕ × ℕ)}
    (h : Performed (occurrences table) t₀ t ws) :
    Exposed (occurrences table) t₀ t ↔ ∃ w ∈ ws, w.1 ≤ t ∧ t < w.2 := by
  constructor
  · rintro ⟨w, hw, hlt, hle, hclose⟩
    by_cases hmem : w ∈ ws
    · exact ⟨w, hmem, hle, hclose⟩
    -- what is left out opens inside a window that is performed
    have hinside : ∃ v ∈ ws, v.1 < w.1 ∧ w.1 < v.2 := by
      by_contra hnone
      refine hmem ((h.mem_iff w).2 ⟨hw, hlt, hle, fun v hv hvw ↦ ?_⟩)
      exact not_lt.1 fun hwv ↦ hnone ⟨v, hv, hvw, hwv⟩
    obtain ⟨v, hv, hvw, hwv⟩ := hinside
    obtain ⟨hmemv, -, hpast, -⟩ := (h.mem_iff v).1 hv
    exact ⟨v, hv, hpast, hclose.trans_le (hnested.close_le hreg hmemv hw hvw hwv)⟩
  · rintro ⟨w, hw, hle, hclose⟩
    obtain ⟨hmem, hlt, -⟩ := (h.mem_iff w).1 hw
    exact ⟨w, hmem, hlt, hle, hclose⟩

/-- **The hatch is open exactly in the windows of the calendar**, in every prompt run of a sketch
that closes the hatch first and has a regular and nested table. The calls made tell where the servo
stands, and nestedness that nothing has been left out. -/
theorem exposed_of_nested {k : Sketch} {angles : List ℤ} (hk : ClosesFirst k angles)
    (hreg : Regular k.table) (hnested : Nested k.table) {r : Rtc} {t₀ since : ℕ}
    {c₀ c : List Stmt × System} (hread : AtReading k r t₀ c₀)
    (hclear : ∀ w ∈ occurrences k.table, ¬ (t₀ ≤ w.1 ∧ w.1 ≤ t₀ + 60))
    (hrun : PromptRun k c₀ t₀ c since) (hidle : Idle c.2) :
    (Exposed (occurrences k.table) t₀ c.2.rtc.time → c.2.commanded.head? = some 180) ∧
      (¬ Exposed (occurrences k.table) t₀ c.2.rtc.time → c.2.commanded.head? = some 0) := by
  obtain ⟨ws, U, hperformed, hU, hmoves, -⟩ := kept_of_regular hreg hk.journal hread hclear hrun
  obtain rfl : U = c.2.rtc.time := hU.resolve_right fun h ↦ h.1 hidle
  have hpast : ∀ w ∈ ws, w.1 ≤ c.2.rtc.time := fun w hw ↦ ((hperformed.mem_iff w).1 hw).2.2.1
  have hstand : c.2.commanded.head? =
      some (if ∃ w ∈ ws, w.1 ≤ c.2.rtc.time ∧ c.2.rtc.time < w.2 then 180 else 0) := by
    rw [commanded_of_asleep hk (hrun.reachable hread.reachable) hidle.1, hmoves]
    exact standing_told (standing_atReading hk hread) hperformed.ordered hpast
  rw [exposed_iff_performed hreg hnested hperformed, hstand]
  exact ⟨fun h ↦ by rw [if_pos h], fun h ↦ by rw [if_neg h]⟩

/-- Every prompt run of one of the three sketches keeps the calendar. -/
theorem kept_of_sketch {k : Sketch} (hk : k = analemma1 ∨ k = analemma3 ∨ k = analemmaRelease)
    {r : Rtc} {t₀ since : ℕ} {c₀ c : List Stmt × System} (hread : AtReading k r t₀ c₀)
    (hclear : ∀ w ∈ occurrences k.table, ¬ (t₀ ≤ w.1 ∧ w.1 ≤ t₀ + 60))
    (hrun : PromptRun k c₀ t₀ c since) :
    Kept (occurrences k.table) t₀ c₀.2.moves c.2 since := by
  rcases hk with rfl | rfl | rfl
  · exact kept_of_regular regular_analemma1Table (closesFirst_withTable _).journal hread hclear hrun
  · exact kept_of_regular regular_analemma3Table (closesFirst_withTable _).journal hread hclear hrun
  · exact kept_of_regular regular_releaseTable closesFirst_analemmaRelease.journal hread hclear hrun

/-- What `analemma_1` does from the reading of `setup` on, until a minute past ten: it sleeps until
ten, opens the hatch, and sleeps on. -/
def untilOneMinutePast : List Action :=
  List.replicate 22 (.exec 946720709) ++ (List.replicate 91 .tick ++
    (.interrupt :: (List.replicate 190 (.exec 946720800) ++ List.replicate 60 .tick)))

/-- The run as it is evaluated: one call, and then the controller is idle. -/
theorem untilOneMinutePast_run :
    (morningReading.bind fun x ↦
      (runPrompt analemma1 untilOneMinutePast (x.2, 946720709)).map fun y ↦
        decide (x.1.1 = analemma1.makeSchedule ++ [.clearIsAlarm] ∧ x.1.2.rtc.time = 946720709 ∧
          Idle y.1.2 ∧ y.1.2.rtc.time = 946720860 ∧
            y.1.2.moves = [(.Open, some 946720800)])) = some true := by
  decide +kernel

/-- A run to a minute past ten. -/
theorem exists_oneMinutePast :
    ∃ c₀ c since, AtReading analemma1 morning 946720709 c₀ ∧
      PromptRun analemma1 c₀ 946720709 c since ∧ Idle c.2 ∧ c.2.rtc.time = 946720860 ∧
        c.2.moves = [(.Open, some 946720800)] := by
  obtain ⟨⟨⟨code, s⟩, c₀⟩, hreading, hrest⟩ := Option.bind_eq_some_iff.1 untilOneMinutePast_run
  obtain ⟨⟨c, since⟩, hrun, hdecide⟩ := Option.map_eq_some_iff.1 hrest
  obtain ⟨hcode, htime, hidle, hlater, hmoves⟩ := of_decide_eq_true hdecide
  obtain ⟨⟨code', s'⟩, hbefore, hafter⟩ := Option.bind_eq_some_iff.1 hreading
  obtain ⟨c₀', hact, heq⟩ := Option.map_eq_some_iff.1 hafter
  cases heq
  simp only at hcode htime hact
  subst hcode
  exact ⟨c₀, c, since,
    ⟨s, 946720709, (reachableIf_of_runActions hbefore).reachable, htime, hact⟩,
    promptRun_of_runPrompt hrun, hidle, hlater, hmoves⟩

/-- Asleep at a minute past ten, the servo stands at 180. -/
theorem commanded_of_asleep_oneMinutePast :
    ∃ c, Reachable analemma1 morning c ∧ c.2.asleep = true ∧
      c.2.commanded.head? = some 180 := by
  obtain ⟨c₀, c, since, hread, hrun, hidle, -, hmoves⟩ := exists_oneMinutePast
  have hreach := hrun.reachable hread.reachable
  have hstand := commanded_of_asleep (closesFirst_withTable _) hreach hidle.1
  rw [hmoves] at hstand
  exact ⟨c, hreach, hidle.1, hstand⟩

/-- **The camera sees what its table says.** In every prompt run of `analemma_1`, `analemma_3` and
`analemma_release` from an instant that `setup` reads, where no entry of the table opens in the
minute after, the servo stands at 180 in every idle state whose instant lies in the window of an
occurrence that opens after the reading, performed or not, and at 0 in every other one. -/
theorem commanded_of_idle {k : Sketch} (hk : k = analemma1 ∨ k = analemma3 ∨ k = analemmaRelease)
    {r : Rtc} {t₀ since : ℕ} {c₀ c : List Stmt × System} (hread : AtReading k r t₀ c₀)
    (hclear : ∀ w ∈ occurrences k.table, ¬ (t₀ ≤ w.1 ∧ w.1 ≤ t₀ + 60))
    (hrun : PromptRun k c₀ t₀ c since) (hidle : Idle c.2) :
    (Exposed (occurrences k.table) t₀ c.2.rtc.time → c.2.commanded.head? = some 180) ∧
      (¬ Exposed (occurrences k.table) t₀ c.2.rtc.time → c.2.commanded.head? = some 0) := by
  rcases hk with rfl | rfl | rfl
  · exact exposed_of_nested (closesFirst_withTable _) regular_analemma1Table nested_analemma1Table
      hread hclear hrun hidle
  · exact exposed_of_nested (closesFirst_withTable _) regular_analemma3Table nested_analemma3Table
      hread hclear hrun hidle
  · exact exposed_of_nested closesFirst_analemmaRelease regular_releaseTable nested_releaseTable
      hread hclear hrun hidle

/-- That is in a window of the calendar, and so the hatch is open. -/
theorem commanded_of_idle_oneMinutePast :
    ∃ c₀ c since, AtReading analemma1 morning 946720709 c₀ ∧
      PromptRun analemma1 c₀ 946720709 c since ∧ Idle c.2 ∧ c.2.rtc.time = 946720860 ∧
        c.2.commanded.head? = some 180 := by
  obtain ⟨c₀, c, since, hread, hrun, hidle, htime, -⟩ := exists_oneMinutePast
  have hten : (946720800, 946720920) ∈ occurrences analemma1Table :=
    ⟨.daily 10 0 (2 * TimeLib.secsPerMin), by decide,
      (civil_time_iff (by decide)).2 (by decide), rfl⟩
  have hopen : Exposed (occurrences analemma1.table) 946720709 c.2.rtc.time :=
    ⟨_, hten, by decide, by rw [htime]; decide, by rw [htime]; decide⟩
  exact ⟨c₀, c, since, hread, hrun, hidle, htime,
    (commanded_of_idle (Or.inl rfl) hread morning_clear hrun hidle).1 hopen⟩

end Machine.Exposure
