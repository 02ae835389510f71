import Analemma.Machine.Flags

/-!
# Prompt runs

Runs in which the controller is never busy for as long as a minute. The controller is `Idle` while
it sleeps and no interrupt is on its way; its work begins with the tick that ends this state, the
match of an alarm, and lasts until it is idle again. A prompt run starts at the reading of the clock
by the `makeSchedule` of `setup` (`AtReading`), with which the first stretch of work begins.

A state of such a run is paired with the instant at which the present stretch of work began.

The minute is the resolution of the alarms: alarm 2 does not compare the seconds, and the lines of
the tables are whole minutes. A controller that is idle may stay so for any time, and only what it
does between two idle states is timed. Being prompt is a relation between the states before and
after a step, so that it applies to machines with more in their state as well, on the bus or with
the clock of the library.
-/

namespace Machine

open DS3231 Schedule Interleaving

/-- Asleep, with no interrupt on its way: only a tick can happen next. -/
def Idle (s : System) : Prop := s.asleep = true ∧ s.pending = false

instance : DecidablePred Idle := fun _ ↦ inferInstanceAs (Decidable (_ ∧ _))

/-- Awake, the controller is not idle. -/
theorem not_idle {s : System} (h : s.asleep = false) : ¬ Idle s := fun hidle ↦
  absurd (h.symm.trans hidle.1) Bool.false_ne_true

/-- And neither is it with an interrupt on its way. -/
theorem not_idle_of_pending {s : System} (h : s.asleep = true → s.pending = true) : ¬ Idle s :=
  fun hidle ↦ absurd (hidle.2.symm.trans (h hidle.1)) Bool.false_ne_true

/-- The instant at which the work of the state after a step began: the present one if the step ends
an idle state. -/
def workSince (s s' : System) (since : ℕ) : ℕ := if Idle s then s'.rtc.time else since

/-- The work has not lasted a minute, in the state after the step, and the instant at which it began
is carried on. -/
def Prompt (s s' : System) (since since' : ℕ) : Prop :=
  since' = workSince s s' since ∧ (¬ Idle s' → s'.rtc.time < since' + 60)

instance (s s' : System) (since since' : ℕ) : Decidable (Prompt s s' since since') :=
  inferInstanceAs (Decidable (_ ∧ _))

/-- A step of a prompt run: a step of the sketch, and prompt. -/
def PromptStep (k : Sketch) (x y : (List Stmt × System) × ℕ) : Prop :=
  Step k x.1 y.1 ∧ Prompt x.1.2 y.1.2 x.2 y.2

/-- A prompt run, from a configuration in which the work began at the instant `since₀`. -/
def PromptRun (k : Sketch) (c₀ : List Stmt × System) (since₀ : ℕ) (c : List Stmt × System)
    (since : ℕ) : Prop :=
  Relation.ReflTransGen (PromptStep k) (c₀, since₀) (c, since)

/-- The configuration right after the `makeSchedule` of `setup` has read the instant `t₀` from the
clock. Only in `setup` is `makeSchedule` followed by `isAlarm = false`. -/
def AtReading (k : Sketch) (r : Rtc) (t₀ : ℕ) (c : List Stmt × System) : Prop :=
  ∃ s now, Reachable k r (k.makeSchedule ++ [.clearIsAlarm], s) ∧ s.rtc.time = t₀ ∧
    act k (.exec now) (k.makeSchedule ++ [.clearIsAlarm], s) = some c

/-! ### Prompt runs as runs of a program -/

/-- The sketch as a program whose states remember when the work began. The outlines of prompt runs
are outlines of this program. -/
def promptProgram (k : Sketch) : Interleaving.Program Stmt (System × ℕ) where
  exec stmt σ σ' pushed :=
    (program k fun _ _ ↦ True).exec stmt σ.1 σ'.1 pushed ∧ Prompt σ.1 σ'.1 σ.2 σ'.2
  env code σ σ' := (program k fun _ _ ↦ True).env code σ.1 σ'.1 ∧ Prompt σ.1 σ'.1 σ.2 σ'.2
  loop := Sketch.loop

/-- An idle controller executes nothing. -/
theorem code_eq_of_idle {k : Sketch} {a : Action} {c c' : List Stmt × System}
    (h : act k a c = some c') (hidle : Idle c.2) : c'.1 = c.1 := by
  cases a with
  | tick =>
    obtain ⟨s, -, rfl⟩ := Option.map_eq_some_iff.1 h
    rfl
  | interrupt =>
    obtain ⟨s, -, rfl⟩ := Option.map_eq_some_iff.1 h
    rfl
  | exec now => exact absurd h (by simp [act, hidle.1])

/-- A step of a prompt run is one of the program. -/
theorem step_promptProgram {k : Sketch} {x y : (List Stmt × System) × ℕ} (h : PromptStep k x y) :
    (promptProgram k).Step (x.1.1, x.1.2, x.2) (y.1.1, y.1.2, y.2) := by
  obtain ⟨⟨code, s⟩, since⟩ := x
  obtain ⟨⟨code', s'⟩, since'⟩ := y
  obtain ⟨⟨a, hact⟩, hprompt⟩ := h
  have hstep : (program k fun _ _ ↦ True).Step (code, s) (code', s') :=
    step_program hact fun _ ↦ trivial
  cases hstep with
  | env henv => exact .env ⟨henv, hprompt⟩
  | exec hexec => exact .exec ⟨hexec, hprompt⟩
  | again =>
    have hidle : ¬ Idle s := fun hidle ↦ absurd (code_eq_of_idle hact hidle) (List.cons_ne_nil _ _)
    have hsince : since' = since := hprompt.1.trans (if_neg hidle)
    rw [hsince]
    exact .again

/-- A prompt run is a run of the program, from where it starts. -/
theorem PromptRun.run {k : Sketch} {c₀ c : List Stmt × System} {since₀ since : ℕ}
    (h : PromptRun k c₀ since₀ c since) :
    Relation.ReflTransGen (promptProgram k).Step (c₀.1, c₀.2, since₀) (c.1, c.2, since) :=
  h.lift (fun x ↦ (x.1.1, x.1.2, x.2)) fun _ _ hstep ↦ step_promptProgram hstep

/-- And its configurations are reachable, if the first one is. -/
theorem PromptRun.reachable {k : Sketch} {r : Rtc} {c₀ c : List Stmt × System} {since₀ since : ℕ}
    (h₀ : Reachable k r c₀) (h : PromptRun k c₀ since₀ c since) : Reachable k r c :=
  h₀.trans (h.lift Prod.fst fun _ _ hstep ↦ hstep.1)

/-- A run of given actions, as long as it is prompt. -/
def runPrompt (k : Sketch) :
    List Action → (List Stmt × System) × ℕ → Option ((List Stmt × System) × ℕ)
  | [], x => some x
  | a :: actions, x =>
    (act k a x.1).bind fun c ↦
      if Prompt x.1.2 c.2 x.2 (workSince x.1.2 c.2 x.2) then
        runPrompt k actions (c, workSince x.1.2 c.2 x.2)
      else none

theorem promptRun_of_runPrompt {k : Sketch} {actions : List Action} {c₀ c : List Stmt × System}
    {since₀ since : ℕ} (h : runPrompt k actions (c₀, since₀) = some (c, since)) :
    PromptRun k c₀ since₀ c since := by
  unfold PromptRun
  generalize (c₀, since₀) = x at h ⊢
  induction actions generalizing x with
  | nil =>
    cases h
    exact .refl
  | cons a actions ih =>
    obtain ⟨c₁, hact, hrest⟩ := Option.bind_eq_some_iff.1 h
    split at hrest
    · next hprompt => exact .head ⟨⟨a, hact⟩, hprompt⟩ (ih _ hrest)
    · cases hrest

/-! ### Where a prompt run starts -/

/-- Once attached, the interrupt stays so. -/
theorem attached_exec (k : Sketch) (now : UInt32) {s : System} {stmt : Stmt}
    (h : s.attached = true ∨ stmt = .attachInterrupt) : (exec k now s stmt).1.attached = true := by
  cases stmt with
  | attachInterrupt => rfl
  | ifAlarm1 => cases hflag : s.rtc.a1f <;> simpa [exec, hflag, System.takeAlarm1] using h
  | ifAlarm2 => cases hflag : s.rtc.a2f <;> simpa [exec, hflag, System.takeAlarm2] using h
  | refreshDate =>
    have hattached : s.attached = true := h.resolve_right Stmt.noConfusion
    exact of_forall_sysTime (P := fun s ↦ s.attached = true) k now fun _ ↦ hattached
  | _ => exact h.resolve_right Stmt.noConfusion

/-- The interrupt is attached, or `setup` has not come to its attachment yet. -/
theorem attached_of_reachable {k : Sketch} {r : Rtc} {c : List Stmt × System}
    (h : Reachable k r c) : c.2.attached = true ∨ .attachInterrupt ∈ c.1 := by
  induction h with
  | refl => exact Or.inr (by simp [Sketch.setup, Sketch.prepare])
  | @tail c c' _ hstep ih =>
    obtain ⟨a, hact⟩ := hstep
    have hprogram : (program k fun _ _ ↦ True).Step c c' := step_program hact fun _ ↦ trivial
    cases hprogram with
    | env henv =>
      rcases henv with hint | ⟨htick, -⟩
      · obtain ⟨-, rfl⟩ := interrupt_eq_some hint
        exact ih
      · obtain ⟨r, -, rfl⟩ := tick_eq_some htick
        exact ih
    | @exec stmt code s s' pushed hexec =>
      obtain ⟨-, -, now, -, heq⟩ := hexec
      obtain ⟨rfl, rfl⟩ := Prod.ext_iff.1 heq
      rw [List.mem_cons] at ih
      rcases ih with hattached | hstmt | hcode
      · exact Or.inl (attached_exec k now (Or.inl hattached))
      · exact Or.inl (attached_exec k now (Or.inr hstmt.symm))
      · exact Or.inr (List.mem_append_right _ hcode)
    | again => exact Or.inl (ih.resolve_right List.not_mem_nil)

/-- The configuration right after the reading is a reachable one. -/
theorem AtReading.reachable {k : Sketch} {r : Rtc} {t₀ : ℕ} {c : List Stmt × System}
    (h : AtReading k r t₀ c) : Reachable k r c := by
  obtain ⟨s, now, hreach, -, hact⟩ := h
  exact hreach.tail ⟨.exec now, hact⟩

/-- The state right after the reading: awake, the system time is the instant read, and the interrupt
is attached. -/
theorem AtReading.spec {k : Sketch} {r : Rtc} {t₀ : ℕ} {c : List Stmt × System}
    (h : AtReading k r t₀ c) (hno : .attachInterrupt ∉ k.planSchedule) :
    c.1 = k.planSchedule ++ [.clearIsAlarm] ∧ c.2.asleep = false ∧ c.2.attached = true ∧
      c.2.rtc.time = t₀ ∧ c.2.sysTime.toNat = t₀ := by
  obtain ⟨s, now, hreach, rfl, hact⟩ := h
  have hattached : s.attached = true :=
    (attached_of_reachable hreach).resolve_right (by simp [Sketch.makeSchedule, hno])
  simp only [act] at hact
  split at hact
  · next hready =>
    cases hact
    obtain ⟨hawake, hattached', htime⟩ := of_forall_sysTime
      (P := fun u ↦ u.asleep = false ∧ u.attached = true ∧ u.rtc.time = s.rtc.time) k now
      fun _ ↦ ⟨hready.1, hattached, rfl⟩
    exact ⟨rfl, hawake, hattached', htime, toNat_systemTime_getDateTime s.rtc.time_mem⟩
  · cases hact

end Machine
