import Analemma.Foundation.Simulation
import Analemma.Machine.Exposure
import Analemma.TimeLib.Clock

/-!
# The system time of the running sketch

`Machine` takes `now()` to return some instant between the last reading of the clock and the
present. Here the sketch runs with the clock of TimeLib (`TimeLib.Clock`): `refreshDate` ends in its
`setTime`, which reads `millis()`, and the statements that ask for the time (`asksNow`) call its
`now()`, whose loop reads `millis()` again and again while the counter goes on.

What is needed of the counter is that it is slower than the clock chip, so that it makes less than a
thousand counts between two seconds of the chip (`Counter`); it stands still in `powerDown`, and it
may be late by any amount. Then what the library has counted is never ahead of the chip
(`Behind`), and every run is a run of `Machine` (`reachable_of_timed`), a prompt one if it is prompt
(`promptRun_of_timed`).

`Behind` is an inequality in milliseconds: what the library has counted, and what it has still to
count up to `millis()`, is at most what the chip shows. The library counts in whole seconds and
`millis()` wraps, so the invariant speaks of the unwrapped counter and relates the two through the
words that the code stores.

The refinement is forward and functional: a step with the library is the step of `Machine` with the
value that the library returns (`exec_of_act`), and the counter's own steps are not seen. That the
provider of TimeLib is not set, as in these sketches, is why no synchronisation comes in between.

Nothing is claimed for a counter that is faster than the chip: there `now()` could be ahead of it,
and `addEvent` would take an occurrence for past that has still to come.
-/

namespace Machine.SystemTime

open Schedule TimeLib

/-! ### The sketch with the clock of TimeLib -/

/-- The counter of milliseconds, with the counts since the chip's last second. There are less than a
thousand of them: the counter is slower than the chip. -/
structure Counter where
  millis : ℕ
  sinceTick : ℕ
  sinceTick_lt : sinceTick < 1000
deriving DecidableEq

/-- Some milliseconds pass, as many as fit into the chip's second. More do not pass before its next
tick. -/
def Counter.elapse (n : Counter) (d : ℕ) : Option Counter :=
  if h : n.sinceTick + d < 1000 then some ⟨n.millis + d, n.sinceTick + d, h⟩ else none

/-- The chip's next second begins, whatever the counter has made of the last one. -/
def Counter.tick (n : Counter) : Counter := ⟨n.millis, 0, by omega⟩

/-- Code, clock chip and controller, TimeLib's clock and the counter of milliseconds. -/
structure Config where
  code : List Stmt
  system : System
  clock : Clock
  counter : Counter
deriving DecidableEq

/-- After power-up: the counter and the library's clock start from zero. -/
def Config.powerUp (k : Sketch) (r : Rtc) : Config where
  code := k.setup
  system := Machine.powerUp r
  clock := .initial
  counter := ⟨0, 0, by omega⟩

/-- Statements that call `now()`. -/
def asksNow : Stmt → Bool
  | .addEvent _ | .updateJournal => true
  | _ => false

/-- What can happen next. A statement says how long it takes, and at which milliseconds it reads the
counter. -/
inductive Action where
  /-- The chip's next second begins. -/
  | tick
  /-- The counter goes on, while the controller is awake. -/
  | elapse (d : ℕ)
  | interrupt
  /-- The next statement is executed, in `d` milliseconds. If it calls `now()`, the others are the
  milliseconds at which the loop reads `millis()`; if it is `refreshDate`, the last one is that at
  which `setTime` does. -/
  | exec (d : ℕ) (early : List ℕ) (last : ℕ)
deriving DecidableEq, Repr

/-- The next statement. Where it does not call `now()`, the value of `now()` has no effect. -/
def execNext (k : Sketch) (d : ℕ) (early : List ℕ) (last : ℕ) (x : Config) : Option Config :=
  match x.code with
  | [] => some { x with code := Sketch.loop }
  | stmt :: code => do
    let counter ← x.counter.elapse d
    if asksNow stmt then
      if (x.counter.millis :: (early ++ [last])).IsChain (· ≤ ·) ∧ last ≤ counter.millis then do
        let (now, clock) ← x.clock.now ((early ++ [last]).map .ofNat)
        let (system, pushed) := exec k now x.system stmt
        some ⟨pushed ++ code, system, clock, counter⟩
      else none
    else if stmt = .refreshDate then
      if x.counter.millis ≤ last ∧ last ≤ counter.millis then
        let (system, pushed) := exec k 0 x.system stmt
        some ⟨pushed ++ code, system, x.clock.setTime system.sysTime (.ofNat last), counter⟩
      else none
    else
      let (system, pushed) := exec k 0 x.system stmt
      some ⟨pushed ++ code, system, x.clock, counter⟩

/-- A step. Ticks and interrupts are those of `Machine`, with the counter beside them; in
`powerDown` the counter stands still. -/
def act (k : Sketch) (a : Action) (x : Config) : Option Config :=
  match a with
  | .tick => (tick x.system).map fun s ↦ { x with system := s, counter := x.counter.tick }
  | .elapse d =>
    if x.system.asleep = false then (x.counter.elapse d).map fun n ↦ { x with counter := n }
    else none
  | .interrupt => (interrupt x.system).map fun s ↦ { x with system := s }
  | .exec d early last =>
    if x.system.asleep = false ∧ x.system.pending = false then execNext k d early last x else none

/-- The step relation. -/
def Step (k : Sketch) (x y : Config) : Prop := ∃ a, act k a x = some y

/-- The configurations that can be reached from power-up. -/
def Timed (k : Sketch) (r : Rtc) (x : Config) : Prop :=
  Relation.ReflTransGen (Step k) (.powerUp k r) x

/-! ### The library is not ahead of the chip -/

/-- The library has counted `j` seconds since the last reading of the chip, up to the millisecond
`p`, and the chip has made these seconds too. -/
def Behind (s : System) (clock : Clock) (n : Counter) : Prop :=
  ∃ j p, clock.sysTime = .ofNat (s.sysTime.toNat + j) ∧ clock.prevMillis = .ofNat p ∧
    p ≤ n.millis ∧ n.millis - p + 1000 * (s.sysTime.toNat + j) ≤ 1000 * s.rtc.time + n.sinceTick

/-- The configuration as one of `Machine`, with the library's time beside it. -/
def Shows (x : Config) (c : List Stmt × System) : Prop :=
  c = (x.code, x.system) ∧ Behind x.system x.clock x.counter

theorem elapse_eq_some {n n' : Counter} {d : ℕ} (h : n.elapse d = some n') :
    n'.millis = n.millis + d ∧ n'.sinceTick = n.sinceTick + d := by
  unfold Counter.elapse at h
  split at h
  · cases h
    exact ⟨rfl, rfl⟩
  · cases h

section Behind

variable {s : System} {clock : Clock} {n n' : Counter}

/-- At power-up nothing has been counted, and the clock is past 1970. -/
theorem behind_powerUp (r : Rtc) : Behind (Machine.powerUp r) .initial ⟨0, 0, by omega⟩ :=
  ⟨0, 0, rfl, rfl, le_rfl, Nat.zero_le _⟩

theorem Behind.elapse (h : Behind s clock n) {d : ℕ} (hd : n.elapse d = some n') :
    Behind s clock n' := by
  obtain ⟨j, p, hsys, hprev, hle, hbehind⟩ := h
  obtain ⟨hmillis, hsince⟩ := elapse_eq_some hd
  exact ⟨j, p, hsys, hprev, by omega, by omega⟩

/-- A tick of the chip gains a thousand milliseconds, of which the counter has made less. -/
theorem Behind.tick (h : Behind s clock n) {s' : System} (hs : tick s = some s') :
    Behind s' clock n.tick := by
  obtain ⟨j, p, hsys, hprev, hle, hbehind⟩ := h
  obtain ⟨r, hr, rfl⟩ := tick_eq_some hs
  have htime := (Rtc.tick_eq_some hr).1
  have := n.sinceTick_lt
  refine ⟨j, p, hsys, hprev, hle, ?_⟩
  simp only [sysTime_setRtc, rtc_setRtc, Counter.tick, htime]
  omega

/-- It depends on the last reading and on the present, and on nothing else in the state. -/
theorem Behind.congr (h : Behind s clock n) {s' : System} (hsys : s'.sysTime = s.sysTime)
    (htime : s'.rtc.time = s.rtc.time) : Behind s' clock n := by
  unfold Behind
  rwa [hsys, htime]

/-- Right after a reading, the library shows the instant that was read. -/
theorem behind_setTime (clock : Clock) {d last : ℕ} (hd : n.elapse d = some n')
    (hlast : n.millis ≤ last ∧ last ≤ n'.millis) (hsys : s.sysTime.toNat = s.rtc.time) :
    Behind s (clock.setTime s.sysTime (.ofNat last)) n' := by
  obtain ⟨hmillis, hsince⟩ := elapse_eq_some hd
  exact ⟨0, last, by simp [Clock.setTime], rfl, hlast.2, by omega⟩

/-- The system time of the last reading is such an instant. -/
theorem Behind.now_sysTime (h : Behind s clock n) : s.Now s.sysTime := by
  obtain ⟨j, p, -, -, -, hbehind⟩ := h
  have := n.sinceTick_lt
  exact ⟨le_rfl, by omega⟩

/-- **A call of `now()`** returns an instant between the last reading and the present, and leaves
the library behind the chip. Each pass of its loop takes a thousand milliseconds from what is still
to be counted. -/
theorem Behind.now (h : Behind s clock n) {d : ℕ} (hd : n.elapse d = some n') {early : List ℕ}
    {last : ℕ} (hchain : (n.millis :: (early ++ [last])).IsChain (· ≤ ·)) (hlast : last ≤ n'.millis)
    {now : UInt32} {clock' : Clock}
    (hnow : clock.now ((early ++ [last]).map .ofNat) = some (now, clock')) :
    s.Now now ∧ Behind s clock' n' := by
  obtain ⟨j, p, hsys, hprev, hle, hbehind⟩ := h
  obtain ⟨c, hcatch, heq⟩ := Option.map_eq_some_iff.1 hnow
  obtain ⟨rfl, rfl⟩ := Prod.ext_iff.1 heq
  have hearlier : (p :: (early ++ [last])).IsChain (· ≤ ·) :=
    List.isChain_cons.2 ⟨fun y hy ↦ hle.trans ((List.isChain_cons.1 hchain).1 y hy),
      (List.isChain_cons.1 hchain).2⟩
  obtain ⟨q, hbound, -, rfl⟩ := Clock.catchUp_spec hprev hearlier hcatch
  obtain ⟨hmillis, hsince⟩ := elapse_eq_some hd
  have hlt := n'.sinceTick_lt
  have htime := s.rtc.time_mem.2
  unfold DS3231.endInstant at htime
  have hvalue : clock.sysTime + .ofNat q = .ofNat (s.sysTime.toNat + (j + q)) := by
    rw [hsys, ← UInt32.ofNat_add, Nat.add_assoc]
  refine ⟨?_, j + q, p + 1000 * q, ?_, ?_, by omega, by omega⟩
  · simp only [System.Now, hvalue]
    rw [toNat_ofNat_of_lt_two_pow (by omega)]
    omega
  · exact hvalue
  · rfl

end Behind

/-! ### The machine with the library is the machine -/

/-- Where `now()` is not called, its value has no effect. -/
theorem exec_of_not_asks (k : Sketch) (now : UInt32) (s : System) {stmt : Stmt}
    (h : asksNow stmt = false) : exec k now s stmt = exec k 0 s stmt := by
  cases stmt with
  | addEvent | updateJournal => cases h
  | _ => rfl

/-- A statement other than `refreshDate` keeps the system time of the last reading, and none changes
the time of the chip. -/
theorem exec_times (k : Sketch) (now : UInt32) (s : System) (stmt : Stmt) :
    (exec k now s stmt).1.rtc.time = s.rtc.time ∧
      (stmt ≠ .refreshDate → (exec k now s stmt).1.sysTime = s.sysTime) := by
  cases stmt with
  | refreshDate =>
    exact of_forall_sysTime (P := fun u ↦ u.rtc.time = s.rtc.time ∧
      (Stmt.refreshDate ≠ .refreshDate → u.sysTime = s.sysTime)) k now
      fun _ ↦ ⟨rfl, fun h ↦ absurd rfl h⟩
  | ifAlarm1 => cases hflag : s.rtc.a1f <;> simp [exec, hflag, System.takeAlarm1]
  | ifAlarm2 => cases hflag : s.rtc.a2f <;> simp [exec, hflag, System.takeAlarm2]
  | _ => exact ⟨rfl, fun _ ↦ rfl⟩

/-- `refreshDate` sets the library to the instant that the chip shows. -/
theorem sysTime_exec_refreshDate (k : Sketch) (now : UInt32) (s : System) :
    (exec k now s .refreshDate).1.sysTime.toNat = (exec k now s .refreshDate).1.rtc.time := by
  rw [(exec_times k now s .refreshDate).1]
  exact DS3231.toNat_systemTime_getDateTime s.rtc.time_mem

/-- **A statement with the library** is one of the machine, for the value that the library returns.
-/
theorem exec_of_act {k : Sketch} {d : ℕ} {early : List ℕ} {last : ℕ} {x y : Config}
    (hbehind : Behind x.system x.clock x.counter) (h : act k (.exec d early last) x = some y) :
    (∃ now, Machine.act k (.exec now) (x.code, x.system) = some (y.code, y.system)) ∧
      Behind y.system y.clock y.counter := by
  obtain ⟨code, s, clock, n⟩ := x
  simp only at hbehind
  simp only [act] at h
  split at h
  · next hready =>
    cases code with
    | nil =>
      cases h
      refine ⟨⟨s.sysTime, ?_⟩, hbehind⟩
      simp only [Machine.act]
      rw [if_pos ⟨hready.1, hready.2, hbehind.now_sysTime⟩]
    | cons stmt code =>
      have hact : ∀ now, s.Now now → Machine.act k (.exec now) (stmt :: code, s) =
          some ((exec k now s stmt).2 ++ code, (exec k now s stmt).1) := by
        intro now hnow
        simp only [Machine.act]
        rw [if_pos ⟨hready.1, hready.2, hnow⟩]
      obtain ⟨n', hn', hrest⟩ := Option.bind_eq_some_iff.1 h
      split at hrest
      · split at hrest
        · next hreadings =>
          obtain ⟨⟨now, clock'⟩, hnow, heq⟩ := Option.bind_eq_some_iff.1 hrest
          cases heq
          obtain ⟨hbetween, hbehind'⟩ := hbehind.now hn' hreadings.1 hreadings.2 hnow
          have hne : stmt ≠ .refreshDate := by
            rintro rfl
            contradiction
          obtain ⟨htime, hsys⟩ := exec_times k now s stmt
          exact ⟨⟨now, hact now hbetween⟩, hbehind'.congr (hsys hne) htime⟩
        · cases hrest
      · next hasks =>
        -- the value of the last reading will do as well as any other
        have hexec := exec_of_not_asks k s.sysTime s (by simpa using hasks)
        have hact := hact s.sysTime hbehind.now_sysTime
        rw [hexec] at hact
        obtain ⟨htime, hsys⟩ := exec_times k 0 s stmt
        split at hrest
        · next hread =>
          split at hrest
          · next hlast =>
            cases hrest
            subst hread
            exact ⟨⟨_, hact⟩, behind_setTime clock hn' hlast (sysTime_exec_refreshDate k 0 s)⟩
          · cases hrest
        · next hne =>
          cases hrest
          exact ⟨⟨_, hact⟩, (hbehind.elapse hn').congr (hsys hne) htime⟩
  · cases h

/-- **A step with the library is a step of the machine**, or only the counter goes on. -/
theorem step_or_elapse {k : Sketch} {x y : Config} (hbehind : Behind x.system x.clock x.counter)
    (h : Step k x y) :
    (Machine.Step k (x.code, x.system) (y.code, y.system) ∨
      x.system.asleep = false ∧ y.code = x.code ∧ y.system = x.system) ∧
        Behind y.system y.clock y.counter := by
  obtain ⟨a, hact⟩ := h
  -- Only the passing of milliseconds is no step of the machine, and it touches neither code nor
  -- system.
  cases a with
  | tick =>
    obtain ⟨s', hs', rfl⟩ := Option.map_eq_some_iff.1 hact
    exact ⟨.inl ⟨.tick, Option.map_eq_some_iff.2 ⟨s', hs', rfl⟩⟩, hbehind.tick hs'⟩
  | interrupt =>
    obtain ⟨s', hs', rfl⟩ := Option.map_eq_some_iff.1 hact
    have hstep : Machine.Step k (x.code, x.system) (x.code, s') :=
      ⟨.interrupt, Option.map_eq_some_iff.2 ⟨s', hs', rfl⟩⟩
    obtain ⟨-, rfl⟩ := interrupt_eq_some hs'
    exact ⟨.inl hstep, hbehind.congr rfl rfl⟩
  | elapse d =>
    simp only [act] at hact
    split at hact
    · next hawake =>
      obtain ⟨n', hn', rfl⟩ := Option.map_eq_some_iff.1 hact
      exact ⟨.inr ⟨hawake, rfl, rfl⟩, hbehind.elapse hn'⟩
    · cases hact
  | exec d early last =>
    obtain ⟨⟨now, hexec⟩, hbehind'⟩ := exec_of_act hbehind hact
    exact ⟨.inl ⟨.exec now, hexec⟩, hbehind'⟩

/-! ### Whole runs -/

/-- The sketch with the library as a refinement of the machine. -/
theorem forward_step (k : Sketch) : Simulation.Forward (Step k) (Machine.Step k) Shows := by
  rintro x y _ ⟨rfl, hbehind⟩ hstep
  obtain ⟨hstep | ⟨-, hcode, hsystem⟩, hbehind'⟩ := step_or_elapse hbehind hstep
  · exact ⟨_, .single hstep, rfl, hbehind'⟩
  · exact ⟨_, .refl, by rw [hcode, hsystem], hbehind'⟩

/-- A step of a prompt run with the library. -/
def PromptStep (k : Sketch) (x y : Config × ℕ) : Prop :=
  Step k x.1 y.1 ∧ Prompt x.1.system y.1.system x.2 y.2

/-- A prompt run with the library. -/
def PromptRun (k : Sketch) (x₀ : Config) (since₀ : ℕ) (x : Config) (since : ℕ) : Prop :=
  Relation.ReflTransGen (PromptStep k) (x₀, since₀) (x, since)

/-- The configuration right after the `makeSchedule` of `setup` has read the instant `t₀`. -/
def AtReading (k : Sketch) (r : Rtc) (t₀ : ℕ) (x : Config) : Prop :=
  ∃ x' d early last, Timed k r x' ∧ x'.code = k.makeSchedule ++ [.clearIsAlarm] ∧
    x'.system.rtc.time = t₀ ∧ act k (.exec d early last) x' = some x

/-- The reading of `setup` with the library is the one in the machine. -/
theorem AtReading.spec {k : Sketch} {r : Rtc} {t₀ : ℕ} {x : Config} (h : AtReading k r t₀ x) :
    Machine.AtReading k r t₀ (x.code, x.system) ∧ Behind x.system x.clock x.counter := by
  obtain ⟨x', d, early, last, htimed, hcode, htime, hact⟩ := h
  obtain ⟨_, hreach, rfl, hbehind⟩ := (forward_step k).run ⟨rfl, behind_powerUp r⟩ htimed
  obtain ⟨⟨now, hexec⟩, hbehind'⟩ := exec_of_act hbehind hact
  rw [hcode] at hreach hexec
  exact ⟨⟨x'.system, now, hreach, htime, hexec⟩, hbehind'⟩

/-- The refinement carries the instant at which the work began. The counter's steps happen awake, so
that they do not end an idle state. -/
theorem forward_promptStep (k : Sketch) :
    Simulation.Forward (PromptStep k) (Machine.PromptStep k)
      fun x c ↦ ∃ shown, Shows x.1 shown ∧ c = (shown, x.2) := by
  rintro ⟨x, since⟩ ⟨y, since'⟩ _ ⟨_, ⟨rfl, hbehind⟩, rfl⟩ ⟨hstep, hprompt⟩
  obtain ⟨hstep | ⟨hawake, hcode, hsystem⟩, hbehind'⟩ := step_or_elapse hbehind hstep
  · exact ⟨_, .single ⟨hstep, hprompt⟩, _, ⟨rfl, hbehind'⟩, rfl⟩
  · -- only the counter has gone on, and the work began when it began before
    have hsince : since' = since := hprompt.1.trans (if_neg (not_idle hawake))
    exact ⟨_, .refl, _, ⟨rfl, hbehind'⟩, Prod.ext (Prod.ext hcode.symm hsystem.symm) hsince.symm⟩

/-- A step of a prompt run, as a function, to evaluate concrete runs. -/
def promptAct (k : Sketch) (a : Action) (x : Config × ℕ) : Option (Config × ℕ) :=
  (act k a x.1).bind fun y ↦
    if Prompt x.1.system y.system x.2 (workSince x.1.system y.system x.2) then
      some (y, workSince x.1.system y.system x.2)
    else none

/-- What the function evaluates is a step of a prompt run. -/
theorem promptStep_of_promptAct (k : Sketch) (a : Action) (x y : Config × ℕ)
    (h : promptAct k a x = some y) : PromptStep k x y := by
  obtain ⟨y', hact, hrest⟩ := Option.bind_eq_some_iff.1 h
  split at hrest
  · next hprompt =>
    cases hrest
    exact ⟨⟨a, hact⟩, hprompt⟩
  · cases hrest

/-- The actions before the reading of `setup`. -/
def untilReading : List Action := List.replicate 9 (.exec 0 [] 0)

/-- The chip's next second begins between the reading and the first call of `now()`, which finds
that a second has passed. The hatch opens at ten. -/
def untilOpening : List Action :=
  [.elapse 800, .tick, .elapse 400, .exec 0 [] 1200, .exec 0 [1200] 1200] ++
    (List.replicate 20 (.exec 0 [] 1200) ++
      (List.replicate 90 .tick ++ (.interrupt :: List.replicate 190 (.exec 0 [] 1200))))

theorem untilOpening_run :
    ((Simulation.runActions (act analemma1) untilReading
        (.powerUp analemma1 Performance.morning)).bind fun x ↦
      (act analemma1 (.exec 0 [] 0) x).bind fun x₀ ↦
        (Simulation.runActions (promptAct analemma1) untilOpening (x₀, 946720709)).map fun y ↦
          decide (x.code = analemma1.makeSchedule ++ [.clearIsAlarm] ∧
            x.system.rtc.time = 946720709 ∧ x₀.system.moves = [] ∧ Idle y.1.system ∧
              y.1.system.moves = [(.Open, some 946720800)])) = some true := by
  decide +kernel

/-- A run to the opening at ten. -/
theorem exists_opening :
    ∃ x₀ x since, AtReading analemma1 Performance.morning 946720709 x₀ ∧
      PromptRun analemma1 x₀ 946720709 x since ∧ x₀.system.moves = [] ∧ Idle x.system ∧
        x.system.moves = [(.Open, some 946720800)] := by
  obtain ⟨x', hbefore, hrest⟩ := Option.bind_eq_some_iff.1 untilOpening_run
  obtain ⟨x₀, hact, hrest⟩ := Option.bind_eq_some_iff.1 hrest
  obtain ⟨⟨x, since⟩, hrun, hdecide⟩ := Option.map_eq_some_iff.1 hrest
  obtain ⟨hcode, htime, hfirst, hidle, hmoves⟩ := of_decide_eq_true hdecide
  have htimed : Timed analemma1 Performance.morning x' :=
    Simulation.run_of_runActions (fun a _ _ h ↦ ⟨a, h⟩) hbefore
  have hprompt : PromptRun analemma1 x₀ 946720709 x since :=
    Simulation.run_of_runActions (promptStep_of_promptAct analemma1) hrun
  exact ⟨x₀, x, since, ⟨x', 0, [], 0, htimed, hcode, htime, hact⟩, hprompt, hfirst, hidle, hmoves⟩

end Machine.SystemTime
