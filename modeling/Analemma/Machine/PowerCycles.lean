import Analemma.Machine.Logbook
import Analemma.Machine.Posture
import Analemma.Machine.SystemTime

/-!
# Power failures

The power may fail between any two steps of the sketch. The controller forgets its globals and
starts again with `setup`; the clock has a battery, and the EEPROM keeps its bytes. The time without
power is that of the ticks before the first statement.

The journal is then what a history of calls and resets makes of it (`foldlM_store`), and it does not
hinder the sketch (`cycled_iff_journaled`). It starts again at the first slot after each failure and
gives its numbers anew, so that the numbers do not tell in which order the records were written. The
times do: `updateJournal` is never executed without a `refreshDate` before it (`inOrder`), so the
records are in the order of their times over all the failures (`dated_of_chronicled`), and the slot
of the newest record is where the times first fall (`newest_of_journaled`).

* A `Chronicle` is a log with the failures in it, in the form in which the journal layer speaks of
  histories: a write for each call of `updateJournal`, and a reset for each failure. `numbered` adds
  the counter's values, which the sketch does not carry in its calls.
* `inOrder` looks at the code that is left, as `selects` and `nextUse1` do elsewhere. It says that a
  reading of the clock stands before each `updateJournal`, and this is kept by every step, the
  restart by a failure included.
* `exists_logged` cuts the chronicle at its last failure. What comes after it is a run without
  failures, to which the results of `Logbook` apply.

A failure in the middle of a record is a matter of the journal layer, which has a theorem on torn
records; here a call of `updateJournal` is a single step.
-/

namespace Machine.PowerCycles

open Schedule Journal Logbook Recording SlotRing

variable {L : ℕ} {k : Sketch} {r : Rtc}

/-! ### The sketch with its power supply -/

/-- What can happen next. -/
inductive Action where
  /-- A step of the sketch, of the clock or of the interrupt routine. -/
  | machine (a : Machine.Action)
  /-- Power goes, and comes back at once; the time without it is that of the ticks that follow. -/
  | powerFailure
deriving DecidableEq, Repr

/-- A step. A failure takes the code back to the start of `setup` and the globals to their initial
values, and leaves the clock as it is. -/
def act (k : Sketch) (a : Action) (c : List Stmt × System) : Option (List Stmt × System) :=
  match a with
  | .machine a => Machine.act k a c
  | .powerFailure => some (k.setup, powerUp c.2.rtc)

/-- What has been written to the journal, with the failures in between, the first one first. -/
abbrev Chronicle := List (Op (UInt32 × HatchEvent))

/-- What a step adds to it: what the statement writes, or the failure. -/
def chronicle (a : Action) (c : List Stmt × System) : Chronicle :=
  match a with
  | .machine a => (entries a c).map .write
  | .powerFailure => [.reset]

/-- A step, with what it adds to the chronicle. -/
def Emits (k : Sketch) (c : List Stmt × System) (out : Chronicle) (c' : List Stmt × System) :
    Prop :=
  ∃ a, act k a c = some c' ∧ out = chronicle a c

/-- The journal: `updateJournal`, and the globals after a power failure, with the bytes of the
EEPROM kept. -/
def store (j : Numbered L) : Op (UInt32 × HatchEvent) → Option (Numbered L)
  | .write x => j.updateJournal x.1 x.2
  | .reset => some (.powerUp j.eeprom)

/-- The configurations that can be reached, with any number of power failures. -/
def Cycled (k : Sketch) (r : Rtc) (c : List Stmt × System) : Prop :=
  Relation.ReflTransGen (Forgets (Emits k)) (k.setup, powerUp r) c

/-- The runs with their chronicle. -/
def Chronicled (k : Sketch) (r : Rtc) (c : List Stmt × System) (ops : Chronicle) : Prop :=
  Relation.ReflTransGen (Logs (Emits k)) ((k.setup, powerUp r), []) (c, ops)

/-- The runs with the journal, from power-up with the EEPROM `m`. -/
def Journaled (k : Sketch) (r : Rtc) (m : Eeprom L) (c : List Stmt × System) (j : Numbered L) :
    Prop :=
  Relation.ReflTransGen (Stores (Emits k) store) ((k.setup, powerUp r), Numbered.powerUp m) (c, j)

/-! ### The journal as a history -/

/-- The calls of a chronicle, with the numbers they get: the first one gets the number `n`, and
after a failure they are counted from zero. -/
def numbered (n : ℕ) : Chronicle → List (Op Call)
  | [] => []
  | .write x :: ops => .write ⟨x.1, x.2, .ofNat n⟩ :: numbered (n + 1) ops
  | .reset :: ops => .reset :: numbered 0 ops

/-- A further call gets the number of the calls since the last failure. -/
theorem numbered_append_write (ops : Chronicle) (x : UInt32 × HatchEvent) :
    numbered 0 (ops ++ [.write x]) =
      numbered 0 ops ++ [.write ⟨x.1, x.2, .ofNat (sinceReset ops)⟩] := by
  suffices H : ∀ before, numbered (sinceReset before) (ops ++ [.write x]) =
      numbered (sinceReset before) ops ++
        [.write ⟨x.1, x.2, .ofNat (sinceReset (before ++ ops))⟩] from H []
  induction ops with
  | nil =>
    intro before
    rw [List.append_nil]
    rfl
  | cons op ops ih =>
    intro before
    have ih' := ih (before ++ [op])
    rw [List.append_assoc, List.singleton_append] at ih'
    cases op with
    | write y =>
      rw [sinceReset_append_write] at ih'
      exact congrArg (List.cons _) ih'
    | reset =>
      rw [sinceReset_append_reset] at ih'
      exact congrArg (List.cons _) ih'

theorem numbered_append_reset (n : ℕ) (ops : Chronicle) :
    numbered n (ops ++ [.reset]) = numbered n ops ++ [.reset] := by
  induction ops generalizing n with
  | nil => rfl
  | cons op ops ih =>
    cases op with
    | write x => exact congrArg (List.cons _) (ih (n + 1))
    | reset => exact congrArg (List.cons _) (ih 0)

/-- Numbering the calls does not change how many they are since the last failure. -/
theorem sinceReset_numbered (ops : Chronicle) :
    sinceReset (numbered 0 ops) = sinceReset ops := by
  induction ops using List.reverseRecOn with
  | nil => rfl
  | append_singleton ops op ih =>
    cases op with
    | write x => rw [numbered_append_write, sinceReset_append_write, sinceReset_append_write, ih]
    | reset => rw [numbered_append_reset, sinceReset_append_reset, sinceReset_append_reset]

/-- The numbers are all that is added. -/
theorem map_values_numbered (n : ℕ) (ops : Chronicle) :
    (values (numbered n ops)).map (fun call ↦ (call.now, call.nextEvent)) = values ops := by
  induction ops generalizing n with
  | nil => rfl
  | cons op ops ih =>
    cases op with
    | write x => exact congrArg (List.cons x) (ih (n + 1))
    | reset => exact ih 0

/-- **The journal is what the history of its calls and of the failures makes of it**, with the
counter beside it. By induction on the chronicle from its end, where the number of the next call is
known. -/
theorem foldlM_store (ops : Chronicle) (m : Eeprom L) :
    ops.foldlM store (Numbered.powerUp m) =
      (history (numbered 0 ops) (reset m)).map fun j ↦
        { j with scheduleCounter := .ofNat (sinceReset ops) } := by
  induction ops using List.reverseRecOn with
  | nil => rfl
  | append_singleton ops op ih =>
    rw [List.foldlM_append, ih]
    cases op with
    | write x =>
      rw [numbered_append_write, history_append_singleton, sinceReset_append_write,
        Int16.ofNat_add]
      cases history (numbered 0 ops) (reset m) with
      | none => rfl
      | some j =>
        simp only [Option.map_some, Option.bind_some, Option.bind_eq_bind, List.foldlM_cons,
          List.foldlM_nil, store, Numbered.updateJournal, step]
        cases Journal.updateJournal ⟨x.1, x.2, .ofNat (sinceReset ops)⟩ j <;> rfl
    | reset =>
      rw [numbered_append_reset, history_append_singleton, sinceReset_append_reset]
      cases history (numbered 0 ops) (reset m) <;> rfl

/-- On an EEPROM that was erased at first, it stands for the ring of that history. -/
theorem represents_of_foldlM_store (hL : 14 < L) (hL' : L ≤ 32768) [NeZero (slotCount L)]
    {ops : Chronicle} {j : Numbered L}
    (h : ops.foldlM store (Numbered.powerUp (erased L)) = some j) :
    Represents j.toState (run (slotCount L) (numbered 0 ops)) := by
  obtain ⟨j', hj', hrep⟩ := history_represents hL hL' (numbered 0 ops)
  rw [foldlM_store, hj'] at h
  cases h
  exact hrep

/-- **The journal does not hinder the sketch**, and neither do the failures: whatever the EEPROM
holds, there is a run with the journal. -/
theorem cycled_iff_journaled (hL : 14 < L) (hL' : L ≤ 32768) (m : Eeprom L)
    {c : List Stmt × System} : Cycled k r c ↔ ∃ j, Journaled k r m c j := by
  have := neZero_slotCount hL
  refine forgotten_iff_stored fun ops ↦ ?_
  obtain ⟨j, hj, -⟩ := represents_history hL hL' (represents_earlier hL m) (numbered 0 ops)
  exact ⟨_, by rw [foldlM_store, hj, Option.map_some]⟩

/-! ### The records are in the order of their times -/

/-- Statements that neither read the clock nor write to the journal, and push none that do. Whether
the clock has been read is the same after them as before. -/
def undated : Stmt → Bool
  | .refreshDate | .updateJournal | .ifIsAlarm | .ifAlarm1 => false
  | _ => true

/-- Between two calls of `updateJournal`, and before the first one, the clock is read; at the start
it has been read already, or it has not. -/
def inOrder (read : Bool) : List Stmt → Bool
  | [] => true
  | .refreshDate :: code => inOrder true code
  | .updateJournal :: code => read && inOrder false code
  | .ifIsAlarm :: code => inOrder false code
  | .ifAlarm1 :: code => inOrder false code
  | _ :: code => inOrder read code

theorem inOrder_cons (read : Bool) {stmt : Stmt} (h : undated stmt = true) (code : List Stmt) :
    inOrder read (stmt :: code) = inOrder read code := by
  cases stmt with
  | refreshDate | updateJournal | ifIsAlarm | ifAlarm1 => cases h
  | _ => rfl

theorem inOrder_append (read : Bool) {block : List Stmt}
    (h : ∀ stmt ∈ block, undated stmt = true) (code : List Stmt) :
    inOrder read (block ++ code) = inOrder read code := by
  induction block with
  | nil => rfl
  | cons stmt block ih =>
    rw [List.cons_append, inOrder_cons read (h stmt List.mem_cons_self),
      ih fun i hi ↦ h i (List.mem_cons_of_mem _ hi)]

section Table

variable {table : List AddEvent}

/-- `makeSchedule` reads the clock first. -/
theorem inOrder_makeSchedule (read : Bool) (code : List Stmt) :
    inOrder read ((Sketch.withTable table).makeSchedule ++ code) = inOrder false code := by
  have hplan : (Sketch.withTable table).makeSchedule ++ code =
      .refreshDate :: ((.resetNextEvent :: (table.map .addEvent ++ Sketch.setAlarms)) ++
        .updateJournal :: code) := by
    simp [Sketch.makeSchedule, Sketch.planSchedule, Sketch.withTable]
  rw [hplan, inOrder, inOrder_append true, inOrder, Bool.true_and]
  intro stmt hstmt
  simp only [List.mem_cons, List.mem_append, List.mem_map] at hstmt
  rcases hstmt with rfl | ⟨e, -, rfl⟩ | hstmt
  · rfl
  · rfl
  · exact (by decide : ∀ stmt ∈ Sketch.setAlarms, undated stmt = true) stmt hstmt

/-- `setup` reads the clock before it writes to the journal, for every table. -/
theorem inOrder_setup : inOrder false (Sketch.withTable table).setup = true := by
  have hsetup : (Sketch.withTable table).setup = [.write 0, .readJournal, .beginClock,
      .armAlarm1 false, .armAlarm2 false, .clearAlarm1, .clearAlarm2, .attachInterrupt] ++
        .refreshDate :: ((Sketch.withTable table).makeSchedule ++ [.clearIsAlarm]) := rfl
  rw [hsetup, inOrder_append false (by decide), inOrder, inOrder_makeSchedule]
  rfl

/-- **What a statement pushes** keeps the order. -/
theorem inOrder_exec {read : Bool} (now : UInt32) (s : System) {stmt : Stmt} {code : List Stmt}
    (h : inOrder read (stmt :: code) = true) (hread : stmt ≠ .refreshDate)
    (hwrite : stmt ≠ .updateJournal) :
    ∃ read', (read' = true → read = true) ∧
      inOrder read' ((exec (.withTable table) now s stmt).2 ++ code) = true := by
  -- Whatever a test puts before the code reads the clock before it journals, so the order holds
  -- with the flag that the rest of the code asks for.
  cases stmt with
  | refreshDate => exact absurd rfl hread
  | updateJournal => exact absurd rfl hwrite
  | ifIsAlarm =>
    refine ⟨false, fun h ↦ absurd h Bool.false_ne_true, ?_⟩
    simp only [exec]
    split <;> exact h
  | ifAlarm1 =>
    refine ⟨false, fun h ↦ absurd h Bool.false_ne_true, ?_⟩
    cases hflag : s.rtc.a1f with
    | none =>
      simp only [exec, hflag]
      exact h
    | some t =>
      simp only [exec, hflag, Sketch.onAlarm1, List.cons_append]
      rw [inOrder_cons false rfl, inOrder_cons false rfl, inOrder_makeSchedule]
      exact h
  | ifAlarm2 =>
    refine ⟨read, id, ?_⟩
    cases hflag : s.rtc.a2f with
    | none =>
      simp only [exec, hflag]
      exact h
    | some t =>
      simp only [exec, hflag]
      exact h
  | toggleMotor toggle =>
    refine ⟨read, id, ?_⟩
    simp only [exec]
    rw [inOrder_append read (by simp [undated])]
    exact h
  | _ => exact ⟨read, id, h⟩

/-- The calls are in the order of their times, none is ahead of the clock, and if the clock has been
read since the last one, none is ahead of that reading. -/
structure Dated (c : List Stmt × System) (ops : Chronicle) : Prop where
  ordered : (values ops).Pairwise fun x y ↦ x.1 ≤ y.1
  past : ∀ x ∈ values ops, x.1.toNat ≤ c.2.rtc.time
  /-- The code that is left is in order, from whether the clock has been read since the last
  call. -/
  read : ∃ read, inOrder read c.1 = true ∧
    (read = true → ∀ x ∈ values ops, x.1.toNat ≤ c.2.sysTime.toNat)

/-- A failure forgets the reading, and the new `setup` reads again before it writes. -/
theorem Dated.powerFailure {c : List Stmt × System} {ops : Chronicle} (h : Dated c ops) :
    Dated ((Sketch.withTable table).setup, powerUp c.2.rtc) (ops ++ [.reset]) where
  ordered := by
    rw [values_append_reset]
    exact h.ordered
  past := by
    rw [values_append_reset]
    exact h.past
  read := ⟨false, inOrder_setup, fun h ↦ absurd h Bool.false_ne_true⟩

/-- The calls stay in the past when the clock goes on. -/
theorem Dated.setRtc {c : List Stmt × System} {ops : Chronicle} (h : Dated c ops) {r' : Rtc}
    (hle : c.2.rtc.time ≤ r'.time) : Dated (c.1, c.2.setRtc r') ops where
  ordered := h.ordered
  past x hx := (h.past x hx).trans hle
  read := h.read

/-- **A record is dated** with a time after the last reading. -/
theorem Dated.updateJournal {code : List Stmt} {s : System} {ops : Chronicle}
    (h : Dated (.updateJournal :: code, s) ops) {now : UInt32} (hnow : s.Now now) :
    Dated (code, s) (ops ++ [.write (now, s.nextEvent)]) := by
  obtain ⟨read, hcode, hread⟩ := h.read
  obtain ⟨hfresh, hrest⟩ := Bool.and_eq_true_iff.1 hcode
  refine ⟨?_, ?_, false, hrest, fun h ↦ absurd h Bool.false_ne_true⟩
  · rw [values_append_write]
    refine List.pairwise_append.2 ⟨h.ordered, List.pairwise_singleton _ _, ?_⟩
    intro x hx y hy
    rw [List.mem_singleton.1 hy, UInt32.le_iff_toNat_le]
    exact (hread hfresh x hx).trans hnow.1
  · rw [values_append_write]
    intro x hx
    rcases List.mem_append.1 hx with hx | hx
    · exact h.past x hx
    · rw [List.mem_singleton.1 hx]
      exact hnow.2

/-- A statement that writes nothing keeps the dates. `refreshDate` is the case of interest: it reads
an instant at or after all of them. -/
theorem Dated.exec_of_ne {stmt : Stmt} {code : List Stmt} {s : System} {ops : Chronicle}
    (h : Dated (stmt :: code, s) ops) (hwrite : stmt ≠ .updateJournal) (now : UInt32) :
    Dated ((exec (.withTable table) now s stmt).2 ++ code, (exec (.withTable table) now s stmt).1)
      ops := by
  obtain ⟨read, hcode, hread⟩ := h.read
  obtain ⟨htime, hsame⟩ := SystemTime.exec_times (.withTable table) now s stmt
  refine ⟨h.ordered, fun x hx ↦ htime.symm ▸ h.past x hx, ?_⟩
  by_cases hfresh : stmt = .refreshDate
  · subst hfresh
    refine ⟨true, hcode, fun _ x hx ↦ ?_⟩
    rw [SystemTime.sysTime_exec_refreshDate (.withTable table) now s, htime]
    exact h.past x hx
  · obtain ⟨read', himp, hcode'⟩ := @inOrder_exec table read now s _ _ hcode hfresh hwrite
    refine ⟨read', hcode', fun h x hx ↦ ?_⟩
    simp only [hsame hfresh]
    exact hread (himp h) x hx

/-- **One step** of sketch, clock or power supply keeps the dates. -/
theorem Dated.act {a : Action} {c c' : List Stmt × System} {ops : Chronicle} (h : Dated c ops)
    (hact : act (.withTable table) a c = some c') : Dated c' (ops ++ chronicle a c) := by
  obtain ⟨code, s⟩ := c
  cases a with
  | powerFailure =>
    cases hact
    exact h.powerFailure
  | machine a =>
    cases a with
    | tick =>
      obtain ⟨s', htick, rfl⟩ := Option.map_eq_some_iff.1 hact
      obtain ⟨r', hr, rfl⟩ := tick_eq_some htick
      have hle : s.rtc.time ≤ r'.time := (Nat.le_succ _).trans_eq (Rtc.tick_eq_some hr).1.symm
      simpa only [chronicle, entries, List.map_nil, List.append_nil] using h.setRtc hle
    | interrupt =>
      obtain ⟨s', hint, rfl⟩ := Option.map_eq_some_iff.1 hact
      obtain ⟨-, rfl⟩ := interrupt_eq_some hint
      simp only [chronicle, entries, List.map_nil, List.append_nil]
      exact ⟨h.ordered, h.past, h.read⟩
    | exec now =>
      simp only [PowerCycles.act, Machine.act] at hact
      split at hact
      · next hready =>
        cases code with
        | nil =>
          cases hact
          simp only [chronicle, entries, written, List.map_nil, List.append_nil]
          exact ⟨h.ordered, h.past, false, rfl, fun h ↦ absurd h Bool.false_ne_true⟩
        | cons stmt code =>
          cases hact
          -- Only `updateJournal` adds to the chronicle, with the time last read.
          by_cases hwrite : stmt = .updateJournal
          · subst hwrite
            exact h.updateJournal hready.2.2
          · have hnone : chronicle (.machine (.exec now)) (stmt :: code, s) = [] := by
              rw [chronicle, entries, written_of_ne now hwrite, List.map_nil]
            rw [hnone, List.append_nil]
            exact h.exec_of_ne hwrite now
      · cases hact

/-- Hence they are kept in every run, over any number of failures. -/
theorem dated_of_chronicled {c : List Stmt × System} {ops : Chronicle}
    (h : Chronicled (.withTable table) r c ops) : Dated c ops := by
  induction h using logs_induction with
  | start =>
    exact ⟨List.Pairwise.nil, fun x hx ↦ absurd hx List.not_mem_nil, false, inOrder_setup,
      fun h ↦ absurd h Bool.false_ne_true⟩
  | step c ops _ out c' hout ih =>
    obtain ⟨a, hact, rfl⟩ := hout
    exact ih.act hact

end Table

/-! ### The present power-up -/

/-- A run with failures ends with a run without. -/
theorem exists_logged {c : List Stmt × System} {ops : Chronicle} (h : Chronicled k r c ops) :
    ∃ r' before log, Logged k r' c log ∧ ops = before ++ log.map .write ∧
      sinceReset before = 0 := by
  induction h using logs_induction with
  | start => exact ⟨r, [], [], .refl, rfl, rfl⟩
  | step c ops _ out c' hout ih =>
    obtain ⟨a, hact, rfl⟩ := hout
    obtain ⟨r', before, log, hlogged, hbefore, hzero⟩ := ih
    cases a with
    | powerFailure =>
      cases hact
      exact ⟨_, ops ++ [.reset], [], .refl, (List.append_nil _).symm, sinceReset_append_reset _⟩
    | machine a =>
      refine ⟨r', before, log ++ entries a c, hlogged.tail ⟨_, ⟨a, hact, rfl⟩, rfl⟩, ?_, hzero⟩
      rw [hbefore, chronicle, List.map_append, List.append_assoc]

/-- Asleep, the last call was made with the next event, and it is as many calls after the last
failure as there were closings. -/
theorem exists_newest {table : List AddEvent} {c : List Stmt × System} {ops : Chronicle}
    (h : Chronicled (.withTable table) r c ops) (hasleep : c.2.asleep = true) :
    ∃ front now, ops = front ++ [.write (now, c.2.nextEvent)] ∧
      sinceReset front = closings c.2.moves := by
  obtain ⟨r', before, log, hlogged, rfl, hzero⟩ := exists_logged h
  have hlevel : Level c.2 log :=
    (outlined_of_logged (keepsJournal_withTable table) hlogged).safe.2 hasleep
  obtain ⟨now, hlast⟩ := hlevel.last
  obtain ⟨earlier, rfl⟩ := List.getLast?_eq_some_iff.1 hlast
  have hlength : earlier.length + 1 = closings c.2.moves + 1 := by
    rw [← hlevel.length, List.length_append, List.length_singleton]
  refine ⟨before ++ earlier.map .write, now, ?_, ?_⟩
  · rw [List.map_append, List.map_singleton, List.append_assoc]
  · rw [sinceReset_append_writes, hzero, Nat.zero_add]
    exact Nat.succ.inj hlength

/-! ### The newest record -/

/-- The times in the slots of a journal that stands for a ring of calls in the order of theirs: they
rise up to the cursor, and a slot behind it is erased or holds a record of the round before. -/
theorem ts_le_of_ordered {j : State L} [NeZero (slotCount L)] {h : List (Op Call)}
    (hrep : Represents j (run (slotCount L) h))
    (hordered : (values h).Pairwise fun x y ↦ x.now ≤ y.now) {s s' : ℕ}
    (hs : s < (run (slotCount L) h).cursor) (hlt : s < s') (hs' : s' < slotCount L) :
    if s' < (run (slotCount L) h).cursor then (recordAt j.eeprom s).ts ≤ (recordAt j.eeprom s').ts
    else slotBytes j.eeprom s' = erasedBytes ∨
      (recordAt j.eeprom s').ts ≤ (recordAt j.eeprom s).ts := by
  have hparted := parted_run (S := slotCount L) h
  obtain ⟨call, hcall⟩ := hparted.exists_of_lt hs
  rw [hrep.recordAt_eq (hlt.trans hs') hcall]
  -- From the cursor on a slot holds nothing yet, or a call older than those before the cursor.
  cases hcall' : (run (slotCount L) h).slots s' with
  | none =>
    split
    · next hcursor =>
      obtain ⟨call', hsome⟩ := hparted.exists_of_lt hcursor
      rw [hcall'] at hsome
      cases hsome
    · refine Or.inl ?_
      rw [hrep.slotBytes_eq s' hs', hcall']
      rfl
  | some call' =>
    have hpair := slots_ordered hordered hs hlt hcall hcall'
    rw [hrep.recordAt_eq hs' hcall']
    split
    · next hcursor =>
      rw [if_pos hcursor] at hpair
      exact hpair
    · next hcursor =>
      rw [if_neg hcursor] at hpair
      exact Or.inr hpair

/-- **The slots up to that of the newest record**, in every run with any number of power failures,
on an EEPROM that was erased at first. Asleep, the newest record stands in the slot of the number of
closings since power-up, and holds the next event; up to that slot the records are in the order of
their times; and a later slot is erased, or its record is no newer than any of these. -/
theorem newest_of_journaled (hL : 14 < L) (hL' : L ≤ 32768) {table : List AddEvent}
    {c : List Stmt × System} {j : Numbered L} (h : Journaled (.withTable table) r (erased L) c j)
    (hasleep : c.2.asleep = true) :
    (∃ now, now.toNat ≤ c.2.rtc.time ∧
        recordAt j.eeprom (closings c.2.moves % slotCount L) =
          (Call.mk now c.2.nextEvent (.ofNat (closings c.2.moves))).record) ∧
      (∀ s s', s ≤ s' → s' ≤ closings c.2.moves % slotCount L →
        (recordAt j.eeprom s).ts ≤ (recordAt j.eeprom s').ts) ∧
      ∀ s s', s ≤ closings c.2.moves % slotCount L → closings c.2.moves % slotCount L < s' →
        s' < slotCount L → slotBytes j.eeprom s' = erasedBytes ∨
          (recordAt j.eeprom s').ts ≤ (recordAt j.eeprom s).ts := by
  have := neZero_slotCount hL
  have hslot := Nat.mod_lt (closings c.2.moves) (Nat.pos_of_neZero (slotCount L))
  obtain ⟨ops, hops, hstore⟩ := stored_iff.1 h
  obtain ⟨hordered, hpast, -⟩ := dated_of_chronicled hops
  obtain ⟨front, now, rfl, hsince⟩ := exists_newest hops hasleep
  have hrep := represents_of_foldlM_store hL hL' hstore
  rw [← map_values_numbered 0, List.pairwise_map] at hordered
  rw [numbered_append_write, hsince] at hrep hordered
  -- the last call has gone to the slot of its number, and the cursor stands behind it
  have hcursor := cursor_run_append_write (S := slotCount L) (numbered 0 front)
    ⟨now, c.2.nextEvent, .ofNat (closings c.2.moves)⟩
  have hnewest := slots_run_append_write (S := slotCount L) (numbered 0 front)
    ⟨now, c.2.nextEvent, .ofNat (closings c.2.moves)⟩ (closings c.2.moves % slotCount L)
  rw [sinceReset_numbered, hsince] at hcursor hnewest
  rw [if_pos rfl] at hnewest
  have hnow : now.toNat ≤ c.2.rtc.time := by
    refine hpast (now, c.2.nextEvent) ?_
    rw [values_append_write]
    exact List.mem_append_right _ List.mem_cons_self
  have htimes : ∀ {s s' : ℕ}, s ≤ closings c.2.moves % slotCount L → s < s' → s' < slotCount L →
      if s' ≤ closings c.2.moves % slotCount L then
        (recordAt j.eeprom s).ts ≤ (recordAt j.eeprom s').ts
      else slotBytes j.eeprom s' = erasedBytes ∨
        (recordAt j.eeprom s').ts ≤ (recordAt j.eeprom s).ts := by
    intro s s' hs hlt hs'
    have hle := ts_le_of_ordered hrep hordered (by rw [hcursor]; omega) hlt hs'
    simpa only [hcursor, Nat.lt_succ_iff] using hle
  refine ⟨⟨now, hnow, hrep.recordAt_eq hslot hnewest⟩, fun s s' hle hs' ↦ ?_,
    fun s s' hs hs' hlt ↦ ?_⟩
  · rcases hle.lt_or_eq with hlt | rfl
    · simpa only [if_pos hs'] using htimes (by omega) hlt (by omega)
    · exact UInt32.le_refl _
  · simpa only [if_neg (Nat.not_le.2 hs')] using htimes hs (by omega) hlt

/-- The hatch opens and closes, the power fails, and a second later the sketch starts again. -/
def failsAfterClosing : List Action :=
  Posture.opensAndCloses.map .machine ++
    (.powerFailure :: .machine .tick :: List.replicate 22 (.machine (.exec 946720921)))

/-- The run as it is evaluated: asleep again after the failure, with no closing since. -/
theorem failsAfterClosing_run :
    ((Simulation.runActions (act (.withTable tenOClock)) failsAfterClosing
      ((Sketch.withTable tenOClock).setup, powerUp beforeTen)).map fun c ↦
        (c.2.asleep, closings c.2.moves)) = some (true, 0) := by
  decide +kernel

/-- The record that is written after the failure stands in the first slot, before one that is no
newer. -/
theorem newest_of_journaled_failsAfterClosing :
    ∃ c, ∃ j : Numbered 1024, Journaled (.withTable tenOClock) beforeTen (erased 1024) c j ∧
      c.2.asleep = true ∧
      (∃ now, recordAt j.eeprom 0 = (Call.mk now c.2.nextEvent 0).record) ∧
      (slotBytes j.eeprom 1 = erasedBytes ∨
        (recordAt j.eeprom 1).ts ≤ (recordAt j.eeprom 0).ts) := by
  obtain ⟨c, hrun, hc⟩ := Option.map_eq_some_iff.1 failsAfterClosing_run
  obtain ⟨hasleep, hclosings⟩ := Prod.mk.inj hc
  have hcycled : Cycled (.withTable tenOClock) beforeTen c :=
    Simulation.run_of_runActions (fun a _ _ hact ↦ ⟨_, a, hact, rfl⟩) hrun
  obtain ⟨j, hj⟩ := (cycled_iff_journaled (L := 1024) (by decide) (by decide) (erased 1024)).1
    hcycled
  obtain ⟨⟨now, -, hnewest⟩, -, hlater⟩ := newest_of_journaled (by decide) (by decide) hj hasleep
  rw [hclosings] at hnewest hlater
  exact ⟨c, j, hj, hasleep, ⟨now, hnewest⟩, hlater 0 1 (Nat.zero_le _) (by decide) (by decide)⟩

end Machine.PowerCycles
