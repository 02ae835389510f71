import Analemma.Factory.Bringup
import Analemma.Foundation.Decimal
import Analemma.TimeLib.Cache

/-!
# The clock on the serial port

The sketch `time_from_gps`: every pass of its loop sets the time at the fixes of the GPS decoder,
adds the zone's offset, and prints a line when `now()` has changed since the line before. The fields
of a line are read by calls of their own, through the cache of the `Time` library, in which
`setTime` leaves the fields of UTC.

The lines are right nevertheless (`line_of_run`), in every run in which no line is printed across
the turn of a second: then the cache is marked with the time of the line before, the next line is
printed at another time, and the cache is filled anew. The example at the end is a run in which a
line is printed across the turn of a second; the next line is an hour off.

`Run` is an inductive predicate over any number of passes, each with any number of fixes, and the
calls of `now()` are inputs of a pass: when each of them reads `millis()` is not under the control
of the sketch. `Kept` is its invariant, and `Kept.loop` the step. The two assumptions on a pass are
those of `Pass.Timed`, and the example shows that the second one is needed.
-/

namespace Factory.TimeFromGps

open Gregorian TimeLib Decimal

/-! ### The sketch -/

/-- The fixes of a pass, less those that are older than half a second: what is decoded, and the
millisecond at which the time is set. Then the calls of `now()`. -/
structure Pass where
  fixes : List (GpsDateTime × ℕ)
  calls : List Call

/-- The state between the passes. -/
structure State where
  time : Time
  prevDisplay : UInt32
deriving DecidableEq

/-- At power-up. -/
def State.initial : State where
  time := .initial
  prevDisplay := 0

/-- `setTime(Hour, Minute, Second, Day, Month, Year)` and `adjustTime(offset * SECS_PER_HOUR)`. -/
def setFromFix (offset : Int16) (time : Time) (fix : GpsDateTime × ℕ) : Time :=
  (time.setTime fix.1.h.toNat fix.1.m.toNat fix.1.s.toNat fix.1.d.toNat fix.1.mth.toNat
    fix.1.y.toInt (.ofNat fix.2)).adjustTime (Schedule.uint32OfInt offset * secsPerHour)

/-- `printDigits`. -/
def printDigits (digits : ℕ) : List Char :=
  ':' :: ((if digits < 10 then ['0'] else []) ++ Nat.toDigits 10 digits)

/-- `digitalClockDisplay`: what is printed of each field. -/
def digitalClockDisplay : List (TimeElements → List Char) :=
  [fun tm ↦ Nat.toDigits 10 tm.hour.toNat,
    fun tm ↦ printDigits tm.minute.toNat,
    fun tm ↦ printDigits tm.second.toNat,
    fun tm ↦ ' ' :: Nat.toDigits 10 tm.day.toNat,
    fun tm ↦ ' ' :: Nat.toDigits 10 tm.month.toNat,
    fun tm ↦ ' ' :: Nat.toDigits 10 (tm.year.toNat + 1970)]

/-- `if (now() != prevDisplay)` and the rest of the pass, with the line that is printed. -/
def updateDisplay (calls : List Call) (s : State) : Option (State × Option (List Char)) :=
  match calls with
  | [] => none
  | test :: calls => do
    let (t, time) ← s.time.now test
    if t = s.prevDisplay then
      if calls = [] then some ({ s with time }, none) else none
    else
      match calls with
      | [] => none
      | prev :: calls => do
        let (prevDisplay, time) ← time.now prev
        let (texts, time) ← time.fields digitalClockDisplay calls
        some ({ time, prevDisplay }, some texts.flatten)

/-- `loop`. -/
def loop (offset : Int16) (pass : Pass) (s : State) : Option (State × Option (List Char)) :=
  match pass.calls with
  | [] => none
  | status :: calls => do
    -- the call of `now()` in `timeStatus()`
    let (_, time) ← (pass.fixes.foldl (setFromFix offset) s.time).now status
    if time.clock.status = .timeNotSet then
      if calls = [] then some ({ s with time }, none) else none
    else updateDisplay calls { s with time }

/-! ### Runs -/

/-- The fix the clock was last set at, after a pass. -/
def Pass.lastFix (pass : Pass) (fix : Option (GpsDateTime × ℕ)) : Option (GpsDateTime × ℕ) :=
  pass.fixes.getLast?.or fix

/-- The millisecond before which nothing of the pass is asked for but its fixes. -/
def Pass.startOf (pass : Pass) (last : ℕ) : ℕ := (pass.fixes.getLast?.map Prod.snd).getD last

/-- What is assumed of a pass that starts after the millisecond `last`: the calls of `now()` follow
each other and the last fix, within a round of `millis()`, and no second turns from the test on
whether to print a line to the end of the line. -/
structure Pass.Timed (pass : Pass) (fix : Option (GpsDateTime × ℕ)) (last : ℕ) : Prop where
  after : Time.CallsAfter (pass.startOf last) pass.calls
  second : ∀ f ∈ pass.lastFix fix, ∃ k, ∀ call ∈ pass.calls.tail, (call.2 - f.2) / 1000 = k

/-- The runs of the sketch: the fix the clock was last set at, and the millisecond of the last
call. -/
inductive Run (offset : Int16) : Option (GpsDateTime × ℕ) → ℕ → State → Prop
  /-- Power-up. -/
  | start (last : ℕ) : Run offset none last .initial
  /-- A pass of the loop. -/
  | pass {fix : Option (GpsDateTime × ℕ)} {last : ℕ} {s s' : State} {pass : Pass}
      {line : Option (List Char)} (hrun : Run offset fix last s) (htimed : pass.Timed fix last)
      (hloop : loop offset pass s = some (s', line)) :
      Run offset (pass.lastFix fix) (Time.endOf (pass.startOf last) pass.calls) s'

/-! ### One pass -/

/-- What is printed at the time `t`. -/
def timeLine (t : UInt32) : List Char := (digitalClockDisplay.map (· (breakTime t))).flatten

/-- The clock counts from the last fix; it was never set before the first one. -/
def Sets (offset : Int16) (last : ℕ) (time : Time) : Option (GpsDateTime × ℕ) → Prop
  | none => time.clock.status = .timeNotSet
  | some f => time.Shows (timeFromGps offset f.1) f.2 last

theorem shows_setFromFix (offset : Int16) (time : Time) (fix : GpsDateTime × ℕ) :
    (setFromFix offset time fix).Shows (timeFromGps offset fix.1) fix.2 fix.2 where
  status := TimeStatus.noConfusion
  counts := (Clock.counts_setTime time.clock _ fix.2).adjustTime _

/-- A fix does not touch the mark of the cache. -/
theorem cacheTime_foldl_setFromFix (offset : Int16) (fixes : List (GpsDateTime × ℕ)) (time : Time) :
    (fixes.foldl (setFromFix offset) time).cacheTime = time.cacheTime := by
  induction fixes generalizing time with
  | nil => rfl
  | cons fix fixes ih => exact ih _

/-- The fixes of a pass. -/
theorem Sets.foldl_setFromFix {offset : Int16} {last : ℕ} {time : Time}
    {fix : Option (GpsDateTime × ℕ)} (h : Sets offset last time fix) (pass : Pass) :
    Sets offset (pass.startOf last) (pass.fixes.foldl (setFromFix offset) time)
      (pass.lastFix fix) := by
  obtain ⟨fixes, calls⟩ := pass
  rcases List.eq_nil_or_concat' fixes with rfl | ⟨fixes, f, rfl⟩
  · exact h
  · simp only [Pass.startOf, Pass.lastFix, List.getLast?_concat, List.foldl_append]
    exact shows_setFromFix offset _ f

/-- **The rest of a pass**, when the cache is marked with the time of the line before. -/
theorem updateDisplay_spec {calls : List Call} {s s' : State} {line : Option (List Char)}
    {t₀ : UInt32} {m₀ last : ℕ} (hshows : s.time.Shows t₀ m₀ last)
    (hmark : s.time.cacheTime = s.prevDisplay) (hafter : Time.CallsAfter last calls)
    (hsecond : ∃ k, ∀ call ∈ calls, (call.2 - m₀) / 1000 = k)
    (h : updateDisplay calls s = some (s', line)) :
    s'.time.Shows t₀ m₀ (Time.endOf last calls) ∧ s'.time.cacheTime = s'.prevDisplay ∧
      ∀ text ∈ line, ∃ test ∈ calls.head?,
        text = timeLine (t₀ + .ofNat ((test.2 - m₀) / 1000)) := by
  obtain ⟨k, hsecond⟩ := hsecond
  cases calls with
  | nil => cases h
  | cons test calls =>
    obtain ⟨⟨t, time⟩, htest, hrest⟩ := Option.bind_eq_some_iff.1 h
    obtain ⟨htestSecond, hsecond⟩ := List.forall_mem_cons.1 hsecond
    obtain ⟨rfl, hshows⟩ := hshows.now hafter.1 htest
    obtain ⟨-, hcache, -⟩ := Time.cache_now htest
    simp only [htestSecond] at hrest ⊢
    split at hrest
    · -- the time of the line before
      split at hrest
      · next hnil =>
        subst hnil
        obtain ⟨rfl, rfl⟩ := Prod.ext_iff.1 (Option.some.inj hrest)
        exact ⟨hshows, hcache.trans hmark, fun text hmem ↦ absurd hmem (Option.not_mem_none _)⟩
      · cases hrest
    · next hnew =>
      cases calls with
      | nil => cases hrest
      | cons prev calls =>
        obtain ⟨⟨prevDisplay, time'⟩, hprev, hrest⟩ := Option.bind_eq_some_iff.1 hrest
        obtain ⟨⟨texts, time''⟩, hfields, hrest⟩ := Option.bind_eq_some_iff.1 hrest
        obtain ⟨rfl, rfl⟩ := Prod.ext_iff.1 (Option.some.inj hrest)
        obtain ⟨hprevSecond, hsecond⟩ := List.forall_mem_cons.1 hsecond
        obtain ⟨rfl, hshows'⟩ := hshows.now hafter.2.1 hprev
        obtain ⟨-, hcache', -⟩ := Time.cache_now hprev
        have hstale : t₀ + .ofNat k ≠ time'.cacheTime := by
          rwa [hcache', hcache, hmark]
        obtain ⟨rfl, hend, hdone⟩ := hshows'.fields hafter.2.2 hsecond (.inl hstale) hfields
        have hcalls : calls ≠ [] := fun hnil ↦ by
          rw [hnil] at hfields
          cases hfields
        refine ⟨hend, ?_, ?_⟩
        · simp only [hprevSecond]
          exact hdone hcalls
        · intro text hmem
          obtain rfl := Option.some.inj hmem
          exact ⟨test, rfl, by rw [htestSecond, timeLine]⟩

/-- What every pass keeps: the clock counts from the last fix, and the cache is marked with the time
of the last line. -/
structure Kept (offset : Int16) (fix : Option (GpsDateTime × ℕ)) (last : ℕ) (s : State) : Prop where
  sets : Sets offset last s.time fix
  mark : s.time.cacheTime = s.prevDisplay

/-- The line of a pass: the time that the clock shows when `now()` is first compared. -/
def IsLine (offset : Int16) (fix : Option (GpsDateTime × ℕ)) (pass : Pass) (text : List Char) :
    Prop :=
  ∃ f ∈ pass.lastFix fix, ∃ test ∈ pass.calls.tail.head?,
    text = timeLine (timeFromGps offset f.1 + .ofNat ((test.2 - f.2) / 1000))

/-- **One pass** keeps the invariant, and the line it prints, if any, is right. -/
theorem Kept.loop {offset : Int16} {fix : Option (GpsDateTime × ℕ)} {last : ℕ} {s s' : State}
    {pass : Pass} {line : Option (List Char)} (h : Kept offset fix last s)
    (htimed : pass.Timed fix last) (hloop : loop offset pass s = some (s', line)) :
    Kept offset (pass.lastFix fix) (Time.endOf (pass.startOf last) pass.calls) s' ∧
      ∀ text ∈ line, IsLine offset fix pass text := by
  have hsets := h.sets.foldl_setFromFix pass
  have hcache := cacheTime_foldl_setFromFix offset pass.fixes s.time
  obtain ⟨hafter, hsecond⟩ := htimed
  unfold TimeFromGps.loop at hloop
  unfold IsLine
  generalize pass.fixes.foldl (setFromFix offset) s.time = time at hsets hcache hloop
  generalize pass.startOf last = start at hsets hafter ⊢
  generalize pass.lastFix fix = fix' at hsets hsecond ⊢
  cases hcalls : pass.calls with
  | nil =>
    rw [hcalls] at hloop
    cases hloop
  | cons status calls =>
    rw [hcalls] at hloop hafter hsecond
    obtain ⟨⟨t, time'⟩, hstatus, hrest⟩ := Option.bind_eq_some_iff.1 hloop
    obtain ⟨-, hcache', hset⟩ := Time.cache_now hstatus
    have hmark : time'.cacheTime = s.prevDisplay := (hcache'.trans hcache).trans h.mark
    cases fix' with
    | none =>
      -- the clock was not set yet
      have hnotSet : time'.clock.status = .timeNotSet := hset.trans hsets
      simp only [hnotSet, if_true] at hrest
      split at hrest
      · obtain ⟨rfl, rfl⟩ := Prod.ext_iff.1 (Option.some.inj hrest)
        exact ⟨⟨hnotSet, hmark⟩, fun text hmem ↦ absurd hmem (Option.not_mem_none _)⟩
      · cases hrest
    | some f =>
      obtain ⟨-, hshows⟩ := Time.Shows.now hsets hafter.1 hstatus
      simp only [if_neg hshows.status] at hrest
      obtain ⟨hend, hmark', hline⟩ :=
        updateDisplay_spec (s := { s with time := time' }) hshows hmark hafter.2
          (hsecond f rfl) hrest
      exact ⟨⟨hend, hmark'⟩, fun text hmem ↦ ⟨f, rfl, hline text hmem⟩⟩

/-! ### Whole runs -/

/-- So every run keeps it, by induction on the passes. -/
theorem Run.kept {offset : Int16} {fix : Option (GpsDateTime × ℕ)} {last : ℕ} {s : State}
    (h : Run offset fix last s) : Kept offset fix last s := by
  induction h with
  | start last => exact ⟨rfl, rfl⟩
  | pass _ htimed hloop ih => exact (ih.loop htimed hloop).1

/-- The line about a civil time. -/
def civilLine (T : DateTime 1970) : List Char :=
  Nat.toDigits 10 T.hour ++ ':' :: (padded 2 T.minute ++ ':' :: (padded 2 T.second ++
    ' ' :: (Nat.toDigits 10 T.day ++ ' ' :: (Nat.toDigits 10 T.month ++
      ' ' :: Nat.toDigits 10 T.year))))

theorem printDigits_eq {n : ℕ} (h : n < 100) : printDigits n = ':' :: padded 2 n := by
  unfold printDigits
  split
  · next hsmall => rw [padded, Nat.toDigits_of_lt_base hsmall]; rfl
  · rw [padded_of_le (by decide) (by omega), List.nil_append]

/-- What is printed at a time is the line about its civil time. -/
theorem timeLine_eq (t : UInt32) : timeLine t = civilLine (.ofSeconds 1970 t.toNat) := by
  have hyear := year_sub_lt t
  have hepoch := (DateTime.ofSeconds 1970 t.toNat).epoch_le
  have hmonth := month_lt (DateTime.ofSeconds 1970 t.toNat).toDate
  have hday := day_lt (DateTime.ofSeconds 1970 t.toNat).toDate
  have hhour := (DateTime.ofSeconds 1970 t.toNat).hour_lt
  have hminute := (DateTime.ofSeconds 1970 t.toNat).minute_lt
  have hsecond := (DateTime.ofSeconds 1970 t.toNat).second_lt
  rw [timeLine, breakTime_eq]
  generalize DateTime.ofSeconds 1970 t.toNat = T at *
  simp only [digitalClockDisplay, List.map_cons, List.map_nil, List.flatten_cons, List.flatten_nil,
    List.append_nil, civilLine]
  rw [toNat_ofNat_of_lt (show T.hour < 256 by omega),
    toNat_ofNat_of_lt (show T.minute < 256 by omega), printDigits_eq (by omega),
    toNat_ofNat_of_lt (show T.second < 256 by omega), printDigits_eq (by omega),
    toNat_ofNat_of_lt hday, toNat_ofNat_of_lt hmonth, toNat_ofNat_of_lt hyear,
    Nat.sub_add_cancel hepoch]
  simp only [List.cons_append]

/-- **The lines are right.** What a pass prints, after any run, is the civil time of the last fix,
moved by the offset, and of the seconds since the time was set from it. -/
theorem line_of_run {offset : Int16} {fix : Option (GpsDateTime × ℕ)} {last : ℕ} {s s' : State}
    {pass : Pass} {line : List Char} (hrun : Run offset fix last s) (htimed : pass.Timed fix last)
    (hloop : loop offset pass s = some (s', some line)) :
    ∃ f ∈ pass.lastFix fix, ∃ test ∈ pass.calls.tail.head?,
      ∀ utc : DateTime 1970, 2000 ≤ utc.year → utc.year ≤ 2099 → f.1 = gpsDateTime utc →
        ∀ now : ℕ, now < 2 ^ 32 →
          (now : ℤ) = utc.toSeconds + 3600 * offset.toInt + ((test.2 - f.2) / 1000 : ℕ) →
          line = civilLine (.ofSeconds 1970 now) := by
  obtain ⟨f, hf, test, htest, rfl⟩ := (hrun.kept.loop htimed hloop).2 line rfl
  refine ⟨f, hf, test, htest, fun utc hy hy' hgps now hlt hnow ↦ ?_⟩
  have htime : timeFromGps offset f.1 + .ofNat ((test.2 - f.2) / 1000) = .ofNat now := by
    rw [hgps, timeFromGps_eq hy hy', ← ofInt_natCast, ← ofInt_natCast, ← UInt32.ofInt_add, hnow]
  rw [htime, timeLine_eq, toNat_ofNat_of_lt_two_pow hlt]

/-- A pass with one fix, and calls at the given milliseconds that find nothing to count. -/
def passAt (utc : DateTime 1970) (m₀ : ℕ) (calls : List ℕ) : Pass where
  fixes := [(gpsDateTime utc, m₀)]
  calls := calls.map fun m ↦ ([], m)

/-- The first fix, an hour before midnight in a zone one hour ahead: the line tells the next day. -/
theorem line_of_run_midnight :
    ∃ s' line, loop 1 (passAt lateEvening 5000
        [5001, 5001, 5001, 5002, 5002, 5002, 5003, 5003, 5003]) .initial = some (s', some line) ∧
      line = civilLine (.ofSeconds 1970 946771200) := by
  have hline : ((loop 1 (passAt lateEvening 5000
      [5001, 5001, 5001, 5002, 5002, 5002, 5003, 5003, 5003]) .initial).bind Prod.snd).isSome := by
    decide +kernel
  obtain ⟨line, hline⟩ := Option.isSome_iff_exists.1 hline
  obtain ⟨⟨s', text⟩, hloop, rfl⟩ := Option.bind_eq_some_iff.1 hline
  refine ⟨s', line, hloop, ?_⟩
  obtain ⟨f, hf, test, htest, hright⟩ := line_of_run (.start 0)
    ⟨by decide, fun f hf ↦ ⟨0, by obtain rfl := Option.some.inj hf; decide⟩⟩ hloop
  obtain rfl := Option.some.inj hf
  obtain rfl := Option.some.inj htest
  exact hright lateEvening (by decide) (by decide) rfl 946771200 (by decide) (by decide +kernel)

/-- On New Year's Day 2000, just before ten o'clock UTC, a second turns between the hour and the
minute of the first line, and a fix comes before the next line: that line tells the hour of UTC. -/
example :
    let pass := passAt (.ofSeconds 1970 946720798) 1000 [1990, 1990, 1990, 1990]
    let turning : Pass :=
      { pass with calls := pass.calls ++ ([2000], 2000) :: List.replicate 4 ([], 2000) }
    let next := passAt (.ofSeconds 1970 946720799) 2100
      [2101, 2101, 2101, 2102, 2102, 2102, 2103, 2103, 2103]
    (((loop 1 turning .initial).bind fun s ↦ loop 1 next s.1).bind Prod.snd).map String.ofList =
      some "9:59:59 1 1 2000" := by
  decide +kernel

end Factory.TimeFromGps
