import Analemma.Factory.Bringup

/-!
# Waiting for the GPS

`setTime` of `analemma_factory` asks for the GPS (`isGPSAvaliable`) and, if it is there, reads from
it until a fresh sentence has been decoded and the line is silent (`setSystemTimeFromGPS`). The
results of `serialGPS.available()`, the characters and what the decoder makes of them are a
`GpsStream`; nothing is assumed of it, so the reading may go on for ever.

`isGPSAvaliable` polls at most thirteen times and counts twelve tries down. It answers from the
counter, which is used up when only the thirteenth poll finds a character: the bring-up then goes on
without the GPS although it speaks (`setTime_iff`).
-/

namespace Factory.Polling

open DS3231

/-- What comes from the GPS. -/
structure GpsStream where
  /-- The result of the `n`-th call of `serialGPS.available()`. -/
  available : ℕ → Int16
  /-- The `n`-th character that `serialGPS.read()` returns. -/
  read : ℕ → UInt8
  /-- Whether `gps.encode` reports new data on the `n`-th character. -/
  encode : ℕ → UInt8 → Bool
  /-- The date and time that `gps.crack_datetime` hands over after the `n`-th character. -/
  datetime : ℕ → GpsDateTime
  /-- The age that it hands over. -/
  age : ℕ → UInt32
  /-- What the clock, set to these registers, shows when it is read back after the `n`-th
  character. -/
  shown : ℕ → TimeRegisters → TimeRegisters

/-- The bring-up: how far the stream has been used, the clock and the globals. -/
structure State where
  /-- The calls of `serialGPS.available()` so far. -/
  polls : ℕ
  /-- The characters read so far. -/
  chars : ℕ
  /-- The calls of `clock.setDateTime` so far, each with the number of the character it followed. -/
  rtcWrites : List (ℕ × RTCDateTime)
  /-- The registers of the clock, as they were set last. -/
  rtc : TimeRegisters
  dt : RTCDateTime
  sysTime : UInt32
deriving DecidableEq, Repr

variable (g : GpsStream) (offset : Int16)

/-- The loop `while (!serialGPS.available() && tries-- > 0)` after so many polls: what is left of
`tries`, and the polls made. -/
def waitForGPS : (tries polls : ℕ) → ℤ × ℕ
  | 0, polls => if g.available polls ≠ 0 then (0, polls + 1) else (-1, polls + 1)
  | tries + 1, polls =>
    if g.available polls ≠ 0 then (tries + 1, polls + 1) else waitForGPS tries (polls + 1)

/-- `isGPSAvaliable`, and the polls made. -/
def isGPSAvaliable (polls : ℕ) : Bool × ℕ :=
  let (tries, polls) := waitForGPS g 12 polls
  (decide (tries > 0), polls)

/-- The `n`-th character ends a sentence with an age below 500. -/
def Fresh (n : ℕ) : Prop := g.encode n (g.read n) = true ∧ g.age n < 500

instance (n : ℕ) : Decidable (Fresh g n) := inferInstanceAs (Decidable (_ ∧ _))

/-- The body of `while (serialGPS.available())`: one character, and `time_set`. -/
def receive (timeSet : Bool) (s : State) : Bool × State :=
  let n := s.chars
  let s := { s with chars := n + 1 }
  if g.encode n (g.read n) then
    if g.age n < 500 then
      let args := setSystemTimeFromGPS offset (g.datetime n)
      let rtc := setDateTime args
      let dt := getDateTime (g.shown n rtc)
      (true, { s with
        rtcWrites := s.rtcWrites ++ [(n, args)], rtc := rtc, dt := dt, sysTime := systemTime dt })
    else (timeSet, s)
  else (timeSet, s)

/-- The loop `while (serialGPS.available())`, for as many rounds at most. -/
def readLoop : ℕ → Bool → State → Option (Bool × State)
  | 0, _, _ => none
  | rounds + 1, timeSet, s =>
    let found := g.available s.polls
    let s := { s with polls := s.polls + 1 }
    if found ≠ 0 then
      let (timeSet, s) := receive g offset timeSet s
      readLoop rounds timeSet s
    else some (timeSet, s)

/-- The loop `while (!time_set)`, for as many rounds at most. -/
def waitLoop : ℕ → Bool → State → Option State
  | 0, _, _ => none
  | rounds + 1, timeSet, s =>
    if timeSet then some s
    else do
      let (timeSet, s) ← readLoop g offset rounds timeSet s
      waitLoop rounds timeSet s

/-- `setSystemTimeFromGPS`, if it returns within so many rounds. -/
def setSystemTimeFromGPS (rounds : ℕ) (s : State) : Option State := waitLoop g offset rounds false s

/-- `setTime` enters `setSystemTimeFromGPS`. -/
def Enters (s : State) : Prop := (isGPSAvaliable g s.polls).1 = true

instance : DecidablePred (Enters g) := fun _ ↦ inferInstanceAs (Decidable (_ = true))

/-- `setTime`, if it returns within so many rounds of `setSystemTimeFromGPS`. -/
def setTime (rounds : ℕ) (s : State) : Option State :=
  let (avaliable, polls) := isGPSAvaliable g s.polls
  let s := { s with polls := polls }
  if avaliable then setSystemTimeFromGPS g offset rounds s else some s

/-! ### The polls of `isGPSAvaliable` -/

/-- **The polls**: after `k` silent ones comes one that finds a character, or that is silent too and
for which no try was left. -/
theorem waitForGPS_spec (tries polls : ℕ) :
    ∃ k ≤ tries, (∀ i < k, g.available (polls + i) = 0) ∧
      (waitForGPS g tries polls).2 = polls + k + 1 ∧
      ((g.available (polls + k) ≠ 0 ∧ (waitForGPS g tries polls).1 = tries - k) ∨
        (g.available (polls + k) = 0 ∧ k = tries ∧ (waitForGPS g tries polls).1 = -1)) := by
  -- On the tries left: the first poll that finds a character ends the loop, the last silent one
  -- leaves -1.
  induction tries generalizing polls with
  | zero =>
    refine ⟨0, le_rfl, fun i hi ↦ absurd hi (Nat.not_lt_zero i), ?_⟩
    rw [waitForGPS, Nat.add_zero]
    split
    · next hfound => exact ⟨rfl, Or.inl ⟨hfound, rfl⟩⟩
    · next hsilent => exact ⟨rfl, Or.inr ⟨not_not.1 hsilent, rfl, rfl⟩⟩
  | succ tries ih =>
    rw [waitForGPS]
    split
    · next hfound =>
      refine ⟨0, Nat.zero_le _, fun i hi ↦ absurd hi (Nat.not_lt_zero i), rfl, Or.inl ⟨hfound, ?_⟩⟩
      simp
    · next hsilent =>
      obtain ⟨k, hk, hbefore, hpolls, hlast⟩ := ih (polls + 1)
      have hshift : ∀ i, polls + 1 + i = polls + (i + 1) := fun i ↦ by omega
      rw [hshift] at hpolls hlast
      refine ⟨k + 1, by omega, fun i hi ↦ ?_, hpolls, ?_⟩
      · cases i with
        | zero => exact not_not.1 hsilent
        | succ i =>
          rw [← hshift]
          exact hbefore i (by omega)
      · rcases hlast with ⟨hfound, hleft⟩ | ⟨hsilent', rfl, hleft⟩
        · exact Or.inl ⟨hfound, by rw [hleft]; omega⟩
        · exact Or.inr ⟨hsilent', rfl, hleft⟩

/-- `isGPSAvaliable` says whether one of its polls has found a character, exactly unless the first
one to do so is the thirteenth. -/
theorem isGPSAvaliable_iff (polls : ℕ) :
    ((isGPSAvaliable g polls).1 = true ↔
        ∃ i, polls ≤ i ∧ i < (isGPSAvaliable g polls).2 ∧ g.available i ≠ 0) ↔
      ¬ ((∀ i < 12, g.available (polls + i) = 0) ∧ g.available (polls + 12) ≠ 0) := by
  obtain ⟨k, hk, hbefore, hpolls, hlast⟩ := waitForGPS_spec g 12 polls
  have hvalue : (isGPSAvaliable g polls).1 = true ↔ 0 < (waitForGPS g 12 polls).1 :=
    decide_eq_true_iff
  have hmade : (isGPSAvaliable g polls).2 = polls + k + 1 := hpolls
  rw [hvalue, hmade]
  rcases hlast with ⟨hfound, hleft⟩ | ⟨hsilent, rfl, hleft⟩
  · have hexists : ∃ i, polls ≤ i ∧ i < polls + k + 1 ∧ g.available i ≠ 0 :=
      ⟨polls + k, by omega, by omega, hfound⟩
    rw [iff_true_right hexists, hleft]
    constructor
    · rintro hpos ⟨hsilent, -⟩
      exact hfound (hsilent k (by omega))
    · intro hnot
      -- A character at the thirteenth poll is found with no try left, which counts as none.
      by_contra hle
      obtain rfl : k = 12 := by omega
      exact hnot ⟨hbefore, hfound⟩
  · have hnone : ¬ ∃ i, polls ≤ i ∧ i < polls + 12 + 1 ∧ g.available i ≠ 0 := by
      rintro ⟨i, hle, hlt, hfound⟩
      obtain ⟨d, rfl⟩ := Nat.exists_eq_add_of_le hle
      rcases Nat.lt_or_eq_of_le (show d ≤ 12 by omega) with hd | rfl
      · exact hfound (hbefore d hd)
      · exact hfound hsilent
    exact iff_of_true (iff_of_false (by omega) hnone) fun hlate ↦ hlate.2 hsilent

/-! ### The writes of `setSystemTimeFromGPS` -/

/-- The arguments of `clock.setDateTime` after the `n`-th character. -/
def setArgs (n : ℕ) : RTCDateTime := Factory.setSystemTimeFromGPS offset (g.datetime n)

/-- The last write to the clock came from a fresh sentence that ended after the first `start`
characters. -/
def LastFresh (start : ℕ) (s : State) : Prop :=
  ∃ n, start ≤ n ∧ n < s.chars ∧ Fresh g n ∧
    s.rtcWrites.getLast? = some (n, setArgs g offset n) ∧ s.rtc = setDateTime (setArgs g offset n)

/-- What holds in both loops: once `time_set` is true, the last write came from a fresh sentence. -/
def Set (start : ℕ) (timeSet : Bool) (s : State) : Prop :=
  start ≤ s.chars ∧ (timeSet = true → LastFresh g offset start s)

variable {g offset} {start : ℕ} {timeSet timeSet' : Bool} {s s' : State}

/-- A fresh sentence is written to the clock, and read back. -/
theorem receive_of_fresh (h : Fresh g s.chars) (timeSet : Bool) :
    receive g offset timeSet s = (true, { s with
      chars := s.chars + 1
      rtcWrites := s.rtcWrites ++ [(s.chars, setArgs g offset s.chars)]
      rtc := setDateTime (setArgs g offset s.chars)
      dt := getDateTime (g.shown s.chars (setDateTime (setArgs g offset s.chars)))
      sysTime :=
        systemTime (getDateTime (g.shown s.chars (setDateTime (setArgs g offset s.chars)))) }) := by
  simp only [receive, if_pos h.1, if_pos h.2, setArgs]

/-- Any other character is passed over. -/
theorem receive_of_not_fresh (h : ¬ Fresh g s.chars) (timeSet : Bool) :
    receive g offset timeSet s = (timeSet, { s with chars := s.chars + 1 }) := by
  simp only [receive]
  split
  · next hencode => exact if_neg fun hage ↦ h ⟨hencode, hage⟩
  · rfl

theorem Set.receive (h : Set g offset start timeSet s) :
    Set g offset start (receive g offset timeSet s).1 (receive g offset timeSet s).2 := by
  obtain ⟨hstart, hset⟩ := h
  by_cases hfresh : Fresh g s.chars
  · rw [receive_of_fresh hfresh]
    exact ⟨hstart.trans (Nat.le_succ _), fun _ ↦
      ⟨s.chars, hstart, Nat.lt_succ_self _, hfresh, by simp, rfl⟩⟩
  · rw [receive_of_not_fresh hfresh]
    refine ⟨hstart.trans (Nat.le_succ _), fun hts ↦ ?_⟩
    obtain ⟨n, hn, hlt, hrest⟩ := hset hts
    exact ⟨n, hn, hlt.trans (Nat.lt_succ_self _), hrest⟩

/-- A poll changes nothing but the count of the polls. -/
theorem Set.poll (h : Set g offset start timeSet s) (polls : ℕ) :
    Set g offset start timeSet { s with polls := polls } := h

theorem Set.readLoop {rounds : ℕ} (h : Set g offset start timeSet s)
    (hloop : readLoop g offset rounds timeSet s = some (timeSet', s')) :
    Set g offset start timeSet' s' := by
  induction rounds generalizing timeSet s with
  | zero => cases hloop
  | succ rounds ih =>
    rw [Polling.readLoop] at hloop
    split at hloop
    · exact ih (h.poll _).receive hloop
    · cases hloop
      exact h.poll _

theorem Set.waitLoop {rounds : ℕ} (h : Set g offset start timeSet s)
    (hloop : waitLoop g offset rounds timeSet s = some s') : LastFresh g offset start s' := by
  induction rounds generalizing timeSet s with
  | zero => cases hloop
  | succ rounds ih =>
    rw [Polling.waitLoop] at hloop
    split at hloop
    · next hset =>
      cases hloop
      exact h.2 hset
    · obtain ⟨⟨timeSet', s''⟩, hread, hrest⟩ := Option.bind_eq_some_iff.1 hloop
      exact ih (h.readLoop hread) hrest

/-- **If `setSystemTimeFromGPS` returns, the last write came from a fresh sentence.** -/
theorem lastFresh_of_setSystemTimeFromGPS {rounds : ℕ}
    (h : setSystemTimeFromGPS g offset rounds s = some s') : LastFresh g offset s.chars s' :=
  have hstart : Set g offset s.chars false s := ⟨le_rfl, fun hset ↦ by cases hset⟩
  hstart.waitLoop h

/-! ### `setTime` -/

variable (g offset s)

/-- **The bring-up uses the GPS when it speaks**, exactly unless the first character is found by the
thirteenth poll: `setTime` enters `setSystemTimeFromGPS` when a poll of `isGPSAvaliable` found a
character and not otherwise; if it enters and returns, the last write to the clock came from a fresh
sentence; if it does not enter, it returns and has written nothing. -/
theorem setTime_iff :
    ((Enters g s ↔ ∃ i, s.polls ≤ i ∧ i < (isGPSAvaliable g s.polls).2 ∧ g.available i ≠ 0) ∧
        (Enters g s → ∀ rounds s', setTime g offset rounds s = some s' →
          LastFresh g offset s.chars s') ∧
        (¬ Enters g s → ∀ rounds, ∃ polls, setTime g offset rounds s = some { s with polls })) ↔
      ¬ ((∀ i < 12, g.available (s.polls + i) = 0) ∧ g.available (s.polls + 12) ≠ 0) := by
  refine (and_iff_left ⟨fun henters rounds s' h ↦ ?_, fun hskips rounds ↦ ⟨_, if_neg hskips⟩⟩).trans
    (isGPSAvaliable_iff g s.polls)
  have hbranch : setTime g offset rounds s = setSystemTimeFromGPS g offset rounds
      { s with polls := (isGPSAvaliable g s.polls).2 } := if_pos henters
  rw [hbranch] at h
  have hlast := lastFresh_of_setSystemTimeFromGPS h
  exact hlast

/-- The state of the bring-up before `setTime`. -/
def beforeSetTime : State where
  polls := 0
  chars := 0
  rtcWrites := []
  rtc := ⟨0, 0, 0, 1, 1, 0⟩
  dt := ⟨2000, 1, 1, 0, 0, 0⟩
  sysTime := 0

/-- A GPS whose first character, the end of a fresh sentence, is there from one poll on until it has
been read. -/
def speaksFrom (poll : ℕ) : GpsStream where
  available n := if n = poll ∨ n = poll + 1 then 1 else 0
  read _ := 10
  encode _ _ := true
  datetime _ := ⟨2021, 6, 1, 12, 0, 0⟩
  age _ := 100
  shown _ regs := regs

/-- The bring-up does not use a GPS that speaks from the thirteenth poll on. -/
theorem setTime_misses :
    ¬ ∀ (g : GpsStream) (offset : Int16) (s : State),
      (Enters g s ↔ ∃ i, s.polls ≤ i ∧ i < (isGPSAvaliable g s.polls).2 ∧ g.available i ≠ 0) ∧
        (Enters g s → ∀ rounds s', setTime g offset rounds s = some s' →
          LastFresh g offset s.chars s') ∧
        (¬ Enters g s → ∀ rounds, ∃ polls, setTime g offset rounds s = some { s with polls }) := by
  intro h
  have hiff := (h (speaksFrom 12) 1 beforeSetTime).1
  exact absurd (hiff.2 ⟨12, by decide, by decide, by decide⟩) (by decide)

/-- One that speaks from the twelfth poll on sets the clock. -/
example : (setTime (speaksFrom 11) 1 3 beforeSetTime).map (·.rtcWrites) =
    some [(0, ⟨2021, 6, 1, 13, 0, 0⟩)] := by decide

end Factory.Polling
