import Analemma.TimeLib.Basic

/-!
# The clock of TimeLib

`now()`, `setTime(t)` and `adjustTime` of the Time library. The library keeps a count of seconds,
`sysTime`, and the reading of `millis()` up to which it has counted, `prevMillis`; `now()` counts
the seconds that have passed since. `millis()` has 32 bits and comes round every 49 days, and the
loop of `now()` reads it anew in each of its tests.

The milliseconds since power-up are a natural number here, of which `millis()` shows the last 32
bits. What one call does is `catchUp_spec`, with no assumption but that the readings do not go back.
So a clock that was set counts the seconds since, over any number of rounds of `millis()`, as long
as `now()` is called once in a round (`values_runNow`).

No sketch of the repository calls `setSyncProvider`, so `getTimePtr` is 0 for ever. All that follows
the loop in `now()` stands under the test of that pointer, the assignments to `nextSyncTime` and
`Status` included, so none of it is here: a call returns what its loop has counted, and a clock that
was set never becomes one that needs a sync.
-/

namespace TimeLib

/-- `timeStatus_t`. -/
inductive TimeStatus where
  | timeNotSet
  | timeNeedsSync
  | timeSet
deriving DecidableEq, Repr

/-- The static variables of the clock. -/
structure Clock where
  syncInterval : UInt32
  /-- The seconds counted so far. -/
  sysTime : UInt32
  /-- The reading of `millis()` up to which they have been counted. -/
  prevMillis : UInt32
  nextSyncTime : UInt32
  status : TimeStatus
deriving DecidableEq, Repr

namespace Clock

/-- The initial values. -/
def initial : Clock where
  syncInterval := 300
  sysTime := 0
  prevMillis := 0
  nextSyncTime := 0
  status := .timeNotSet

/-- `setTime(t)`, which reads `millis()`. -/
def setTime (t millis : UInt32) (c : Clock) : Clock :=
  { c with
    sysTime := t
    nextSyncTime := t + c.syncInterval
    status := .timeSet
    prevMillis := millis }

/-- `adjustTime`. -/
def adjustTime (adjustment : UInt32) (c : Clock) : Clock :=
  { c with sysTime := c.sysTime + adjustment }

/-- The loop of `now()`. The readings of `millis()` are those of its tests, one each. -/
def catchUp : List UInt32 → Clock → Option Clock
  | [], _ => none
  | millis :: readings, c =>
    if 1000 ≤ millis - c.prevMillis then
      catchUp readings { c with sysTime := c.sysTime + 1, prevMillis := c.prevMillis + 1000 }
    else if readings = [] then some c
    else none

/-- `now()`. Where no function provides the time, the loop is all there is to it. -/
def now (readings : List UInt32) (c : Clock) : Option (UInt32 × Clock) :=
  (catchUp readings c).map fun c ↦ (c.sysTime, c)

/-- Calls of `now()` and the values they return. Of each call the milliseconds are given at which it
reads `millis()`, and last those at which it finds nothing to count any more. -/
def runNow : List (List ℕ × ℕ) → Clock → Option (List UInt32 × Clock)
  | [], c => some ([], c)
  | call :: calls, c => do
    let (value, c) ← c.now ((call.1 ++ [call.2]).map .ofNat)
    let (values, c) ← runNow calls c
    some (value :: values, c)

/-! ### One call -/

/-- A difference of `millis()`, over any number of rounds. -/
theorem toNat_ofNat_sub_ofNat {p m : ℕ} (h : p ≤ m) :
    (UInt32.ofNat m - UInt32.ofNat p).toNat = (m - p) % 2 ^ 32 := by
  rw [UInt32.toNat_sub, UInt32.toNat_ofNat', UInt32.toNat_ofNat']
  omega

theorem thousand_le_iff {p m : ℕ} (h : p ≤ m) :
    1000 ≤ UInt32.ofNat m - UInt32.ofNat p ↔ 1000 ≤ (m - p) % 2 ^ 32 := by
  rw [UInt32.le_iff_toNat_le, toNat_ofNat_sub_ofNat h]
  rfl

theorem ofNat_add_thousand (p : ℕ) : UInt32.ofNat p + 1000 = .ofNat (p + 1000) := by
  rw [UInt32.ofNat_add]
  rfl

theorem toNat_sub_add_thousand {m p : UInt32} (h : 1000 ≤ m - p) :
    (m - (p + 1000)).toNat = (m - p).toNat - 1000 := by
  have hthousand : (1000 : UInt32).toNat = 1000 := rfl
  have := m.toNat_lt
  have := p.toNat_lt
  rw [UInt32.le_iff_toNat_le, UInt32.toNat_sub, hthousand] at h
  rw [UInt32.toNat_sub, UInt32.toNat_sub, UInt32.toNat_add, hthousand]
  omega

/-- **What one call does**, when the readings of `millis()` do not go back: it counts some seconds,
none of which is ahead of the last reading, and less than a second is left, up to full rounds. -/
theorem catchUp_spec {early : List ℕ} {last p : ℕ} {c c' : Clock} (hp : c.prevMillis = .ofNat p)
    (hchain : (p :: (early ++ [last])).IsChain (· ≤ ·))
    (h : catchUp ((early ++ [last]).map .ofNat) c = some c') :
    ∃ q, p + 1000 * q ≤ last ∧ (last - (p + 1000 * q)) % 2 ^ 32 < 1000 ∧
      c' = { c with sysTime := c.sysTime + .ofNat q, prevMillis := .ofNat (p + 1000 * q) } := by
  -- On the readings of `millis()`: each one but the last is a round of the loop that counts a
  -- second, and the last one finds less than a second left.
  induction early generalizing c p with
  | nil =>
    have hle : p ≤ last := (List.isChain_cons_cons.1 hchain).1
    rw [List.nil_append, List.map_singleton, catchUp, hp] at h
    split at h
    · cases h
    · next hnot =>
      rw [thousand_le_iff hle] at hnot
      rw [if_pos rfl, Option.some_inj] at h
      refine ⟨0, hle, by omega, ?_⟩
      rw [Nat.mul_zero, Nat.add_zero, ← hp, ← h]
      simp
  | cons m early ih =>
    obtain ⟨hle, hrest⟩ := List.isChain_cons_cons.1 hchain
    rw [List.cons_append, List.map_cons, catchUp, hp] at h
    split at h
    · next hdue =>
      rw [thousand_le_iff hle] at hdue
      have hlater : ((p + 1000) :: (early ++ [last])).IsChain (· ≤ ·) := by
        have hm : p + 1000 ≤ m := by omega
        exact List.isChain_cons.2 ⟨fun y hy ↦ hm.trans ((List.isChain_cons.1 hrest).1 y hy),
          (List.isChain_cons.1 hrest).2⟩
      have hnext : { c with
          sysTime := c.sysTime + 1
          prevMillis := UInt32.ofNat p + 1000 }.prevMillis = .ofNat (p + 1000) :=
        ofNat_add_thousand p
      obtain ⟨q, hbound, hmod, rfl⟩ := ih hnext hlater h
      have hcount : p + 1000 * (q + 1) = p + 1000 + 1000 * q := by omega
      refine ⟨q + 1, by rwa [hcount], by rwa [hcount], ?_⟩
      rw [hcount, UInt32.ofNat_add q 1, UInt32.add_assoc, UInt32.add_comm 1]
      rfl
    · rw [if_neg (by simp)] at h
      cases h

/-- **`now()` returns**, at any time: here in a call that takes less than a millisecond. -/
theorem exists_now (c : Clock) (m : ℕ) :
    ∃ n value c', c.now ((List.replicate n m).map .ofNat) = some (value, c') := by
  -- The number of rounds is the number of whole seconds since `prevMillis`, which every round
  -- reduces by one.
  suffices H : ∀ q, ∀ c : Clock, (UInt32.ofNat m - c.prevMillis).toNat / 1000 = q →
      ∃ n c', catchUp ((List.replicate n m).map .ofNat) c = some c' by
    obtain ⟨n, c', h⟩ := H _ c rfl
    exact ⟨n, c'.sysTime, c', by rw [now, h]; rfl⟩
  intro q
  induction q with
  | zero =>
    intro c hq
    refine ⟨1, c, ?_⟩
    have hnot : ¬ 1000 ≤ UInt32.ofNat m - c.prevMillis := by
      rw [UInt32.le_iff_toNat_le]
      show ¬ 1000 ≤ (UInt32.ofNat m - c.prevMillis).toNat
      omega
    simp only [List.replicate_one, List.map_singleton, catchUp]
    rw [if_neg hnot, if_pos trivial]
  | succ q ih =>
    intro c hq
    have hdue : 1000 ≤ UInt32.ofNat m - c.prevMillis := by
      rw [UInt32.le_iff_toNat_le]
      show 1000 ≤ (UInt32.ofNat m - c.prevMillis).toNat
      omega
    obtain ⟨n, c', h⟩ :=
      ih { c with sysTime := c.sysTime + 1, prevMillis := c.prevMillis + 1000 } (by
        rw [toNat_sub_add_thousand hdue]
        omega)
    refine ⟨n + 1, c', ?_⟩
    rw [List.replicate_succ, List.map_cons, catchUp, if_pos hdue]
    exact h

/-! ### Whole runs -/

/-- A clock that showed the time `t` at the millisecond `m₀` has counted the seconds since, as far
as the millisecond `last`. -/
def Counts (c : Clock) (t : UInt32) (m₀ last : ℕ) : Prop :=
  ∃ k, c.sysTime = t + .ofNat k ∧ c.prevMillis = .ofNat (m₀ + 1000 * k) ∧ m₀ + 1000 * k ≤ last ∧
    last < m₀ + 1000 * k + 1000

/-- Right after it was set. -/
theorem counts_setTime (c : Clock) (t : UInt32) (m₀ : ℕ) :
    Counts (c.setTime t (.ofNat m₀)) t m₀ m₀ :=
  ⟨0, by simp [setTime], rfl, le_rfl, Nat.lt_add_of_pos_right (by omega)⟩

/-- **`adjustTime` moves the time**, and the clock counts on from there. -/
theorem Counts.adjustTime {c : Clock} {t : UInt32} {m₀ last : ℕ} (h : Counts c t m₀ last)
    (adjustment : UInt32) : Counts (c.adjustTime adjustment) (t + adjustment) m₀ last := by
  obtain ⟨k, hsys, hprev, hle, hlt⟩ := h
  refine ⟨k, ?_, hprev, hle, hlt⟩
  rw [Clock.adjustTime, hsys, UInt32.add_assoc, UInt32.add_assoc, UInt32.add_comm adjustment]

/-- **One call** within a round of `millis()` after the one before. -/
theorem Counts.now {c c' : Clock} {t value : UInt32} {m₀ last : ℕ} (h : Counts c t m₀ last)
    {call : List ℕ × ℕ} (hchain : (last :: (call.1 ++ [call.2])).IsChain (· ≤ ·))
    (hround : call.2 ≤ last + (2 ^ 32 - 1000))
    (hnow : c.now ((call.1 ++ [call.2]).map .ofNat) = some (value, c')) :
    value = t + .ofNat ((call.2 - m₀) / 1000) ∧ Counts c' t m₀ call.2 := by
  obtain ⟨k, hsys, hprev, hle, hlt⟩ := h
  obtain ⟨d, hcatch, heq⟩ := Option.map_eq_some_iff.1 hnow
  have hearlier : ((m₀ + 1000 * k) :: (call.1 ++ [call.2])).IsChain (· ≤ ·) :=
    List.isChain_cons.2 ⟨fun y hy ↦ hle.trans ((List.isChain_cons.1 hchain).1 y hy),
      (List.isChain_cons.1 hchain).2⟩
  obtain ⟨q, hbound, hmod, rfl⟩ := catchUp_spec hprev hearlier hcatch
  obtain ⟨rfl, rfl⟩ := Prod.ext_iff.1 heq
  have hcount : m₀ + 1000 * k + 1000 * q = m₀ + 1000 * (k + q) := by omega
  rw [hcount] at hbound hmod
  rw [Nat.mod_eq_of_lt (by omega)] at hmod
  have hquot : (call.2 - m₀) / 1000 = k + q := by omega
  refine ⟨?_, k + q, ?_, ?_, hbound, by omega⟩
  · simp only [hquot, hsys, UInt32.ofNat_add, UInt32.add_assoc]
  · simp only [hsys, UInt32.ofNat_add, UInt32.add_assoc]
  · simp only [hcount]

/-- **The clock counts the seconds since it was set**, over any number of calls and rounds of
`millis()`: each call returns the time that was set and the seconds from then until the call found
nothing to count any more. -/
theorem values_runNow {c c' : Clock} {t : UInt32} {m₀ last : ℕ} (h : Counts c t m₀ last)
    {calls : List (List ℕ × ℕ)} {values : List UInt32}
    (hchain : (last :: calls.flatMap fun call ↦ call.1 ++ [call.2]).IsChain (· ≤ ·))
    (hround : (last :: calls.map Prod.snd).IsChain fun m m' ↦ m' ≤ m + (2 ^ 32 - 1000))
    (hrun : runNow calls c = some (values, c')) :
    values = calls.map fun call ↦ t + .ofNat ((call.2 - m₀) / 1000) := by
  induction calls generalizing c last values with
  | nil =>
    cases hrun
    rfl
  | cons call calls ih =>
    obtain ⟨⟨value, d⟩, hnow, hrest⟩ := Option.bind_eq_some_iff.1 hrun
    obtain ⟨⟨later, e⟩, hlater, heq⟩ := Option.bind_eq_some_iff.1 hrest
    cases heq
    rw [List.map_cons, List.isChain_cons_cons] at hround
    rw [List.flatMap_cons, ← List.cons_append, List.isChain_append] at hchain
    obtain ⟨hcall, hcalls, hjoin⟩ := hchain
    obtain ⟨rfl, hcounts⟩ := h.now hcall hround.1 hnow
    rw [List.map_cons]
    refine congrArg (List.cons _) (ih hcounts ?_ hround.2 hlater)
    have hlast : (last :: (call.1 ++ [call.2])).getLast? = some call.2 := by
      rw [← List.cons_append, List.getLast?_concat]
    exact List.isChain_cons.2 ⟨fun y hy ↦ hjoin call.2 hlast y hy, hcalls⟩

/-- Set to noon of New Year's Day 2000 a quarter of a second before `millis()` comes round, and read
a second and a half later. -/
theorem values_runNow_round :
    ∃ values c', runNow [([4294968547], 4294968547)]
        (Clock.initial.setTime 946728000 (.ofNat 4294967046)) = some (values, c') ∧
      values = [946728001] := by
  have hrun : (runNow [([4294968547], 4294968547)]
      (Clock.initial.setTime 946728000 (.ofNat 4294967046))).isSome = true := by decide
  obtain ⟨⟨values, c'⟩, hvalues⟩ := Option.isSome_iff_exists.1 hrun
  refine ⟨values, c', hvalues, ?_⟩
  rw [values_runNow (counts_setTime _ _ _) (by decide) (by decide) hvalues]
  decide

end Clock

end TimeLib
