import Analemma.TimeLib.Clock

/-!
# The cache of TimeLib

`hour()`, `minute()` and their like share the static time elements `tm`, which are broken down anew
when `now()` differs from `cacheTime`. The six-argument `setTime` assembles its time in the same
`tm`, and leaves `cacheTime` alone. So `tm` need not be the time elements of `cacheTime`: it is
neither at power-up, nor between a `setTime` and the first later call with another time. A caller
has right fields as long as each of its groups of calls starts at a time that is not `cacheTime`
(`Shows.fields`).

`Time` has all the static variables of the library. The clock of `TimeLib.Clock` is one of its
parts, and everything that is known of it is used through `Shows`: the clock was set, to what time
and when, and how far it has counted. `Coherent` would be the invariant that one expects of a cache,
and the library does not keep it; `refreshCache_eq` needs it only where the time asked for is the
one that the cache is marked with.
-/

namespace TimeLib

/-- The static variables of the library. -/
structure Time where
  clock : Clock
  tm : TimeElements
  cacheTime : UInt32
deriving DecidableEq, Repr

/-- A call of `now()`: the milliseconds at which it reads `millis()`, and last those at which it
finds nothing to count any more. -/
abbrev Call : Type := List ℕ × ℕ

/-- What the call reads. -/
def Call.readings (call : Call) : List UInt32 := (call.1 ++ [call.2]).map .ofNat

namespace Time

/-- The initial values: nothing cached, and marked as if it were the year 1970. -/
def initial : Time where
  clock := .initial
  tm := { second := 0, minute := 0, hour := 0, wday := 0, day := 0, month := 0, year := 0 }
  cacheTime := 0

/-- `setTime(hr, min, sec, dy, mnth, yr)`, at a reading of `millis()`. -/
def setTime (hr min sec dy mnth : ℕ) (yr : ℤ) (millis : UInt32) (s : Time) : Time :=
  let tm :=
    { s.tm with
      year := storedYear yr
      month := .ofNat mnth
      day := .ofNat dy
      hour := .ofNat hr
      minute := .ofNat min
      second := .ofNat sec }
  { s with tm, clock := s.clock.setTime (makeTime tm) millis }

/-- `adjustTime`. -/
def adjustTime (adjustment : UInt32) (s : Time) : Time :=
  { s with clock := s.clock.adjustTime adjustment }

/-- `now()`, which leaves the time elements alone. -/
def now (call : Call) (s : Time) : Option (UInt32 × Time) := do
  let (t, clock) ← s.clock.now call.readings
  some (t, { s with clock })

/-- `refreshCache`. -/
def refreshCache (t : UInt32) (s : Time) : Time :=
  if t ≠ s.cacheTime then { s with tm := breakTime t, cacheTime := t } else s

/-- `hour()`, `minute()`, `second()`, `day()`, `month()` and `year()`; `get` takes from the time
elements what is made of the field. -/
def field {α : Type} (get : TimeElements → α) (call : Call) (s : Time) : Option (α × Time) := do
  let (t, s) ← s.now call
  let s := s.refreshCache t
  some (get s.tm, s)

/-- Such calls one after the other. -/
def fields {α : Type} : List (TimeElements → α) → List Call → Time → Option (List α × Time)
  | [], [], s => some ([], s)
  | get :: gets, call :: calls, s => do
    let (value, s) ← s.field get call
    let (values, s) ← fields gets calls s
    some (value :: values, s)
  | _, _, _ => none

/-! ### One call -/

/-- The clock does not see the cache: the day of the week does not matter to `makeTime`. -/
theorem clock_setTime (hr min sec dy mnth : ℕ) (yr : ℤ) (millis : UInt32) (s : Time) :
    (s.setTime hr min sec dy mnth yr millis).clock =
      s.clock.setTime (TimeLib.setTime hr min sec dy mnth yr) millis := by
  unfold setTime TimeLib.setTime makeTime
  rfl

/-- What the cache holds is the time it is marked with. -/
def Coherent (s : Time) : Prop := s.tm = breakTime s.cacheTime

/-- The cache after `now()` returned `t`. -/
theorem refreshCache_eq {t : UInt32} {s : Time} (h : t ≠ s.cacheTime ∨ s.Coherent) :
    s.refreshCache t = { s with tm := breakTime t, cacheTime := t } := by
  unfold refreshCache
  split
  · rfl
  · next heq =>
    obtain rfl : t = s.cacheTime := not_not.1 heq
    rw [← h.resolve_left (fun hne ↦ hne rfl)]

/-- The status says whether the time was ever set. -/
theorem status_catchUp {readings : List UInt32} {c c' : Clock}
    (h : Clock.catchUp readings c = some c') : c'.status = c.status := by
  induction readings generalizing c with
  | nil => cases h
  | cons millis readings ih =>
    rw [Clock.catchUp] at h
    split at h
    · exact (ih h :)
    · split at h
      · rw [← Option.some.inj h]
      · cases h

/-- A call of `now()` does not change the status, since nobody provides the time. -/
theorem status_now {readings : List UInt32} {c c' : Clock} {t : UInt32}
    (h : c.now readings = some (t, c')) : c'.status = c.status := by
  obtain ⟨d, hcatch, heq⟩ := Option.map_eq_some_iff.1 h
  obtain ⟨-, rfl⟩ := Prod.ext_iff.1 heq
  exact status_catchUp hcatch

/-- `now()` leaves the cache alone. -/
theorem cache_now {s s' : Time} {t : UInt32} {call : Call} (h : s.now call = some (t, s')) :
    s'.tm = s.tm ∧ s'.cacheTime = s.cacheTime ∧ s'.clock.status = s.clock.status := by
  obtain ⟨⟨value, clock⟩, hclock, heq⟩ := Option.bind_eq_some_iff.1 h
  obtain ⟨-, rfl⟩ := Prod.ext_iff.1 (Option.some.inj heq)
  exact ⟨rfl, rfl, status_now hclock⟩

/-- The clock was set to `t₀` at the millisecond `m₀`, and has counted as far as the millisecond
`last`. -/
structure Shows (s : Time) (t₀ : UInt32) (m₀ last : ℕ) : Prop where
  status : s.clock.status ≠ .timeNotSet
  counts : s.clock.Counts t₀ m₀ last

/-- A call of `now()` after the millisecond `last`, in one round of `millis()`. -/
def Call.After (call : Call) (last : ℕ) : Prop :=
  (last :: (call.1 ++ [call.2])).IsChain (· ≤ ·) ∧ call.2 ≤ last + (2 ^ 32 - 1000)

instance (call : Call) (last : ℕ) : Decidable (Call.After call last) :=
  inferInstanceAs (Decidable (_ ∧ _))

/-- A call of `now()` returns the time that was set and the seconds since, and the clock goes on
counting from there. -/
theorem Shows.now {s s' : Time} {t t₀ : UInt32} {m₀ last : ℕ} {call : Call} (h : Shows s t₀ m₀ last)
    (hafter : Call.After call last) (hnow : s.now call = some (t, s')) :
    t = t₀ + .ofNat ((call.2 - m₀) / 1000) ∧ Shows s' t₀ m₀ call.2 := by
  obtain ⟨⟨value, clock⟩, hclock, heq⟩ := Option.bind_eq_some_iff.1 hnow
  obtain ⟨rfl, rfl⟩ := Prod.ext_iff.1 (Option.some.inj heq)
  obtain ⟨hvalue, hcounts⟩ := h.counts.now hafter.1 hafter.2 hclock
  exact ⟨hvalue, status_now hclock ▸ h.status, hcounts⟩

/-- **One field**, if the cache is not misled. -/
theorem Shows.field {α : Type} {get : TimeElements → α} {value : α} {s s' : Time} {t₀ : UInt32}
    {m₀ last : ℕ} {call : Call} (h : Shows s t₀ m₀ last) (hafter : Call.After call last)
    (hcache : t₀ + .ofNat ((call.2 - m₀) / 1000) ≠ s.cacheTime ∨ s.Coherent)
    (hfield : s.field get call = some (value, s')) :
    value = get (breakTime (t₀ + .ofNat ((call.2 - m₀) / 1000))) ∧ Shows s' t₀ m₀ call.2 ∧
      s'.cacheTime = t₀ + .ofNat ((call.2 - m₀) / 1000) ∧ s'.Coherent := by
  obtain ⟨⟨t, d⟩, hnow, heq⟩ := Option.bind_eq_some_iff.1 hfield
  obtain ⟨rfl, hshows⟩ := h.now hafter hnow
  obtain ⟨htm, htime, -⟩ := cache_now hnow
  have hcache' : t₀ + .ofNat ((call.2 - m₀) / 1000) ≠ d.cacheTime ∨ d.Coherent := by
    rwa [Coherent, htm, htime]
  obtain ⟨hvalue, hs⟩ := Prod.ext_iff.1 (Option.some.inj heq)
  simp only [refreshCache_eq hcache'] at hvalue hs
  subst hs
  exact ⟨hvalue.symm, ⟨hshows.status, hshows.counts⟩, rfl, Eq.refl _⟩

/-! ### Calls one after the other -/

/-- Calls that follow each other, the first of them after the millisecond `last`. -/
def CallsAfter : ℕ → List Call → Prop
  | _, [] => True
  | last, call :: calls => Call.After call last ∧ CallsAfter call.2 calls

instance decidableCallsAfter : ∀ last calls, Decidable (CallsAfter last calls)
  | _, [] => .isTrue trivial
  | last, call :: calls =>
    have := decidableCallsAfter call.2 calls
    inferInstanceAs (Decidable (Call.After call last ∧ CallsAfter call.2 calls))

/-- The millisecond at which the last of the calls is done. -/
def endOf : ℕ → List Call → ℕ
  | last, [] => last
  | _, call :: calls => endOf call.2 calls

/-- **Fields that are read within one second** are those of one time, if the first of them is not
misled; the cache is marked with that time afterwards. -/
theorem Shows.fields {α : Type} {gets : List (TimeElements → α)} {calls : List Call}
    {values : List α} {s s' : Time} {t₀ : UInt32} {m₀ last k : ℕ} (h : Shows s t₀ m₀ last)
    (hafter : CallsAfter last calls) (hsecond : ∀ call ∈ calls, (call.2 - m₀) / 1000 = k)
    (hcache : t₀ + .ofNat k ≠ s.cacheTime ∨ s.Coherent)
    (hfields : s.fields gets calls = some (values, s')) :
    values = gets.map (· (breakTime (t₀ + .ofNat k))) ∧ Shows s' t₀ m₀ (endOf last calls) ∧
      (calls ≠ [] → s'.cacheTime = t₀ + .ofNat k) := by
  -- On the getters: the first one fills the cache for this second, and from then on it is coherent.
  induction gets generalizing calls values s last with
  | nil =>
    cases calls with
    | nil =>
      obtain ⟨rfl, rfl⟩ := Prod.ext_iff.1 (Option.some.inj hfields)
      exact ⟨rfl, h, fun hne ↦ absurd rfl hne⟩
    | cons call calls => cases hfields
  | cons get gets ih =>
    cases calls with
    | nil => cases hfields
    | cons call calls =>
      obtain ⟨⟨value, d⟩, hfield, hrest⟩ := Option.bind_eq_some_iff.1 hfields
      obtain ⟨⟨later, e⟩, hlater, heq⟩ := Option.bind_eq_some_iff.1 hrest
      obtain ⟨rfl, rfl⟩ := Prod.ext_iff.1 (Option.some.inj heq)
      obtain ⟨rfl, hsame⟩ := List.forall_mem_cons.1 hsecond
      obtain ⟨rfl, hshows, htime, hcoherent⟩ := h.field hafter.1 hcache hfield
      obtain ⟨rfl, hend, hmark⟩ := ih hshows hafter.2 hsame (.inr hcoherent) hlater
      refine ⟨rfl, hend, fun _ ↦ ?_⟩
      cases calls with
      | nil =>
        cases gets with
        | nil =>
          obtain ⟨-, rfl⟩ := Prod.ext_iff.1 (Option.some.inj hlater)
          exact htime
        | cons get' gets => cases hlater
      | cons call' calls => exact hmark (List.cons_ne_nil _ _)

end Time

end TimeLib
