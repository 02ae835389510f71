import Analemma.Foundation.Gregorian
import Mathlib.Algebra.BigOperators.Ring.Finset

/-!
# Seconds and civil times

A civil time is a date of the calendar and a time of its day. Civil times and numbers of seconds
since the epoch are the same thing: `DateTime.toSeconds` and `DateTime.ofSeconds` are inverse to
each other (`ofSeconds_toSeconds`, `toSeconds_ofSeconds`). All days have 86400 seconds.

Two recurring instants are set up as sequences with one element in every block: a time of the day
(`dailyAt`) and a time of a day of the year (`YearDay.instantIn`). The instants with the
corresponding civil fields are exactly the elements of these sequences (`mem_range_dailyAt`,
`YearDay.mem_range_instantIn`), so `Blocks.isLeast_next` gives the next one after any instant.

There are no leap seconds and no zones here. `DateTime` extends `Date`, so that a civil time carries
the bounds of its fields, and the number of seconds is the day number and the second of the day in
mixed radix; quotient and remainder by 86400 take it apart again (`toSeconds_div`, `toSeconds_mod`).

A recurring day of the month is not a sequence of this kind, for not every month has the day. It is
treated by its gaps: `isLeast_sameDay_iff` says exactly how far ahead of an instant the next such
day may lie to be the first one.
-/

namespace Gregorian

/-- A civil time: a date of the calendar with a time of the day. -/
@[ext]
structure DateTime (epoch : ℕ) extends Date epoch where
  /-- The hour, from 0. -/
  hour : ℕ
  /-- The minute, from 0. -/
  minute : ℕ
  /-- The second, from 0. -/
  second : ℕ
  /-- A day has 24 hours. -/
  hour_lt : hour < 24
  /-- An hour has 60 minutes. -/
  minute_lt : minute < 60
  /-- A minute has 60 seconds. -/
  second_lt : second < 60

/-- The number of seconds between midnight and a time of the day. -/
def secondOfDay (hour minute second : ℕ) : ℕ := 3600 * hour + 60 * minute + second

/-- A time of the day is less than a day. -/
theorem secondOfDay_lt {hour minute second : ℕ} (hh : hour < 24) (hm : minute < 60)
    (hs : second < 60) : secondOfDay hour minute second < 86400 := by
  unfold secondOfDay
  omega

variable {epoch : ℕ}

namespace DateTime

/-- The number of seconds between the epoch and the civil time, days and seconds of the day. -/
def toSeconds (T : DateTime epoch) : ℕ :=
  86400 * T.toDate.toDays + secondOfDay T.hour T.minute T.second

/-- The civil time `t` seconds after the epoch: the date of its day, and the time by quotients and
remainders. -/
def ofSeconds (epoch t : ℕ) : DateTime epoch :=
  { Date.ofDays epoch (t / 86400) with
    hour := t / 3600 % 24
    minute := t / 60 % 60
    second := t % 60
    hour_lt := Nat.mod_lt _ (by omega)
    minute_lt := Nat.mod_lt _ (by omega)
    second_lt := Nat.mod_lt _ (by omega) }

/-- The date of an instant is that of its day. -/
@[simp] theorem toDate_ofSeconds (t : ℕ) :
    (ofSeconds epoch t).toDate = Date.ofDays epoch (t / 86400) := rfl

/-- The time of an instant is its second of the day. -/
theorem secondOfDay_ofSeconds (t : ℕ) :
    secondOfDay (ofSeconds epoch t).hour (ofSeconds epoch t).minute (ofSeconds epoch t).second =
      t % 86400 := by
  simp only [ofSeconds, secondOfDay]
  omega

@[simp] theorem toSeconds_ofSeconds (t : ℕ) : (ofSeconds epoch t).toSeconds = t := by
  rw [toSeconds, secondOfDay_ofSeconds, toDate_ofSeconds, Date.toDays_ofDays]
  omega

theorem secondOfDay_lt (T : DateTime epoch) :
    secondOfDay T.hour T.minute T.second < 86400 :=
  Gregorian.secondOfDay_lt T.hour_lt T.minute_lt T.second_lt

theorem toSeconds_div (T : DateTime epoch) : T.toSeconds / 86400 = T.toDate.toDays := by
  have := T.secondOfDay_lt
  unfold toSeconds
  omega

theorem toSeconds_mod (T : DateTime epoch) :
    T.toSeconds % 86400 = secondOfDay T.hour T.minute T.second := by
  have := T.secondOfDay_lt
  unfold toSeconds
  omega

/-- **A civil time is the one of its instant**, field by field: the date by its day number, and the
time of the day by quotients and remainders. -/
@[simp] theorem ofSeconds_toSeconds (T : DateTime epoch) : ofSeconds epoch T.toSeconds = T := by
  have hdate : (ofSeconds epoch T.toSeconds).toDate = T.toDate := by
    rw [toDate_ofSeconds, toSeconds_div, Date.ofDays_toDays]
  have htime := T.toSeconds_mod
  have := T.hour_lt
  have := T.minute_lt
  have := T.second_lt
  unfold secondOfDay at htime
  refine DateTime.ext ?_ ?_ ?_ ?_ ?_ ?_
  · exact congrArg Date.year hdate
  · exact congrArg Date.month hdate
  · exact congrArg Date.day hdate
  all_goals
    simp only [ofSeconds]
    omega

/-- **An earlier civil time** is earlier in the first field in which the two differ. -/
theorem lex_of_toSeconds_lt {T T' : DateTime epoch} (h : T.toSeconds < T'.toSeconds) :
    T.year < T'.year ∨ T.year = T'.year ∧ (T.month < T'.month ∨ T.month = T'.month ∧
      (T.day < T'.day ∨ T.day = T'.day ∧ (T.hour < T'.hour ∨ T.hour = T'.hour ∧
        (T.minute < T'.minute ∨ T.minute = T'.minute ∧ T.second < T'.second)))) := by
  rcases Nat.lt_or_ge T.toDate.toDays T'.toDate.toDays with hlt | hge
  · have hdate := Date.lex_of_toDays_lt hlt
    omega
  · have htime := T.secondOfDay_lt
    have htime' := T'.secondOfDay_lt
    have hle : T.toDate.toDays ≤ T'.toDate.toDays := by
      unfold toSeconds at h
      omega
    have hdate : T.toDate = T'.toDate := Date.toDays_injective (hle.antisymm hge)
    have hyear : T.year = T'.year := congrArg Date.year hdate
    have hmonth : T.month = T'.month := congrArg Date.month hdate
    have hday : T.day = T'.day := congrArg Date.day hdate
    have hminute := T.minute_lt
    have hminute' := T'.minute_lt
    have hsecond := T.second_lt
    have hsecond' := T'.second_lt
    unfold toSeconds secondOfDay at h
    rw [hdate] at h
    omega

/-- The seconds of a day determine hour, minute and second. -/
theorem secondOfDay_inj {h m s h' m' s' : ℕ} (hm : m < 60) (hs : s < 60) (hm' : m' < 60)
    (hs' : s' < 60) (heq : secondOfDay h m s = secondOfDay h' m' s') :
    h = h' ∧ m = m' ∧ s = s' := by
  unfold secondOfDay at heq
  omega

end DateTime

/-! ### The same day of the month at the same time -/

/-- **A recurring day of the month.** Of the instants after `a` that have the day of the month and
the time of `x`, the instant `x` is the first one exactly when it lies ahead of `a` by no more than
the gap to the last earlier day with the same number. -/
theorem isLeast_sameDay_iff {a x : ℕ}
    (hM : a < x → 2 ≤ (DateTime.ofSeconds epoch x).monthIndex) :
    IsLeast {t | a < t ∧ (DateTime.ofSeconds epoch t).day = (DateTime.ofSeconds epoch x).day ∧
        t % 86400 = x % 86400} x ↔
      a < x ∧ x ≤ a + 86400 * (DateTime.ofSeconds epoch x).sameDayGap := by
  set D := (DateTime.ofSeconds epoch x).toDate with hD
  have hx : D.toDays = x / 86400 := Date.toDays_ofDays _
  constructor
  · rintro ⟨⟨hax, -, -⟩, hlower⟩
    refine ⟨hax, ?_⟩
    obtain ⟨D', hday, hdays⟩ := D.exists_sameDayGap (hM hax)
    by_contra hgt
    -- the instant on the earlier day would be a smaller element
    have hdiv : (86400 * D'.toDays + x % 86400) / 86400 = D'.toDays := by omega
    have hmem : x ≤ 86400 * D'.toDays + x % 86400 := by
      refine hlower ⟨by omega, ?_, by omega⟩
      show (Date.ofDays epoch _).day = D.day
      rw [hdiv, Date.ofDays_toDays, hday]
    have := D.twentyEight_le_sameDayGap
    omega
  · rintro ⟨hax, hgap⟩
    refine ⟨⟨hax, rfl, rfl⟩, ?_⟩
    rintro t ⟨hat, hday, hmod⟩
    by_contra hlt
    have ht : (DateTime.ofSeconds epoch t).toDays = t / 86400 := Date.toDays_ofDays _
    have hle := Date.add_sameDayGap_le (D := D) hday (by rw [ht, hx]; omega)
    rw [ht, hx] at hle
    omega

/-! ### A time of the day -/

/-- The instant of the time of the day `tod` on the `D`-th day. -/
def dailyAt (tod D : ℕ) : ℕ := 86400 * D + tod

theorem start_daySeconds (D : ℕ) :
    Blocks.start (fun _ ↦ 86400) D = 86400 * D := by
  induction D with
  | zero => rfl
  | succ D ih => rw [Blocks.start_succ, ih, Nat.mul_succ]

/-- There is one instant of a time of the day in each day. -/
theorem dailyAt_mem_block {tod : ℕ} (htod : tod < 86400) (D : ℕ) :
    Blocks.start (fun _ ↦ 86400) D ≤ dailyAt tod D ∧
      dailyAt tod D < Blocks.start (fun _ ↦ 86400) (D + 1) := by
  simp only [start_daySeconds, dailyAt]
  omega

/-- The instants at a time of the day are those whose seconds since midnight are that time. -/
theorem mem_range_dailyAt {tod t : ℕ} (htod : tod < 86400) :
    t ∈ Set.range (dailyAt tod) ↔ t % 86400 = tod := by
  constructor
  · rintro ⟨D, rfl⟩
    unfold dailyAt
    omega
  · intro h
    refine ⟨t / 86400, ?_⟩
    unfold dailyAt
    omega

/-- The next instant at a time of the day: today's if it is still ahead, and tomorrow's
otherwise. -/
def nextDaily (tod t : ℕ) : ℕ := Blocks.next (dailyAt tod) (t / 86400) t

/-- **Next means next**, for a time of the day: strictly after `t`, and the first such instant. -/
theorem isLeast_nextDaily {tod : ℕ} (htod : tod < 86400) (t : ℕ) :
    IsLeast {x | t < x ∧ x % 86400 = tod} (nextDaily tod t) := by
  have h := Blocks.isLeast_next (fun _ ↦ 86400) (dailyAt_mem_block htod)
    (n := t / 86400) (t := t) (by rw [start_daySeconds]; omega)
    (by rw [start_daySeconds]; omega)
  simp only [mem_range_dailyAt htod] at h
  exact h

/-! ### A day of the year -/

/-- A month and day that every year has: any day but the twenty-ninth of February. -/
structure YearDay where
  /-- The month, from 1. -/
  month : ℕ
  /-- The day of the month, from 1. -/
  day : ℕ
  /-- Every year has the day. -/
  isDate : ∀ y, IsDate y month day

/-- A day that exists in a common year exists in every year. -/
theorem isDate_of_common {m d : ℕ} (h : 1 ≤ m ∧ m ≤ 12 ∧ 1 ≤ d ∧ d ≤ monthDays false m) (y : ℕ) :
    IsDate y m d := by
  obtain ⟨hm, hm', hd, hd'⟩ := h
  refine ⟨hm, hm', hd, hd'.trans ?_⟩
  unfold monthLength monthDays
  split_ifs <;> simp_all

namespace YearDay

variable (A : YearDay)

variable (epoch) in
/-- The date of the day in the `y`-th year. -/
def dateIn (y : ℕ) : Date epoch :=
  ⟨epoch + y, A.month, A.day, Nat.le_add_right _ _, A.isDate _⟩

variable (epoch) in
/-- The instant of the time `tod` on the day in the `y`-th year. -/
def instantIn (tod y : ℕ) : ℕ := 86400 * (A.dateIn epoch y).toDays + tod

/-- The seconds before the `y`-th year, as a start of blocks. -/
theorem start_yearSeconds (y : ℕ) :
    Blocks.start (fun i ↦ 86400 * yearLength (epoch + i)) y =
      86400 * Date.yearStart epoch y := by
  rw [Date.yearStart_eq_start, Blocks.start, Blocks.start, Finset.mul_sum]

variable {A}

/-- There is one instant of a day of the year in each year. -/
theorem instantIn_mem_block {tod : ℕ} (htod : tod < 86400) (y : ℕ) :
    Blocks.start (fun i ↦ 86400 * yearLength (epoch + i)) y ≤ A.instantIn epoch tod y ∧
      A.instantIn epoch tod y <
        Blocks.start (fun i ↦ 86400 * yearLength (epoch + i)) (y + 1) := by
  have h1 := (A.dateIn epoch y).yearStart_le_toDays
  have h2 := (A.dateIn epoch y).toDays_lt_yearStart_succ
  rw [show (A.dateIn epoch y).year - epoch = y by simp [dateIn]] at h1 h2
  rw [start_yearSeconds, start_yearSeconds, instantIn]
  omega

/-- The instants of the sequence are those with the month and the day and the time of the day. The
year of such an instant is its number in the sequence. -/
theorem mem_range_instantIn {tod t : ℕ} (htod : tod < 86400) :
    t ∈ Set.range (A.instantIn epoch tod) ↔
      (DateTime.ofSeconds epoch t).month = A.month ∧ (DateTime.ofSeconds epoch t).day = A.day ∧
        t % 86400 = tod := by
  constructor
  · rintro ⟨y, rfl⟩
    have hdiv : A.instantIn epoch tod y / 86400 = (A.dateIn epoch y).toDays := by
      unfold instantIn
      omega
    have hdate : (DateTime.ofSeconds epoch (A.instantIn epoch tod y)).toDate =
        A.dateIn epoch y := by
      rw [DateTime.toDate_ofSeconds, hdiv, Date.ofDays_toDays]
    refine ⟨by rw [hdate]; rfl, by rw [hdate]; rfl, ?_⟩
    unfold instantIn
    omega
  · -- The year of the instant is the one to take.
    rintro ⟨hm, hd, ht⟩
    set T := DateTime.ofSeconds epoch t with hT
    have hyear : epoch + (T.year - epoch) = T.year := by
      have := T.epoch_le
      omega
    have hdate : A.dateIn epoch (T.year - epoch) = T.toDate :=
      Date.ext hyear hm.symm hd.symm
    refine ⟨T.year - epoch, ?_⟩
    rw [instantIn, hdate, hT, DateTime.toDate_ofSeconds, Date.toDays_ofDays]
    omega

/-- The instant of the following year: a common year later, or one day more when a leap day lies
between. -/
theorem instantIn_succ (tod y : ℕ) :
    A.instantIn epoch tod (y + 1) = A.instantIn epoch tod y +
      86400 * if Date.LeapDayWithin (epoch + y) A.month then 366 else 365 := by
  have h : (A.dateIn epoch (y + 1)).toDays = (A.dateIn epoch y).toDays +
      if Date.LeapDayWithin (epoch + y) A.month then 366 else 365 :=
    Date.toDays_succ_year rfl rfl rfl
  rw [instantIn, instantIn, h]
  omega

end YearDay

/-- The number of years between the epoch and the year an instant lies in. -/
def yearsAt (epoch t : ℕ) : ℕ := (DateTime.ofSeconds epoch t).year - epoch

theorem mem_block_yearsAt (t : ℕ) :
    Blocks.start (fun i ↦ 86400 * yearLength (epoch + i)) (yearsAt epoch t) ≤ t ∧
      t < Blocks.start (fun i ↦ 86400 * yearLength (epoch + i)) (yearsAt epoch t + 1) := by
  have h1 := (DateTime.ofSeconds epoch t).toDate.yearStart_le_toDays
  have h2 := (DateTime.ofSeconds epoch t).toDate.toDays_lt_yearStart_succ
  rw [DateTime.toDate_ofSeconds, Date.toDays_ofDays] at h1 h2
  simp only [YearDay.start_yearSeconds, yearsAt, ← DateTime.toDate_ofSeconds] at h1 h2 ⊢
  omega

/-- The next instant of a day of the year: this year's if it is still ahead, and next year's
otherwise. -/
def YearDay.nextYearly (A : YearDay) (epoch tod t : ℕ) : ℕ :=
  Blocks.next (A.instantIn epoch tod) (yearsAt epoch t) t

/-- **Next means next**, for a day of the year. -/
theorem YearDay.isLeast_nextYearly (A : YearDay) {tod : ℕ} (htod : tod < 86400) (t : ℕ) :
    IsLeast {x | t < x ∧ (DateTime.ofSeconds epoch x).month = A.month ∧
      (DateTime.ofSeconds epoch x).day = A.day ∧ x % 86400 = tod}
      (A.nextYearly epoch tod t) := by
  have h := Blocks.isLeast_next (fun i ↦ 86400 * yearLength (epoch + i))
    (f := A.instantIn epoch tod) (instantIn_mem_block htod) (mem_block_yearsAt t).1
    (mem_block_yearsAt t).2
  simp only [mem_range_instantIn htod] at h
  exact h

end Gregorian
