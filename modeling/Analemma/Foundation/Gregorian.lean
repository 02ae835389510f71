import Analemma.Foundation.Blocks

/-!
# The Gregorian calendar, counted in days from an epoch

Dates of the proleptic Gregorian calendar from the first of January of an `epoch` year on. The
months from the epoch on are consecutive blocks of days (`monthBlock`), so a date is a month block
and an offset into it: `Date.toDays` and `Date.ofDays` are inverse to each other
(`Date.equivDays`) because `Blocks.locate` is inverse to "start plus offset".

A `Date` carries the proof that it is one, so the thirty-first of April cannot be written down.

Besides the conversion the module has the two facts about dates that a recurring alarm rests on:

* how far apart two days with the same day of the month are (`add_twentyEight_le_of_day_eq`, and
  exactly `Date.sameDayGap` for the last such day before a given one);
* how far apart the same month and day of two consecutive years are
  (`toDays_succ_year`): 366 days when a leap day lies between them and 365 otherwise.

Years are blocks of days as well (`yearStart_eq_start`), and so every date has two decompositions:
by month block and offset, which the inverse rests on, and by year, month and day (`toDays_eq`),
which is how conversion routines compute. The first has no case split for leap years in it; the
second has them all in `daysBefore`, a table of thirteen entries that is checked by evaluation.

Days are naturals, so there is nothing before the epoch. The epoch is a parameter; the facts about
leap days speak of the year itself and hold for every epoch.
-/

namespace Gregorian

/-- Every fourth year is a leap year, except the centuries that 400 does not divide. -/
def IsLeap (y : ℕ) : Prop := y % 4 = 0 ∧ (y % 100 ≠ 0 ∨ y % 400 = 0)

instance : DecidablePred IsLeap := fun y ↦
  inferInstanceAs (Decidable (y % 4 = 0 ∧ (y % 100 ≠ 0 ∨ y % 400 = 0)))

/-- The number of days of month `m` (from 1), in a leap year or in another one. -/
def monthDays (leap : Bool) (m : ℕ) : ℕ :=
  if m = 2 then if leap then 29 else 28
  else if m = 4 ∨ m = 6 ∨ m = 9 ∨ m = 11 then 30 else 31

/-- The number of days of month `m` (from 1) of year `y`. -/
def monthLength (y m : ℕ) : ℕ := monthDays (IsLeap y) m

theorem twentyEight_le_monthLength (y m : ℕ) : 28 ≤ monthLength y m := by
  unfold monthLength monthDays
  split_ifs <;> omega

theorem monthLength_le (y m : ℕ) : monthLength y m ≤ 31 := by
  unfold monthLength monthDays
  split_ifs <;> omega

/-- Only February depends on the year. -/
theorem monthLength_of_ne_two {y y' m : ℕ} (h : m ≠ 2) : monthLength y m = monthLength y' m := by
  simp only [monthLength, monthDays, if_neg h]

/-- The number of days of year `y`. -/
def yearLength (y : ℕ) : ℕ := if IsLeap y then 366 else 365

theorem yearLength_ge (y : ℕ) : 365 ≤ yearLength y := by
  unfold yearLength
  split_ifs <;> omega

/-- Month `m` and day `d` exist in year `y`, months and days counted from 1. -/
def IsDate (y m d : ℕ) : Prop := 1 ≤ m ∧ m ≤ 12 ∧ 1 ≤ d ∧ d ≤ monthLength y m

instance (y m d : ℕ) : Decidable (IsDate y m d) :=
  inferInstanceAs (Decidable (1 ≤ m ∧ m ≤ 12 ∧ 1 ≤ d ∧ d ≤ monthLength y m))

/-- A date of the calendar, not before the epoch year. -/
@[ext]
structure Date (epoch : ℕ) where
  /-- The year, in full. -/
  year : ℕ
  /-- The month, from 1. -/
  month : ℕ
  /-- The day of the month, from 1. -/
  day : ℕ
  /-- The calendar starts with the epoch year. -/
  epoch_le : epoch ≤ year
  /-- The date exists. -/
  isDate : IsDate year month day

variable {epoch : ℕ}

/-! ### Months as blocks of days -/

variable (epoch) in
/-- The length of the `M`-th month since the epoch. Months are counted through the years. -/
def monthBlock (M : ℕ) : ℕ := monthLength (epoch + M / 12) (M % 12 + 1)

theorem twentyEight_le_monthBlock (M : ℕ) : 28 ≤ monthBlock epoch M :=
  twentyEight_le_monthLength _ _

/-- In particular no block is empty, as locating a day needs it. -/
theorem monthBlock_pos (M : ℕ) : 0 < monthBlock epoch M :=
  lt_of_lt_of_le (by omega) (twentyEight_le_monthBlock M)

theorem monthBlock_year_add {y i : ℕ} (hi : i < 12) :
    monthBlock epoch (12 * y + i) = monthLength (epoch + y) (i + 1) := by
  have hdiv : (12 * y + i) / 12 = y := by omega
  have hmod : (12 * y + i) % 12 = i := by omega
  rw [monthBlock, hdiv, hmod]

/-- A month of fewer than 31 days follows one of 31 days. So of two months in a row one has every
day that some month has. -/
theorem monthBlock_pred_of_lt {M : ℕ} (hM : 0 < M) (h : monthBlock epoch M < 31) :
    monthBlock epoch (M - 1) = 31 := by
  have hpred : (M - 1) % 12 = (M % 12 + 11) % 12 := by omega
  unfold monthBlock monthLength monthDays at *
  rw [hpred]
  split_ifs at h ⊢ <;> omega

namespace Date

/-- The number of months between the epoch and the month of the date: the number of its block. -/
def monthIndex (D : Date epoch) : ℕ := 12 * (D.year - epoch) + (D.month - 1)

/-- The number of days between the epoch and the date: the start of its month block, and the offset
into it. -/
def toDays (D : Date epoch) : ℕ :=
  Blocks.start (monthBlock epoch) D.monthIndex + (D.day - 1)

theorem monthIndex_div (D : Date epoch) : epoch + D.monthIndex / 12 = D.year := by
  have := D.epoch_le
  have := D.isDate.1
  have := D.isDate.2.1
  unfold monthIndex
  omega

theorem monthIndex_mod (D : Date epoch) : D.monthIndex % 12 + 1 = D.month := by
  have := D.isDate.1
  have := D.isDate.2.1
  unfold monthIndex
  omega

/-- The length of the block is that of the month. -/
theorem monthBlock_monthIndex (D : Date epoch) :
    monthBlock epoch D.monthIndex = monthLength D.year D.month := by
  rw [monthBlock, monthIndex_div, monthIndex_mod]

/-- The day lies inside its month's block. -/
theorem day_sub_one_lt (D : Date epoch) : D.day - 1 < monthBlock epoch D.monthIndex := by
  have := D.isDate.2.2.1
  have := D.isDate.2.2.2
  rw [monthBlock_monthIndex]
  omega

/-- Two dates of the same month block with the same day are equal. -/
theorem ext_monthIndex {D D' : Date epoch} (hM : D.monthIndex = D'.monthIndex)
    (hd : D.day = D'.day) : D = D' := by
  have hy := D.monthIndex_div
  have hm := D.monthIndex_mod
  rw [hM, D'.monthIndex_div] at hy
  rw [hM, D'.monthIndex_mod] at hm
  exact Date.ext hy.symm hm.symm hd

/-- The date `N` days after the epoch. The day is located in its month block, and that the result is
a date comes from the offset being smaller than the block. -/
def ofDays (epoch N : ℕ) : Date epoch :=
  let p := Blocks.locate (monthBlock epoch) (N + 1) 0 N
  { year := epoch + p.1 / 12
    month := p.1 % 12 + 1
    day := p.2 + 1
    epoch_le := Nat.le_add_right _ _
    -- the offset is smaller than the block, and a block has at most the days of its month
    isDate := by
      have hlt : p.2 < monthBlock epoch p.1 :=
        Blocks.locate_lt_of_pos _ monthBlock_pos N
      rw [monthBlock] at hlt
      exact ⟨by omega, by omega, by omega, by omega⟩ }

theorem monthIndex_ofDays (N : ℕ) :
    (ofDays epoch N).monthIndex = (Blocks.locate (monthBlock epoch) (N + 1) 0 N).1 := by
  simp only [monthIndex, ofDays]
  omega

/-- Located and added up again, the day is the same. -/
@[simp] theorem toDays_ofDays (N : ℕ) : (ofDays epoch N).toDays = N := by
  rw [toDays, monthIndex_ofDays]
  exact Blocks.start_add_locate (monthBlock epoch) N

/-- A date is located in its own month, at its own day. -/
@[simp] theorem ofDays_toDays (D : Date epoch) : ofDays epoch D.toDays = D := by
  have hloc := Blocks.locate_start_add (monthBlock epoch) monthBlock_pos D.day_sub_one_lt
  have hday := D.isDate.2.2.1
  refine ext_monthIndex ?_ ?_
  · rw [monthIndex_ofDays, toDays, hloc]
  · show (Blocks.locate (monthBlock epoch) (D.toDays + 1) 0 D.toDays).2 + 1 = D.day
    rw [toDays, hloc]
    show D.day - 1 + 1 = D.day
    omega

variable (epoch) in
/-- **Dates and day numbers are the same thing.** -/
def equivDays : Date epoch ≃ ℕ where
  toFun := toDays
  invFun := ofDays epoch
  left_inv := ofDays_toDays
  right_inv := toDays_ofDays

theorem toDays_injective : Function.Injective (@toDays epoch) :=
  (equivDays epoch).injective

/-- A date of an earlier month has the smaller day number. -/
theorem toDays_lt_of_monthIndex_lt {D D' : Date epoch} (h : D.monthIndex < D'.monthIndex) :
    D.toDays < D'.toDays :=
  Blocks.lt_of_block_lt _ h D.day_sub_one_lt

/-- So the months of two dates are ordered as the dates are. -/
theorem monthIndex_le_of_toDays_le {D D' : Date epoch} (h : D.toDays ≤ D'.toDays) :
    D.monthIndex ≤ D'.monthIndex := by
  by_contra hlt
  have := toDays_lt_of_monthIndex_lt (Nat.lt_of_not_le hlt)
  omega

/-- An earlier date is earlier in its year, its month or its day. -/
theorem lex_of_toDays_lt {D D' : Date epoch} (h : D.toDays < D'.toDays) :
    D.year < D'.year ∨ D.year = D'.year ∧
      (D.month < D'.month ∨ D.month = D'.month ∧ D.day < D'.day) := by
  have hM := monthIndex_le_of_toDays_le h.le
  have hmonth := D.isDate
  have hmonth' := D'.isDate
  have hepoch := D.epoch_le
  have hepoch' := D'.epoch_le
  have hday : D.monthIndex = D'.monthIndex → D.day < D'.day := by
    intro heq
    rw [toDays, toDays, heq] at h
    omega
  unfold monthIndex at hM hday
  unfold IsDate at hmonth hmonth'
  omega

/-! ### Years as blocks of days -/

variable (epoch) in
/-- The number of days between the epoch and the first of January `y` years later. -/
def yearStart (y : ℕ) : ℕ := Blocks.start (monthBlock epoch) (12 * y)

/-- The number of days between the first of January and the first of month `m`, in a leap year or
in another one. -/
def daysBefore (leap : Bool) (m : ℕ) : ℕ := Blocks.start (fun i ↦ monthDays leap (i + 1)) (m - 1)

/-- The months of a year add up to the year. -/
theorem daysBefore_thirteen : ∀ leap, daysBefore leap 13 = if leap then 366 else 365 := by decide

/-- The first of a month of a following year, against the same of the year before it: what matters
is whether the month starts before the leap day. -/
theorem daysBefore_next_year : ∀ leap leap' : Bool, ∀ m < 13, 1 ≤ m →
    daysBefore leap 13 + daysBefore leap' m =
      daysBefore leap m + if (if m ≤ 2 then leap else leap') then 366 else 365 := by
  decide

/-- The number of days between the first of January of `y` and the first of month `m`. -/
def monthStart (y m : ℕ) : ℕ := daysBefore (IsLeap y) m

/-- The months of a year add up to the year. -/
theorem monthStart_thirteen (y : ℕ) : monthStart y 13 = yearLength y := by
  simp [monthStart, daysBefore_thirteen, yearLength]

theorem monthStart_mono (y : ℕ) {m m' : ℕ} (h : m ≤ m') : monthStart y m ≤ monthStart y m' :=
  Blocks.start_le_of_le _ (by omega)

/-- The first of a month, by month block and by year and month. -/
theorem start_monthBlock {y m : ℕ} (hm : m ≤ 13) :
    Blocks.start (monthBlock epoch) (12 * y + (m - 1)) =
      yearStart epoch y + monthStart (epoch + y) m := by
  rw [Blocks.start_add, yearStart, monthStart, daysBefore]
  congr 1
  refine Finset.sum_congr rfl fun i hi ↦ ?_
  have := Finset.mem_range.1 hi
  exact monthBlock_year_add (by omega)

/-- A year starts when the one before it is over. -/
theorem yearStart_succ (y : ℕ) :
    yearStart epoch (y + 1) = yearStart epoch y + yearLength (epoch + y) := by
  have h := @start_monthBlock epoch y 13 le_rfl
  rw [monthStart_thirteen] at h
  exact h

@[simp] theorem yearStart_zero : yearStart epoch 0 = 0 := rfl

/-- The years from the epoch on are blocks of days, too. -/
theorem yearStart_eq_start (y : ℕ) :
    yearStart epoch y = Blocks.start (fun i ↦ yearLength (epoch + i)) y := by
  induction y with
  | zero => rfl
  | succ y ih => rw [yearStart_succ, Blocks.start_succ, ih]

theorem yearStart_mono {y y' : ℕ} (h : y ≤ y') : yearStart epoch y ≤ yearStart epoch y' :=
  Blocks.start_le_of_le _ (by omega)

/-- The day number by year, month and day. -/
theorem toDays_eq (D : Date epoch) :
    D.toDays = yearStart epoch (D.year - epoch) + monthStart D.year D.month + (D.day - 1) := by
  have hm := D.isDate.2.1
  have hy : epoch + (D.year - epoch) = D.year := by
    have := D.epoch_le
    omega
  rw [toDays, monthIndex, start_monthBlock (by omega), hy]

theorem yearStart_le_toDays (D : Date epoch) : yearStart epoch (D.year - epoch) ≤ D.toDays := by
  rw [toDays_eq]
  omega

theorem toDays_lt_yearStart_succ (D : Date epoch) :
    D.toDays < yearStart epoch (D.year - epoch + 1) := by
  have hm := D.isDate.2.1
  have hlt : D.monthIndex < 12 * (D.year - epoch + 1) := by
    unfold monthIndex
    omega
  exact @Blocks.lt_of_block_lt _ _ _ _ 0 hlt D.day_sub_one_lt

/-! ### The same day of another year -/

/-- Whether a leap day lies between the first of the month `m` of year `y` and the first of the
same month of the next year. -/
def LeapDayWithin (y m : ℕ) : Prop := if m ≤ 2 then IsLeap y else IsLeap (y + 1)

instance (y m : ℕ) : Decidable (LeapDayWithin y m) :=
  inferInstanceAs (Decidable (if m ≤ 2 then IsLeap y else IsLeap (y + 1)))

/-- The first of a month of the next year, against the same of this year. -/
theorem monthStart_succ_year {y m : ℕ} (hm : 1 ≤ m) (hm' : m ≤ 12) :
    yearLength y + monthStart (y + 1) m =
      monthStart y m + if LeapDayWithin y m then 366 else 365 := by
  have h := daysBefore_next_year (IsLeap y) (IsLeap (y + 1)) m (by omega) hm
  rw [← monthStart_thirteen]
  simp only [monthStart, LeapDayWithin]
  rw [h]
  split <;> simp

/-- **The same month and day of two consecutive years** are 366 days apart when a leap day lies
between them and 365 days apart otherwise. -/
theorem toDays_succ_year {D D' : Date epoch} (hy : D'.year = D.year + 1)
    (hm : D'.month = D.month) (hd : D'.day = D.day) :
    D'.toDays = D.toDays + if LeapDayWithin D.year D.month then 366 else 365 := by
  have h := monthStart_succ_year (y := D.year) D.isDate.1 D.isDate.2.1
  have hys : D'.year - epoch = D.year - epoch + 1 := by
    have := D.epoch_le
    omega
  have hye : epoch + (D.year - epoch) = D.year := by
    have := D.epoch_le
    omega
  rw [toDays_eq, toDays_eq, hys, yearStart_succ, hye, hm, hd, hy]
  omega

/-! ### The same day of another month -/

/-- **Two days with the same day of the month are at least 28 days apart.** -/
theorem add_twentyEight_le_of_day_eq {D D' : Date epoch} (hd : D.day = D'.day)
    (h : D.toDays < D'.toDays) : D.toDays + 28 ≤ D'.toDays := by
  have hM : D.monthIndex < D'.monthIndex := by
    refine lt_of_le_of_ne (monthIndex_le_of_toDays_le h.le) fun hM ↦ ?_
    rw [ext_monthIndex hM hd] at h
    omega
  have hstart := Blocks.start_le_of_le (monthBlock epoch) (show D.monthIndex + 1 ≤ _ from hM)
  have hlen := @twentyEight_le_monthBlock epoch D.monthIndex
  rw [Blocks.start_succ] at hstart
  rw [toDays, toDays, hd]
  omega

/-- How many days before the date the last day with the same day of the month lies: one month, or
two where the month before is too short to have that day. -/
def sameDayGap (D : Date epoch) : ℕ :=
  if D.day ≤ monthBlock epoch (D.monthIndex - 1) then monthBlock epoch (D.monthIndex - 1)
  else monthBlock epoch (D.monthIndex - 1) + monthBlock epoch (D.monthIndex - 2)

theorem twentyEight_le_sameDayGap (D : Date epoch) : 28 ≤ D.sameDayGap := by
  have := @twentyEight_le_monthBlock epoch (D.monthIndex - 1)
  unfold sameDayGap
  split <;> omega

/-- The date with the day of `D` in an earlier month block that is long enough. -/
theorem exists_day_eq_of_monthIndex (D : Date epoch) {M : ℕ}
    (hM : D.day ≤ monthBlock epoch M) :
    ∃ D' : Date epoch, D'.day = D.day ∧ D'.monthIndex = M := by
  have hd := D.isDate.2.2.1
  rw [monthBlock] at hM
  refine ⟨⟨epoch + M / 12, M % 12 + 1, D.day, Nat.le_add_right _ _,
    by omega, by omega, hd, hM⟩, rfl, ?_⟩
  simp only [monthIndex]
  omega

/-- **The gap is attained**: `sameDayGap` days before the date is a date with the same day. From the
third month on there are two months before it, as the gap may need. -/
theorem exists_sameDayGap (D : Date epoch) (hM : 2 ≤ D.monthIndex) :
    ∃ D' : Date epoch, D'.day = D.day ∧ D'.toDays + D.sameDayGap = D.toDays := by
  have h1 := Blocks.start_succ (monthBlock epoch) (D.monthIndex - 1)
  have h2 := Blocks.start_succ (monthBlock epoch) (D.monthIndex - 2)
  rw [show D.monthIndex - 1 + 1 = D.monthIndex by omega] at h1
  rw [show D.monthIndex - 2 + 1 = D.monthIndex - 1 by omega] at h2
  unfold sameDayGap
  split
  · next hle =>
    obtain ⟨D', hd, hM'⟩ := D.exists_day_eq_of_monthIndex hle
    refine ⟨D', hd, ?_⟩
    rw [toDays, toDays, hM', hd]
    omega
  · next hgt =>
    -- the month before is too short, so the one before that has 31 days
    have hday : D.day ≤ 31 := D.isDate.2.2.2.trans (monthLength_le _ _)
    have hprev := @monthBlock_pred_of_lt epoch (D.monthIndex - 1) (by omega) (by omega)
    rw [show D.monthIndex - 1 - 1 = D.monthIndex - 2 by omega] at hprev
    obtain ⟨D', hd, hM'⟩ := D.exists_day_eq_of_monthIndex (M := D.monthIndex - 2) (by omega)
    refine ⟨D', hd, ?_⟩
    rw [toDays, toDays, hM', hd]
    omega

/-- After every day there is one with the day of the month of a given date, within three months: in
the next month, or if that is too short, in the one after it. -/
theorem exists_day_after (D : Date epoch) (N : ℕ) :
    ∃ D' : Date epoch, D'.day = D.day ∧ N < D'.toDays ∧ D'.toDays ≤ N + 92 := by
  have hN := @toDays_ofDays epoch N
  rw [toDays] at hN
  have hday := (ofDays epoch N).isDate.2.2
  have hlength := (ofDays epoch N).monthBlock_monthIndex
  generalize (ofDays epoch N).monthIndex = M at *
  have hd : D.day ≤ 31 := D.isDate.2.2.2.trans (monthLength_le _ _)
  have h1 := Blocks.start_succ (monthBlock epoch) M
  have h2 : Blocks.start (monthBlock epoch) (M + 2) = _ :=
    Blocks.start_succ (monthBlock epoch) (M + 1)
  have hM : monthBlock epoch M ≤ 31 := monthLength_le _ _
  have hM1 : monthBlock epoch (M + 1) ≤ 31 := monthLength_le _ _
  have hpos := D.isDate.2.2.1
  by_cases hle : D.day ≤ monthBlock epoch (M + 1)
  · obtain ⟨D', hd', hM'⟩ := D.exists_day_eq_of_monthIndex hle
    refine ⟨D', hd', ?_⟩
    rw [toDays, hM', hd']
    omega
  · -- the next month is too short, so the one after it has 31 days
    have hlong : monthBlock epoch (M + 2) = 31 := by
      by_contra hne
      have hlt : monthBlock epoch (M + 2) < 31 :=
        lt_of_le_of_ne (monthLength_le _ _) hne
      have := @monthBlock_pred_of_lt epoch (M + 2) (by omega) hlt
      rw [show M + 2 - 1 = M + 1 by omega] at this
      omega
    obtain ⟨D', hd', hM'⟩ := D.exists_day_eq_of_monthIndex (M := M + 2) (by omega)
    refine ⟨D', hd', ?_⟩
    rw [toDays, hM', hd']
    omega

/-- **And it is the least**: no later day before the date has the same day of the month. -/
theorem add_sameDayGap_le {D D' : Date epoch} (hd : D'.day = D.day)
    (h : D'.toDays < D.toDays) : D'.toDays + D.sameDayGap ≤ D.toDays := by
  have hM : D'.monthIndex < D.monthIndex := by
    refine lt_of_le_of_ne (monthIndex_le_of_toDays_le h.le) fun hM ↦ ?_
    rw [ext_monthIndex hM hd] at h
    omega
  have h1 := Blocks.start_succ (monthBlock epoch) (D.monthIndex - 1)
  rw [show D.monthIndex - 1 + 1 = D.monthIndex by omega] at h1
  have hle := Blocks.start_le_of_le (monthBlock epoch) (show D'.monthIndex ≤ D.monthIndex - 1 by
    omega)
  rw [toDays, toDays, hd]
  unfold sameDayGap
  split
  · omega
  · next hgt =>
    -- `D'` cannot lie in the month before, which is too short for its day
    have hne : D'.monthIndex ≠ D.monthIndex - 1 := by
      intro heq
      have := D'.isDate.2.2.2
      rw [← D'.monthBlock_monthIndex, heq, hd] at this
      exact hgt this
    have h2 := Blocks.start_succ (monthBlock epoch) (D.monthIndex - 2)
    rw [show D.monthIndex - 2 + 1 = D.monthIndex - 1 by omega] at h2
    have hle' := Blocks.start_le_of_le (monthBlock epoch)
      (show D'.monthIndex ≤ D.monthIndex - 2 by omega)
    omega

end Date

end Gregorian
