import Mathlib.Algebra.BigOperators.Intervals
import Mathlib.Order.Monotone.Basic
import Mathlib.Order.Bounds.Basic

/-!
# Consecutive blocks of naturals

A sequence of positive lengths `ℓ 0, ℓ 1, …` cuts the naturals into consecutive blocks: block `n`
holds the `ℓ n` numbers from `start ℓ n` on. Months and years of a calendar are such blocks of days.

A number lies in one block only (`block_unique`), and `locate` finds it the way a conversion loop
does: subtract the length of the current block while the remainder is not smaller than it.
`locate_start_add` and `start_add_locate` say that `locate` and "start plus offset" are inverse to
each other, which is all a calendar needs.

A recurring instant (a time of the day, a day of the year) is a sequence with one element in every
block; `next` steps from any number to the next element of such a sequence (`isLeast_next`).

The lengths are any function, and what is proved asks of them only what it needs: that they are
positive for `locate` to stop inside a block, a lower bound for a lower bound on the starts, and
nothing at all for blocks to be disjoint. `next` needs no more of a sequence than that its elements
lie in their blocks; which of the two candidates it takes is one comparison, as in a program that
adds a day, or a year, to a time that has gone by.
-/

namespace Blocks

variable (ℓ : ℕ → ℕ)

/-- The first number of block `n`: the total length of the blocks before it. Block `n` ends where
block `n + 1` starts. -/
def start (n : ℕ) : ℕ := ∑ i ∈ Finset.range n, ℓ i

@[simp] theorem start_zero : start ℓ 0 = 0 := rfl

theorem start_succ (n : ℕ) : start ℓ (n + 1) = start ℓ n + ℓ n :=
  Finset.sum_range_succ ℓ n

theorem start_mono : Monotone (start ℓ) :=
  monotone_nat_of_le_succ fun n ↦ by rw [start_succ]; exact Nat.le_add_right _ _

/-- A number at or after the end of block `n` is at or after the start of every block up to
`n + 1`. -/
theorem start_le_of_le {m n : ℕ} (h : m ≤ n) : start ℓ m ≤ start ℓ n :=
  start_mono ℓ h

/-- Adding up from a later block: the blocks from `m` on are a block sequence of their own. -/
theorem start_add (m n : ℕ) : start ℓ (m + n) = start ℓ m + start (fun i ↦ ℓ (m + i)) n := by
  induction n with
  | zero => rfl
  | succ n ih => rw [← Nat.add_assoc, start_succ, start_succ, ih, Nat.add_assoc]

/-- Lengths bounded below bound the starts below. -/
theorem mul_le_start {c : ℕ} (hc : ∀ i, c ≤ ℓ i) (n : ℕ) : c * n ≤ start ℓ n := by
  induction n with
  | zero => simp
  | succ n ih =>
    have := hc n
    rw [start_succ, Nat.mul_succ]
    omega

/-- **A number lies in at most one block.** -/
theorem block_unique {m n N : ℕ} (hm : start ℓ m ≤ N) (hm' : N < start ℓ (m + 1))
    (hn : start ℓ n ≤ N) (hn' : N < start ℓ (n + 1)) : m = n := by
  rcases Nat.lt_trichotomy m n with h | h | h
  · have := start_le_of_le ℓ (show m + 1 ≤ n from h)
    omega
  · exact h
  · have := start_le_of_le ℓ (show n + 1 ≤ m from h)
    omega

/-- A number of an earlier block is smaller than a number of a later one. -/
theorem lt_of_block_lt {m n r r' : ℕ} (h : m < n) (hr : r < ℓ m) :
    start ℓ m + r < start ℓ n + r' := by
  have := start_le_of_le ℓ (show m + 1 ≤ n from h)
  rw [start_succ] at this
  omega

/-! ### One number in every block -/

/-- The next element after `t` of a sequence with one element in every block, when `t` lies in
block `n`: the element of that block if it is still ahead, and of the next block otherwise. -/
def next (f : ℕ → ℕ) (n t : ℕ) : ℕ := if t < f n then f n else f (n + 1)

/-- **Next means next**: no element of the sequence lies between `t` and `next f n t`. -/
theorem isLeast_next {f : ℕ → ℕ} (hf : ∀ n, start ℓ n ≤ f n ∧ f n < start ℓ (n + 1)) {n t : ℕ}
    (ht : start ℓ n ≤ t) (ht' : t < start ℓ (n + 1)) :
    IsLeast {x | t < x ∧ x ∈ Set.range f} (next f n t) := by
  have hnext := (hf (n + 1)).1
  refine ⟨⟨?_, ?_⟩, ?_⟩
  · unfold next
    split <;> omega
  · unfold next
    split
    · exact ⟨n, rfl⟩
    · exact ⟨n + 1, rfl⟩
  · rintro _ ⟨htx, m, rfl⟩
    -- an element ahead of `t` lies in block `n` or a later one
    have hm : n ≤ m := by
      by_contra hlt
      have := start_le_of_le ℓ (show m + 1 ≤ n by omega)
      have := (hf m).2
      omega
    unfold next
    rcases Nat.eq_or_lt_of_le hm with rfl | hlt
    · rw [if_pos htx]
    · have hstart := start_le_of_le ℓ (show n + 1 ≤ m from hlt)
      have hfm := (hf m).1
      split
      · have := (hf n).2
        omega
      · rcases Nat.eq_or_lt_of_le (show n + 1 ≤ m from hlt) with rfl | hlt'
        · exact le_rfl
        · have := start_le_of_le ℓ (show n + 1 + 1 ≤ m from hlt')
          have := (hf (n + 1)).2
          omega

/-! ### Locating a number -/

/-- Walk over the blocks from block `n` on, subtracting lengths, until the remainder `r` fits into
the current block. `fuel` bounds the number of blocks walked over. -/
def locate : (fuel n r : ℕ) → ℕ × ℕ
  | 0, n, r => (n, r)
  | fuel + 1, n, r => if r < ℓ n then (n, r) else locate fuel (n + 1) (r - ℓ n)

/-- Walking keeps the number that block and remainder stand for. -/
theorem start_locate (fuel n r : ℕ) :
    start ℓ (locate ℓ fuel n r).1 + (locate ℓ fuel n r).2 = start ℓ n + r := by
  induction fuel generalizing n r with
  | zero => rfl
  | succ fuel ih =>
    rw [locate]
    split
    · rfl
    · rw [ih, start_succ]
      omega

/-- Fuel for all the blocks up to the number is enough for the walk to stop inside a block. -/
theorem locate_lt {fuel n r : ℕ} (h : start ℓ n + r < start ℓ (n + fuel)) :
    (locate ℓ fuel n r).2 < ℓ (locate ℓ fuel n r).1 := by
  induction fuel generalizing n r with
  | zero => simp at h
  | succ fuel ih =>
    rw [locate]
    split
    · assumption
    · refine ih ?_
      rw [start_succ, Nat.add_right_comm n 1 fuel]
      rw [← Nat.add_assoc] at h
      omega

/-- With positive lengths, fuel above the number is always enough. -/
theorem locate_lt_of_pos (hpos : ∀ i, 0 < ℓ i) (N : ℕ) :
    (locate ℓ (N + 1) 0 N).2 < ℓ (locate ℓ (N + 1) 0 N).1 := by
  have := mul_le_start ℓ (c := 1) hpos (N + 1)
  refine locate_lt ℓ ?_
  rw [start_zero, Nat.zero_add, Nat.zero_add]
  omega

/-- The walk from block `0` recovers the number it started from. -/
theorem start_add_locate (N : ℕ) :
    start ℓ (locate ℓ (N + 1) 0 N).1 + (locate ℓ (N + 1) 0 N).2 = N := by
  rw [start_locate, start_zero, Nat.zero_add]

/-- The walk finds block and offset of a number given by them. -/
theorem locate_start_add (hpos : ∀ i, 0 < ℓ i) {n r : ℕ} (hr : r < ℓ n) :
    locate ℓ (start ℓ n + r + 1) 0 (start ℓ n + r) = (n, r) := by
  set N := start ℓ n + r with hN
  have hsum := start_add_locate ℓ N
  have hlt := locate_lt_of_pos ℓ hpos N
  have hblock : (locate ℓ (N + 1) 0 N).1 = n :=
    block_unique ℓ (N := N) (by omega) (by rw [start_succ]; omega) (by omega)
      (by rw [start_succ]; omega)
  rw [hblock] at hsum
  exact Prod.ext hblock (show (locate ℓ (N + 1) 0 N).2 = r by omega)

end Blocks
