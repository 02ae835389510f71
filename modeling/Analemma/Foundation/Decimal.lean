import Mathlib.Algebra.BigOperators.Intervals
import Mathlib.Data.Char
import Mathlib.Data.List.Basic
import Mathlib.Data.List.Lex
import Mathlib.Order.Basic

/-!
# Decimals of a fixed width

What `printf` makes of a natural number with a width and leading zeros. Up to the greatest number of
that width all texts are equally long, and they are ordered as texts, character by character, as the
numbers are (`padded_lt_iff`). So texts that are put together from such decimals are ordered as the
tuples of their numbers, one after the other (`append_lt_append_iff`).

Without leading zeros a number is still told by its text (`intText_inj`).

The texts are lists of characters with the order of lists, which is that of `strcmp` on texts of
digits. The digits themselves are those of `Nat.toDigits`, so that their values are known from
there; what is added here is the width, the order, and how texts of known length are taken apart
after they have been put together.

A number that is too large for the width is not cut, as `printf` does not cut it. `padded_lt_iff`
therefore asks for numbers that fit.
-/

namespace Decimal

/-! ### Texts one after the other -/

section Append

variable {α : Type*} [LinearOrder α]

/-- Two texts with beginnings of the same length are compared by their beginnings first. -/
theorem append_lt_append_iff {a a' b b' : List α} (h : a.length = a'.length) :
    a ++ b < a' ++ b' ↔ a < a' ∨ a = a' ∧ b < b' := by
  induction a generalizing a' with
  | nil =>
    obtain rfl : a' = [] := List.eq_nil_of_length_eq_zero h.symm
    simp
  | cons x a ih =>
    obtain ⟨y, a', rfl⟩ := List.exists_cons_of_length_eq_add_one h.symm
    rw [List.cons_append, List.cons_append, List.cons_lt_cons_iff, List.cons_lt_cons_iff,
      ih (Nat.succ.inj h), List.cons_eq_cons]
    tauto

end Append

/-- Two texts up to a separator that does not occur in them: the parts before and behind it can be
told. -/
theorem append_cons_inj {α : Type*} {sep : α} {a a' b b' : List α} (h : sep ∉ a) (h' : sep ∉ a')
    (heq : a ++ sep :: b = a' ++ sep :: b') : a = a' ∧ b = b' := by
  induction a generalizing a' with
  | nil =>
    cases a' with
    | nil => exact ⟨rfl, (List.cons.inj heq).2⟩
    | cons y a' => exact absurd ((List.cons.inj heq).1 ▸ List.mem_cons_self) h'
  | cons x a ih =>
    cases a' with
    | nil => exact absurd ((List.cons.inj heq).1 ▸ List.mem_cons_self) h
    | cons y a' =>
      obtain ⟨rfl, hrest⟩ := List.cons.inj heq
      obtain ⟨rfl, hb⟩ :=
        ih (List.not_mem_of_not_mem_cons h) (List.not_mem_of_not_mem_cons h') hrest
      exact ⟨rfl, hb⟩

/-! ### Digits -/

/-- All characters are digits. -/
def Digits (l : List Char) : Prop := ∀ c ∈ l, c.isDigit = true

/-- The number that digits denote, in base ten. -/
def value (l : List Char) : ℕ := Nat.ofDigitChars 10 l 0

theorem value_cons (c : Char) (l : List Char) :
    value (c :: l) = 10 ^ l.length * (c.toNat - '0'.toNat) + value l := by
  rw [value, Nat.ofDigitChars_cons, Nat.ofDigitChars_eq_ofDigitChars_zero, Nat.mul_zero,
    Nat.zero_add]
  rfl

theorem toNat_of_isDigit {c : Char} (h : c.isDigit = true) : 48 ≤ c.toNat ∧ c.toNat ≤ 57 := by
  rw [Char.isDigit, Bool.and_eq_true, decide_eq_true_iff, decide_eq_true_iff] at h
  exact h

/-- So many digits denote a number below that power of ten. -/
theorem value_lt {l : List Char} (h : Digits l) : value l < 10 ^ l.length := by
  induction l with
  | nil => exact Nat.one_pos
  | cons c l ih =>
    obtain ⟨-, hc⟩ := toNat_of_isDigit (h c List.mem_cons_self)
    have hl := ih fun c' hmem ↦ h c' (List.mem_cons_of_mem c hmem)
    have hdigit : c.toNat - '0'.toNat ≤ 9 := by
      show c.toNat - 48 ≤ 9
      omega
    have hle := Nat.mul_le_mul_left (10 ^ l.length) hdigit
    rw [value_cons, List.length_cons, Nat.pow_succ]
    omega

theorem mul_add_lt {b v : ℕ} (hv : v < b) {a a' : ℕ} (h : a < a') (v' : ℕ) :
    b * a + v < b * a' + v' := by
  have hle := Nat.mul_le_mul_left b (Nat.succ_le_of_lt h)
  rw [Nat.mul_succ] at hle
  omega

/-- **Digits are ordered as the numbers they denote**, where they are equally many. By induction on
the two lists: the first difference decides on both sides. -/
theorem lt_iff_value_lt {l l' : List Char} (h : Digits l) (h' : Digits l')
    (hlen : l.length = l'.length) : l < l' ↔ value l < value l' := by
  induction l generalizing l' with
  | nil =>
    obtain rfl : l' = [] := List.eq_nil_of_length_eq_zero hlen.symm
    simp
  | cons c l ih =>
    obtain ⟨c', l', rfl⟩ := List.exists_cons_of_length_eq_add_one hlen.symm
    have hlen : l.length = l'.length := Nat.succ.inj hlen
    have hl : Digits l := fun d hmem ↦ h d (List.mem_cons_of_mem c hmem)
    have hl' : Digits l' := fun d hmem ↦ h' d (List.mem_cons_of_mem c' hmem)
    obtain ⟨hc, -⟩ := toNat_of_isDigit (h c List.mem_cons_self)
    obtain ⟨hc', -⟩ := toNat_of_isDigit (h' c' List.mem_cons_self)
    have hlt := value_lt hl
    have hlt' := value_lt hl'
    rw [List.cons_lt_cons_iff, ih hl hl' hlen, value_cons, value_cons, ← hlen]
    rw [← hlen] at hlt'
    show c.toNat < c'.toNat ∨ c = c' ∧ value l < value l' ↔
      10 ^ l.length * (c.toNat - 48) + value l < 10 ^ l.length * (c'.toNat - 48) + value l'
    -- The first digit decides unless it is the same, and then the rest does.
    rcases Nat.lt_trichotomy c.toNat c'.toNat with hfirst | hfirst | hfirst
    · exact iff_of_true (.inl hfirst) (mul_add_lt hlt (by omega) _)
    · obtain rfl : c = c' := Char.toNat_inj.1 hfirst
      simp
    · have hne : c ≠ c' := fun heq ↦ by
        rw [heq] at hfirst
        exact absurd hfirst (Nat.lt_irrefl _)
      refine iff_of_false (fun hor ↦ ?_) (mul_add_lt hlt' (by omega) _).le.not_gt
      exact hor.elim (fun hless ↦ absurd hless hfirst.le.not_gt) fun heq ↦ hne heq.1

/-! ### Decimals with leading zeros -/

/-- A number, with leading zeros up to the width: `%04d` and the like. -/
def padded (width n : ℕ) : List Char :=
  List.replicate (width - (Nat.toDigits 10 n).length) '0' ++ Nat.toDigits 10 n

theorem digits_padded (width n : ℕ) : Digits (padded width n) := by
  intro c hmem
  rcases List.mem_append.1 hmem with hzero | hdigit
  · rw [List.eq_of_mem_replicate hzero]
    rfl
  · exact Nat.isDigit_of_mem_toDigits (by decide) (by decide) hdigit

@[simp] theorem value_padded (width n : ℕ) : value (padded width n) = n := by
  rw [value, padded, Nat.ofDigitChars_append, Nat.ofDigitChars_replicate_zero, Nat.mul_zero,
    Nat.ofDigitChars_ten_toDigits]

theorem length_padded {width n : ℕ} (hwidth : 0 < width) (h : n < 10 ^ width) :
    (padded width n).length = width := by
  have hle := (Nat.length_toDigits_le_iff (by decide) hwidth).2 h
  rw [padded, List.length_append, List.length_replicate]
  omega

/-- **The decimals of one width are ordered as their numbers.** -/
theorem padded_lt_iff {width m n : ℕ} (hwidth : 0 < width) (hm : m < 10 ^ width)
    (hn : n < 10 ^ width) : padded width m < padded width n ↔ m < n := by
  have hlen : (padded width m).length = (padded width n).length := by
    rw [length_padded hwidth hm, length_padded hwidth hn]
  rw [lt_iff_value_lt (digits_padded width m) (digits_padded width n) hlen, value_padded,
    value_padded]

/-- Different numbers have different decimals, whether they fit or not. -/
theorem padded_inj {width m n : ℕ} : padded width m = padded width n ↔ m = n :=
  ⟨fun h ↦ by rw [← value_padded width m, h, value_padded], fun h ↦ by rw [h]⟩

/-- Decimals of one width before other texts. -/
theorem padded_append_inj {width m n : ℕ} (hwidth : 0 < width) (hm : m < 10 ^ width)
    (hn : n < 10 ^ width) {l l' : List Char} (h : padded width m ++ l = padded width n ++ l') :
    m = n ∧ l = l' := by
  obtain ⟨hpadded, hrest⟩ := List.append_inj h
    (by rw [length_padded hwidth hm, length_padded hwidth hn])
  exact ⟨padded_inj.1 hpadded, hrest⟩

/-! ### Decimals without leading zeros -/

theorem le_length_toDigits {width n : ℕ} (hwidth : 1 < width) (h : 10 ^ (width - 1) ≤ n) :
    width ≤ (Nat.toDigits 10 n).length := by
  by_contra hshort
  have hlt := (Nat.length_toDigits_le_iff (by decide) (by omega)).1
    (show (Nat.toDigits 10 n).length ≤ width - 1 by omega)
  omega

/-- A number that fills the width is not padded. -/
theorem padded_of_le {width n : ℕ} (hwidth : 1 < width) (h : 10 ^ (width - 1) ≤ n) :
    padded width n = Nat.toDigits 10 n := by
  rw [padded, Nat.sub_eq_zero_of_le (le_length_toDigits hwidth h), List.replicate_zero,
    List.nil_append]

/-- A number, with blanks up to the width: `%4d` and the like. -/
def spaced (width n : ℕ) : List Char :=
  List.replicate (width - (Nat.toDigits 10 n).length) ' ' ++ Nat.toDigits 10 n

/-- Where the width is filled, blanks and zeros make no difference. -/
theorem spaced_eq_padded {width n : ℕ} (hwidth : 1 < width) (h : 10 ^ (width - 1) ≤ n) :
    spaced width n = padded width n := by
  rw [padded_of_le hwidth h, spaced, Nat.sub_eq_zero_of_le (le_length_toDigits hwidth h),
    List.replicate_zero, List.nil_append]

/-- A number with its sign: `%d`. -/
def intText (n : ℤ) : List Char :=
  if n < 0 then '-' :: Nat.toDigits 10 n.natAbs else Nat.toDigits 10 n.natAbs

/-- A number with its sign has no blank in it. -/
theorem blank_notMem_intText (n : ℤ) : ' ' ∉ intText n := by
  have hdigits : ' ' ∉ Nat.toDigits 10 n.natAbs := fun hmem ↦
    absurd (Nat.isDigit_of_mem_toDigits (by decide) (by decide) hmem) (by decide)
  unfold intText
  split
  · exact List.not_mem_cons_of_ne_of_not_mem (by decide) hdigits
  · exact hdigits

theorem toDigits_inj {m n : ℕ} (h : Nat.toDigits 10 m = Nat.toDigits 10 n) : m = n := by
  have hvalue := congrArg (Nat.ofDigitChars 10 · 0) h
  simpa only [Nat.ofDigitChars_ten_toDigits] using hvalue

theorem minus_notMem_toDigits (n : ℕ) : '-' ∉ Nat.toDigits 10 n := fun hmem ↦
  absurd (Nat.isDigit_of_mem_toDigits (by decide) (by decide) hmem) (by decide)

/-- **A number is told by its text**, with its sign and without leading zeros. -/
theorem intText_inj {m n : ℤ} (h : intText m = intText n) : m = n := by
  unfold intText at h
  split at h <;> split at h
  · have := toDigits_inj (List.cons.inj h).2
    omega
  · exact absurd (h ▸ List.mem_cons_self) (minus_notMem_toDigits n.natAbs)
  · exact absurd (h ▸ List.mem_cons_self) (minus_notMem_toDigits m.natAbs)
  · have := toDigits_inj h
    omega

end Decimal
