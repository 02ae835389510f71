import Mathlib.Order.Defs.LinearOrder
import Mathlib.Order.Bounds.Basic
import Mathlib.Data.Set.Insert

/-!
# Keeping the least of the values seen

The selection loop that keeps the best value seen so far and replaces it only by a value with a
**strictly** smaller key. Whatever the order of the values, the key it ends with is the least one
(`isLeast_key_choose`); among values with the same least key it keeps the first one, so the value
itself does not depend on the order exactly when all the best ones are equal
(`forall_perm_choose_eq_iff`).

Keys are of any linear order, and values of any type; two values may have the same key. The loop is
a fold over the values, which is what the lemmas are proved by; the statements speak of the set of
values, of a list with a marked element, or of permutations, as a caller does who does not care how
the values were collected. `Best` is stated over items with a value each, since a caller often has
the items and lets the loop compute their values.
-/

namespace LeastChoice

variable {α β : Type*} [LinearOrder β] (key : α → β)

/-- Keep the better of two values; the old one stays unless the new one is strictly better. -/
def better (best x : α) : α := if key x < key best then x else best

/-- The best value seen, starting from `init`. -/
def choose (init : α) (xs : List α) : α := xs.foldl (better key) init

@[simp] theorem choose_nil (init : α) : choose key init [] = init := rfl

theorem choose_cons (init x : α) (xs : List α) :
    choose key init (x :: xs) = choose key (better key init x) xs := rfl

theorem key_better (best x : α) : key (better key best x) = min (key best) (key x) := by
  unfold better
  split
  · next h => rw [min_eq_right h.le]
  · next h => rw [min_eq_left (not_lt.1 h)]

/-- The choice is the initial value or one of the values seen. -/
theorem choose_mem (init : α) (xs : List α) :
    choose key init xs = init ∨ choose key init xs ∈ xs := by
  induction xs generalizing init with
  | nil => exact Or.inl rfl
  | cons x xs ih =>
    rw [choose_cons]
    rcases ih (better key init x) with h | h
    · rw [h]
      unfold better
      split
      · exact Or.inr List.mem_cons_self
      · exact Or.inl rfl
    · exact Or.inr (List.mem_cons_of_mem x h)

/-- The choice is not worse than what it started from. -/
theorem key_choose_le_init (init : α) (xs : List α) : key (choose key init xs) ≤ key init := by
  induction xs generalizing init with
  | nil => exact le_rfl
  | cons x xs ih =>
    rw [choose_cons]
    exact (ih _).trans (by rw [key_better key]; exact min_le_left _ _)

theorem key_choose_le_of_mem {init x : α} {xs : List α} (h : x ∈ xs) :
    key (choose key init xs) ≤ key x := by
  induction xs generalizing init with
  | nil => exact absurd h (List.not_mem_nil)
  | cons y xs ih =>
    rw [choose_cons]
    rcases List.mem_cons.1 h with rfl | h
    · exact (key_choose_le_init key _ xs).trans (by rw [key_better key]; exact min_le_right _ _)
    · exact ih h

/-- **The choice has the least key.** -/
theorem isLeast_key_choose (init : α) (xs : List α) :
    IsLeast (key '' {x | x = init ∨ x ∈ xs}) (key (choose key init xs)) := by
  refine ⟨⟨_, choose_mem key init xs, rfl⟩, ?_⟩
  rintro _ ⟨x, rfl | h, rfl⟩
  · exact key_choose_le_init key _ xs
  · exact key_choose_le_of_mem key h

/-- When some value beats the initial one, the choice is one of the values. -/
theorem choose_mem_of_lt {init x : α} {xs : List α} (h : x ∈ xs) (hlt : key x < key init) :
    choose key init xs ∈ xs := by
  rcases choose_mem key init xs with heq | hmem
  · exact absurd (key_choose_le_of_mem key h) (by rw [heq]; exact not_le.2 hlt)
  · exact hmem

/-- When no value beats the initial one, it stays. -/
theorem choose_eq_init {init : α} {xs : List α} (h : ∀ y ∈ xs, key init ≤ key y) :
    choose key init xs = init := by
  induction xs with
  | nil => rfl
  | cons y xs ih =>
    rw [choose_cons, better, if_neg (not_lt.2 (h y List.mem_cons_self))]
    exact ih fun z hz ↦ h z (List.mem_cons_of_mem y hz)

/-! ### The order of the values -/

/-- A value that comes first, beats the initial one and is beaten by none, is the choice. -/
theorem choose_cons_of_le {init x : α} {xs : List α} (hlt : key x < key init)
    (hle : ∀ y ∈ xs, key x ≤ key y) : choose key init (x :: xs) = x := by
  rw [choose_cons, better, if_pos hlt]
  exact choose_eq_init key hle

/-- **Of the best values the first one is kept**: a value that beats the initial one and all the
values before it, and is beaten by none after it, is the choice. -/
theorem choose_append_cons {init x : α} {before after : List α} (hinit : key x < key init)
    (hbefore : ∀ y ∈ before, key x < key y) (hafter : ∀ y ∈ after, key x ≤ key y) :
    choose key init (before ++ x :: after) = x := by
  have hsplit : choose key init (before ++ x :: after) =
      choose key (choose key init before) (x :: after) := List.foldl_append
  -- whatever has been kept when the value comes, it is better
  have hlt : key x < key (choose key init before) := by
    rcases choose_mem key init before with heq | hmem
    · rwa [heq]
    · exact hbefore _ hmem
  rw [hsplit]
  exact choose_cons_of_le key hlt hafter

/-- **The least key does not depend on the order.** -/
theorem key_choose_perm (init : α) {xs ys : List α} (h : xs.Perm ys) :
    key (choose key init ys) = key (choose key init xs) := by
  have hset : {x | x = init ∨ x ∈ ys} = {x | x = init ∨ x ∈ xs} := by
    ext x
    exact or_congr_right h.mem_iff.symm
  have hys := isLeast_key_choose key init ys
  rw [hset] at hys
  exact hys.unique (isLeast_key_choose key init xs)

/-- An item whose value beats the initial one and is beaten by none. -/
def Best {γ : Type*} (f : γ → α) (init : α) (items : List γ) (e : γ) : Prop :=
  e ∈ items ∧ key (f e) < key init ∧ ∀ x ∈ items, key (f e) ≤ key (f x)

/-- **The choice does not depend on the order of the items** exactly when all the best ones have the
same value. -/
theorem forall_perm_choose_eq_iff {γ : Type*} (f : γ → α) (init : α) (items : List γ) :
    (∀ items', items.Perm items' →
        choose key init (items'.map f) = choose key init (items.map f)) ↔
      ∀ e e', Best key f init items e → Best key f init items e' → f e = f e' := by
  constructor
  · intro hall e e' he he'
    -- each of the two is the choice when it comes first
    have hfirst : ∀ e, Best key f init items e → choose key init (items.map f) = f e := by
      rintro e ⟨hmem, hlt, hle⟩
      obtain ⟨before, after, rfl⟩ := List.append_of_mem hmem
      rw [← hall (e :: (before ++ after)) List.perm_middle, List.map_cons]
      refine choose_cons_of_le key hlt fun y hy ↦ ?_
      obtain ⟨x, hx, rfl⟩ := List.mem_map.1 hy
      exact hle x (List.perm_middle.mem_iff.2 (List.mem_cons_of_mem e hx))
    rw [← hfirst e he, ← hfirst e' he']
  · intro hties items' hperm
    have hkey := key_choose_perm key init (hperm.map f)
    have hbest : ∀ l : List γ, items.Perm l → choose key init (l.map f) = init ∨
        ∃ e, Best key f init items e ∧ choose key init (l.map f) = f e := by
      intro l hl
      rcases choose_mem key init (l.map f) with heq | hmem
      · exact Or.inl heq
      obtain ⟨e, he, heq⟩ := List.mem_map.1 hmem
      by_cases hlt : key (f e) < key init
      · refine Or.inr ⟨e, ⟨hl.mem_iff.2 he, hlt, fun x hx ↦ ?_⟩, heq.symm⟩
        rw [heq]
        exact key_choose_le_of_mem key (List.mem_map_of_mem (hl.mem_iff.1 hx))
      · -- a value that does not beat the initial one is never taken
        refine Or.inl (choose_eq_init key fun y hy ↦ ?_)
        rw [heq] at hlt
        exact (not_lt.1 hlt).trans (key_choose_le_of_mem key hy)
    rcases hbest items' hperm with h' | ⟨e', he', h'⟩ <;>
      rcases hbest items (List.Perm.refl _) with h | ⟨e, he, h⟩
    · rw [h', h]
    · rw [h', h] at hkey
      exact absurd he.2.1 (by rw [← hkey]; exact lt_irrefl _)
    · rw [h', h] at hkey
      exact absurd he'.2.1 (by rw [hkey]; exact lt_irrefl _)
    · rw [h', h, hties e' e he' he]

end LeastChoice
