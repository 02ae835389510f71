import Mathlib.Data.List.Rotate
import Mathlib.Data.List.Basic
import Mathlib.Logic.Function.Basic
import Mathlib.Algebra.GroupWithZero.Nat

/-!
# A ring of slots with a volatile cursor

`S` slots that are written one after the other, from the first to the last and around again. The
slots are permanent; the cursor is not, and a reset puts it back to the first slot.

A history of writes and resets is an `Op` list. Everything follows from where a write goes: the
`k`-th write since the last reset goes to slot `k % S` (`position_run`). So a slot holds the last
write that had its number (`slots_run`), and of writes without a reset between them the last `S`
stay (`slots_run_append_writes`), in an order that is theirs up to a rotation (`rotate_eq_drop`).
Resets that come after full rounds only are as good as none (`slots_run_of_fullRounds`). However
many resets there are, the cursor parts the last writes from the earlier ones (`parted_run`).

The ring knows nothing of what it holds: `α` is any type, and an empty slot is `none`. Two notions
of counting run through the module. `sinceReset` is the number of the next write, as the writer
counts it, who forgets at a reset; `values` is all that has ever been written, as an observer sees
it. With resets after full rounds only, the two agree modulo `S` (`FullRounds.sinceReset_mod`).

`Parted` is an invariant that survives all resets. It does not say which round a slot behind the
cursor comes from, only that its value is an earlier one, and this is enough to find the newest
value where the values are ordered (`slots_ordered`).
-/

/-- The state of a ring of `S` slots. -/
structure SlotRing (S : ℕ) (α : Type*) where
  /-- What the slots hold. -/
  slots : ℕ → Option α
  /-- The slot after the one written last. -/
  cursor : ℕ
  /-- The cursor is a slot or the end. -/
  cursor_le : cursor ≤ S

namespace SlotRing

variable {S : ℕ} {α : Type*}

/-- Nothing written, with the cursor at the first slot. -/
def empty : SlotRing S α := ⟨fun _ ↦ none, 0, Nat.zero_le S⟩

/-- Where the next write goes: from the end, back to the first slot. -/
def position (ring : SlotRing S α) : ℕ := if ring.cursor = S then 0 else ring.cursor

theorem position_lt [NeZero S] (ring : SlotRing S α) : ring.position < S := by
  have := ring.cursor_le
  have := Nat.pos_of_neZero S
  unfold position
  split <;> omega

/-- Write a value at the cursor, and move the cursor behind it. It may then stand at the end, from
where only the next write takes it back. -/
def write [NeZero S] (ring : SlotRing S α) (a : α) : SlotRing S α where
  slots := Function.update ring.slots ring.position (some a)
  cursor := ring.position + 1
  cursor_le := ring.position_lt

theorem slots_write [NeZero S] (ring : SlotRing S α) (a : α) :
    (ring.write a).slots = Function.update ring.slots ring.position (some a) := rfl

theorem cursor_write [NeZero S] (ring : SlotRing S α) (a : α) :
    (ring.write a).cursor = ring.position + 1 := rfl

/-- Lose the cursor: the slots stay as they are, and the next write goes to the first one. -/
def reset (ring : SlotRing S α) : SlotRing S α := { ring with cursor := 0, cursor_le := by omega }

@[simp] theorem slots_reset (ring : SlotRing S α) : ring.reset.slots = ring.slots := rfl

/-! ### Histories -/

/-- An operation of a history. -/
inductive Op (α : Type*) where
  | write (a : α)
  | reset

variable [NeZero S]

/-- The effect of an operation. -/
def apply (ring : SlotRing S α) : Op α → SlotRing S α
  | .write a => ring.write a
  | .reset => ring.reset

variable (S) in
/-- The ring after a history, from an empty one. -/
def run (h : List (Op α)) : SlotRing S α := h.foldl apply empty

/-- The number of writes since the last reset. -/
def sinceReset (h : List (Op α)) : ℕ :=
  h.foldl (fun n op ↦ match op with | .write _ => n + 1 | .reset => 0) 0

/-- The values written, each with its number since the reset before it; the first one has the
number `n`. -/
def writes (n : ℕ) : List (Op α) → List (ℕ × α)
  | [] => []
  | .write a :: h => (n, a) :: writes (n + 1) h
  | .reset :: h => writes 0 h

@[simp] theorem run_append_write (h : List (Op α)) (a : α) :
    run S (h ++ [.write a]) = (run S h).write a := by
  rw [run, List.foldl_append]; rfl

@[simp] theorem run_append_reset (h : List (Op α)) :
    run S (h ++ [.reset]) = (run S h).reset := by
  rw [run, List.foldl_append]; rfl

@[simp] theorem sinceReset_append_write (h : List (Op α)) (a : α) :
    sinceReset (h ++ [.write a]) = sinceReset h + 1 := by
  rw [sinceReset, List.foldl_append]; rfl

@[simp] theorem sinceReset_append_reset (h : List (Op α)) :
    sinceReset (h ++ [.reset]) = 0 := by
  rw [sinceReset, List.foldl_append]; rfl

/-- A further write has the number of those since the last reset. -/
theorem writes_append_write (h : List (Op α)) (a : α) :
    writes 0 (h ++ [.write a]) = writes 0 h ++ [(sinceReset h, a)] := by
  suffices H : ∀ n, writes n (h ++ [.write a]) = writes n h ++
      [(h.foldl (fun n op ↦ match op with | .write _ => n + 1 | .reset => 0) n, a)] from H 0
  induction h with
  | nil => exact fun n ↦ rfl
  | cons op h ih =>
    intro n
    cases op with
    | write b => exact congrArg (List.cons (n, b)) (ih (n + 1))
    | reset => exact ih 0

theorem writes_append_reset (n : ℕ) (h : List (Op α)) :
    writes n (h ++ [.reset]) = writes n h := by
  induction h generalizing n with
  | nil => rfl
  | cons op h ih =>
    cases op with
    | write b => exact congrArg (List.cons (n, b)) (ih (n + 1))
    | reset => exact ih 0

/-! ### Where the writes go -/

theorem succ_mod (k : ℕ) : (k + 1) % S = if k % S + 1 = S then 0 else k % S + 1 := by
  have hlt := Nat.mod_lt k (Nat.pos_of_neZero S)
  rw [← Nat.mod_add_mod]
  split
  · next h => rw [h, Nat.mod_self]
  · exact Nat.mod_eq_of_lt (by omega)

/-- **The `k`-th write since a reset goes to slot `k % S`.** By induction on the history from its
end: a write goes on by one, and from the end of the ring to its start. -/
theorem position_run (h : List (Op α)) : (run S h).position = sinceReset h % S := by
  induction h using List.reverseRecOn with
  | nil => exact (if_neg (NeZero.ne' S)).trans (Nat.zero_mod S).symm
  | append_singleton h op ih =>
    cases op with
    | write a =>
      rw [run_append_write, sinceReset_append_write, succ_mod, ← ih]
      rfl
    | reset =>
      rw [run_append_reset, sinceReset_append_reset, Nat.zero_mod]
      exact if_neg (NeZero.ne' S)

/-- A write changes the slot of its number, and that one only. -/
theorem slots_run_append_write (h : List (Op α)) (a : α) (s : ℕ) :
    (run S (h ++ [.write a])).slots s =
      if sinceReset h % S = s then some a else (run S h).slots s := by
  rw [run_append_write, slots_write, Function.update_apply, position_run]
  exact if_congr eq_comm rfl rfl

variable (S) in
/-- The last value of a history with a number that belongs to the slot. -/
def lastWrite (h : List (Op α)) (s : ℕ) : Option α :=
  (((writes 0 h).filter fun w ↦ w.1 % S = s).getLast?).map Prod.snd

/-- **A slot holds the last write that had its number**, after any history. -/
theorem slots_run (h : List (Op α)) (s : ℕ) : (run S h).slots s = lastWrite S h s := by
  unfold lastWrite
  induction h using List.reverseRecOn with
  | nil => rfl
  | append_singleton h op ih =>
    cases op with
    | write a =>
      rw [slots_run_append_write, writes_append_write, List.filter_append, ih]
      by_cases hs : sinceReset h % S = s <;> simp [hs]
    | reset => rw [run_append_reset, slots_reset, writes_append_reset, ih]

omit [NeZero S] in
/-- Less than a round apart, numbers have different slots. -/
theorem mod_ne_of_lt {i n : ℕ} (hlt : i < n) (hround : n < i + S) : n % S ≠ i % S := by
  intro heq
  have hsub := Nat.sub_mod_eq_zero_of_mod_eq heq
  rw [Nat.mod_eq_of_lt (by omega)] at hsub
  omega

/-- Every slot that `n` writes reach is the slot of one of the last `S`. -/
theorem exists_recent_of_lt {n s : ℕ} (hs : s < min n S) :
    ∃ i < n, n ≤ i + S ∧ i % S = s := by
  refine ⟨s + S * ((n - 1 - s) / S), ?_, ?_, ?_⟩
  · have := Nat.mul_div_le (n - 1 - s) S
    omega
  · have := Nat.lt_mul_div_succ (n - 1 - s) (Nat.pos_of_neZero S)
    rw [Nat.mul_add] at this
    omega
  · rw [Nat.add_mul_mod_self_left, Nat.mod_eq_of_lt (by omega)]

theorem sinceReset_append_writes (h : List (Op α)) (as : List α) :
    sinceReset (h ++ as.map .write) = sinceReset h + as.length := by
  induction as using List.reverseRecOn with
  | nil => rw [List.map_nil, List.append_nil]; rfl
  | append_singleton as a ih =>
    rw [List.map_append, List.map_singleton, ← List.append_assoc, sinceReset_append_write, ih,
      List.length_append, List.length_singleton, Nat.add_assoc]

/-- **Writes without a reset between them** keep the last `S` of their values. -/
theorem slots_run_append_writes (h : List (Op α)) (as : List α) :
    ∀ i < as.length, as.length ≤ i + S →
      (run S (h ++ as.map .write)).slots ((sinceReset h + i) % S) = as[i]? := by
  induction as using List.reverseRecOn with
  | nil => simp
  | append_singleton as a ih =>
    intro i hi hround
    rw [List.length_append, List.length_singleton] at hi hround
    rw [List.map_append, List.map_singleton, ← List.append_assoc, slots_run_append_write,
      sinceReset_append_writes]
    rcases (Nat.lt_succ_iff.1 hi).lt_or_eq with hlt | rfl
    · rw [if_neg (mod_ne_of_lt (by omega) (by omega)), List.getElem?_append_left hlt]
      exact ih i hlt (by omega)
    · rw [if_pos rfl, List.getElem?_append_right le_rfl, Nat.sub_self]
      rfl

/-! ### Histories that keep their rounds -/

/-- The values written, in order. -/
def values (h : List (Op α)) : List α :=
  h.filterMap fun op ↦ match op with | .write a => some a | .reset => none

@[simp] theorem values_append_write (h : List (Op α)) (a : α) :
    values (h ++ [.write a]) = values h ++ [a] := by
  simp [values]

@[simp] theorem values_append_reset (h : List (Op α)) :
    values (h ++ [.reset]) = values h := by
  simp [values]

variable (S) in
/-- Every reset comes after a full number of rounds since the one before it. -/
def FullRounds (h : List (Op α)) : Prop :=
  ∀ h₁ h₂, h = h₁ ++ .reset :: h₂ → S ∣ sinceReset h₁

omit [NeZero S] in
theorem FullRounds.of_append {h h' : List (Op α)} (hfull : FullRounds S (h ++ h')) :
    FullRounds S h := by
  rintro h₁ h₂ rfl
  exact hfull h₁ (h₂ ++ h') (by simp)

omit [NeZero S] in
/-- Writes alone have no reset that could come at the wrong time. -/
theorem fullRounds_writes (as : List α) : FullRounds S (as.map Op.write) := by
  intro h₁ h₂ heq
  have hmem : Op.reset ∈ as.map Op.write := by rw [heq]; simp
  simp at hmem

theorem values_writes (as : List α) : values (as.map Op.write) = as := by
  simp [values, List.filterMap_map]

/-- With full rounds only, the writes go around as if there were no resets. -/
theorem FullRounds.sinceReset_mod {h : List (Op α)} (hfull : FullRounds S h) :
    sinceReset h % S = (values h).length % S := by
  induction h using List.reverseRecOn with
  | nil => rfl
  | append_singleton h op ih =>
    have ih := ih hfull.of_append
    cases op with
    | write a =>
      rw [sinceReset_append_write, values_append_write, List.length_append, List.length_singleton,
        succ_mod, succ_mod, ih]
    | reset =>
      rw [sinceReset_append_reset, values_append_reset, ← ih, Nat.zero_mod,
        Nat.mod_eq_zero_of_dvd (hfull h [] rfl)]

/-- **After full rounds the ring holds the last `S` values**: the `i`-th one in slot `i % S`, and
nothing in the slots that were never reached. -/
theorem slots_run_of_fullRounds {h : List (Op α)} (hfull : FullRounds S h) :
    (∀ i < (values h).length, (values h).length ≤ i + S →
        (run S h).slots (i % S) = (values h)[i]?) ∧
      ∀ s < S, (values h).length ≤ s → (run S h).slots s = none := by
  induction h using List.reverseRecOn with
  | nil => exact ⟨by simp [values], fun s _ _ ↦ rfl⟩
  | append_singleton h op ih =>
    obtain ⟨ihheld, ihnone⟩ := ih hfull.of_append
    have hpos := Nat.pos_of_neZero S
    cases op with
    -- A reset after whole rounds sets the cursor to where it stands already.
    | reset =>
      rw [run_append_reset, slots_reset, values_append_reset]
      exact ⟨ihheld, ihnone⟩
    | write a =>
      simp only [slots_run_append_write, hfull.of_append.sinceReset_mod, values_append_write,
        List.length_append, List.length_singleton]
      refine ⟨fun i hi hle ↦ ?_, fun s hs hle ↦ ?_⟩
      · -- The write takes the slot of the value a whole round before it, which is not held any
        -- more.
        rcases (Nat.lt_succ_iff.1 hi).lt_or_eq with hlt | rfl
        · rw [if_neg (mod_ne_of_lt hlt (by omega)), List.getElem?_append_left hlt]
          exact ihheld i hlt (by omega)
        · rw [if_pos rfl, List.getElem?_append_right le_rfl, Nat.sub_self]
          rfl
      · rw [if_neg (by rw [Nat.mod_eq_of_lt (by omega)]; omega)]
        exact ihnone s hs (by omega)

/-! ### Where the cursor stands -/

/-- After a write the cursor stands behind the slot of its number. -/
theorem cursor_run_append_write (h : List (Op α)) (a : α) :
    (run S (h ++ [.write a])).cursor = sinceReset h % S + 1 := by
  rw [run_append_write, cursor_write, position_run]

/-- The cursor parts the ring: the slots before it hold the last of the values, in order, and each
of the others an earlier one, or nothing. -/
structure Parted (ring : SlotRing S α) (vs : List α) : Prop where
  cursor_le : ring.cursor ≤ vs.length
  before : ∀ s < ring.cursor, ring.slots s = vs[vs.length - ring.cursor + s]?
  after : ∀ s, ring.cursor ≤ s → ∀ a, ring.slots s = some a →
    ∃ i, i + ring.cursor < vs.length ∧ vs[i]? = some a

section Parted

variable {ring : SlotRing S α} {vs : List α}

omit [NeZero S] in
/-- On either side of the cursor there are values. -/
theorem Parted.exists_of_slots (h : Parted ring vs) {s : ℕ} {a : α} (ha : ring.slots s = some a) :
    ∃ i < vs.length, vs[i]? = some a := by
  rcases Nat.lt_or_ge s ring.cursor with hlt | hge
  · rw [h.before s hlt] at ha
    exact ⟨_, (List.getElem?_eq_some_iff.1 ha).1, ha⟩
  · obtain ⟨i, hi, hget⟩ := h.after s hge a ha
    exact ⟨i, Nat.lt_of_le_of_lt (Nat.le_add_right i _) hi, hget⟩

omit [NeZero S] in
theorem Parted.exists_of_lt (h : Parted ring vs) {s : ℕ} (hs : s < ring.cursor) :
    ∃ a, ring.slots s = some a := by
  have hle := h.cursor_le
  exact ⟨_, (h.before s hs).trans (List.getElem?_eq_getElem (by omega))⟩

omit [NeZero S] in
theorem Parted.reset (h : Parted ring vs) : Parted ring.reset vs where
  cursor_le := Nat.zero_le _
  before s hs := absurd hs (Nat.not_lt_zero s)
  after _ _ _ ha := h.exists_of_slots ha

/-- **A write** keeps the ring parted. Where the cursor goes on, the slot written becomes the last
one before it; where it goes around, all the others fall behind it. -/
theorem Parted.write (h : Parted ring vs) (b : α) : Parted (ring.write b) (vs ++ [b]) := by
  have hcursor := ring.cursor_le
  have hle := h.cursor_le
  have hlength : (vs ++ [b]).length = vs.length + 1 := by simp
  have hearlier : ∀ {i : ℕ}, i < vs.length → (vs ++ [b])[i]? = vs[i]? := List.getElem?_append_left
  have hlast : (vs ++ [b])[vs.length]? = some b := by simp
  by_cases hend : ring.cursor = S
  · -- the ring is full, and the value goes to the first slot
    have hposition : ring.position = 0 := if_pos hend
    constructor <;> simp only [slots_write, cursor_write, hposition, hlength]
    · omega
    · intro s hs
      rw [Nat.lt_one_iff.1 hs, Function.update_self, Nat.add_sub_cancel, Nat.add_zero, hlast]
    · intro s hs a ha
      rw [Function.update_of_ne (by omega)] at ha
      obtain ⟨i, hi, hget⟩ := h.exists_of_slots ha
      exact ⟨i, by omega, (hearlier hi).trans hget⟩
  · have hposition : ring.position = ring.cursor := if_neg hend
    constructor <;> simp only [slots_write, cursor_write, hposition, hlength]
    · omega
    · intro s hs
      rcases (Nat.lt_succ_iff.1 hs).lt_or_eq with hlt | rfl
      · have hsame : vs.length + 1 - (ring.cursor + 1) + s = vs.length - ring.cursor + s := by omega
        rw [Function.update_of_ne hlt.ne, h.before s hlt, hsame, hearlier (by omega)]
      · have hnew : vs.length + 1 - (ring.cursor + 1) + ring.cursor = vs.length := by omega
        rw [Function.update_self, hnew, hlast]
    · intro s hs a ha
      rw [Function.update_of_ne (by omega)] at ha
      obtain ⟨i, hi, hget⟩ := h.after s (by omega) a ha
      exact ⟨i, by omega, (hearlier (by omega)).trans hget⟩

end Parted

/-- **The cursor parts the ring**, after any history. -/
theorem parted_run (h : List (Op α)) : Parted (run S h) (values h) := by
  induction h using List.reverseRecOn with
  | nil => exact ⟨le_rfl, fun s hs ↦ absurd hs (Nat.not_lt_zero s), fun s _ a ha ↦ by cases ha⟩
  | append_singleton h op ih =>
    cases op with
    | write a =>
      rw [run_append_write, values_append_write]
      exact ih.write a
    | reset =>
      rw [run_append_reset, values_append_reset]
      exact ih.reset

/-- **Values that are in order** stand so in the ring: in order up to the cursor, and after it none
that belongs after one before it. -/
theorem slots_ordered {R : α → α → Prop} {h : List (Op α)} (hordered : (values h).Pairwise R)
    {s s' : ℕ} {a a' : α} (hs : s < (run S h).cursor) (hlt : s < s')
    (ha : (run S h).slots s = some a) (ha' : (run S h).slots s' = some a') :
    if s' < (run S h).cursor then R a a' else R a' a := by
  obtain ⟨hle, hbefore, hafter⟩ := parted_run (S := S) h
  have hget : ∀ {i j : ℕ} {x y : α}, i < j → (values h)[i]? = some x →
      (values h)[j]? = some y → R x y := by
    intro i j x y hij hx hy
    obtain ⟨hi, rfl⟩ := List.getElem?_eq_some_iff.1 hx
    obtain ⟨hj, rfl⟩ := List.getElem?_eq_some_iff.1 hy
    exact List.pairwise_iff_getElem.1 hordered i j hi hj hij
  rw [hbefore s hs] at ha
  split
  · next hs' =>
    rw [hbefore s' hs'] at ha'
    exact hget (by omega) ha ha'
  · next hs' =>
    obtain ⟨i, hi, hearlier⟩ := hafter s' (Nat.le_of_not_lt hs') a' ha'
    exact hget (by omega) hearlier ha

/-- The slots of a ring that holds the last values, read in order, are these values rotated. -/
theorem rotate_eq_drop {vs l : List α} (hlen : l.length = min vs.length S)
    (hl : ∀ i < vs.length, vs.length ≤ i + S → l[i % S]? = vs[i]?) :
    l.rotate (vs.length % S) = vs.drop (vs.length - S) := by
  have hpos := Nat.pos_of_neZero S
  refine List.ext_getElem? fun j ↦ ?_
  rcases Nat.lt_or_ge j l.length with hj | hj
  · rw [List.getElem?_rotate hj, List.getElem?_drop, ← hl _ (by omega) (by omega)]
    congr 1
    rcases Nat.lt_or_ge vs.length S with hshort | hlong
    · rw [hlen, min_eq_left hshort.le] at hj ⊢
      rw [Nat.mod_eq_of_lt hshort, Nat.sub_eq_zero_of_le hshort.le, Nat.add_mod_right,
        Nat.mod_eq_of_lt hj, Nat.zero_add, Nat.mod_eq_of_lt (by omega)]
    · rw [hlen, min_eq_right hlong, ← Nat.add_mod_right (vs.length - S + j)]
      rw [show vs.length - S + j + S = j + vs.length by omega, Nat.add_mod_mod]
  · rw [List.getElem?_eq_none (by rw [List.length_rotate]; exact hj),
      List.getElem?_eq_none (by rw [List.length_drop]; omega)]

end SlotRing
