import Mathlib.Order.Bounds.Basic
import Mathlib.Order.Defs.LinearOrder
import Mathlib.Data.List.Pairwise

/-!
# Performing windows one after the other

A window is a pair of an opening and a closing. A performer that handles one window at a time picks
the next one to open, waits until it closes, and picks again from there: a list of windows is
`Greedy` when every entry is the next one to open (`IsNext`) strictly after the closing of the entry
before it.

Two facts hold of every greedy list, whatever the set of windows: its windows follow each other
without overlap (`Greedy.pairwise_lt`), and every window up to the last closing opens inside one
that was performed, or at its ends (`Greedy.exists_covering`). So what is left out is exactly what
opens while another window is being performed, or at the moment that one closes. Where no window
opens as another one closes, a greedy list is all that is to be performed (`Greedy.performed`).

A performer that looks for the next window need not look further than a horizon, if it knows that
the next one opens before (`IsNextWithin`).

Openings and closings are of any linear order, and the set of windows may be infinite and overlap as
it likes. Three ways to say what has been performed are compared here:

* `Greedy`, the way a performer goes: from closing to closing, by the next one to open;
* `Performed`, what an observer would ask for: everything that opens in time, except inside a window
  that is performed already;
* `IsNextWithin`, what a performer can know that has looked at windows up to a horizon only, one set
  of them after the other (`IsNextWithin.union`).

`Greedy.performed` and `Greedy.mem_iff` lead from the first to the second. Where a window opens at
the very closing of another one, the two differ, and the statements say so by a hypothesis or by the
windows that are left out.
-/

namespace GreedyWindows

variable {T : Type*}

/-- The moment a performer is at after performing a list: its last closing. -/
def lastClose (t : T) : List (T × T) → T
  | [] => t
  | w :: ws => lastClose w.2 ws

@[simp] theorem lastClose_nil (t : T) : lastClose t [] = t := rfl

@[simp] theorem lastClose_cons (t : T) (w : T × T) (ws : List (T × T)) :
    lastClose t (w :: ws) = lastClose w.2 ws := rfl

@[simp] theorem lastClose_append_singleton (t : T) (ws : List (T × T)) (w : T × T) :
    lastClose t (ws ++ [w]) = w.2 := by
  induction ws generalizing t with
  | nil => rfl
  | cons v ws ih => exact ih v.2

variable [LinearOrder T] (W : Set (T × T))

/-- The next window to open strictly after `t`. There may be several that open at once; each of them
is next. -/
structure IsNext (t : T) (w : T × T) : Prop where
  mem : w ∈ W
  lt : t < w.1
  le_of_lt : ∀ v ∈ W, t < v.1 → w.1 ≤ v.1

/-- The next window to open strictly after `t`, as far as windows are concerned that open up to the
horizon `h`; what lies behind the horizon may be anything. -/
structure IsNextWithin (t h : T) (w : T × T) : Prop where
  mem : w.1 ≤ h → w ∈ W ∧ t < w.1
  le_of_lt : ∀ v ∈ W, t < v.1 → v.1 ≤ h → w.1 ≤ v.1

/-- The windows that are to be performed up to `now`, in order: those that open after `t` and not
inside a window that is performed already. -/
structure Performed (t now : T) (ws : List (T × T)) : Prop where
  ordered : ws.Pairwise fun v w ↦ v.2 < w.1
  mem_iff : ∀ w, w ∈ ws ↔ w ∈ W ∧ t < w.1 ∧ w.1 ≤ now ∧ ∀ v ∈ ws, v.1 < w.1 → v.2 ≤ w.1

/-- Every window is the next one to open after the closing of the one before. -/
inductive Greedy : T → List (T × T) → Prop where
  | nil (t : T) : Greedy t []
  | cons {t : T} {w : T × T} {ws : List (T × T)} :
      IsNext W t w → Greedy w.2 ws → Greedy t (w :: ws)

variable {W}

/-- A greedy list is continued by the next window after its last closing. -/
theorem Greedy.append_singleton {t : T} {ws : List (T × T)} {w : T × T} (h : Greedy W t ws)
    (hw : IsNext W (lastClose t ws) w) : Greedy W t (ws ++ [w]) := by
  induction h with
  | nil t => exact .cons hw (.nil _)
  | cons hv _ ih => exact .cons hv (ih hw)

/-- What opens within the horizon is the next window. -/
theorem IsNextWithin.isNext {t h : T} {w : T × T} (hw : IsNextWithin W t h w) (hle : w.1 ≤ h) :
    IsNext W t w := by
  obtain ⟨hmem, hlt⟩ := hw.mem hle
  refine ⟨hmem, hlt, fun v hv htv ↦ ?_⟩
  rcases le_total v.1 h with hvh | hvh
  · exact hw.le_of_lt v hv htv hvh
  · exact hle.trans hvh

/-- Where nothing opens between two moments, the next window after the later one is the next after
the earlier one. -/
theorem IsNextWithin.of_le {t t' h h' : T} {w : T × T} (hw : IsNextWithin W t' h' w) (ht : t ≤ t')
    (hh : h ≤ h') (hnone : ∀ v ∈ W, t < v.1 → t' < v.1) : IsNextWithin W t h w where
  mem hle := ⟨(hw.mem (hle.trans hh)).1, ht.trans_lt (hw.mem (hle.trans hh)).2⟩
  le_of_lt v hv htv hvh := hw.le_of_lt v hv (hnone v hv htv) (hvh.trans hh)

/-- Of the next windows of two sets, the one that opens first is the next of both. -/
theorem IsNextWithin.union {V : Set (T × T)} {t h : T} {v w : T × T} (hv : IsNextWithin V t h v)
    (hw : IsNextWithin W t h w) : IsNextWithin (V ∪ W) t h (if w.1 < v.1 then w else v) := by
  split
  · next hlt =>
    refine ⟨fun hle ↦ ⟨Or.inr (hw.mem hle).1, (hw.mem hle).2⟩, ?_⟩
    rintro u (hu | hu) htu huh
    · exact hlt.le.trans (hv.le_of_lt u hu htu huh)
    · exact hw.le_of_lt u hu htu huh
  · next hge =>
    refine ⟨fun hle ↦ ⟨Or.inl (hv.mem hle).1, (hv.mem hle).2⟩, ?_⟩
    rintro u (hu | hu) htu huh
    · exact hv.le_of_lt u hu htu huh
    · exact (not_lt.1 hge).trans (hw.le_of_lt u hu htu huh)

theorem Greedy.mem {t : T} {ws : List (T × T)} (h : Greedy W t ws) : ∀ w ∈ ws, w ∈ W := by
  induction h with
  | nil t => intro w hw; exact absurd hw List.not_mem_nil
  | cons hv _ ih =>
    intro w hw
    rcases List.mem_cons.1 hw with rfl | hw
    · exact hv.mem
    · exact ih w hw

/-- **Nothing is left out but what opens while another window is performed**: a window that opens
after the start, up to the last closing, opens inside a performed one or at one of its ends. -/
theorem Greedy.exists_covering {t : T} {ws : List (T × T)} (h : Greedy W t ws) {w : T × T}
    (hw : w ∈ W) (ht : t < w.1) (hlast : w.1 ≤ lastClose t ws) :
    ∃ v ∈ ws, v.1 ≤ w.1 ∧ w.1 ≤ v.2 := by
  induction h with
  | nil t => exact absurd ht (not_lt.2 hlast)
  | @cons t v ws hv _ ih =>
    rcases le_or_gt w.1 v.2 with hle | hgt
    · exact ⟨v, List.mem_cons_self, hv.le_of_lt w hw ht, hle⟩
    · obtain ⟨u, hu, hcover⟩ := ih hgt hlast
      exact ⟨u, List.mem_cons_of_mem v hu, hcover⟩

section Positive

variable (hpos : ∀ w ∈ W, w.1 < w.2)

include hpos

theorem Greedy.lt_of_mem {t : T} {ws : List (T × T)} (h : Greedy W t ws) :
    ∀ w ∈ ws, t < w.1 := by
  induction h with
  | nil t => intro w hw; exact absurd hw List.not_mem_nil
  | cons hv _ ih =>
    intro w hw
    rcases List.mem_cons.1 hw with rfl | hw
    · exact hv.lt
    · exact (hv.lt.trans (hpos _ hv.mem)).trans (ih w hw)

theorem Greedy.le_lastClose {t : T} {ws : List (T × T)} (h : Greedy W t ws) :
    t ≤ lastClose t ws ∧ ∀ w ∈ ws, w.2 ≤ lastClose t ws := by
  induction h with
  | nil t => exact ⟨le_rfl, fun w hw ↦ absurd hw List.not_mem_nil⟩
  | cons hv _ ih =>
    refine ⟨((hv.lt.trans (hpos _ hv.mem)).le).trans ih.1, fun w hw ↦ ?_⟩
    rcases List.mem_cons.1 hw with rfl | hw
    · exact ih.1
    · exact ih.2 w hw

/-- **Performed windows do not overlap**: each opens after the ones before it have closed. -/
theorem Greedy.pairwise_lt {t : T} {ws : List (T × T)} (h : Greedy W t ws) :
    ws.Pairwise fun v w ↦ v.2 < w.1 := by
  induction h with
  | nil t => exact List.Pairwise.nil
  | cons _ hws ih => exact List.Pairwise.cons (fun w hw ↦ hws.lt_of_mem hpos w hw) ih

/-- Where windows do not overlap, a greedy list has left out, up to the moment `now`, **exactly what
opens as one of its windows closes**; the list must not be behind, that is, nothing has opened by
then that is still to be picked. -/
theorem Greedy.mem_iff
    (hdisj : ∀ v ∈ W, ∀ w ∈ W, v.1 ≤ w.1 → w.1 < v.2 → v = w) {t now : T} {ws : List (T × T)}
    (h : Greedy W t ws) (hpast : ∀ w ∈ ws, w.1 ≤ now)
    (hlater : ∀ w ∈ W, lastClose t ws < w.1 → now < w.1) (w : T × T) :
    w ∈ ws ↔ w ∈ W ∧ t < w.1 ∧ w.1 ≤ now ∧ ∀ v ∈ ws, v.2 ≠ w.1 := by
  constructor
  · intro hw
    refine ⟨h.mem w hw, h.lt_of_mem hpos w hw, hpast w hw, fun v hv ↦ ?_⟩
    -- of two windows in an ordered list, neither closes as the other one opens
    refine List.Pairwise.forall_of_forall_of_flip (R := fun v w : T × T ↦ v.2 ≠ w.1) ?_ ?_ ?_ hv hw
    · exact fun u hu ↦ (hpos u (h.mem u hu)).ne'
    · exact (h.pairwise_lt hpos).imp LT.lt.ne
    · refine (h.pairwise_lt hpos).imp_of_mem fun {u v} hu hv hlt ↦ ?_
      exact (((hpos u (h.mem u hu)).trans hlt).trans (hpos v (h.mem v hv))).ne'
  · rintro ⟨hw, htw, hle, hends⟩
    have hlast : w.1 ≤ lastClose t ws :=
      not_lt.1 fun hlt ↦ absurd (hlater w hw hlt) (not_lt.2 hle)
    obtain ⟨v, hv, hvw, hwv⟩ := h.exists_covering hw htw hlast
    rwa [← hdisj v (h.mem v hv) w hw hvw (lt_of_le_of_ne hwv (hends v hv).symm)]

/-- **A greedy list performs everything** that is to be performed, as long as the next window has
not opened, where no window opens as another one closes and the opening determines the window. -/
theorem Greedy.performed (huniq : ∀ v ∈ W, ∀ w ∈ W, v.1 = w.1 → v = w)
    (htouch : ∀ v ∈ W, ∀ w ∈ W, v.2 ≠ w.1) {t now : T} {ws : List (T × T)} (h : Greedy W t ws)
    (hpast : ∀ w ∈ ws, w.1 ≤ now) (hlater : ∀ w ∈ W, lastClose t ws < w.1 → now < w.1) :
    Performed W t now ws := by
  have hordered := h.pairwise_lt hpos
  refine ⟨hordered, fun w ↦ ⟨fun hw ↦ ?_, ?_⟩⟩
  · refine ⟨h.mem w hw, h.lt_of_mem hpos w hw, hpast w hw, fun v hv hvw ↦ ?_⟩
    -- of two windows in an ordered list, the one that opens first closes before the other opens
    refine List.Pairwise.forall_of_forall_of_flip (R := fun v w : T × T ↦ v.1 < w.1 → v.2 ≤ w.1)
      (fun _ _ hlt ↦ absurd hlt (lt_irrefl _)) (hordered.imp fun hlt _ ↦ hlt.le) ?_ hv hw hvw
    refine hordered.imp_of_mem fun {u v} hu _ hlt hback ↦ ?_
    exact absurd ((hpos u (h.mem u hu)).trans hlt) (lt_asymm hback)
  · rintro ⟨hw, htw, hle, hinside⟩
    have hlast : w.1 ≤ lastClose t ws :=
      not_lt.1 fun hlt ↦ absurd (hlater w hw hlt) (not_lt.2 hle)
    obtain ⟨v, hv, hvw, hwv⟩ := h.exists_covering hw htw hlast
    rcases hvw.lt_or_eq with hlt | heq
    · exact absurd (le_antisymm (hinside v hv hlt) hwv) (htouch v (h.mem v hv) w hw)
    · rwa [← huniq v (h.mem v hv) w hw heq]

end Positive

end GreedyWindows
