import Mathlib.Logic.Relation

/-!
# Forward simulations that may stutter

Two systems and a relation between their states, such that each step of the first one is matched by
some steps of the second one, or none. Then every run of the first one is matched by a run of the
second one (`Forward.run`). Where the steps are those of actions, `runActions` computes runs.

That the second system may stand still lets it be the coarser one: a step of the first that it does
not see is matched by none. Which runs are matched is decided by the relation alone; a condition on
steps is put into the step relations.
-/

namespace Simulation

variable {α β : Type*}

/-- Each step of the first system is matched by steps of the second one. -/
def Forward (step : α → α → Prop) (step' : β → β → Prop) (R : α → β → Prop) : Prop :=
  ∀ a a' b, R a b → step a a' → ∃ b', Relation.ReflTransGen step' b b' ∧ R a' b'

variable {step : α → α → Prop} {step' : β → β → Prop} {R : α → β → Prop}

/-- **Runs are matched by runs.** -/
theorem Forward.run (h : Forward step step' R) {a a' : α} {b : β} (hR : R a b)
    (hrun : Relation.ReflTransGen step a a') :
    ∃ b', Relation.ReflTransGen step' b b' ∧ R a' b' := by
  induction hrun with
  | refl => exact ⟨b, .refl, hR⟩
  | tail _ hstep ih =>
    obtain ⟨b', hrun', hR'⟩ := ih
    obtain ⟨b'', hsteps, hR''⟩ := h _ _ _ hR' hstep
    exact ⟨b'', hrun'.trans hsteps, hR''⟩

/-! ### Runs of given actions -/

/-- Takes the actions one after the other, if each of them can be taken. It is computable, to try a
system on given actions. -/
def runActions {A : Type*} (act : A → α → Option α) : List A → α → Option α
  | [], a => some a
  | x :: xs, a => (act x a).bind (runActions act xs)

theorem run_of_runActions {A : Type*} {act : A → α → Option α} {step : α → α → Prop}
    (hstep : ∀ x a a', act x a = some a' → step a a') {xs : List A} {a a' : α}
    (h : runActions act xs a = some a') : Relation.ReflTransGen step a a' := by
  induction xs generalizing a with
  | nil =>
    cases h
    exact .refl
  | cons x xs ih =>
    obtain ⟨b, hact, hrest⟩ := Option.bind_eq_some_iff.1 h
    exact .head (hstep x a b hact) (ih hrest)

end Simulation
