import Mathlib.Logic.Relation

/-!
# Code that runs in an environment

A `Program` is a list of statements that is executed from the front, while an environment may change
the state between any two statements; when the list is empty a fixed loop body starts over. A
statement may push code in front of what is left, which is how branches and calls are written.

`Outline` is a proof outline for such a program: an assertion at every code point that the
environment cannot break (`Stable`), from which each statement leads to the outline of the code that
is left. An outline up to the end of the list, and one of the loop body, make a safety property hold
in every state of every run (`safe_of_run`). Because an outline is inductive, it also says that the
code up to the end of the list has no infinite run of statements.

The environment is told the code point, so that it can be restricted there: a condition on when a
clock may tick is a condition on `env`. Assertions are predicates on states and are chosen where the
outline is built, so that the outline of a block can be proved for every continuation and used in
several places.
-/

namespace Interleaving

variable {ι σ : Type*}

/-- A program and its environment. -/
structure Program (ι σ : Type*) where
  /-- `exec i s s' pushed`: the statement leads from `s` to `s'` and pushes code. -/
  exec : ι → σ → σ → List ι → Prop
  /-- What the environment can do at a code point. -/
  env : List ι → σ → σ → Prop
  /-- The code that starts when none is left. -/
  loop : List ι

variable (P : Program ι σ)

/-- A step of the program or of its environment: a change of the state, the first statement, or the
loop body anew. -/
inductive Program.Step : List ι × σ → List ι × σ → Prop where
  | env {is : List ι} {s s' : σ} : P.env is s s' → Step (is, s) (is, s')
  | exec {i : ι} {is : List ι} {s s' : σ} {pushed : List ι} :
      P.exec i s s' pushed → Step (i :: is, s) (pushed ++ is, s')
  | again {s : σ} : Step ([], s) (P.loop, s)

/-- The environment keeps the assertion at a code point: whatever it does there, the assertion still
holds. -/
def Program.Stable (is : List ι) (A : σ → Prop) : Prop :=
  ∀ s s', A s → P.env is s s' → A s'

/-- A proof outline of a piece of code: `Safe` holds at every code point, and `Q` at the end. At
each code point there is an assertion `A` that the environment keeps, and each statement leads from
`A` to an outline of the code that is left then. -/
inductive Program.Outline (Safe : List ι → σ → Prop) (Q : σ → Prop) : List ι → σ → Prop where
  | nil {s : σ} (A : σ → Prop) : P.Stable [] A → (∀ s, A s → Safe [] s ∧ Q s) → A s →
      Outline Safe Q [] s
  | cons {i : ι} {is : List ι} {s : σ} (A : σ → Prop) : P.Stable (i :: is) A →
      (∀ s, A s → Safe (i :: is) s) →
      (∀ s s' pushed, A s → P.exec i s s' pushed → Outline Safe Q (pushed ++ is) s') → A s →
      Outline Safe Q (i :: is) s

variable {P} {Safe : List ι → σ → Prop} {Q : σ → Prop}

namespace Program.Outline

/-- The safety property holds where an outline does. -/
theorem safe {is : List ι} {s : σ} (h : P.Outline Safe Q is s) : Safe is s := by
  cases h with
  | nil A _ hA hs => exact (hA s hs).1
  | cons A _ hA _ hs => exact hA s hs

/-- **One step**, of the program or of the environment, leads from an outline to an outline. -/
theorem step (hloop : ∀ s, Q s → P.Outline Safe Q P.loop s) {c c' : List ι × σ}
    (h : P.Outline Safe Q c.1 c.2) (hstep : P.Step c c') : P.Outline Safe Q c'.1 c'.2 := by
  cases hstep with
  | @env is s s' henv =>
    cases h with
    | nil A hstable hA hs => exact .nil A hstable hA (hstable s s' hs henv)
    | cons A hstable hsafe hexec hs => exact .cons A hstable hsafe hexec (hstable s s' hs henv)
  | @exec i is s s' pushed hexec =>
    cases h with
    | cons A _ _ hnext hs => exact hnext s s' pushed hs hexec
  | @again s =>
    cases h with
    | nil A _ hA hs => exact hloop s (hA s hs).2

/-- **A whole run** stays within the outlines. -/
theorem run (hloop : ∀ s, Q s → P.Outline Safe Q P.loop s) {c c' : List ι × σ}
    (h : P.Outline Safe Q c.1 c.2) (hrun : Relation.ReflTransGen P.Step c c') :
    P.Outline Safe Q c'.1 c'.2 := by
  induction hrun with
  | refl => exact h
  | tail _ hstep ih => exact ih.step hloop hstep

/-- **A block of statements** that keep an assertion from code point to code point and push
nothing. -/
theorem block {A : List ι → σ → Prop} {plain : ι → Prop} (hstable : ∀ is, P.Stable is (A is))
    (hsafe : ∀ is s, A is s → Safe is s)
    (hexec : ∀ i is s s' pushed, plain i → A (i :: is) s → P.exec i s s' pushed →
      pushed = [] ∧ A is s')
    {code rest : List ι} (hplain : ∀ i ∈ code, plain i)
    (hrest : ∀ s, A rest s → P.Outline Safe Q rest s) {s : σ} (h : A (code ++ rest) s) :
    P.Outline Safe Q (code ++ rest) s := by
  induction code generalizing s with
  | nil => exact hrest s h
  | cons i code ih =>
    refine .cons _ (hstable _) (hsafe _) ?_ h
    intro s s' pushed hs hi
    obtain ⟨rfl, hs'⟩ := hexec i _ s s' pushed (hplain i List.mem_cons_self) hs hi
    exact ih (fun j hj ↦ hplain j (List.mem_cons_of_mem i hj)) hs'

end Program.Outline

/-- The safety property holds in every state of every run. -/
theorem Program.safe_of_run (hloop : ∀ s, Q s → P.Outline Safe Q P.loop s) {c c' : List ι × σ}
    (h : P.Outline Safe Q c.1 c.2) (hrun : Relation.ReflTransGen P.Step c c') : Safe c'.1 c'.2 :=
  (h.run hloop hrun).safe

end Interleaving
