import Mathlib.Data.List.Basic
import Mathlib.Logic.Relation

/-!
# A system that writes to a store

A system whose steps put out values, and a store that takes them one at a time and may refuse. A run
of the two together is a run of the system alone, with the log of what it has put out, and the store
holds what the log leads to (`stored_iff`). So what a store says about a run is proved in two parts
that know nothing of each other: which log a run has, and what the store makes of a log. A store
that refuses no log does not hinder the system (`forgotten_iff_stored`).

How much a system puts out between two marks is bounded by a potential that pays for what is put out
and that a mark fills up again (`length_le_between`).

The system is a relation `T a out a'` that says what a step puts out, a list that is often empty.
`Logs`, `Stores` and `Forgets` are its three readings as a step relation: with the log, with the
store, and without either. Runs are reflexive and transitive closures, so that the rules of
`Relation.ReflTransGen` apply to all three.
-/

namespace Recording

variable {α β ω : Type*}

/-- A step with the log of all that has been put out so far, the latest at the end. -/
def Logs (T : α → List ω → α → Prop) (x y : α × List ω) : Prop :=
  ∃ out, T x.1 out y.1 ∧ y.2 = x.2 ++ out

/-- A step with the store, which takes all that is put out, in order. If it refuses one value, there
is no step. -/
def Stores (T : α → List ω → α → Prop) (write : β → ω → Option β) (x y : α × β) : Prop :=
  ∃ out, T x.1 out y.1 ∧ out.foldlM write x.2 = some y.2

/-- A step, whatever is put out: the system by itself. -/
def Forgets (T : α → List ω → α → Prop) (a a' : α) : Prop := ∃ out, T a out a'

variable {T : α → List ω → α → Prop} {write : β → ω → Option β} {a₀ a : α} {b₀ b : β}

/-- Induction over a run with its log. -/
@[elab_as_elim]
theorem logs_induction
    {motive : ∀ a log, Relation.ReflTransGen (Logs T) (a₀, []) (a, log) → Prop} {a : α}
    {log : List ω} (h : Relation.ReflTransGen (Logs T) (a₀, []) (a, log))
    (start : motive a₀ [] .refl)
    (step : ∀ a log (hrun : Relation.ReflTransGen (Logs T) (a₀, []) (a, log)) out a'
      (hout : T a out a'), motive a log hrun →
        motive a' (log ++ out) (hrun.tail ⟨out, hout, rfl⟩)) :
    motive a log h := by
  suffices H : ∀ x, ∀ hx : Relation.ReflTransGen (Logs T) (a₀, []) x, motive x.1 x.2 hx from H _ h
  intro x hx
  induction hx with
  | refl => exact start
  | @tail y z hrun hstep ih =>
    obtain ⟨a', log'⟩ := z
    obtain ⟨out, hout, hlog⟩ := hstep
    simp only at hout hlog
    subst hlog
    exact step y.1 y.2 hrun out a' hout ih

/-- **The store holds what the log leads to.** For each run with the store there is one with the
log, and the other way round, to the same state. -/
theorem stored_iff :
    Relation.ReflTransGen (Stores T write) (a₀, b₀) (a, b) ↔
      ∃ log, Relation.ReflTransGen (Logs T) (a₀, []) (a, log) ∧
        log.foldlM write b₀ = some b := by
  constructor
  · intro h
    generalize hx : (a, b) = x at h
    induction h generalizing a b with
    | refl =>
      cases hx
      exact ⟨[], .refl, rfl⟩
    | @tail y _ _ hstep ih =>
      subst hx
      obtain ⟨log, hrun, hlog⟩ := ih rfl
      obtain ⟨out, hout, hwrite⟩ := hstep
      refine ⟨log ++ out, hrun.tail ⟨out, hout, rfl⟩, ?_⟩
      rw [List.foldlM_append, hlog]
      exact hwrite
  · rintro ⟨log, h, hlog⟩
    induction h using logs_induction generalizing b with
    | start =>
      cases hlog
      exact .refl
    | step a log hrun out a' hout ih =>
      rw [List.foldlM_append] at hlog
      obtain ⟨b', hb', hrest⟩ := Option.bind_eq_some_iff.1 hlog
      exact (ih hb').tail ⟨out, hout, hrest⟩

/-- Every run has a log, and a run with a log is a run. -/
theorem forgotten_iff :
    Relation.ReflTransGen (Forgets T) a₀ a ↔
      ∃ log, Relation.ReflTransGen (Logs T) (a₀, []) (a, log) := by
  constructor
  · intro h
    induction h with
    | refl => exact ⟨[], .refl⟩
    | tail _ hstep ih =>
      obtain ⟨log, hrun⟩ := ih
      obtain ⟨out, hout⟩ := hstep
      exact ⟨log ++ out, hrun.tail ⟨out, hout, rfl⟩⟩
  · rintro ⟨log, h⟩
    refine h.lift Prod.fst fun x y hstep ↦ ?_
    obtain ⟨out, hout, -⟩ := hstep
    exact ⟨out, hout⟩

/-- **A store that refuses nothing** does not hinder the system. -/
theorem forgotten_iff_stored (hwrite : ∀ log : List ω, ∃ b, log.foldlM write b₀ = some b) :
    Relation.ReflTransGen (Forgets T) a₀ a ↔
      ∃ b, Relation.ReflTransGen (Stores T write) (a₀, b₀) (a, b) := by
  rw [forgotten_iff]
  constructor
  · rintro ⟨log, hrun⟩
    obtain ⟨b, hb⟩ := hwrite log
    exact ⟨b, stored_iff.2 ⟨log, hrun, hb⟩⟩
  · rintro ⟨b, hrun⟩
    obtain ⟨log, hrun, -⟩ := stored_iff.1 hrun
    exact ⟨log, hrun⟩

/-! ### What is put out between two marks -/

/-- A step puts out one thing at most, wherever the runs lead. The potential pays for it, unless it
is a mark, which fills the potential up again. -/
def Pays (T : α → List ω → α → Prop) (a₀ : α) (mark : ω → Prop) (potential : α → ℕ) (full : ℕ) :
    Prop :=
  ∀ a out a', Relation.ReflTransGen (Forgets T) a₀ a → T a out a' →
    out = [] ∧ potential a' ≤ potential a ∨
      ∃ x, out = [x] ∧
        (mark x ∧ potential a' ≤ full ∨ ¬ mark x ∧ potential a' + 1 ≤ potential a)

section Potential

variable {mark : ω → Prop} {potential : α → ℕ} {full : ℕ} {log : List ω}

/-- What has been put out since the last mark, and what can still be paid for. -/
theorem length_add_potential_le (hpays : Pays T a₀ mark potential full)
    (hfull : potential a₀ ≤ full)
    (h : Relation.ReflTransGen (Logs T) (a₀, []) (a, log)) {last : List ω} (hlast : last <:+ log)
    (hmark : ∀ x ∈ last, ¬ mark x) : last.length + potential a ≤ full := by
  induction h using logs_induction generalizing last with
  | start =>
    rw [List.suffix_nil.1 hlast, List.length_nil, Nat.zero_add]
    exact hfull
  | step a log hrun out a' hout ih =>
    obtain ⟨rfl, hle⟩ | ⟨x, rfl, hpaid⟩ := hpays _ _ _ (forgotten_iff.2 ⟨_, hrun⟩) hout
    · rw [List.append_nil] at hlast
      have := ih hlast hmark
      omega
    · obtain rfl | ⟨before, rfl, hbefore⟩ := List.suffix_concat_iff.1 hlast
      · -- nothing is counted, and the potential is at most the full one
        have := ih (List.nil_suffix) (fun _ h ↦ absurd h List.not_mem_nil)
        rcases hpaid with ⟨-, hle⟩ | ⟨-, hle⟩ <;> simp only [List.length_nil] at * <;> omega
      · have hnot : ¬ mark x := hmark x (List.mem_append_right _ List.mem_cons_self)
        have hle := (hpaid.resolve_left fun h ↦ hnot h.1).2
        have := ih hbefore (fun x hx ↦ hmark x (List.mem_append_left _ hx))
        rw [List.length_append, List.length_singleton]
        omega

/-- **Between two marks** no more is put out than the full potential pays for. -/
theorem length_le_between (hpays : Pays T a₀ mark potential full)
    (hfull : potential a₀ ≤ full)
    (h : Relation.ReflTransGen (Logs T) (a₀, []) (a, log)) {segment : List ω}
    (hsegment : segment <:+: log) (hmark : ∀ x ∈ segment, ¬ mark x) : segment.length ≤ full := by
  induction h using logs_induction with
  | start =>
    rw [List.infix_nil.1 hsegment, List.length_nil]
    exact Nat.zero_le _
  | step a log hrun out a' hout ih =>
    obtain ⟨rfl, -⟩ | ⟨x, rfl, -⟩ := hpays _ _ _ (forgotten_iff.2 ⟨_, hrun⟩) hout
    · rw [List.append_nil] at hsegment
      exact ih hsegment
    · rcases List.infix_concat_iff.1 hsegment with hsuffix | hinfix
      · have := length_add_potential_le hpays hfull (hrun.tail ⟨_, hout, rfl⟩) hsuffix hmark
        omega
      · exact ih hinfix

end Potential

end Recording
