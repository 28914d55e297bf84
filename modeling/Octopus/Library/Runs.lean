import Mathlib.Data.List.Basic

/-!
# Runs of a labelled step relation

Invariants may speak of the labels taken so far.  If the step relation is functional, the
states along a run are determined by its labels.
-/

namespace Library

open List

/-- The labels taken one after the other from a state, and the state reached. -/
inductive Run {State Label : Type} (step : State → Label → State → Prop) (start : State) :
    List Label → State → Prop
  | nil : Run step start [] start
  | snoc {labels : List Label} {label : Label} {state next : State}
      (run : Run step start labels state) (taken : step state label next) :
      Run step start (labels ++ [label]) next

theorem eq_of_shorter_singleton {Label : Type} {front : List Label} {label only : Label}
    (shorter : front ++ [label] <+: [only]) : front = [] ∧ label = only := by
  have length := shorter.length_le
  have empty : front = [] := by
    apply eq_nil_of_length_eq_zero
    simp only [length_append, length_cons] at length
    omega
  subst empty
  exact ⟨rfl, by simpa using shorter⟩

namespace Run

variable {State Label : Type} {step : State → Label → State → Prop} {start : State}
  {labels front : List Label} {final : State} {label : Label}

theorem invariant (property : List Label → State → Prop) (run : Run step start labels final)
    (initially : property [] start)
    (kept : ∀ front label state next, front ++ [label] <+: labels → Run step start front state →
      step state label next → property front state → property (front ++ [label]) next) :
    property labels final := by
  induction run with
  | nil => exact initially
  | @snoc labels label state next run taken earlier =>
    apply kept labels label state next (prefix_refl _) run taken
    apply earlier
    intro front other before after extension reached stepped holds
    exact kept front other before after (extension.trans (prefix_append _ _)) reached stepped holds

variable (measure : State → Nat)

section

variable (lowers : ∀ state label next, step state label next → measure next < measure state)
include lowers

theorem length_le (run : Run step start labels final) :
    labels.length + measure final ≤ measure start := by
  induction run with
  | nil => simp
  | @snoc _ label state next _ taken _ =>
    have lower := lowers state label next taken
    simp only [length_append, length_singleton]
    omega

theorem exists_stuck :
    ∃ labels final, Run step start labels final ∧ ∀ label next, ¬ step final label next := by
  suffices more : ∀ bound labels state, measure state ≤ bound → Run step start labels state →
      ∃ labels final, Run step start labels final ∧ ∀ label next, ¬ step final label next from
    more (measure start) [] start (Nat.le_refl _) .nil
  intro bound
  induction bound with
  | zero =>
    intro labels state low run
    refine ⟨labels, state, run, ?_⟩
    intro label next taken
    have lower := lowers state label next taken
    omega
  | succ _ ih =>
    intro labels state low run
    by_cases stuck : ∀ label next, ¬ step state label next
    · exact ⟨labels, state, run, stuck⟩
    · simp only [not_forall, not_not] at stuck
      rcases stuck with ⟨label, next, taken⟩
      have lower := lowers state label next taken
      exact ih (labels ++ [label]) next (by omega) (.snoc run taken)

end

theorem nil_inv (run : Run step start [] final) : final = start := by
  generalize isNil : ([] : List Label) = taken at run
  cases run with
  | nil => rfl
  | snoc => simp at isNil

theorem snoc_inv (run : Run step start (labels ++ [label]) final) :
    ∃ state, Run step start labels state ∧ step state label final := by
  generalize all : labels ++ [label] = taken at run
  cases run with
  | nil => simp at all
  | @snoc _ _ state _ earlier stepped =>
    rcases append_inj' all rfl with ⟨rfl, same⟩
    cases same
    exact ⟨state, earlier, stepped⟩

theorem of_shorter (run : Run step start labels final) (shorter : front <+: labels) :
    ∃ state, Run step start front state := by
  induction run with
  | nil =>
    rw [prefix_nil.mp shorter]
    exact ⟨start, .nil⟩
  | @snoc _ _ _ next run taken earlier =>
    rcases prefix_concat_iff.mp shorter with rfl | before
    · exact ⟨next, .snoc run taken⟩
    · exact earlier before

theorem unique (functional : ∀ state label next other, step state label next →
      step state label other → next = other) {other : State} (run : Run step start labels final)
    (second : Run step start labels other) : final = other := by
  induction run generalizing other with
  | nil => exact second.nil_inv.symm
  | @snoc _ label state next _ taken earlier =>
    rcases second.snoc_inv with ⟨_, reached, stepped⟩
    cases earlier reached
    exact functional state label next other taken stepped

theorem step_of_shorter (functional : ∀ state label next other, step state label next →
      step state label other → next = other) {state : State} (run : Run step start labels final)
    (shorter : front ++ [label] <+: labels) (reached : Run step start front state) :
    ∃ next, step state label next ∧ Run step start (front ++ [label]) next := by
  rcases run.of_shorter shorter with ⟨next, longer⟩
  rcases longer.snoc_inv with ⟨_, earlier, stepped⟩
  cases unique functional reached earlier
  exact ⟨next, stepped, longer⟩

end Run

end Library
