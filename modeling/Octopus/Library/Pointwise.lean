import Mathlib.Data.List.AList
import Mathlib.Data.List.Count

/-!
# Loops that touch one cell a round

If a round changes the cell of its own key only, then at the end each cell has gone
through the rounds of its key, in their order, and no others.
-/

namespace Library

theorem update_eq_some {Key Value : Type*} [DecidableEq Key] {map : Key → Option Value}
    {key other : Key} {value found : Value}
    (here : Function.update map key (some value) other = some found) :
    other = key ∧ found = value ∨ other ≠ key ∧ map other = some found := by
  by_cases same : other = key
  · subst same
    rw [Function.update_self, Option.some.injEq] at here
    exact .inl ⟨rfl, here.symm⟩
  · rw [Function.update_of_ne same] at here
    exact .inr ⟨same, here⟩

section

variable {State Label Fault : Type}

theorem foldlM_invariant {round : State → Label → Except Fault State} (property : State → Prop)
    (kept : ∀ state label next, property state → round state label = .ok next → property next)
    {labels : List Label} {state final : State} (holds : property state)
    (ran : labels.foldlM round state = .ok final) : property final := by
  induction labels generalizing state with
  | nil =>
    cases ran
    exact holds
  | cons label _ ih =>
    rw [List.foldlM_cons] at ran
    rcases taken : round state label with fault | next
    · rw [taken] at ran
      cases ran
    · rw [taken] at ran
      exact ih (kept state label next holds taken) ran

end

variable {State Label Key Cell Fault : Type} [DecidableEq Key]

/-- A round changes the cell of the key of its label, and no other one. -/
structure Pointwise (view : State → Key → Cell) (keyOf : Label → Key)
    (round : State → Label → State) (change : Label → Cell → Cell) : Prop where
  hit : ∀ state label,
    view (round state label) (keyOf label) = change label (view state (keyOf label))
  frame : ∀ state label key, key ≠ keyOf label → view (round state label) key = view state key

namespace Pointwise

variable {view : State → Key → Cell} {change : Key → Cell → Cell} {keys : List Key}

theorem foldl {keyOf : Label → Key} {round : State → Label → State} {change : Label → Cell → Cell}
    (pointwise : Pointwise view keyOf round change) (labels : List Label) (state : State)
    (key : Key) :
    view (labels.foldl round state) key =
      (labels.filter (keyOf · = key)).foldl (fun cell label => change label cell)
        (view state key) := by
  induction labels generalizing state with
  | nil => rfl
  | cons label _ ih =>
    rw [List.foldl_cons, ih]
    by_cases same : keyOf label = key
    · subst same
      rw [List.filter_cons_of_pos (by simp), List.foldl_cons, pointwise.hit]
    · rw [List.filter_cons_of_neg (by simpa using same),
        pointwise.frame state label key (Ne.symm same)]

theorem foldl_of_nodup {round : State → Key → State} (pointwise : Pointwise view id round change)
    (distinct : keys.Nodup) (state : State) (key : Key) :
    view (keys.foldl round state) key =
      if key ∈ keys then change key (view state key) else view state key := by
  rw [pointwise.foldl]
  have once : keys.filter (id · = key) = List.replicate (keys.count key) key := by
    simpa using keys.filter_eq key
  rw [once]
  split
  · next listed =>
    rw [List.count_eq_one_of_mem distinct listed]
    rfl
  · next absent =>
    rw [List.count_eq_zero_of_not_mem absent]
    rfl

theorem foldl_entries {Value : Key → Type} {round : State → Sigma Value → State}
    {change : Sigma Value → Cell → Cell} (pointwise : Pointwise view Sigma.fst round change)
    (table : AList Value) (state : State) (key : Key) :
    view (table.entries.foldl round state) key =
      (table.lookup key).elim (view state key) fun value =>
        change ⟨key, value⟩ (view state key) := by
  rcases table with ⟨entries, distinct⟩
  change _ = (entries.dlookup key).elim _ _
  induction entries generalizing state with
  | nil => rfl
  | cons entry _ ih =>
    rcases entry with ⟨wrote, value⟩
    rcases List.nodupKeys_cons.mp distinct with ⟨absent, distinct⟩
    rw [List.foldl_cons, ih _ distinct]
    by_cases same : key = wrote
    · subst same
      rw [List.dlookup_eq_none.mpr absent, List.dlookup_cons_eq]
      exact pointwise.hit state ⟨key, value⟩
    · rw [List.dlookup_cons_ne _ _ same, pointwise.frame state ⟨wrote, value⟩ key same]

def attempt (round : State → Label → Except Fault State) (state : State) (label : Label) : State :=
  match round state label with
  | .ok next => next
  | .error _ => state

theorem foldlM_eq_ok {round : State → Key → Except Fault State}
    (pointwise : Pointwise view id (attempt round) change) (Ready : Cell → Prop)
    (runs : ∀ state key, Ready (view state key) → ∃ next, round state key = .ok next)
    (keeps : ∀ key cell, Ready cell → Ready (change key cell)) {state : State}
    (ready : ∀ key ∈ keys, Ready (view state key)) :
    keys.foldlM round state = .ok (keys.foldl (attempt round) state) := by
  induction keys generalizing state with
  | nil => rfl
  | cons key _ ih =>
    rcases runs state key (ready key List.mem_cons_self) with ⟨next, ran⟩
    have attempted : attempt round state key = next := by simp [attempt, ran]
    rw [List.foldlM_cons, ran, List.foldl_cons, attempted]
    apply ih
    intro other mem
    have before := ready other (List.mem_cons_of_mem _ mem)
    rw [← attempted]
    by_cases same : other = key
    · subst same
      rw [show view (attempt round state other) other = _ from pointwise.hit state other]
      exact keeps other _ before
    · rw [pointwise.frame state key other same]
      exact before

end Pointwise

end Library
