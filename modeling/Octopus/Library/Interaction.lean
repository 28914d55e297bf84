import Mathlib.Order.Defs.Unbundled

/-!
# Stateful computations and the programs that drive them

A computation works on a state and returns a value or stops with a fault.  An interaction
is a program that touches the state only by queries, which a handler answers.  What every
answer respects, the run respects (`perform_related`), and a handler that answers more
often gives a run that returns more often (`perform_agrees`).
-/

namespace Library

universe u

abbrev Computation (Fault State Value : Type) := StateT State (Except Fault) Value

namespace Computation

variable {Fault State Value Other : Type} {computation : Computation Fault State Value}
  {next : Value → Computation Fault State Other} {relation : State → State → Prop} {reason : Fault}
  {old new : State} {result value : Value}

def fault (reason : Fault) : Computation Fault State Value :=
  fun _ => .error reason

def restrict (test : State → Bool) (reason : Fault)
    (computation : Computation Fault State Value) : Computation Fault State Value :=
  fun before => if test before then computation before else .error reason

def returns (test : Value → State → Bool) : Except Fault (Value × State) → Bool
  | .error _ => false
  | .ok (value, after) => test value after

/-- Every returning run of the computation relates the state before it to the state after it. -/
def Related (relation : State → State → Prop)
    (computation : Computation Fault State Value) : Prop :=
  ∀ ⦃before after : State⦄ ⦃value : Value⦄,
    computation before = .ok (value, after) → relation before after

def Refines (first second : Computation Fault State Value) : Prop :=
  ∀ ⦃before after : State⦄ ⦃value : Value⦄,
    first before = .ok (value, after) → second before = .ok (value, after)

/-- The first computation stops with one fault or runs as the second does. -/
def Agrees (stop : Fault) (first second : Computation Fault State Value) : Prop :=
  ∀ before, first before = second before ∨ first before = .error stop

theorem bind_apply (computation : Computation Fault State Value)
    (next : Value → Computation Fault State Other) (old : State) :
    (computation >>= next) old =
      match computation old with
      | .error reason => .error reason
      | .ok (value, mid) => next value mid := by
  simp only [bind, StateT.bind]
  rcases computation old with reason | ⟨value, mid⟩ <;> rfl

theorem bind_eq_ok {other : Other} : (computation >>= next) old = .ok (other, new) ↔
      ∃ value mid, computation old = .ok (value, mid) ∧ next value mid = .ok (other, new) := by
  rw [bind_apply]
  rcases computation old with reason | ⟨value, mid⟩
  · simp
  constructor
  · intro ran
    exact ⟨value, mid, rfl, ran⟩
  · rintro ⟨_, _, split, ran⟩
    cases split
    exact ran

@[simp]
theorem pure_eq_ok : (pure value : Computation Fault State Value) old = .ok (result, new) ↔
      value = result ∧ old = new := by
  change Except.ok (value, old) = .ok (result, new) ↔ _
  simp

@[simp]
theorem fault_eq_ok :
    (fault reason : Computation Fault State Value) old = .ok (result, new) ↔ False := by
  simp [fault]

theorem restrict_eq_ok {test : State → Bool} :
    computation.restrict test reason old = .ok (value, new) ↔
      test old = true ∧ computation old = .ok (value, new) := by
  unfold restrict
  by_cases accepted : test old = true <;> simp [accepted]

theorem exists_of_returns {test : Value → State → Bool} {run : Except Fault (Value × State)}
    (passes : returns test run = true) :
    ∃ value new, run = .ok (value, new) ∧ test value new = true := by
  rcases run with reason | ⟨value, new⟩
  · cases passes
  · exact ⟨value, new, rfl, passes⟩

theorem Related.pure [Std.Refl relation] (value : Value) :
    (Pure.pure value : Computation Fault State Value).Related relation := by
  intro old _ _ ran
  rcases pure_eq_ok.mp ran with ⟨_, rfl⟩
  exact Std.Refl.refl old

theorem Related.bind [IsTrans State relation] (first : computation.Related relation)
    (second : ∀ value, (next value).Related relation) :
    (computation >>= next).Related relation := by
  intro _ _ _ ran
  rcases bind_eq_ok.mp ran with ⟨value, _, ranFirst, ranSecond⟩
  exact IsTrans.trans _ _ _ (first ranFirst) (second value ranSecond)

section

variable {stop : Fault} {first second : Computation Fault State Value}

theorem Agrees.refl (computation : Computation Fault State Value) :
    computation.Agrees stop computation :=
  fun _ => .inl rfl

theorem Agrees.refines (agrees : first.Agrees stop second) : first.Refines second := by
  intro old _ _ ran
  rcases agrees old with same | stopped
  · rw [← same]
    exact ran
  · rw [stopped] at ran
    cases ran

theorem Agrees.restrict (agrees : first.Agrees stop second) (test : State → Bool) :
    (first.restrict test stop).Agrees stop second := by
  intro old
  unfold Computation.restrict
  split
  · exact agrees old
  · exact .inr rfl

theorem Agrees.bind {firstNext secondNext : Value → Computation Fault State Other}
    (computations : first.Agrees stop second)
    (continuations : ∀ value, (firstNext value).Agrees stop (secondNext value)) :
    (first >>= firstNext).Agrees stop (second >>= secondNext) := by
  intro old
  rw [bind_apply, bind_apply]
  rcases computations old with same | stopped
  · rw [same]
    rcases second old with reason | ⟨value, mid⟩
    · exact .inl rfl
    · exact continuations value mid
  · rw [stopped]
    exact .inr rfl

theorem Agrees.ite {condition : Prop} [Decidable condition]
    {firstElse secondElse : Computation Fault State Value}
    (positive : condition → first.Agrees stop second)
    (negative : ¬ condition → firstElse.Agrees stop secondElse) :
    (if condition then first else firstElse).Agrees stop
      (if condition then second else secondElse) := by
  by_cases holds : condition
  · simpa only [if_pos holds] using positive holds
  · simpa only [if_neg holds] using negative holds

end

end Computation

inductive Interaction (Fault Query : Type) (Reply : Query → Type) (Value : Type) where
  | done (value : Value)
  | fail (reason : Fault)
  | ask (query : Query) (next : Reply query → Interaction Fault Query Reply Value)

namespace Interaction

variable {Fault Query State Value Other : Type} {Reply : Query → Type}

def andThen : Interaction Fault Query Reply Value →
    (Value → Interaction Fault Query Reply Other) → Interaction Fault Query Reply Other
  | done value, next => next value
  | fail reason, _ => fail reason
  | ask query rest, next => ask query fun reply => (rest reply).andThen next

instance : Monad (Interaction Fault Query Reply) where
  pure := done
  bind := andThen

theorem andThen_done (program : Interaction Fault Query Reply Value) :
    program.andThen done = program := by
  induction program with
  | done | fail => rfl
  | ask _ _ ih => simp only [andThen, ih]

theorem andThen_assoc {Last : Type} (program : Interaction Fault Query Reply Value)
    (next : Value → Interaction Fault Query Reply Other)
    (last : Other → Interaction Fault Query Reply Last) : (program.andThen next).andThen last =
      program.andThen fun value => (next value).andThen last := by
  induction program with
  | done | fail => rfl
  | ask _ _ ih => simp only [andThen, ih]

instance : LawfulMonad (Interaction Fault Query Reply) :=
  LawfulMonad.mk' _ andThen_done (fun _ _ => rfl) andThen_assoc

def query (question : Query) : Interaction Fault Query Reply (Reply question) :=
  ask question done

def perform (handler : (question : Query) → Computation Fault State (Reply question)) :
    Interaction Fault Query Reply Value → Computation Fault State Value
  | done value => pure value
  | fail reason => Computation.fault reason
  | ask question next => handler question >>= fun reply => (next reply).perform handler

variable {handler other : (query : Query) → Computation Fault State (Reply query)}

theorem perform_related {relation : State → State → Prop} [IsPreorder State relation]
    (answers : ∀ query, (handler query).Related relation)
    (program : Interaction Fault Query Reply Value) :
    (program.perform handler).Related relation := by
  induction program with
  | done value => exact Computation.Related.pure value
  | fail =>
    intro _ _ value ran
    exact absurd ran (by simp [perform])
  | ask query _ ih => exact (answers query).bind ih

/-- Handlers that differ only where the first stops with one fault run every program to the same
result, or to that fault. -/
theorem perform_agrees {stop : Fault}
    (answers : ∀ query, (handler query).Agrees stop (other query))
    (program : Interaction Fault Query Reply Value) :
    (program.perform handler).Agrees stop (program.perform other) := by
  induction program with
  | done | fail => exact Computation.Agrees.refl _
  | ask query _ ih => exact (answers query).bind ih

end Interaction

end Library
