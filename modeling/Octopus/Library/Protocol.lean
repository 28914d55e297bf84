import Mathlib.Data.List.Basic
import Octopus.Library.Interaction

/-!
# Protocols between programs and their handlers

A protocol says which queries a program may ask, with which replies or faults they may be
answered, and what log of events an answer may leave.  The program is checked without its
handler, and the handler query by query (`Interaction.perform_meets`).
-/

namespace Library

open Library.Computation

structure Protocol (Fault Query : Type) (Reply : Query → Type) (Event : Type) where
  asks : Query → Prop
  answers : (query : Query) → Except Fault (Reply query) → List Event → Prop

namespace Interaction

variable {Fault Query State Event Value Other : Type} {Reply : Query → Type}
  {protocol : Protocol Fault Query Reply Event} {program : Interaction Fault Query Reply Value}
  {breaks : Fault → List Event → Prop} {ends : Value → List Event → Prop}

/-- The program keeps to the protocol; what it returns satisfies the first condition together
with the log of the answers, and what it fails with the second. -/
def Meets (protocol : Protocol Fault Query Reply Event) :
    Interaction Fault Query Reply Value → (Value → List Event → Prop) →
      (Fault → List Event → Prop) → Prop
  | done value, ends, _ => ends value []
  | fail reason, _, breaks => breaks reason []
  | ask query next, ends, breaks =>
    protocol.asks query ∧
      (∀ reply log, protocol.answers query (.ok reply) log →
        (next reply).Meets protocol (fun value later => ends value (log ++ later))
          fun reason later => breaks reason (log ++ later)) ∧
      ∀ reason log, protocol.answers query (.error reason) log → breaks reason log

theorem Meets.mono {wider : Value → List Event → Prop} {looser : Fault → List Event → Prop}
    (meets : program.Meets protocol ends breaks)
    (ended : ∀ value log, ends value log → wider value log)
    (broken : ∀ reason log, breaks reason log → looser reason log) :
    program.Meets protocol wider looser := by
  induction program generalizing ends wider breaks looser with
  | done value => exact ended value [] meets
  | fail reason => exact broken reason [] meets
  | ask _ _ ih =>
    rcases meets with ⟨asked, replied, failed⟩
    refine ⟨asked, ?_, ?_⟩
    · intro reply log answered
      apply ih reply (replied reply log answered)
      · intro value later
        exact ended value (log ++ later)
      · intro reason later
        exact broken reason (log ++ later)
    · intro reason log answered
      exact broken reason log (failed reason log answered)

theorem Meets.andThen {next : Value → Interaction Fault Query Reply Other}
    {mid : Value → List Event → Prop} {ends : Other → List Event → Prop}
    (first : program.Meets protocol mid breaks) (second : ∀ value log, mid value log →
      (next value).Meets protocol (fun other later => ends other (log ++ later))
        fun reason later => breaks reason (log ++ later)) :
    (program.andThen next).Meets protocol ends breaks := by
  induction program generalizing mid ends breaks with
  | done value => exact second value [] first
  | fail => exact first
  | ask _ _ ih =>
    rcases first with ⟨asked, replied, failed⟩
    refine ⟨asked, ?_, failed⟩
    intro reply log answered
    apply ih reply (replied reply log answered)
    intro value later reached
    simpa only [List.append_assoc] using second value (log ++ later) reached

theorem Meets.logged {holds : Event → Prop}
    (sound : ∀ query answer log, protocol.answers query answer log → ∀ event ∈ log, holds event)
    (meets : program.Meets protocol ends breaks) :
    program.Meets protocol (fun value log => ends value log ∧ ∀ event ∈ log, holds event)
      fun reason log => breaks reason log ∧ ∀ event ∈ log, holds event := by
  induction program generalizing ends breaks with
  | done | fail => exact ⟨meets, by simp⟩
  | ask query _ ih =>
    rcases meets with ⟨asked, replied, failed⟩
    refine ⟨asked, ?_, ?_⟩
    · intro reply log answered
      have first := sound query _ log answered
      apply (ih reply (replied reply log answered)).mono
      · rintro value later ⟨ended, rest⟩
        exact ⟨ended, List.forall_mem_append.mpr ⟨first, rest⟩⟩
      · rintro reason later ⟨broken, rest⟩
        exact ⟨broken, List.forall_mem_append.mpr ⟨first, rest⟩⟩
    · intro reason log answered
      exact ⟨failed reason log answered, sound query _ log answered⟩

variable {handler : (query : Query) → Computation Fault State (Reply query)}

/-- What the answers log in a run, up to its end or its first fault. -/
def performLog (handler : (question : Query) → Computation Fault State (Reply question))
    (events : Query → State → List Event) :
    Interaction Fault Query Reply Value → State → List Event
  | done _, _ => []
  | fail _, _ => []
  | ask question next, before =>
    events question before ++
      match handler question before with
      | .error _ => []
      | .ok (reply, after) => (next reply).performLog handler events after

/-- From states that satisfy an invariant, the handler answers as the protocol says and keeps
the invariant, as long as the events are as assumed. -/
def Upholds (protocol : Protocol Fault Query Reply Event) (invariant : State → Prop)
    (assumed : Event → Prop) (events : Query → State → List Event)
    (handler : (question : Query) → Computation Fault State (Reply question)) : Prop :=
  ∀ question before, protocol.asks question → invariant before →
    (∀ event ∈ events question before, assumed event) →
      (∀ reply after, handler question before = .ok (reply, after) →
        protocol.answers question (.ok reply) (events question before) ∧ invariant after) ∧
      ∀ reason, handler question before = .error reason →
        protocol.answers question (.error reason) (events question before)

theorem perform_andThen (program : Interaction Fault Query Reply Value)
    (next : Value → Interaction Fault Query Reply Other) : (program.andThen next).perform handler =
      program.perform handler >>= fun value => (next value).perform handler := by
  induction program with
  | done | fail => rfl
  | ask query _ ih =>
    funext old
    simp only [andThen, perform, bind_apply]
    rcases handler query old with reason | ⟨_, _⟩
    · rfl
    · simp [ih, bind_apply]

/-- A program that meets the protocol, run by a handler that upholds it, ends as promised. -/
theorem perform_meets {invariant : State → Prop} {assumed : Event → Prop}
    {events : Query → State → List Event}
    (upholds : Upholds protocol invariant assumed events handler)
    (meets : program.Meets protocol ends breaks) {old : State} (start : invariant old)
    (trusted : ∀ event ∈ program.performLog handler events old, assumed event) :
    (∀ value new, program.perform handler old = .ok (value, new) →
      ends value (program.performLog handler events old) ∧ invariant new) ∧
    ∀ reason, program.perform handler old = .error reason →
      breaks reason (program.performLog handler events old) := by
  induction program generalizing ends breaks old with
  | done =>
    refine ⟨?_, ?_⟩
    · intro result new ran
      rcases Computation.pure_eq_ok.mp ran with ⟨rfl, rfl⟩
      exact ⟨meets, start⟩
    · intro reason failed
      cases failed
  | fail =>
    refine ⟨?_, ?_⟩
    · intro result new ran
      cases ran
    · intro other failed
      cases failed
      exact meets
  | ask query _ ih =>
    rcases meets with ⟨asked, replied, failed⟩
    simp only [performLog, List.forall_mem_append] at trusted
    rcases upholds query old asked start trusted.1 with ⟨answered, refused⟩
    rcases handled : handler query old with reason | ⟨reply, mid⟩
    · refine ⟨?_, ?_⟩
      · intro result new ran
        simp only [perform, bind_apply, handled] at ran
        cases ran
      · intro other broke
        simp only [perform, bind_apply, handled] at broke
        cases broke
        simpa only [performLog, handled, List.append_nil] using
          failed reason _ (refused reason handled)
    · rcases answered reply mid handled with ⟨good, kept⟩
      have rest := trusted.2
      simp only [handled] at rest
      have later := ih reply (replied reply _ good) kept rest
      simpa only [perform, performLog, bind_apply, handled] using later

end Interaction

end Library
