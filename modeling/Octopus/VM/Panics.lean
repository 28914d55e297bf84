import Octopus.VM.Boundary

/-!
# Panics

The checks of the interpreter loop rule out every panic of the instructions themselves.
What is left are the panics of `Snapshot`, `AddPreimage` and `SubRefund` behind the requests,
and `BASEFEE` and `CHAINID`, which read through pointers that can be nil.
-/

namespace Octopus

open Library Library.Computation OVM

variable {reason : Fault} {ovm : OVM} {Value : Type} {run : Except Fault (Value × World)}

def Round.Equipped (ovm : OVM) (round : Round) : Prop :=
  (round.op = .basefee → ovm.context.baseFee.isSome = true) ∧
    (round.op = .chainid → ovm.chainConfig.chainID.isSome = true)

instance (ovm : OVM) (round : Round) : Decidable (round.Equipped ovm) :=
  inferInstanceAs (Decidable (_ ∧ _))

section

variable [Crypto]

/-- Runs without a panic, whose gas is accounted for under a condition. -/
def Regime.panicless (ovm : OVM) (codeOf : Hash → Bytes) (metered : Prop) : Regime where
  ovm := ovm
  guard := Octopus.panicless
  analysed hash bits := bits = codeBitmap (codeOf hash)
  faulty reason := reason = .panic "rejected"
  assumed round := round.Identified codeOf ∧ round.Equipped ovm ∧ (metered → round.Metered ovm)
  keeps _ := True
  restricted := False
  metered := metered

theorem panicless_sound (ovm : OVM) (codeOf : Hash → Bytes) (metered : Prop) :
    (Regime.panicless ovm codeOf metered).Sound where
  deepest := le_rfl
  rejected := rfl
  answered _ _ _ _ _ _ _ _ _ _ _ := trivial
  refused _ _ _ _ _ unopened passes failed :=
    absurd passes (Bool.eq_false_iff.mp (answer_fails unopened failed).2)
  called _ _ _ _ _ _ _ _ _ _ := trivial
  created := .inr fun _ => trivial
  shared _ assumed hashed := congrArg codeBitmap (assumed.1.1 hashed)
  supplied := by
    refine .inr fun round assumed => ⟨?_, assumed.2.1.1, assumed.2.1.2⟩
    intro bits _ trusted inside
    rw [bits_of_trusted assumed.1 trusted]
    exact codeBitmap_covers inside
  modest isMetered := by
    by_cases capped : ovm.rules.isEIP150 = true
    · exact .inl capped
    · exact .inr fun _ assumed => (assumed.2.2 isMetered).resolve_left capped

/-- A guarded run that is not rejected, with known codes, base fee and chain identifier. -/
def Unrejected {Value : Type} (ovm : OVM) (codeOf : Hash → Bytes)
    (guarded : Except Fault (Value × World)) (rounds : List Round) : Prop :=
  guarded ≠ .error (.panic "rejected") ∧
    ∀ round ∈ rounds, round.Identified codeOf ∧ round.Equipped ovm

structure Panicless {Value : Type} (ovm : OVM) (fuel gas : Nat) (rounds : List Round)
    (run : Except Fault (Value × World)) : Prop where
  panics : ∀ message, run ≠ .error (.panic message)
  returns : (∀ round ∈ rounds, round.Metered ovm) → gas + 2 ≤ fuel → ∃ result, run = .ok result

theorem panicless_of_conducted {left : Value → Nat} {codeOf : Hash → Bytes} {fuel gas : Nat}
    {rounds : List Round} (accepted : run ≠ .error (.panic "rejected"))
    (conducted : (Regime.panicless ovm codeOf (∀ round ∈ rounds, round.Metered ovm)).Conducted left
      fuel gas run rounds) : Panicless ovm fuel gas rounds run := by
  refine ⟨?_, ?_⟩
  · intro _ failed
    rcases (conducted.failed _ failed).1 with rejected | ⟨isFuel, -⟩
    · rw [rejected] at failed
      exact accepted failed
    · cases isFuel
  · intro metered enough
    rcases ran : run with reason | result
    · rcases (conducted.failed _ ran).1 with rejected | ⟨-, short⟩
      · rw [ran, rejected] at accepted
        exact absurd rfl accepted
      · exact absurd ⟨metered, enough⟩ short
    · exact ⟨result, rfl⟩

namespace OVM

/-- No call and no creation panics, as long as no request does and the base fee and the chain
identifier are set where they are read. -/
theorem never_panics (ovm : OVM) (codeOf : Hash → Bytes) (fuel : Nat) (level : Level)
    (caller : ContractRef) (gas : Nat) (value : Int) (before : World) (bounded : gas < uint64Size)
    (analysed : before.Analysed codeOf) :
    (∀ addr input,
      Unrejected ovm codeOf
          (call (ovm.guardedRun panicless fuel) level caller addr input gas value before)
          (callRounds (ovm.guardedRounds panicless fuel) level caller addr input gas value before) →
        Panicless ovm fuel gas
          (callRounds (ovm.guardedRounds panicless fuel) level caller addr input gas value before)
          (call (ovm.run fuel) level caller addr input gas value before)) ∧
    ∀ code,
      Unrejected ovm codeOf
          (createWithNonce ovm (ovm.guardedRun panicless fuel) level caller code gas value before)
          (createWithNonceRounds ovm (ovm.guardedRounds panicless fuel) level caller code gas value
            before) →
        Panicless ovm fuel gas
          (createWithNonceRounds ovm (ovm.guardedRounds panicless fuel) level caller code gas value
            before) (createWithNonce ovm (ovm.run fuel) level caller code gas value before) := by
  refine ⟨?_, ?_⟩
  · rintro addr input ⟨accepted, equipped⟩
    have sound := panicless_sound ovm codeOf (∀ round ∈ callRounds
      (ovm.guardedRounds panicless fuel) level caller addr input gas value before,
        round.Metered ovm)
    have ran := conducted_call sound (conducts_guardedRun sound fuel) (fun _ => bounded) False.elim
      ⟨analysed, trivial⟩ trivial fun round inside =>
        ⟨(equipped round inside).1, (equipped round inside).2, fun metered => metered round inside⟩
    rcases call_agrees (guardedRun_agrees panicless fuel) _ _ _ _ _ _ before with same | rejected
    · rw [← same]
      exact panicless_of_conducted accepted ran
    · exact absurd rejected accepted
  · rintro code ⟨accepted, equipped⟩
    have sound := panicless_sound ovm codeOf (∀ round ∈ createWithNonceRounds ovm
      (ovm.guardedRounds panicless fuel) level caller code gas value before, round.Metered ovm)
    have ran := conducted_createWithNonce sound (conducts_guardedRun sound fuel) (fun _ => bounded)
      False.elim ⟨analysed, trivial⟩ (fun _ => trivial) fun round inside =>
        ⟨(equipped round inside).1, (equipped round inside).2, fun metered => metered round inside⟩
    rcases createWithNonce_agrees (guardedRun_agrees panicless fuel) _ _ _ _ _ before with
      same | rejected
    · rw [← same]
      exact panicless_of_conducted accepted ran
    · exact absurd rejected accepted

end OVM

end

attribute [local instance] sampleCrypto

theorem jumping_call_returns :
    ∃ result, OVM.call (sampleOVM.run 102) {} (.account 0x11) 0xc0 [] 100 0 jumpingWorld =
      .ok result := by
  have rounds : (OVM.callRounds (sampleOVM.guardedRounds panicless 102) {} (.account 0x11) 0xc0 []
      100 0 jumpingWorld).all (fun round => decide (round.Identified fun _ => jumpingCode) &&
        decide (round.Equipped sampleOVM) && decide (round.Metered sampleOVM)) = true := by
    decide +kernel
  simp only [List.all_eq_true, Bool.and_eq_true, decide_eq_true_eq] at rounds
  have accepted : returns (fun _ _ => true) (OVM.call (sampleOVM.guardedRun panicless 102) {}
      (.account 0x11) 0xc0 [] 100 0 jumpingWorld) = true := by
    decide +kernel
  rcases exists_of_returns accepted with ⟨result, _, ran, -⟩
  have safe := (OVM.never_panics sampleOVM (fun _ => jumpingCode) 102 {} (.account 0x11) 100 0
    jumpingWorld (by decide) (by intro hash bits found; cases found)).1 0xc0 []
    ⟨by rw [ran]; simp, fun round inside => (rounds round inside).1⟩
  exact safe.returns (fun round inside => (rounds round inside).2) le_rfl

def faultOf {Value : Type} : Except Fault (Value × World) → Option Fault
  | .error reason => some reason
  | .ok _ => none

theorem eq_error_of_faultOf (stopped : faultOf run = some reason) : run = .error reason := by
  cases run with
  | error =>
    cases stopped
    rfl
  | ok => cases stopped

def staticCallWorld : World where
  db := contractDB [0x60, 0, 0x60, 0, 0x60, 0, 0x60, 0, 0x60, 0x22, 0x61, 0xff, 0xff, 0xfa, 0x00]
    0x8857ddb1aabe079567443df67b211e99707598e5e9d937f175d92c505eb476bb

def baseFeeWorld : World where
  db := contractDB [0x48, 0x00]
    0x88d543418f3070630f074da468acc8d0319cfd461ed5260de1c0fde1672e50db

/-- A static call asks for a snapshot, and the base fee is not set. -/
theorem static_call_panics :
    OVM.call (sampleOVM.run 12) {} (.account 0x11) 0xc0 [] 100000 0 staticCallWorld =
        .error (.panic "implement me") ∧
      OVM.call (sampleOVM.run 12) {} (.account 0x11) 0xc0 [] 100000 0 baseFeeWorld =
        .error (.panic "nil pointer dereference") :=
  ⟨eq_error_of_faultOf (by decide +kernel), eq_error_of_faultOf (by decide +kernel)⟩

end Octopus
