import Octopus.VM.CodeBitmap
import Octopus.VM.Metering

/-!
# The program counter

At the start of every round the program counter is on an instruction boundary of the code
or past its end.  The frames of one code share its analysis under the code hash.
-/

namespace Octopus

open Library

def JumpTarget (code : Bytes) (pc : Nat) : Prop :=
  code[pc]? = some 0x5b ∧ Boundary code pc

/-- The code hash of a round stands for its code, whose length is an `int`. -/
def Round.Identified (codeOf : Hash → Bytes) (round : Round) : Prop :=
  (round.frame.contract.codeHash ≠ 0 →
    round.frame.contract.code = codeOf round.frame.contract.codeHash) ∧
  round.frame.contract.code.length < 2 ^ 63

instance (codeOf : Hash → Bytes) (round : Round) : Decidable (round.Identified codeOf) :=
  inferInstanceAs (Decidable (_ ∧ _))

def World.Analysed (codeOf : Hash → Bytes) (world : World) : Prop :=
  ∀ hash bits, world.jumpdests hash = some bits → bits = codeBitmap (codeOf hash)

/-- Runs with any panic, in which a code hash stands for one code. -/
def Regime.identified (ovm : OVM) (codeOf : Hash → Bytes) : Regime where
  ovm := ovm
  guard _ _ _ := true
  analysed hash bits := bits = codeBitmap (codeOf hash)
  faulty reason := ∃ message, reason = .panic message
  assumed := Round.Identified codeOf
  keeps _ := True
  restricted := False
  metered := False

def OnBoundary (code : Bytes) (pc : Nat) : Prop :=
  code.length ≤ pc ∨ Boundary code pc

section

variable {ovm : OVM} {codeOf : Hash → Bytes} {round : Round}

section

variable (identified : round.Identified codeOf)
include identified

theorem bits_of_trusted {bits : Bytes} (trusted : bits = codeBitmap round.frame.contract.code ∨
      round.frame.contract.codeHash ≠ 0 ∧
        bits = codeBitmap (codeOf round.frame.contract.codeHash)) :
    bits = codeBitmap round.frame.contract.code := by
  rcases trusted with own | ⟨hashed, shared⟩
  · exact own
  · rwa [← identified.1 hashed] at shared

theorem jumpTarget_of_landing {pc : Nat}
    (landing : ((Regime.identified ovm codeOf).view round.frame.contract).Landing pc) :
    JumpTarget round.frame.contract.code pc := by
  rcases landing with ⟨-, jumpdest, bits, trusted, unmarked⟩
  cases bits_of_trusted identified trusted
  exact ⟨jumpdest, boundary_of_unmarked (List.getElem?_eq_some_iff.mp jumpdest).1 unmarked⟩

theorem onBoundary_of_flow {pc next : Nat} (small : pc < uint64Size)
    (start : OnBoundary round.frame.contract.code pc)
    (flow : ((Regime.identified ovm codeOf).view round.frame.contract).Flow pc next) :
    next < uint64Size ∧ OnBoundary round.frame.contract.code next := by
  rcases flow with ⟨-, moved⟩ | ⟨-, landing⟩
  · change next = (pc + (opAt round.frame.contract.code pc).immediate + 1) % uint64Size at moved
    refine ⟨moved ▸ Nat.mod_lt _ (by decide), ?_⟩
    have length := identified.2
    by_cases inside : pc < round.frame.contract.code.length
    · have bound : (opAt round.frame.contract.code pc).immediate ≤ 32 := by
        rw [opAt_immediate inside]
        split <;> omega
      rw [Nat.mod_eq_of_lt (by unfold uint64Size; omega)] at moved
      subst moved
      exact .inr ((start.resolve_left (by omega)).next inside)
    have halts : opAt round.frame.contract.code pc = .stop := by
      unfold opAt
      rw [List.getElem?_eq_none (by omega)]
    rw [halts] at moved
    change next = (pc + 1) % uint64Size at moved
    -- Behind the end of the code the counter can only wrap around to its start.
    by_cases last : pc + 1 < uint64Size
    · rw [Nat.mod_eq_of_lt last] at moved
      exact .inl (by omega)
    · have wraps : pc + 1 = uint64Size := by omega
      rw [wraps, Nat.mod_self] at moved
      exact .inr (moved ▸ .start)
  · exact ⟨landing.small, .inr (jumpTarget_of_landing identified landing).2⟩

theorem onBoundary_of_reached {pc : Nat} (reached : Relation.ReflTransGen
      ((Regime.identified ovm codeOf).view round.frame.contract).Flow 0 pc) :
    pc < uint64Size ∧ OnBoundary round.frame.contract.code pc := by
  induction reached with
  | refl => exact ⟨by decide, .inr .start⟩
  | tail _ flow ih => exact onBoundary_of_flow identified ih.1 ih.2 flow

end

/-- Where a round is, and where it jumps to. -/
structure Round.Placed (round : Round) : Prop where
  pc : OnBoundary round.frame.contract.code round.frame.pc
  jump : ∀ next, round.next = some next → round.op = .jump →
    JumpTarget round.frame.contract.code next.pc
  jumpi : ∀ next, round.next = some next → round.op = .jumpi →
    next.pc = round.frame.pc + 1 ∨ JumpTarget round.frame.contract.code next.pc

theorem placed_of_good (identified : round.Identified codeOf)
    (good : (Regime.identified ovm codeOf).Good round) : round.Placed := by
  have here := onBoundary_of_reached identified good.reached
  refine ⟨here.2, ?_, ?_⟩
  · intro next isNext jumps
    rcases good.flow next isNext with ⟨straight, -⟩ | ⟨-, landing⟩
    · exact absurd jumps straight
    · exact jumpTarget_of_landing identified landing
  · intro next isNext jumps
    rcases good.flow next isNext with ⟨-, moved⟩ | ⟨-, landing⟩
    · left
      change opAt round.frame.contract.code round.frame.pc = .jumpi at jumps
      change next.pc = (round.frame.pc + (opAt round.frame.contract.code round.frame.pc).immediate +
        1) % uint64Size at moved
      rw [jumps] at moved
      change next.pc = (round.frame.pc + 1) % uint64Size at moved
      have inside : round.frame.pc < round.frame.contract.code.length := by
        by_contra past
        unfold opAt at jumps
        rw [List.getElem?_eq_none (by omega)] at jumps
        cases jumps
      have length := identified.2
      rwa [Nat.mod_eq_of_lt (by unfold uint64Size; omega)] at moved
    · exact .inr (jumpTarget_of_landing identified landing)

variable [Crypto]

theorem identified_sound (ovm : OVM) (codeOf : Hash → Bytes) :
    (Regime.identified ovm codeOf).Sound :=
  { gas_sound ovm with
    shared := fun _ identified hashed => congrArg codeBitmap (identified.1 hashed)
    supplied := .inl fun msg => ⟨msg, rfl⟩
    modest := False.elim }

theorem identified_conducts (ovm : OVM) (codeOf : Hash → Bytes) (fuel : Nat) :
    (Regime.identified ovm codeOf).Conducts fuel (ovm.run fuel) (ovm.rounds fuel) := by
  rw [← OVM.guardedRun_accept]
  exact conducts_guardedRun (identified_sound ovm codeOf) fuel

namespace OVM

/-- In every run that a call or a creation starts, each round is on an instruction boundary or
past the end of its code, and jumps only to declared destinations at such boundaries. -/
theorem rounds_placed (ovm : OVM) (codeOf : Hash → Bytes) (fuel : Nat) (level : Level)
    (caller : ContractRef) (gas : Nat) (value : Int) (before : World)
    (analysed : before.Analysed codeOf) :
    (∀ addr input,
      (∀ round ∈ callRounds (ovm.rounds fuel) level caller addr input gas value before,
        round.Identified codeOf) →
      ∀ round ∈ callRounds (ovm.rounds fuel) level caller addr input gas value before,
        round.Placed) ∧
    (∀ code,
      (∀ round ∈ createWithNonceRounds ovm (ovm.rounds fuel) level caller code gas value before,
        round.Identified codeOf) →
      ∀ round ∈ createWithNonceRounds ovm (ovm.rounds fuel) level caller code gas value before,
        round.Placed) ∧
    ∀ code salt,
      (∀ round ∈ createWithSaltRounds ovm (ovm.rounds fuel) level caller code gas value salt before,
        round.Identified codeOf) →
      ∀ round ∈ createWithSaltRounds ovm (ovm.rounds fuel) level caller code gas value salt before,
        round.Placed := by
  have sound := identified_sound ovm codeOf
  have conducts := identified_conducts ovm codeOf fuel
  have start : (Regime.identified ovm codeOf).Holds before := ⟨analysed, trivial⟩
  refine ⟨?_, ?_, ?_⟩
  · intro addr input identified round inside
    have ran := conducted_call sound conducts False.elim False.elim start trivial identified
    exact placed_of_good (identified round inside) (ran.good round inside)
  · intro code identified round inside
    have ran := conducted_createWithNonce sound conducts False.elim False.elim start
      (fun _ => trivial) identified
    exact placed_of_good (identified round inside) (ran.good round inside)
  · intro code salt identified round inside
    have ran := conducted_create sound conducts False.elim False.elim start (fun _ => trivial)
      identified
    exact placed_of_good (identified round inside) (ran.good round inside)

end OVM

end

attribute [local instance] sampleCrypto

def jumpingCode : Bytes :=
  [0x60, 4, 0x56, 0xfe, 0x5b, 0x00]

def jumpingWorld : World where
  db := contractDB jumpingCode
    0xe852d5b1f0c8d9d265464deb3714fa277dd53bb0d39d0b254810b1faa263fb9a

theorem jumping_rounds_placed :
    (OVM.callRounds (sampleOVM.rounds 9) {} (.account 0x11) 0xc0 [] 100 0 jumpingWorld).length = 4 ∧
      ∀ round ∈ OVM.callRounds (sampleOVM.rounds 9) {} (.account 0x11) 0xc0 [] 100 0 jumpingWorld,
        round.Placed := by
  have identified : (OVM.callRounds (sampleOVM.rounds 9) {} (.account 0x11) 0xc0 [] 100 0
      jumpingWorld).all (fun round => decide (round.Identified fun _ => jumpingCode)) = true := by
    decide +kernel
  simp only [List.all_eq_true, decide_eq_true_eq] at identified
  refine ⟨by decide +kernel, ?_⟩
  exact (OVM.rounds_placed sampleOVM (fun _ => jumpingCode) 9 {} (.account 0x11) 100 0 jumpingWorld
    (by intro hash bits found; cases found)).1 0xc0 [] identified

end Octopus
