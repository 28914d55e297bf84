import Octopus.VM.Step

/-!
# The interpreter loop

What every round keeps, the whole loop keeps, for any handler that upholds the protocol of
the frame.  A round that goes on uses up gas, so a loop with more fuel than gas ends.
-/

namespace Octopus

open Library List

variable {old : World} {frame : Frame} {less : Nat}

namespace Setting

variable (setting : Setting)

structure Own (round : Round) : Prop where
  level : round.level = setting.level
  ready : setting.Ready round.frame
  reached : Relation.ReflTransGen setting.Flow 0 round.frame.pc
  flow : ∀ next, round.next = some next → setting.Flow round.frame.pc next.pc
  gas : ∀ next, round.next = some next → setting.Metered →
    next.contract.gas + 1 ≤ round.frame.contract.gas

/-- How a loop fails: with a fault that an answer stopped with, or because it
was given too little fuel. -/
def LoopFails (fuel gas : Nat) (reason : Fault) (log : List Round) : Prop :=
  (setting.faulty reason ∨ reason = .outOfFuel ∧ ¬ (setting.Metered ∧ gas < fuel)) ∧
    (setting.Metered → log.length ≤ gas + 1)

end Setting

variable {env : Setting} {limit : Nat} {invariant : World → Prop} {assumed : Round → Prop}
  {handler : (query : Request) → Go World query.Reply} {opened : Request → World → List Round}

theorem Setting.Asks.mono {query : Request} (asked : env.Asks less query)
    (bounded : env.Metered → less ≤ limit) : env.Asks limit query := by
  refine ⟨asked.readOnly, ?_, asked.analysis⟩
  intro gas handed metered
  exact (asked.gas gas handed metered).trans (bounded metered)

theorem upholds_of_le (bounded : env.Metered → less ≤ limit)
    (upholds : Interaction.Upholds (env.protocol limit) invariant assumed opened handler) :
    Interaction.Upholds (env.protocol less) invariant assumed opened handler := by
  intro query old asked
  exact upholds query old (Setting.Asks.mono asked bounded)

variable [Crypto]

theorem loopRounds_head (ovm : OVM) (level : Level) (fuel : Nat) (frame : Frame) (old : World) :
    ∃ next rest, OVM.loopRounds ovm level handler opened (fuel + 1) frame old =
      ⟨level, frame, next⟩ :: rest := by
  unfold OVM.loopRounds
  split <;> exact ⟨_, _, rfl⟩

variable (ranged : env.Ranged)
  (upholds : Interaction.Upholds (env.protocol limit) invariant assumed opened handler)
include ranged upholds

theorem round_runs (ready : env.Ready frame) (bounded : env.Metered → frame.contract.gas ≤ limit)
    (provided : env.Provided (opAt env.code frame.pc)) (tempered : env.Tempered frame)
    (start : invariant old)
    (trusted : ∀ round ∈ (stepInstruction env.ovm env.level frame).performLog handler opened
      old, assumed round) :
    let children := (stepInstruction env.ovm env.level frame).performLog handler opened old
    (∀ result new,
      (stepInstruction env.ovm env.level frame).perform handler old = .ok (result, new) →
        (env.StepEnds frame result children ∧ ∀ round ∈ children, env.good round) ∧ invariant new) ∧
    ∀ reason, (stepInstruction env.ovm env.level frame).perform handler old = .error reason →
        env.Breaks frame.contract.gas reason children ∧ ∀ round ∈ children, env.good round := by
  have logged := Interaction.Meets.logged
    (fun query answer log (answered : env.Answers query answer log) => answered.1)
    (step_runs ranged ready provided tempered)
  exact Interaction.perform_meets (upholds_of_le bounded upholds) logged start trusted

theorem loop_runs (provided : ∀ round, assumed round → round.frame.contract.code = env.code →
      env.Provided round.op ∧ env.Tempered round.frame)
    (own : ∀ round, env.Own round → env.good round) (fuel : Nat)
    (ready : env.Ready frame) (reached : Relation.ReflTransGen env.Flow 0 frame.pc)
    (bounded : env.Metered → frame.contract.gas ≤ limit) (start : invariant old)
    (trusted : ∀ round ∈ OVM.loopRounds env.ovm env.level handler opened fuel frame old,
      assumed round) :
    let log := OVM.loopRounds env.ovm env.level handler opened fuel frame old
    (∀ outcome new world,
      (runLoop env.ovm env.level fuel frame).perform handler old = .ok ((outcome, new), world) →
        env.Costs frame.contract.gas new.contract.gas log ∧ invariant world) ∧
    (∀ reason, (runLoop env.ovm env.level fuel frame).perform handler old = .error reason →
        env.LoopFails fuel frame.contract.gas reason log) ∧
    ∀ round ∈ log, env.good round := by
  induction fuel generalizing frame old with
  | zero =>
    refine ⟨?_, ?_, by simp [OVM.loopRounds]⟩
    · intro outcome new world ran
      cases ran
    · intro reason failed
      cases failed
      exact ⟨.inr ⟨rfl, by omega⟩, fun _ => Nat.zero_le _⟩
  | succ fuel ih =>
    have provides : env.Provided (opAt env.code frame.pc) ∧ env.Tempered frame := by
      rcases loopRounds_head env.ovm env.level fuel frame old with ⟨next, _, isLog⟩
      have first := trusted ⟨env.level, frame, next⟩ (by rw [isLog]; exact .head _)
      have known := provided _ first ready.runner.code
      rwa [Round.op, Contract.getOp, ready.runner.code] at known
    simp only [OVM.perform_runLoop]
    unfold OVM.loopRounds at trusted ⊢
    have stepped := round_runs ranged upholds ready bounded provides.1 provides.2 start
    rcases performed : (stepInstruction env.ovm env.level frame).perform handler old with
      reason | ⟨⟨_ | outcome, next⟩, new⟩
    · simp only [performed] at trusted ⊢
      rcases stepped fun round inside => trusted round (.tail _ inside) with ⟨-, failed⟩
      rcases failed reason performed with ⟨⟨faulty, rounds⟩, good⟩
      refine ⟨?_, ?_, ?_⟩
      · intro outcome new world ran
        cases ran
      · rintro other failed
        cases failed
        exact ⟨.inl faulty, fun metered => Nat.succ_le_succ (rounds metered)⟩
      · refine forall_mem_cons.mpr ⟨own _ ⟨rfl, ready, reached, ?_, ?_⟩, good⟩ <;>
          intro next isNext <;> cases isNext
    · simp only [performed] at trusted ⊢
      rw [forall_mem_cons, forall_mem_append] at trusted
      rcases stepped trusted.2.1 with ⟨ran, -⟩
      rcases ran _ _ performed with ⟨⟨advances, good⟩, kept⟩
      change env.Advances frame next _ at advances
      have less : env.Metered → next.contract.gas ≤ limit := by
        intro metered
        have := advances.gas metered
        have := bounded metered
        omega
      rcases ih advances.ready (reached.tail advances.flow) less kept trusted.2.2 with
        ⟨ends, fails, laterGood⟩
      refine ⟨?_, ?_, ?_⟩
      · intro outcome last world ended
        rcases ends outcome last world ended with ⟨costs, lastKept⟩
        refine ⟨fun metered => ?_, lastKept⟩
        have spent := advances.gas metered
        rcases costs metered with ⟨_, _⟩
        simp only [length_cons, length_append]
        omega
      · intro reason failed
        rcases fails reason failed with ⟨blamed, rounds⟩
        refine ⟨blamed.imp_right ?_, fun metered => ?_⟩
        · rintro ⟨isFuel, short⟩
          refine ⟨isFuel, fun enough => short ⟨enough.1, ?_⟩⟩
          have := advances.gas enough.1
          omega
        · have := advances.gas metered
          have := rounds metered
          simp only [length_cons, length_append]
          omega
      · refine forall_mem_cons.mpr ⟨own _ ⟨rfl, ready, reached, ?_, ?_⟩,
          forall_mem_append.mpr ⟨good, laterGood⟩⟩
        · intro following isNext
          cases isNext
          exact advances.flow
        · intro following isNext metered
          cases isNext
          have := advances.gas metered
          dsimp only
          omega
    · simp only [performed] at trusted ⊢
      rcases stepped fun round inside => trusted round (.tail _ inside) with ⟨ran, -⟩
      rcases ran _ _ performed with ⟨⟨ends, good⟩, kept⟩
      refine ⟨?_, ?_, ?_⟩
      · intro _ last world ran
        cases ran
        refine ⟨fun metered => ?_, kept⟩
        have spent := ends metered
        dsimp only at spent
        simp only [length_cons]
        omega
      · intro reason failed
        cases failed
      · refine forall_mem_cons.mpr ⟨own _ ⟨rfl, ready, reached, ?_, ?_⟩, good⟩ <;>
          intro next isNext <;> cases isNext

end Octopus
