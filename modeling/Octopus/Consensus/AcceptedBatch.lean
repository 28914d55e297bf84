import Octopus.Miner.Preparation

/-!
# Accepted batches

A batch of headers that `VerifyHeaders` accepts is a chain.
-/

namespace Octopus

open Params

section

variable [Crypto] {engine : PowEngine} {config : ChainConfig} {parent header : Header}
  {unixNow : Int} {checkSeal : Bool}

structure Header.Follows (header parent : Header) : Prop where
  number : header.number = parent.number + 1
  time : parent.time < header.time
  difficulty : minimumDifficulty ≤ header.difficulty
  limit : minGasLimit ≤ header.gasLimit ∧ header.gasLimit ≤ maxGasLimit
  used : header.gasUsed ≤ header.gasLimit

theorem PowEngine.follows_of_verifyHeader
    (accepted : engine.verifyHeader config header parent false checkSeal unixNow = .ok none) :
    header.Follows parent := by
  rcases verifyHeader_eq_none accepted with ⟨stamped, fees⟩
  rcases verifyStamp_eq_none_iff.mp stamped with ⟨-, later, difficulty, limit, used⟩
  refine ⟨?_, later, ?_, ⟨verifyFees_min fees, limit⟩, used⟩
  · by_contra differs
    have apart : (header.number : Int) - parent.number ≠ 1 := by omega
    simp only [verifyHeader, stamped, fees, if_pos apart] at accepted
    cases accepted
  · rw [← difficulty]
    exact (calcDifficulty_retargets config).minimum _ parent

variable [Encoding] {chain : ChainHeaderReader} {batch : List (Header × Bool)} {first next : Header}
  {index : Nat}

variable (normal : engine.settings.powMode ≠ .fullFake)
  (accepted : ∀ verdict ∈ engine.verdicts chain batch unixNow, verdict = .ok none)
include normal accepted

namespace PowEngine

theorem follows_of_accepted (here : (batch.map Prod.fst)[index]? = some header) :
    ∃ parent, batchParent chain (batch.map Prod.fst) none index = some parent ∧
      header.Follows parent := by
  rw [List.getElem?_map, Option.map_eq_some_iff] at here
  rcases here with ⟨⟨header, checkSeal⟩, listed, rfl⟩
  have verified : engine.verifyHeaderWorker chain (batch.map Prod.fst) unixNow index header
      checkSeal = .ok none := by
    refine accepted _ (List.mem_iff_getElem?.mpr ⟨index, ?_⟩)
    simp [verdicts, normal, sequentialVerdicts, listed]
  rw [verifyHeaderWorker] at verified
  rcases isParent : batchParent chain (batch.map Prod.fst) none index with _ | parent
  · simp only [isParent] at verified
    cases verified
  · simp only [isParent] at verified
    exact ⟨parent, rfl, follows_of_verifyHeader verified⟩

theorem next_of_accepted (here : (batch.map Prod.fst)[index]? = some header)
    (after : (batch.map Prod.fst)[index + 1]? = some next) :
    next.parentHash = header.hash ∧ next.Follows header := by
  rcases follows_of_accepted normal accepted after with ⟨_, isParent, follows⟩
  simp only [batchParent, here, after, Option.ite_none_right_eq_some] at isParent
  rcases isParent with ⟨link, ⟨⟩⟩
  exact ⟨link.symm, follows⟩

/-- The headers of an accepted batch are linked to one another and to a stored header, with
consecutive numbers and rising times. -/
theorem accepted_batch_linked (starts : (batch.map Prod.fst)[0]? = some first) :
    ∃ parent, chain.getHeader first.parentHash first.parentNumber = some parent ∧
      ∀ index header, (batch.map Prod.fst)[index]? = some header →
        header.number = parent.number + index + 1 ∧ parent.time + index < header.time ∧
        minimumDifficulty ≤ header.difficulty ∧ minGasLimit ≤ header.gasLimit ∧
        header.gasLimit ≤ maxGasLimit ∧ header.gasUsed ≤ header.gasLimit ∧
        ∀ next, (batch.map Prod.fst)[index + 1]? = some next →
          next.parentHash = header.hash ∧ header.time < next.time := by
  rcases follows_of_accepted normal accepted starts with ⟨parent, isParent, follows⟩
  simp only [batchParent, starts] at isParent
  have counted : ∀ index header, (batch.map Prod.fst)[index]? = some header →
      header.number = parent.number + index + 1 ∧ parent.time + index < header.time := by
    intro index
    induction index with
    | zero =>
      intro header here
      cases starts.symm.trans here
      exact ⟨follows.number, follows.time⟩
    | succ index ih =>
      intro next after
      have within := Nat.lt_of_succ_lt (List.getElem?_eq_some_iff.mp after).1
      have here := List.getElem?_eq_getElem within
      have later := (next_of_accepted normal accepted here after).2
      have before := ih _ here
      have number := later.number
      have time := later.time
      omega
  refine ⟨parent, isParent, fun index header here => ?_⟩
  rcases follows_of_accepted normal accepted here with ⟨_, -, bounds⟩
  refine ⟨(counted _ _ here).1, (counted _ _ here).2, bounds.difficulty, bounds.limit.1,
    bounds.limit.2, bounds.used, fun next after => ?_⟩
  rcases next_of_accepted normal accepted here after with ⟨link, later⟩
  exact ⟨link, later.time⟩

end PowEngine

end

theorem sample_accepted_batch :
    letI := sampleCrypto
    letI := blankEncoding
    ∃ parent, frontierMiner.getHeader 0 2 = some parent ∧ 4 = parent.number + 1 + 1 := by
  let := sampleCrypto
  let := blankEncoding
  let batch : List (Header × Bool) :=
    [({ frontierParent with number := 3, time := 3, difficulty := 131200 }, false),
      ({ frontierParent with number := 4, time := 4, difficulty := 131264 }, false)]
  have verdicts : plainEngine.verdicts frontierMiner batch 4 = [.ok none, .ok none] := rfl
  have accepted : ∀ verdict ∈ plainEngine.verdicts frontierMiner batch 4, verdict = .ok none := by
    simp [verdicts]
  rcases PowEngine.accepted_batch_linked (by decide) accepted rfl with ⟨parent, found, chained⟩
  exact ⟨parent, found, (chained 1 _ rfl).1⟩

end Octopus
