import Octopus.Consensus.Rules
import Mathlib.Order.Iterate

/-!
# The arithmetic of difficulty, gas limit and base fee

The clamps and the exponential part of the difficulty keep the order of the times.  The
distance of two gas limits is taken in `int64`, around the circle of the 64-bit numbers, so
near the ends of the range the rule is not the one of the integers.
-/

namespace Octopus

open Params

section

variable {periodCount difficulty later : Int}

theorem difficultyBomb_mono (ordered : difficulty ≤ later) :
    difficultyBomb periodCount difficulty ≤ difficultyBomb periodCount later := by
  simp only [difficultyBomb]
  split_ifs <;> omega

theorem le_difficultyBomb : difficulty ≤ difficultyBomb periodCount difficulty := by
  rw [difficultyBomb]
  split_ifs
  · have bomb : (0 : Int) < 2 ^ (periodCount - 2).toNat := Int.pow_pos (by decide)
    omega
  · exact le_rfl

theorem adjustDifficulty_mono (parent : Header) {steps more : Int} (ordered : steps ≤ more) :
    adjustDifficulty parent steps ≤ adjustDifficulty parent more := by
  have unit : (0 : Int) ≤ parent.difficulty / difficultyBoundDivisor :=
    Int.ediv_nonneg (by omega) (by decide)
  have clamped := Int.mul_le_mul_of_nonneg_left (max_le_max_right (-99) ordered) unit
  exact max_le_max_right _ (by omega)

end

/-- What all formulas for the difficulty have in common. -/
structure Retargets (formula : Nat → Header → Int) : Prop where
  minimum : ∀ time parent, minimumDifficulty ≤ formula time parent
  antitone : ∀ parent time later, time ≤ later → formula later parent ≤ formula time parent

theorem Retargets.ite {formula other : Nat → Header → Int} {select : Header → Bool}
    (first : Retargets formula) (second : Retargets other) :
    Retargets fun time parent =>
      if select parent then formula time parent else other time parent := by
  constructor
  · intro time parent
    split_ifs
    · exact first.minimum time parent
    · exact second.minimum time parent
  · intro parent
    split_ifs
    · exact first.antitone parent
    · exact second.antitone parent

theorem retargets_bomb {periodCount : Header → Int} {steps : Nat → Header → Int}
    (antitone : ∀ parent time later, time ≤ later → steps later parent ≤ steps time parent) :
    Retargets fun time parent =>
      difficultyBomb (periodCount parent) (adjustDifficulty parent (steps time parent)) where
  minimum _ _ := (le_max_right _ _).trans le_difficultyBomb
  antitone parent _ _ ordered :=
    difficultyBomb_mono (adjustDifficulty_mono parent (antitone parent _ _ ordered))

theorem calcDifficultyHomestead_retargets : Retargets calcDifficultyHomestead :=
  retargets_bomb fun parent time later ordered => by omega

theorem calcDifficultyFrontier_eq (time : Nat) (parent : Header) :
    calcDifficultyFrontier time parent =
      difficultyBomb (((parent.number : Int) + 1) / expDiffPeriod) (adjustDifficulty parent
          (if (time : Int) - parent.time < durationLimit then 1 else -1)) := by
  have adjusted : ∀ steps : Int, steps = 1 ∨ steps = -1 → max steps (-99) = steps := by omega
  have bomb : (0 : Int) < 2 ^ ((((parent.number : Int) + 1) / expDiffPeriod) - 2).toNat :=
    Int.pow_pos (by decide)
  simp only [calcDifficultyFrontier, difficultyBomb, adjustDifficulty]
  split_ifs <;> simp only [adjusted _ (.inl rfl), adjusted _ (.inr rfl)] <;> omega

theorem calcDifficultyFrontier_retargets : Retargets calcDifficultyFrontier := by
  rw [funext₂ calcDifficultyFrontier_eq]
  apply retargets_bomb
  intro parent time later ordered
  split_ifs <;> omega

section

variable [Crypto]

theorem makeDifficultyCalculator_retargets (bombDelay : Int) :
    Retargets (makeDifficultyCalculator bombDelay) :=
  retargets_bomb fun parent time later ordered => by omega

theorem calcDifficulty_retargets (config : ChainConfig) : Retargets (calcDifficulty config) := by
  have made := makeDifficultyCalculator_retargets
  exact .ite (made _) (.ite (made _) (.ite (made _) (.ite (made _) (.ite (made _)
    (.ite calcDifficultyHomestead_retargets calcDifficultyFrontier_retargets)))))

/-- A later block has at most the difficulty of an earlier one, and never less than the minimum. -/
theorem difficulty_falls_with_time (config : ChainConfig) (parent : Header) :
    (∀ time later, time ≤ later →
        calcDifficulty config later parent ≤ calcDifficulty config time parent) ∧
      ∀ time, minimumDifficulty ≤ calcDifficulty config time parent :=
  ⟨(calcDifficulty_retargets config).antitone parent,
    fun time => (calcDifficulty_retargets config).minimum time parent⟩

end

theorem toInt64_eq (value : Int) : ∃ turns : Int, toInt64 value = value + turns * 2 ^ 64 ∧
    -2 ^ 63 ≤ toInt64 value ∧ toInt64 value < 2 ^ 63 := by
  simp only [toInt64, uint64Size, Int.bmod_def]
  split_ifs
  · refine ⟨-(value / 2 ^ 64), ?_⟩
    omega
  · refine ⟨-(value / 2 ^ 64) - 1, ?_⟩
    omega

theorem toUint64_of_small {value : Nat} (small : value < uint64Size) : toUint64 value = value := by
  rw [toUint64, ← Int.natCast_emod, Int.toNat_natCast, Nat.mod_eq_of_lt small]

def gasLimitDistance (parent limit : Nat) : Nat :=
  (parent - limit) + (limit - parent)

/-- The rule for the gas limit of a child, over the integers. -/
def GasLimitRule (parent limit : Nat) : Prop :=
  minGasLimit ≤ limit ∧ gasLimitDistance parent limit < parent / gasLimitBoundDivisor

instance (parent limit : Nat) : Decidable (GasLimitRule parent limit) :=
  inferInstanceAs (Decidable (_ ∧ _))

section

variable {parent limit : Nat} (parentSmall : parent < uint64Size) (small : limit < uint64Size)
include parentSmall small

theorem verifyGaslimit_distance :
    toUint64 (if toInt64 (toInt64 parent - toInt64 limit) < 0 then
        toInt64 (-toInt64 (toInt64 parent - toInt64 limit))
      else toInt64 (toInt64 parent - toInt64 limit)) =
      min (gasLimitDistance parent limit) (uint64Size - gasLimitDistance parent limit) := by
  have signed : toInt64 (toInt64 parent - toInt64 limit) = toInt64 (parent - limit) := by
    simp [toInt64]
  rw [signed]
  rcases toInt64_eq (parent - limit) with ⟨turns, isSigned, _⟩
  rcases toInt64_eq (-toInt64 (parent - limit)) with ⟨back, isNegated, _⟩
  simp only [toUint64, gasLimitDistance, uint64Size] at *
  split_ifs <;> omega

theorem verifyGaslimit_eq_none_iff :
    verifyGaslimit parent limit = none ↔ minGasLimit ≤ limit ∧
      min (gasLimitDistance parent limit) (uint64Size - gasLimitDistance parent limit) <
        parent / gasLimitBoundDivisor := by
  simp only [verifyGaslimit, verifyGaslimit_distance parentSmall small]
  split_ifs with far low
  · simp only [false_iff]
    omega
  · simp only [false_iff]
    omega
  · simp only [true_iff]
    omega

/-- The rules differ for a small limit on a parent near the end of the range, where the way
around the circle is the shorter one. -/
theorem verifyGaslimit_rule_iff :
    (verifyGaslimit parent limit = none ↔ GasLimitRule parent limit) ↔
      limit < minGasLimit ∨ parent + parent / gasLimitBoundDivisor ≤ uint64Size + limit := by
  rw [verifyGaslimit_eq_none_iff parentSmall small, GasLimitRule]
  simp only [gasLimitDistance, gasLimitBoundDivisor] at *
  omega

end

def rejectsGasLimit : Except Fault Verdict → Bool
  | .ok (some (.gasLimitOutOfBounds ..)) => true
  | .ok (some .gasLimitBelowMinimum) => true
  | _ => false

theorem verifyGaslimit_eq_some {parent limit : Nat} {error : ConsensusError}
    (rejected : verifyGaslimit parent limit = some error) :
    rejectsGasLimit (.ok (some error)) = true := by
  simp only [verifyGaslimit] at rejected
  split_ifs at rejected <;> cases rejected <;> rfl

theorem rejectsGasLimit_eip1559 (config : ChainConfig) (parent header : Header) :
    rejectsGasLimit (verifyEip1559Header config parent header) =
      (verifyGaslimit (if config.isLondon parent.number then parent.gasLimit
        else toUint64 (parent.gasLimit * elasticityMultiplier)) header.gasLimit).isSome := by
  simp only [verifyEip1559Header]
  cases limited : verifyGaslimit (if config.isLondon parent.number then parent.gasLimit
    else toUint64 (parent.gasLimit * elasticityMultiplier)) header.gasLimit with
  | some error => exact verifyGaslimit_eq_some limited
  | none =>
    simp only
    split
    · rfl
    · split
      · rfl
      · split_ifs <;> rfl

/-- The code follows the rule exactly if the limit of the header is below the minimum, or that
of the parent with its 1024th part does not pass the end of the range by more than the
header's; under London rules likewise, with the doubled limit of a parent before the fork. -/
theorem gas_limit_rule_followed_iff {parent limit : Nat} (parentSmall : parent < uint64Size)
    (small : limit < uint64Size) :
    ((verifyGaslimit parent limit = none ↔ GasLimitRule parent limit) ↔
      limit < minGasLimit ∨ parent + parent / gasLimitBoundDivisor ≤ uint64Size + limit) ∧
    ∀ config (parent header : Header), parent.gasLimit ≤ maxGasLimit →
      header.gasLimit < uint64Size → ∀ limit, limit = (if config.isLondon parent.number
        then parent.gasLimit else parent.gasLimit * elasticityMultiplier) →
      ((rejectsGasLimit (verifyEip1559Header config parent header) = false ↔
          GasLimitRule limit header.gasLimit) ↔ header.gasLimit < minGasLimit ∨
          limit + limit / gasLimitBoundDivisor ≤ uint64Size + header.gasLimit) := by
  refine ⟨verifyGaslimit_rule_iff parentSmall small, ?_⟩
  rintro config parent header parentSmall small limit rfl
  have doubled : toUint64 (parent.gasLimit * elasticityMultiplier) =
      parent.gasLimit * elasticityMultiplier := by
    apply toUint64_of_small
    simp only [maxGasLimit, elasticityMultiplier, uint64Size] at *
    omega
  rw [rejectsGasLimit_eip1559, doubled, Option.isSome_eq_false_iff, Option.isNone_iff_eq_none]
  apply verifyGaslimit_rule_iff _ small
  simp only [maxGasLimit, elasticityMultiplier, uint64Size] at *
  split_ifs <;> omega

theorem gas_limit_rule_followed_nearby :
    verifyGaslimit 8000000 8000001 = none ↔ GasLimitRule 8000000 8000001 :=
  (gas_limit_rule_followed_iff (show 8000000 < uint64Size by decide)
    (show 8000001 < uint64Size by decide)).1.mpr (by decide)

theorem gas_limit_accepted_around_the_circle :
    verifyGaslimit (2 ^ 64 - 1) 5000 = none ∧ ¬ GasLimitRule (2 ^ 64 - 1) 5000 := by
  decide

section

variable {parent : Nat} (desired : Nat) (large : minGasLimit ≤ parent)
  (small : parent ≤ maxGasLimit)
include large small

theorem calcGasLimit_eq : calcGasLimit parent desired =
    if parent < max desired minGasLimit then
      min (max desired minGasLimit) (parent + (parent / gasLimitBoundDivisor - 1))
    else max (max desired minGasLimit) (parent - (parent / gasLimitBoundDivisor - 1)) := by
  simp only [calcGasLimit]
  split_ifs
  all_goals
    simp only [minGasLimit, maxGasLimit, gasLimitBoundDivisor, toUint64, uint64Size] at *
    omega

theorem calcGasLimit_le_max_iff :
    calcGasLimit parent desired ≤ maxGasLimit ↔
      min desired (parent + parent / gasLimitBoundDivisor - 1) ≤ maxGasLimit := by
  rw [calcGasLimit_eq desired large small]
  split_ifs
  all_goals
    omega

/-- The limit of a child lies between that of the parent and the desired one, and differs from
the former until the latter is reached. -/
theorem calcGasLimit_spec :
    gasLimitDistance parent (calcGasLimit parent desired) < parent / gasLimitBoundDivisor ∧
    (parent ≤ max desired minGasLimit → parent ≤ calcGasLimit parent desired ∧
      calcGasLimit parent desired ≤ max desired minGasLimit) ∧
    (max desired minGasLimit ≤ parent → max desired minGasLimit ≤ calcGasLimit parent desired ∧
      calcGasLimit parent desired ≤ parent) ∧
    (calcGasLimit parent desired = parent → parent = max desired minGasLimit) := by
  rw [calcGasLimit_eq desired large small, gasLimitDistance]
  split_ifs
  all_goals
    simp only [minGasLimit, gasLimitBoundDivisor] at *
    omega

theorem verifyGaslimit_calcGasLimit :
    verifyGaslimit parent (calcGasLimit parent desired) = none := by
  rcases calcGasLimit_spec desired large small with ⟨near, up, down, -⟩
  rw [gasLimitDistance] at near
  simp only [maxGasLimit, gasLimitBoundDivisor] at small near
  rw [verifyGaslimit_eq_none_iff, gasLimitDistance]
  · simp only [gasLimitBoundDivisor]
    omega
  · simp only [uint64Size]
    omega
  · simp only [uint64Size]
    omega

end

theorem calcGasLimit_reaches {desired : Nat} (desiredSmall : desired ≤ maxGasLimit) {parent : Nat}
    (large : minGasLimit ≤ parent) (small : parent ≤ maxGasLimit) :
    ∃ steps, (fun limit => calcGasLimit limit desired)^[steps] parent =
      max desired minGasLimit := by
  induction distance : gasLimitDistance parent (max desired minGasLimit) using
    Nat.strong_induction_on generalizing parent with
  | _ distance ih =>
    subst distance
    rcases calcGasLimit_spec desired large small with ⟨-, up, down, stays⟩
    by_cases reached : parent = max desired minGasLimit
    · exact ⟨0, reached⟩
    · rcases ih _ (by simp only [gasLimitDistance]; omega)
        (show minGasLimit ≤ calcGasLimit parent desired by omega) (by omega) rfl with ⟨steps, reach⟩
      exact ⟨steps + 1, reach⟩

/-- For every parent limit between the bounds and every desired one, the limit of the child is
accepted and does not pass the desired one, and repeated steps arrive there and stay. -/
theorem gas_limit_arrives {parent desired : Nat} (large : minGasLimit ≤ parent)
    (small : parent ≤ maxGasLimit) (desiredSmall : desired ≤ maxGasLimit) :
    verifyGaslimit parent (calcGasLimit parent desired) = none ∧
    (parent ≤ max desired minGasLimit → parent ≤ calcGasLimit parent desired ∧
      calcGasLimit parent desired ≤ max desired minGasLimit) ∧
    (max desired minGasLimit ≤ parent → max desired minGasLimit ≤ calcGasLimit parent desired ∧
      calcGasLimit parent desired ≤ parent) ∧
    ∃ steps, ∀ more ≥ steps, (fun limit => calcGasLimit limit desired)^[more] parent =
      max desired minGasLimit := by
  rcases calcGasLimit_spec desired large small with ⟨-, up, down, -⟩
  refine ⟨verifyGaslimit_calcGasLimit desired large small, up, down, ?_⟩
  rcases calcGasLimit_reaches desiredSmall large small with ⟨steps, reached⟩
  have kept : calcGasLimit (max desired minGasLimit) desired = max desired minGasLimit := by
    have bounds : minGasLimit ≤ maxGasLimit := by decide
    have between := calcGasLimit_spec desired (le_max_right desired minGasLimit)
      (max_le desiredSmall bounds)
    omega
  refine ⟨steps, fun more enough => ?_⟩
  rcases Nat.exists_eq_add_of_le' enough with ⟨extra, rfl⟩
  rw [Function.iterate_add_apply, reached]
  exact Function.iterate_fixed kept extra

theorem gas_limit_arrives_at_minimum :
    verifyGaslimit 8000000 (calcGasLimit 8000000 0) = none ∧
    ∃ steps, ∀ more ≥ steps, (fun limit => calcGasLimit limit 0)^[more] 8000000 = 5000 := by
  rcases gas_limit_arrives (show minGasLimit ≤ 8000000 by decide)
    (show 8000000 ≤ maxGasLimit by decide) (show 0 ≤ maxGasLimit by decide) with
    ⟨accepted, -, -, arrives⟩
  exact ⟨accepted, arrives⟩

def nextBaseFee (target baseFee gasUsed : Nat) : Nat :=
  if target < gasUsed then
    baseFee + max ((gasUsed - target) * baseFee / target / baseFeeChangeDenominator) 1
  else baseFee - (target - gasUsed) * baseFee / target / baseFeeChangeDenominator

section

variable {target : Nat} (baseFee : Nat) {gasUsed more : Nat}

theorem nextBaseFee_mono : Monotone (nextBaseFee target baseFee) := by
  have share : ∀ {surplus surplus' : Nat}, surplus ≤ surplus' →
      surplus * baseFee / target / baseFeeChangeDenominator ≤
        surplus' * baseFee / target / baseFeeChangeDenominator := by
    intro surplus surplus' ordered
    exact Nat.div_le_div_right (Nat.div_le_div_right (Nat.mul_le_mul_right baseFee ordered))
  intro gasUsed more ordered
  have above := share (Nat.sub_le_sub_right ordered target)
  have below := share (Nat.sub_le_sub_left ordered target)
  simp only [nextBaseFee]
  split_ifs
  · exact Nat.add_le_add_left (max_le_max_right 1 above) baseFee
  · omega
  · exact (Nat.sub_le _ _).trans (Nat.le_add_right _ _)
  · exact Nat.sub_le_sub_left below baseFee

theorem nextBaseFee_change (within : gasUsed ≤ 2 * target) :
    nextBaseFee target baseFee gasUsed ≤ baseFee + max 1 (baseFee / baseFeeChangeDenominator) ∧
      baseFee ≤ nextBaseFee target baseFee gasUsed +
        max 1 (baseFee / baseFeeChangeDenominator) := by
  have share : ∀ {surplus : Nat}, surplus ≤ target →
      surplus * baseFee / target / baseFeeChangeDenominator ≤
        baseFee / baseFeeChangeDenominator := by
    intro surplus bounded
    apply Nat.div_le_div_right
    exact Nat.div_le_of_le_mul (Nat.mul_le_mul_right baseFee bounded)
  have above := share (show gasUsed - target ≤ target by omega)
  have below := share (show target - gasUsed ≤ target by omega)
  rw [nextBaseFee]
  split_ifs
  · omega
  · refine ⟨(Nat.sub_le _ _).trans (Nat.le_add_right _ _), ?_⟩
    exact (Nat.sub_le_iff_le_add.mp (Nat.sub_le_sub_left below baseFee)).trans (by omega)

end

/-- For every parent under London rules with a base fee and an accepted gas limit, the fee does
not fall with the gas used, is that of the parent at the target, more above and not more
below it, and moves by at most an eighth, or by 1, up to twice the target. -/
theorem base_fee_follows_gas_used {config : ChainConfig} {parent : Header} {baseFee : Nat}
    (london : config.isLondon parent.number = true) (paid : parent.baseFee = some baseFee)
    (large : minGasLimit ≤ parent.gasLimit) :
    ∃ fee : Nat → Nat,
      (∀ gasUsed, calcBaseFee config { parent with gasUsed := gasUsed } = .ok (fee gasUsed)) ∧
      Monotone fee ∧ fee (parent.gasLimit / elasticityMultiplier) = baseFee ∧
      (∀ gasUsed, parent.gasLimit / elasticityMultiplier < gasUsed → baseFee < fee gasUsed) ∧
      (∀ gasUsed, gasUsed < parent.gasLimit / elasticityMultiplier → fee gasUsed ≤ baseFee) ∧
      ∀ gasUsed, gasUsed ≤ 2 * (parent.gasLimit / elasticityMultiplier) →
        fee gasUsed ≤ baseFee + max 1 (baseFee / baseFeeChangeDenominator) ∧
        baseFee ≤ fee gasUsed + max 1 (baseFee / baseFeeChangeDenominator) := by
  have target : parent.gasLimit / elasticityMultiplier ≠ 0 := by
    simp only [minGasLimit, elasticityMultiplier] at *
    omega
  refine ⟨nextBaseFee (parent.gasLimit / elasticityMultiplier) baseFee, ?_,
    nextBaseFee_mono baseFee, ?_, ?_, ?_, fun _ => nextBaseFee_change baseFee⟩
  · intro gasUsed
    simp only [calcBaseFee, paid, nextBaseFee]
    split_ifs with exactly
    · simp [exactly] at *
    · simp [exactly]
    · rfl
    · rfl
  · simp [nextBaseFee]
  · intro gasUsed above
    rw [nextBaseFee, if_pos above]
    omega
  · intro gasUsed below
    rw [nextBaseFee, if_neg (by omega)]
    exact Nat.sub_le _ _

theorem base_fee_follows_full_block :
    ∃ fee, calcBaseFee { londonBlock := some 0 }
      ⟨0, 0, 0, 0, 0, 0, 131072, 1, 10000, 10000, 0, [], 0, 0, some 80⟩ = .ok fee ∧
      80 < fee ∧ fee ≤ 90 := by
  rcases @base_fee_follows_gas_used { londonBlock := some 0 }
    ⟨0, 0, 0, 0, 0, 0, 131072, 1, 10000, 0, 0, [], 0, 0, some 80⟩ 80 rfl rfl (by decide) with
    ⟨fee, computed, -, -, above, -, change⟩
  exact ⟨fee 10000, computed 10000, above 10000 (by decide), (change 10000 (by decide)).1⟩

end Octopus
