import Octopus.Consensus.Arithmetic
import Octopus.Consensus.Batches

/-!
# Preparing a header for sealing

`prepareWork` builds the header that the miner works on.  The lines that would set the
base fee are commented out, so no prepared header is accepted under London rules.
-/

namespace Octopus

open Params

variable {config : ChainConfig} {parent header : Header} {unixNow : Int} {engine : PowEngine}
  {limit : Nat}

/-- `generateParams`, with the fields that the header depends on. -/
structure GenerateParams where
  timestamp : Nat
  forceTime : Bool
  coinbase : Address
  random : Hash
  deriving DecidableEq

variable {params : GenerateParams}

inductive PrepareError where
  | invalidTimestamp (parent given : Nat)
  | unknownAncestor
  deriving DecidableEq

/-- The timestamp of the header: one more than that of the parent if the given
one is not later. -/
def GenerateParams.effectiveTime (params : GenerateParams) (parent : Header) : Nat :=
  if params.timestamp ≤ parent.time then toUint64 (parent.time + 1) else params.timestamp

section

variable [Crypto] [Encoding]

def draftHeader (parent : Header) (params : GenerateParams) (gasCeil : Nat) : Header where
  parentHash := parent.hash
  coinbase := params.coinbase
  number := parent.number + 1
  gasLimit := calcGasLimit parent.gasLimit gasCeil
  time := params.effectiveTime parent
  mixDigest := params.random

def prepare (chain : ChainHeaderReader) (header : Header) : Except PrepareError Header :=
  match chain.getHeader header.parentHash header.parentNumber with
  | none => .error .unknownAncestor
  | some parent =>
    .ok { header with difficulty := (calcDifficulty chain.config header.time parent).toNat }

/-- `prepareWork` up to the header; the state of `makeEnv`, and its error without one, is left out.
-/
def prepareWork (chain : ChainHeaderReader) (parent : Header) (params : GenerateParams)
    (gasCeil : Nat) : Except PrepareError Header :=
  if params.timestamp ≤ parent.time ∧ params.forceTime then
    .error (.invalidTimestamp parent.time params.timestamp)
  else prepare chain (draftHeader parent params gasCeil)

def PowEngine.Accepted (engine : PowEngine) (config : ChainConfig) (parent : Header) : Prop :=
  ∃ grandparent checkSeal unixNow,
    engine.verifyHeader config parent grandparent false checkSeal unixNow = .ok none

end

theorem verifyGaslimit_min {parent : Nat} (accepted : verifyGaslimit parent limit = none) :
    minGasLimit ≤ limit := by
  by_contra low
  rw [Nat.not_le] at low
  simp only [verifyGaslimit] at accepted
  split_ifs at accepted

theorem verifyFees_min (accepted : verifyFees config parent header = .ok none) :
    minGasLimit ≤ header.gasLimit := by
  rw [verifyFees] at accepted
  split_ifs at accepted with london
  · rcases checked : verifyGaslimit (if config.isLondon parent.number then parent.gasLimit
      else toUint64 (parent.gasLimit * elasticityMultiplier)) header.gasLimit with _ | error
    · exact verifyGaslimit_min checked
    · simp [verifyEip1559Header, checked] at accepted
  · rcases fee : header.baseFee with _ | baseFee
    · simp only [fee, Except.ok.injEq] at accepted
      exact verifyGaslimit_min accepted
    · simp [fee] at accepted

theorem verifyFees_missing_baseFee (london : config.isLondon header.number = true)
    (missing : header.baseFee = none) : verifyFees config parent header ≠ .ok none := by
  intro accepted
  rw [verifyFees, if_pos london] at accepted
  rcases checked : verifyGaslimit (if config.isLondon parent.number then parent.gasLimit
    else toUint64 (parent.gasLimit * elasticityMultiplier)) header.gasLimit with _ | error
  · simp [verifyEip1559Header, checked, missing] at accepted
  · simp [verifyEip1559Header, checked] at accepted

section

variable [Crypto]

theorem PowEngine.verifyHeader_eq_none {uncle checkSeal : Bool}
    (accepted : engine.verifyHeader config header parent uncle checkSeal unixNow = .ok none) :
    verifyStamp config header parent uncle unixNow = none ∧
      verifyFees config parent header = .ok none := by
  rw [PowEngine.verifyHeader] at accepted
  rcases stamped : verifyStamp config header parent uncle unixNow with _ | error
  · simp only [stamped] at accepted
    rcases fees : verifyFees config parent header with fault | _ | error
    · simp [fees] at accepted
    · exact ⟨rfl, rfl⟩
    · simp [fees] at accepted
  · simp [stamped] at accepted

theorem verifyStamp_eq_none_iff :
    verifyStamp config header parent false unixNow = none ↔
      header.time ≤ toUint64 (unixNow + allowedFutureBlockTimeSeconds) ∧ parent.time < header.time ∧
        calcDifficulty config header.time parent = header.difficulty ∧
        header.gasLimit ≤ maxGasLimit ∧ header.gasUsed ≤ header.gasLimit := by
  simp only [verifyStamp, Bool.not_false]
  split_ifs <;> simp_all

theorem PowEngine.Accepted.bounds (accepted : engine.Accepted config parent) :
    minGasLimit ≤ parent.gasLimit ∧ parent.gasLimit ≤ maxGasLimit := by
  rcases accepted with ⟨_, _, _, accepted⟩
  rcases PowEngine.verifyHeader_eq_none accepted with ⟨stamp, fees⟩
  exact ⟨verifyFees_min fees, (verifyStamp_eq_none_iff.mp stamp).2.2.2.1⟩

end

section

variable [Crypto] [Encoding]

def preparedHeader (config : ChainConfig) (parent : Header) (params : GenerateParams)
    (gasCeil : Nat) : Header :=
  { draftHeader parent params gasCeil with
    difficulty := (calcDifficulty config (params.effectiveTime parent) parent).toNat }

theorem prepareWork_eq_ok {chain : ChainHeaderReader}
    (known : chain.getHeader parent.hash parent.numberU64 = some parent)
    (allowed : params.forceTime = true → parent.time < params.timestamp) (gasCeil : Nat) :
    prepareWork chain parent params gasCeil =
      .ok (preparedHeader chain.config parent params gasCeil) := by
  have found : (draftHeader parent params gasCeil).parentNumber = parent.numberU64 := by
    simp only [Header.parentNumber, Header.numberU64, draftHeader, toUint64, uint64Size]
    omega
  have free : ¬ (params.timestamp ≤ parent.time ∧ params.forceTime = true) := by
    rintro ⟨_, forced⟩
    have later := allowed forced
    omega
  rw [prepareWork, if_neg free, prepare, found]
  simp [draftHeader, known, preparedHeader]

theorem preparedHeader_stamp {gasCeil : Nat} :
    verifyStamp config (preparedHeader config parent params gasCeil) parent false unixNow = none ↔
      params.effectiveTime parent ≤ toUint64 (unixNow + allowedFutureBlockTimeSeconds) ∧
        parent.time < params.effectiveTime parent ∧
        calcGasLimit parent.gasLimit gasCeil ≤ maxGasLimit := by
  have difficulty : ((calcDifficulty config (params.effectiveTime parent) parent).toNat : Int) =
      calcDifficulty config (params.effectiveTime parent) parent :=
    Int.toNat_of_nonneg (le_trans (by decide) ((calcDifficulty_retargets config).minimum _ _))
  rw [verifyStamp_eq_none_iff]
  simp [preparedHeader, draftHeader, difficulty]

/-- The header that `prepareWork` builds is accepted on top of its parent exactly if London
rules do not apply to it, its time is not too far in the future and did not wrap around, and
the gas limit stays below its maximum. -/
theorem prepared_header_accepted_iff (engine : PowEngine) (chain : ChainHeaderReader)
    {parent : Header} (accepted : engine.Accepted chain.config parent)
    (known : chain.getHeader parent.hash parent.numberU64 = some parent)
    {params : GenerateParams} (allowed : params.forceTime = true → parent.time < params.timestamp)
    (gasCeil : Nat) (unixNow : Int) :
    ∃ header, prepareWork chain parent params gasCeil = .ok header ∧
      (engine.verifyHeader chain.config header parent false false unixNow = .ok none ↔
        chain.config.isLondon (parent.number + 1) = false ∧
        params.effectiveTime parent ≤ toUint64 (unixNow + allowedFutureBlockTimeSeconds) ∧
        parent.time < params.effectiveTime parent ∧
        min gasCeil (parent.gasLimit + parent.gasLimit / Params.gasLimitBoundDivisor - 1) ≤
          Params.maxGasLimit) := by
  rcases accepted.bounds with ⟨large, small⟩
  refine ⟨_, prepareWork_eq_ok known allowed gasCeil, ?_⟩
  rw [← calcGasLimit_le_max_iff gasCeil large small]
  constructor
  · intro verified
    rcases PowEngine.verifyHeader_eq_none verified with ⟨stamp, fees⟩
    refine ⟨?_, preparedHeader_stamp.mp stamp⟩
    -- under London rules the missing base fee is an error, unless the gas limit is one
    by_contra london
    rw [Bool.not_eq_false] at london
    exact verifyFees_missing_baseFee london rfl fees
  · rintro ⟨early, inTime⟩
    have stamp : verifyStamp chain.config (preparedHeader chain.config parent params gasCeil)
        parent false unixNow = none := preparedHeader_stamp.mpr inTime
    have limited := verifyGaslimit_calcGasLimit gasCeil large small
    have fees : verifyFees chain.config parent
        (preparedHeader chain.config parent params gasCeil) = .ok none := by
      simp [verifyFees, preparedHeader, draftHeader, early, limited]
    have number : ((preparedHeader chain.config parent params gasCeil).number : Int) -
        parent.number = 1 := by
      simp only [preparedHeader, draftHeader]
      omega
    simp [PowEngine.verifyHeader, stamp, fees, number]

end

def londonGrandparent : Header :=
  { feelessHeader with number := 1, gasUsed := 2500, baseFee := some 1000000000 }

def londonParent : Header :=
  { londonGrandparent with number := 2, time := 2, gasUsed := 0, difficulty := 131136 }

def londonMiner : ChainHeaderReader :=
  { londonChain with getHeader := fun _ _ => some londonParent }

def plainParams : GenerateParams where
  timestamp := 3
  forceTime := false
  coinbase := 0
  random := 0

/-- The parent is accepted, and the header that is prepared on it is not, for want
of a base fee. -/
theorem prepared_header_lacks_base_fee :
    letI := sampleCrypto
    letI := blankEncoding
    plainEngine.Accepted londonMiner.config londonParent ∧
    ∃ header, prepareWork londonMiner londonParent plainParams 30000000 = .ok header ∧
      plainEngine.verifyHeader londonMiner.config header londonParent false false 3 =
        .ok (some .missingBaseFee) := by
  refine ⟨⟨londonGrandparent, false, 2, rfl⟩, _, rfl, rfl⟩

def frontierParent : Header :=
  { feelessHeader with number := 2, time := 2, difficulty := 131136 }

def frontierMiner : ChainHeaderReader where
  config := {}
  getHeader _ _ := some frontierParent
  getTd _ _ := none

theorem sample_prepared_header_accepted_iff :
    letI := sampleCrypto
    letI := blankEncoding
    plainEngine.Accepted frontierMiner.config frontierParent ∧
    ∃ header, prepareWork frontierMiner frontierParent plainParams 30000000 = .ok header ∧
      plainEngine.verifyHeader frontierMiner.config header frontierParent false false 3 =
        .ok none := by
  let := sampleCrypto
  let := blankEncoding
  have accepted : plainEngine.Accepted frontierMiner.config frontierParent :=
    ⟨feelessHeader, false, 2, rfl⟩
  refine ⟨accepted, ?_⟩
  rcases prepared_header_accepted_iff plainEngine frontierMiner accepted rfl
    (show plainParams.forceTime = true → _ from nofun) 30000000 3 with ⟨header, built, exactly⟩
  exact ⟨header, built, exactly.mpr ⟨rfl, by decide, by decide, by decide⟩⟩

end Octopus
