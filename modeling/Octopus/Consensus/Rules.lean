import Octopus.Entity.Block

/-!
# Rules for one header

The errors with which the engines reject a header, and the arithmetic of difficulty, gas
limit and base fee.
-/

namespace Octopus

open Params

/-- The errors of `verifyHeader`, `verifySeal` and the beacon rules, with the values printed. -/
inductive ConsensusError where
  | unknownAncestor
  | futureBlock
  | invalidNumber
  | invalidTerminalBlock
  | olderBlockTime
  | wrongDifficulty (given expected : Int)
  | gasLimitTooLarge (given maximum : Nat)
  | gasUsedTooLarge (given gasLimit : Nat)
  | baseFeeBeforeFork (given : Nat)
  | gasLimitOutOfBounds (given parent distance : Nat)
  | gasLimitBelowMinimum
  | missingBaseFee
  | wrongBaseFee (given expected : Nat) (parentBaseFee : Option Nat) (parentGasUsed : Nat)
  | nonPositiveDifficulty
  | invalidMixDigest
  | invalidPoW
  | extraDataTooLong (length : Nat)
  | invalidNonce
  | invalidUncleHash
  | invalidTimestamp
  deriving DecidableEq

abbrev Verdict := Option ConsensusError

namespace Params

def gasLimitBoundDivisor : Nat := 1024
def minGasLimit : Nat := 5000
def maxGasLimit : Nat := 0x7fffffffffffffff
def baseFeeChangeDenominator : Nat := 8
def elasticityMultiplier : Nat := 2
def initialBaseFee : Nat := 1000000000
def difficultyBoundDivisor : Int := 2048
def minimumDifficulty : Int := 131072
def durationLimit : Int := 13
def expDiffPeriod : Int := 100000

end Params

def toInt64 (value : Int) : Int :=
  Int.bmod value uint64Size

def toUint64 (value : Int) : Nat :=
  (value % uint64Size).toNat

def verifyGaslimit (parentGasLimit headerGasLimit : Nat) : Verdict :=
  let signed := toInt64 (toInt64 parentGasLimit - toInt64 headerGasLimit)
  let diff := if signed < 0 then toInt64 (-signed) else signed
  let limit := parentGasLimit / gasLimitBoundDivisor
  if limit ≤ toUint64 diff then
    some (.gasLimitOutOfBounds headerGasLimit parentGasLimit (toUint64 ((limit : Int) - 1)))
  else if headerGasLimit < minGasLimit then some .gasLimitBelowMinimum
  else none

def calcGasLimit (parentGasLimit desiredLimit : Nat) : Nat :=
  let delta := toUint64 ((parentGasLimit / gasLimitBoundDivisor : Nat) - 1)
  let desired := if desiredLimit < minGasLimit then minGasLimit else desiredLimit
  if parentGasLimit < desired then
    let limit := toUint64 (parentGasLimit + delta)
    if desired < limit then desired else limit
  else if desired < parentGasLimit then
    let limit := toUint64 (parentGasLimit - delta)
    if limit < desired then desired else limit
  else parentGasLimit

/-- `CalcBaseFee`.  A parent under London rules whose base fee is nil, or whose
gas target is zero, makes it panic. -/
def calcBaseFee (config : ChainConfig) (parent : Header) : Except Fault Nat :=
  if config.isLondon parent.number then
    let target := parent.gasLimit / elasticityMultiplier
    match parent.baseFee with
    | none => .error nilDereference
    | some baseFee =>
      if parent.gasUsed = target then .ok baseFee
      else if target = 0 then .error (.panic "division by zero")
      else if target < parent.gasUsed then
        .ok (baseFee + max ((parent.gasUsed - target) * baseFee / target /
          baseFeeChangeDenominator) 1)
      else
        .ok (baseFee - (target - parent.gasUsed) * baseFee / target /
          baseFeeChangeDenominator)
  else .ok initialBaseFee

def verifyEip1559Header (config : ChainConfig) (parent header : Header) : Except Fault Verdict :=
  let parentGasLimit :=
    if config.isLondon parent.number then parent.gasLimit
    else toUint64 (parent.gasLimit * elasticityMultiplier)
  match verifyGaslimit parentGasLimit header.gasLimit with
  | some error => .ok (some error)
  | none =>
    match header.baseFee with
    | none => .ok (some .missingBaseFee)
    | some baseFee =>
      match calcBaseFee config parent with
      | .error fault => .error fault
      | .ok expected =>
        if baseFee = expected then .ok none
        else .ok (some (.wrongBaseFee baseFee expected parent.baseFee parent.gasUsed))

variable [Crypto]

def emptyUncleHash : Hash :=
  Crypto.keccak256 [0xc0]

def difficultyBomb (periodCount difficulty : Int) : Int :=
  if 1 < periodCount then difficulty + 2 ^ (periodCount - 2).toNat else difficulty

/-- The difficulty before the exponential part: an adjustment of the parent's
in units of its 2048th part. -/
def adjustDifficulty (parent : Header) (steps : Int) : Int :=
  max (parent.difficulty + parent.difficulty / difficultyBoundDivisor * max steps (-99))
    minimumDifficulty

def makeDifficultyCalculator (bombDelay : Int) (time : Nat) (parent : Header) : Int :=
  let uncles : Int := if parent.uncleHash = emptyUncleHash then 1 else 2
  let fakeBlockNumber : Int :=
    if bombDelay - 1 ≤ parent.number then parent.number - (bombDelay - 1) else 0
  difficultyBomb (fakeBlockNumber / expDiffPeriod)
    (adjustDifficulty parent (uncles - ((time : Int) - parent.time) / 9))

def calcDifficultyEip4345 : Nat → Header → Int :=
  makeDifficultyCalculator 10700000

def calcDifficultyEip3554 : Nat → Header → Int :=
  makeDifficultyCalculator 9700000

def calcDifficultyEip2384 : Nat → Header → Int :=
  makeDifficultyCalculator 9000000

def calcDifficultyConstantinople : Nat → Header → Int :=
  makeDifficultyCalculator 5000000

def calcDifficultyByzantium : Nat → Header → Int :=
  makeDifficultyCalculator 3000000

def calcDifficultyHomestead (time : Nat) (parent : Header) : Int :=
  difficultyBomb (((parent.number : Int) + 1) / expDiffPeriod)
    (adjustDifficulty parent (1 - ((time : Int) - parent.time) / 10))

def calcDifficultyFrontier (time : Nat) (parent : Header) : Int :=
  let adjust := parent.difficulty / difficultyBoundDivisor
  let adjusted :=
    if (time : Int) - parent.time < durationLimit then parent.difficulty + adjust
    else parent.difficulty - adjust
  let diff := max adjusted minimumDifficulty
  let periodCount := ((parent.number : Int) + 1) / expDiffPeriod
  if 1 < periodCount then max (diff + 2 ^ (periodCount - 2).toNat) minimumDifficulty
  else diff

def calcDifficulty (config : ChainConfig) (time : Nat) (parent : Header) : Int :=
  let next := parent.number + 1
  if config.isArrowGlacier next then calcDifficultyEip4345 time parent
  else if config.isLondon next then calcDifficultyEip3554 time parent
  else if config.isMuirGlacier next then calcDifficultyEip2384 time parent
  else if config.isConstantinople next then calcDifficultyConstantinople time parent
  else if config.isByzantium next then calcDifficultyByzantium time parent
  else if config.isHomestead next then calcDifficultyHomestead time parent
  else calcDifficultyFrontier time parent

end Octopus
